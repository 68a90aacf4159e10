import Ps2Recomp.Proof.SifRpc

/-!
# The lists of queues and servers

`Lists` is what holds of the lists in memory and of the ledger; `Lists.set`, `Lists.register`, `Lists.removeQueue`
and `Lists.removeServer` say that the calls keep it, where `Call.Keeps` holds.
-/

namespace Ps2Recomp.SifRpc

open Intrusive Intrusive.Chain Memory VSync

variable {spr : Bool} {L : Layout Kind.words spr} {m m' : GuestMemory} {q q' x sd v : Word} {l : List Word}
  {guard : ℕ}

theorem toPtr_of_ne (h : v ≠ 0) : toPtr v = some v := if_neg h

theorem toPtr_eq_some {p : Word} (h : toPtr v = some p) : v = p ∧ p ≠ 0 := by
  rw [toPtr] at h
  split at h
  · cases h
  · rename_i hv
    cases h
    exact ⟨rfl, hv⟩

theorem toPtr_eq_none (h : toPtr v = none) : v = 0 := by
  rw [toPtr] at h
  split at h
  · assumption
  · cases h

theorem spells_cases {c : Chain Word} (h : c.Spells (toPtr v) l) :
    (v = 0 ∧ l = []) ∨ ∃ l', v ≠ 0 ∧ l = v :: l' ∧ c.Spells (c.next v) l' := by
  cases l with
  | nil => exact .inl ⟨toPtr_eq_none h, rfl⟩
  | cons n l' =>
    obtain ⟨rfl, hn⟩ := toPtr_eq_some h.1
    exact .inr ⟨l', hn, rfl, h.2⟩

theorem mem_inserted : x ∈ inserted l v ↔ x ∈ l ∨ x = v := by
  rw [inserted]
  split
  · rename_i hv
    exact ⟨.inl, fun h => h.elim id fun h => h ▸ hv⟩
  · rw [List.mem_append, List.mem_singleton]

theorem nodup_inserted (h : l.Nodup) : (inserted l v).Nodup := by
  rw [inserted]
  split
  · exact h
  · rename_i hv
    exact List.nodup_append.2 ⟨h, List.nodup_singleton v, by rintro x hx _ hy rfl; exact hv (List.mem_singleton.1 hy ▸ hx)⟩

theorem getLast?_of_lastSlot (h : lastSlot l = .next x) : l.getLast? = some x := by
  rw [lastSlot] at h
  split at h
  · cases h
  · cases h
    assumption

/-! ### Walks -/

/-- `g` looks behind a record of a list, linked through the field `i`, for the link to the record `t`. -/
structure Searches (L : Layout Kind.words spr) (m : GuestMemory) (k : Kind) (i : ℕ) (t : Word)
    (g : ℕ → Word → Option GuestMemory) (edit : Word → GuestMemory) : Prop where
  limit : ∀ y, g 0 y = none
  null : ∀ guard, g guard 0 = none
  step : ∀ guard y, L.kind y = some k →
    g (guard + 1) y = if field spr m y i = t then some (edit y) else g guard (field spr m y i)

namespace Searches

variable {k : Kind} {i : ℕ} {t : Word} {g : ℕ → Word → Option GuestMemory} {edit : Word → GuestMemory}
  {c : Chain Word}

section

variable (hg : Searches L m k i t g edit) (hc : ∀ y, c.next y = toPtr (field spr m y i))

include hg hc

theorem mem {a b : List Word}
    (hl : c.Spells (toPtr x) (x :: (a ++ t :: b))) (hk : ∀ y ∈ x :: (a ++ t :: b), L.kind y = some k) (ha : t ∉ a)
    (hlength : a.length < guard) : g guard x = some (edit (a.getLast?.getD x)) := by
  induction a generalizing x guard with
  | nil =>
    obtain ⟨guard, rfl⟩ : ∃ n, guard = n + 1 := ⟨guard - 1, by omega⟩
    have hnext : field spr m x i = t := (toPtr_eq_some ((hc x).symm.trans hl.2.1)).1
    rw [hg.step guard x (hk x List.mem_cons_self), if_pos hnext]
    rfl
  | cons y a ih =>
    obtain ⟨guard, rfl⟩ : ∃ n, guard = n + 1 := ⟨guard - 1, by omega⟩
    obtain ⟨hnext, hy0⟩ := toPtr_eq_some ((hc x).symm.trans hl.2.1)
    have hne : y ≠ t := fun h => ha (h ▸ List.mem_cons_self)
    rw [hg.step guard x (hk x List.mem_cons_self), hnext, if_neg hne,
      ih ⟨toPtr_of_ne hy0, hl.2.2⟩ (fun z hz => hk z (List.mem_cons_of_mem _ hz))
        (fun h => ha (List.mem_cons_of_mem _ h)) (by simpa using hlength), List.getLast?_cons, Option.getD_some]

theorem not_mem
    (hl : c.Spells (toPtr x) l) (hk : ∀ y ∈ l, L.kind y = some k) (ht : t ∉ l) (h0 : t ≠ 0) : g guard x = none := by
  induction guard generalizing x l with
  | zero => exact hg.limit x
  | succ guard ih =>
    obtain ⟨rfl, -⟩ | ⟨l', -, rfl, hl'⟩ := spells_cases hl
    · exact hg.null _
    rw [hc x] at hl'
    have hne : field spr m x i ≠ t := by
      intro heq
      obtain ⟨h, -⟩ | ⟨l'', -, rfl, -⟩ := spells_cases hl'
      · exact h0 (heq.symm.trans h)
      · exact ht (heq ▸ List.mem_cons_of_mem _ List.mem_cons_self)
    rw [hg.step guard x (hk x List.mem_cons_self), if_neg hne]
    exact ih hl' (fun y hy => hk y (List.mem_cons_of_mem _ hy)) fun h => ht (List.mem_cons_of_mem _ h)

end

end Searches

/-- **The walk of `SifRemoveRpc`**. -/
theorem unlinkServer_searches : Searches L m .server Server.link sd (fun guard y => unlinkServer spr sd guard y m)
    fun y => match getMemPtr spr sd with
      | some p => setWord (setWord m (L.ptr y) Server.link (word m p Server.link)) p Server.link 0
      | none => setWord m (L.ptr y) Server.link 0 where
  limit := fun _ => rfl
  null := by rintro (_ | guard) <;> rfl
  step guard y hy := by
    simp only [unlinkServer, L.resolves hy, if_neg (L.ne_zero hy)]
    exact L.field_eq hy m Server.link ▸ rfl

/-- **The walk of `SifRemoveRpcQueue`**. -/
theorem unlinkQueue_searches : Searches L m .queue Queue.next q (fun guard y => unlinkQueue spr q guard y m)
    fun y => setWord m (L.ptr y) Queue.next (field spr m q Queue.next) where
  limit := fun _ => rfl
  null := by rintro (_ | guard) <;> rfl
  step guard y hy := by
    simp only [unlinkQueue, L.resolves hy, if_neg (L.ne_zero hy), L.field_eq hy]
    rfl

section Servers

/-- **The walk of `SifRegisterRpc`**, from the server `x`. -/
theorem appendServer_eq (hl : (serverChain spr m q).Spells (toPtr x) (x :: l))
    (hk : ∀ y ∈ x :: l, L.kind y = some .server) (hg : l.length < guard) :
    appendServer spr sd guard x m =
      if sd ∈ l then m else setWord m (L.ptr (l.getLast?.getD x)) Server.link sd := by
  induction l generalizing x guard with
  | nil =>
    obtain ⟨guard, rfl⟩ : ∃ g, guard = g + 1 := ⟨guard - 1, by omega⟩
    have hx := hk x List.mem_cons_self
    have hnext : field spr m x Server.link = 0 := toPtr_eq_none hl.2
    rw [L.field_eq hx] at hnext
    simp only [appendServer, L.resolves hx, if_neg (L.ne_zero hx), if_pos hnext]
    rfl
  | cons y l ih =>
    obtain ⟨guard, rfl⟩ : ∃ g, guard = g + 1 := ⟨guard - 1, by omega⟩
    have hx := hk x List.mem_cons_self
    have hy := hk y (List.mem_cons_of_mem _ List.mem_cons_self)
    obtain ⟨hnext, hy0⟩ : field spr m x Server.link = y ∧ y ≠ 0 := toPtr_eq_some hl.2.1
    have hl' : (serverChain spr m q).Spells (toPtr y) (y :: l) := ⟨toPtr_of_ne hy0, hl.2.2⟩
    rw [L.field_eq hx] at hnext
    simp only [appendServer, L.resolves hx, if_neg (L.ne_zero hx), hnext, if_neg hy0]
    by_cases hsd : y = sd
    · rw [if_pos hsd, if_pos (hsd ▸ List.mem_cons_self)]
    · rw [if_neg hsd, ih hl' (fun z hz => hk z (List.mem_cons_of_mem _ hz)) (by simpa using hg),
        List.getLast?_cons, Option.getD_some]
      refine if_congr ?_ rfl rfl
      rw [List.mem_cons, or_iff_right fun h => hsd h.symm]

end Servers

section Queues

/-- **The walk of `SifSetRpcQueue`**, from the queue `x`. -/
theorem appendQueue_eq (hl : (queueChain spr m v).Spells (toPtr x) (x :: l))
    (hk : ∀ y ∈ x :: l, L.kind y = some .queue) (hg : l.length < guard) :
    appendQueue spr q guard x m =
      if q ∈ x :: l then m else setWord m (L.ptr (l.getLast?.getD x)) Queue.next q := by
  induction l generalizing x guard with
  | nil =>
    obtain ⟨guard, rfl⟩ : ∃ g, guard = g + 1 := ⟨guard - 1, by omega⟩
    have hx := hk x List.mem_cons_self
    have hnext : field spr m x Queue.next = 0 := toPtr_eq_none hl.2
    rw [L.field_eq hx] at hnext
    simp only [appendQueue, L.resolves hx, if_neg (L.ne_zero hx), if_pos hnext, List.mem_singleton]
    exact if_congr eq_comm rfl rfl
  | cons y l ih =>
    obtain ⟨guard, rfl⟩ : ∃ g, guard = g + 1 := ⟨guard - 1, by omega⟩
    have hx := hk x List.mem_cons_self
    obtain ⟨hnext, hy0⟩ : field spr m x Queue.next = y ∧ y ≠ 0 := toPtr_eq_some hl.2.1
    have hl' : (queueChain spr m v).Spells (toPtr y) (y :: l) := ⟨toPtr_of_ne hy0, hl.2.2⟩
    rw [L.field_eq hx] at hnext
    simp only [appendQueue, L.resolves hx, if_neg (L.ne_zero hx), hnext, if_neg hy0]
    by_cases hq : x = q
    · rw [if_pos hq, if_pos (hq ▸ List.mem_cons_self)]
    · rw [if_neg hq, ih hl' (fun z hz => hk z (List.mem_cons_of_mem _ hz)) (by simpa using hg),
        List.getLast?_cons, Option.getD_some]
      refine if_congr ?_ rfl rfl
      rw [List.mem_cons (a := q) (b := x), or_iff_right fun h => hq h.symm]

end Queues

/-! ### Invariant -/

/-- The lists in memory are those of the ledger, over records of the right kinds, and two lists share at most
their last server. -/
structure Lists (L : Layout Kind.words spr) (m : GuestMemory) (activeQueue : Word) (l : Ledger) : Prop where
  queues : (queueChain spr m activeQueue).Spells (toPtr activeQueue) l.queues
  queues_nodup : l.queues.Nodup
  servers : ∀ q ∈ l.known, (serverChain spr m q).Spells (toPtr (field spr m q Queue.link)) (l.servers q)
  servers_nodup : ∀ q, (l.servers q).Nodup
  known_kind : ∀ q ∈ l.known, L.kind q = some .queue
  queues_known : ∀ q ∈ l.queues, q ∈ l.known
  servers_kind : ∀ q, ∀ sd ∈ l.servers q, L.kind sd = some .server
  servers_known : ∀ q, l.servers q ≠ [] → q ∈ l.known
  shared : ∀ q q' sd, q ≠ q' → sd ∈ l.servers q → sd ∈ l.servers q' → (l.servers q).getLast? = some sd

namespace Lists

variable {a : Word} {l : Ledger}

section

variable (h : Lists L m a l)

include h

theorem congr (hq : ∀ q, L.kind q = some .queue →
      field spr m' q Queue.link = field spr m q Queue.link ∧ field spr m' q Queue.next = field spr m q Queue.next)
    (hs : ∀ q, ∀ sd ∈ l.servers q, field spr m' sd Server.link = field spr m sd Server.link) :
    Lists L m' a l where
  queues := by
    refine h.queues.congr fun p hp => ?_
    have hlink := (hq p (h.known_kind p (h.queues_known p hp))).2
    exact congrArg toPtr hlink
  queues_nodup := h.queues_nodup
  servers := by
    intro q hqk
    rw [(hq q (h.known_kind q hqk)).1]
    exact (h.servers q hqk).congr fun p hp => congrArg toPtr (hs q p hp)
  servers_nodup := h.servers_nodup
  known_kind := h.known_kind
  queues_known := h.queues_known
  servers_kind := h.servers_kind
  servers_known := h.servers_known
  shared := h.shared

theorem of_keepsLinks (hm : L.KeepsLinks m m') : Lists L m' a l :=
  h.congr (fun q hq => (hm q).2 hq) fun q sd hsd => (hm sd).1 (h.servers_kind q sd hsd)

theorem link_last (hl : (l.servers q).getLast? = some sd) : field spr m sd Server.link = 0 := by
  have hne : l.servers q ≠ [] := by
    intro heq
    rw [heq] at hl
    cases hl
  exact toPtr_eq_none ((h.servers q (h.servers_known q hne)).next_last hl)

end

end Lists

/-! ### Queues -/

variable {s : RpcState} {l' : List Word}

namespace Lists

variable {a : Word} {l : Ledger}

section

variable (h : Lists L m a l)

include h

theorem reset (hq : L.kind q = some .queue) (hs : l.servers q = [])
    (hlast : q ∈ l.queues → l.queues.getLast? = some q) (ht : m' = setWords m (L.ptr q)
      [(Queue.threadId, v), (Queue.active, 0), (Queue.link, 0), (Queue.start, 0), (Queue.stop, 0), (Queue.next, 0)]) :
    Lists L m' a { l with known := inserted l.known q } ∧ field spr m' q Queue.next = 0 := by
  have hwords : ∀ e ∈ [(Queue.threadId, v), (Queue.active, 0), (Queue.link, 0), (Queue.start, 0), (Queue.stop, 0),
      (Queue.next, 0)], e.1 < Kind.queue.words := by
    simp [Kind.words, Queue.link, Queue.start, Queue.stop]
  have hself : ∀ j < Kind.queue.words, field spr m' q j = (List.lookup j
      [(Queue.next, 0), (Queue.stop, 0), (Queue.start, 0), (Queue.link, 0), (Queue.active, 0),
        (Queue.threadId, v)]).getD (field spr m q j) := by
    intro j hj
    rw [ht]
    exact L.field_setWords_self hq hwords hj
  have hlink : field spr m' q Queue.link = 0 := hself Queue.link (by decide)
  have hnext : field spr m' q Queue.next = 0 := hself Queue.next (by decide)
  have hother : ∀ p k, L.kind p = some k → p ≠ q → ∀ j < k.words, field spr m' p j = field spr m p j := by
    intro p k hp hpq j hj
    rw [ht]
    exact L.field_setWords_ne hq hwords hp hj hpq
  have hserver : ∀ q', ∀ sd ∈ l.servers q', field spr m' sd Server.link = field spr m sd Server.link := by
    intro q' sd hsd
    have hk := h.servers_kind q' sd hsd
    exact hother sd .server hk (L.ne_of_kind hk hq (by decide)) _ (by decide)
  refine ⟨⟨?_, h.queues_nodup, ?_, h.servers_nodup, ?_, ?_, h.servers_kind, ?_, h.shared⟩, hnext⟩
  · refine h.queues.congr fun p hp => congrArg toPtr ?_
    have hk := h.known_kind p (h.queues_known p hp)
    by_cases hpq : p = q
    · -- the last queue has no successor
      rw [hpq, hnext]
      exact (toPtr_eq_none (h.queues.next_last (hlast (hpq ▸ hp)))).symm
    · exact hother p .queue hk hpq _ (by decide)
  · intro q' hq'
    by_cases hqq : q' = q
    · rw [hqq, hlink, hs]
      rfl
    · have hq'k : q' ∈ l.known := (mem_inserted.1 hq').resolve_right hqq
      rw [hother q' .queue (h.known_kind q' hq'k) hqq _ (by decide)]
      exact (h.servers q' hq'k).congr fun p hp => congrArg toPtr (hserver q' p hp)
  · intro q' hq'
    obtain hq' | rfl := mem_inserted.1 hq'
    · exact h.known_kind q' hq'
    · exact hq
  · exact fun q' hq' => mem_inserted.2 (.inl (h.queues_known q' hq'))
  · exact fun q' hq' => mem_inserted.2 (.inl (h.servers_known q' hq'))

theorem of_queues {a' : Word}
    (hlink : ∀ q, L.kind q = some .queue → field spr m' q Queue.link = field spr m q Queue.link)
    (hserver : ∀ sd, L.kind sd = some .server → field spr m' sd Server.link = field spr m sd Server.link)
    (hl : (queueChain spr m' a').Spells (toPtr a') l') (hnd : l'.Nodup) (hk : ∀ q ∈ l', q ∈ l.known) :
    Lists L m' a' { l with queues := l' } where
  queues := hl
  queues_nodup := hnd
  servers := by
    intro q hq
    rw [hlink q (h.known_kind q hq)]
    exact (h.servers q hq).congr fun p hp => congrArg toPtr (hserver p (h.servers_kind q p hp))
  servers_nodup := h.servers_nodup
  known_kind := h.known_kind
  queues_known := hk
  servers_kind := h.servers_kind
  servers_known := h.servers_known
  shared := h.shared

theorem of_setNext {a' x : Word} (hx : L.kind x = some .queue)
    (hl : (queueChain spr (setWord m (L.ptr x) Queue.next v) a').Spells (toPtr a') l') (hnd : l'.Nodup)
    (hk : ∀ q ∈ l', q ∈ l.known) : Lists L (setWord m (L.ptr x) Queue.next v) a' { l with queues := l' } := by
  refine h.of_queues (fun q hq => ?_) (fun sd hsd => ?_) hl hnd hk
  · exact L.field_setWord_ne hx (by decide) hq (by decide) fun _ => by decide
  · exact L.field_setWord_ne hx (by decide) hsd (by decide) fun heq => absurd heq (L.ne_of_kind hsd hx (by decide))

end

theorem get_setNext {r : Slot Word} (hx : L.kind x = some .queue) (hr : ∀ p, r = .next p → L.kind p = some .queue) :
    (queueChain spr (setWord m (L.ptr x) Queue.next v) q).get r =
      if r = .next x then toPtr v else (queueChain spr m q).get r := by
  cases r with
  | head => rfl
  | next p =>
    have hfield := L.field_setWord (m := m) (v := v) hx (show Queue.next < _ by decide) (hr p rfl)
      (show Queue.next < _ by decide)
    refine (congrArg toPtr hfield).trans ?_
    by_cases hpx : p = x
    · rw [if_pos ⟨hpx, rfl⟩, if_pos (hpx ▸ rfl)]
    · rw [if_neg fun h => hpx h.1, if_neg fun h => hpx (Slot.next.inj h)]
      rfl

theorem enqueue (h : Lists L m a l) (hq : q ∈ l.known) (hn : field spr m q Queue.next = 0)
    (hsmall : l.queues.length < 1024) :
    Lists L (if a = 0 then m else appendQueue spr q kListGuard a m) (if a = 0 then q else a)
      { l with queues := inserted l.queues q } := by
  have hqk : L.kind q = some .queue := h.known_kind q hq
  have hknown : ∀ p ∈ inserted l.queues q, p ∈ l.known := by
    intro p hp
    obtain hp | rfl := mem_inserted.1 hp
    · exact h.queues_known p hp
    · exact hq
  obtain ⟨ha, hl⟩ | ⟨l', ha, hl, -⟩ := spells_cases h.queues
  · rw [if_pos ha, if_pos ha]
    refine h.of_queues (fun _ _ => rfl) (fun _ _ => rfl) ?_ (nodup_inserted h.queues_nodup) hknown
    rw [hl]
    exact ⟨toPtr_of_ne (L.ne_zero hqk), congrArg toPtr hn⟩
  · rw [if_neg ha, if_neg ha]
    have hkind : ∀ p ∈ a :: l', L.kind p = some .queue := fun p hp =>
      h.known_kind p (h.queues_known p (hl ▸ hp))
    have hspells := h.queues
    rw [hl] at hspells hsmall
    rw [appendQueue_eq hspells hkind (by simpa [kListGuard] using Nat.lt_of_succ_lt hsmall)]
    by_cases hmem : q ∈ a :: l'
    · rw [if_pos hmem, inserted, if_pos (hl ▸ hmem)]
      exact h
    · rw [if_neg hmem]
      have hlast : L.kind (l'.getLast?.getD a) = some .queue :=
        hkind _ (List.mem_of_getLast? (List.getLast?_cons.trans rfl))
      have hend : lastSlot (a :: l') = .next (l'.getLast?.getD a) := lastSlot_cons a l'
      refine h.of_setNext hlast ?_ (nodup_inserted h.queues_nodup) hknown
      rw [hl, inserted, if_neg hmem]
      refine Spells.append (c := queueChain spr m a) hspells (hl ▸ h.queues_nodup) ?_ ?_ fun r hr hrl => ?_
      · refine (get_setNext hlast fun p hp => Slot.next.inj hp ▸ hqk).trans ?_
        rw [if_neg fun heq : Slot.next q = _ => hmem ?_]
        · exact congrArg toPtr hn
        · rw [Slot.next.inj heq]
          exact List.mem_of_getLast? (List.getLast?_cons.trans rfl)
      · rw [hend, get_setNext hlast fun p hp => Slot.next.inj hp ▸ hlast, if_pos rfl, toPtr_of_ne (L.ne_zero hqk)]
      · rw [get_setNext hlast fun p hp => hkind p (hrl p hp), if_neg (hend ▸ hr)]

section

variable (h : Lists L s.memory s.activeQueue l) (hspr : s.scratchpadMapped = spr)

include h hspr

/-- **`SifSetRpcQueue`** keeps the lists. -/
theorem set (hq : L.kind q = some .queue) (hs : l.servers q = [])
    (hlast : q ∈ l.queues → l.queues.getLast? = some q) (hsmall : l.queues.length < 1024) :
    Lists L (sifSetRpcQueue s q v).1.memory (sifSetRpcQueue s q v).1.activeQueue (l.set q) := by
  obtain ⟨hreset, hnext⟩ := h.reset (v := v) hq hs hlast rfl
  have hlists := hreset.enqueue (mem_inserted.2 (.inr rfl)) hnext hsmall
  have hptr : s.ptr q = some (L.ptr q) := by
    rw [RpcState.ptr, hspr, L.resolves hq]
  by_cases ha : s.activeQueue = 0
  · simp only [sifSetRpcQueue, hptr, if_pos ha] at hlists ⊢
    exact hlists
  · simp only [sifSetRpcQueue, hptr, if_neg ha, hspr] at hlists ⊢
    exact hlists

/-- **`SifRemoveRpcQueue`** keeps the lists. -/
theorem removeQueue (hsmall : l.queues.length < 1024) :
    Lists L (sifRemoveRpcQueue s q).1.memory (sifRemoveRpcQueue s q).1.activeQueue (l.removeQueue q) := by
  have hknown : ∀ p ∈ l.queues.erase q, p ∈ l.known := fun p hp => h.queues_known p (List.mem_of_mem_erase hp)
  have hkind : ∀ p ∈ l.queues, L.kind p = some .queue := fun p hp => h.known_kind p (h.queues_known p hp)
  have hnd : (l.queues.erase q).Nodup := h.queues_nodup.erase q
  by_cases hmem : q ∈ l.queues
  swap
  · -- nothing to take out
    have hsame : (sifRemoveRpcQueue s q).1 = s := by
      rw [sifRemoveRpcQueue]
      by_cases hq0 : q = 0
      · rw [if_pos hq0]
      by_cases ha0 : s.activeQueue = 0
      · rw [if_neg hq0, if_pos ha0]
      have ha : s.activeQueue ≠ q := by
        obtain ⟨ha, -⟩ | ⟨l', -, hl, -⟩ := spells_cases h.queues
        · exact absurd ha ha0
        · exact fun heq => hmem (hl ▸ heq ▸ List.mem_cons_self)
      rw [if_neg hq0, if_neg ha0, if_neg ha, hspr, unlinkQueue_searches.not_mem (fun _ => rfl) h.queues hkind hmem hq0]
    rw [hsame, Ledger.removeQueue, List.erase_of_not_mem hmem]
    exact h
  have hqk : L.kind q = some .queue := hkind q hmem
  have hq0 : q ≠ 0 := L.ne_zero hqk
  obtain ⟨a, b, hl, hqa⟩ := List.eq_append_cons_of_mem hmem
  have herase : l.queues.erase q = a ++ b := by
    rw [hl, List.erase_append_right _ hqa, List.erase_cons_head]
  have hspells := h.queues
  have hnd' := h.queues_nodup
  rw [hl] at hspells hnd'
  cases a with
  | nil =>
    obtain ⟨ha, -⟩ := toPtr_eq_some hspells.1
    have hrun : (sifRemoveRpcQueue s q).1 = { s with activeQueue := field spr s.memory q Queue.next } := by
      rw [sifRemoveRpcQueue, if_neg hq0, if_neg (ha ▸ hq0), if_pos ha, RpcState.ptr, hspr, field]
    rw [hrun]
    refine h.of_queues (fun _ _ => rfl) (fun _ _ => rfl) ?_ hnd hknown
    rw [herase]
    exact hspells.2.congr fun _ _ => rfl
  | cons x a =>
    obtain ⟨ha, ha0⟩ := toPtr_eq_some hspells.1
    subst ha
    have hne : s.activeQueue ≠ q := fun heq => hqa (heq ▸ List.mem_cons_self)
    have hlength : a.length < kListGuard := by
      rw [hl, List.cons_append, List.length_cons, List.length_append] at hsmall
      rw [kListGuard]
      omega
    have hx : L.kind (a.getLast?.getD s.activeQueue) = some .queue := by
      refine hkind _ (hl ▸ List.mem_append_left _ ?_)
      exact List.mem_of_getLast? (List.getLast?_cons.trans rfl)
    have hend : lastSlot (s.activeQueue :: a) = .next (a.getLast?.getD s.activeQueue) := lastSlot_cons _ a
    have hrun : (sifRemoveRpcQueue s q).1 = { s with
        memory := setWord s.memory (L.ptr (a.getLast?.getD s.activeQueue)) Queue.next
          (field spr s.memory q Queue.next) } := by
      rw [sifRemoveRpcQueue, if_neg hq0, if_neg ha0, if_neg hne, hspr,
        unlinkQueue_searches.mem (fun _ => rfl) hspells (fun y hy => hkind y (hl ▸ hy))
          (fun h => hqa (List.mem_cons_of_mem _ h)) hlength]
    rw [hrun]
    refine h.of_setNext hx ?_ hnd hknown
    rw [herase]
    refine Spells.erase (c := queueChain spr s.memory s.activeQueue) hspells hnd' ?_ fun r hr hrl => ?_
    · rw [hend, get_setNext hx fun p hp => Slot.next.inj hp ▸ hx, if_pos rfl]
      rfl
    · have hrk : ∀ p, r = .next p → L.kind p = some .queue := fun p hp =>
        hkind p (List.mem_of_mem_erase (herase ▸ hrl p hp))
      rw [get_setNext hx hrk, if_neg (hend ▸ hr)]

end

end Lists

/-! ### Servers -/

/-- An assignment to a link of the servers of the queue `q`. -/
def Layout.setLink (L : Layout Kind.words spr) (m : GuestMemory) (q : Word) (pp : Slot Word) (v : Word) :
    GuestMemory :=
  match pp with
  | .head => setWord m (L.ptr q) Queue.link v
  | .next p => setWord m (L.ptr p) Server.link v

variable {pp : Slot Word}

section

variable (hq : L.kind q = some .queue)

include hq

theorem field_setLink_next (hpp : ∀ p, pp = .next p → L.kind p = some .server) (hx : L.kind x = some .queue) :
    field spr (L.setLink m q pp v) x Queue.next = field spr m x Queue.next := by
  cases pp with
  | head => exact L.field_setWord_ne hq (by decide) hx (by decide) fun _ => by decide
  | next p =>
    exact L.field_setWord_ne (hpp p rfl) (by decide) hx (by decide) fun heq =>
      absurd heq (L.ne_of_kind hx (hpp p rfl) (by decide))

theorem field_setLink_queue (hpp : ∀ p, pp = .next p → L.kind p = some .server) (hx : L.kind x = some .queue) :
    field spr (L.setLink m q pp v) x Queue.link = if pp = .head ∧ x = q then v else field spr m x Queue.link := by
  cases pp with
  | head =>
    refine (L.field_setWord hq (by decide) hx (by decide)).trans (if_congr ?_ rfl rfl)
    exact ⟨fun h => ⟨rfl, h.1⟩, fun h => ⟨h.2, rfl⟩⟩
  | next p =>
    rw [if_neg fun h => nomatch h.1]
    exact L.field_setWord_ne (hpp p rfl) (by decide) hx (by decide) fun heq =>
      absurd heq (L.ne_of_kind hx (hpp p rfl) (by decide))

theorem field_setLink_server (hpp : ∀ p, pp = .next p → L.kind p = some .server) (hx : L.kind x = some .server) :
    field spr (L.setLink m q pp v) x Server.link = if pp = .next x then v else field spr m x Server.link := by
  cases pp with
  | head =>
    rw [if_neg fun h => nomatch h]
    exact L.field_setWord_ne hq (by decide) hx (by decide) fun heq => absurd heq (L.ne_of_kind hx hq (by decide))
  | next p =>
    refine (L.field_setWord (hpp p rfl) (by decide) hx (by decide)).trans (if_congr ?_ rfl rfl)
    exact ⟨fun h => h.1 ▸ rfl, fun h => ⟨(Slot.next.inj h).symm, rfl⟩⟩

theorem get_setLink {pp r : Slot Word}
    (hpp : ∀ p, pp = .next p → L.kind p = some .server) (hr : ∀ p, r = .next p → L.kind p = some .server) :
    (serverChain spr (L.setLink m q pp v) q).get r =
      if r = pp then toPtr v else (serverChain spr m q).get r := by
  cases r with
  | head =>
    refine (congrArg toPtr (field_setLink_queue hq hpp hq)).trans ?_
    by_cases h : pp = .head
    · rw [if_pos ⟨h, rfl⟩, if_pos h.symm]
    · rw [if_neg fun h' => h h'.1, if_neg fun h' => h h'.symm]
      rfl
  | next p =>
    refine (congrArg toPtr (field_setLink_server hq hpp (hr p rfl))).trans ?_
    by_cases h : pp = .next p
    · rw [if_pos h, if_pos h.symm]
    · rw [if_neg h, if_neg fun h' => h h'.symm]
      rfl

end

theorem Layout.KeepsLinks.trans {m'' : GuestMemory} (h : L.KeepsLinks m m') (h' : L.KeepsLinks m' m'') :
    L.KeepsLinks m m'' := fun p =>
  ⟨fun hp => ((h' p).1 hp).trans ((h p).1 hp), fun hp =>
    ⟨((h' p).2 hp).1.trans ((h p).2 hp).1, ((h' p).2 hp).2.trans ((h p).2 hp).2⟩⟩

theorem keepsLinks_client {i : ℕ} (hx : L.kind x = some .client) (hi : i < Kind.client.words) :
    L.KeepsLinks m (setWord m (L.ptr x) i v) := by
  intro p
  have hne : ∀ k, L.kind p = some k → k ≠ .client → p ≠ x := fun _ hp => L.ne_of_kind hp hx
  refine ⟨fun hp => ?_, fun hp => ⟨?_, ?_⟩⟩
  · exact L.field_setWord_ne hx hi hp (by decide) fun heq => absurd heq (hne _ hp (by decide))
  · exact L.field_setWord_ne hx hi hp (by decide) fun heq => absurd heq (hne _ hp (by decide))
  · exact L.field_setWord_ne hx hi hp (by decide) fun heq => absurd heq (hne _ hp (by decide))

variable {args : RegisterArgs}

theorem keepsLinks_rebindClients {sd : HostPtr} {clients : List (Word × RpcClientState)}
    (hc : ∀ e ∈ clients, L.kind e.1 = some .client) : L.KeepsLinks m (rebindClients spr args sd clients m) := by
  induction clients generalizing m with
  | nil => exact fun p => ⟨fun _ => rfl, fun _ => ⟨rfl, rfl⟩⟩
  | cons e clients ih =>
    have hek := hc e List.mem_cons_self
    have hrest := fun m => ih (m := m) fun e he => hc e (List.mem_cons_of_mem _ he)
    rw [rebindClients, List.foldl_cons, ← rebindClients]
    split
    swap
    · exact hrest m
    rw [L.resolves hek]
    refine (keepsLinks_client hek (by decide)).trans ((keepsLinks_client hek (by decide)).trans
      ((keepsLinks_client hek (by decide)).trans (hrest _)))

namespace Lists

variable {a : Word} {l : Ledger}

section

variable (h : Lists L m a l)

include h

theorem enlist_eq (hq : args.qd ∈ l.known)
    (hhead : (l.servers args.qd).head? ≠ some args.sdPtr) (hsmall : (l.servers args.qd).length < 1024) :
    enlist spr args m =
      if args.sdPtr ∈ l.servers args.qd then m
      else L.setLink m args.qd (lastSlot (l.servers args.qd)) args.sdPtr := by
  have hqk := h.known_kind _ hq
  have hlink := L.field_eq hqk m Queue.link
  have hspells := h.servers _ hq
  have hkind := h.servers_kind args.qd
  simp only [enlist, if_neg (L.ne_zero hqk), L.resolves hqk, ← hlink]
  obtain ⟨hv, hl⟩ | ⟨l', hv, hl, -⟩ := spells_cases hspells
  · rw [if_pos hv, hl, if_neg List.not_mem_nil]
    rfl
  · generalize field spr m args.qd Queue.link = x at *
    rw [hl] at hspells hkind hsmall hhead ⊢
    have hne : args.sdPtr ≠ x := fun heq => hhead (heq ▸ rfl)
    rw [if_neg hv, appendServer_eq hspells hkind (by simpa [kListGuard] using Nat.lt_of_succ_lt hsmall), lastSlot_cons]
    refine if_congr ?_ rfl rfl
    rw [List.mem_cons, or_iff_right hne]

theorem of_setLink (hq : q ∈ l.known)
    (hpp : ∀ p, pp = .next p → L.kind p = some .server ∧ ∀ q', q' ≠ q → p ∉ l.servers q')
    (hl : (serverChain spr (L.setLink m q pp v) q).Spells (toPtr (field spr (L.setLink m q pp v) q Queue.link)) l')
    (hnd : l'.Nodup) (hk : ∀ sd ∈ l', L.kind sd = some .server)
    (hshared : ∀ q' sd, q' ≠ q → sd ∈ l' → sd ∈ l.servers q' →
      l'.getLast? = some sd ∧ (l.servers q').getLast? = some sd) :
    Lists L (L.setLink m q pp v) a { l with servers := Function.update l.servers q l' } := by
  have hqk := h.known_kind q hq
  have hserver : ∀ p, pp = .next p → L.kind p = some .server := fun p hp => (hpp p hp).1
  have hself : Function.update l.servers q l' q = l' := Function.update_self ..
  have hother : ∀ q', q' ≠ q → Function.update l.servers q l' q' = l.servers q' := fun q' hq' =>
    Function.update_of_ne hq' ..
  refine ⟨?_, h.queues_nodup, ?_, ?_, h.known_kind, h.queues_known, ?_, ?_, ?_⟩
  · refine h.queues.congr fun p hp => congrArg toPtr ?_
    exact field_setLink_next hqk hserver (h.known_kind p (h.queues_known p hp))
  · intro q' hq'
    by_cases hqq : q' = q
    · subst hqq
      simpa only [hself] using hl
    · simp only [hother q' hqq]
      rw [field_setLink_queue hqk hserver (h.known_kind q' hq'), if_neg fun h => hqq h.2]
      refine (h.servers q' hq').congr fun p hp => congrArg toPtr ?_
      rw [field_setLink_server hqk hserver (h.servers_kind q' p hp), if_neg fun heq => (hpp p heq).2 q' hqq hp]
  · intro q'
    by_cases hqq : q' = q
    · subst hqq
      simpa only [hself] using hnd
    · simpa only [hother q' hqq] using h.servers_nodup q'
  · intro q'
    by_cases hqq : q' = q
    · subst hqq
      simpa only [hself] using hk
    · simpa only [hother q' hqq] using h.servers_kind q'
  · intro q'
    by_cases hqq : q' = q
    · exact fun _ => hqq ▸ hq
    · simpa only [hother q' hqq] using h.servers_known q'
  · intro q1 q2 sd hne h1 h2
    by_cases hq1 : q1 = q
    · subst hq1
      simp only [hself, hother q2 hne.symm] at h1 h2 ⊢
      exact (hshared q2 sd hne.symm h1 h2).1
    · simp only [hother q1 hq1] at h1 ⊢
      by_cases hq2 : q2 = q
      · subst hq2
        simp only [hself] at h2
        exact (hshared q1 sd hq1 h2 h1).2
      · simp only [hother q2 hq2] at h2
        exact h.shared q1 q2 sd hne h1 h2

section

variable (hsd : L.kind args.sdPtr = some .server)

include hsd

theorem resetServer (hlast : ∀ q, args.sdPtr ∈ l.servers q → (l.servers q).getLast? = some args.sdPtr)
    (ht : m' = setWords m (L.ptr args.sdPtr) args.fields) :
    Lists L m' a l ∧ field spr m' args.sdPtr Server.link = 0 := by
  have hwords : ∀ e ∈ args.fields, e.1 < Kind.server.words := by
    simp [RegisterArgs.fields, Kind.words, Server.buf, Server.cfunc, Server.cbuf, Server.client, Server.pktAddr,
      Server.link, Server.next, Server.base, Server.size, Server.size2, Server.rpcNumber, Server.recvbuf, Server.rsize,
      Server.rmode, Server.rid]
  have hlink : field spr m' args.sdPtr Server.link = 0 := by
    rw [ht, L.field_setWords_self hsd hwords (by decide)]
    rfl
  have hother : ∀ p k, L.kind p = some k → p ≠ args.sdPtr → ∀ j < k.words, field spr m' p j = field spr m p j := by
    intro p k hp hne j hj
    rw [ht]
    exact L.field_setWords_ne hsd hwords hp hj hne
  refine ⟨h.congr (fun q hq => ?_) fun q sd hmem => ?_, hlink⟩
  · have hne : q ≠ args.sdPtr := L.ne_of_kind hq hsd (by decide)
    exact ⟨hother q .queue hq hne _ (by decide), hother q .queue hq hne _ (by decide)⟩
  · by_cases hne : sd = args.sdPtr
    · subst hne
      rw [hlink, h.link_last (hlast q hmem)]
    · exact hother sd .server (h.servers_kind q sd hmem) hne _ (by decide)

theorem enlist (hnext : field spr m args.sdPtr Server.link = 0) (hqd : args.qd = 0 ∨ args.qd ∈ l.known)
    (hlast : ∀ q, args.sdPtr ∈ l.servers q → (l.servers q).getLast? = some args.sdPtr)
    (hkeep : args.qd ≠ 0 →
      if args.sdPtr ∈ l.servers args.qd then l.servers args.qd ≠ [args.sdPtr]
      else ∀ x, (l.servers args.qd).getLast? = some x → ∀ q, q ≠ args.qd → x ∉ l.servers q)
    (hsmall : (l.servers args.qd).length < 1024) :
    Lists L (SifRpc.enlist spr args m) a (l.register args.sdPtr args.qd) := by
  by_cases hqd0 : args.qd = 0
  · rw [SifRpc.enlist, if_pos hqd0, Ledger.register, if_pos hqd0]
    exact h
  have hq : args.qd ∈ l.known := hqd.resolve_left hqd0
  have hqk := h.known_kind _ hq
  have hkeep := hkeep hqd0
  have hnd := h.servers_nodup args.qd
  rw [Ledger.register, if_neg hqd0]
  by_cases hmem : args.sdPtr ∈ l.servers args.qd
  · rw [if_pos hmem] at hkeep
    have hhead : (l.servers args.qd).head? ≠ some args.sdPtr := by
      -- the last of several servers is not the first
      intro heq
      obtain ⟨b, hb⟩ := List.getLast?_eq_some_iff.1 (hlast _ hmem)
      cases b with
      | nil => exact hkeep hb
      | cons y b =>
        rw [hb] at heq hnd
        cases heq
        exact (List.nodup_cons.1 hnd).1 (List.mem_append_right b List.mem_cons_self)
    rw [h.enlist_eq hq hhead hsmall, if_pos hmem, inserted, if_pos hmem, Function.update_eq_self]
    exact h
  · rw [if_neg hmem] at hkeep
    have hhead : (l.servers args.qd).head? ≠ some args.sdPtr := fun heq => hmem (List.mem_of_head? heq)
    have hpp : ∀ p, lastSlot (l.servers args.qd) = .next p → (l.servers args.qd).getLast? = some p :=
      fun _ => getLast?_of_lastSlot
    have hserver : ∀ p, lastSlot (l.servers args.qd) = .next p → L.kind p = some .server := fun p hp =>
      h.servers_kind _ p (List.mem_of_getLast? (hpp p hp))
    rw [h.enlist_eq hq hhead hsmall, if_neg hmem, inserted, if_neg hmem]
    refine h.of_setLink hq (fun p hp => ⟨hserver p hp, hkeep p (hpp p hp)⟩) ?_
      (List.nodup_append.2 ⟨hnd, List.nodup_singleton _, ?_⟩) (fun sd hsd' => ?_) fun q' sd hne hsd' hq' => ?_
    · refine Spells.append (c := serverChain spr m args.qd) (h.servers _ hq) hnd ?_ ?_ fun r hr hrl => ?_
      · refine (get_setLink (r := .next args.sdPtr) hqk hserver fun p hp => Slot.next.inj hp ▸ hsd).trans ?_
        rw [if_neg fun heq => hmem (List.mem_of_getLast? (hpp _ heq.symm))]
        exact congrArg toPtr hnext
      · rw [get_setLink hqk hserver hserver, if_pos rfl, toPtr_of_ne (L.ne_zero hsd)]
      · rw [get_setLink hqk hserver fun p hp => h.servers_kind _ p (hrl p hp), if_neg hr]
    · rintro x hx y hy rfl
      exact hmem (List.mem_singleton.1 hy ▸ hx)
    · obtain hsd' | hsd' := List.mem_append.1 hsd'
      · exact h.servers_kind _ sd hsd'
      · exact List.mem_singleton.1 hsd' ▸ hsd
    · obtain hsd' | hsd' := List.mem_append.1 hsd'
      · exact absurd hq' (hkeep sd (h.shared _ _ sd hne.symm hsd' hq') q' hne)
      · rw [List.mem_singleton.1 hsd'] at hq' ⊢
        exact ⟨List.getLast?_concat, hlast q' hq'⟩

end

end

/-- **`SifRegisterRpc`** keeps the lists. -/
theorem register (args : RegisterArgs) (h : Lists L s.memory s.activeQueue l)
    (hspr : s.scratchpadMapped = spr) (hc : ∀ e ∈ s.clients, L.kind e.1 = some .client)
    (hsd : L.kind args.sdPtr = some .server) (hqd : args.qd = 0 ∨ args.qd ∈ l.known)
    (hlast : ∀ q, args.sdPtr ∈ l.servers q → (l.servers q).getLast? = some args.sdPtr)
    (hkeep : args.qd ≠ 0 →
      if args.sdPtr ∈ l.servers args.qd then l.servers args.qd ≠ [args.sdPtr]
      else ∀ x, (l.servers args.qd).getLast? = some x → ∀ q, q ≠ args.qd → x ∉ l.servers q)
    (hsmall : (l.servers args.qd).length < 1024) :
    Lists L (registerRpc s args).1.memory (registerRpc s args).1.activeQueue (l.register args.sdPtr args.qd) := by
  obtain ⟨hreset, hnext⟩ := h.resetServer hsd hlast rfl
  have hlists := hreset.enlist hsd hnext hqd hlast hkeep hsmall
  have hptr : s.ptr args.sdPtr = some (L.ptr args.sdPtr) := by
    rw [RpcState.ptr, hspr, L.resolves hsd]
  simp only [registerRpc, hptr, hspr]
  exact hlists.of_keepsLinks (keepsLinks_rebindClients hc)

/-- **`SifRemoveRpc`** keeps the lists. -/
theorem removeServer (h : Lists L s.memory s.activeQueue l) (hspr : s.scratchpadMapped = spr)
    (hq : q ∈ l.known) (hsmall : (l.servers q).length < 1024) :
    Lists L (sifRemoveRpc s sd q).1.memory (sifRemoveRpc s sd q).1.activeQueue (l.removeServer sd q) := by
  have hqk := h.known_kind q hq
  have hptr : s.ptr q = some (L.ptr q) := by
    rw [RpcState.ptr, hspr, L.resolves hqk]
  have hkind := h.servers_kind q
  have hspells := h.servers q hq
  have hnd := h.servers_nodup q
  by_cases hmem : sd ∈ l.servers q
  swap
  · -- nothing to take out
    have hsame : (sifRemoveRpc s sd q).1 = s := by
      by_cases h0 : sd = 0
      · simp only [sifRemoveRpc, hptr, if_pos h0]
      have hlink : field spr s.memory q Queue.link ≠ sd := by
        intro heq
        obtain ⟨hv, -⟩ | ⟨l', -, hl, -⟩ := spells_cases hspells
        · exact h0 (heq.symm.trans hv)
        · exact hmem (hl ▸ heq ▸ List.mem_cons_self)
      simp only [sifRemoveRpc, hptr, if_neg h0, ← L.field_eq hqk s.memory Queue.link, if_neg hlink, hspr,
        unlinkServer_searches.not_mem (fun _ => rfl) hspells hkind hmem h0]
    rw [hsame, Ledger.removeServer, List.erase_of_not_mem hmem, Function.update_eq_self]
    exact h
  have hsd := hkind sd hmem
  have hsptr : s.ptr sd = some (L.ptr sd) := by
    rw [RpcState.ptr, hspr, L.resolves hsd]
  obtain ⟨a, b, hl, hsa⟩ := List.eq_append_cons_of_mem hmem
  have herase : (l.servers q).erase sd = a ++ b := by
    rw [hl, List.erase_append_right _ hsa, List.erase_cons_head]
  rw [hl] at hspells hnd
  have hrun : (sifRemoveRpc s sd q).1 = { s with
      memory := L.setLink (L.setLink s.memory q (lastSlot a) (field spr s.memory sd Server.link)) q (.next sd) 0 } := by
    cases a with
    | nil =>
      obtain ⟨hlink, h0⟩ := toPtr_eq_some hspells.1
      rw [L.field_eq hqk] at hlink
      simp only [sifRemoveRpc, hptr, if_neg h0, if_pos hlink, hsptr, L.field_eq hsd]
      rfl
    | cons x a =>
      obtain ⟨hlink, hx0⟩ := toPtr_eq_some hspells.1
      have hne : x ≠ sd := fun heq => hsa (heq ▸ List.mem_cons_self)
      have hlength : a.length < kListGuard := by
        rw [hl, List.cons_append, List.length_cons, List.length_append] at hsmall
        rw [kListGuard]
        omega
      rw [hlink] at hspells
      rw [L.field_eq hqk] at hlink
      simp only [sifRemoveRpc, hptr, if_neg (L.ne_zero hsd), hlink, if_neg hne, hspr,
        unlinkServer_searches.mem (fun _ => rfl) hspells (fun y hy => hkind y (hl ▸ hy))
          (fun h => hsa (List.mem_cons_of_mem _ h)) hlength, L.resolves hsd, L.field_eq hsd, lastSlot_cons]
      rfl
  have hlast : ∀ p, lastSlot a = .next p → p ∈ a := fun p hp => List.mem_of_getLast? (getLast?_of_lastSlot hp)
  obtain ⟨-, hndb, hab⟩ := List.nodup_append.1 hnd
  have hend : ∀ p, lastSlot a = .next p → L.kind p = some .server := fun p hp =>
    hkind p (hl ▸ List.mem_append_left _ (hlast p hp))
  -- a server that another list has, too, is the last one, so that it stands behind `sd` or is `sd`
  have hshared : ∀ q' p, q' ≠ q → p ∈ l.servers q → p ∈ l.servers q' → p = sd ∧ b = [] ∨ b.getLast? = some p := by
    intro q' p hne hp hp'
    have hp := h.shared q q' p hne.symm hp hp'
    rw [hl, List.getLast?_append, List.getLast?_cons] at hp
    cases hb : b.getLast? with
    | none =>
      rw [hb] at hp
      exact .inl ⟨(Option.some_inj.1 hp).symm, List.getLast?_eq_none_iff.1 hb⟩
    | some y =>
      rw [hb] at hp
      exact .inr hp
  have hlists : Lists L (L.setLink s.memory q (lastSlot a) (field spr s.memory sd Server.link)) s.activeQueue
      (l.removeServer sd q) := by
    rw [Ledger.removeServer, herase]
    refine h.of_setLink hq (fun p hp => ⟨hend p hp, fun q' hne hp' => ?_⟩) ?_ ?_ (fun p hp => ?_)
      fun q' p hne hp hp' => ?_
    · have hpa := hlast p hp
      obtain ⟨rfl, -⟩ | hp := hshared q' p hne (hl ▸ List.mem_append_left _ hpa) hp'
      · exact hsa hpa
      · exact hab p hpa p (List.mem_cons_of_mem _ (List.mem_of_getLast? hp)) rfl
    · refine Spells.erase (c := serverChain spr s.memory q) hspells hnd ?_ fun r hr hrl => ?_
      · rw [get_setLink hqk hend hend, if_pos rfl]
        rfl
      · have hrk : ∀ p, r = .next p → L.kind p = some .server := fun p hp =>
          hkind p (List.mem_of_mem_erase (herase ▸ hrl p hp))
        rw [get_setLink hqk hend hrk, if_neg hr]
    · exact herase ▸ (h.servers_nodup q).erase sd
    · exact hkind p (List.mem_of_mem_erase (herase ▸ hp))
    · have hpq : p ∈ l.servers q := List.mem_of_mem_erase (herase ▸ hp)
      refine ⟨?_, h.shared q' q p hne hp' hpq⟩
      obtain ⟨rfl, -⟩ | hpb := hshared q' p hne hpq hp'
      · exact absurd (herase ▸ hp) (h.servers_nodup q).not_mem_erase
      · rw [List.getLast?_append, hpb]
        rfl
  rw [hrun]
  refine hlists.congr (fun p hp => ⟨?_, ?_⟩) fun q' p hp => ?_
  · rw [field_setLink_queue hqk (fun x hx => Slot.next.inj hx ▸ hsd) hp, if_neg fun h => nomatch h.1]
  · exact field_setLink_next hqk (fun x hx => Slot.next.inj hx ▸ hsd) hp
  · rw [field_setLink_server hqk (fun x hx => Slot.next.inj hx ▸ hsd) (hlists.servers_kind q' p hp)]
    by_cases hps : p = sd
    · subst hps
      have hne : q' ≠ q := by
        rintro rfl
        simp only [Ledger.removeServer, Function.update_self] at hp
        exact (h.servers_nodup q').not_mem_erase hp
      have hp' : p ∈ l.servers q' := by
        rw [Ledger.removeServer] at hp
        simpa only [Function.update_of_ne hne] using hp
      have hlast' : ((l.removeServer p q).servers q').getLast? = some p := by
        rw [Ledger.removeServer]
        simpa only [Function.update_of_ne hne] using h.shared q' q p hne hp' hmem
      rw [if_pos rfl, hlists.link_last hlast']
    · rw [if_neg fun h => hps (Slot.next.inj h).symm]

end Lists

/-! ### Runs -/

theorem Lists.start (L : Layout Kind.words spr) (m : GuestMemory) : Lists L m 0 .empty where
  queues := rfl
  queues_nodup := List.nodup_nil
  servers := fun _ h => nomatch h
  servers_nodup := fun _ => List.nodup_nil
  known_kind := fun _ h => nomatch h
  queues_known := fun _ h => nomatch h
  servers_kind := fun _ _ h => nomatch h
  servers_known := fun _ h => absurd rfl h
  shared := fun _ _ _ _ h => nomatch h

theorem run_rest (s : RpcState) (c : Call) :
    (c.run s).scratchpadMapped = s.scratchpadMapped ∧ (c.run s).clients = s.clients := by
  cases c with
  | setRpcQueue qdPtr threadId =>
    simp only [Call.run, sifSetRpcQueue]
    split
    · exact ⟨rfl, rfl⟩
    · split <;> exact ⟨rfl, rfl⟩
  | registerRpc sdPtr sid func buf sp =>
    simp only [Call.run, sifRegisterRpc, registerRpc]
    split <;> exact ⟨rfl, rfl⟩
  | removeRpcQueue qdPtr =>
    simp only [Call.run, sifRemoveRpcQueue]
    repeat' split
    all_goals exact ⟨rfl, rfl⟩
  | removeRpc sdPtr qdPtr =>
    simp only [Call.run, sifRemoveRpc]
    repeat' split
    all_goals exact ⟨rfl, rfl⟩

/-- **A call** that `Call.Keeps` allows keeps the lists. -/
theorem Lists.run {l : Ledger} {c : Call} (h : Lists L s.memory s.activeQueue l)
    (hspr : s.scratchpadMapped = spr) (hclients : ∀ e ∈ s.clients, L.kind e.1 = some .client)
    (hc : Allowed L s l c) (hk : c.Keeps s l) : Lists L (c.run s).memory (c.run s).activeQueue (c.note s l) := by
  obtain ⟨hrec, hqueues, hservers⟩ := hc
  cases c with
  | setRpcQueue qdPtr threadId => exact h.set hspr hrec hk.1 hk.2 hqueues
  | registerRpc sdPtr sid func buf sp =>
    have hargs : (s.registerArgs sdPtr sid func buf sp).qd = s.qdArg sp := rfl
    exact h.register (s.registerArgs sdPtr sid func buf sp) hspr hclients hrec.1 hrec.2 hk.1 hk.2 (hservers _)
  | removeRpcQueue qdPtr => exact h.removeQueue hspr hqueues
  | removeRpc sdPtr qdPtr => exact h.removeServer hspr hrec (hservers _)

/-- **The lists of a run** whose calls `Call.Keeps` allows end, have no duplicates, and have the queues set
and the servers registered, and not removed since, in the order of their first insertion. -/
theorem listsMatch_of_keeps {s : RpcState} {l : Ledger}
    (h : Reach L (fun s l c => Allowed L s l c ∧ c.Keeps s l) s l) : ListsMatch spr s l := by
  have hinv : Lists L s.memory s.activeQueue l ∧ s.scratchpadMapped = spr ∧
      ∀ e ∈ s.clients, L.kind e.1 = some .client := by
    induction h with
    | start s hspr hq hc => exact ⟨hq ▸ Lists.start L s.memory, hspr, hc⟩
    | @call s l c _ hc ih =>
      obtain ⟨hl, hspr, hclients⟩ := ih
      obtain ⟨hspr', hclients'⟩ := run_rest s c
      exact ⟨hl.run hspr hclients hc.1 hc.2, hspr'.trans hspr, hclients' ▸ hclients⟩
    | guest m _ hm ih => exact ⟨ih.1.of_keepsLinks hm, ih.2⟩
  exact ⟨hinv.1.queues, hinv.1.queues_nodup, hinv.1.servers, fun q _ => hinv.1.servers_nodup q⟩

/-! ### A repeated registration -/

namespace Demo

def queue : Word := 0x1000

def server : Word := 0x2000

def layout : Layout Kind.words false where
  kind p := if p = queue then some .queue else if p = server then some .server else none
  ptr p := ⟨false, p.toNat⟩
  ne_zero := by
    intro p k h
    rintro rfl
    cases h
  resolves := by
    intro p k h
    split at h
    · subst p
      rfl
    · split at h
      · subst p
        rfl
      · cases h
  apart := by
    intro p q k k' hp hq hne _
    split at hp <;> split at hq <;> grind [queue, server, Kind.words]

/-- The stack is at `0x3000`, with the queue in its third argument. -/
def start : RpcState where
  memory := ⟨fun p => if p = 0x3019 then 0x10 else 0, fun _ => 0⟩
  scratchpadMapped := false
  initialized := true
  servers := fun _ => none
  clients := []
  nextId := 1
  packetIndex := 0
  serverIndex := 0
  activeQueue := 0

def set : Call := .setRpcQueue queue 0

def register : Call := .registerRpc server 0x80 0 0 0x3000

theorem qdArg_set : (set.run start).qdArg 0x3000 = queue := by decide +kernel

theorem qdArg_register : (register.run (set.run start)).qdArg 0x3000 = queue := by decide +kernel

/-- The ledger with the queue and the server. -/
def ledger : Ledger := ⟨[queue], [queue], Function.update (fun _ => []) queue [server]⟩

theorem note_eq (s : RpcState) (l : Ledger) : register.note s l = l.register server (s.qdArg 0x3000) := rfl

theorem note_register : register.note (set.run start) (set.note start .empty) = ledger := by
  rw [note_eq, qdArg_set]
  rfl

theorem small_empty : Ledger.Small .empty := ⟨by decide, fun _ => Nat.succ_pos _⟩

theorem small_set : (set.note start .empty).Small := ⟨by decide, fun _ => Nat.succ_pos _⟩

theorem small_ledger : ledger.Small := by
  refine ⟨by decide, fun q => ?_⟩
  by_cases hq : q = queue
  · rw [hq]
    decide
  · simp only [ledger, Function.update_of_ne hq]
    decide

theorem allowed_set : Allowed layout start .empty set := ⟨rfl, small_empty⟩

theorem allowed_register : Allowed layout (set.run start) (set.note start .empty) register :=
  ⟨⟨rfl, .inr (qdArg_set ▸ by decide)⟩, small_set⟩

theorem keeps_set : set.Keeps start .empty := ⟨rfl, fun h => nomatch h⟩

theorem keeps_register : register.Keeps (set.run start) (set.note start .empty) := by
  refine ⟨fun _ h => (nomatch h), fun _ => ?_⟩
  rw [if_neg fun h => nomatch h]
  exact fun _ h => nomatch h

end Demo

/-- A queue is set and a server is registered. -/
theorem listsMatch_of_keeps_demo : ListsMatch false (Demo.register.run (Demo.set.run Demo.start))
    (Demo.register.note (Demo.set.run Demo.start) (Demo.set.note Demo.start .empty)) :=
  listsMatch_of_keeps (L := Demo.layout)
    (.call _ (.call _ (.start _ rfl rfl fun _ h => nomatch h) ⟨Demo.allowed_set, Demo.keeps_set⟩)
      ⟨Demo.allowed_register, Demo.keeps_register⟩)

/-- The only server of a queue that is registered with it again becomes its own successor. -/
theorem register_again_cycle : ¬ ∀ (spr : Bool) (L : Layout Kind.words spr) (s : RpcState) (l : Ledger),
    Reach L (Allowed L) s l → ListsMatch spr s l := by
  intro h
  have hreach : Reach Demo.layout (Allowed Demo.layout) (Demo.register.run (Demo.register.run (Demo.set.run Demo.start)))
      (Demo.register.note (Demo.register.run (Demo.set.run Demo.start)) Demo.ledger) := by
    refine .call _ ?_ ⟨⟨rfl, .inr (Demo.qdArg_register ▸ by decide)⟩, Demo.small_ledger⟩
    rw [← Demo.note_register]
    exact .call _ (.call _ (.start _ rfl rfl fun _ h => nomatch h) Demo.allowed_set) Demo.allowed_register
  have hmatch := (h _ _ _ _ hreach).servers Demo.queue (by decide)
  have hledger : (Demo.register.note (Demo.register.run (Demo.set.run Demo.start)) Demo.ledger).servers Demo.queue =
      [Demo.server] := by
    rw [Demo.note_eq, Demo.qdArg_register]
    rfl
  rw [hledger] at hmatch
  have hlink : toPtr (field false (Demo.register.run (Demo.register.run (Demo.set.run Demo.start))).memory Demo.server
      Server.link) = some Demo.server := by decide +kernel
  exact absurd (hlink.symm.trans hmatch.2) (by decide)

end Ps2Recomp.SifRpc
