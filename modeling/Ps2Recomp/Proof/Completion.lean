import Mathlib.Tactic.IntervalCases
import Ps2Recomp.Proof.Chain
import Ps2Recomp.Spec.Transfers

/-!
# Transfers complete

`processPendingTransfers` completes the channels that have something on their list, each once, and
leaves the others alone (`processed`). So a write that starts a transfer is completed by it where it puts
something on the list, or something was there (`kick_completes`): not for an empty transfer, and not on
the channels of the scratchpad.
-/

namespace Ps2Recomp.Dma

open Memory Gif

variable {G : Type} {e : Engines G} {m m' m'' : Mem G} {ch : Channel} {k : AnyChannel}

/-! ### What a channel shows -/

/-- A channel is as it was: STR, QWC, its status, and the number of its causes. -/
structure Untouched (k : AnyChannel) (m m' : Mem G) : Prop where
  str : (reg m' k.base).getLsbD 8 = (reg m k.base).getLsbD 8
  qwc : reg m' (k.base + 0x20) = reg m (k.base + 0x20)
  status : (reg m' dStat).getLsbD k.bit = (reg m dStat).getLsbD k.bit
  causes : m'.devices.completedDmacCauses.count k.bit = m.devices.completedDmacCauses.count k.bit

/-- Bit 31 of `D_STAT`: some channel has its status and its mask set. -/
def SummaryOk (m : Mem G) : Prop :=
  (reg m dStat).getLsbD 31 = true ↔ ∃ i < 10, (reg m dStat).getLsbD i = true ∧ (reg m dStat).getLsbD (16 + i) = true

/-- **A transfer is complete**, and was completed once. -/
structure Completed (k : AnyChannel) (m m' : Mem G) : Prop where
  str : (reg m' k.base).getLsbD 8 = false
  qwc : reg m' (k.base + 0x20) = 0
  status : (reg m' dStat).getLsbD k.bit = true
  summary : SummaryOk m'
  causes : m'.devices.completedDmacCauses.count k.bit = m.devices.completedDmacCauses.count k.bit + 1

/-- Something is on the list of the channel. -/
def Waiting (k : AnyChannel) (m : Mem G) : Prop := ∃ ch, k = .dma ch ∧ m.devices.pending ch ≠ []

theorem Untouched.refl (k : AnyChannel) (m : Mem G) : Untouched k m m := ⟨rfl, rfl, rfl, rfl⟩

theorem Untouched.trans (h : Untouched k m m') (h' : Untouched k m' m'') : Untouched k m m'' :=
  ⟨h'.str.trans h.str, h'.qwc.trans h.qwc, h'.status.trans h.status, h'.causes.trans h.causes⟩

theorem reg_congr (h : m'.ioRegisters = m.ioRegisters) (a : Word) : reg m' a = reg m a := by
  rw [reg, reg, h]

theorem Untouched.of_eq (hregs : m'.ioRegisters = m.ioRegisters)
    (hcauses : m'.devices.completedDmacCauses = m.devices.completedDmacCauses) : Untouched k m m' :=
  ⟨by rw [reg_congr hregs], reg_congr hregs _, by rw [reg_congr hregs], by rw [hcauses]⟩

theorem Completed.untouched (h : Completed k m m') (h' : Untouched k m' m'')
    (hsummary : SummaryOk m'') : Completed k m m'' where
  str := h'.str.trans h.str
  qwc := h'.qwc.trans h.qwc
  status := h'.status.trans h.status
  summary := hsummary
  causes := h'.causes.trans h.causes

theorem Completed.after (h : Untouched k m m') (h' : Completed k m' m'') : Completed k m m'' :=
  ⟨h'.str, h'.qwc, h'.status, h'.summary, by rw [h'.causes, h.causes]⟩

/-! ### The summary bit -/

variable (w : Word)

theorem getLsbD_and_low (i : ℕ) : (w &&& 0x3FF).getLsbD i = (decide (i < 10) && w.getLsbD i) := by
  by_cases hi : i < 32
  · interval_cases i <;> simp
  · rw [BitVec.getLsbD_of_ge _ _ (by omega), decide_eq_false (by omega), Bool.false_and]

theorem status_and_mask : (w &&& (0x3FF : Word)) &&& ((w >>> 16) &&& (0x3FF : Word)) ≠ 0 ↔
    ∃ i < 10, w.getLsbD i = true ∧ w.getLsbD (16 + i) = true := by
  have hbit : ∀ i, ((w &&& (0x3FF : Word)) &&& ((w >>> 16) &&& (0x3FF : Word))).getLsbD i =
      (decide (i < 10) && (w.getLsbD i && w.getLsbD (16 + i))) := by
    intro i
    rw [BitVec.getLsbD_and, getLsbD_and_low, getLsbD_and_low, BitVec.getLsbD_ushiftRight]
    cases decide (i < 10) with
    | false => rfl
    | true => simp
  rw [← not_iff_not, not_ne_iff]
  constructor
  · rintro h ⟨i, hi, hl, hm⟩
    have := hbit i
    rw [h, decide_eq_true hi, hl, hm] at this
    simp at this
  · intro h
    refine BitVec.eq_of_getLsbD_eq fun i _ => ?_
    rw [hbit]
    by_contra hne
    have hzero : (0 : Word).getLsbD i = false := BitVec.getLsbD_zero
    rw [hzero, Bool.not_eq_false, Bool.and_eq_true, Bool.and_eq_true, decide_eq_true_eq] at hne
    exact h ⟨i, hne.1, hne.2⟩

theorem dStatSummary_low {i : ℕ} (hi : i < 31) : (dStatSummary w).getLsbD i = w.getLsbD i := by
  rw [dStatSummary]
  split
  · interval_cases i <;> simp
  · interval_cases i <;> simp

theorem dStatSummary_top : (dStatSummary w).getLsbD 31 = true ↔
    ∃ i < 10, w.getLsbD i = true ∧ w.getLsbD (16 + i) = true := by
  rw [← status_and_mask, dStatSummary]
  split
  · next hne =>
    have hset : (w ||| 0x80000000).getLsbD 31 = true := by simp
    exact iff_of_true hset hne
  · next heq =>
    have hclear : (w &&& ~~~0x80000000).getLsbD 31 = false := by simp
    exact iff_of_false (by rw [hclear]; decide) heq

/-! ### Completing a channel -/

@[simp]
theorem AnyChannel.base_dma (ch : Channel) : (AnyChannel.dma ch).base = ch.base := rfl

@[simp]
theorem AnyChannel.bit_dma (ch : Channel) : (AnyChannel.dma ch).bit = ch.bit := rfl

theorem AnyChannel.apart (k k' : AnyChannel) : k.base ≠ dStat ∧ k.base + 0x20 ≠ dStat ∧ k.base ≠ k'.base + 0x20 ∧
    (k ≠ k' → k.base ≠ k'.base ∧ k.base + 0x20 ≠ k'.base + 0x20 ∧ k.bit ≠ k'.bit) := by
  rcases k with (_ | _ | _) | (_ | _) <;> rcases k' with (_ | _ | _) | (_ | _) <;> decide

theorem AnyChannel.bit_lt (k : AnyChannel) : k.bit < 10 := by
  rcases k with (_ | _ | _) | (_ | _) <;> decide

theorem reg_raise (m : Mem G) (bit : ℕ) (a : Word) : reg (raiseDStatChannel m bit) a =
    if a = dStat then dStatSummary (reg m dStat ||| ((1 : Word) <<< bit)) else reg m a := by
  rw [raiseDStatChannel, reg_setReg]

theorem raise_status (m : Mem G) (k k' : AnyChannel) :
    (reg (raiseDStatChannel m k.bit) dStat).getLsbD k'.bit = (decide (k' = k) || (reg m dStat).getLsbD k'.bit) := by
  have hk' := k'.bit_lt
  rw [reg_raise, if_pos rfl, dStatSummary_low _ (by omega), BitVec.getLsbD_or, Bool.or_comm]
  congr 1
  rcases k with (_ | _ | _) | (_ | _) <;> rcases k' with (_ | _ | _) | (_ | _) <;> decide

theorem raise_summary (m : Mem G) (bit : ℕ) : SummaryOk (raiseDStatChannel m bit) := by
  rw [SummaryOk, reg_raise, if_pos rfl, dStatSummary_top]
  refine exists_congr fun i => and_congr_right fun hi => ?_
  rw [dStatSummary_low _ (by omega), dStatSummary_low _ (by omega)]

theorem SummaryOk.congr (h : SummaryOk m) (heq : reg m' dStat = reg m dStat) : SummaryOk m' := by
  rw [SummaryOk, heq]
  exact h

@[simp]
theorem reg_queue (m : Mem G) (cause : ℕ) (a : Word) : reg (queueCompletedDmacCause m cause) a = reg m a := rfl

section

variable (m : Mem G) (ch : Channel)

theorem reg_complete (a : Word) : reg (complete m ch) a =
    if a = ch.base + 0x20 then 0
    else if a = ch.base then reg m ch.base &&& ~~~0x100
    else reg (raiseDStatChannel m ch.bit) a := by
  have hbase : ch.base ≠ dStat := (AnyChannel.apart (.dma ch) (.dma ch)).1
  simp only [complete, reg_setReg, reg_queue]
  rw [reg_raise m ch.bit ch.base, if_neg hbase]

theorem complete_dStat : reg (complete m ch) dStat = reg (raiseDStatChannel m ch.bit) dStat := by
  obtain ⟨h0, h20, -⟩ := AnyChannel.apart (.dma ch) (.dma ch)
  rw [AnyChannel.base_dma] at h0 h20
  rw [reg_complete, if_neg (Ne.symm h20), if_neg (Ne.symm h0)]

theorem complete_completed : Completed (.dma ch) m (complete m ch) where
  str := by
    have hne : ch.base ≠ ch.base + 0x20 := (AnyChannel.apart (.dma ch) (.dma ch)).2.2.1
    rw [AnyChannel.base, reg_complete, if_neg hne, if_pos rfl]
    simp
  qwc := by rw [AnyChannel.base, reg_complete, if_pos rfl]
  status := by
    rw [complete_dStat]
    exact (raise_status m (.dma ch) (.dma ch)).trans (by simp)
  summary := (raise_summary m ch.bit).congr (complete_dStat m ch)
  causes := by
    have : (complete m ch).devices.completedDmacCauses = m.devices.completedDmacCauses ++ [ch.bit] := rfl
    rw [this, AnyChannel.bit, List.count_append, List.count_singleton_self]

end

theorem complete_untouched (m : Mem G) (h : k ≠ .dma ch) : Untouched k m (complete m ch) := by
  obtain ⟨hbase, hqwc, hcross, happ⟩ := AnyChannel.apart k (.dma ch)
  obtain ⟨hne, hne20, hbit⟩ := happ h
  have hcross' := (AnyChannel.apart (.dma ch) k).2.2.1
  rw [AnyChannel.base_dma] at hcross hne hne20 hcross'
  rw [AnyChannel.bit_dma] at hbit
  constructor
  case str =>
    rw [reg_complete, if_neg hcross, if_neg hne, reg_raise, if_neg hbase]
  case qwc =>
    rw [reg_complete, if_neg hne20, if_neg (Ne.symm hcross'), reg_raise, if_neg hqwc]
  case status =>
    rw [complete_dStat]
    refine (raise_status m (.dma ch) k).trans ?_
    rw [decide_eq_false h, Bool.false_or]
  case causes =>
    have : (complete m ch).devices.completedDmacCauses = m.devices.completedDmacCauses ++ [ch.bit] := rfl
    rw [this, List.count_append, List.count_singleton, if_neg (by simpa using Ne.symm hbit), Nat.add_zero]

/-! ### Processing -/

theorem Kept.refl (m : Mem G) : Kept m m := ⟨rfl, rfl, rfl, rfl, rfl⟩

theorem Kept.trans (h : Kept m m') (h' : Kept m' m'') : Kept m m'' :=
  ⟨h'.ioRegisters.trans h.ioRegisters, h'.tlbEntries.trans h.tlbEntries, h'.pending.trans h.pending,
    h'.causes.trans h.causes, h'.gsVram.trans h.gsVram⟩

theorem Kept.foldl {α : Type} {f : Mem G → α → Mem G} (h : ∀ m a, Kept m (f m a)) (l : List α) (m : Mem G) :
    Kept m (l.foldl f m) := by
  induction l generalizing m with
  | nil => exact .refl m
  | cons a l ih => exact (h m a).trans (ih _)

section

variable {f : List Byte → Mem G → Mem G} (h : ∀ data m, Kept m (f data m))

include h

theorem processRange_kept (src size : Word) (m : Mem G) : Kept m (processRange f src size m) := by
  rw [processRange]
  split
  · exact .refl m
  · exact h _ m

theorem processVif_kept (m : Mem G) (p : Piece) : Kept m (processVif f m p) := by
  rw [processVif.eq_def]
  split
  · exact processRange_kept h _ _ m
  · exact h _ m

end

section

variable (e : Engines G) (ch : Channel) (m : Mem G)

theorem hand_kept (p : Piece) : Kept m (hand e ch m p) := by
  cases ch with
  | gif => exact ⟨rfl, rfl, rfl, rfl, rfl⟩
  | vif0 => exact processVif_kept e.vif0_kept m p
  | vif1 => exact processVif_kept e.vif1_kept m p

theorem processTransfer_kept (p : PendingTransfer) :
    Kept m (processTransfer e ch m p) := Kept.foldl (hand_kept e ch) _ m

/-- A channel is processed: its list is empty, and the rest of the DMAC is as it was. -/
theorem processChannel_kept : Kept (clearPending m ch) (processChannel e ch m) := by
  have h := Kept.foldl (processTransfer_kept e ch) (m.devices.pending ch) m
  refine ⟨h.ioRegisters, h.tlbEntries, ?_, h.causes, h.gsVram⟩
  rw [processChannel, clearPending, clearPending]
  simp only [h.pending]

end

theorem hadPending_processChannel (e : Engines G) (m : Mem G) {c : Channel} (h : c ≠ ch) :
    hadPending (processChannel e ch m) c = hadPending m c := by
  rw [hadPending, (processChannel_kept e ch m).pending, clearPending, hadPending]
  simp only [if_neg h]

/-- The channels that are asked for are completed, in turn. -/
def completeAll (had : Channel → Bool) (chs : List Channel) (m : Mem G) : Mem G :=
  chs.foldl (fun m ch => completeIf (had ch) ch m) m

theorem completeAll_cons (had : Channel → Bool) (ch : Channel) (chs : List Channel) (m : Mem G) :
    completeAll had (ch :: chs) m = completeAll had chs (completeIf (had ch) ch m) := rfl

variable {had : Channel → Bool} {chs : List Channel}

theorem completeAll_summary (h : SummaryOk m) : SummaryOk (completeAll had chs m) := by
  induction chs generalizing m with
  | nil => exact h
  | cons ch chs ih =>
    rw [completeAll_cons]
    refine ih ?_
    rw [completeIf.eq_def]
    split
    · exact (complete_completed m ch).summary
    · exact h

theorem completeIf_untouched {had : Bool} (h : ¬(k = .dma ch ∧ had = true)) : Untouched k m (completeIf had ch m) := by
  rw [completeIf]
  split
  · next hhad => exact complete_untouched m fun hk => h ⟨hk, hhad⟩
  · exact .refl k m

theorem completeAll_untouched
    (h : ∀ ch ∈ chs, k = .dma ch → had ch = false) : Untouched k m (completeAll had chs m) := by
  induction chs generalizing m with
  | nil => exact .refl k m
  | cons ch chs ih =>
    refine Untouched.trans (completeIf_untouched ?_) (ih fun c hc => h c (List.mem_cons_of_mem _ hc))
    rintro ⟨hk, hhad⟩
    rw [h ch List.mem_cons_self hk] at hhad
    cases hhad

theorem completeAll_completed (hnodup : chs.Nodup)
    (hmem : ch ∈ chs) (hhad : had ch = true) : Completed (.dma ch) m (completeAll had chs m) := by
  induction chs generalizing m with
  | nil => cases hmem
  | cons c chs ih =>
    rw [List.nodup_cons] at hnodup
    rw [completeAll_cons]
    rcases List.mem_cons.1 hmem with rfl | htail
    · -- its own turn; the others leave it alone
      have hdone : Completed (.dma ch) m (completeIf (had ch) ch m) := by
        rw [completeIf, if_pos hhad]
        exact complete_completed m ch
      have hrest : SummaryOk (completeAll had chs (completeIf (had ch) ch m)) := completeAll_summary hdone.summary
      refine hdone.untouched (completeAll_untouched fun c hc hk => ?_) hrest
      obtain rfl : ch = c := AnyChannel.dma.inj hk
      exact absurd hc hnodup.1
    · have hne : ch ≠ c := by
        rintro rfl
        exact hnodup.1 htail
      exact .after (completeIf_untouched fun h => hne (AnyChannel.dma.inj h.1)) (ih hnodup.2 htail)

theorem processPendingTransfers_eq (e : Engines G) (m : Mem G) : ∃ m1 : Mem G,
    m1.ioRegisters = m.ioRegisters ∧ m1.devices.completedDmacCauses = m.devices.completedDmacCauses ∧
      (∀ ch, m1.devices.pending ch = []) ∧
      processPendingTransfers e m = completeAll (hadPending m) [.gif, .vif0, .vif1] m1 := by
  have h1 := processChannel_kept e .gif m
  have h2 := processChannel_kept e .vif0 (processChannel e .gif m)
  have h3 := processChannel_kept e .vif1 (processChannel e .vif0 (processChannel e .gif m))
  set m1 := processChannel e .gif m with hm1
  set m2 := processChannel e .vif0 m1 with hm2
  set m3 := processChannel e .vif1 m2 with hm3
  have hvif0 : hadPending m1 .vif0 = hadPending m .vif0 := hadPending_processChannel e m (by decide)
  have hvif1 : hadPending m2 .vif1 = hadPending m .vif1 := by
    rw [hm2, hadPending_processChannel e m1 (by decide), hm1, hadPending_processChannel e m (by decide)]
  refine ⟨{ m3 with devices.gif.behind := GifPort.drainArbiter e.sink m3.devices.gif.behind },
    h3.ioRegisters.trans (h2.ioRegisters.trans h1.ioRegisters),
    h3.causes.trans (h2.causes.trans h1.causes), ?_, ?_⟩
  · intro ch
    have hpending : m3.devices.pending ch = (clearPending m2 .vif1).devices.pending ch := by rw [h3.pending]
    refine hpending.trans ?_
    cases ch with
    | vif1 => rfl
    | vif0 =>
      have hzero : m2.devices.pending .vif0 = (clearPending m1 .vif0).devices.pending .vif0 := by rw [h2.pending]
      exact hzero
    | gif =>
      have hzero : m2.devices.pending .gif = m1.devices.pending .gif := by
        rw [h2.pending]
        rfl
      have hzero' : m1.devices.pending .gif = (clearPending m .gif).devices.pending .gif := by rw [h1.pending]
      exact hzero.trans hzero'
  · rw [processPendingTransfers]
    simp only
    rw [← hm1, hvif0, ← hm2, hvif1, ← hm3]
    rfl

/-! ### Chains with data -/

/-- Where a walk goes depends on its registers only. -/
theorem follow_state (c : ChainState) (tag : DmaTag) :
    (c.regs.state.follow tag).1 = (c.follow tag).1 ∧
      (c.regs.state.follow tag).2.1.regs = (c.follow tag).2.1.regs ∧
      (c.regs.state.follow tag).2.2 = (c.follow tag).2.2 := by
  have hasp : c.regs.state.asp = c.asp := rfl
  rw [ChainState.follow, ChainState.follow]
  cases tag.id with
  | refe => exact ⟨rfl, rfl, rfl⟩
  | cnt => exact ⟨rfl, rfl, rfl⟩
  | next => exact ⟨rfl, rfl, rfl⟩
  | ref => exact ⟨rfl, rfl, rfl⟩
  | refs => exact ⟨rfl, rfl, rfl⟩
  | endTag => exact ⟨rfl, rfl, rfl⟩
  | call =>
    refine ⟨rfl, ?_, rfl⟩
    simp only [hasp]
    split_ifs
    · rfl
    · rfl
    · rfl
  | ret =>
    simp only [hasp]
    split_ifs
    · exact ⟨rfl, rfl, rfl⟩
    · exact ⟨rfl, rfl, rfl⟩
    · exact ⟨rfl, rfl, rfl⟩

theorem follow_regs_congr (c : ChainState) (buf : List Byte) (num : ℕ) (upper : Word) :
    ({ c with chainBuf := buf, tagsProcessed := num, lastTagUpper := upper } : ChainState).regs = c.regs := rfl

theorem appendData_data {a q : Word} (hq : 0 < (sizeOfQuads q).toNat) :
    (isMapped m a = false → ∃ err, appendData m a q = .error err) ∧
      (isMapped m a = true → ∃ bs, appendData m a q = .ok bs ∧ bs ≠ []) := by
  rw [isMapped, appendData]
  cases hs : sourceOf m.tlbEntries a with
  | error err => exact ⟨fun _ => ⟨err, rfl⟩, fun h => by cases h⟩
  | ok p =>
    refine ⟨fun h => (by cases h), fun _ => ⟨_, rfl, ?_⟩⟩
    have hlimit := (limit_of (sourceOf_region hs)).1
    have hone : (1 : Word) ≤ sizeOfQuads q := BitVec.le_def.2 hq
    obtain ⟨s, c, heq, hc⟩ := chunks_first hone hq hlimit
    rw [heq, List.flatMap_cons]
    intro hnil
    have hlen := congrArg List.length (List.append_eq_nil_iff.1 hnil).1
    simp only [slice, List.length_map, List.length_range, List.length_nil] at hlen
    omega

theorem sizeOfQuads_pos {q : BitVec 16} (hq : 0 < q) : 0 < (sizeOfQuads (q.setWidth 32)).toNat := by
  rw [sizeOfQuads_eq]
  rw [BitVec.lt_def] at hq
  have hzero : (0 : BitVec 16).toNat = 0 := rfl
  omega

theorem tagHead_data {a : Word} {tag : DmaTag} (vif : Bool) (htag : readTag m a = some tag) :
    ((!vif || isMapped m (a + 16)) = false → ∃ err, tagHead m vif a = .error err) ∧
      ((!vif || isMapped m (a + 16)) = true → ∃ bs, tagHead m vif a = .ok bs ∧ (bs ≠ [] ↔ vif = true)) := by
  cases vif with
  | false => exact ⟨fun h => (nomatch h), fun _ => ⟨[], rfl, by simp⟩⟩
  | true =>
    rw [Bool.not_true, Bool.false_or, tagHead, if_pos rfl, compactTagData]
    rw [readTag] at htag
    cases hs : sourceOf m.tlbEntries a with
    | error err =>
      rw [hs] at htag
      cases htag
    | ok p =>
      rw [hs] at htag
      simp only at htag
      split at htag
      · cases htag
      · next hfits =>
        simp only [bind, Except.bind, if_neg hfits]
        constructor
        · intro h
          rw [isMapped] at h
          rw [appendData]
          cases hs' : sourceOf m.tlbEntries (a + 16) with
          | error err => exact ⟨err, rfl⟩
          | ok p' =>
            rw [hs'] at h
            cases h
        · intro h
          rw [isMapped] at h
          rw [appendData]
          cases hs' : sourceOf m.tlbEntries (a + 16) with
          | error err =>
            rw [hs'] at h
            cases h
          | ok p' =>
            refine ⟨_, rfl, iff_of_true (fun hnil => ?_) trivial⟩
            have hlen := congrArg List.length (List.append_eq_nil_iff.1 hnil).1
            rw [slice, List.length_map, List.length_range, List.length_nil] at hlen
            cases hlen

theorem tagPayload_data (a : Word) (q : BitVec 16) :
    ((!decide (0 < q) || isMapped m a) = false → ∃ err, tagPayload m a q = .error err) ∧
      ((!decide (0 < q) || isMapped m a) = true → ∃ bs, tagPayload m a q = .ok bs ∧ (bs ≠ [] ↔ 0 < q)) := by
  rw [tagPayload]
  by_cases hq : 0 < q
  · rw [decide_eq_true hq, Bool.not_true, Bool.false_or, if_pos hq]
    obtain ⟨herr, hok⟩ := appendData_data (m := m) (a := a) (sizeOfQuads_pos hq)
    refine ⟨herr, fun h => ?_⟩
    obtain ⟨bs, hbs, hne⟩ := hok h
    exact ⟨bs, hbs, iff_of_true hne hq⟩
  · rw [decide_eq_false hq, if_neg hq]
    exact ⟨fun h => (by cases h), fun _ => ⟨[], rfl, iff_of_false (fun h => h rfl) hq⟩⟩

/-- **When a walk gathers something.** By induction on the number of tags. -/
theorem chainLoop_data (vif tie : Bool) (n : ℕ) (c : ChainState) :
    (walkMapped m vif tie n c.regs = false → ∃ err, chainLoop m vif tie n c = .error err) ∧
      (walkMapped m vif tie n c.regs = true → ∃ c', chainLoop m vif tie n c = .ok c' ∧
        (c'.chainBuf ≠ [] ↔ c.chainBuf ≠ [] ∨ walkCarries m vif tie n c.regs = true)) := by
  induction n generalizing c with
  | zero => exact ⟨fun h => (by cases h), fun _ => ⟨c, rfl, by simp [walkCarries]⟩⟩
  | succ n ih =>
    have htadr : c.regs.tadr = c.tagAddr := rfl
    rw [walkMapped, walkCarries, chainLoop, htadr]
    cases htag : readTag m c.tagAddr with
    | none => exact ⟨fun h => (by cases h), fun _ => ⟨c, rfl, by simp⟩⟩
    | some tag =>
      obtain ⟨hdata, hregs, hend⟩ := follow_state c tag
      simp only [hdata, hregs, hend]
      obtain ⟨hheadErr, hheadOk⟩ := tagHead_data vif htag
      obtain ⟨hpayErr, hpayOk⟩ := tagPayload_data (m := m) (c.follow tag).1 tag.qwc
      by_cases hhead : (!vif || isMapped m (c.tagAddr + 16)) = true
      · obtain ⟨head, hheadEq, hheadNe⟩ := hheadOk hhead
        by_cases hpay : (!decide (0 < tag.qwc) || isMapped m (c.follow tag).1) = true
        · obtain ⟨payload, hpayEq, hpayNe⟩ := hpayOk hpay
          rw [hheadEq, hpayEq, hhead, hpay]
          simp only [bind, Except.bind, Bool.true_and]
          have hbuf : c.chainBuf ++ head ++ payload ≠ [] ↔ c.chainBuf ≠ [] ∨ vif = true ∨ 0 < tag.qwc := by
            rw [← hheadNe, ← hpayNe]
            rw [ne_eq, List.append_eq_nil_iff, List.append_eq_nil_iff, not_and_or, not_and_or, or_assoc]
          by_cases hlast : ((c.follow tag).2.2 || (tag.irq && tie)) = true
          · rw [hlast, if_pos rfl]
            refine ⟨fun h => (by cases h), fun _ => ⟨_, rfl, ?_⟩⟩
            rw [hbuf]
            simp
          · rw [if_neg hlast]
            rw [Bool.not_eq_true] at hlast
            obtain ⟨herr, hok⟩ := ih { (c.follow tag).2.1 with
              chainBuf := c.chainBuf ++ head ++ payload
              tagsProcessed := c.tagsProcessed + 1
              lastTagUpper := tag.upper }
            rw [follow_regs_congr] at herr hok
            rw [hlast, Bool.false_or]
            refine ⟨herr, fun h => ?_⟩
            obtain ⟨c', hc', hne⟩ := hok h
            refine ⟨c', hc', ?_⟩
            rw [hne, hbuf]
            simp [or_assoc]
        · rw [Bool.not_eq_true] at hpay
          obtain ⟨err, herr⟩ := hpayErr hpay
          rw [hheadEq, herr, hpay]
          simp [bind, Except.bind]
      · rw [Bool.not_eq_true] at hhead
        obtain ⟨err, herr⟩ := hheadErr hhead
        rw [herr, hhead]
        simp [bind, Except.bind]

/-! ### Kicks -/

theorem completeAll_pending (had : Channel → Bool) (chs : List Channel) (m : Mem G) :
    (completeAll had chs m).devices.pending = m.devices.pending := by
  induction chs generalizing m with
  | nil => rfl
  | cons ch chs ih =>
    rw [completeAll_cons, ih, completeIf.eq_def]
    split
    · rfl
    · rfl

theorem completeAll_none (h : ∀ ch, had ch = false) (chs : List Channel) (m : Mem G) : completeAll had chs m = m := by
  induction chs generalizing m with
  | nil => rfl
  | cons ch chs ih =>
    rw [completeAll_cons, h ch, ih]
    rfl

theorem hadPending_eq (m : Mem G) (ch : Channel) : hadPending m ch = true ↔ m.devices.pending ch ≠ [] := by
  rw [hadPending]
  simp

section

variable (e : Engines G)

/-- **What processing completes.** A channel with something on its list, once; the others are left
alone, and no list has anything on it any more. -/
theorem processed (m : Mem G) :
    (∀ k, Waiting k m → Completed k m (processPendingTransfers e m)) ∧
      (∀ k, ¬Waiting k m → Untouched k m (processPendingTransfers e m)) ∧
      (∀ ch, (processPendingTransfers e m).devices.pending ch = []) ∧
      ((∀ ch, m.devices.pending ch = []) → reg (processPendingTransfers e m) dStat = reg m dStat) := by
  obtain ⟨m1, hregs, hcauses, hpending, heq⟩ := processPendingTransfers_eq e m
  rw [heq]
  refine ⟨?_, ?_, ?_, ?_⟩
  · rintro k ⟨ch, rfl, hne⟩
    have hmem : ch ∈ [Channel.gif, .vif0, .vif1] := by cases ch <;> decide
    exact .after (.of_eq hregs hcauses) (completeAll_completed (by decide) hmem ((hadPending_eq m ch).2 hne))
  · intro k hk
    refine .trans (.of_eq hregs hcauses) (completeAll_untouched fun ch _ hch => ?_)
    rw [← Bool.not_eq_true, hadPending_eq]
    exact fun hne => hk ⟨ch, hch, hne⟩
  · intro ch
    rw [completeAll_pending]
    exact hpending ch
  · intro hnone
    have hfalse : ∀ ch, hadPending m ch = false := by
      intro ch
      rw [← Bool.not_eq_true, hadPending_eq]
      exact fun hne => hne (hnone ch)
    rw [completeAll_none hfalse]
    exact reg_congr hregs _

theorem processed_twice {M : Mem G}
    (hM : M = processPendingTransfers e m ∨ M = processPendingTransfers e (processPendingTransfers e m)) :
    (∀ k, Waiting k m → Completed k m M) ∧ ∀ k, ¬Waiting k m → Untouched k m M := by
  obtain ⟨hdone, hrest, hnone, -⟩ := processed e m
  rcases hM with rfl | rfl
  · exact ⟨hdone, hrest⟩
  · obtain ⟨-, hrest', -, hstat⟩ := processed e (processPendingTransfers e m)
    have hagain : ∀ k, Untouched k (processPendingTransfers e m)
        (processPendingTransfers e (processPendingTransfers e m)) := by
      intro k
      refine hrest' k ?_
      rintro ⟨ch, -, hne⟩
      exact hne (hnone ch)
    exact ⟨fun k hk => (hdone k hk).untouched (hagain k) ((hdone k hk).summary.congr (hstat hnone)),
      fun k hk => (hrest k hk).trans (hagain k)⟩

/-- A write that leaves the causes and the other channels alone is completed if something is on the
list then. -/
theorem completed_iff_waiting {m2 M : Mem G} (hcauses : m2.devices.completedDmacCauses = m.devices.completedDmacCauses)
    (hothers : ∀ k', k' ≠ k → Untouched k' m m2 ∧ (Waiting k' m2 → Waiting k' m))
    (hM : M = processPendingTransfers e m2 ∨ M = processPendingTransfers e (processPendingTransfers e m2)) :
    (Completed k m M ∧ ∀ k', k' ≠ k → ¬Waiting k' m → Untouched k' m M) ↔ Waiting k m2 := by
  obtain ⟨hdone, hrest⟩ := processed_twice e hM
  constructor
  · rintro ⟨hcomplete, -⟩
    by_contra hno
    have hcount := (hrest k hno).causes
    rw [hcauses, hcomplete.causes] at hcount
    omega
  · intro hwait
    have hk := hdone k hwait
    refine ⟨⟨hk.str, hk.qwc, hk.status, hk.summary, by rw [hk.causes, hcauses]⟩, fun k' hne hno => ?_⟩
    obtain ⟨huntouched, hback⟩ := hothers k' hne
    exact huntouched.trans (hrest k' fun hwait' => hno (hback hwait'))

end

/-- What a write to CHCR leaves, whether it throws or not. -/
def afterWrite (e : Engines G) (k : AnyChannel) (value : Word) (m : Mem G) : Mem G :=
  match writeIORegister e k.base value m with
  | .ok _ m => m
  | .error _ m => m

/-- **When a kick completes**: on VIF0, VIF1 and the GIF, if something is on the list already, or the
transfer has data: a chain that carries some, or a QWC that is not 0. -/
def KickCompletes (m : Mem G) (k : AnyChannel) (chcr : Word) : Prop :=
  ∃ ch, k = .dma ch ∧ (m.devices.pending ch ≠ [] ∨
    (m.devices.gsVram = true ∨ ch = .vif0) ∧
      if (chcr >>> 2) &&& 0x3 = 1 then ChainHasData m ch chcr else reg m (ch.base + 0x20) ≠ 0)

theorem setReg_untouched {a v : Word} (hbase : a ≠ k.base) (hqwc : a ≠ k.base + 0x20) (hstat : a ≠ dStat) :
    Untouched k m (setReg m a v) := by
  constructor
  case str => rw [reg_setReg, if_neg (Ne.symm hbase)]
  case qwc => rw [reg_setReg, if_neg (Ne.symm hqwc)]
  case status => rw [reg_setReg, if_neg (Ne.symm hstat)]
  case causes => rfl

section

variable (h : k ≠ .dma ch)

include h

/-- The registers that a walk writes are none of another channel. -/
theorem AnyChannel.chain_apart : ∀ off ∈ [(0 : Word), 0x30, 0x40, 0x50],
    ch.base + off ≠ k.base ∧ ch.base + off ≠ k.base + 0x20 ∧ ch.base + off ≠ dStat := by
  intro off hoff
  simp only [List.mem_cons, List.not_mem_nil, or_false] at hoff
  rcases hoff with rfl | rfl | rfl | rfl <;> rcases k with (_ | _ | _) | (_ | _) <;> cases ch <;>
    first | exact absurd rfl h | decide

theorem setReg_chain_untouched {off : Word} (hoff : off ∈ [(0 : Word), 0x30, 0x40, 0x50])
    (v : Word) : Untouched k m (setReg m (ch.base + off) v) := by
  obtain ⟨hbase, hqwc, hstat⟩ := AnyChannel.chain_apart h off hoff
  exact setReg_untouched hbase hqwc hstat

theorem chcr_untouched (v : Word) : Untouched k m (setReg m ch.base v) := by
  have hzero : ch.base + 0 = ch.base := BitVec.add_zero _
  rw [← hzero]
  exact setReg_chain_untouched h List.mem_cons_self v

theorem writeBack_untouched (chcr : Word) (c : ChainState) : Untouched k m (writeBack m ch chcr c) := by
  have hstep : ∀ off ∈ [(0 : Word), 0x30, 0x40, 0x50], ∀ (m : Mem G) (v : Word),
      Untouched k m (setReg m (ch.base + off) v) := fun off hoff m v => setReg_chain_untouched h hoff v
  have h3 := hstep 0x30 (by simp) m c.tagAddr
  have h4 := h3.trans (hstep 0x40 (by simp) _ c.asr0)
  have h5 := h4.trans (hstep 0x50 (by simp) _ c.asr1)
  exact h5.trans (chcr_untouched h _)

end

theorem walk_setReg (vif tie : Bool) (a v : Word) (n : ℕ) (r : ChainRegs) : walkMapped (setReg m a v) vif tie n r =
    walkMapped m vif tie n r ∧ walkCarries (setReg m a v) vif tie n r = walkCarries m vif tie n r := by
  have hread : ∀ b, readTag (setReg m a v) b = readTag m b := fun _ => rfl
  have hmapped : ∀ b, isMapped (setReg m a v) b = isMapped m b := fun _ => rfl
  induction n generalizing r with
  | zero => exact ⟨rfl, rfl⟩
  | succ n ih =>
    rw [walkMapped, walkMapped, walkCarries, walkCarries, hread, hmapped]
    cases readTag m r.tadr with
    | none => exact ⟨rfl, rfl⟩
    | some tag =>
      simp only [hmapped]
      rw [(ih _).1, (ih _).2]
      exact ⟨rfl, rfl⟩

theorem chainHasData_setReg (ch : Channel) (chcr v : Word) :
    ChainHasData (setReg m ch.base v) ch chcr ↔ ChainHasData m ch chcr := by
  obtain ⟨-, h3, h4, h5⟩ := ch.base_apart
  have hof : ChainRegs.of (setReg m ch.base v) ch chcr = ChainRegs.of m ch chcr := by
    rw [ChainRegs.of, reg_setReg, reg_setReg, reg_setReg, if_neg h3, if_neg h4, if_neg h5]
    rfl
  rw [ChainHasData, hof, (walk_setReg _ _ _ _ _ _).1, (walk_setReg _ _ _ _ _ _).2]
  rfl

section

variable (m : Mem G) (ch : Channel) (chcr : Word)

theorem chainTransfer_data :
    (∃ err, chainTransfer ch chcr m = .error err m ∧ ¬ChainHasData m ch chcr) ∨
      ∃ c, chainTransfer ch chcr m = .ok () (if c.chainBuf = [] then writeBack m ch chcr c
          else enqueue (writeBack m ch chcr c) ch ⟨false, 0, 0, c.chainBuf⟩) ∧
        (c.chainBuf ≠ [] ↔ ChainHasData m ch chcr) := by
  obtain ⟨herr, hok⟩ := chainLoop_data (m := m) ch.isVif (tieEnabled chcr) kMaxChainTags (chainStart m ch chcr)
  have hregs : (chainStart m ch chcr).regs = ChainRegs.of m ch chcr := rfl
  have hnil : (chainStart m ch chcr).chainBuf = [] := rfl
  rw [hregs] at herr hok
  rw [chainTransfer, ChainHasData]
  cases hmapped : walkMapped m ch.isVif (tieEnabled chcr) kMaxChainTags (ChainRegs.of m ch chcr) with
  | false =>
    obtain ⟨err, h⟩ := herr hmapped
    rw [h]
    exact .inl ⟨err, rfl, fun h => by cases h.1⟩
  | true =>
    obtain ⟨c, h, hne⟩ := hok hmapped
    rw [h]
    refine .inr ⟨c, rfl, ?_⟩
    rw [hne, hnil]
    simp

/-- **What a transfer puts on the list.** -/
theorem enqueueTransfer_data :
    let data := if (chcr >>> 2) &&& 0x3 = 1 then ChainHasData m ch chcr else reg m (ch.base + 0x20) ≠ 0
    ∃ m2 : Mem G, (enqueueTransfer ch chcr m = .ok () m2 ∨ ∃ err, enqueueTransfer ch chcr m = .error err m2) ∧
      m2.devices.completedDmacCauses = m.devices.completedDmacCauses ∧
      (∀ k, k ≠ .dma ch → Untouched k m m2 ∧ (Waiting k m2 → Waiting k m)) ∧
      (Waiting (.dma ch) m2 ↔ m.devices.pending ch ≠ [] ∨ data) := by
  intro data
  have hkeep : ∀ m' : Mem G, m'.devices.pending = m.devices.pending → ∀ k, Waiting k m' → Waiting k m := by
    rintro m' hp k ⟨c, hc, hne⟩
    rw [hp] at hne
    exact ⟨c, hc, hne⟩
  have hself : ∀ m' : Mem G, Waiting (.dma ch) m' ↔ m'.devices.pending ch ≠ [] := by
    refine fun m' => ⟨?_, fun h => ⟨ch, rfl, h⟩⟩
    rintro ⟨c, hc, hne⟩
    rwa [AnyChannel.dma.inj hc]
  have hput : ∀ (m' : Mem G) pt, m'.devices.pending = m.devices.pending →
      (∀ k, k ≠ .dma ch → Waiting k (enqueue m' ch pt) → Waiting k m) ∧ Waiting (.dma ch) (enqueue m' ch pt) := by
    refine fun m' pt hp => ⟨?_, ⟨ch, rfl, ?_⟩⟩
    · rintro k hk ⟨c, rfl, hne⟩
      have hcne : c ≠ ch := fun h => hk (by rw [h])
      refine ⟨c, rfl, ?_⟩
      rw [enqueue] at hne
      simp only [if_neg hcne, hp] at hne
      exact hne
    · rw [enqueue]
      simp
  rw [enqueueTransfer]
  by_cases hmode : (chcr >>> 2) &&& 0x3 = 1
  · have hdata : data ↔ ChainHasData m ch chcr := by simp only [data, if_pos hmode]
    simp only [if_pos hmode]
    rcases chainTransfer_data m ch chcr with ⟨err, h, hno⟩ | ⟨c, h, hne⟩
    · refine ⟨m, .inr ⟨err, h⟩, rfl, fun k _ => ⟨.refl k m, id⟩, ?_⟩
      rw [hself, hdata]
      exact ⟨.inl, fun h => h.resolve_right hno⟩
    · by_cases hbuf : c.chainBuf = []
      · rw [if_pos hbuf] at h
        refine ⟨_, .inl h, rfl, fun k hk => ⟨writeBack_untouched hk chcr c, hkeep _ rfl k⟩, ?_⟩
        rw [hself, hdata, ← hne]
        exact ⟨.inl, fun h => h.resolve_right fun hc => hc hbuf⟩
      · rw [if_neg hbuf] at h
        have hp := hput (writeBack m ch chcr c) ⟨false, 0, 0, c.chainBuf⟩ rfl
        refine ⟨_, .inl h, rfl, fun k hk => ⟨.trans (writeBack_untouched hk chcr c) (.of_eq rfl rfl), hp.1 k hk⟩, ?_⟩
        exact iff_of_true hp.2 (.inr (hdata.2 (hne.1 hbuf)))
  · have hdata : data ↔ reg m (ch.base + 0x20) ≠ 0 := by simp only [data, if_neg hmode]
    simp only [if_neg hmode]
    by_cases hq : reg m (ch.base + 0x20) = 0
    · rw [if_pos hq]
      refine ⟨m, .inl rfl, rfl, fun k _ => ⟨.refl k m, id⟩, ?_⟩
      rw [hself, hdata]
      exact ⟨.inl, fun h => h.resolve_right fun hc => hc hq⟩
    · rw [if_neg hq]
      have hp := hput m ⟨isScratchpad (reg m (ch.base + 0x10)), reg m (ch.base + 0x10), reg m (ch.base + 0x20), []⟩ rfl
      refine ⟨_, .inl rfl, rfl, fun k hk => ⟨.of_eq rfl rfl, hp.1 k hk⟩, ?_⟩
      exact iff_of_true hp.2 (.inr (hdata.2 hq))

end

/-- Which code a write with STR set runs. -/
theorem writeIORegister_kick (e : Engines G) (k : AnyChannel) {value : Word} (hstr : value.getLsbD 8 = true)
    (m : Mem G) : writeIORegister e k.base value m = match k with
      | .dma ch => startTransfer e ch value (setReg m ch.base value)
      | .spr ch => sprTransfer ch value (setReg m ch.base value) := by
  have hstat : k.base ≠ dStat := (AnyChannel.apart k k).1
  have hfind : (AnyChannel.all.find? fun c => value.getLsbD 8 && k.base == c.base) = some k := by
    rw [hstr]
    rcases k with (_ | _ | _) | (_ | _) <;> decide
  rw [writeIORegister, if_neg hstat]
  simp only
  rw [hfind]
  cases k with
  | dma ch => rfl
  | spr ch => rfl

theorem sprCopy_devices (ch : SprChannel) (spMadr sadr : Word) (n : ℕ) (m : Mem G) :
    (sprCopy ch spMadr sadr n m).devices = m.devices := by
  rw [sprCopy]
  generalize List.range _ = l
  induction l generalizing m with
  | nil => rfl
  | cons i l ih =>
    rw [List.foldl_cons, ih]
    cases ch with
    | fromSPR => rfl
    | toSPR => rfl

theorem sprTransfer_causes (ch : SprChannel) (value : Word) (m : Mem G) : ∃ m2 : Mem G,
    (sprTransfer ch value m = .ok () m2 ∨ ∃ err, sprTransfer ch value m = .error err m2) ∧
      m2.devices.completedDmacCauses = m.devices.completedDmacCauses := by
  rw [sprTransfer]
  cases translateAddress m.tlbEntries (reg m (ch.base + 0x10)) with
  | error err => exact ⟨m, .inr ⟨err, rfl⟩, rfl⟩
  | ok spMadr =>
    refine ⟨_, .inl rfl, ?_⟩
    have hdevices : ∀ sadr n, (if spMadr < ramSize then sprCopy ch spMadr sadr n m else m).devices = m.devices := by
      intro sadr n
      split
      · exact sprCopy_devices ch spMadr sadr n m
      · rfl
    exact congrArg Dmac.completedDmacCauses (hdevices _ _)

theorem dmacEnabled_setReg (ch : Channel) (v : Word) : dmacEnabled (setReg m ch.base v) = dmacEnabled m := by
  have hne : dCtrl ≠ ch.base := by cases ch <;> decide
  rw [dmacEnabled, dmacEnabled, setReg]
  simp only [if_neg hne]

/-- **Every kick with data completes, once, and no other does.** -/
theorem kick_completes (e : Engines G) (m : Mem G) (k : AnyChannel) (chcr : Word)
    (hstr : chcr.getLsbD 8 = true) (hdmac : dmacEnabled m = true) :
    (Completed k m (processPendingTransfers e (afterWrite e k chcr m)) ∧
      ∀ k', k' ≠ k → ¬Waiting k' m →
        Untouched k' m (processPendingTransfers e (afterWrite e k chcr m))) ↔ KickCompletes m k chcr := by
  rw [afterWrite, writeIORegister_kick e k hstr]
  cases k with
  | spr ch =>
    refine iff_of_false ?_ ?_
    · rintro ⟨hcomplete, -⟩
      have hno : ∀ m' : Mem G, ¬Waiting (.spr ch) m' := fun m' ⟨_, h, _⟩ => nomatch h
      obtain ⟨m₂, hm₂, hcauses⟩ := sprTransfer_causes ch chcr (setReg m ch.base chcr)
      have hcount := hcomplete.causes
      rcases hm₂ with h | ⟨err, h⟩
      · simp only [h] at hcount
        rw [((processed e m₂).2.1 _ (hno m₂)).causes, hcauses] at hcount
        exact absurd hcount (Nat.ne_of_lt (Nat.lt_succ_self _))
      · simp only [h] at hcount
        rw [((processed e m₂).2.1 _ (hno m₂)).causes, hcauses] at hcount
        exact absurd hcount (Nat.ne_of_lt (Nat.lt_succ_self _))
    · rintro ⟨c, hc, -⟩
      cases hc
  | dma ch =>
    have hkick : KickCompletes m (.dma ch) chcr ↔ m.devices.pending ch ≠ [] ∨
        (m.devices.gsVram = true ∨ ch = .vif0) ∧
          if (chcr >>> 2) &&& 0x3 = 1 then ChainHasData m ch chcr else reg m (ch.base + 0x20) ≠ 0 := by
      refine ⟨?_, fun h => ⟨ch, rfl, h⟩⟩
      rintro ⟨c, hc, h⟩
      rwa [AnyChannel.dma.inj hc]
    rw [hkick]
    -- the write of CHCR itself
    have hwrite : ∀ k', k' ≠ .dma ch → Untouched k' m (setReg m ch.base chcr) :=
      fun k' hk' => chcr_untouched hk' chcr
    have hqwc : ch.base + 0x20 ≠ ch.base := by cases ch <;> decide
    simp only [startTransfer, dmacEnabled_setReg, hdmac, Bool.not_true, Bool.false_eq_true, if_false]
    have hvram : (setReg m ch.base chcr).devices.gsVram = m.devices.gsVram := rfl
    rw [hvram]
    by_cases hopen : m.devices.gsVram = true ∨ ch = .vif0
    · have hcond : ¬(!(m.devices.gsVram || decide (ch = .vif0))) = true := by
        rcases hopen with h | h
        · simp [h]
        · simp [h]
      rw [if_neg hcond]
      obtain ⟨m₂, hm₂, hcauses, hothers, hwait⟩ := enqueueTransfer_data (setReg m ch.base chcr) ch chcr
      rw [chainHasData_setReg, reg_setReg, if_neg hqwc] at hwait
      have hwait' : Waiting (.dma ch) m₂ ↔ m.devices.pending ch ≠ [] ∨ (m.devices.gsVram = true ∨ ch = .vif0) ∧
          if (chcr >>> 2) &&& 0x3 = 1 then ChainHasData m ch chcr else reg m (ch.base + 0x20) ≠ 0 := by
        rw [and_iff_right hopen]
        exact hwait
      rw [← hwait']
      refine completed_iff_waiting e hcauses (fun k' hk' => ?_) ?_
      · exact ⟨(hwrite k' hk').trans (hothers k' hk').1, (hothers k' hk').2⟩
      · rcases hm₂ with h | ⟨err, h⟩
        · simp only [h]
          by_cases hauto : autoProcess e ch = true
          · rw [if_pos hauto]
            exact .inr rfl
          · rw [if_neg hauto]
            exact .inl rfl
        · left
          simp only [h]
    · have hcond : (!(m.devices.gsVram || decide (ch = .vif0))) = true := by
        obtain ⟨hv, hc⟩ := not_or.1 hopen
        simp [hv, hc]
      rw [if_pos hcond]
      have hwait : Waiting (.dma ch) (setReg m ch.base chcr) ↔ m.devices.pending ch ≠ [] ∨
          (m.devices.gsVram = true ∨ ch = .vif0) ∧
            if (chcr >>> 2) &&& 0x3 = 1 then ChainHasData m ch chcr else reg m (ch.base + 0x20) ≠ 0 := by
        refine ⟨?_, fun h => ⟨ch, rfl, h.resolve_right fun hd => hopen hd.1⟩⟩
        rintro ⟨c, hc, hne⟩
        rw [← AnyChannel.dma.inj hc] at hne
        exact .inl hne
      rw [← hwait]
      refine completed_iff_waiting e rfl (fun k' hk' => ⟨hwrite k' hk', id⟩) ?_
      left
      rfl

/-- Devices that do nothing. -/
def quietEngines : Engines Unit where
  sink := ⟨none, none⟩
  processVIF0Data _ m := m
  processVIF1Data _ m := m
  vif0_kept _ m := .refl m
  vif1_kept _ m := .refl m

/-- The chain with one tag, on VIF1. -/
theorem oneTag_kick : (Completed (.dma .vif1) oneTag
      (processPendingTransfers quietEngines (afterWrite quietEngines (.dma .vif1) 0x105 oneTag)) ∧
    ∀ k', k' ≠ .dma .vif1 → ¬Waiting k' oneTag → Untouched k' oneTag
      (processPendingTransfers quietEngines (afterWrite quietEngines (.dma .vif1) 0x105 oneTag))) ↔
    KickCompletes oneTag (.dma .vif1) 0x105 :=
  kick_completes quietEngines oneTag (.dma .vif1) 0x105 (by decide) (by decide)

/-- **An empty transfer is never complete**: with QWC 0, VIF1 keeps STR. -/
theorem empty_kick_hangs : ¬∀ (m : Mem Unit) (k : AnyChannel) (chcr : Word), chcr.getLsbD 8 = true →
    dmacEnabled m = true →
    Completed k m (processPendingTransfers quietEngines (afterWrite quietEngines k chcr m)) ∧
      ∀ k', k' ≠ k → ¬Waiting k' m →
        Untouched k' m (processPendingTransfers quietEngines (afterWrite quietEngines k chcr m)) := by
  intro h
  have hstr := (h oneTag (.dma .vif1) 0x100 (by decide) (by decide)).1.str
  have hset : (reg (processPendingTransfers quietEngines
      (afterWrite quietEngines (.dma .vif1) 0x100 oneTag)) (AnyChannel.dma .vif1).base).getLsbD 8 = true := by
    decide +kernel
  rw [hset] at hstr
  cases hstr

end Ps2Recomp.Dma
