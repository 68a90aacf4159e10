import Ps2Recomp.Spec.Dma
import Mathlib.Tactic.IntervalCases

/-!
# Copying around the end of a memory

The ranges that a copying loop of the transfers goes through. Where the first test of the loop does not
overflow, they lie in the memory (`chunks_inside`) and are the bytes that were asked for, in order and
around its end (`chunks_bytes`).
-/

namespace Ps2Recomp.Dma

open Gif

variable {limit least src bytes : Word} {b : Bytes.Memory} {n : ℕ}

/-- Where a loop that starts at `src` begins to copy. -/
def wrapStart (limit src : Word) : ℕ := if limit ≤ src then 0 else src.toNat

theorem wrapStart_lt (src : Word) (hlimit : 0 < limit.toNat) : wrapStart limit src < limit.toNat := by
  rw [wrapStart]
  split
  · exact hlimit
  · next h =>
    rw [BitVec.le_def] at h
    omega

section

variable (hleast : least ≤ bytes) (hpos : 0 < bytes.toNat) (hlimit : 0 < limit.toNat)

include hleast hpos hlimit

theorem chunks_first : ∃ s c : Word, chunks limit least (n + 1) src bytes =
    (s, c) :: chunks limit least n (s + c) (bytes - c) ∧ 0 < c.toNat := by
  set s : Word := if limit ≤ src then 0 else src with hs
  have hlt : s < limit := by
    rw [hs]
    split
    · exact BitVec.lt_def.2 hlimit
    · next h => exact BitVec.not_le.1 h
  set c : Word := if limit < s + bytes then limit - s else bytes with hc
  have hcpos : 0 < c.toNat := by
    rw [hc]
    split
    · rw [BitVec.lt_def] at hlt
      rw [BitVec.toNat_sub_of_le (BitVec.le_def.2 (by omega))]
      omega
    · exact hpos
  have hcne : c ≠ 0 := by
    intro hzero
    have : c.toNat = 0 := by rw [hzero]; rfl
    omega
  refine ⟨s, c, ?_, hcpos⟩
  rw [chunks, if_neg (BitVec.not_lt.2 hleast)]
  simp only
  rw [← hs, ← hc, if_neg hcne]

theorem chunks_succ (hsum : wrapStart limit src + bytes.toNat < 2 ^ 32) :
    ∃ s c : Word, chunks limit least (n + 1) src bytes =
        (s, c) :: chunks limit least n (s + c) (bytes - c) ∧
      s.toNat = wrapStart limit src ∧ c.toNat = min bytes.toNat (limit.toNat - wrapStart limit src) := by
  have hlt := wrapStart_lt src hlimit
  set s : Word := if limit ≤ src then 0 else src with hs
  have hsn : s.toNat = wrapStart limit src := by
    rw [hs, wrapStart]
    split
    · rfl
    · rfl
  have hadd : (s + bytes).toNat = wrapStart limit src + bytes.toNat := by
    rw [BitVec.toNat_add_of_lt (by omega), hsn]
  set c : Word := if limit < s + bytes then limit - s else bytes with hc
  have hcn : c.toNat = min bytes.toNat (limit.toNat - wrapStart limit src) := by
    rw [hc]
    split
    · next h =>
      rw [BitVec.lt_def, hadd] at h
      rw [BitVec.toNat_sub_of_le (BitVec.le_def.2 (by omega)), hsn]
      omega
    · next h =>
      rw [BitVec.lt_def, hadd] at h
      omega
  have hcne : c ≠ 0 := by
    intro hzero
    have : c.toNat = 0 := by rw [hzero]; rfl
    omega
  refine ⟨s, c, ?_, hsn, hcn⟩
  rw [chunks, if_neg (BitVec.not_lt.2 hleast)]
  simp only
  rw [← hs, ← hc, if_neg hcne]

end

section

variable (hlimit : 0 < limit.toNat)

include hlimit

/-- **The ranges lie in the memory.** -/
theorem chunks_inside (hleast : 0 < least.toNat) (hsum : wrapStart limit src + bytes.toNat < 2 ^ 32) :
    ∀ r ∈ chunks limit least n src bytes, r.1.toNat + r.2.toNat ≤ limit.toNat := by
  induction n generalizing src bytes with
  | zero => simp [chunks]
  | succ n ih =>
    by_cases hlt : bytes < least
    · rw [chunks, if_pos hlt]
      simp
    · have hle := BitVec.not_lt.1 hlt
      have hpos : 0 < bytes.toNat := by
        rw [BitVec.le_def] at hle
        omega
      obtain ⟨s, c, heq, hs, hc⟩ := chunks_succ (n := n) hle hpos hlimit hsum
      have hstart := wrapStart_lt src hlimit
      rw [heq]
      intro r hr
      rcases List.mem_cons.1 hr with rfl | hr
      · simp only
        omega
      · -- behind the first range the loop is at the start of the memory, or done
        refine ih ?_ r hr
        have hsub : (bytes - c).toNat = bytes.toNat - c.toNat :=
          BitVec.toNat_sub_of_le (BitVec.le_def.2 (by omega))
        have hsc : (s + c).toNat = s.toNat + c.toNat := BitVec.toNat_add_of_lt (by omega)
        have hnext : wrapStart limit (s + c) ≤ s.toNat + c.toNat := by
          rw [wrapStart]
          split
          · omega
          · omega
        omega

/-- **The ranges lie in the memory exactly where the first test does not overflow.** Where it does, the
first range is all that was asked for. -/
theorem chunks_inside_iff (hsmall : limit.toNat ≤ 2 ^ 25) (hleast : 0 < least.toNat) (hleast' : least.toNat ≤ 16) :
    (∀ r ∈ chunks limit least (n + 1) src bytes, r.1.toNat + r.2.toNat ≤ limit.toNat) ↔
      wrapStart limit src + bytes.toNat < 2 ^ 32 := by
  refine ⟨fun h => ?_, chunks_inside hlimit hleast⟩
  have hstart := wrapStart_lt src hlimit
  by_contra hover
  have hle : least ≤ bytes := by
    rw [BitVec.le_def]
    omega
  set s : Word := if limit ≤ src then 0 else src with hs
  have hsn : s.toNat = wrapStart limit src := by
    rw [hs, wrapStart]
    split
    · rfl
    · rfl
  have hbytes := bytes.isLt
  have hnot : ¬limit < s + bytes := by
    rw [BitVec.lt_def, BitVec.toNat_add, hsn]
    omega
  have hmem : (s, bytes) ∈ chunks limit least (n + 1) src bytes := by
    have hne : bytes ≠ 0 := by
      rintro rfl
      have hzero : (0 : Word).toNat = 0 := rfl
      omega
    rw [chunks, if_neg (BitVec.not_lt.2 hle)]
    simp only
    rw [← hs, if_neg hnot, if_neg hne]
    exact List.mem_cons_self
  have := h _ hmem
  simp only [hsn] at this
  omega

/-- **The bytes of the ranges.** -/
theorem chunks_bytes (hn : bytes.toNat < n) (hsum : wrapStart limit src + bytes.toNat < 2 ^ 32) :
    (chunks limit 1 n src bytes).flatMap (fun c => slice b c.1.toNat c.2.toNat) =
      (List.range bytes.toNat).map fun i => b ((wrapStart limit src + i) % limit.toNat) := by
  induction n generalizing src bytes with
  | zero => omega
  | succ n ih =>
    have hone : (1 : Word).toNat = 1 := rfl
    by_cases hzero : bytes.toNat = 0
    · rw [chunks, if_pos (by rw [BitVec.lt_def]; omega), hzero]
      rfl
    · have hle : (1 : Word) ≤ bytes := by
        rw [BitVec.le_def]
        omega
      obtain ⟨s, c, heq, hs, hc⟩ := chunks_succ (n := n) hle (by omega) hlimit hsum
      have hstart := wrapStart_lt src hlimit
      have hsub : (bytes - c).toNat = bytes.toNat - c.toNat :=
        BitVec.toNat_sub_of_le (BitVec.le_def.2 (by omega))
      have hsc : (s + c).toNat = s.toNat + c.toNat := BitVec.toNat_add_of_lt (by omega)
      have hfirst : slice b s.toNat c.toNat =
          (List.range c.toNat).map fun i => b ((wrapStart limit src + i) % limit.toNat) := by
        rw [slice]
        refine List.map_congr_left fun i hi => ?_
        rw [List.mem_range] at hi
        rw [hs, Nat.mod_eq_of_lt (by omega)]
      have hsplit : bytes.toNat = c.toNat + (bytes.toNat - c.toNat) := by omega
      rw [heq, List.flatMap_cons, hfirst, hsplit, List.range_add, List.map_append, List.map_map]
      congr 1
      by_cases hdone : bytes.toNat - c.toNat = 0
      · rw [hdone]
        cases n with
        | zero => rfl
        | succ n =>
          rw [chunks, if_pos (by rw [BitVec.lt_def, hsub]; omega)]
          rfl
      · -- the first range ends at the end of the memory
        have hwrap : wrapStart limit (s + c) = 0 := by
          rw [wrapStart, if_pos (BitVec.le_def.2 (by omega))]
        rw [ih (by omega) (by omega), hsub, hwrap]
        refine List.map_congr_left fun i _ => ?_
        have hend : wrapStart limit src + (c.toNat + i) = limit.toNat + i := by omega
        simp only [Function.comp_apply, Nat.zero_add]
        rw [hend, Nat.add_mod_left]

end

end Ps2Recomp.Dma

/-!
# The walk over a chain of tags

The walk gathers the bytes of the source chain and leaves its registers (`chainLoop_of_chain`), with
the upper half of each tag on every channel to a vector unit, whatever CHCR.TTE says, and without a
look at the bit for the scratchpad. It ends, whatever the memory holds (`chainLoop_bounded`).
-/

namespace Ps2Recomp.Dma

open Memory Gif

variable {G : Type} {m : Mem G} {ch : Channel} {a chcr : Word} {s s' : ChainRegs} {tag : BitVec 64}
  {tags : List (BitVec 64)} {bs : List Byte} {vif tie : Bool} {n : ℕ} {c : ChainState}

/-- The rules that the walk follows. -/
def walkRules (vif : Bool) : Rules := ⟨vif, false⟩

theorem locate_some {p : Region × ℕ} (h : (walkRules vif).locate m a = some p) :
    ∃ w : Word, sourceOf m.tlbEntries a = .ok (p.1, w) ∧ w.toNat = p.2 := by
  rw [Rules.locate, walkRules] at h
  cases hs : sourceOf m.tlbEntries a with
  | error e =>
    rw [hs] at h
    cases h
  | ok q =>
    rw [hs] at h
    cases h
    exact ⟨q.2, rfl, rfl⟩

theorem sourceOf_region {r : Region} {w : Word} (h : sourceOf m.tlbEntries a = .ok (r, w)) :
    r = .scratchpad ∨ r = .rdram := by
  rw [sourceOf] at h
  cases ht : translateAddress m.tlbEntries a with
  | error e =>
    rw [ht] at h
    cases h
  | ok p =>
    rw [ht] at h
    cases h
    split
    · exact .inl rfl
    · exact .inr rfl

/-- Both memories are small. -/
theorem limit_of {r : Region} (h : r = .scratchpad ∨ r = .rdram) : 0 < r.limit.toNat ∧ r.limit.toNat ≤ 2 ^ 25 := by
  rcases h with rfl | rfl
  · decide
  · decide

theorem readTag_eq (h : (walkRules vif).tagAt m a = some tag) : readTag m a = some (decodeDmaTag tag) := by
  rw [Rules.tagAt, Option.bind_eq_some_iff] at h
  obtain ⟨p, hp, h⟩ := h
  split at h
  · next hfits =>
    cases h
    obtain ⟨w, hw, hwp⟩ := locate_some hp
    have hlim := limit_of (sourceOf_region hw)
    have h16 : (16 : Word).toNat = 16 := rfl
    rw [readTag, hw]
    simp only
    rw [if_neg, hwp]
    rw [BitVec.lt_def, BitVec.toNat_add_of_lt (by omega)]
    omega
  · cases h

theorem sizeOfQuads_eq (q : BitVec 16) : (sizeOfQuads (q.setWidth 32)).toNat = 16 * q.toNat := by
  have hq := q.isLt
  have hmul : ((q.setWidth 32).setWidth 64 * 16 : BitVec 64).toNat = 16 * q.toNat := by
    have h16 : (16 : BitVec 64).toNat = 16 := rfl
    rw [BitVec.toNat_mul, BitVec.toNat_setWidth, BitVec.toNat_setWidth, h16]
    omega
  have hmax : (0xFFFFFFFF : BitVec 64).toNat = 0xFFFFFFFF := rfl
  rw [sizeOfQuads, if_neg (by rw [BitVec.lt_def, hmul, hmax]; omega), BitVec.toNat_setWidth, hmul]
  omega

/-- **`appendData` copies the bytes of the chain.** -/
theorem appendData_eq {q : BitVec 16} (h : (walkRules vif).bytes m a (16 * q.toNat) = some bs) :
    appendData m a (q.setWidth 32) = .ok bs := by
  have hq := q.isLt
  rw [Rules.bytes, Option.map_eq_some_iff] at h
  obtain ⟨p, hp, rfl⟩ := h
  obtain ⟨w, hw, hwp⟩ := locate_some hp
  obtain ⟨hpos, hle⟩ := limit_of (sourceOf_region hw)
  have hstart : wrapStart p.1.limit w = if p.2 < p.1.limit.toNat then p.2 else 0 := by
    rw [wrapStart, ← hwp]
    by_cases hlt : w.toNat < p.1.limit.toNat
    · rw [if_pos hlt, if_neg (by rw [BitVec.le_def]; omega)]
    · rw [if_neg hlt, if_pos (by rw [BitVec.le_def]; omega)]
  have hlt := wrapStart_lt w hpos
  have hsum : wrapStart p.1.limit w + (sizeOfQuads (q.setWidth 32)).toNat < 2 ^ 32 := by
    rw [sizeOfQuads_eq]
    omega
  have hbytes := chunks_bytes (b := m.bytes p.1) hpos (Nat.lt_succ_self (sizeOfQuads (q.setWidth 32)).toNat) hsum
  rw [sizeOfQuads_eq, hstart] at hbytes
  rw [appendData, hw]
  simp only [bind, Except.bind, sizeOfQuads_eq]
  exact congrArg Except.ok hbytes

theorem follow_eq (vif tie : Bool) (c : ChainState) (tag : BitVec 64) :
    (c.follow (decodeDmaTag tag)).1 = (walkRules vif).data c.regs tag ∧
      (c.follow (decodeDmaTag tag)).2.1.regs = (walkRules vif).next c.regs tag ∧
      ((c.follow (decodeDmaTag tag)).2.2 || ((decodeDmaTag tag).irq && tie)) = Rules.isLast c.regs tag tie := by
  have haddr : (walkRules vif).addr tag = (decodeDmaTag tag).addr := rfl
  rw [Rules.data, Rules.next, Rules.isLast, haddr, ChainState.follow, ChainRegs.pop, ChainRegs.push]
  cases (decodeDmaTag tag).id with
  | refe => exact ⟨rfl, rfl, by simp⟩
  | cnt => exact ⟨rfl, rfl, by simp⟩
  | next => exact ⟨rfl, rfl, by simp⟩
  | ref => exact ⟨rfl, rfl, by simp⟩
  | refs => exact ⟨rfl, rfl, by simp⟩
  | endTag => exact ⟨rfl, rfl, by simp⟩
  | call =>
    refine ⟨rfl, ?_, by simp⟩
    -- the two records have the fields of the stack in common
    have hasp : c.regs.asp = c.asp := rfl
    simp only [hasp]
    split_ifs
    · rfl
    · rfl
    · rfl
  | ret =>
    have hasp : c.regs.asp = c.asp := rfl
    simp only [hasp]
    split_ifs
    · exact ⟨rfl, rfl, by simp⟩
    · exact ⟨rfl, rfl, by simp⟩
    · exact ⟨rfl, rfl, by simp⟩

theorem compactTagData_eq (h : (walkRules true).head m a = some bs)
    (htag : (walkRules true).tagAt m a = some tag) : compactTagData m a = .ok bs := by
  rw [Rules.tagAt, Option.bind_eq_some_iff] at htag
  obtain ⟨p, hp, htag⟩ := htag
  split at htag
  · next hfits =>
    have hon : (walkRules true).tagTransfer = true := rfl
    rw [Rules.head, if_pos hon, hp] at h
    simp only [Option.bind_eq_bind, Option.bind_some, Option.bind_eq_some_iff] at h
    obtain ⟨q, hq, h⟩ := h
    obtain rfl := Option.some.inj h
    obtain ⟨w, hw, hwp⟩ := locate_some hp
    obtain ⟨w', hw', -⟩ := locate_some hq
    have hlim := limit_of (sourceOf_region hw)
    have h16 : (16 : Word).toNat = 16 := rfl
    have hnot : ¬p.1.limit < w + 16 := by
      rw [BitVec.lt_def, BitVec.toNat_add_of_lt (by omega)]
      omega
    have hempty : appendData m (a + 16) 0 = .ok [] := by
      have hzero : (walkRules true).bytes m (a + 16) (16 * (0 : BitVec 16).toNat) = some [] := by
        rw [Rules.bytes, hq]
        rfl
      have hw0 : (0 : BitVec 16).setWidth 32 = (0 : Word) := rfl
      rw [← hw0]
      exact appendData_eq hzero
    rw [compactTagData, hw]
    simp only [bind, Except.bind, if_neg hnot]
    rw [hempty, hwp]
    simp only [List.append_nil]
    rfl
  · cases htag

theorem tagHead_eq (h : (walkRules vif).head m a = some bs)
    (htag : (walkRules vif).tagAt m a = some tag) : tagHead m vif a = .ok bs := by
  cases vif with
  | true => exact compactTagData_eq h htag
  | false =>
    cases h
    rfl

theorem tagPayload_eq (h : (walkRules vif).payload m s tag = some bs) :
    tagPayload m ((walkRules vif).data s tag) (decodeDmaTag tag).qwc = .ok bs := by
  rw [Rules.payload] at h
  rw [tagPayload]
  split at h
  · next hq =>
    rw [if_pos hq]
    exact appendData_eq h
  · next hq =>
    cases h
    rw [if_neg hq]

/-- **One round of the walk.** -/
theorem chainLoop_succ (tie : Bool) (n : ℕ) (htag : (walkRules vif).tagAt m c.tagAddr = some tag)
    (h : (walkRules vif).link m c.regs tag = some bs) :
    ∃ c' : ChainState, c'.regs = (walkRules vif).next c.regs tag ∧ c'.chainBuf = c.chainBuf ++ bs ∧
      c'.tagsProcessed = c.tagsProcessed + 1 ∧ c'.lastTagUpper = (decodeDmaTag tag).upper ∧
      chainLoop m vif tie (n + 1) c =
        if Rules.isLast c.regs tag tie then .ok c' else chainLoop m vif tie n c' := by
  obtain ⟨hdata, hregs, hlast⟩ := follow_eq vif tie c tag
  rw [Rules.link, Option.bind_eq_bind, Option.bind_eq_some_iff] at h
  obtain ⟨head, hhead, h⟩ := h
  rw [Option.bind_eq_some_iff] at h
  obtain ⟨payload, hpayload, h⟩ := h
  cases h
  have hcompact : tagHead m vif c.tagAddr = .ok head := tagHead_eq hhead htag
  refine ⟨{ (c.follow (decodeDmaTag tag)).2.1 with
    chainBuf := c.chainBuf ++ head ++ payload
    tagsProcessed := c.tagsProcessed + 1
    lastTagUpper := (decodeDmaTag tag).upper }, hregs, List.append_assoc _ _ _, rfl, rfl, ?_⟩
  rw [chainLoop, readTag_eq htag]
  simp only [hdata, bind, Except.bind]
  rw [hcompact, ← hlast]
  simp only
  rw [tagPayload_eq hpayload]
  rfl

/-- **The walk follows the chain.** By induction over the chain; the state of the walk agrees with the
registers of the chain at every tag. -/
theorem chainLoop_of_chain (h : SourceChain (walkRules vif) m tie s tags bs s') (hn : tags.length ≤ n)
    (hc : c.regs = s) :
    ∃ c' : ChainState, chainLoop m vif tie n c = .ok c' ∧ c'.regs = s' ∧
      c'.chainBuf = c.chainBuf ++ bs ∧ c'.tagsProcessed = c.tagsProcessed + tags.length ∧
      ∃ tag, tags.getLast? = some tag ∧ c'.lastTagUpper = (decodeDmaTag tag).upper := by
  induction h generalizing n c with
  | last htag hlink hlast =>
    subst hc
    cases n with
    | zero => cases hn
    | succ n =>
      obtain ⟨c', hregs, hbuf, hnum, hupper, heq⟩ := chainLoop_succ tie n htag hlink
      rw [if_pos hlast] at heq
      exact ⟨c', heq, hregs, hbuf, hnum, _, rfl, hupper⟩
  | link htag hlink hlast hrest ih =>
    subst hc
    cases n with
    | zero => cases hn
    | succ n =>
      obtain ⟨c', hregs, hbuf, hnum, -, heq⟩ := chainLoop_succ tie n htag hlink
      rw [if_neg (by simp [hlast])] at heq
      obtain ⟨c'', heq', hregs', hbuf', hnum', last, hget, hupper⟩ := ih (Nat.le_of_succ_le_succ hn) hregs
      refine ⟨c'', heq.trans heq', hregs', ?_, ?_, last, ?_, hupper⟩
      · rw [hbuf', hbuf, List.append_assoc]
      · rw [hnum', hnum, List.length_cons]
        omega
      · rw [List.getLast?_cons, hget]
        rfl

/-! ### The transfer -/

/-- **The walk ends.** It takes `kMaxChainTags` tags at most. -/
theorem chainLoop_bounded {c' : ChainState} (h : chainLoop m vif tie n c = .ok c') :
    c'.tagsProcessed ≤ c.tagsProcessed + n := by
  induction n generalizing c with
  | zero =>
    cases h
    exact le_rfl
  | succ n ih =>
    rw [chainLoop] at h
    split at h
    · cases h
      omega
    · next tag _ =>
      simp only [bind, Except.bind] at h
      split at h
      · cases h
      · split at h
        · cases h
        · split at h
          · cases h
            exact Nat.add_le_add_left (by omega) _
          · have := ih h
            simp only at this
            omega

/-- The transfer of a channel is the chain: what is handed to the channel, and the registers. -/
structure Gathers (m : Mem G) (ch : Channel) (chcr : Word) (bs : List Byte) (s : ChainRegs)
    (upper : Word) (m' : Mem G) : Prop where
  pending : ∀ c, m'.devices.pending c =
    if c = ch ∧ bs ≠ [] then m.devices.pending ch ++ [⟨false, 0, 0, bs⟩] else m.devices.pending c
  tadr : reg m' (ch.base + 0x30) = s.tadr
  asr0 : reg m' (ch.base + 0x40) = s.asr0
  asr1 : reg m' (ch.base + 0x50) = s.asr1
  asp : (reg m' ch.base >>> 4) &&& 0x3 = s.asp
  tag : reg m' ch.base >>> 16 = upper
  rest : reg m' ch.base &&& 0xFFCF = chcr &&& 0xFFCF

@[simp]
theorem reg_setReg (m : Mem G) (address value a : Word) :
    reg (setReg m address value) a = if a = address then value else reg m a := by
  rw [reg, setReg]
  simp only
  split
  · rfl
  · rfl

@[simp]
theorem reg_enqueue (m : Mem G) (ch : Channel) (pt : PendingTransfer) (a : Word) :
    reg (enqueue m ch pt) a = reg m a := rfl

/-- The stack pointer has two bits. -/
theorem next_asp {ρ : Rules} (h : s.asp &&& 0x3 = s.asp) : (ρ.next s tag).asp &&& 0x3 = (ρ.next s tag).asp := by
  have h0 : (0 : Word) &&& 0x3 = 0 := by decide
  have h1 : (1 : Word) &&& 0x3 = 1 := by decide
  have h2 : (2 : Word) &&& 0x3 = 2 := by decide
  rw [Rules.next, ChainRegs.push, ChainRegs.pop]
  cases (decodeDmaTag tag).id with
  | refe => exact h
  | cnt => exact h
  | next => exact h
  | ref => exact h
  | refs => exact h
  | endTag => exact h
  | call =>
    simp only
    split_ifs
    · simp only [h1]
    · simp only [h2]
    · exact h
  | ret =>
    simp only
    split_ifs
    · simp only [h1]
    · simp only [h0]
    · exact h

theorem SourceChain.asp {ρ : Rules} (h : SourceChain ρ m tie s tags bs s') (hs : s.asp &&& 0x3 = s.asp) :
    s'.asp &&& 0x3 = s'.asp := by
  induction h with
  | last => exact next_asp hs
  | link _ _ _ _ ih => exact ih (next_asp hs)

/-- What the walk writes to CHCR: the stack pointer, the upper half of the last tag, and the rest as
it was. -/
theorem writeBack_chcr (chcr : Word) {asp upper : Word} (hasp : asp &&& 0x3 = asp) (hupper : upper &&& 0xFFFF = upper) :
    let r : Word := (((chcr &&& ~~~((0x3 : Word) <<< 4)) ||| ((asp &&& 0x3) <<< 4)) &&& 0x0000FFFF) ||| (upper <<< 16)
    (r >>> 4) &&& 0x3 = asp ∧ r >>> 16 = upper ∧ r &&& 0xFFCF = chcr &&& 0xFFCF := by
  refine ⟨?_, ?_, ?_⟩
  · conv_rhs => rw [← hasp]
    ext i hi
    interval_cases i <;> simp
  · conv_rhs => rw [← hupper]
    ext i hi
    interval_cases i <;> simp
  · ext i hi
    interval_cases i <;> simp

theorem Channel.base_apart (ch : Channel) :
    (ch.base + 0x30 ≠ ch.base + 0x40 ∧ ch.base + 0x30 ≠ ch.base + 0x50 ∧ ch.base + 0x40 ≠ ch.base + 0x50) ∧
      ch.base + 0x30 ≠ ch.base ∧ ch.base + 0x40 ≠ ch.base ∧ ch.base + 0x50 ≠ ch.base := by
  cases ch with
  | vif0 => decide
  | vif1 => decide
  | gif => decide

theorem gathers_writeBack (ch : Channel) (chcr : Word) (hasp : c.asp &&& 0x3 = c.asp)
    (hupper : c.lastTagUpper &&& 0xFFFF = c.lastTagUpper) :
    let m' := writeBack m ch chcr c
    Gathers m ch chcr c.chainBuf c.regs c.lastTagUpper
      (if c.chainBuf = [] then m' else enqueue m' ch ⟨false, 0, 0, c.chainBuf⟩) := by
  intro m'
  obtain ⟨⟨h34, h35, h45⟩, h3, h4, h5⟩ := ch.base_apart
  obtain ⟨hrasp, hrtag, hrrest⟩ := writeBack_chcr chcr hasp hupper
  have hreg : ∀ a, reg (if c.chainBuf = [] then m' else enqueue m' ch ⟨false, 0, 0, c.chainBuf⟩) a = reg m' a := by
    intro a
    split
    · rfl
    · rfl
  have hchcr : reg m' ch.base = (((chcr &&& ~~~((0x3 : Word) <<< 4)) ||| ((c.asp &&& 0x3) <<< 4)) &&&
      0x0000FFFF) ||| (c.lastTagUpper <<< 16) := by
    simp only [m', writeBack, reg_setReg, if_true]
  constructor
  case pending =>
    intro c'
    by_cases hbuf : c.chainBuf = []
    · rw [if_pos hbuf, if_neg (by simp [hbuf])]
      rfl
    · rw [if_neg hbuf, enqueue]
      by_cases hch : c' = ch
      · rw [if_pos ⟨hch, hbuf⟩]
        exact if_pos hch
      · rw [if_neg (by simp [hch])]
        exact if_neg hch
  case tadr =>
    rw [hreg]
    simp only [m', writeBack, reg_setReg, if_neg h3, if_neg h34, if_neg h35, if_true]
    rfl
  case asr0 =>
    rw [hreg]
    simp only [m', writeBack, reg_setReg, if_neg h4, if_neg h45, if_true]
    rfl
  case asr1 =>
    rw [hreg]
    simp only [m', writeBack, reg_setReg, if_neg h5, if_true]
    rfl
  case asp =>
    rw [hreg, hchcr]
    exact hrasp
  case tag =>
    rw [hreg, hchcr]
    exact hrtag
  case rest =>
    rw [hreg, hchcr]
    exact hrrest

theorem upper_and (tag : BitVec 64) : (decodeDmaTag tag).upper &&& 0xFFFF = (decodeDmaTag tag).upper := by
  rw [decodeDmaTag, BitVec.and_assoc, BitVec.and_self]

/-- **A transfer gathers its source chain**: the bytes of its tags in order, and the registers of the
last. Whatever the memory holds, the walk takes `kMaxChainTags` tags at most. -/
theorem chain_gathered (m : Mem G) (ch : Channel) (chcr : Word) :
    (∀ tags bs s', SourceChain (walkRules ch.isVif) m (tieEnabled chcr) (ChainRegs.of m ch chcr) tags bs s' →
      tags.length ≤ kMaxChainTags → ∃ tag m', tags.getLast? = some tag ∧
        chainTransfer ch chcr m = .ok () m' ∧ Gathers m ch chcr bs s' (decodeDmaTag tag).upper m') ∧
    ∀ c, chainLoop m ch.isVif (tieEnabled chcr) kMaxChainTags (chainStart m ch chcr) = .ok c →
      c.tagsProcessed ≤ kMaxChainTags := by
  refine ⟨?_, ?_⟩
  · intro tags bs s' h hlen
    have hstart : (ChainRegs.of m ch chcr).asp &&& 0x3 = (ChainRegs.of m ch chcr).asp := by
      rw [ChainRegs.of, BitVec.and_assoc, BitVec.and_self]
    have hasp := h.asp hstart
    obtain ⟨c, hloop, hregs, hbuf, -, tag, htag, hupper⟩ :=
      chainLoop_of_chain (c := chainStart m ch chcr) h hlen rfl
    have hnil : (chainStart m ch chcr).chainBuf = [] := rfl
    rw [hnil, List.nil_append] at hbuf
    have hcasp : c.asp = s'.asp := congrArg ChainRegs.asp hregs
    have hgathers := gathers_writeBack (m := m) ch chcr (c := c) (by rw [hcasp, hasp]) (by rw [hupper, upper_and])
    rw [hbuf, hregs, hupper] at hgathers
    refine ⟨tag, _, htag, ?_, hgathers⟩
    rw [chainTransfer, hloop]
    simp only [hbuf]
  · intro c h
    have := chainLoop_bounded h
    have hzero : (chainStart m ch chcr).tagsProcessed = 0 := rfl
    omega

/-- A memory with one tag, at 0: `end` with one quadword of ones behind it. -/
def oneTag : Mem Unit where
  rdram a := if a = 0 then 1 else if a = 3 then 0x70 else if 8 ≤ a then 1 else 0
  scratchpad _ := 0
  vu _ _ := 0
  vu1CodeGeneration := 0
  tlbEntries := []
  gs _ := 0
  csr := 0
  ioRegisters _ := none
  devices := ⟨fun _ => [], [], true, fun _ => 0, ⟨false, [], ()⟩⟩

/-- The chain of that memory on VIF1, as the walk sees it. -/
theorem oneTag_chain : SourceChain (walkRules true) oneTag (tieEnabled 0x105)
    (ChainRegs.of oneTag .vif1 0x105) [0x0000000070000001] (List.replicate 24 1) ⟨0, 0, 0, 0⟩ :=
  .last (by decide +kernel) (by decide +kernel) (by decide +kernel)

theorem oneTag_gathered : ∃ tag m', [(0x0000000070000001 : BitVec 64)].getLast? = some tag ∧
    chainTransfer .vif1 0x105 oneTag = .ok () m' ∧
    Gathers oneTag .vif1 0x105 (List.replicate 24 1) ⟨0, 0, 0, 0⟩ (decodeDmaTag tag).upper m' :=
  (chain_gathered oneTag .vif1 0x105).1 _ _ _ oneTag_chain (by decide)

/-- **CHCR.TTE is not looked at.** With TTE clear the chain is its data, and the upper half of the tag
is gathered with it. -/
theorem upper_half_gathered : ¬∀ (m : Mem Unit) (ch : Channel) (chcr : Word) (tags : List (BitVec 64))
    (bs : List Byte) (s' : ChainRegs),
    SourceChain (architecture ch chcr) m (tieEnabled chcr) (ChainRegs.of m ch chcr) tags bs s' →
    tags.length ≤ kMaxChainTags → ∃ tag m', tags.getLast? = some tag ∧
      chainTransfer ch chcr m = .ok () m' ∧ Gathers m ch chcr bs s' (decodeDmaTag tag).upper m' := by
  intro h
  have hchain : SourceChain (architecture .vif1 0x105) oneTag (tieEnabled 0x105)
      (ChainRegs.of oneTag .vif1 0x105) [0x0000000070000001] (List.replicate 16 1) ⟨0, 0, 0, 0⟩ :=
    .last (by decide +kernel) (by decide +kernel) (by decide +kernel)
  obtain ⟨tag, m', -, hm', hgathers⟩ := h oneTag .vif1 0x105 _ _ _ hchain (by decide)
  obtain ⟨c, hloop, -, hbuf, -⟩ :=
    chainLoop_of_chain (c := chainStart oneTag .vif1 0x105) oneTag_chain (n := kMaxChainTags) (by decide) rfl
  have hpending := hgathers.pending .vif1
  rw [chainTransfer] at hm'
  have hvif : Channel.vif1.isVif = true := rfl
  rw [hvif, hloop] at hm'
  obtain rfl := (EStateM.Result.ok.inj hm').2
  have hnil : (chainStart oneTag .vif1 0x105).chainBuf = [] := rfl
  rw [hnil, List.nil_append] at hbuf
  rw [hbuf] at hpending
  have hlen : [24] = [16] := congrArg (List.map fun pt : PendingTransfer => pt.chainData.length) hpending
  exact absurd hlen (by decide)

end Ps2Recomp.Dma
