import Ps2Recomp.Lib.Transition
import Ps2Recomp.Proof.CodeRegions
import Ps2Recomp.Spec.Vu1Cache

/-!
# Coherence of the decode cache of VU1

A modification of the code memory advances its generation (`Grows`), so the cache has been filled from the
bytes that are there whenever it was filled in this generation (`Inv`). The generation that is kept in the cache
has 64 bits: after 2^64 modifications a pair is served that is not there any more (`stale_after_wrap`).
-/

namespace Ps2Recomp.Vu1Cache

open Memory
open Transition (Run)

variable {D σ : Type} {d : Devices D} {env : Env σ} {m m' : Ps2Memory D} {s s' : System D σ}

/-- What is done to the code memory of VU1 shows in the generation. -/
def Grows (m m' : Ps2Memory D) : Prop :=
  m.vu1CodeGeneration ≤ m'.vu1CodeGeneration ∧
    (m'.vu1CodeGeneration = m.vu1CodeGeneration → m'.vu .vu1Code = m.vu .vu1Code)

theorem Grows.refl : Grows m m := ⟨le_refl _, fun _ => rfl⟩

theorem grows_of_succ (h : m'.vu1CodeGeneration = m.vu1CodeGeneration + 1) : Grows m m' :=
  ⟨by omega, fun heq => by omega⟩

theorem grows_mpg (cmd : Word) (data : List (BitVec 8)) : Grows m (mpg cmd data m) := by
  unfold mpg
  dsimp only
  split
  · exact grows_of_succ rfl
  · exact Grows.refl

/-! ### Stores -/

theorem grows_checkAligned {x : MemM D Unit} (lowBits : Word) (op : String) (address : Word)
    (hx : Grows m (leaves (x m))) : Grows m (leaves ((checkAligned lowBits op address >>= fun _ => x) m)) := by
  by_cases h : address &&& lowBits ≠ 0
  · have herror : checkAligned lowBits op address m = .error (.unaligned op address) m := by
      rw [checkAligned, if_pos h]
      rfl
    rw [CodeRegions.bind_error herror]
    exact Grows.refl
  · have hok : checkAligned lowBits op address m = .ok () m := by
      rw [checkAligned, if_neg h]
      rfl
    rw [bind_ok hok]
    exact hx

theorem grows_storeAt {n : ℕ} {op : String} {a off : Word} {value : BitVec (8 * n)} {writeIo : Word → MemM D Unit}
    (hl : locate m.tlbEntries a (.ofNat 32 n) = .ok (.memory (.vu .vu1Code) off)) :
    Grows m (leaves (Devices.storeAt n op a value writeIo m)) := by
  rw [Devices.storeAt, bind_ok (located_ok hl)]
  by_cases hout : (Region.vu .vu1Code).limit.toNat < off.toNat + n
  · have herror : inRange off n (.vu .vu1Code) op a m =
        .error (.outOfBounds (op ++ " " ++ (Region.vu .vu1Code).name) a) m := by
      rw [inRange, if_pos hout]
      rfl
    dsimp only
    rw [storeScalar, CodeRegions.bind_error (CodeRegions.bind_error herror)]
    exact Grows.refl
  · have hok : storeScalar n (.vu .vu1Code) off value op a m =
        .ok () (m.setBytes (.vu .vu1Code) (Bytes.store (m.vu .vu1Code) off.toNat value.toNat n)) := by
      rw [storeScalar, inRange, if_neg hout]
      rfl
    dsimp only
    rw [bind_ok hok]
    exact grows_of_succ rfl

theorem grows_ite {p : Prop} [Decidable p] {x y : MemM D Unit} (hx : Grows m (leaves (x m)))
    (hy : Grows m (leaves (y m))) : Grows m (leaves ((if p then x else y) m)) := by
  split
  · exact hx
  · exact hy

theorem grows_gsModify (address : Word) (f : BitVec 64 → BitVec 64) : Grows m (leaves (gsModify address f m)) := by
  unfold gsModify
  cases gsRegPtr address with
  | none => exact Grows.refl
  | some reg => exact Grows.refl

/-- **`write8` to `write128`**, to the code memory. -/
theorem grows_write {w : Width} {a off : Word} (value : BitVec (8 * w.bytes))
    (hl : locate m.tlbEntries a (.ofNat 32 w.bytes) = .ok (.memory (.vu .vu1Code) off)) :
    Grows m (leaves (d.write w a value m)) := by
  cases w with
  | w8 =>
    have hl : locate m.tlbEntries a 1 = .ok (.memory (.vu .vu1Code) off) := hl
    have hw : ∀ value : BitVec 8, Grows m (leaves (d.write8 a value m)) := by
      intro value
      rw [Devices.write8, bind_ok (located_ok hl)]
      exact grows_of_succ rfl
    exact hw value
  | w16 => exact grows_checkAligned _ _ _ (grows_storeAt hl)
  | w32 =>
    exact grows_checkAligned _ _ _ (grows_ite (grows_ite Grows.refl (grows_gsModify _ _)) (grows_storeAt hl))
  | w64 =>
    exact grows_checkAligned _ _ _ (grows_ite (grows_ite Grows.refl (grows_gsModify _ _)) (grows_storeAt hl))
  | w128 => exact grows_checkAligned _ _ _ (grows_storeAt hl)

/-! ### Runs -/

/-- The cache holds the pairs of a code memory, which is the present one if none has been modified since. -/
structure Inv (env : Env σ) (s : System D σ) : Prop where
  pc : s.vu.pc.toNat < 0x4000
  size : ∀ vuCode codeSize, s.run = some (vuCode, codeSize) → codeSize.toNat ≤ 0x4000
  generation : s.cache.valid = true → s.cache.generation ≤ s.memory.vu1CodeGeneration
  cache : s.cache.valid = true → ∃ code, s.cache = rebuildDecodedCodeCache env code s.cache.codeSize s.cache.generation ∧
    (s.cache.generation = s.memory.vu1CodeGeneration → code = s.memory.vu .vu1Code)

theorem Inv.memory (h : Inv env s) (hm : Grows s.memory m') : Inv env { s with memory := m' } where
  pc := h.pc
  size := h.size
  generation hvalid := (h.generation hvalid).trans hm.1
  cache hvalid := by
    obtain ⟨code, hcache, hcode⟩ := h.cache hvalid
    refine ⟨code, hcache, fun heq => ?_⟩
    have hle := h.generation hvalid
    have hgen : s.cache.generation = s.memory.vu1CodeGeneration := by
      have hm1 := hm.1
      dsimp only at heq
      omega
    exact (hcode hgen).trans (hm.2 (heq.symm.trans hgen)).symm

variable {codeSize : Word}

/-- A round that is not over the end looks at a whole pair, inside of the code. -/
theorem Inv.inside (h : Inv env s) (hpc : ¬codeSize < s.vu.pc + 8) : s.vu.pc.toNat + 8 ≤ codeSize.toNat := by
  have hlow := h.pc
  rw [BitVec.lt_def, BitVec.toNat_add, show (8 : Word).toNat = 8 from rfl] at hpc
  omega

theorem getElem?_rebuild {code : Bytes.Memory} {codeSize pc : Word} {g : ℕ} (hal : pc &&& 7 = 0)
    (hpc : pc.toNat + 8 ≤ codeSize.toNat) : (rebuildDecodedCodeCache env code codeSize g).pairs[pc.toNat / 8]? =
      some (decodeInstructionPair env code pc.toNat) := by
  have hmod : pc.toNat % 2 ^ 3 = 0 := by
    rw [← and_low (show (7 : Word).toNat = 2 ^ 3 - 1 from rfl) pc, hal]
    rfl
  have hlt : pc.toNat / 8 < codeSize.toNat / 8 := by omega
  have hback : pc.toNat / 8 * 8 = pc.toNat := by omega
  rw [rebuildDecodedCodeCache, List.getElem?_map, List.getElem?_range hlt, Option.map_some, hback]

/-- Less than 2^64 modifications since the cache was filled. -/
def Current (m : Ps2Memory D) (c : Cache) : Prop :=
  c.valid = true → m.vu1CodeGeneration < c.generation + 2 ^ 64

/-- **The index is inside of the cache, and the cache stays in order.** -/
theorem Inv.fetch (h : Inv env s) (vuCode : VuCode) (hpc : ¬codeSize < s.vu.pc + 8) :
    ∃ decoded c, getDecodedInstructionPairForPc env vuCode codeSize s.vu.pc s.memory s.cache = (some decoded, c) ∧
      Inv env { s with cache := c } ∧ (Current s.memory s.cache →
        decoded = decodeInstructionPair env (codeAt env s.memory vuCode) s.vu.pc.toNat) := by
  have hinside := h.inside hpc
  unfold getDecodedInstructionPairForPc
  split
  · exact ⟨_, _, rfl, h, fun _ => rfl⟩
  · rename_i htracked
    push Not at htracked
    obtain ⟨hal, rfl⟩ := htracked
    dsimp only
    split
    · rw [getElem?_rebuild hal hinside]
      exact ⟨_, _, rfl, ⟨h.pc, h.size, fun _ => le_refl _, fun _ => ⟨_, rfl, fun _ => rfl⟩⟩, fun _ => rfl⟩
    · rename_i hkey
      push Not at hkey
      obtain ⟨hvalid, -, hsize, hgen⟩ := hkey
      have hvalid : s.cache.valid = true := by simpa using hvalid
      obtain ⟨code, hcache, hcode⟩ := h.cache hvalid
      rw [hsize] at hcache
      have hget := congrArg (fun c : Cache => c.pairs[s.vu.pc.toNat / 8]?) hcache
      rw [hget, getElem?_rebuild hal hinside]
      refine ⟨_, _, rfl, h, fun hcurrent => ?_⟩
      have hle := h.generation hvalid
      have hlt := hcurrent hvalid
      have hmod := congrArg BitVec.toNat hgen
      rw [BitVec.toNat_ofNat, BitVec.toNat_ofNat] at hmod
      rw [hcode (by omega)]
      rfl

theorem masked_lt (x : Word) : (x &&& 0x3FFF).toNat < 0x4000 := by
  rw [and_low (k := 14) rfl]
  exact Nat.mod_lt _ (by decide)

theorem advance_pc (hsize : codeSize.toNat ≤ 0x4000) (decoded : DecodedInstructionPair)
    (v : VuState σ) : (advance env codeSize decoded v).1.pc.toNat < 0x4000 := by
  have hnext : (if codeSize ≤ v.pc + 8 then 0 else v.pc + 8).toNat < 0x4000 := by
    split
    · decide
    · rename_i hle
      rw [BitVec.le_def] at hle
      omega
  unfold advance
  dsimp only
  generalize (if codeSize ≤ v.pc + 8 then 0 else v.pc + 8) = next at hnext ⊢
  split
  · split
    · split
      · exact masked_lt _
      · exact masked_lt _
    · split
      · exact hnext
      · exact hnext
  · split
    · exact hnext
    · exact hnext

theorem size_run {vuCode : VuCode} (hsize : ¬vu1CodeSize < codeSize) :
    ∀ p n, some (vuCode, codeSize) = some (p, n) → n.toNat ≤ 0x4000 := by
  intro p n heq
  cases heq
  exact Nat.le_of_not_lt fun h => hsize (BitVec.lt_def.2 h)

theorem Inv.step (h : Inv env s) {e : Event} (hs : step env d s e = some s') : Inv env s' := by
  cases e with
  | execute vuCode codeSize startPC =>
    unfold Vu1Cache.step at hs
    dsimp only at hs
    split at hs
    · cases hs
    · rename_i hsize
      cases hs
      exact ⟨masked_lt startPC, size_run hsize, h.generation, h.cache⟩
  | resume vuCode codeSize =>
    unfold Vu1Cache.step at hs
    dsimp only at hs
    split at hs
    · cases hs
    · rename_i hsize
      cases hs
      exact ⟨h.pc, size_run hsize, h.generation, h.cache⟩
  | cycle =>
    unfold Vu1Cache.step at hs
    dsimp only at hs
    split at hs
    · cases hs
    rename_i vuCode codeSize hrun
    split at hs
    · cases hs
      exact ⟨h.pc, nofun, h.generation, h.cache⟩
    rename_i hpc
    obtain ⟨decoded, c, hget, hinv, -⟩ := h.fetch vuCode hpc
    rw [hget] at hs
    cases hs
    refine ⟨advance_pc (h.size _ _ hrun) decoded s.vu, ?_, hinv.generation, hinv.cache⟩
    intro vuCode' codeSize' hrun'
    split at hrun'
    · cases hrun'
    · exact h.size _ _ hrun'
  | mpg cmd data =>
    cases hs
    exact h.memory (grows_mpg cmd data)
  | store w address value =>
    unfold Vu1Cache.step at hs
    dsimp only at hs
    split at hs
    · rename_i hl
      cases hs
      exact h.memory (grows_write value hl)
    · cases hs

/-- After `VU1Interpreter::reset`, over any memory. -/
structure Initial (s : System D σ) : Prop where
  cache : s.cache.valid = false
  run : s.run = none
  pc : s.vu.pc = 0

/-- **The decode cache is coherent**: a round of any run executes what is in the code memory, as long as this was
modified less than 2^64 times since the cache was filled. -/
theorem fetch_coherent {s₀ : System D σ} {l : List Event} (h₀ : Initial s₀)
    (h : Run (fun s e s' => step env d s e = some s') s₀ l s) {vuCode : VuCode} {codeSize : Word}
    (hpc : ¬codeSize < s.vu.pc + 8) :
    ∃ decoded, (getDecodedInstructionPairForPc env vuCode codeSize s.vu.pc s.memory s.cache).1 = some decoded ∧
      (Current s.memory s.cache → decoded = decodeInstructionPair env (codeAt env s.memory vuCode) s.vu.pc.toNat) := by
  have hinv : Inv env s := by
    refine h.state_invariant ⟨?_, ?_, ?_, ?_⟩ fun _ _ _ hs hstep => hs.step hstep
    · rw [h₀.pc]
      decide
    · rw [h₀.run]
      rintro _ _ ⟨⟩
    · rw [h₀.cache]
      rintro ⟨⟩
    · rw [h₀.cache]
      rintro ⟨⟩
  obtain ⟨decoded, c, hget, -, hcoherent⟩ := hinv.fetch vuCode hpc
  exact ⟨decoded, congrArg Prod.fst hget, hcoherent⟩

/-! ### The wrap -/

/-- An interpreter whose instructions do nothing, over memory of zeros. -/
def idle : Env Unit := ⟨fun _ _ => false, fun _ v => v, fun _ _ => 0⟩

def blank : System Unit Unit where
  memory := cleared
  cache := ⟨false, .vu1Code, 0, 0, []⟩
  vu := ⟨0, false, false, 0, 0, ()⟩
  run := none

/-- `MPG` of one pair, at the start of the code memory. -/
def onePair : Event := .mpg 0x4A010000 (List.replicate 8 1)

/-- The cache is filled with a pair of zeros. -/
def filled : List Event := [.execute .vu1Code 8 0, .cycle]

/-- The system behind `filled` and `n` modifications. -/
def uploaded (n : ℕ) : System Unit Unit :=
  { blank with
    memory := (mpg 0x4A010000 (List.replicate 8 1))^[n] cleared
    cache := rebuildDecodedCodeCache idle (fun _ => 0) 8 0
    run := some (.vu1Code, 8) }

variable (n : ℕ)

theorem uploaded_succ : uploaded (n + 1) =
    { uploaded n with memory := mpg 0x4A010000 (List.replicate 8 1) (uploaded n).memory } := by
  unfold uploaded
  rw [Function.iterate_succ_apply']

theorem run_uploaded :
    Run (fun s e s' => step idle quiet s e = some s') blank (filled ++ List.replicate n onePair) (uploaded n) := by
  induction n with
  | zero =>
    have hexecute : step idle quiet blank (.execute .vu1Code 8 0) = some { blank with run := some (.vu1Code, 8) } := rfl
    exact .snoc (.snoc .nil hexecute) rfl
  | succ n ih =>
    rw [List.replicate_succ', ← List.append_assoc]
    refine .snoc ih ?_
    rw [uploaded_succ]
    rfl

theorem generation_uploaded : (uploaded n).memory.vu1CodeGeneration = n := by
  induction n with
  | zero => rfl
  | succ n ih =>
    rw [uploaded_succ]
    exact congrArg (· + 1) ih

/-- Where the generation has wrapped, the pair of zeros is served. -/
theorem served_uploaded {n : ℕ} (hn : BitVec.ofNat 64 n = 0) :
    (getDecodedInstructionPairForPc idle .vu1Code 8 0 (uploaded n).memory (uploaded n).cache).1 =
      some (decodeInstructionPair idle (fun _ => 0) 0) := by
  rw [getDecodedInstructionPairForPc, if_neg (by decide)]
  dsimp only
  have hkey : ¬((uploaded n).cache.valid = false ∨ (uploaded n).cache.vuCode ≠ .vu1Code ∨
      (uploaded n).cache.codeSize ≠ 8 ∨ BitVec.ofNat 64 (uploaded n).cache.generation ≠ 0) := by
    simp [uploaded, rebuildDecodedCodeCache]
  rw [generation_uploaded, hn, if_neg hkey]
  rfl

theorem lower_uploaded :
    (decodeInstructionPair idle (codeAt idle (uploaded (n + 1)).memory .vu1Code) 0).lower = 0x01010101 := by
  have hcode : ∀ m : Ps2Memory Unit, (mpg 0x4A010000 (List.replicate 8 1) m).vu .vu1Code =
      Bytes.copy (m.vu .vu1Code) 0 (List.replicate 8 1) := by
    intro m
    rw [mpg, if_pos (by decide)]
    rfl
  have hload : ∀ b : Bytes.Memory, Bytes.load (Bytes.copy b 0 (List.replicate 8 1)) 0 4 = 0x01010101 := by
    intro b
    simp [Bytes.load, Bytes.copy]
  rw [uploaded_succ, codeAt, hcode, decodeInstructionPair, hload]
  rfl

/-- **After 2^64 modifications the old pair is executed.** -/
theorem stale_after_wrap : ∃ l s, Run (fun s e s' => step idle quiet s e = some s') blank l s ∧
    s.run = some (.vu1Code, 8) ∧ ¬(8 : Word) < s.vu.pc + 8 ∧
    (getDecodedInstructionPairForPc idle .vu1Code 8 s.vu.pc s.memory s.cache).1 ≠
      some (decodeInstructionPair idle (codeAt idle s.memory .vu1Code) s.vu.pc.toNat) := by
  obtain ⟨n, hn⟩ : ∃ n, BitVec.ofNat 64 (n + 1) = 0 := ⟨2 ^ 64 - 1, by decide⟩
  refine ⟨_, _, run_uploaded (n + 1), rfl, of_decide_eq_false rfl, fun h => ?_⟩
  have hlower := congrArg DecodedInstructionPair.lower (Option.some.inj ((served_uploaded hn).symm.trans h))
  have hbytes := hlower.trans (lower_uploaded n)
  exact absurd hbytes (by decide)

theorem fetch_coherent_filled : ∃ decoded,
    (getDecodedInstructionPairForPc idle .vu1Code 8 0 (uploaded 1).memory (uploaded 1).cache).1 = some decoded ∧
      (Current (uploaded 1).memory (uploaded 1).cache →
        decoded = decodeInstructionPair idle (codeAt idle (uploaded 1).memory .vu1Code) 0) := by
  have h₀ : Initial blank := ⟨rfl, rfl, rfl⟩
  exact fetch_coherent h₀ (run_uploaded 1) (by decide)

end Ps2Recomp.Vu1Cache
