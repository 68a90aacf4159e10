import Ps2Recomp.Proof.Unpack

/-!
# VIF1 streams in pieces

The commands of a VIF1 stream and their data, from the stream and CYCLE alone (`Whole`): a piece is whole if
no command of it and no image lacks data. The interpreter goes through a whole piece to its end
(`through_of_whole`), so that what follows is done as if it had come with it. Where a piece is not whole there
is a continuation that shows it: the data of the command that was cut is taken for commands (`mark_differs`),
or a packet ends where the piece does (`packet_differs`). `split_iff` puts both together.
-/

namespace Ps2Recomp.Vif

open Bytes Gif Stream

/-! ### Streams -/

/-- How much data a command has. -/
def dataBytes (cycle cmd : Word) : ℕ :=
  match VifCmd.ofOpcode (opcode cmd) with
  | some .stmask => 4
  | some .strow | some .stcol => 16
  | some .mpg => mpgBytes cmd
  | some .direct | some .directhl => Vif1.directQwc cmd * 16
  | none => if isUnpack (opcode cmd) then (unpackOf cmd { clearedRegs with cycle }).totalBytes else 0
  | _ => 0

/-- CYCLE behind a command. -/
def cycleBehind (cycle cmd : Word) : Word :=
  match VifCmd.ofOpcode (opcode cmd) with
  | some .stcycl => (imm cmd).setWidth 32
  | _ => cycle

/-- How much of an image a command leaves to come. -/
def imageBehind (cmd : Word) (data : List Byte) : ℕ :=
  match VifCmd.ofOpcode (opcode cmd) with
  | some .direct | some .directhl =>
    gifImageQwcFromTag (data.take (Vif1.directQwc cmd * 16)) - (Vif1.directQwc cmd - 1)
  | _ => 0

/-- **A whole piece**, from CYCLE and the quadwords of an image that are to come: all commands have their data,
and all images theirs but for one that is yet to begin. -/
inductive Whole : Word → ℕ → List Byte → Prop
  | done (cycle : Word) (pending : ℕ) : Whole cycle pending []
  | image {cycle : Word} {pending : ℕ} {data : List Byte} (hpending : pending ≠ 0)
      (hlen : pending * 16 ≤ data.length) (hrest : Whole cycle 0 (data.drop (pending * 16))) :
      Whole cycle pending data
  | command {cycle : Word} {data : List Byte} (hlen : 4 + dataBytes cycle (wordAt data 0) ≤ data.length)
      (hrest : Whole (cycleBehind cycle (wordAt data 0)) (imageBehind (wordAt data 0) (data.drop 4))
        ((data.drop 4).drop (dataBytes cycle (wordAt data 0)))) :
      Whole cycle 0 data

variable {G : Type} {v : Vu1 G} {s : Vif1 G} {cmd : Word} {data extra : List Byte} {n : ℕ}

/-! ### Commands -/

theorem totalBytes_eq (r : VifRegisters) :
    (unpackOf cmd { clearedRegs with cycle := r.cycle }).totalBytes = (unpackOf cmd r).totalBytes := rfl

variable (directHl : Bool)

theorem direct_rest : (Vif1.direct v cmd directHl data s).2 = behind (Vif1.directQwc cmd * 16) data := by
  rw [Vif1.direct, behind]
  by_cases h : data.length / 16 < Vif1.directQwc cmd
  · have hlen : data.length < Vif1.directQwc cmd * 16 := by omega
    rw [if_pos hlen]
    exact congrArg Prod.snd (if_pos h)
  · have hlen : ¬data.length < Vif1.directQwc cmd * 16 := by omega
    rw [if_neg hlen]
    refine (congrArg Prod.snd (if_neg h)).trans ?_
    rw [Nat.min_eq_left (not_lt.1 h)]

theorem behind_zero : behind 0 data = some data := behind_drop (Nat.zero_le _)

/-- **What a command leaves** of the data. -/
theorem command_rest : (Vif1.command v cmd data s).2 = behind (dataBytes s.regs.cycle cmd) data := by
  rw [Vif1.command, dataBytes]
  cases hop : VifCmd.ofOpcode (opcode cmd) with
  | none =>
    dsimp only
    split
    · rw [totalBytes_eq]
    · exact behind_zero.symm
  | some c =>
    cases c with
    | stmask => exact (apply_ite Prod.snd _ _ _).trans rfl
    | strow => exact (apply_ite Prod.snd _ _ _).trans rfl
    | stcol => exact (apply_ite Prod.snd _ _ _).trans rfl
    | mpg => rfl
    | direct => exact direct_rest false
    | directhl => exact direct_rest true
    | nop | stcycl | offset | base | itop | stmod | mskpath3 | mark | flushe | flush | flusha | mscal | mscalf | mscnt =>
      exact behind_zero.symm

theorem take_append (h : n ≤ data.length) : (data ++ extra).take n = data.take n :=
  List.take_append_of_le_length h

theorem length_append_le (h : n ≤ data.length) : n ≤ (data ++ extra).length := by
  rw [List.length_append]
  omega

theorem byteAt_append {p : ℕ} (h : p < data.length) : byteAt (data ++ extra) p = byteAt data p :=
  List.getD_append _ _ _ _ h

theorem wordAt_append {p : ℕ} (h : p + 4 ≤ data.length) : wordAt (data ++ extra) p = wordAt data p := by
  rw [wordAt, wordAt, load_congr fun q _ hq => byteAt_append (by omega)]

theorem quad_append (h : 16 ≤ data.length) : quad (byteAt (data ++ extra)) 0 = quad (byteAt data) 0 :=
  quad_congr fun q _ hq => byteAt_append (by omega)

theorem mpgCopied_le (size destAddr : ℕ) : mpgCopied size destAddr cmd ≤ mpgBytes cmd := by
  rw [mpgCopied]
  split
  · omega
  · exact le_rfl

theorem direct_whole (h : Vif1.directQwc cmd * 16 ≤ data.length) :
    (Vif1.direct v cmd directHl data s).1 =
      if 0 < Vif1.directQwc cmd then Vif1.submitDirect v (Vif1.directQwc cmd) directHl data s else s := by
  have hle : Vif1.directQwc cmd ≤ data.length / 16 := by omega
  refine (congrArg Prod.fst (if_neg (not_lt.2 hle))).trans ?_
  rw [Nat.min_eq_left hle]

theorem submitDirect_append (h : n * 16 ≤ data.length) :
    Vif1.submitDirect v n directHl (data ++ extra) s = Vif1.submitDirect v n directHl data s := by
  rw [Vif1.submitDirect, Vif1.submitDirect, take_append h]

/-- **A command that has its data** does not look behind it. -/
theorem command_append (h : dataBytes s.regs.cycle cmd ≤ data.length) :
    (Vif1.command v cmd (data ++ extra) s).1 = (Vif1.command v cmd data s).1 := by
  rw [dataBytes] at h
  rw [Vif1.command, Vif1.command]
  cases hop : VifCmd.ofOpcode (opcode cmd) with
  | none =>
    rw [hop] at h
    dsimp only at h ⊢
    split
    · next hun =>
      rw [if_pos hun, totalBytes_eq] at h
      simp only [Vif1.unpack, take_append h, length_append_le h, h, and_true]
    · rfl
  | some c =>
    rw [hop] at h
    cases c with
    | stmask =>
      have hlen : 4 ≤ data.length := h
      dsimp only
      rw [if_neg (not_lt.2 (length_append_le hlen)), if_neg (not_lt.2 hlen), wordAt_append hlen]
    | strow =>
      have hlen : 16 ≤ data.length := h
      dsimp only
      rw [if_neg (not_lt.2 (length_append_le hlen)), if_neg (not_lt.2 hlen), quad_append hlen]
    | stcol =>
      have hlen : 16 ≤ data.length := h
      dsimp only
      rw [if_neg (not_lt.2 (length_append_le hlen)), if_neg (not_lt.2 hlen), quad_append hlen]
    | mpg =>
      have hlen : mpgBytes cmd ≤ data.length := h
      have hcopied : ∀ d, mpgCopied vu1CodeSize d cmd ≤ data.length := fun d => (mpgCopied_le vu1CodeSize d).trans hlen
      simp only [Vif1.mpg, take_append (hcopied _), length_append_le (hcopied _), hcopied, and_true]
    | direct =>
      have hlen : Vif1.directQwc cmd * 16 ≤ data.length := h
      dsimp only
      rw [direct_whole false hlen, direct_whole false (length_append_le hlen), submitDirect_append false hlen]
    | directhl =>
      have hlen : Vif1.directQwc cmd * 16 ≤ data.length := h
      dsimp only
      rw [direct_whole true hlen, direct_whole true (length_append_le hlen), submitDirect_append true hlen]
    | nop | stcycl | offset | base | itop | stmod | mskpath3 | mark | flushe | flush | flusha | mscal | mscalf | mscnt =>
      rfl

theorem directQwc_pos : 0 < Vif1.directQwc cmd := by
  rw [Vif1.directQwc]
  split
  · decide
  · next h => exact Nat.pos_of_ne_zero fun hz => h (BitVec.eq_of_toNat_eq hz)

theorem direct_regs : (Vif1.direct v cmd directHl data s).1.regs = s.regs := by
  have hsubmit : ∀ n, (Vif1.submitDirect v n directHl data s).regs = s.regs := by
    intro n
    rw [Vif1.submitDirect]
    split
    · rfl
    · rfl
  rw [Vif1.direct]
  split
  · split
    · exact hsubmit _
    · rfl
  · split
    · exact hsubmit _
    · rfl

/-- **CYCLE** behind a command. -/
theorem command_cycle : (Vif1.command v cmd data s).1.regs.cycle = cycleBehind s.regs.cycle cmd := by
  rw [Vif1.command, cycleBehind]
  cases hop : VifCmd.ofOpcode (opcode cmd) with
  | none =>
    dsimp only
    split
    · rw [Vif1.unpack]
      dsimp only
      split
      · rfl
      · rfl
    · rfl
  | some c =>
    cases c with
    | stmask => exact (apply_ite (fun x : Vif1 G × Option (List Byte) => x.1.regs.cycle) _ _ _).trans (ite_self _)
    | strow => exact (apply_ite (fun x : Vif1 G × Option (List Byte) => x.1.regs.cycle) _ _ _).trans (ite_self _)
    | stcol => exact (apply_ite (fun x : Vif1 G × Option (List Byte) => x.1.regs.cycle) _ _ _).trans (ite_self _)
    | mpg => exact (apply_ite (fun x : Vif1 G => x.regs.cycle) _ _ _).trans (ite_self _)
    | direct => exact congrArg VifRegisters.cycle (direct_regs false)
    | directhl => exact congrArg VifRegisters.cycle (direct_regs true)
    | nop | stcycl | offset | base | itop | stmod | mskpath3 | mark | flushe | flush | flusha | mscal | mscalf | mscnt =>
      rfl

theorem direct_pending (hpending : s.pendingPath2ImageQwc = 0) (h : Vif1.directQwc cmd * 16 ≤ data.length) :
    (Vif1.direct v cmd directHl data s).1.pendingPath2ImageQwc =
      gifImageQwcFromTag (data.take (Vif1.directQwc cmd * 16)) - (Vif1.directQwc cmd - 1) := by
  rw [direct_whole directHl h, if_pos directQwc_pos, Vif1.submitDirect]
  split
  · rfl
  · next hle =>
    rw [Vif1.submitPath2, hpending]
    omega

theorem command_quiet (hdirect : VifCmd.ofOpcode (opcode cmd) ≠ some .direct)
    (hdirectHl : VifCmd.ofOpcode (opcode cmd) ≠ some .directhl) :
    (Vif1.command v cmd data s).1.pendingPath2ImageQwc = s.pendingPath2ImageQwc ∧
      (Vif1.command v cmd data s).1.path2 = s.path2 := by
  rw [Vif1.command]
  cases hop : VifCmd.ofOpcode (opcode cmd) with
  | none =>
    dsimp only
    split
    · rw [Vif1.unpack]
      dsimp only
      split
      · exact ⟨rfl, rfl⟩
      · exact ⟨rfl, rfl⟩
    · exact ⟨rfl, rfl⟩
  | some c =>
    cases c with
    | direct => exact absurd hop hdirect
    | directhl => exact absurd hop hdirectHl
    | stmask | strow | stcol =>
      dsimp only
      split
      · exact ⟨rfl, rfl⟩
      · exact ⟨rfl, rfl⟩
    | mpg =>
      dsimp only
      rw [Vif1.mpg]
      split
      · exact ⟨rfl, rfl⟩
      · exact ⟨rfl, rfl⟩
    | nop | stcycl | offset | base | itop | stmod | mskpath3 | mark | flushe | flush | flusha | mscal | mscalf | mscnt =>
      exact ⟨rfl, rfl⟩

theorem direct_or_quiet (v : Vu1 G) (cmd : Word) (data : List Byte) (s : Vif1 G) :
    (dataBytes s.regs.cycle cmd = Vif1.directQwc cmd * 16 ∧
      imageBehind cmd data = gifImageQwcFromTag (data.take (Vif1.directQwc cmd * 16)) - (Vif1.directQwc cmd - 1) ∧
      ∃ directHl, ∀ data, Vif1.command v cmd data s = Vif1.direct v cmd directHl data s) ∨
    (imageBehind cmd data = 0 ∧ ∀ data,
      (Vif1.command v cmd data s).1.pendingPath2ImageQwc = s.pendingPath2ImageQwc ∧
        (Vif1.command v cmd data s).1.path2 = s.path2) := by
  by_cases hdirect : VifCmd.ofOpcode (opcode cmd) = some .direct
  · refine .inl ?_
    rw [dataBytes, imageBehind, hdirect]
    refine ⟨rfl, rfl, false, fun data => ?_⟩
    rw [Vif1.command, hdirect]
  by_cases hdirectHl : VifCmd.ofOpcode (opcode cmd) = some .directhl
  · refine .inl ?_
    rw [dataBytes, imageBehind, hdirectHl]
    refine ⟨rfl, rfl, true, fun data => ?_⟩
    rw [Vif1.command, hdirectHl]
  · refine .inr ⟨?_, fun data => command_quiet hdirect hdirectHl⟩
    rw [imageBehind]
    split
    · next h => exact absurd h hdirect
    · next h => exact absurd h hdirectHl
    · rfl

/-- **The image** that a command leaves to come. -/
theorem command_pending (hpending : s.pendingPath2ImageQwc = 0) (h : dataBytes s.regs.cycle cmd ≤ data.length) :
    (Vif1.command v cmd data s).1.pendingPath2ImageQwc = imageBehind cmd data := by
  obtain ⟨hbytes, himage, directHl, hcommand⟩ | ⟨himage, hquiet⟩ := direct_or_quiet v cmd data s
  · rw [hcommand, himage, direct_pending directHl hpending (hbytes ▸ h)]
  · rw [himage, (hquiet data).1, hpending]

/-! ### Whole pieces -/

theorem submitPath2_pending (packet : List Byte) (directHl : Bool) :
    (Vif1.submitPath2 v packet directHl s).pendingPath2ImageQwc = s.pendingPath2ImageQwc := rfl

theorem image_whole (hpending : s.pendingPath2ImageQwc ≠ 0) (hlen : s.pendingPath2ImageQwc * 16 ≤ data.length) :
    ∃ s', s'.regs = s.regs ∧ s'.pendingPath2ImageQwc = 0 ∧ ∀ extra, Vif1.image v (data ++ extra) s =
      (s', some (data.drop (s.pendingPath2ImageQwc * 16) ++ extra)) := by
  have heq : ∀ extra, Vif1.image v (data ++ extra) s =
      ({ Vif1.submitPath2 v (imageTag s.pendingPath2ImageQwc true ++ data.take (s.pendingPath2ImageQwc * 16))
          s.pendingPath2DirectHl s with pendingPath2ImageQwc := 0, pendingPath2DirectHl := false },
        some (data.drop (s.pendingPath2ImageQwc * 16) ++ extra)) := by
    intro extra
    have hall : (data ++ extra).length / 16 ≠ 0 ∧ s.pendingPath2ImageQwc ≤ (data ++ extra).length / 16 := by
      rw [List.length_append]
      omega
    rw [Vif1.image, if_neg hall.1, Nat.min_eq_left hall.2]
    dsimp only
    rw [take_append hlen, List.drop_append_of_le_length hlen, submitPath2_pending, Nat.sub_self, beq_self_eq_true,
      if_pos rfl]
  refine ⟨_, ?_, ?_, heq⟩
  · rfl
  · rfl

theorem step_image (hpending : s.pendingPath2ImageQwc ≠ 0) : Vif1.step v data s = Vif1.image v data s := if_pos hpending

theorem step_command (hpending : s.pendingPath2ImageQwc = 0) : Vif1.step v data s =
    Vif1.command v (wordAt data 0) (data.drop 4) { s with regs := s.regs.track (wordAt data 0) } :=
  if_neg (not_not.2 hpending)

theorem image_shorter {s' : Vif1 G} {rest : List Byte} (hpending : s.pendingPath2ImageQwc ≠ 0)
    (h : Vif1.image v data s = (s', some rest)) : rest.length < data.length := by
  rw [Vif1.image] at h
  split at h
  · cases h
  · next havail =>
    obtain ⟨-, hrest⟩ := Prod.mk.inj h
    rw [← Option.some.inj hrest, List.length_drop]
    omega

theorem takes_step : Takes 4 (Vif1.step v) where
  least_pos := by decide
  shorter data s s' rest hlen h := by
    by_cases hpending : s.pendingPath2ImageQwc = 0
    · rw [step_command hpending] at h
      have hrest := congrArg Prod.snd h
      rw [command_rest, behind] at hrest
      split at hrest
      · cases hrest
      · rw [← Option.some.inj hrest, List.length_drop, List.length_drop]
        omega
    · rw [step_image hpending] at h
      exact image_shorter hpending h

/-- **The interpreter goes through a whole piece** to its end. -/
theorem through_of_whole {cycle : Word} {pending : ℕ} (h : Whole cycle pending data) (hcycle : s.regs.cycle = cycle)
    (hpending : s.pendingPath2ImageQwc = pending) : ∃ t, Through 4 (Vif1.step v) data s t := by
  induction h generalizing s with
  | done => exact ⟨s, .done s⟩
  | image hne hlen _ ih =>
    subst hpending
    obtain ⟨s', hregs, hzero, hstep⟩ := image_whole (v := v) hne hlen
    obtain ⟨t, ht⟩ := ih (hregs ▸ hcycle) hzero
    exact ⟨t, .next (by omega) (fun behind => (step_image hne).trans (hstep behind)) ht⟩
  | @command cycle data hlen _ ih =>
    subst hcycle
    set cmd := wordAt data 0 with hcmd
    set s1 : Vif1 G := { s with regs := s.regs.track cmd } with hs1
    have hall : dataBytes s1.regs.cycle cmd ≤ (data.drop 4).length := by
      rw [List.length_drop]
      exact Nat.le_sub_of_add_le' hlen
    obtain ⟨t, ht⟩ := ih (s := (Vif1.command v cmd (data.drop 4) s1).1) command_cycle (command_pending hpending hall)
    refine ⟨t, .next (by omega) (fun behind => ?_) ht⟩
    have hfour : 4 ≤ data.length := by omega
    rw [step_command hpending, wordAt_append hfour, List.drop_append_of_le_length hfour]
    refine Prod.ext (command_append hall) ?_
    rw [command_rest, behind_drop (length_append_le hall), List.drop_append_of_le_length hall]
    rfl

/-! ### Pieces that are cut -/

/-- What the two ways are compared by: the registers, both memories, and the packets on path 2. -/
structure Vif1.Same (s t : Vif1 G) : Prop where
  regs : s.regs = t.regs
  vu1Data : s.vu1Data = t.vu1Data
  vu1Code : s.vu1Code = t.vu1Code
  path2 : s.path2 = t.path2

theorem submitDirect_path2 : (Vif1.submitDirect v n directHl data s).path2 = s.path2 ++ [data.take (n * 16)] := by
  rw [Vif1.submitDirect]
  split
  · rfl
  · rfl

theorem direct_path2 (h : 16 ≤ data.length) : (Vif1.direct v cmd directHl data s).1.path2 =
    s.path2 ++ [data.take (min (Vif1.directQwc cmd) (data.length / 16) * 16)] := by
  have hpos : 0 < min (Vif1.directQwc cmd) (data.length / 16) := by
    have hq : 0 < Vif1.directQwc cmd := directQwc_pos
    omega
  rw [Vif1.direct, if_pos hpos]
  split
  · exact submitDirect_path2 directHl
  · exact submitDirect_path2 directHl

theorem direct_short (h : data.length < 16) : (Vif1.direct v cmd directHl data s).1 = s := by
  have hzero : min (Vif1.directQwc cmd) (data.length / 16) = 0 := by omega
  rw [Vif1.direct, hzero]
  split
  · rfl
  · rfl

theorem direct_prefix : s.path2 <+: (Vif1.direct v cmd directHl data s).1.path2 := by
  by_cases h : 16 ≤ data.length
  · rw [direct_path2 directHl h]
    exact List.prefix_append _ _
  · rw [direct_short directHl (not_le.1 h)]

theorem command_prefix : s.path2 <+: (Vif1.command v cmd data s).1.path2 := by
  obtain ⟨-, -, directHl, hcommand⟩ | ⟨-, hquiet⟩ := direct_or_quiet v cmd data s
  · rw [hcommand]
    exact direct_prefix directHl
  · rw [(hquiet data).2]

theorem image_prefix : s.path2 <+: (Vif1.image v data s).1.path2 := by
  rw [Vif1.image]
  split
  · exact List.prefix_rfl
  · exact List.prefix_append _ _

theorem step_prefix : s.path2 <+: (Vif1.step v data s).1.path2 := by
  by_cases hpending : s.pendingPath2ImageQwc = 0
  · rw [step_command hpending]
    exact command_prefix (s := { s with regs := s.regs.track (wordAt data 0) })
  · rw [step_image hpending]
    exact image_prefix

theorem process_prefix : s.path2 <+: (processVIF1Data v data s).path2 := by
  rw [processVIF1Data]
  exact run_induction (p := fun t : Vif1 G => s.path2 <+: t.path2) takes_step (fun _ _ _ h => h.trans step_prefix) List.prefix_rfl

theorem process_prefix_step (h : 4 ≤ data.length) :
    (Vif1.step v data s).1.path2 <+: (processVIF1Data v data s).path2 := by
  cases hstep : Vif1.step v data s with
  | mk s' left =>
    cases left with
    | none =>
      rw [processVIF1Data, run_stop takes_step h hstep]
    | some rest =>
      rw [processVIF1Data, run_step takes_step h hstep]
      exact process_prefix

/-- **A packet of another length** is seen. -/
theorem packet_differs {s t : Vif1 G} {before : List (List Byte)} {packet packet' : List Byte}
    (h : before ++ [packet] <+: s.path2) (h' : before ++ [packet'] <+: t.path2) (hne : packet ≠ packet') :
    ¬s.Same t := by
  intro hsame
  rw [hsame.path2] at h
  have hlen : (before ++ [packet]).length = (before ++ [packet']).length := by
    rw [List.length_append, List.length_append, List.length_singleton, List.length_singleton]
  have heq := (List.prefix_of_prefix_length_le h h' hlen.le).eq_of_length hlen
  exact hne (List.singleton_inj.1 (List.append_cancel_left heq))

/-! ### Marks -/

theorem command_mark (h : VifCmd.ofOpcode (opcode cmd) ≠ some .mark) :
    (Vif1.command v cmd data s).1.regs.mark = s.regs.mark := by
  rw [Vif1.command]
  cases hop : VifCmd.ofOpcode (opcode cmd) with
  | none =>
    dsimp only
    split
    · rw [Vif1.unpack]
      dsimp only
      split
      · rfl
      · rfl
    · rfl
  | some c =>
    cases c with
    | mark => exact absurd hop h
    | stmask | strow | stcol =>
      dsimp only
      split
      · rfl
      · rfl
    | mpg =>
      dsimp only
      rw [Vif1.mpg]
      split
      · rfl
      · rfl
    | direct => exact congrArg VifRegisters.mark (direct_regs false)
    | directhl => exact congrArg VifRegisters.mark (direct_regs true)
    | nop | stcycl | offset | base | itop | stmod | mskpath3 | flushe | flush | flusha | mscal | mscalf | mscnt =>
      rfl

/-- Data of zeros. -/
abbrev zeros (n : ℕ) : List Byte := List.replicate n 0

theorem wordAt_zeros (n : ℕ) : wordAt (zeros n) 0 = 0 := by
  have hnil : wordAt [] 0 = 0 := rfl
  rw [← hnil, wordAt, wordAt, load_congr fun q _ _ => ?_]
  exact List.getElem?_getD_replicate_default_eq _ _ q

theorem image_regs : (Vif1.image v data s).1.regs = s.regs := by
  rw [Vif1.image]
  split
  · rfl
  · rfl

theorem process_zeros (n : ℕ) (s : Vif1 G) : (processVIF1Data v (zeros n) s).regs.mark = s.regs.mark := by
  rw [processVIF1Data]
  induction n using Nat.strongRecOn generalizing s with
  | ind n ih =>
    by_cases hshort : (zeros n).length < 4
    · rw [run_short hshort]
    have hlong := Nat.not_lt.1 hshort
    have hmark : (Vif1.step v (zeros n) s).1.regs.mark = s.regs.mark := by
      by_cases hpending : s.pendingPath2ImageQwc = 0
      · rw [step_command hpending, wordAt_zeros]
        rfl
      · rw [step_image hpending, image_regs]
    have hrest : ∀ rest, (Vif1.step v (zeros n) s).2 = some rest → ∃ k, rest = (zeros n).drop k := by
      intro rest h
      by_cases hpending : s.pendingPath2ImageQwc = 0
      · rw [step_command hpending, wordAt_zeros] at h
        exact ⟨4, (Option.some.inj h).symm⟩
      · rw [step_image hpending, Vif1.image] at h
        split at h
        · cases h
        · exact ⟨_, (Option.some.inj h).symm⟩
    cases hstep : Vif1.step v (zeros n) s with
    | mk s' left =>
      rw [hstep] at hmark hrest
      cases left with
      | none => rw [run_stop takes_step hlong hstep, hmark]
      | some rest =>
        obtain ⟨k, rfl⟩ := hrest rest rfl
        have hlt := takes_step.shorter _ _ _ _ hlong hstep
        rw [run_step takes_step hlong hstep]
        rw [List.drop_replicate, List.length_replicate, List.length_replicate] at hlt
        rw [List.drop_replicate, ih (n - k) hlt, hmark]

theorem exists_mark (mark : Word) : ∃ cmd, VifCmd.ofOpcode (opcode cmd) = some .mark ∧ (imm cmd).setWidth 32 ≠ mark := by
  by_cases h : mark = 0
  · exact ⟨0x07000001, by decide, by rw [h]; decide⟩
  · exact ⟨0x07000000, by decide, fun hz => h (hz.symm.trans (by decide))⟩

theorem length_bytesOf : (bytesOf cmd).length = 4 := by
  rw [bytesOf, List.length_map, List.length_range]

theorem process_mark (hpending : s.pendingPath2ImageQwc = 0) (hop : VifCmd.ofOpcode (opcode cmd) = some .mark) (n : ℕ) :
    (processVIF1Data v (bytesOf cmd ++ zeros n) s).regs.mark = (imm cmd).setWidth 32 := by
  have hlong : 4 ≤ (bytesOf cmd ++ zeros n).length := by
    rw [List.length_append, length_bytesOf]
    omega
  have hdrop : (bytesOf cmd ++ zeros n).drop 4 = zeros n := List.drop_left' length_bytesOf
  have hstep : Vif1.step v (bytesOf cmd ++ zeros n) s =
      ({ s with regs := { s.regs.track cmd with
        mark := (imm cmd).setWidth 32, stat := (s.regs.track cmd).stat ||| ((1 : Word) <<< 6) } }, some (zeros n)) := by
    rw [step_command hpending, wordAt_bytesOf, hdrop, Vif1.command, hop]
  rw [processVIF1Data, run_step takes_step hlong hstep, ← processVIF1Data, process_zeros]

/-! ### Cuts -/

theorem four_dvd_dataBytes (cycle : Word) : 4 ∣ dataBytes cycle cmd := by
  rw [dataBytes]
  split
  · exact dvd_rfl
  · decide
  · decide
  · exact Dvd.dvd.mul_left (by decide) _
  · exact Dvd.dvd.mul_left (by decide) _
  · exact Dvd.dvd.mul_left (by decide) _
  · split
    · exact Nat.dvd_mul_left 4 _
    · exact Nat.dvd_zero 4
  · exact Nat.dvd_zero 4

theorem not_mark_of_data (cycle : Word) (h : 0 < dataBytes cycle cmd) : VifCmd.ofOpcode (opcode cmd) ≠ some .mark := by
  intro hop
  rw [dataBytes, hop] at h
  exact absurd h (Nat.lt_irrefl 0)

/-- **Data that is missing** is taken for commands when it comes. -/
theorem cut_differs (hpending : s.pendingPath2ImageQwc = 0) (hlong : 4 ≤ data.length) (hfour : 4 ∣ data.length)
    (hcut : data.length < 4 + dataBytes s.regs.cycle (wordAt data 0))
    (hstays : (Vif1.step v data s).1.pendingPath2ImageQwc = 0) :
    ∃ b, 16 ∣ b.length ∧ ¬(processVIF1Data v b (processVIF1Data v data s)).Same (processVIF1Data v (data ++ b) s) := by
  set cmd := wordAt data 0 with hcmd
  set k := dataBytes s.regs.cycle cmd with hk
  obtain ⟨mark, hop, hne⟩ := exists_mark s.regs.mark
  have hnot : VifCmd.ofOpcode (opcode cmd) ≠ some .mark := not_mark_of_data s.regs.cycle (by omega)
  set b := bytesOf mark ++ zeros (16 * k + 12) with hb
  have hblen : b.length = 16 * k + 16 := by
    rw [hb, List.length_append, length_bytesOf, List.length_replicate]
    omega
  refine ⟨b, ⟨k + 1, by omega⟩, fun hsame => hne ?_⟩
  -- In pieces: the command ends with the piece, and the mark comes first in the next one.
  have hpiece : processVIF1Data v data s = (Vif1.step v data s).1 := by
    have hnone : (Vif1.step v data s).2 = none := by
      rw [step_command hpending, command_rest, behind]
      refine if_pos ?_
      rw [List.length_drop]
      exact Nat.sub_lt_left_of_lt_add hlong hcut
    exact run_stop takes_step hlong (Prod.ext rfl hnone)
  have hsplit := congrArg VifRegisters.mark hsame.regs
  rw [hpiece, process_mark hstays hop] at hsplit
  rw [hsplit]
  -- In one: the mark is data.
  have hwhole : k ≤ (data.drop 4 ++ b).length := by
    rw [List.length_append, hblen]
    omega
  have hrest : ∃ j, (data.drop 4 ++ b).drop k = zeros j := by
    have hdvd : 4 ∣ k := four_dvd_dataBytes s.regs.cycle
    have hpast : (data.drop 4).length + 4 ≤ k := by
      rw [List.length_drop]
      omega
    refine ⟨16 * k + 12 - (k - ((data.drop 4).length + 4)), ?_⟩
    rw [hb, ← List.append_assoc, List.drop_append, List.drop_eq_nil_of_le, List.nil_append, List.drop_replicate,
      List.length_append, length_bytesOf]
    rw [List.length_append, length_bytesOf]
    exact hpast
  obtain ⟨j, hj⟩ := hrest
  have hall : 4 ≤ (data ++ b).length := length_append_le hlong
  have hstep : Vif1.step v (data ++ b) s =
      ((Vif1.command v cmd (data.drop 4 ++ b) { s with regs := s.regs.track cmd }).1, some (zeros j)) := by
    rw [step_command hpending, wordAt_append hlong, List.drop_append_of_le_length hlong]
    refine Prod.ext rfl ?_
    rw [command_rest]
    exact (behind_drop hwhole).trans (congrArg some hj)
  rw [processVIF1Data, run_step takes_step hall hstep, ← processVIF1Data, process_zeros, command_mark hnot]
  rfl

/-- **A DIRECT that is cut** submits a shorter packet. -/
theorem direct_differs (hpending : s.pendingPath2ImageQwc = 0) (hlong : 20 ≤ data.length)
    (hcut : (data.length - 4) / 16 < Vif1.directQwc (wordAt data 0)) {directHl : Bool}
    (hcommand : ∀ data', Vif1.command v (wordAt data 0) data' { s with regs := s.regs.track (wordAt data 0) } =
      Vif1.direct v (wordAt data 0) directHl data' { s with regs := s.regs.track (wordAt data 0) }) :
    ∃ b, 16 ∣ b.length ∧ ¬(processVIF1Data v b (processVIF1Data v data s)).Same (processVIF1Data v (data ++ b) s) := by
  set cmd := wordAt data 0 with hcmd
  have hfour : 4 ≤ data.length := by omega
  have hpath : ∀ extra, (Vif1.step v (data ++ extra) s).1.path2 = s.path2 ++
      [(data.drop 4 ++ extra).take (min (Vif1.directQwc cmd) ((data.drop 4 ++ extra).length / 16) * 16)] := by
    intro extra
    have hsixteen : 16 ≤ (data.drop 4 ++ extra).length := by
      rw [List.length_append, List.length_drop]
      omega
    rw [step_command hpending, wordAt_append hfour, List.drop_append_of_le_length hfour, hcommand,
      direct_path2 directHl hsixteen]
  refine ⟨zeros 16, by rw [List.length_replicate], ?_⟩
  have hfirst := hpath []
  rw [List.append_nil, List.append_nil] at hfirst
  have hpiece : (Vif1.step v data s).1.path2 <+: (processVIF1Data v (zeros 16) (processVIF1Data v data s)).path2 :=
    (process_prefix_step hfour).trans process_prefix
  have hall : (Vif1.step v (data ++ zeros 16) s).1.path2 <+: (processVIF1Data v (data ++ zeros 16) s).path2 :=
    process_prefix_step (length_append_le hfour)
  rw [hfirst] at hpiece
  rw [hpath] at hall
  refine packet_differs hpiece hall fun heq => ?_
  have hlen := congrArg List.length heq
  rw [List.length_take, List.length_take, List.length_append, List.length_drop, List.length_replicate] at hlen
  omega

theorem length_imageTag (chunkQw : ℕ) (last : Bool) : (imageTag chunkQw last).length = 16 := by
  rw [imageTag, List.length_append, List.length_map, List.length_range, List.length_replicate]

theorem image_path2 (hlong : 16 ≤ data.length) :
    (Vif1.image v data s).1.path2 =
      s.path2 ++ [imageTag (min s.pendingPath2ImageQwc (data.length / 16))
        (s.pendingPath2ImageQwc == min s.pendingPath2ImageQwc (data.length / 16)) ++
          data.take (min s.pendingPath2ImageQwc (data.length / 16) * 16)] :=
  congrArg (fun x : Vif1 G × Option (List Byte) => x.1.path2) (if_neg (by omega))

/-- The image goes on in a packet of its own. -/
theorem image_parts_differ (hpending : s.pendingPath2ImageQwc ≠ 0) (hlong : 16 ≤ data.length)
    (hcut : data.length < s.pendingPath2ImageQwc * 16) :
    ¬(processVIF1Data v (zeros 16) (processVIF1Data v data s)).Same (processVIF1Data v (data ++ zeros 16) s) := by
  have hfour : 4 ≤ data.length := by omega
  have hpiece : (Vif1.step v data s).1.path2 <+: (processVIF1Data v (zeros 16) (processVIF1Data v data s)).path2 :=
    (process_prefix_step hfour).trans process_prefix
  have hall : (Vif1.step v (data ++ zeros 16) s).1.path2 <+: (processVIF1Data v (data ++ zeros 16) s).path2 :=
    process_prefix_step (length_append_le hfour)
  rw [step_image hpending, image_path2 hlong] at hpiece
  rw [step_image hpending, image_path2 (length_append_le hlong)] at hall
  refine packet_differs hpiece hall fun heq => ?_
  have hlen := congrArg List.length heq
  rw [List.length_append, List.length_append, length_imageTag, length_imageTag, List.length_take, List.length_take,
    List.length_append, List.length_replicate] at hlen
  omega

/-- What is left of a piece is missing in the image. -/
theorem image_rest_differs (hpending : s.pendingPath2ImageQwc ≠ 0) (hlong : 4 ≤ data.length)
    (hshort : data.length < 16) :
    ¬(processVIF1Data v ((byteAt data 0 + 1) :: zeros 15) (processVIF1Data v data s)).Same
      (processVIF1Data v (data ++ (byteAt data 0 + 1) :: zeros 15) s) := by
  set b := (byteAt data 0 + 1) :: zeros 15 with hb
  have hblen : b.length = 16 := by rw [hb, List.length_cons, List.length_replicate]
  have hnone : Vif1.step v data s = (s, none) := by
    rw [step_image hpending, Vif1.image, if_pos (by omega)]
  have hstays : processVIF1Data v data s = s := run_stop takes_step hlong hnone
  rw [hstays]
  have hsum : (data ++ b).length = data.length + 16 := by rw [List.length_append, hblen]
  have hpiece : (Vif1.step v b s).1.path2 <+: (processVIF1Data v b s).path2 := process_prefix_step (by omega)
  have hall : (Vif1.step v (data ++ b) s).1.path2 <+: (processVIF1Data v (data ++ b) s).path2 :=
    process_prefix_step (by omega)
  have hone : min s.pendingPath2ImageQwc (b.length / 16) = 1 := by omega
  have hone' : min s.pendingPath2ImageQwc ((data ++ b).length / 16) = 1 := by omega
  rw [step_image hpending, image_path2 (by omega), hone] at hpiece
  rw [step_image hpending, image_path2 (by omega), hone'] at hall
  refine packet_differs hpiece hall fun heq => ?_
  have hbytes := congrArg (byteAt · 0) (List.append_cancel_left heq)
  have htake : ∀ l : List Byte, byteAt (l.take (1 * 16)) 0 = byteAt l 0 := by
    intro l
    rw [byteAt, byteAt, List.getD_eq_getElem?_getD, List.getD_eq_getElem?_getD, List.getElem?_take_of_lt (by decide)]
  have hfirst : byteAt b 0 = byteAt data 0 + 1 := rfl
  rw [htake, htake, byteAt_append (by omega), hfirst] at hbytes
  have hnat := congrArg BitVec.toNat hbytes
  rw [BitVec.toNat_add, show (1 : Byte).toNat = 1 from rfl] at hnat
  omega

/-- **A piece that is not whole** has a continuation that shows it. -/
theorem exists_differs (hfour : 4 ∣ data.length) (h : ¬Whole s.regs.cycle s.pendingPath2ImageQwc data) :
    ∃ b, 16 ∣ b.length ∧ ¬(processVIF1Data v b (processVIF1Data v data s)).Same (processVIF1Data v (data ++ b) s) := by
  induction hlen : data.length using Nat.strongRecOn generalizing data s with
  | ind k ih =>
    have hne : data ≠ [] := by
      rintro rfl
      exact h (.done _ _)
    have hlong : 4 ≤ data.length := Nat.le_of_dvd (List.length_pos_of_ne_nil hne) hfour
    -- A step that does not look behind its data leads to a shorter piece.
    have hgo : ∀ s' rest, (∀ extra, Vif1.step v (data ++ extra) s = (s', some (rest ++ extra))) → 4 ∣ rest.length →
        ¬Whole s'.regs.cycle s'.pendingPath2ImageQwc rest → ∃ b, 16 ∣ b.length ∧
          ¬(processVIF1Data v b (processVIF1Data v data s)).Same (processVIF1Data v (data ++ b) s) := by
      intro s' rest hstep hdvd hrest
      have hnil := hstep []
      rw [List.append_nil, List.append_nil] at hnil
      have hlt := takes_step.shorter _ _ _ _ hlong hnil
      obtain ⟨b, hb, hdiff⟩ := ih rest.length (hlen ▸ hlt) hdvd hrest rfl
      refine ⟨b, hb, ?_⟩
      have hpiece : processVIF1Data v data s = processVIF1Data v rest s' := run_step takes_step hlong hnil
      have hall : processVIF1Data v (data ++ b) s = processVIF1Data v (rest ++ b) s' :=
        run_step takes_step (length_append_le hlong) (hstep b)
      rwa [hpiece, hall]
    by_cases hpending : s.pendingPath2ImageQwc = 0
    · set cmd := wordAt data 0 with hcmd
      set s1 : Vif1 G := { s with regs := s.regs.track cmd } with hs1
      by_cases hwhole : 4 + dataBytes s.regs.cycle cmd ≤ data.length
      · have hall : dataBytes s1.regs.cycle cmd ≤ (data.drop 4).length := by
          rw [List.length_drop]
          exact Nat.le_sub_of_add_le' hwhole
        refine hgo (Vif1.command v cmd (data.drop 4) s1).1 ((data.drop 4).drop (dataBytes s.regs.cycle cmd))
          (fun extra => ?_) ?_ ?_
        · rw [step_command hpending, wordAt_append hlong, List.drop_append_of_le_length hlong]
          refine Prod.ext (command_append hall) ?_
          rw [command_rest, behind_drop (length_append_le hall), List.drop_append_of_le_length hall]
          rfl
        · have hdvd : 4 ∣ dataBytes s.regs.cycle cmd := four_dvd_dataBytes _
          rw [List.length_drop, List.length_drop]
          omega
        · rw [command_cycle, command_pending (s := s1) hpending hall]
          intro hrest
          rw [hpending] at h
          exact h (.command hwhole hrest)
      · have hcut := not_le.1 hwhole
        obtain ⟨hbytes, -, directHl, hcommand⟩ | ⟨-, hquiet⟩ := direct_or_quiet v cmd (data.drop 4) s1
        · have hbytes : dataBytes s.regs.cycle cmd = Vif1.directQwc cmd * 16 := hbytes
          by_cases htwenty : 20 ≤ data.length
          · have hmissing : (data.length - 4) / 16 < Vif1.directQwc cmd := by omega
            exact direct_differs hpending htwenty hmissing hcommand
          · refine cut_differs hpending hlong hfour hcut ?_
            rw [step_command hpending, hcommand, direct_short directHl]
            · exact hpending
            · rw [List.length_drop]
              omega
        · refine cut_differs hpending hlong hfour hcut ?_
          rw [step_command hpending, (hquiet _).1]
          exact hpending
    · by_cases hwhole : s.pendingPath2ImageQwc * 16 ≤ data.length
      · obtain ⟨s', hregs, hzero, hstep⟩ := image_whole (v := v) hpending hwhole
        refine hgo s' _ (fun extra => (step_image hpending).trans (hstep extra)) ?_ ?_
        · rw [List.length_drop]
          omega
        · rw [hregs, hzero]
          exact fun hrest => h (.image hpending hwhole hrest)
      · have hcut := not_le.1 hwhole
        by_cases hsixteen : 16 ≤ data.length
        · exact ⟨zeros 16, by rw [List.length_replicate], image_parts_differ hpending hsixteen hcut⟩
        · refine ⟨_, ?_, image_rest_differs hpending hlong (not_le.1 hsixteen)⟩
          rw [List.length_cons, List.length_replicate]

/-- **Pieces of a stream**: whatever follows is done behind a piece as if it had come with it, if and only if
the piece is whole. -/
theorem split_iff (v : Vu1 G) (s : Vif1 G) (a : List Byte) (ha : 16 ∣ a.length) :
    (∀ b, 16 ∣ b.length → (processVIF1Data v b (processVIF1Data v a s)).Same (processVIF1Data v (a ++ b) s)) ↔
      Whole s.regs.cycle s.pendingPath2ImageQwc a := by
  constructor
  · intro h
    by_contra hwhole
    obtain ⟨b, hb, hdiff⟩ := exists_differs (v := v) ((by decide : 4 ∣ 16).trans ha) hwhole
    exact hdiff (h b hb)
  · intro hwhole b _
    obtain ⟨t, ht⟩ := through_of_whole (v := v) hwhole rfl rfl
    have hpiece : processVIF1Data v a s = t := ht.run takes_step
    have hall : processVIF1Data v (a ++ b) s = processVIF1Data v b t := ht.run_append takes_step b
    rw [hpiece, hall]
    exact ⟨rfl, rfl, rfl, rfl⟩

/-- A piece of four NOPs. -/
theorem nops_whole : Whole clearedVif1.regs.cycle clearedVif1.pendingPath2ImageQwc (zeros 16) ∧
    ∀ b, 16 ∣ b.length → (processVIF1Data idle b (processVIF1Data idle (zeros 16) clearedVif1)).Same
      (processVIF1Data idle (zeros 16 ++ b) clearedVif1) := by
  have hwhole : Whole clearedVif1.regs.cycle clearedVif1.pendingPath2ImageQwc (zeros 16) :=
    .command (by decide) (.command (by decide) (.command (by decide) (.command (by decide) (.done _ _))))
  exact ⟨hwhole, (split_iff idle clearedVif1 (zeros 16) (by decide)).2 hwhole⟩

/-- **The mask of a STMASK comes with the next piece**, and is taken for a MARK. -/
theorem mask_taken_for_mark : ¬∀ (v : Vu1 Unit) (s : Vif1 Unit) (a b : List Byte), 16 ∣ a.length → 16 ∣ b.length →
    (processVIF1Data v b (processVIF1Data v a s)).Same (processVIF1Data v (a ++ b) s) := by
  intro h
  have hsame := h idle clearedVif1 (zeros 12 ++ bytesOf 0x20000000) (bytesOf 0x07000001 ++ zeros 12) (by decide) (by decide)
  exact absurd (congrArg VifRegisters.mark hsame.regs) (by decide)

end Ps2Recomp.Vif
