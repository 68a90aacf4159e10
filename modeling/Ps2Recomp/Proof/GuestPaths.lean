import Ps2Recomp.Spec.GuestPaths

/-!
# Guest paths stay inside their root

A path of a card is rewritten to good parts only (`IsPart`), and so is the current directory of every card that
`Reach` leads to. Where the host joins such parts to a root, and what `translatePs2Path` joins, is a walk that goes
on from the root (`below_join_iff`).
-/

namespace Ps2Recomp.GuestPaths

open Climb (Place walk)

variable {rules : Rules} {root : ℤ → Path} {roots : Device → Path} {ports : McPorts} {port : ℤ} {p q : Path}
variable {sep : Char → Bool} {s path current : Str} {part : Str} {parts : List Str}

/-! ### Components -/

theorem splitLoop_append (h : ∀ c ∈ s, sep c = false) (rest : Str) :
    splitLoop sep (s ++ rest) current = splitLoop sep rest (current ++ s) := by
  induction s generalizing current with
  | nil => rw [List.nil_append, List.append_nil]
  | cons c s ih =>
    have hc : sep c = false := h c List.mem_cons_self
    rw [List.cons_append, splitLoop, hc, if_neg Bool.false_ne_true,
      ih fun b hb => h b (List.mem_cons_of_mem _ hb), List.append_assoc]
    rfl

theorem splitLoop_spec (hcurrent : ∀ c ∈ current, sep c = false) (h : part ∈ splitLoop sep s current) :
    part ≠ [] ∧ ∀ c ∈ part, sep c = false := by
  induction s generalizing current with
  | nil =>
    rw [splitLoop] at h
    split at h
    · exact absurd h List.not_mem_nil
    next hne =>
      obtain rfl := List.mem_singleton.1 h
      exact ⟨hne, hcurrent⟩
  | cons c s ih =>
    have hnil : ∀ c ∈ ([] : Str), sep c = false := fun c hc => absurd hc List.not_mem_nil
    rw [splitLoop] at h
    split at h
    · split at h
      · exact ih hnil h
      next hne =>
        rcases List.mem_cons.1 h with rfl | h
        · exact ⟨hne, hcurrent⟩
        · exact ih hnil h
    next hc =>
      refine ih (fun b hb => ?_) h
      rcases List.mem_append.1 hb with hb | hb
      · exact hcurrent b hb
      · obtain rfl := List.mem_singleton.1 hb
        exact Bool.eq_false_iff.2 hc

/-- A component of a path on a card that names something. -/
structure IsPart (part : Str) : Prop where
  ne_nil : part ≠ []
  ne_dot : part ≠ dot
  ne_dotdot : part ≠ dotdot
  no_separator : ∀ c ∈ part, c ≠ '/' ∧ c ≠ '\\'

theorem splitLoop_join (hslash : sep '/' = true) (hsep : ∀ c, c ≠ '/' → c ≠ '\\' → sep c = false)
    (h : ∀ part ∈ parts, IsPart part) :
    splitLoop sep (parts.flatMap fun part => '/' :: part) current =
      if current = [] then parts else current :: parts := by
  induction parts generalizing current with
  | nil => rfl
  | cons part parts ih =>
    have hpart := h part List.mem_cons_self
    have hchars : ∀ c ∈ part, sep c = false := fun c hc =>
      hsep c (hpart.no_separator c hc).1 (hpart.no_separator c hc).2
    have hrest : splitLoop sep (part ++ parts.flatMap fun part => '/' :: part) [] = part :: parts := by
      rw [splitLoop_append hchars, List.nil_append, ih fun b hb => h b (List.mem_cons_of_mem _ hb), if_neg hpart.ne_nil]
    rw [List.flatMap_cons, List.cons_append, splitLoop, hslash, if_pos rfl, hrest]

theorem mcSeparator {c : Char} (h1 : c ≠ '/') (h2 : c ≠ '\\') : (decide (c = '/') || decide (c = '\\')) = false := by
  rw [decide_eq_false h1, decide_eq_false h2]
  rfl

theorem split_join (h : ∀ part ∈ parts, IsPart part) : splitMcPathComponents (joinMcPathComponents parts) = parts := by
  cases parts with
  | nil => rfl
  | cons part parts => exact splitLoop_join rfl (fun c h1 h2 => mcSeparator h1 h2) h

/-! ### Normalisation -/

theorem resolveParts_isPart (hparts : ∀ part ∈ parts, IsPart part) {comps : List Str}
    (hcomps : ∀ part ∈ comps, ∀ c ∈ part, c ≠ '/' ∧ c ≠ '\\') :
    ∀ part ∈ comps.foldl resolveParts parts, IsPart part := by
  induction comps generalizing parts with
  | nil => exact hparts
  | cons part comps ih =>
    refine ih (fun b hb => ?_) fun b hb => hcomps b (List.mem_cons_of_mem _ hb)
    rw [resolveParts] at hb
    split at hb
    · exact hparts b hb
    next hnot =>
      split at hb
      · exact hparts b (List.dropLast_subset _ hb)
      next hup =>
        rcases List.mem_append.1 hb with hb | hb
        · exact hparts b hb
        · obtain rfl := List.mem_singleton.1 hb
          rw [not_or] at hnot
          exact ⟨hnot.1, hnot.2, hup, hcomps b List.mem_cons_self⟩

/-- The loop of `normalizeGuestMcPathLocked` walks; at the root it stays where it is. -/
theorem foldl_resolveParts {comps : List Str} (h : ∀ part ∈ comps, part ≠ []) (w : Place Str) :
    comps.foldl resolveParts w.names.reverse =
      ((comps.filter (· ≠ dot)).foldl (Climb.step dotdot) w).names.reverse := by
  induction comps generalizing w with
  | nil => rfl
  | cons part comps ih =>
    have hne : part ≠ [] := h part List.mem_cons_self
    have hcomps : ∀ part ∈ comps, part ≠ [] := fun b hb => h b (List.mem_cons_of_mem _ hb)
    rw [List.foldl_cons, resolveParts]
    by_cases hdot : part = dot
    · have hfilter : (part :: comps).filter (· ≠ dot) = comps.filter (· ≠ dot) :=
        List.filter_cons_of_neg (by simp [hdot])
      rw [if_pos (.inr hdot), hfilter, ih hcomps]
    · have hfilter : (part :: comps).filter (· ≠ dot) = part :: comps.filter (· ≠ dot) :=
        List.filter_cons_of_pos (by simp [hdot])
      rw [if_neg (by simp [hne, hdot]), hfilter, List.foldl_cons, ← ih hcomps]
      congr 1
      rw [Climb.step]
      by_cases hup : part = dotdot
      · rw [if_pos hup, if_pos hup]
        rcases w with ⟨k, _ | ⟨b, names⟩⟩
        · rfl
        · rw [List.reverse_cons, List.dropLast_concat]
      · rw [if_neg hup, if_neg hup, List.reverse_cons]

section

variable (h : ∀ part ∈ parts, IsPart part)

include h

theorem filter_dot : parts.filter (· ≠ dot) = parts :=
  List.filter_eq_self.2 fun part hpart => decide_eq_true (h part hpart).ne_dot

theorem walk_parts : walk dotdot (parts.filter (· ≠ dot)) = ⟨0, parts.reverse⟩ := by
  rw [filter_dot h]
  exact Climb.walk_of_ne fun part hpart => (h part hpart).ne_dotdot

end

/-- **The current directories are normal.** -/
def Normal (ports : McPorts) : Prop :=
  ∀ port, ∃ parts, (∀ part ∈ parts, IsPart part) ∧ (ports port).currentDir = joinMcPathComponents parts

theorem Normal.update {state : McPortState} (h : Normal ports)
    (hdir : ∃ parts, (∀ part ∈ parts, IsPart part) ∧ state.currentDir = joinMcPathComponents parts) :
    Normal (Function.update ports port state) := by
  intro t
  by_cases ht : t = port
  · subst ht
    rw [Function.update_self]
    exact hdir
  · rw [Function.update_of_ne ht]
    exact h t

theorem split_isPart (h : part ∈ splitMcPathComponents s) : part ≠ [] ∧ ∀ c ∈ part, c ≠ '/' ∧ c ≠ '\\' := by
  obtain ⟨hne, hchars⟩ := splitLoop_spec (fun c hc => absurd hc List.not_mem_nil) h
  refine ⟨hne, fun c hc => ?_⟩
  have hsep := hchars c hc
  rw [Bool.or_eq_false_iff, decide_eq_false_iff_not, decide_eq_false_iff_not] at hsep
  exact hsep

/-- **A normalised path is what the path names on its card**, and all of that are good parts. -/
theorem normalize_eq (h : Normal ports) (port : ℤ) (path : Str) : normalizeGuestMcPathLocked ports port path =
    joinMcPathComponents (cardNames ports port path) ∧ ∀ part ∈ cardNames ports port path, IsPart part := by
  rw [normalizeGuestMcPathLocked, cardNames]
  generalize (if hasPrefix (replaceBackslashes path) "mc0:" || hasPrefix (replaceBackslashes path) "mc1:" then
    (replaceBackslashes path).drop 4 else replaceBackslashes path) = rest
  obtain ⟨start, hstart, hparts, heq⟩ : ∃ start,
      (if !(decide (rest.head? = some '/')) && isPort port then splitMcPathComponents (ports port).currentDir else [])
        = start ∧ (∀ part ∈ start, IsPart part) ∧
      (if rest.head? ≠ some '/' ∧ isPort port then splitMcPathComponents (ports port).currentDir else []) = start := by
    by_cases hcond : rest.head? ≠ some '/' ∧ isPort port = true
    · obtain ⟨parts, hparts, hdir⟩ := h port
      refine ⟨parts, ?_, hparts, ?_⟩
      · rw [if_pos (by simpa using hcond), hdir, split_join hparts]
      · rw [if_pos hcond, hdir, split_join hparts]
    · refine ⟨[], ?_, fun part hpart => absurd hpart List.not_mem_nil, if_neg hcond⟩
      exact if_neg (by simpa using hcond)
  have hwalk : (splitMcPathComponents rest).foldl resolveParts start =
      (walk dotdot ((start ++ splitMcPathComponents rest).filter (· ≠ dot))).names.reverse := by
    have hne : ∀ part ∈ splitMcPathComponents rest, part ≠ [] := fun part hpart => (split_isPart hpart).1
    have hfold := foldl_resolveParts hne ⟨0, start.reverse⟩
    rw [List.reverse_reverse] at hfold
    rw [hfold, List.filter_append, walk, List.foldl_append]
    congr 3
    exact (walk_parts hparts).symm
  simp only [hstart, heq, ← hwalk, true_and]
  exact resolveParts_isPart hparts fun part hpart => (split_isPart hpart).2

/-- A path from the root of its card that has good parts only is normal. -/
theorem normalize_join (h : ∀ part ∈ parts, IsPart part) :
    normalizeGuestMcPathLocked ports port (joinMcPathComponents parts) = joinMcPathComponents parts := by
  obtain ⟨rest, hrest⟩ : ∃ rest, joinMcPathComponents parts = '/' :: rest := by
    cases parts with
    | nil => exact ⟨[], rfl⟩
    | cons part parts => exact ⟨_, rfl⟩
  have hchars : ∀ c ∈ joinMcPathComponents parts, c ≠ '\\' := by
    intro c hc
    cases parts with
    | nil =>
      obtain rfl := List.mem_singleton.1 hc
      decide
    | cons part' parts =>
      obtain ⟨part, hpart, hc⟩ := List.mem_flatMap.1 hc
      rcases List.mem_cons.1 hc with rfl | hc
      · decide
      · exact ((h part hpart).no_separator c hc).2
  have hback : replaceBackslashes (joinMcPathComponents parts) = joinMcPathComponents parts := by
    refine (List.map_congr_left fun c hc => ?_).trans (List.map_id _)
    rw [if_neg (hchars c hc)]
    rfl
  have hprefix : (hasPrefix (joinMcPathComponents parts) "mc0:" ||
      hasPrefix (joinMcPathComponents parts) "mc1:") = false := by
    rw [hrest]
    rfl
  have hfold : parts.foldl resolveParts [] = parts := by
    have hne : ∀ part ∈ parts, part ≠ [] := fun part hpart => (h part hpart).ne_nil
    have hfold := foldl_resolveParts hne ⟨0, []⟩
    rw [List.reverse_nil] at hfold
    rw [hfold, ← walk, walk_parts h, List.reverse_reverse]
  simp only [normalizeGuestMcPathLocked]
  rw [hback, hprefix, if_neg Bool.false_ne_true, split_join h, hrest]
  exact (congrArg joinMcPathComponents hfold).trans hrest

/-- **Every directory that `sceMcChdir` leads to is normal.** -/
theorem reach_normal (h : Reach rules root ports) : Normal ports := by
  induction h with
  | init ports h => exact fun port => ⟨[], fun part hpart => absurd hpart List.not_mem_nil, h port⟩
  | @chdir ports isDirectory port slot requestedDir h ih =>
    have hdir : ∃ parts, (∀ part ∈ parts, IsPart part) ∧
        (if requestedDir = [] then (ports port).currentDir else normalizeGuestMcPathLocked ports port requestedDir) =
          joinMcPathComponents parts := by
      split
      · exact ih port
      · exact ⟨_, (normalize_eq ih port requestedDir).2, (normalize_eq ih port requestedDir).1⟩
    simp only [sceMcChdir]
    generalize (if requestedDir = [] then (ports port).currentDir else
      normalizeGuestMcPathLocked ports port requestedDir) = resolvedDir at hdir ⊢
    split
    · split
      · exact ih.update hdir
      · exact ih
    · exact ih
  | reset port formatted h ih => exact ih.update ⟨[], fun part hpart => absurd hpart List.not_mem_nil, rfl⟩

/-! ### Joining -/

/-- **Joined to a root**, a path without a root of its own goes on from there. -/
theorem below_join_iff (h : q.rootDir = true → q.rootName ≠ []) :
    p.lexicallyNormal.Below (p.join q).lexicallyNormal ↔ p.Stays q := by
  rw [Path.join, Path.Stays]
  split
  · rfl
  next hnot =>
    have hdir : ¬q.rootDir = true := fun hdir => hnot ⟨h hdir, .inl hdir⟩
    rw [if_neg hdir]
    have hplace : Path.place { p with comps := p.comps ++ q.comps } = p.place.andThen q.place := by
      rw [Path.place, List.filter_append, Climb.walk_append]
      rfl
    have hp : ∀ c ∈ p.place.names, c ≠ dotdot := fun c hc => Climb.names_ne hc
    have hq : ∀ c ∈ q.place.names, c ≠ dotdot := fun c hc => Climb.names_ne hc
    have hbelow := Climb.below_iff hp hq p.rootDir
    rw [Path.Below, Path.lexicallyNormal, Path.lexicallyNormal, hplace]
    simp only [true_and]
    exact hbelow

theorem splitDrive_snd (h : (splitDrive rules s).1 = []) : (splitDrive rules s).2 = s := by
  rw [splitDrive.eq_def] at h ⊢
  split
  · split
    next halpha => simp [halpha] at h
    · rfl
  · rfl

theorem parse_rootDir (h : ∀ c, s.head? = some c → c ≠ '/' ∧ c ≠ '\\') :
    (Path.parse rules s).rootDir = true → (Path.parse rules s).rootName ≠ [] := by
  have hhead : s.head?.any rules.isSeparator = false := by
    cases hs : s.head? with
    | none => rfl
    | some c =>
      obtain ⟨h1, h2⟩ := h c hs
      cases rules <;> simp [Rules.isSeparator, h1, h2]
  intro hdir hname
  have hdir' : (splitDrive rules s).2.head?.any rules.isSeparator = true := hdir
  rw [splitDrive_snd hname, hhead] at hdir'
  cases hdir'

/-- Good parts without a drive in front lead straight down. -/
theorem stays_of_parts (h : ∀ part ∈ parts, IsPart part)
    (hdrive : (Path.parse rules ((joinMcPathComponents parts).drop 1)).rootName = []) :
    p.Stays (.parse rules ((joinMcPathComponents parts).drop 1)) := by
  have hnot : ¬((Path.parse rules ((joinMcPathComponents parts).drop 1)).rootName ≠ [] ∧
      ((Path.parse rules ((joinMcPathComponents parts).drop 1)).rootDir ∨
        (Path.parse rules ((joinMcPathComponents parts).drop 1)).rootName ≠ p.rootName)) := fun hcond =>
    hcond.1 hdrive
  have hcomps : (Path.parse rules ((joinMcPathComponents parts).drop 1)).comps = parts := by
    have hsplit : splitLoop rules.isSeparator ((joinMcPathComponents parts).drop 1) [] = parts := by
      cases parts with
      | nil => rfl
      | cons part parts =>
        have hslash : rules.isSeparator '/' = true := by cases rules <;> rfl
        have hsep : ∀ c, c ≠ '/' → c ≠ '\\' → rules.isSeparator c = false := by
          intro c h1 h2
          cases rules <;> simp [Rules.isSeparator, h1, h2]
        have hjoin : splitLoop rules.isSeparator ((part :: parts).flatMap fun part => '/' :: part) [] = part :: parts :=
          splitLoop_join hslash hsep h
        rw [List.flatMap_cons, List.cons_append, splitLoop, hslash] at hjoin
        exact hjoin
    exact (congrArg (fun s => splitLoop rules.isSeparator s []) (splitDrive_snd hdrive)).trans hsplit
  rw [Path.Stays, if_neg hnot, Path.place, hcomps, walk_parts h]
  exact ⟨.inl (Nat.zero_le _), List.nil_suffix⟩

theorem join_parse_nil : p.join (.parse rules []) = p := by
  have hparse : Path.parse rules [] = ⟨[], false, []⟩ := by cases rules <;> rfl
  rw [hparse, Path.join, if_neg (fun hcond => hcond.1 rfl), if_neg Bool.false_ne_true, List.append_nil]

theorem guestMcPathToHostPath_eq :
    guestMcPathToHostPath rules p path = (p.join (.parse rules (path.drop 1))).lexicallyNormal := by
  rw [guestMcPathToHostPath]
  split
  · rfl
  next hlen => rw [List.drop_of_length_le (by omega), join_parse_nil]

theorem resolveWithBase_eq :
    resolveWithBase rules p path = (p.join (.parse rules (normalizePs2PathSuffix path))).lexicallyNormal := by
  simp only [resolveWithBase]
  split
  · rfl
  next hnil => rw [not_not.1 hnil, join_parse_nil]

theorem joined_head (h : ∀ part ∈ parts, IsPart part) (c : Char) (hc : ((joinMcPathComponents parts).drop 1).head? = some c) :
    c ≠ '/' ∧ c ≠ '\\' := by
  cases parts with
  | nil => cases hc
  | cons part parts =>
    have hpart := h part List.mem_cons_self
    rcases part with _ | ⟨b, part⟩
    · exact absurd rfl hpart.ne_nil
    · obtain rfl := Option.some.inj hc
      exact hpart.no_separator b List.mem_cons_self

theorem suffix_head (c : Char) (hc : (normalizePs2PathSuffix s).head? = some c) : c ≠ '/' ∧ c ≠ '\\' := by
  have hnot := List.head?_dropWhile_not (fun c => decide (c = '/') || decide (c = '\\'))
    (stripIsoVersionSuffix (replaceBackslashes s))
  rw [normalizePs2PathSuffix] at hc
  rw [hc] at hnot
  simpa using hnot

/-- No device's name begins with another's, so the first that fits is the one. -/
theorem translate_eq {e : String × Device}
    (he : e ∈ [("host:", Device.host), ("cdrom0:", Device.cd), ("mc0:", Device.mc)]) (h : hasPrefix path e.1) :
    translatePs2Path rules roots path = resolveWithBase rules (roots e.2) (path.drop e.1.length) := by
  obtain ⟨rest, hrest⟩ := List.isPrefixOf_iff_prefix.1 h
  have hne : path ≠ [] := by
    rintro rfl
    have hnil : e.1.toList ++ rest = [] := hrest
    simp only [List.mem_cons, List.not_mem_nil, or_false] at he
    rcases he with rfl | rfl | rfl <;> cases hnil
  have hpre : ∀ text, hasPrefix path text = text.toList.isPrefixOf (e.1.toList ++ rest) := fun text => by
    rw [hasPrefix, hrest]
  simp only [List.mem_cons, List.not_mem_nil, or_false] at he
  rw [translatePs2Path, if_neg hne]
  rcases he with rfl | rfl | rfl
  · have hhost0 : hasPrefix path "host0:" = false := (hpre _).trans rfl
    rw [hhost0, h]
    rfl
  · have hhost0 : hasPrefix path "host0:" = false := (hpre _).trans rfl
    have hhost : hasPrefix path "host:" = false := (hpre _).trans rfl
    rw [hhost0, hhost, h]
    rfl
  · have hhost0 : hasPrefix path "host0:" = false := (hpre _).trans rfl
    have hhost : hasPrefix path "host:" = false := (hpre _).trans rfl
    have hcd0 : hasPrefix path "cdrom0:" = false := (hpre _).trans rfl
    have hcd : hasPrefix path "cdrom:" = false := (hpre _).trans rfl
    rw [hhost0, hhost, hcd0, hcd, h]
    rfl

/-- **Guest paths stay inside their root** if and only if what is joined to it does. The parts of a path on a card
always do, as long as the host reads no drive in front of them; behind a device there may be steps up. -/
theorem inside_iff (h : Reach rules root ports) :
    (∀ port path,
      (root port).lexicallyNormal.Below
          (guestMcPathToHostPath rules (root port) (normalizeGuestMcPathLocked ports port path)) ↔
        let path := Path.parse rules ((joinMcPathComponents (cardNames ports port path)).drop 1)
        path.rootName = [] ∨ (root port).Stays path) ∧
    (∀ port path, normalizeGuestMcPathLocked ports port (normalizeGuestMcPathLocked ports port path) =
      normalizeGuestMcPathLocked ports port path) ∧
    (∀ port, normalizeGuestMcPathLocked ports port (ports port).currentDir = (ports port).currentDir) ∧
    ∀ (roots : Device → Path) (path : Str),
      ∀ e ∈ [("host:", Device.host), ("cdrom0:", Device.cd), ("mc0:", Device.mc)], hasPrefix path e.1 →
        ((roots e.2).lexicallyNormal.Below (translatePs2Path rules roots path) ↔
          (roots e.2).Stays (.parse rules (normalizePs2PathSuffix (path.drop e.1.length)))) := by
  have hnormal := reach_normal h
  refine ⟨fun port path => ?_, fun port path => ?_, fun port => ?_, fun roots path e he hpre => ?_⟩
  · obtain ⟨heq, hparts⟩ := normalize_eq hnormal port path
    rw [heq, guestMcPathToHostPath_eq, below_join_iff (parse_rootDir (joined_head hparts))]
    exact ⟨.inr, fun hor => hor.elim (stays_of_parts hparts) id⟩
  · obtain ⟨heq, hparts⟩ := normalize_eq hnormal port path
    rw [heq]
    exact normalize_join hparts
  · obtain ⟨parts, hparts, hdir⟩ := hnormal port
    rw [hdir]
    exact normalize_join hparts
  · rw [translate_eq he hpre, resolveWithBase_eq, below_join_iff (parse_rootDir suffix_head)]

theorem inside_iff_chdir :
    let root : ℤ → Path := fun _ => ⟨['D', ':'], true, [['m', 'c']]⟩
    let ports := sceMcChdir .windows root (fun _ => true) (fun _ => ⟨['/'], true⟩) 0 0 ['S', 'A', 'V', 'E']
    (ports 0).currentDir = ['/', 'S', 'A', 'V', 'E'] ∧
      (root 0).lexicallyNormal.Below (guestMcPathToHostPath .windows (root 0)
        (normalizeGuestMcPathLocked ports 0 ['.', '.', '\\', '.', '.', '\\', 'A'])) :=
  ⟨by decide, ((inside_iff (.chdir (fun _ => true) 0 0 ['S', 'A', 'V', 'E'] (.init _ fun _ => rfl))).1 0 _).2
    (.inl (by decide))⟩

/-- A step up behind a device leaves its root, and a drive in a path on a card replaces the root. -/
theorem climbs_out :
    (¬Path.Below ⟨[], true, [['g']]⟩
      (translatePs2Path .posix (fun _ => ⟨[], true, [['g']]⟩) ['h', 'o', 's', 't', ':', '.', '.', '/', 'x'])) ∧
    ¬Path.Below ⟨['D', ':'], true, [['m', 'c']]⟩
      (guestMcPathToHostPath .windows ⟨['D', ':'], true, [['m', 'c']]⟩
        (normalizeGuestMcPathLocked (fun _ => ⟨['/'], true⟩) 0 ['C', ':', '/', 'x'])) := by
  constructor
  · have hpath : translatePs2Path .posix (fun _ => ⟨[], true, [['g']]⟩) ['h', 'o', 's', 't', ':', '.', '.', '/', 'x'] =
        ⟨[], true, [['x']]⟩ := by decide
    rw [hpath]
    rintro ⟨-, -, rest, hcomps, -⟩
    cases hcomps
  · have hpath : guestMcPathToHostPath .windows ⟨['D', ':'], true, [['m', 'c']]⟩
        (normalizeGuestMcPathLocked (fun _ => ⟨['/'], true⟩) 0 ['C', ':', '/', 'x']) = ⟨['C', ':'], true, [['x']]⟩ := by
      decide
    rw [hpath]
    rintro ⟨hname, -⟩
    exact absurd hname (by decide)

end Ps2Recomp.GuestPaths
