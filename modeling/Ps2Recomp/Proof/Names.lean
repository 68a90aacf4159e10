import Ps2Recomp.Proof.Targets

/-!
# Names and files of generated functions

`makeName` puts a sanitised name in front of `_0x` and an address: the start of the function,
or its end if the name is `entry_` and the start. Hexadecimal digits have no underscore, so
both parts can be read back from the identifier, and from a file name of at most 100 characters
at least the address.

* `makeName_toList`, `getOutputPath_toList`: what the two names consist of.
* `outputPath_inj`: two files have one name only if their functions do.
* `names_distinct_iff`: all names and files are distinct unless a function called `entry_` and
  its start ends where another one of the same name starts.
-/

namespace Ps2Recomp

/-! ## Hexadecimal digits -/

theorem digitChar_inj : ∀ m < 16, ∀ n < 16, Nat.digitChar m = Nat.digitChar n → m = n := by decide

theorem digitChar_ne_underscore : ∀ n < 16, Nat.digitChar n ≠ '_' := by decide

theorem toDigits_inj {m n : ℕ} (h : Nat.toDigits 16 m = Nat.toDigits 16 n) : m = n := by
  induction m using Nat.strong_induction_on generalizing n with
  | _ m ih =>
    rw [Nat.toDigits_eq_if (by decide), @Nat.toDigits_eq_if 16 n (by decide)] at h
    -- the last digits agree, and so do the digits in front of them
    split at h <;> split at h
    · rename_i hm hn
      exact digitChar_inj m hm n hn (List.cons.inj h).1
    · have := congrArg List.length h
      have hpos := @Nat.length_toDigits_pos 16 (n / 16)
      simp only [List.length_singleton, List.length_append] at this
      omega
    · have := congrArg List.length h
      have hpos := @Nat.length_toDigits_pos 16 (m / 16)
      simp only [List.length_singleton, List.length_append] at this
      omega
    · rename_i hm hn
      obtain ⟨h1, h2⟩ := List.append_inj' h rfl
      have hdiv := ih (m / 16) (by omega) h1
      have hmod := digitChar_inj _ (Nat.mod_lt m (by decide)) _ (Nat.mod_lt n (by decide)) (List.cons.inj h2).1
      omega

theorem underscore_notMem_toDigits (n : ℕ) : '_' ∉ Nat.toDigits 16 n := by
  induction n using Nat.strong_induction_on with
  | _ n ih =>
    rw [Nat.toDigits_eq_if (by decide)]
    split
    · rename_i hn
      rw [List.mem_singleton]
      exact fun h => digitChar_ne_underscore n hn h.symm
    · rename_i hn
      rw [List.mem_append, List.mem_singleton]
      rintro (h | h)
      · exact ih (n / 16) (by omega) h
      · exact digitChar_ne_underscore _ (Nat.mod_lt n (by decide)) h.symm

variable (a : Word)

theorem toHex_length_le : (Nat.toDigits 16 a.toNat).length ≤ 8 := by
  rw [Nat.length_toDigits_le_iff (by decide) (by decide)]
  have := a.isLt
  omega

theorem toHex_inj {a b : Word} (h : Nat.toDigits 16 a.toNat = Nat.toDigits 16 b.toNat) : a = b :=
  BitVec.eq_of_toNat_eq (toDigits_inj h)

/-! ## Identifiers -/

/-- The characters of an identifier. -/
def isIdent (c : Char) : Bool := c.isAlphanum || c == '_'

theorem sanitizeIdentifierBody_ident (name : String) :
    ∀ c ∈ (sanitizeIdentifierBody name).toList, isIdent c = true := by
  have hall : ∀ c ∈ name.toList.map (fun c => if c.isAlphanum || c == '_' then c else '_'), isIdent c = true := by
    intro c hc
    obtain ⟨d, -, rfl⟩ := List.mem_map.1 hc
    split
    · assumption
    · rfl
  unfold sanitizeIdentifierBody
  dsimp only
  generalize name.toList.map _ = l at hall
  match l with
  | [] => simp
  | first :: rest =>
    dsimp only
    split
    · rw [String.toList_ofList]
      exact hall
    · rw [String.toList_ofList]
      intro c hc
      rcases List.mem_cons.1 hc with rfl | hc
      · rfl
      · exact hall c hc

theorem ident_append {s t : String} (hs : ∀ c ∈ s.toList, isIdent c = true)
    (ht : ∀ c ∈ t.toList, isIdent c = true) : ∀ c ∈ (s ++ t).toList, isIdent c = true := by
  intro c hc
  rw [String.toList_append] at hc
  rcases List.mem_append.1 hc with hc | hc
  · exact hs c hc
  · exact ht c hc

theorem sanitizeFunctionName_ident (name : String) : ∀ c ∈ (sanitizeFunctionName name).toList, isIdent c = true := by
  unfold sanitizeFunctionName
  dsimp only
  split
  · exact sanitizeIdentifierBody_ident name
  · split
    · exact List.all_eq_true.1 (by decide)
    · split
      · exact ident_append (List.all_eq_true.1 (by decide)) (sanitizeIdentifierBody_ident name)
      · exact sanitizeIdentifierBody_ident name

/-- The name of a function in front of the address. -/
def nameBase (f : Function) : String :=
  if sanitizeFunctionName f.name = "" then "func" else sanitizeFunctionName f.name

/-- The function is named after its start. -/
def namedEntry (f : Function) : Prop := nameBase f = "entry_" ++ toHex f.start

instance (f : Function) : Decidable (namedEntry f) := inferInstanceAs (Decidable (_ = _))

/-- The address in the name. -/
def nameAddress (f : Function) : Word := if namedEntry f then f.endAddr else f.start

theorem nameBase_ident (f : Function) : ∀ c ∈ (nameBase f).toList, isIdent c = true := by
  unfold nameBase
  split
  · exact List.all_eq_true.1 (by decide)
  · exact sanitizeFunctionName_ident _

/-- What stands behind the name: `_0x` and the digits. -/
def hexTail (a : Word) : List Char := '_' :: '0' :: 'x' :: Nat.toDigits 16 a.toNat

theorem makeName_eq (f : Function) : makeName f = nameBase f ++ "_0x" ++ toHex (nameAddress f) := by
  unfold nameAddress
  split
  · rename_i h
    exact if_pos h
  · rename_i h
    exact if_neg h

theorem makeName_toList (f : Function) : (makeName f).toList = (nameBase f).toList ++ hexTail (nameAddress f) := by
  rw [makeName_eq, String.toList_append, String.toList_append, toHex, String.toList_ofList,
    String.toList_ofList, List.append_assoc]
  rfl

theorem digitChar_ident : ∀ n < 16, isIdent (Nat.digitChar n) = true := by decide

theorem toDigits_ident (n : ℕ) : ∀ c ∈ Nat.toDigits 16 n, isIdent c = true := by
  induction n using Nat.strong_induction_on with
  | _ n ih =>
    intro c hc
    rw [Nat.toDigits_eq_if (by decide)] at hc
    split at hc
    · rename_i hn
      rw [List.mem_singleton.1 hc]
      exact digitChar_ident n hn
    · rename_i hn
      rcases List.mem_append.1 hc with hc | hc
      · exact ih (n / 16) (by omega) c hc
      · rw [List.mem_singleton.1 hc]
        exact digitChar_ident _ (Nat.mod_lt n (by decide))

theorem makeName_ident (f : Function) : ∀ c ∈ (makeName f).toList, isIdent c = true := by
  intro c hc
  rw [makeName_toList] at hc
  rcases List.mem_append.1 hc with hc | hc
  · exact nameBase_ident f c hc
  · unfold hexTail at hc
    simp only [List.mem_cons] at hc
    rcases hc with rfl | rfl | rfl | hc
    · rfl
    · rfl
    · rfl
    · exact toDigits_ident _ c hc

theorem append_underscore_inj {x y t u : List Char} (ht : '_' ∉ t) (hu : '_' ∉ u)
    (h : x ++ '_' :: t = y ++ '_' :: u) : x = y ∧ t = u := by
  have htail : ∀ {x t : List Char}, '_' ∉ t →
      (x ++ '_' :: t).reverse.takeWhile (· != '_') = t.reverse := by
    intro x t ht
    rw [List.reverse_append, List.reverse_cons, List.append_assoc, List.singleton_append, List.takeWhile_append_of_pos]
    · simp
    · intro c hc
      rw [List.mem_reverse] at hc
      refine bne_iff_ne.2 ?_
      rintro rfl
      exact ht hc
  have hrev : t.reverse = u.reverse := by rw [← htail ht (x := x), h, htail hu]
  have htu := List.reverse_inj.1 hrev
  rw [htu] at h
  exact ⟨List.append_cancel_right h, htu⟩

theorem underscore_notMem_digits : '_' ∉ '0' :: 'x' :: Nat.toDigits 16 a.toNat := by
  intro h
  simp only [List.mem_cons] at h
  rcases h with h | h | h
  · cases h
  · cases h
  · exact underscore_notMem_toDigits _ h

theorem append_hexTail_inj {x y : List Char} {a b : Word} (h : x ++ hexTail a = y ++ hexTail b) : x = y ∧ a = b := by
  obtain ⟨hx, ht⟩ := append_underscore_inj (underscore_notMem_digits a) (underscore_notMem_digits b) h
  exact ⟨hx, toHex_inj (List.cons.inj (List.cons.inj ht).2).2⟩

/-! ## File names -/

theorem rfind_none {pat : List Char} (hp : pat.head? = some '_') {l : List Char} (h : '_' ∉ l) :
    rfind pat l = none := by
  induction l with
  | nil =>
    cases pat with
    | nil => cases hp
    | cons => rfl
  | cons c l ih =>
    rw [List.mem_cons, not_or] at h
    unfold rfind
    rw [ih h.2]
    cases pat with
    | nil => cases hp
    | cons d pat =>
      simp only [List.head?_cons, Option.some.injEq] at hp
      simp [List.isPrefixOf, hp, h.1]

theorem rfind_append {pat l : List Char} {i : ℕ} (h : rfind pat l = some i) (x : List Char) :
    rfind pat (x ++ l) = some (x.length + i) := by
  induction x with
  | nil => simpa using h
  | cons c x ih =>
    rw [List.cons_append, rfind, ih, List.length_cons]
    simp only [Option.some.injEq]
    omega

theorem rfind_hexTail (x : List Char) (a : Word) : rfind ['_', '0', 'x'] (x ++ hexTail a) = some x.length := by
  have h : rfind ['_', '0', 'x'] (hexTail a) = some 0 := by
    unfold hexTail
    rw [rfind, rfind_none rfl (underscore_notMem_digits a)]
    rfl
  exact rfind_append h x

theorem hexTail_length : (hexTail a).length ≤ 11 := by
  have := toHex_length_le a
  unfold hexTail
  simp only [List.length_cons]
  omega

theorem clamp_toList {name : String} {x : List Char} {a : Word} (h : name.toList = x ++ hexTail a) :
    (clampFilenameLength name ".cpp" 100).toList = x.take (96 - (hexTail a).length) ++ hexTail a ++ ".cpp".toList := by
  have hlen : name.length = x.length + (hexTail a).length := by
    rw [← String.length_toList, h, List.length_append]
  have htail := hexTail_length a
  have hcpp : ".cpp".length = 4 := rfl
  unfold clampFilenameLength
  rw [if_neg (by decide), hcpp, hlen]
  split
  · rw [String.toList_append, h, List.take_of_length_le (by omega)]
  · dsimp only
    rw [h, rfind_hexTail, Option.getD_some, List.take_left, List.drop_left]
    have havail : (100 + 2 ^ 64 - 4 - (hexTail a).length) % 2 ^ 64 = 96 - (hexTail a).length := by
      omega
    rw [havail, if_neg (by omega), String.toList_append, String.toList_append, String.toList_ofList,
      String.toList_ofList]

/-- An identifier is kept in a file name. -/
theorem map_safe {l : List Char} (h : ∀ c ∈ l, isIdent c = true) :
    l.map (fun c => if isUnsafeInFilename c then '_' else c) = l := by
  have hbad : ∀ c ∈ ['/', '\x5c', ':', '*', '?', '\x22', '<', '>', '|', '$'], isIdent c = false := by
    intro c hc
    have hall : ['/', '\x5c', ':', '*', '?', '\x22', '<', '>', '|', '$'].all (!isIdent ·) = true := by
      decide
    simpa using List.all_eq_true.1 hall c hc
  have hid : ∀ c ∈ l, (if isUnsafeInFilename c then '_' else c) = c := by
    intro c hc
    have hc' := h c hc
    rw [if_neg]
    intro hu
    rw [hbad c (of_decide_eq_true hu)] at hc'
    cases hc'
  rw [List.map_congr_left hid, List.map_id']

theorem getOutputPath_toList {functionRenames : List (Word × String)} {f : Function}
    (h : functionRenames.lookup f.start = some (makeName f)) :
    (getOutputPath functionRenames f).toList =
      (nameBase f).toList.take (96 - (hexTail (nameAddress f)).length) ++ hexTail (nameAddress f) ++ ".cpp".toList := by
  have hne := makeName_ne_empty f
  have hnil : (makeName f).toList ≠ [] := fun hn => hne (String.toList_eq_nil_iff.1 hn)
  unfold getOutputPath
  simp only [h, Option.getD_some, ne_eq, hne, not_false_eq_true, if_true, false_and, if_false,
    map_safe (makeName_ident f), hnil, String.ofList_toList]
  exact clamp_toList (makeName_toList f)

/-! ## Collisions -/

/-- `f` is called `entry_` and its start, and ends where a function of the same name starts. -/
def Collides (f g : Function) : Prop :=
  namedEntry f ∧ g.start = f.endAddr ∧ nameBase g = nameBase f

instance (f g : Function) : Decidable (Collides f g) := inferInstanceAs (Decidable (_ ∧ _ ∧ _))

theorem entry_toList : ("entry_" ++ toHex a).toList =
    'e' :: 'n' :: 't' :: 'r' :: 'y' :: '_' :: Nat.toDigits 16 a.toNat := by
  have he : "entry_".toList = ['e', 'n', 't', 'r', 'y', '_'] := rfl
  rw [String.toList_append, he, toHex, String.toList_ofList]
  rfl

variable {f g : Function}

theorem namedEntry_start (hf : namedEntry f) (hg : namedEntry g) (h : nameBase f = nameBase g) : f.start = g.start := by
  unfold namedEntry at hf hg
  rw [hf, hg] at h
  have h' := congrArg String.toList h
  rw [entry_toList, entry_toList] at h'
  simp only [List.cons.injEq, true_and] at h'
  exact toHex_inj h'

theorem nameBase_length {f : Function} (hf : namedEntry f) : (nameBase f).toList.length ≤ 14 := by
  have := toHex_length_le f.start
  unfold namedEntry at hf
  rw [hf, entry_toList]
  simp only [List.length_cons]
  omega

/-- Two functions with one name for their files. -/
theorem collides_of_path (hne : f.start ≠ g.start)
    (h : (nameBase f).toList.take (96 - (hexTail (nameAddress f)).length) ++ hexTail (nameAddress f) ++ ".cpp".toList =
      (nameBase g).toList.take (96 - (hexTail (nameAddress g)).length) ++
        hexTail (nameAddress g) ++ ".cpp".toList) : Collides f g ∨ Collides g f := by
  obtain ⟨hbase, haddr⟩ := append_hexTail_inj (List.append_cancel_right h)
  rw [haddr] at hbase
  have htail := hexTail_length (nameAddress g)
  -- a short name in full is the beginning of no longer one, if both have one length
  have hfull : ∀ {x y : String} {n : ℕ}, x.toList.length ≤ 14 → 14 < n →
      x.toList.take n = y.toList.take n → y = x := by
    intro x y n hx hn hxy
    have hlen := congrArg List.length hxy
    rw [List.length_take, List.length_take] at hlen
    rw [List.take_of_length_le (by omega), List.take_of_length_le (by omega)] at hxy
    exact String.toList_inj.1 hxy.symm
  unfold nameAddress at haddr
  by_cases hf : namedEntry f
  · by_cases hg : namedEntry g
    · have := hfull (nameBase_length hf) (by omega) hbase
      exact absurd (namedEntry_start hg hf this).symm hne
    · rw [if_pos hf, if_neg hg] at haddr
      exact .inl ⟨hf, haddr.symm, hfull (nameBase_length hf) (by omega) hbase⟩
  · by_cases hg : namedEntry g
    · rw [if_neg hf, if_pos hg] at haddr
      exact .inr ⟨hg, haddr, hfull (nameBase_length hg) (by omega) hbase.symm⟩
    · rw [if_neg hf, if_neg hg] at haddr
      exact absurd haddr hne

theorem Collides.makeName (h : Collides f g) (hne : f.start ≠ g.start) :
    Ps2Recomp.makeName f = Ps2Recomp.makeName g := by
  obtain ⟨hf, hg, hb⟩ := h
  have hng : ¬ namedEntry g := fun hn => hne (namedEntry_start hf hn hb.symm)
  rw [makeName_eq, makeName_eq, hb]
  unfold nameAddress
  rw [if_pos hf, if_neg hng, hg]

/-- The functions that get a name and a file. -/
def outputFunctions (functions : List Function) : List Function :=
  functions.filter Recompiler.shouldGenerateCodeForFunction

/-- The names that `generateOutput` assigns. -/
def renames (functions : List Function) : List (Word × String) :=
  (outputFunctions functions).map fun f => (f.start, makeName f)

theorem lookup_renames {functions : List Function} (hs : (functions.map (·.start)).Nodup) {f : Function}
    (hf : f ∈ outputFunctions functions) : (renames functions).lookup f.start = some (makeName f) := by
  refine Recompiler.lookup_of_nodup ?_ (List.mem_map.2 ⟨f, hf, rfl⟩)
  rw [renames, List.map_map]
  exact hs.sublist ((List.filter_sublist).map _)

/-- No two functions share an identifier, and no two share a file. -/
def NamesDistinct (functions : List Function) : Prop :=
  ((renames functions).map (·.2)).Nodup ∧ ((outputFunctions functions).map (getOutputPath (renames functions))).Nodup

/-- **Names and files are distinct** unless two functions collide. -/
theorem names_distinct_iff {functions : List Function}
    (hs : (functions.map (·.start)).Nodup) :
    NamesDistinct functions ↔
      ∀ f ∈ outputFunctions functions, ∀ g ∈ outputFunctions functions, f.start ≠ g.start → ¬ Collides f g := by
  have hout : ((outputFunctions functions).map (·.start)).Nodup :=
    hs.sublist (List.filter_sublist.map _)
  have hnd : (outputFunctions functions).Nodup := List.Nodup.of_map _ hout
  have hnames : (renames functions).map (·.2) = (outputFunctions functions).map makeName := by
    rw [renames, List.map_map]
    rfl
  unfold NamesDistinct
  rw [hnames, List.nodup_map_iff_inj_on hnd, List.nodup_map_iff_inj_on hnd]
  constructor
  · rintro ⟨hname, -⟩ f hf g hg hne hc
    exact hne (congrArg _ (hname f hf g hg (hc.makeName hne)))
  · intro hno
    have hpath : ∀ f ∈ outputFunctions functions, ∀ g ∈ outputFunctions functions,
        getOutputPath (renames functions) f = getOutputPath (renames functions) g → f = g := by
      intro f hf g hg h
      by_contra hfg
      have hne : f.start ≠ g.start := fun he => hfg (List.inj_on_of_nodup_map hout hf hg he)
      have h' := congrArg String.toList h
      rw [getOutputPath_toList (lookup_renames hs hf), getOutputPath_toList (lookup_renames hs hg)] at h'
      rcases collides_of_path hne h' with hc | hc
      · exact hno f hf g hg hne hc
      · exact hno g hg f hf hne.symm hc
    refine ⟨fun f hf g hg h => hpath f hf g hg ?_, hpath⟩
    -- one name gives one file
    unfold getOutputPath
    rw [lookup_renames hs hf, lookup_renames hs hg, h]
    simp [makeName_ne_empty]

/-- Two functions of one name. -/
def twins (a b : Function) : List Function :=
  [{ a with isRecompiled := true }, { b with isRecompiled := true }]

theorem init_twins_distinct :
    NamesDistinct (twins { name := "init", start := 0x100, endAddr := 0x200 }
      { name := "init", start := 0x200, endAddr := 0x300 }) := by
  refine (names_distinct_iff (by decide)).2 ?_
  decide

/-- **A collision**: the first `entry_100` is named after its end, the second after its start. -/
theorem entry_twins_not_distinct :
    ¬ NamesDistinct (twins { name := "entry_100", start := 0x100, endAddr := 0x200 }
      { name := "entry_100", start := 0x200, endAddr := 0x300 }) := by
  rintro ⟨hnames, -⟩
  have hc : Collides { name := "entry_100", start := 0x100, endAddr := 0x200, isRecompiled := true }
      { name := "entry_100", start := 0x200, endAddr := 0x300, isRecompiled := true } := by decide
  have hsame := hc.makeName (by decide)
  simp [twins, renames, outputFunctions, Recompiler.shouldGenerateCodeForFunction] at hnames
  exact hnames hsame

end Ps2Recomp
