import Ps2Recomp.Spec.Instruction

/-!
# Names of generated functions

Identifier sanitising (`code_generator.cpp`, `ps2_recompiler.cpp`) and the names
`generateOutput` gives the functions it emits. A name is a list of one-byte
characters; the character classes are those of the C locale.
-/

namespace Ps2Recomp

/-- `kKeywords`. -/
def kKeywords : List String :=
  ["alignas", "alignof", "and", "and_eq", "asm", "auto", "bitand", "bitor", "bool",
    "break", "case", "catch", "char", "char8_t", "char16_t", "char32_t", "class",
    "compl", "concept", "const", "consteval", "constexpr", "constinit", "const_cast",
    "continue", "co_await", "co_return", "co_yield", "decltype", "default", "delete",
    "do", "double", "dynamic_cast", "else", "enum", "explicit", "export", "extern",
    "false", "float", "for", "friend", "goto", "if", "inline", "int", "long", "mutable",
    "namespace", "new", "noexcept", "not", "not_eq", "nullptr", "operator", "or", "or_eq",
    "private", "protected", "public", "register", "reinterpret_cast", "requires", "return",
    "short", "signed", "sizeof", "static", "static_assert", "static_cast", "struct",
    "switch", "template", "this", "thread_local", "throw", "true", "try", "typedef",
    "typeid", "typename", "union", "unsigned", "using", "virtual", "void", "volatile",
    "wchar_t", "while", "xor", "xor_eq"]

/-- `std::hex` output: lower case, no leading zeros. -/
def toHex (a : Word) : String := String.ofList (Nat.toDigits 16 a.toNat)

/-- `sanitizeIdentifierBody`. -/
def sanitizeIdentifierBody (name : String) : String :=
  let sanitized := name.toList.map (fun c => if c.isAlphanum || c == '_' then c else '_')
  match sanitized with
  | [] => ""
  | first :: rest =>
    if first.isAlpha || first == '_' then String.ofList (first :: rest)
    else String.ofList ('_' :: first :: rest)

/-- `isReservedCxxIdentifier`. -/
def isReservedCxxIdentifier (name : String) : Bool :=
  match name.toList with
  | '_' :: c :: _ => c == '_' || c.isUpper
  | _ => false

/-- `PS2Recompiler::sanitizeFunctionName`. -/
def sanitizeFunctionName (name : String) : String :=
  let sanitized := sanitizeIdentifierBody name
  if sanitized = "" then sanitized
  else if sanitized = "main" then "ps2_main"
  else if sanitized ∈ kKeywords ∨ isReservedCxxIdentifier sanitized then "ps2_" ++ sanitized
  else sanitized

/-- `CodeGenerator::sanitizeFunctionName`, for the names of symbols. -/
def sanitizeSymbolName (name : String) : String :=
  let sanitized := sanitizeIdentifierBody name
  if sanitized = "" then sanitized
  else if sanitized = "main" then "ps2_main"
  else if sanitized ∈ kKeywords then "ps2_" ++ sanitized
  else if sanitized.toList.head? = some '_' then "ps2" ++ sanitized
  else if !isReservedCxxIdentifier sanitized then sanitized
  else "ps2_" ++ sanitized

/-- `makeName` of `generateOutput`. -/
def makeName (f : Function) : String :=
  let sanitized := if sanitizeFunctionName f.name = "" then "func" else sanitizeFunctionName f.name
  if sanitized = "entry_" ++ toHex f.start then sanitized ++ "_0x" ++ toHex f.endAddr
  else sanitized ++ "_0x" ++ toHex f.start

theorem makeName_ne_empty (f : Function) : makeName f ≠ "" := by
  intro h
  have h' := congrArg String.length h
  unfold makeName at h'
  simp only at h'
  split_ifs at h' <;> simp [String.length_append] at h'

/-! ## File names -/

/-- `std::string::rfind`: where the last copy of `pat` starts. -/
def rfind (pat : List Char) : List Char → Option ℕ
  | [] => if pat = [] then some 0 else none
  | c :: cs =>
    match rfind pat cs with
    | some i => some (i + 1)
    | none => if pat.isPrefixOf (c :: cs) then some 0 else none

/-- `clampFilenameLength`. The subtraction is one of `std::size_t`. -/
def clampFilenameLength (baseName extension : String) (maxLength : ℕ) : String :=
  if maxLength = 0 then baseName ++ extension
  else if baseName.length + extension.length ≤ maxLength then baseName ++ extension
  else
    let suffixPos := (rfind ['_', '0', 'x'] baseName.toList).getD baseName.length
    let namePart := baseName.toList.take suffixPos
    let preservedSuffix := baseName.toList.drop suffixPos
    let available := (maxLength + 2 ^ 64 - extension.length - preservedSuffix.length) % 2 ^ 64
    if available = 0 then String.ofList preservedSuffix ++ extension
    else String.ofList (namePart.take available) ++ String.ofList preservedSuffix ++ extension

/-- The characters that file names do not keep. -/
def isUnsafeInFilename (c : Char) : Bool :=
  c ∈ ['/', '\x5c', ':', '*', '?', '\x22', '<', '>', '|', '$']

/-- The file name in `getOutputPath`, with the names that `generateOutput` assigned. -/
def getOutputPath (functionRenames : List (Word × String)) (f : Function) : String :=
  let renamed := (functionRenames.lookup f.start).getD ""
  let safeName := if renamed ≠ "" then renamed else sanitizeFunctionName f.name
  let safeName := safeName.toList.map fun c => if isUnsafeInFilename c then '_' else c
  let safeName := if safeName = [] then ("func_" ++ toHex f.start).toList else safeName
  let suffixText := ("_0x" ++ toHex f.start).toList
  let safeName :=
    if renamed = "" ∧ !suffixText.isSuffixOf safeName then safeName ++ suffixText else safeName
  clampFilenameLength (String.ofList safeName) ".cpp" 100

end Ps2Recomp
