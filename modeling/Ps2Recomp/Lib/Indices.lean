import Mathlib.Data.BitVec

/-!
# Instances by name

The sizes of the small index types and the equality of words, as constants: a definition that needs one names it.
-/

namespace Indices

instance neZero_two : NeZero 2 := ⟨by decide⟩

instance neZero_four : NeZero 4 := ⟨by decide⟩

instance neZero_sixteen : NeZero 16 := ⟨by decide⟩

instance neZero_thirtyTwo : NeZero 32 := ⟨by decide⟩

instance lawfulBEq_word : LawfulBEq (BitVec 32) := inferInstance

end Indices
