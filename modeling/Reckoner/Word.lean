/-!
# Ranges of machine words

The integers that a signed word of 32 or 64 bits holds.
-/

namespace Reckoner

/-- The range of a signed word of 32 bits. -/
def FitsInt32 (n : Int) : Prop := -2147483648 ≤ n ∧ n ≤ 2147483647

instance (n : Int) : Decidable (FitsInt32 n) := inferInstanceAs (Decidable (_ ∧ _))

/-- The range of a signed word of 64 bits. -/
def FitsInt64 (n : Int) : Prop := -9223372036854775808 ≤ n ∧ n ≤ 9223372036854775807

instance (n : Int) : Decidable (FitsInt64 n) := inferInstanceAs (Decidable (_ ∧ _))

end Reckoner
