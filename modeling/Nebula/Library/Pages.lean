import Mathlib.Data.List.Range
import Mathlib.Tactic.Common

/-! A list that is shown page by page: how many pages there are, and what they show together. -/

namespace Pages

variable {α : Type*}

/-- What is on the page of a number, from zero on. -/
def page (size : Nat) (entries : List α) (number : Nat) : List α := (entries.drop (size * number)).take size

end Pages
