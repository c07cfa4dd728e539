/-! Keeping the first element for each key. -/

namespace SqlEngine

def firstsBeyond {α κ : Type} [BEq κ] (key : α → κ) : (seen : List κ) → List α → List α
  | _, [] => []
  | seen, a :: rest =>
    if seen.contains (key a) then firstsBeyond key seen rest
    else a :: firstsBeyond key (key a :: seen) rest

/-- The first element for each key, in the order of the list. -/
def firsts {α κ : Type} [BEq κ] (key : α → κ) (xs : List α) : List α := firstsBeyond key [] xs

theorem firstsBeyond_sublist {α κ : Type} [BEq κ] (key : α → κ) (xs : List α) :
    ∀ seen, (firstsBeyond key seen xs).Sublist xs := by
  induction xs with
  | nil => intro seen; exact .slnil
  | cons a rest ih =>
    intro seen
    unfold firstsBeyond
    split
    · exact .cons a (ih seen)
    · exact .cons_cons a (ih (key a :: seen))

theorem firsts_sublist {α κ : Type} [BEq κ] (key : α → κ) (xs : List α) :
    (firsts key xs).Sublist xs := firstsBeyond_sublist key xs []

end SqlEngine
