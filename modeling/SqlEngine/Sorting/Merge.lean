/-! Insertion and merging. A list is sorted by a test `less` that need not be an order: integers are
compared exactly and reals are not, so three rows may each come before the next. What such a test
makes of a list depends on which elements meet, so every step here fixes that too. A merge from both
ends may find that the test is no order; then the whole sort breaks off without an answer. -/

namespace SqlEngine.Sorting

variable {α : Type} (less : α → α → Bool)

def place (descending : List α) (x : α) : List α :=
  match descending with
  | [] => [x]
  | y :: ys => if less x y then y :: place ys x else x :: y :: ys

def insertAll (sorted xs : List α) : List α := (xs.foldl (place less) sorted.reverse).reverse

def insertionSort (xs : List α) : List α := insertAll less [] xs

def sortFour (v w x y : α) : List α :=
  let (a, b) := if less w v then (w, v) else (v, w)
  let (c, d) := if less y x then (y, x) else (x, y)
  let least := if less c a then c else a
  let greatest := if less d b then b else d
  let left := if less c a then a else if less d b then c else b
  let right := if less d b then d else if less c a then b else c
  if less right left then [least, right, left, greatest] else [least, left, right, greatest]

def interleave (before : α → α → Bool) : (left right : List α) → List α
  | left, [] => left
  | left, y :: right =>
    left.takeWhile (before · y) ++ y :: interleave before (left.dropWhile (before · y)) right

theorem interleave_eq (before : α → α → Bool) (left right : List α) :
    interleave before left right = left.merge right before := by
  induction right generalizing left with
  | nil => simp [interleave]
  | cons y ys ih =>
    induction left with
    | nil => simp [interleave, ih]
    | cons x xs others =>
      rw [List.cons_merge_cons, ← others]
      cases first : before x y <;> simp [interleave, first, ih]

def merge (left right : List α) : List α := interleave (fun a b => !less b a) left right

theorem merge_cons_cons (a b : α) (left right : List α) :
    merge less (a :: left) (b :: right) =
      if !less b a then a :: merge less left (b :: right) else b :: merge less (a :: left) right := by
  simp only [merge, interleave_eq, List.cons_merge_cons]

def mergeDown (left right : List α) : List α :=
  (interleave (fun b a => !less b a) right.reverse left.reverse).reverse

def mergeShorter (left right : List α) : List α :=
  if left.length ≤ right.length then merge less left right else mergeDown less left right

/-- Merges two sorted lists from both ends towards the middle, where one element may be left over.
The two ends overlap only if `less` is not an order, and then there is no answer. -/
def mergeInward (left right : List α) : Option (List α) :=
  let half := (left.length + right.length) / 2
  let lefts := left.map fun a => (a, true)
  let rights := right.map fun b => (b, false)
  let front := (interleave (fun a b => !less b.1 a.1) lefts rights).take half
  let back := (interleave (fun b a => !less b.1 a.1) rights.reverse lefts.reverse).take half
  let i := front.countP (·.2)
  let j := back.countP (·.2)
  if i + j ≤ left.length && (half - i) + (half - j) ≤ right.length then
    some (front.map (·.1) ++ (left.take (left.length - j)).drop i ++
      (right.take (right.length - (half - j))).drop (half - i) ++ (back.map (·.1)).reverse)
  else none

def sortHalf (xs : List α) : List α :=
  match xs with
  | v :: w :: x :: y :: rest => insertAll less (sortFour less v w x y) rest
  | xs => insertionSort less xs

def smallSort (xs : List α) : Option (List α) :=
  let left := xs.take (xs.length / 2)
  let right := xs.drop (xs.length / 2)
  if xs.length < 2 then some xs
  else if xs.length < 8 then mergeInward less (insertionSort less left) (insertionSort less right)
  else mergeInward less (sortHalf less left) (sortHalf less right)

def smallLength : Nat := 32

end SqlEngine.Sorting
