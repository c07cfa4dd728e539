import SqlEngine.Sorting.Run

/-! Stable sorting of lists of any length: by insertion, by runs, and by partition where no runs are
to be found. -/

namespace SqlEngine.Sorting

variable {α : Type} (less : α → α → Bool)

def lessAt (xs : Array α) (i j : Nat) : Bool :=
  match xs[i]?, xs[j]? with
  | some a, some b => less a b
  | _, _ => false

def median (xs : Array α) (i j k : Nat) : Nat :=
  let least := lessAt less xs i j
  if least == lessAt less xs i k then
    if lessAt less xs j k != least then k else j
  else i

/-- The median of three places, each of which is first replaced by the median of three places among
the `n` elements from there on, if there are enough of them. -/
def spreadMedian (xs : Array α) (n i j k : Nat) : Nat :=
  if 8 ≤ n then
    let m := n / 8
    let among := fun place => spreadMedian xs m place (place + m * 4) (place + m * 7)
    median less xs (among i) (among j) (among k)
  else median less xs i j k
termination_by n
decreasing_by omega

def pivotPlace (xs : List α) : Nat :=
  let n := xs.length / 8
  spreadMedian less xs.toArray n 0 (n * 4) (n * 7)

structure Around (α : Type) where
  before : List α
  pivot : α
  behind : List α

def around? (xs : List α) (i : Nat) : Option (Around α) :=
  match xs.drop i with
  | pivot :: behind => some ⟨xs.take i, pivot, behind⟩
  | [] => none

namespace Around

def lesser (a : Around α) : List α × List α :=
  let left := fun x => less x a.pivot
  let right := fun x => !left x
  (a.before.filter left ++ a.behind.filter left,
    a.before.filter right ++ a.pivot :: a.behind.filter right)

def notGreater (a : Around α) : List α × List α :=
  let right := fun x => less a.pivot x
  let left := fun x => !right x
  (a.before.filter left ++ a.pivot :: a.behind.filter left,
    a.before.filter right ++ a.behind.filter right)

end Around

/-- Sorts by partition, at most `limit` times in a row. `bound` is a pivot that no element is less
than: if the next pivot is equal to it, all elements equal to both are put aside at once. -/
def quickSort : (limit : Nat) → (bound : Option α) → List α → Option (List α)
  | 0, _, xs =>
    if xs.length ≤ smallLength then smallSort less xs
    else sortRuns less true (fun run => some (insertionSort less run)) xs
  | limit + 1, bound, xs =>
    if xs.length ≤ smallLength then smallSort less xs
    else match around? xs (pivotPlace less xs) with
      | none => some xs
      | some a =>
        let (left, right) := a.lesser less
        if bound.any (fun b => !less b a.pivot) || left.isEmpty then do
          let (equal, greater) := a.notGreater less
          return equal ++ (← quickSort limit none greater)
        else do
          return (← quickSort limit bound left) ++ (← quickSort limit (some a.pivot) right)

/-- Sorts a list. Elements of which neither is less than the other stay in their order. There is no
answer if a merge finds that `less` is no order, which may happen to long lists only. -/
def sort (xs : List α) : Option (List α) :=
  if xs.length ≤ 20 then some (insertionSort less xs)
  else
    sortRuns less (xs.length ≤ 2 * smallLength)
      (fun run => quickSort less (2 * run.length.log2) none run) xs

end SqlEngine.Sorting
