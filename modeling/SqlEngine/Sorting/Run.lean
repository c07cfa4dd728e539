import SqlEngine.Sorting.Merge

/-! Sorting by runs: a list is cut into runs, sorted ones where it is sorted already, and neighbours
are merged in the order of a balanced tree. -/

namespace SqlEngine.Sorting

structure Run (α : Type) where
  items : List α
  isSorted : Bool

variable {α : Type} (less : α → α → Bool)

def follow (goesOn : α → α → Bool) : (last : α) → List α → List α × List α
  | _, [] => ([], [])
  | last, x :: xs =>
    if goesOn last x then
      let (run, rest) := follow goesOn x xs
      (x :: run, rest)
    else ([], x :: xs)

def naturalRun : List α → List α × List α
  | a :: b :: xs =>
    if less b a then
      let (run, rest) := follow (fun last x => less x last) b xs
      ((a :: b :: run).reverse, rest)
    else
      let (run, rest) := follow (fun last x => !less x last) b xs
      (a :: b :: run, rest)
  | xs => (xs, [])

/-- The first run of a list. A natural run counts if it is long enough; otherwise a short stretch is
sorted at once by the eager, and a long one is left unsorted by others. -/
def nextRun (eager : Bool) (enough : Nat) (xs : List α) : Option (Run α × List α) :=
  let (natural, rest) := naturalRun less xs
  if enough ≤ natural.length then some (⟨natural, true⟩, rest)
  else if eager then
    (smallSort less (xs.take smallLength)).map fun sorted => (⟨sorted, true⟩, xs.drop smallLength)
  else some (⟨xs.take enough, false⟩, xs.drop enough)

def runs (eager : Bool) (enough : Nat) : (fuel : Nat) → List α → Option (List (Run α))
  | _, [] => some []
  | 0, xs => some [⟨xs, false⟩]
  | fuel + 1, xs => do
    let (run, rest) ← nextRun less eager enough xs
    return run :: (← runs eager enough fuel rest)

def enoughFor (total : Nat) : Nat :=
  if total ≤ 4096 then min (total - total / 2) 64
  else
    let root := Nat.pow 2 ((1 + total.log2) / 2)
    (root + total / root) / 2

def Run.finish (sort : List α → Option (List α)) (r : Run α) : Option (List α) :=
  if r.isSorted then some r.items else sort r.items

def Run.join (sort : List α → Option (List α)) (a b : Run α) : Option (Run α) :=
  if a.isSorted || b.isSorted then do
    return ⟨mergeShorter less (← a.finish sort) (← b.finish sort), true⟩
  else some ⟨a.items ++ b.items, false⟩

/-- How deep two neighbouring runs meet in a balanced tree over `total` elements: the first bit in
which the middles of the two runs differ, as fractions of the whole. -/
def meetingDepth (total left middle right : Nat) : Nat :=
  let scale := (0x4000000000000000 + total - 1) / total
  let apart := Nat.xor (scale * (left + middle)) (scale * (middle + right))
  if apart = 0 then 64 else 63 - apart.log2

/-- Joins a run with those waiting before it that meet at `depth` or deeper. A run waits with the
depth at which it meets the one behind it, the nearest run first. -/
def joinWaiting (sort : List α → Option (List α)) (depth : Nat) :
    (waiting : List (Run α × Nat)) → Run α → Option (List (Run α × Nat) × Run α)
  | [], last => some ([], last)
  | (run, meeting) :: waiting, last =>
    if depth ≤ meeting then do joinWaiting sort depth waiting (← run.join less sort last)
    else some ((run, meeting) :: waiting, last)

def mergeRuns (sort : List α → Option (List α)) (total : Nat) : (start : Nat) →
    (waiting : List (Run α × Nat)) → (last : Run α) → (rest : List (Run α)) → Option (List α)
  | _, waiting, last, [] => do
    let (_, joined) ← joinWaiting less sort 0 waiting last
    joined.finish sort
  | start, waiting, last, next :: rest => do
    let middle := start + last.items.length
    let depth := meetingDepth total start middle (middle + next.items.length)
    let (waiting, joined) ← joinWaiting less sort depth waiting last
    mergeRuns sort total middle ((joined, depth) :: waiting) next rest

def sortRuns (eager : Bool) (sort : List α → Option (List α)) (xs : List α) : Option (List α) := do
  match ← runs less eager (enoughFor xs.length) xs.length xs with
  | [] => return []
  | first :: rest => mergeRuns less sort xs.length 0 [] first rest

end SqlEngine.Sorting
