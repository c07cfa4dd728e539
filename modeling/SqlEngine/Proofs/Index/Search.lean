import Mathlib
import SqlEngine.Index.Search

/-! Binary search in an ascending list finds what it looks for, or the only place where it belongs. -/

namespace SqlEngine.Index

variable {α : Type} {side : α → Ordering}

/-- A spot, counted from `base` on, parts the entries that are less than what is looked for from
those that are greater. -/
inductive Spot.Parts (side : α → Ordering) (base : Nat) : List α → Spot → Prop where
  | found (before after : List α) {x : α} (less : ∀ y ∈ before, side y = .lt) (same : side x = .eq)
      (greater : ∀ y ∈ after, side y = .gt) :
      Parts side base (before ++ x :: after) (.found (base + before.length))
  | between (before after : List α) (less : ∀ y ∈ before, side y = .lt)
      (greater : ∀ y ∈ after, side y = .gt) :
      Parts side base (before ++ after) (.between (base + before.length))

theorem Spot.Parts.prepend {base n : Nat} {before xs : List α} {spot : Spot}
    (h : Parts side (base + n) xs spot) (length : before.length = n)
    (less : ∀ y ∈ before, side y = .lt) : Parts side base (before ++ xs) spot := by
  subst length
  cases h with
  | found left right lessMid same greater =>
    have all : Parts side base _ _ :=
      found (before ++ left) right (List.forall_mem_append.mpr ⟨less, lessMid⟩) same greater
    simpa [Nat.add_assoc] using all
  | between left right lessMid greater =>
    have all : Parts side base _ _ :=
      between (before ++ left) right (List.forall_mem_append.mpr ⟨less, lessMid⟩) greater
    simpa [Nat.add_assoc] using all

theorem Spot.Parts.append {base : Nat} {xs after : List α} {spot : Spot}
    (h : Parts side base xs spot) (greater : ∀ y ∈ after, side y = .gt) :
    Parts side base (xs ++ after) spot := by
  cases h with
  | found left right less same greaterMid =>
    rw [List.append_assoc, List.cons_append]
    exact found left _ less same (List.forall_mem_append.mpr ⟨greaterMid, greater⟩)
  | between left right less greaterMid =>
    rw [List.append_assoc]
    exact between left _ less (List.forall_mem_append.mpr ⟨greaterMid, greater⟩)

theorem Spot.Parts.at_child {xs : List α} {spot : Spot} (h : Parts side 0 xs spot) :
    spot.child ≤ xs.length ∧ (∀ y ∈ xs.take spot.child, (side y).isLE = true) ∧
      ∀ y ∈ xs.drop spot.child, side y = .gt := by
  cases h with
  | @found before after x less same greater =>
    have split : before ++ x :: after = (before ++ [x]) ++ after := by simp
    have length : (before ++ [x]).length = 0 + before.length + 1 := by simp
    rw [split, Spot.child, List.take_left' length, List.drop_left' length]
    refine ⟨by simp, ?_, greater⟩
    rw [List.forall_mem_append, List.forall_mem_singleton]
    exact ⟨fun y hy => by rw [less y hy]; rfl, by rw [same]; rfl⟩
  | between before after less greater =>
    have length : before.length = 0 + before.length := by simp
    rw [Spot.child, List.take_left' length, List.drop_left' length]
    exact ⟨by simp, fun y hy => by rw [less y hy]; rfl, greater⟩

def Ascends (side : α → Ordering) (xs : List α) : Prop :=
  xs.Pairwise fun a b => side a = .lt ∨ side b = .gt

theorem Ascends.less_of_getElem {xs : List α} (h : Ascends side xs) {i : Nat} (inside : i < xs.length)
    (notGreater : side xs[i] ≠ .gt) : ∀ y ∈ xs.take i, side y = .lt := by
  intro y hy
  obtain ⟨j, hj, rfl⟩ := List.mem_take_iff_getElem.mp hy
  have before : j < i := by omega
  exact (List.pairwise_iff_getElem.mp h j i (by omega) inside before).resolve_right notGreater

theorem Ascends.greater_of_getElem {xs : List α} (h : Ascends side xs) {i : Nat}
    (inside : i < xs.length) (greater : side xs[i] = .gt) : ∀ y ∈ xs.drop i, side y = .gt := by
  intro y hy
  obtain ⟨j, hj, rfl⟩ := List.mem_drop_iff_getElem.mp hy
  by_cases first : j = 0
  · simpa [first] using greater
  · have after : i < j + i := by omega
    have apart := List.pairwise_iff_getElem.mp h i (j + i) inside hj after
    simp only [Nat.add_comm j i] at apart
    refine apart.resolve_left ?_
    rw [greater]
    nofun

theorem locateFrom_singleton (fuel base : Nat) (x : α) :
    Spot.Parts side base [x] (locateFrom side fuel base [x]) := by
  cases direction : side x with
  | lt =>
    have answer : locateFrom side fuel base [x] = .between (base + 1) := by
      cases fuel <;> simp [locateFrom, direction]
    rw [answer]
    exact .between [x] [] (List.forall_mem_singleton.mpr direction) (List.forall_mem_nil _)
  | eq =>
    have answer : locateFrom side fuel base [x] = .found base := by
      cases fuel <;> simp [locateFrom, direction]
    rw [answer]
    exact .found [] [] (List.forall_mem_nil _) direction (List.forall_mem_nil _)
  | gt =>
    have answer : locateFrom side fuel base [x] = .between base := by
      cases fuel <;> simp [locateFrom, direction]
    rw [answer]
    exact .between [] [x] (List.forall_mem_nil _) (List.forall_mem_singleton.mpr direction)

theorem locateFrom_halves {xs : List α} (many : 2 ≤ xs.length) (fuel base : Nat) :
    locateFrom side (fuel + 1) base xs =
      if side (xs.get ⟨xs.length / 2, by omega⟩) = .gt then
        locateFrom side fuel base (xs.take (xs.length - xs.length / 2))
      else locateFrom side fuel (base + xs.length / 2) (xs.drop (xs.length / 2)) := by
  match xs, many with
  | x :: y :: rest, many =>
    have inside : (x :: y :: rest).length / 2 < (x :: y :: rest).length := by omega
    rw [locateFrom, List.getElem?_eq_getElem inside]
    · rfl
    · nofun
    · nofun

theorem locateFrom_parts {xs : List α} (h : Ascends side xs) {fuel : Nat}
    (enough : xs.length ≤ fuel + 1) (base : Nat) :
    Spot.Parts side base xs (locateFrom side fuel base xs) := by
  induction fuel generalizing base xs with
  | zero =>
    match xs, enough with
    | [], _ => exact .between [] [] nofun nofun
    | [x], _ => exact locateFrom_singleton 0 base x
  | succ fuel ih =>
    by_cases many : 2 ≤ xs.length
    · have inside : xs.length / 2 < xs.length := by omega
      rw [locateFrom_halves many]
      split
      · next greater =>
        -- What is left out stands behind an entry that is greater.
        have left := ih (h.sublist (List.take_sublist (xs.length - xs.length / 2) xs))
          (by rw [List.length_take]; omega) base
        have dropped : ∀ y ∈ xs.drop (xs.length - xs.length / 2), side y = .gt := by
          intro y hy
          refine h.greater_of_getElem inside greater y ?_
          exact (List.drop_sublist_drop_left xs (by omega)).subset hy
        simpa using left.append dropped
      · next notGreater =>
        have length : (xs.take (xs.length / 2)).length = xs.length / 2 := by
          rw [List.length_take]
          omega
        have right := ih (h.sublist (List.drop_sublist (xs.length / 2) xs))
          (by rw [List.length_drop]; omega) (base + xs.length / 2)
        simpa using right.prepend length (h.less_of_getElem inside notGreater)
    · match xs, many with
      | [], _ => exact .between [] [] nofun nofun
      | [x], _ => exact locateFrom_singleton _ base x
      | x :: y :: rest, many => exact absurd (by simp) many

theorem locate_parts {xs : List α} (h : Ascends side xs) :
    Spot.Parts side 0 xs (locate side xs) :=
  locateFrom_parts h (Nat.le_succ _) 0

theorem insertIdx_append {n : Nat} {before : List α} (length : before.length = n) (x : α)
    (after : List α) : (before ++ after).insertIdx n x = before ++ x :: after := by
  subst length
  induction before with
  | nil => rfl
  | cons y rest ih => simp [ih]

end SqlEngine.Index
