import SqlEngine.Proofs.Sorting.Runs
import SqlEngine.Sorting.Sort

/-! A list of any length is sorted, with tied elements in the order in which they stood, if the test
is an order on its elements. -/

namespace SqlEngine.Sorting

variable {α : Type} {less : α → α → Bool} {P : α → Prop}

theorem median_mem (less : α → α → Bool) (xs : Array α) (i j k : Nat) :
    median less xs i j k = i ∨ median less xs i j k = j ∨ median less xs i j k = k := by
  simp only [median]
  split
  · split
    · exact .inr (.inr rfl)
    · exact .inr (.inl rfl)
  · exact .inl rfl

theorem spreadMedian_lt (xs : Array α) {n bound : Nat} (some : 0 < n) {i j k : Nat}
    (hi : i + n ≤ bound) (hj : j + n ≤ bound) (hk : k + n ≤ bound) :
    spreadMedian less xs n i j k < bound := by
  induction n using Nat.strongRecOn generalizing i j k with
  | ind n ih =>
    unfold spreadMedian
    split
    · have among : ∀ place, place + n ≤ bound →
          spreadMedian less xs (n / 8) place (place + n / 8 * 4) (place + n / 8 * 7) < bound :=
        fun place fits => ih (n / 8) (by omega) (by omega) (by omega) (by omega) (by omega)
      rcases median_mem less xs
        (spreadMedian less xs (n / 8) i (i + n / 8 * 4) (i + n / 8 * 7))
        (spreadMedian less xs (n / 8) j (j + n / 8 * 4) (j + n / 8 * 7))
        (spreadMedian less xs (n / 8) k (k + n / 8 * 4) (k + n / 8 * 7)) with same | same | same
      · exact same ▸ among i hi
      · exact same ▸ among j hj
      · exact same ▸ among k hk
    · rcases median_mem less xs i j k with same | same | same <;> omega

theorem around?_pivotPlace (less : α → α → Bool) {xs : List α} (long : smallLength < xs.length) :
    ∃ a, around? xs (pivotPlace less xs) = some a ∧ a.before ++ a.pivot :: a.behind = xs := by
  have long : 32 < xs.length := long
  have there : pivotPlace less xs < xs.length :=
    spreadMedian_lt xs.toArray (by omega) (by omega) (by omega) (by omega)
  obtain ⟨pivot, behind, split⟩ : ∃ pivot behind, xs.drop (pivotPlace less xs) = pivot :: behind :=
    List.exists_cons_of_ne_nil (by simpa using there)
  refine ⟨⟨xs.take (pivotPlace less xs), pivot, behind⟩, by simp [around?, split], ?_⟩
  rw [← split, List.take_append_drop]

section

variable (order : OrderOn less P) {xs : List α} (hx : ∀ x ∈ xs, P x)
include order hx

theorem partition_sorts {p : α → Bool}
    (below : ∀ x ∈ xs, ∀ y ∈ xs, p x = true → p y = false → less x y = true) {ys zs : List α}
    (first : SortOf less P (xs.filter p) ys)
    (second : SortOf less P (xs.filter fun x => !p x) zs) : SortOf less P xs (ys ++ zs) := by
  have parted : Rearranged less P xs (xs.filter p ++ xs.filter fun x => !p x) := by
    refine ⟨List.filter_append_perm p xs, fun a ha => ?_⟩
    simp only [List.filter_append, List.filter_filter]
    -- All elements that are tied to `a` are in the same part.
    by_cases inFirst : ∃ x ∈ xs, tied less a x = true ∧ p x = true
    · obtain ⟨x, listed, same, here⟩ := inFirst
      have only : ∀ y ∈ xs, tied less a y = true → p y = true := by
        intro y hy tie
        by_contra there
        have apart := order.not_tied_of_less ha (hx x listed) (hx y hy) same
          (below x listed y hy here (by simpa using there))
        simp [tie] at apart
      have none : xs.filter (fun y => tied less a y && !p y) = [] := by
        rw [List.filter_eq_nil_iff]
        intro y hy
        cases tie : tied less a y <;> simp [only y hy, tie]
      rw [none, List.append_nil]
      refine List.filter_congr fun y hy => ?_
      cases tie : tied less a y <;> simp [only y hy, tie]
    · simp only [not_exists, not_and, Bool.not_eq_true] at inFirst
      have none : xs.filter (fun y => tied less a y && p y) = [] := by
        rw [List.filter_eq_nil_iff]
        intro y hy
        cases tie : tied less a y <;> simp [inFirst y hy, tie]
      rw [none, List.nil_append]
      refine List.filter_congr fun y hy => ?_
      cases tie : tied less a y <;> simp [inFirst y hy, tie]
  refine ⟨parted.trans (first.toRearranged.append second.toRearranged), ?_⟩
  refine List.pairwise_append.mpr ⟨first.ordered, second.ordered, fun y hy z hz => ?_⟩
  have hy := List.mem_filter.mp (first.perm.mem_iff.mp hy)
  have hz := List.mem_filter.mp (second.perm.mem_iff.mp hz)
  exact order.asymm y z (hx y hy.1) (hx z hz.1) (below y hy.1 z hz.1 hy.2 (by simpa using hz.2))

variable {a : Around α} (whole : a.before ++ a.pivot :: a.behind = xs)
include whole

theorem lesser_eq : a.lesser less =
    (xs.filter fun x => less x a.pivot, xs.filter fun x => !less x a.pivot) := by
  have own := order.irrefl (hx a.pivot (by simp [← whole]))
  simp [Around.lesser, ← whole, own]

theorem notGreater_eq : a.notGreater less =
    (xs.filter fun x => !less a.pivot x, xs.filter fun x => less a.pivot x) := by
  have own := order.irrefl (hx a.pivot (by simp [← whole]))
  simp [Around.notGreater, ← whole, own]

theorem notGreater_sorts (least : ∀ x ∈ xs, less x a.pivot = false) {ys : List α}
    (greater : SortOf less P (xs.filter fun x => less a.pivot x) ys) :
    SortOf less P xs ((xs.filter fun x => !less a.pivot x) ++ ys) := by
  have hp := hx a.pivot (by simp [← whole])
  refine partition_sorts order hx (p := fun x => !less a.pivot x) ?_ (.of_ordered ?_)
    (by simpa using greater)
  · intro x hx' y hy notGreater greater
    exact order.less_of_le_of_less (hx x hx') hp (hx y hy) (by simpa using notGreater)
      (by simpa using greater)
  · refine List.pairwise_iff_forall_sublist.mpr fun {x y} listed => ?_
    have hx' := List.mem_filter.mp (listed.subset (by simp : x ∈ [x, y]))
    have hy := List.mem_filter.mp (listed.subset (by simp : y ∈ [x, y]))
    exact order.trans x a.pivot y (hx x hx'.1) hp (hx y hy.1) (by simpa using hx'.2)
      (least y hy.1)

end

section

variable (order : OrderOn less P)
include order

theorem quickSort_sorts (limit : Nat) (bound : Option α) {xs : List α} (hx : ∀ x ∈ xs, P x)
    (hb : ∀ b ∈ bound, P b ∧ ∀ x ∈ xs, less x b = false) :
    ∃ ys, quickSort less limit bound xs = some ys ∧ SortOf less P xs ys := by
  induction limit generalizing bound xs with
  | zero =>
    unfold quickSort
    split
    · exact smallSort_sorts order hx
    · have inserted : SortsAll less P fun run => some (insertionSort less run) :=
        fun run hr => ⟨_, rfl, insertionSort_sorts order hr⟩
      exact sortRuns_sorts order inserted true xs hx
  | succ limit ih =>
    unfold quickSort
    split
    · exact smallSort_sorts order hx
    · next long =>
      obtain ⟨a, found, whole⟩ := around?_pivotPlace less (Nat.lt_of_not_le long)
      have hp := hx a.pivot (by simp [← whole])
      have among (p : α → Bool) : ∀ x ∈ xs.filter p, P x := fun x h =>
        hx x (List.mem_of_mem_filter h)
      simp only [found, lesser_eq order hx whole, notGreater_eq order hx whole]
      split
      · next put =>
        have least : ∀ x ∈ xs, less x a.pivot = false := by
          rw [Bool.or_eq_true] at put
          rcases put with equal | none
          · -- The pivot is tied to the bound, which no element is less than.
            obtain ⟨b, isBound, same⟩ : ∃ b, bound = some b ∧ (!less b a.pivot) = true := by
              simpa [Option.any_eq_true] using equal
            intro x hx'
            have fromBound := hb b isBound
            exact order.trans a.pivot b x hp fromBound.1 (hx x hx') (by simpa using same)
              (fromBound.2 x hx')
          · simpa [List.filter_eq_nil_iff] using none
        obtain ⟨ys, answered, greater⟩ := ih none (among fun x => less a.pivot x) (by simp)
        exact ⟨_, by simp [answered], notGreater_sorts order hx whole least greater⟩
      · obtain ⟨ys, answered, first⟩ := ih bound (among fun x => less x a.pivot)
          fun b isBound =>
            ⟨(hb b isBound).1, fun x h => (hb b isBound).2 x (List.mem_of_mem_filter h)⟩
        obtain ⟨zs, answered', second⟩ := ih (some a.pivot)
          (among fun x => !less x a.pivot) (by
            rintro b ⟨⟩
            exact ⟨hp, fun x h => by simpa using (List.mem_filter.mp h).2⟩)
        refine ⟨ys ++ zs, by simp [answered, answered'],
          partition_sorts order hx (p := fun x => less x a.pivot) ?_ first second⟩
        intro x hx' y hy lesser greater
        exact order.less_of_less_of_le (hx x hx') hp (hx y hy) lesser (by simpa using greater)

/-- A list is sorted, with tied elements in the order in which they stood. -/
theorem sort_sorts {xs : List α} (hx : ∀ x ∈ xs, P x) :
    ∃ ys, sort less xs = some ys ∧ SortOf less P xs ys := by
  unfold sort
  split
  · exact ⟨_, rfl, insertionSort_sorts order hx⟩
  · exact sortRuns_sorts order (fun run hr => quickSort_sorts order _ none hr (by simp)) _ xs hx

end

end SqlEngine.Sorting
