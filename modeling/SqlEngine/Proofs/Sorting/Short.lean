import SqlEngine.Proofs.Sorting.Stable

/-! Sorting of short lists: four elements by a fixed set of comparisons, and two halves that are
merged from both ends. -/

namespace SqlEngine.Sorting

variable {α : Type} {less : α → α → Bool} {P : α → Prop}

theorem filter_interleave {le : α → α → Bool} {p : α → Bool} {left right : List α}
    (hl : ∀ a ∈ left, p a = true) (hr : ∀ b ∈ right, p b = false) :
    (interleave le left right).filter p = left ∧
      (interleave le left right).filter (fun a => !p a) = right := by
  rw [interleave_eq]
  induction left generalizing right with
  | nil =>
    rw [List.nil_merge]
    exact ⟨List.filter_eq_nil_iff.mpr (by simpa using hr),
      List.filter_eq_self.mpr (by simpa using hr)⟩
  | cons a left ihLeft =>
    induction right with
    | nil =>
      rw [List.merge_right]
      exact ⟨List.filter_eq_self.mpr hl, List.filter_eq_nil_iff.mpr (by simpa using hl)⟩
    | cons b right ihRight =>
      have lefts := List.forall_mem_cons.mp hl
      have rights := List.forall_mem_cons.mp hr
      rw [List.cons_merge_cons]
      split
      · simp [lefts.1, ihLeft lefts.2 hr]
      · simp [rights.1, ihRight rights.2]

theorem filter_append_filter_not {xs : List α} (short : xs.length ≤ 1) (p : α → Bool) :
    xs.filter p ++ xs.filter (fun a => !p a) = xs := by
  match xs, short with
  | [], _ => rfl
  | [a], _ => cases h : p a <;> simp [h]

theorem take_drop_between (first middle last : List α) :
    ((first ++ middle ++ last).take ((first ++ middle ++ last).length - last.length)).drop
      first.length = middle := by
  rw [List.length_append, Nat.add_sub_cancel, List.take_left, List.drop_left]

def ofSide (side : Bool) (xs : List (α × Bool)) : List α :=
  (xs.filter fun a => a.2 == side).map (·.1)

theorem ofSide_append (side : Bool) (xs ys : List (α × Bool)) :
    ofSide side (xs ++ ys) = ofSide side xs ++ ofSide side ys := by
  simp [ofSide]

theorem length_ofSide (xs : List (α × Bool)) :
    (ofSide true xs).length = xs.countP (·.2) ∧
      (ofSide false xs).length = xs.length - xs.countP (·.2) := by
  have total := List.length_eq_countP_add_countP (·.2) (l := xs)
  simp only [ofSide, List.length_map, ← List.countP_eq_length_filter]
  refine ⟨by simp, ?_⟩
  rw [total, Nat.add_sub_cancel_left]
  simp

/-- Equally many elements are taken from both ends, and what is left over of either side stands
between them. -/
theorem assemble {first middle last : List (α × Bool)} (short : middle.length ≤ 1)
    (same : last.length = first.length) :
    let left := ofSide true (first ++ middle ++ last)
    let right := ofSide false (first ++ middle ++ last)
    let i := first.countP (·.2)
    let j := last.reverse.countP (·.2)
    (i + j ≤ left.length ∧ (first.length - i) + (first.length - j) ≤ right.length) ∧
      first.map (·.1) ++ (left.take (left.length - j)).drop i ++
        (right.take (right.length - (first.length - j))).drop (first.length - i) ++
        (last.reverse.map (·.1)).reverse = (first ++ middle ++ last).map (·.1) := by
  intro left right i j
  have lefts : left = ofSide true first ++ ofSide true middle ++ ofSide true last := by
    rw [← ofSide_append, ← ofSide_append]
  have rights : right = ofSide false first ++ ofSide false middle ++ ofSide false last := by
    rw [← ofSide_append, ← ofSide_append]
  have count : i = (ofSide true first).length := (length_ofSide first).1.symm
  have count' : j = (ofSide true last).length := by
    rw [(length_ofSide last).1]
    exact List.countP_reverse
  have rest : first.length - i = (ofSide false first).length := (length_ofSide first).2.symm
  have rest' : first.length - j = (ofSide false last).length := by
    rw [(length_ofSide last).2, same, count', (length_ofSide last).1]
  -- At most one element is in the middle, so one of its sides is empty.
  have together : ofSide true middle ++ ofSide false middle = middle.map (·.1) := by
    have apart := filter_append_filter_not short (·.2)
    rw [← congrArg (List.map (·.1)) apart, List.map_append]
    simp [ofSide]
  constructor
  · rw [rest, rest', count, count', lefts, rights]
    simp only [List.length_append]
    omega
  · rw [rest, rest', count, count', lefts, rights, take_drop_between, take_drop_between,
      List.map_reverse, List.reverse_reverse, List.append_assoc (first.map _), together,
      List.map_append, List.map_append]

def sidedMerge (less : α → α → Bool) (left right : List α) : List (α × Bool) :=
  merge (fun a b => less a.1 b.1) (left.map fun a => (a, true)) (right.map fun b => (b, false))

theorem sidedMerge_elements (less : α → α → Bool) (left right : List α) :
    (sidedMerge less left right).map (·.1) = merge less left right := by
  have plain : (sidedMerge less left right).map (·.1) =
      merge less ((left.map fun a => (a, true)).map (·.1))
        ((right.map fun b => (b, false)).map (·.1)) := by
    rw [sidedMerge, merge, merge, interleave_eq, interleave_eq]
    exact List.map_merge fun _ _ _ _ => rfl
  simpa [Function.comp_def] using plain

theorem sidedMerge_sides (less : α → α → Bool) (left right : List α) :
    ofSide true (sidedMerge less left right) = left ∧
      ofSide false (sidedMerge less left right) = right := by
  have apart : (sidedMerge less left right).filter (·.2) = left.map (fun a => (a, true)) ∧
      (sidedMerge less left right).filter (fun a => !a.2) = right.map fun b => (b, false) :=
    filter_interleave (by simp) (by simp)
  have sides := And.intro (congrArg (List.map (·.1)) apart.1) (congrArg (List.map (·.1)) apart.2)
  simpa [ofSide, Function.comp_def] using sides

theorem sidedMerge_reverse (order : OrderOn less P) {left right : List α} (hl : ∀ a ∈ left, P a)
    (hr : ∀ b ∈ right, P b) (ordered : Ordered less left) (ordered' : Ordered less right) :
    interleave (fun b a => !less b.1 a.1) (right.map fun b => (b, false)).reverse
      (left.map fun a => (a, true)).reverse = (sidedMerge less left right).reverse := by
  have sided := order.comap (Prod.fst : α × Bool → α)
  have lefts : ∀ a ∈ left.map fun a => (a, true), P a.1 := by simpa using hl
  have rights : ∀ b ∈ right.map fun b => (b, false), P b.1 := by simpa using hr
  have down := mergeDown_sorts sided lefts rights (List.pairwise_map.mpr ordered)
    (List.pairwise_map.mpr ordered')
  have front := merge_sorts sided lefts rights (List.pairwise_map.mpr ordered)
    (List.pairwise_map.mpr ordered')
  have same := down.unique sided (List.forall_mem_append.mpr ⟨lefts, rights⟩) front
  rw [sidedMerge, ← same, mergeDown, List.reverse_reverse]

theorem split_halves (xs : List α) : ∃ first middle last, first ++ middle ++ last = xs ∧
    middle.length ≤ 1 ∧ first.length = xs.length / 2 ∧ last.length = xs.length / 2 ∧
      first = xs.take (xs.length / 2) ∧ last.reverse = xs.reverse.take (xs.length / 2) := by
  have front : xs.take (xs.length / 2) =
      (xs.take (xs.length - xs.length / 2)).take (xs.length / 2) := by
    rw [List.take_take, Nat.min_eq_left (by omega)]
  refine ⟨xs.take (xs.length / 2), (xs.take (xs.length - xs.length / 2)).drop (xs.length / 2),
    xs.drop (xs.length - xs.length / 2), ?_, ?_, ?_, ?_, rfl, List.take_reverse.symm⟩
  · rw [front, List.take_append_drop, List.take_append_drop]
  · rw [List.length_drop, List.length_take]
    omega
  · rw [List.length_take]
    omega
  · rw [List.length_drop]
    omega

theorem mergeInward_eq (order : OrderOn less P) {left right : List α} (hl : ∀ a ∈ left, P a)
    (hr : ∀ b ∈ right, P b) (ordered : Ordered less left) (ordered' : Ordered less right) :
    mergeInward less left right = some (merge less left right) := by
  have total : (sidedMerge less left right).length = left.length + right.length := by
    rw [← List.length_map (·.1), sidedMerge_elements, merge, interleave_eq, List.length_merge]
  obtain ⟨first, middle, last, whole, short, half, half', front, back⟩ :=
    split_halves (sidedMerge less left right)
  have assembled := assemble short (half'.trans half.symm)
  simp only [whole, sidedMerge_sides, sidedMerge_elements, half] at assembled
  rw [front, back, ← sidedMerge_reverse order hl hr ordered ordered', total] at assembled
  obtain ⟨enough, assembled⟩ := assembled
  refine Eq.trans (if_pos ?_) (congrArg some assembled)
  rw [Bool.and_eq_true, decide_eq_true_eq, decide_eq_true_eq]
  exact enough

section

variable (order : OrderOn less P)
include order

theorem pair_sorts {v w a b : α} (hv : P v) (hw : P w)
    (pair : (if less w v then (w, v) else (v, w)) = (a, b)) :
    Rearranged less P [v, w] [a, b] ∧ less b a = false ∧ P a ∧ P b := by
  split at pair
  · next below =>
    cases pair
    refine ⟨?_, order.asymm w v hw hv below, hw, hv⟩
    exact Rearranged.exchange [v] [w] order (by simpa using hv) (by simpa using hw)
      (by simpa using below)
  · next above =>
    cases pair
    exact ⟨.refl _, by simpa using above, hv, hw⟩

variable {a b c d : α} (ha : P a) (hb : P b) (hc : P c) (hd : P d)
include ha hb hc hd

theorem ordered_four (ab : less b a = false) (bc : less c b = false) (cd : less d c = false) :
    Ordered less [a, b, c, d] := by
  have ac := order.trans a b c ha hb hc ab bc
  have bd := order.trans b c d hb hc hd bc cd
  have ad := order.trans a b d ha hb hd ab bd
  simp [Ordered, ab, ac, ad, bc, bd, cd]

theorem pairs_sort (ab : less b a = false) (cd : less d c = false) :
    let least := if less c a then c else a
    let greatest := if less d b then b else d
    let left := if less c a then a else if less d b then c else b
    let right := if less d b then d else if less c a then b else c
    SortOf less P [a, b, c, d] (if less right left then [least, right, left, greatest]
      else [least, left, right, greatest]) := by
  intro least greatest left right
  cases ca : less c a <;> cases db : less d b <;>
    simp only [least, greatest, left, right, ca, db, if_true, if_false, Bool.false_eq_true]
  · cases cb : less c b
    · exact .of_ordered (ordered_four order ha hb hc hd ab cb cd)
    · have moved : Rearranged less P [b, c] [c, b] :=
        .exchange [b] [c] order (by simpa using hb) (by simpa using hc)
          (by simpa using cb)
      exact ⟨((Rearranged.refl [a]).append moved).append (.refl [d]),
        ordered_four order ha hc hb hd ca (order.asymm c b hc hb cb) db⟩
  · have cb := order.less_of_le_of_less hc hd hb cd db
    have moved : Rearranged less P [b, c, d] [c, d, b] :=
      .exchange [b] [c, d] order (by simpa using hb) (by simp [hc, hd])
        (by simp [cb, db])
    rw [cd]
    exact ⟨(Rearranged.refl [a]).append moved,
      ordered_four order ha hc hd hb ca cd (order.asymm d b hd hb db)⟩
  · have cb := order.less_of_less_of_le hc ha hb ca ab
    have moved : Rearranged less P [a, b, c] [c, a, b] :=
      .exchange [a, b] [c] order (by simp [ha, hb]) (by simpa using hc)
        (by simp [ca, cb])
    rw [ab]
    exact ⟨moved.append (.refl [d]),
      ordered_four order hc ha hb hd (order.asymm c a hc ha ca) ab db⟩
  · have cb := order.less_of_less_of_le hc ha hb ca ab
    cases da : less d a
    · have moved : Rearranged less P [a, b, c] [c, a, b] :=
        .exchange [a, b] [c] order (by simp [ha, hb]) (by simpa using hc)
          (by simp [ca, cb])
      have swapped : Rearranged less P [b, d] [d, b] :=
        .exchange [b] [d] order (by simpa using hb) (by simpa using hd)
          (by simpa using db)
      exact ⟨(moved.append (.refl [d])).trans ((Rearranged.refl [c, a]).append swapped),
        ordered_four order hc ha hd hb (order.asymm c a hc ha ca) da (order.asymm d b hd hb db)⟩
    · have moved : Rearranged less P [a, b, c, d] [c, d, a, b] :=
        .exchange [a, b] [c, d] order (by simp [ha, hb]) (by simp [hc, hd])
          (by simp [ca, cb, da, db])
      exact ⟨moved, ordered_four order hc hd ha hb cd (order.asymm d a hd ha da) ab⟩

theorem sortFour_sorts : SortOf less P [a, b, c, d] (sortFour less a b c d) := by
  unfold sortFour
  rcases first : (if less b a then (b, a) else (a, b)) with ⟨p, q⟩
  rcases second : (if less d c then (d, c) else (c, d)) with ⟨r, s⟩
  obtain ⟨moved, pq, hp, hq⟩ := pair_sorts order ha hb first
  obtain ⟨moved', rs, hr, hs⟩ := pair_sorts order hc hd second
  exact .after (moved.append moved') (pairs_sort order hp hq hr hs pq rs)

end

section

variable (order : OrderOn less P) {xs : List α} (hx : ∀ x ∈ xs, P x)
include order hx

theorem sortHalf_sorts : SortOf less P xs (sortHalf less xs) := by
  unfold sortHalf
  split
  · next v w x y rest =>
    simp only [List.forall_mem_cons] at hx
    obtain ⟨hv, hw, hx, hy, hrest⟩ := hx
    have four := sortFour_sorts order hv hw hx hy
    refine .after (four.toRearranged.append (.refl rest)) ?_
    exact insertAll_sorts order (four.all (by simp [hv, hw, hx, hy])) hrest four.ordered
  · exact insertionSort_sorts order hx

/-- On such elements no merge from both ends breaks off. -/
theorem smallSort_sorts : ∃ ys, smallSort less xs = some ys ∧ SortOf less P xs ys := by
  have lefts : ∀ x ∈ xs.take (xs.length / 2), P x := fun x h => hx x (List.mem_of_mem_take h)
  have rights : ∀ x ∈ xs.drop (xs.length / 2), P x := fun x h => hx x (List.mem_of_mem_drop h)
  have merged : ∀ left right, SortOf less P (xs.take (xs.length / 2)) left →
      SortOf less P (xs.drop (xs.length / 2)) right →
      ∃ ys, mergeInward less left right = some ys ∧ SortOf less P xs ys := by
    intro left right hl hr
    have halves := hl.toRearranged.append hr.toRearranged
    rw [List.take_append_drop] at halves
    refine ⟨_, mergeInward_eq order (hl.all lefts) (hr.all rights) hl.ordered hr.ordered, ?_⟩
    exact .after halves (merge_sorts order (hl.all lefts) (hr.all rights) hl.ordered hr.ordered)
  unfold smallSort
  split
  · next short =>
    refine ⟨xs, rfl, ?_⟩
    match xs, short with
    | [], _ => exact .of_ordered .nil
    | [x], _ => exact .of_ordered (List.pairwise_singleton _ x)
  · split
    · exact merged _ _ (insertionSort_sorts order lefts) (insertionSort_sorts order rights)
    · exact merged _ _ (sortHalf_sorts order lefts) (sortHalf_sorts order rights)

end

end SqlEngine.Sorting
