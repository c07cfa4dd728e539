import Mathlib.Data.List.Basic
import SqlEngine.Sorting.Merge

/-! Sorting by a test that is an order on the elements at hand. Such a test sorts a list in one way
only if tied elements have to stay in their order; insertion and merging sort so. -/

namespace SqlEngine.Sorting

variable {α : Type}

/-- On the elements of a kind the test is a strict order, in which elements may be tied. -/
structure OrderOn (less : α → α → Bool) (P : α → Prop) : Prop where
  asymm : ∀ a b, P a → P b → less a b = true → less b a = false
  trans : ∀ a b c, P a → P b → P c → less b a = false → less c b = false → less c a = false

def tied (less : α → α → Bool) (a b : α) : Bool := !less a b && !less b a

def Ordered (less : α → α → Bool) (xs : List α) : Prop := xs.Pairwise fun a b => less b a = false

/-- Two lists of the same elements, of which tied ones have the same order in both. -/
structure Rearranged (less : α → α → Bool) (P : α → Prop) (xs ys : List α) : Prop where
  perm : ys.Perm xs
  stable : ∀ a, P a → ys.filter (tied less a) = xs.filter (tied less a)

/-- The second list holds the elements of the first one in order, tied ones as they stood. -/
structure SortOf (less : α → α → Bool) (P : α → Prop) (xs ys : List α) : Prop extends
    Rearranged less P xs ys where
  ordered : Ordered less ys

variable {less : α → α → Bool} {P : α → Prop}

namespace OrderOn

theorem flip (h : OrderOn less P) : OrderOn (fun a b => less b a) P where
  asymm a b ha hb := h.asymm b a hb ha
  trans a b c ha hb hc ab bc := h.trans c b a hc hb ha bc ab

theorem of_cmp {cmp : α → α → Ordering} (h : Std.TransCmp fun a b : { x // P x } => cmp a b) :
    OrderOn (fun a b => cmp a b == .lt) P where
  asymm a b ha hb ab := by
    have swapped : cmp a b = (cmp b a).swap := h.eq_swap (a := ⟨a, ha⟩) (b := ⟨b, hb⟩)
    cases ba : cmp b a <;> simp_all
  trans a b c ha hb hc ab bc := by
    have swapped : cmp a b = (cmp b a).swap := h.eq_swap (a := ⟨a, ha⟩) (b := ⟨b, hb⟩)
    have swapped' : cmp b c = (cmp c b).swap := h.eq_swap (a := ⟨b, hb⟩) (b := ⟨c, hc⟩)
    have swapped'' : cmp c a = (cmp a c).swap := h.eq_swap (a := ⟨c, hc⟩) (b := ⟨a, ha⟩)
    have ac : (cmp a c).isLE = true :=
      h.isLE_trans (a := ⟨a, ha⟩) (b := ⟨b, hb⟩) (c := ⟨c, hc⟩)
        (by rw [swapped]; cases ba : cmp b a <;> simp_all)
        (by rw [swapped']; cases cb : cmp c b <;> simp_all)
    rw [swapped'']
    cases same : cmp a c <;> simp_all

theorem comap {β : Type} (h : OrderOn less P) (f : β → α) :
    OrderOn (fun a b => less (f a) (f b)) fun b => P (f b) where
  asymm a b := h.asymm (f a) (f b)
  trans a b c := h.trans (f a) (f b) (f c)

variable (h : OrderOn less P) {a b c : α} (ha : P a) (hb : P b)
include h ha

theorem irrefl : less a a = false := by
  cases same : less a a with
  | false => rfl
  | true => exact same ▸ h.asymm a a ha ha same

theorem tied_self : tied less a a = true := by
  simp [tied, h.irrefl ha]

include hb

variable (hc : P c)
include hc

theorem less_of_less_of_le (ab : less a b = true) (bc : less c b = false) : less a c = true := by
  by_contra not
  have ba := h.trans b c a hb hc ha bc (by simpa using not)
  simp [ab] at ba

theorem less_of_le_of_less (ab : less b a = false) (bc : less b c = true) : less a c = true := by
  by_contra not
  have cb := h.trans c a b hc ha hb (by simpa using not) ab
  simp [bc] at cb

theorem not_tied_of_less (ab : tied less a b = true) (bc : less b c = true) :
    tied less a c = false := by
  simp only [tied, Bool.and_eq_true, Bool.not_eq_true'] at ab
  simp [tied, h.less_of_le_of_less ha hb hc ab.2 bc]

end OrderOn

theorem tied_flip (a : α) : tied (fun a b => less b a) a = tied less a := by
  funext b
  rw [tied, tied, Bool.and_comm]

namespace Rearranged

variable {xs ys zs us vs : List α}

theorem refl (xs : List α) : Rearranged less P xs xs := ⟨.refl xs, fun _ _ => rfl⟩

theorem trans (h : Rearranged less P xs ys) (h' : Rearranged less P ys zs) :
    Rearranged less P xs zs :=
  ⟨h'.perm.trans h.perm, fun a ha => (h'.stable a ha).trans (h.stable a ha)⟩

theorem append (h : Rearranged less P xs ys) (h' : Rearranged less P us vs) :
    Rearranged less P (xs ++ us) (ys ++ vs) := by
  refine ⟨h.perm.append h'.perm, fun a ha => ?_⟩
  rw [List.filter_append, List.filter_append, h.stable a ha, h'.stable a ha]

theorem cons (x : α) (h : Rearranged less P xs ys) : Rearranged less P (x :: xs) (x :: ys) :=
  (refl [x]).append h

theorem reverse (h : Rearranged less P xs ys) :
    Rearranged (fun a b => less b a) P xs.reverse ys.reverse := by
  refine ⟨(List.reverse_perm ys).trans (h.perm.trans (List.reverse_perm xs).symm), fun a ha => ?_⟩
  rw [List.filter_reverse, List.filter_reverse, tied_flip, h.stable a ha]

theorem all (h : Rearranged less P xs ys) {Q : α → Prop} (hx : ∀ x ∈ xs, Q x) : ∀ y ∈ ys, Q y :=
  fun y hy => hx y (h.perm.mem_iff.mp hy)

theorem exchange (xs ys : List α) (order : OrderOn less P) (hx : ∀ x ∈ xs, P x)
    (hy : ∀ y ∈ ys, P y)
    (below : ∀ x ∈ xs, ∀ y ∈ ys, less y x = true) : Rearranged less P (xs ++ ys) (ys ++ xs) := by
  refine ⟨List.perm_append_comm, fun a ha => ?_⟩
  rw [List.filter_append, List.filter_append]
  by_cases found : ys.filter (tied less a) = []
  · rw [found, List.append_nil, List.nil_append]
  · -- An element of the second part is tied to `a`, so none of the first part is.
    obtain ⟨y, listed, same⟩ : ∃ y ∈ ys, tied less a y = true := by
      simpa [List.filter_eq_nil_iff] using found
    have none : xs.filter (tied less a) = [] := by
      rw [List.filter_eq_nil_iff]
      intro x hx'
      rw [order.not_tied_of_less ha (hy y listed) (hx x hx') same (below x hx' y listed)]
      exact Bool.false_ne_true
    rw [none, List.nil_append, List.append_nil]

end Rearranged

namespace SortOf

variable {xs ys zs : List α}

theorem of_ordered (h : Ordered less xs) : SortOf less P xs xs := ⟨.refl xs, h⟩

theorem after (first : Rearranged less P xs ys) (h : SortOf less P ys zs) : SortOf less P xs zs :=
  ⟨first.trans h.toRearranged, h.ordered⟩

theorem reverse (h : SortOf (fun a b => less b a) P xs ys) :
    SortOf less P xs.reverse ys.reverse :=
  ⟨h.toRearranged.reverse, List.pairwise_reverse.mpr h.ordered⟩

/-- Ordered lists that agree in the order of all tied elements are the same. -/
theorem eq_of_ordered (order : OrderOn less P) (hy : ∀ y ∈ ys, P y) (hz : ∀ z ∈ zs, P z)
    (ordered : Ordered less ys) (ordered' : Ordered less zs)
    (same : ∀ a, P a → ys.filter (tied less a) = zs.filter (tied less a)) : ys = zs := by
  induction ys generalizing zs with
  | nil =>
    cases zs with
    | nil => rfl
    | cons z zs =>
      have pz := hz z List.mem_cons_self
      simpa [order.tied_self pz] using same z pz
  | cons y ys ih =>
    have py := hy y List.mem_cons_self
    cases zs with
    | nil => simpa [order.tied_self py] using same y py
    | cons z zs =>
      have pz := hz z List.mem_cons_self
      -- Both heads are least, so they are tied, and the first of the tied elements.
      have among : y ∈ z :: zs := by
        have listed : y ∈ (y :: ys).filter (tied less y) := by simp [order.tied_self py]
        rw [same y py] at listed
        exact (List.mem_filter.mp listed).1
      have among' : z ∈ y :: ys := by
        have listed : z ∈ (z :: zs).filter (tied less z) := by simp [order.tied_self pz]
        rw [← same z pz] at listed
        exact (List.mem_filter.mp listed).1
      rw [Ordered, List.pairwise_cons] at ordered ordered'
      have zy : less y z = false := by
        rcases List.mem_cons.mp among with rfl | further
        · exact order.irrefl py
        · exact ordered'.1 y further
      have yz : less z y = false := by
        rcases List.mem_cons.mp among' with rfl | further
        · exact order.irrefl pz
        · exact ordered.1 z further
      have heads : y = z := by
        have first := same y py
        rw [List.filter_cons_of_pos (order.tied_self py),
          List.filter_cons_of_pos (by simp [tied, zy, yz])] at first
        exact (List.cons.inj first).1
      subst heads
      rw [List.forall_mem_cons] at hy hz
      rw [ih hy.2 hz.2 ordered.2 ordered'.2]
      intro a ha
      have both := same a ha
      rw [List.filter_cons, List.filter_cons] at both
      split at both
      · exact (List.cons.inj both).2
      · exact both

theorem unique (order : OrderOn less P) (hx : ∀ x ∈ xs, P x) (h : SortOf less P xs ys)
    (h' : SortOf less P xs zs) : ys = zs :=
  eq_of_ordered order (h.all hx) (h'.all hx) h.ordered h'.ordered fun a ha => by
    rw [h.stable a ha, h'.stable a ha]

end SortOf

section

variable (order : OrderOn less P)
include order

theorem place_sorts {descending : List α} {x : α} (hd : ∀ y ∈ descending, P y) (hx : P x)
    (ordered : Ordered (fun a b => less b a) descending) :
    SortOf (fun a b => less b a) P (x :: descending) (place less descending x) := by
  induction descending with
  | nil => exact .of_ordered (List.pairwise_singleton _ x)
  | cons y ys ih =>
    rw [List.forall_mem_cons] at hd
    rw [Ordered, List.pairwise_cons] at ordered
    have inner := ih hd.2 ordered.2
    unfold place
    split
    · next below =>
      have swapped : Rearranged (fun a b => less b a) P (x :: y :: ys) (y :: x :: ys) :=
        (Rearranged.exchange [x] [y] order.flip (by simpa using hx)
          (by simpa using hd.1) (by simpa using below)).append (.refl ys)
      refine .after swapped ⟨inner.toRearranged.cons y, List.pairwise_cons.mpr ⟨?_, inner.ordered⟩⟩
      intro z hz
      rcases List.mem_cons.mp (inner.perm.mem_iff.mp hz) with rfl | hz
      · exact order.asymm z y hx hd.1 below
      · exact ordered.1 z hz
    · next above =>
      refine .of_ordered (List.pairwise_cons.mpr ⟨?_, List.pairwise_cons.mpr ordered⟩)
      intro z hz
      rcases List.mem_cons.mp hz with rfl | hz
      · simpa using above
      · exact order.trans z y x (hd.2 z hz) hd.1 hx (ordered.1 z hz) (by simpa using above)

theorem insertAll_sorts {sorted xs : List α} (hs : ∀ y ∈ sorted, P y) (hx : ∀ x ∈ xs, P x)
    (ordered : Ordered less sorted) : SortOf less P (sorted ++ xs) (insertAll less sorted xs) := by
  have placed : ∀ descending : List α, (∀ y ∈ descending, P y) →
      Ordered (fun a b => less b a) descending →
      SortOf (fun a b => less b a) P (xs.reverse ++ descending)
        (xs.foldl (place less) descending) := by
    induction xs with
    | nil => exact fun descending _ ordered => .of_ordered ordered
    | cons x xs ih =>
      intro descending hd ordered
      rw [List.forall_mem_cons] at hx
      have first := place_sorts order hd hx.1 ordered
      have rest := ih hx.2 (place less descending x)
        (first.all (List.forall_mem_cons.mpr ⟨hx.1, hd⟩)) first.ordered
      rw [List.reverse_cons, List.append_assoc, List.singleton_append]
      exact .after ((Rearranged.refl xs.reverse).append first.toRearranged) rest
  have whole := (placed sorted.reverse (by simpa using hs)
    (List.pairwise_reverse.mpr ordered)).reverse
  rwa [List.reverse_append, List.reverse_reverse, List.reverse_reverse] at whole

theorem insertionSort_sorts {xs : List α} (hx : ∀ x ∈ xs, P x) :
    SortOf less P xs (insertionSort less xs) :=
  insertAll_sorts order (List.forall_mem_nil P) hx .nil

theorem merge_sorts {left right : List α} (hl : ∀ a ∈ left, P a) (hr : ∀ b ∈ right, P b)
    (ordered : Ordered less left) (ordered' : Ordered less right) :
    SortOf less P (left ++ right) (merge less left right) := by
  induction left generalizing right with
  | nil => simpa [merge, interleave_eq] using .of_ordered ordered'
  | cons a left ihLeft =>
    induction right with
    | nil => simpa [merge, interleave_eq] using .of_ordered ordered
    | cons b right ihRight =>
      have lefts := List.forall_mem_cons.mp hl
      have rights := List.forall_mem_cons.mp hr
      have above := List.pairwise_cons.mp ordered
      have above' := List.pairwise_cons.mp ordered'
      rw [merge_cons_cons]
      split
      · next first =>
        have inner := ihLeft lefts.2 hr above.2 ordered'
        refine ⟨inner.toRearranged.cons a, List.pairwise_cons.mpr ⟨?_, inner.ordered⟩⟩
        intro z hz
        rcases List.mem_append.mp (inner.perm.mem_iff.mp hz) with hz | hz
        · exact above.1 z hz
        · have ab : less b a = false := by simpa using first
          rcases List.mem_cons.mp hz with rfl | hz
          · exact ab
          · exact order.trans a b z lefts.1 rights.1 (rights.2 z hz) ab (above'.1 z hz)
      · next first =>
        have ba : less b a = true := by simpa using first
        have inner := ihRight rights.2 above'.2
        -- The first of the right elements is less than all of the left ones.
        have moved : Rearranged less P (a :: left ++ b :: right) (b :: (a :: left ++ right)) := by
          have below : ∀ x ∈ a :: left, ∀ y ∈ [b], less y x = true := by
            intro x hx y hy
            rw [List.mem_singleton.mp hy]
            rcases List.mem_cons.mp hx with rfl | hx
            · exact ba
            · exact order.less_of_less_of_le rights.1 lefts.1 (lefts.2 x hx) ba (above.1 x hx)
          have exchanged := (Rearranged.exchange _ _ order hl (by simpa using rights.1) below).append
            (.refl right)
          simpa using exchanged
        refine .after moved ⟨inner.toRearranged.cons b, List.pairwise_cons.mpr ⟨?_, inner.ordered⟩⟩
        intro z hz
        rcases List.mem_append.mp (inner.perm.mem_iff.mp hz) with hz | hz
        · have bz : less b z = true := by
            rcases List.mem_cons.mp hz with rfl | hz
            · exact ba
            · exact order.less_of_less_of_le rights.1 lefts.1 (lefts.2 z hz) ba (above.1 z hz)
          exact order.asymm b z rights.1 (hl z hz) bz
        · exact above'.1 z hz

theorem mergeDown_sorts {left right : List α} (hl : ∀ a ∈ left, P a) (hr : ∀ b ∈ right, P b)
    (ordered : Ordered less left) (ordered' : Ordered less right) :
    SortOf less P (left ++ right) (mergeDown less left right) := by
  have rights : ∀ b ∈ right.reverse, P b := by simpa using hr
  have lefts : ∀ a ∈ left.reverse, P a := by simpa using hl
  have merged := (merge_sorts order.flip rights lefts (List.pairwise_reverse.mpr ordered')
    (List.pairwise_reverse.mpr ordered)).reverse
  rwa [List.reverse_append, List.reverse_reverse, List.reverse_reverse] at merged

theorem mergeShorter_sorts {left right : List α} (hl : ∀ a ∈ left, P a) (hr : ∀ b ∈ right, P b)
    (ordered : Ordered less left) (ordered' : Ordered less right) :
    SortOf less P (left ++ right) (mergeShorter less left right) := by
  unfold mergeShorter
  split
  · exact merge_sorts order hl hr ordered ordered'
  · exact mergeDown_sorts order hl hr ordered ordered'

end

end SqlEngine.Sorting
