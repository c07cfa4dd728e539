import SqlEngine.Proofs.Sorting.Short
import SqlEngine.Sorting.Run

/-! Sorting by runs. However a list is cut into runs, and in whichever order neighbours are merged,
what is left in the end is the list in order. -/

namespace SqlEngine.Sorting

variable {α : Type} {less : α → α → Bool} {P : α → Prop}

structure Run.Of (less : α → α → Bool) (P : α → Prop) (r : Run α) (xs : List α) : Prop where
  rearranged : Rearranged less P xs r.items
  ordered : r.isSorted = true → Ordered less r.items

namespace Run.Of

theorem unsorted (xs : List α) : Run.Of less P ⟨xs, false⟩ xs := ⟨.refl xs, nofun⟩

theorem sorted {xs ys : List α} (h : SortOf less P xs ys) : Run.Of less P ⟨ys, true⟩ xs :=
  ⟨h.toRearranged, fun _ => h.ordered⟩

end Run.Of

theorem follow_spec {goesOn : α → α → Bool}
    (trans : ∀ a b c, P a → P b → P c → goesOn a b = true → goesOn b c = true → goesOn a c = true)
    {last : α} {xs : List α} (hl : P last) (hx : ∀ x ∈ xs, P x) :
    (follow goesOn last xs).1 ++ (follow goesOn last xs).2 = xs ∧
      (last :: (follow goesOn last xs).1).Pairwise fun a b => goesOn a b = true := by
  induction xs generalizing last with
  | nil => exact ⟨rfl, List.pairwise_singleton _ last⟩
  | cons x xs ih =>
    rw [List.forall_mem_cons] at hx
    obtain ⟨whole, chained⟩ := ih hx.1 hx.2
    unfold follow
    split
    · next goes =>
      refine ⟨congrArg (x :: ·) whole, List.pairwise_cons.mpr ⟨?_, chained⟩⟩
      intro y hy
      rcases List.mem_cons.mp hy with rfl | hy
      · exact goes
      · have further : y ∈ xs := whole ▸ List.mem_append_left _ hy
        exact trans last x y hl hx.1 (hx.2 y further) goes ((List.pairwise_cons.mp chained).1 y hy)
    · exact ⟨rfl, List.pairwise_singleton _ last⟩

section

variable (order : OrderOn less P) {xs : List α} (hx : ∀ x ∈ xs, P x)
include order hx

theorem reverse_sorts (descending : xs.Pairwise fun a b => less b a = true) :
    SortOf less P xs xs.reverse := by
  induction xs with
  | nil => exact .of_ordered .nil
  | cons x xs ih =>
    rw [List.pairwise_cons] at descending
    rw [List.forall_mem_cons] at hx
    have inner := ih hx.2 descending.2
    rw [List.reverse_cons]
    refine ⟨?_, List.pairwise_append.mpr ⟨inner.ordered, List.pairwise_singleton _ x, ?_⟩⟩
    · have moved : Rearranged less P ([x] ++ xs) (xs ++ [x]) :=
        .exchange _ _ order (by simpa using hx.1) hx.2 (by simpa using descending.1)
      exact moved.trans (inner.toRearranged.append (.refl [x]))
    · intro y hy z hz
      rw [List.mem_singleton.mp hz]
      rw [List.mem_reverse] at hy
      exact order.asymm y x (hx.2 y hy) hx.1 (descending.1 y hy)

theorem naturalRun_sorts : ∃ first, first ++ (naturalRun less xs).2 = xs ∧
    SortOf less P first (naturalRun less xs).1 := by
  match xs with
  | [] => exact ⟨[], rfl, .of_ordered .nil⟩
  | [a] => exact ⟨[a], rfl, .of_ordered (List.pairwise_singleton _ a)⟩
  | a :: b :: xs =>
    simp only [List.forall_mem_cons] at hx
    obtain ⟨ha, hb, hx⟩ := hx
    simp only [naturalRun]
    split
    · next ba =>
      have falls : ∀ a b c, P a → P b → P c → less b a = true → less c b = true →
          less c a = true := fun a b c ha hb hc ba cb =>
        order.less_of_less_of_le hc hb ha cb (order.asymm b a hb ha ba)
      obtain ⟨whole, chained⟩ := follow_spec falls hb hx
      have taken : ∀ x ∈ (follow (fun last x => less x last) b xs).1, P x := fun x h =>
        hx x (whole ▸ List.mem_append_left _ h)
      have all := List.forall_mem_cons.mpr ⟨ha, List.forall_mem_cons.mpr ⟨hb, taken⟩⟩
      refine ⟨_, congrArg (a :: b :: ·) whole, reverse_sorts order all ?_⟩
      refine List.pairwise_cons.mpr ⟨fun x h => ?_, chained⟩
      rcases List.mem_cons.mp h with rfl | h
      · exact ba
      · exact falls a b x ha hb (taken x h) ba ((List.pairwise_cons.mp chained).1 x h)
    · next ba =>
      have climbs : ∀ a b c, P a → P b → P c → (!less b a) = true → (!less c b) = true →
          (!less c a) = true := by
        simpa using order.trans
      have ba : (!less b a) = true := by simpa using ba
      obtain ⟨whole, chained⟩ := follow_spec climbs hb hx
      refine ⟨_, congrArg (a :: b :: ·) whole, .of_ordered ?_⟩
      have all : (a :: b :: (follow (fun last x => !less x last) b xs).1).Pairwise
          fun a b => (!less b a) = true := by
        refine List.pairwise_cons.mpr ⟨fun x h => ?_, chained⟩
        rcases List.mem_cons.mp h with rfl | h
        · exact ba
        · exact climbs a b x ha hb (hx x (whole ▸ List.mem_append_left _ h)) ba
            ((List.pairwise_cons.mp chained).1 x h)
      simpa [Ordered] using all

theorem nextRun_of (eager : Bool) (enough : Nat) : ∃ run rest first,
    nextRun less eager enough xs = some (run, rest) ∧ first ++ rest = xs ∧
      Run.Of less P run first := by
  obtain ⟨first, whole, natural⟩ := naturalRun_sorts order hx
  simp only [nextRun]
  split
  · exact ⟨_, _, first, rfl, whole, .sorted natural⟩
  · split
    · have short : ∀ x ∈ xs.take smallLength, P x := fun x h => hx x (List.mem_of_mem_take h)
      obtain ⟨sorted, answered, sorts⟩ := smallSort_sorts order short
      rw [answered]
      exact ⟨_, _, _, rfl, List.take_append_drop _ xs, .sorted sorts⟩
    · exact ⟨_, _, _, rfl, List.take_append_drop _ xs, .unsorted _⟩

theorem runs_of (eager : Bool) (enough fuel : Nat) : ∃ cut parts,
    runs less eager enough fuel xs = some cut ∧ parts.flatten = xs ∧
      List.Forall₂ (Run.Of less P) cut parts := by
  induction fuel generalizing xs with
  | zero =>
    cases xs with
    | nil => exact ⟨[], [], rfl, rfl, .nil⟩
    | cons x xs => exact ⟨_, [x :: xs], rfl, by simp, .cons (.unsorted _) .nil⟩
  | succ fuel ih =>
    cases xs with
    | nil => exact ⟨[], [], rfl, rfl, .nil⟩
    | cons x xs =>
      obtain ⟨run, rest, first, taken, whole, held⟩ := nextRun_of order hx eager enough
      have left : ∀ y ∈ rest, P y := fun y h => hx y (whole ▸ List.mem_append_right _ h)
      obtain ⟨others, parts, cut, flat, each⟩ := ih left
      refine ⟨run :: others, first :: parts, ?_, by rw [List.flatten_cons, flat, whole],
        .cons held each⟩
      simp [runs, taken, cut]

end

def SortsAll (less : α → α → Bool) (P : α → Prop) (sort : List α → Option (List α)) : Prop :=
  ∀ xs, (∀ x ∈ xs, P x) → ∃ ys, sort xs = some ys ∧ SortOf less P xs ys

section

variable (order : OrderOn less P) {sort : List α → Option (List α)}
  (sorts : SortsAll less P sort)
include sorts

omit order in
theorem Run.Of.finish {r : Run α} {xs : List α} (h : r.Of less P xs) (hx : ∀ x ∈ xs, P x) :
    ∃ ys, r.finish sort = some ys ∧ SortOf less P xs ys := by
  unfold Run.finish
  split
  · next isSorted => exact ⟨_, rfl, h.rearranged, h.ordered isSorted⟩
  · obtain ⟨ys, answered, sorted⟩ := sorts r.items (h.rearranged.all hx)
    exact ⟨ys, answered, .after h.rearranged sorted⟩

include order

theorem Run.Of.join {r q : Run α} {xs ys : List α} (h : r.Of less P xs) (h' : q.Of less P ys)
    (hx : ∀ x ∈ xs, P x) (hy : ∀ y ∈ ys, P y) :
    ∃ joined, r.join less sort q = some joined ∧ joined.Of less P (xs ++ ys) := by
  unfold Run.join
  split
  · obtain ⟨us, first, ordered⟩ := h.finish sorts hx
    obtain ⟨vs, second, ordered'⟩ := h'.finish sorts hy
    refine ⟨⟨mergeShorter less us vs, true⟩, by simp [first, second], .sorted ?_⟩
    exact .after (ordered.toRearranged.append ordered'.toRearranged)
      (mergeShorter_sorts order (ordered.all hx) (ordered'.all hy) ordered.ordered ordered'.ordered)
  · exact ⟨_, rfl, h.rearranged.append h'.rearranged, nofun⟩

/-- The runs that wait, the nearest first, and the one behind them hold together what they held
before some of them were joined. None waits any longer at depth zero. -/
theorem joinWaiting_of (depth : Nat) {waiting : List (Run α × Nat)} {parts : List (List α)}
    {last : Run α} {xs : List α}
    (held : List.Forall₂ (fun w part => w.1.Of less P part) waiting parts) (h : last.Of less P xs)
    (hp : ∀ part ∈ parts, ∀ x ∈ part, P x) (hx : ∀ x ∈ xs, P x) :
    ∃ waiting' last' parts' xs', joinWaiting less sort depth waiting last = some (waiting', last') ∧
      parts'.reverse.flatten ++ xs' = parts.reverse.flatten ++ xs ∧
      List.Forall₂ (fun w part => w.1.Of less P part) waiting' parts' ∧ last'.Of less P xs' ∧
      (depth = 0 → parts' = []) := by
  induction held generalizing last xs with
  | nil => exact ⟨[], last, [], xs, rfl, rfl, .nil, h, fun _ => rfl⟩
  | @cons w part waiting parts head held ih =>
    obtain ⟨run, meeting⟩ := w
    rw [List.forall_mem_cons] at hp
    unfold joinWaiting
    split
    · obtain ⟨joined, made, holds⟩ := head.join order sorts h hp.1 hx
      obtain ⟨waiting', last', parts', xs', further, same, held', h', none⟩ := ih holds hp.2
        (List.forall_mem_append.mpr ⟨hp.1, hx⟩)
      refine ⟨waiting', last', parts', xs', by simp [made, further], ?_, held', h', none⟩
      rw [same]
      simp
    · next deep =>
      exact ⟨_, last, part :: parts, xs, rfl, rfl, .cons head held, h,
        fun zero => absurd (zero ▸ Nat.zero_le _) deep⟩

theorem mergeRuns_sorts (total start : Nat) {waiting : List (Run α × Nat)} {last : Run α}
    {rest : List (Run α)} {parts others : List (List α)} {xs : List α}
    (held : List.Forall₂ (fun w part => w.1.Of less P part) waiting parts) (h : last.Of less P xs)
    (left : List.Forall₂ (Run.Of less P) rest others) (hp : ∀ part ∈ parts, ∀ x ∈ part, P x)
    (hx : ∀ x ∈ xs, P x) (ho : ∀ part ∈ others, ∀ x ∈ part, P x) :
    ∃ ys, mergeRuns less sort total start waiting last rest = some ys ∧
      SortOf less P (parts.reverse.flatten ++ xs ++ others.flatten) ys := by
  induction left generalizing start waiting last parts xs with
  | nil =>
    obtain ⟨waiting', last', parts', xs', joined, same, -, h', none⟩ :=
      joinWaiting_of order sorts 0 held h hp hx
    obtain rfl := none rfl
    have whole : xs' = parts.reverse.flatten ++ xs := by simpa using same
    have all : ∀ x ∈ xs', P x := by
      rw [whole]
      simp only [List.forall_mem_append, List.mem_flatten, List.mem_reverse]
      exact ⟨fun x ⟨part, listed, there⟩ => hp part listed x there, hx⟩
    obtain ⟨ys, finished, sorted⟩ := h'.finish sorts all
    rw [List.flatten_nil, List.append_nil, ← whole]
    exact ⟨ys, by simp [mergeRuns, joined, finished], sorted⟩
  | @cons next other rest others head left ih =>
    rw [List.forall_mem_cons] at ho
    simp only [mergeRuns]
    generalize meetingDepth total start _ _ = depth
    obtain ⟨waiting', last', parts', xs', joined, same, held', h', -⟩ :=
      joinWaiting_of order sorts depth held h hp hx
    have all : (∀ part ∈ parts', ∀ x ∈ part, P x) ∧ ∀ x ∈ xs', P x := by
      have both : ∀ x ∈ parts'.reverse.flatten ++ xs', P x := by
        rw [same]
        simp only [List.forall_mem_append, List.mem_flatten, List.mem_reverse]
        exact ⟨fun x ⟨part, listed, there⟩ => hp part listed x there, hx⟩
      simp only [List.forall_mem_append, List.mem_flatten, List.mem_reverse] at both
      exact ⟨fun part listed x there => both.1 x ⟨part, listed, there⟩, both.2⟩
    have waits : List.Forall₂ (fun w part => w.1.Of less P part) ((last', depth) :: waiting')
        (xs' :: parts') := .cons h' held'
    obtain ⟨ys, merged, sorted⟩ := ih (start + last.items.length) waits head
      (List.forall_mem_cons.mpr ⟨all.2, all.1⟩) ho.1 ho.2
    refine ⟨ys, by simpa [joined] using merged, ?_⟩
    rw [← same]
    simpa using sorted

theorem sortRuns_sorts (eager : Bool) : SortsAll less P (sortRuns less eager sort) := by
  intro xs hx
  obtain ⟨cut, parts, made, whole, each⟩ := runs_of order hx eager (enoughFor xs.length) xs.length
  have all : ∀ part ∈ parts, ∀ x ∈ part, P x := fun part listed x there =>
    hx x (whole ▸ List.mem_flatten.mpr ⟨part, listed, there⟩)
  simp only [sortRuns, made, Option.bind_eq_bind, Option.bind_some]
  cases each with
  | nil =>
    rw [← whole]
    exact ⟨[], rfl, .of_ordered .nil⟩
  | @cons first part rest others head left =>
    rw [List.forall_mem_cons] at all
    rw [← whole, List.flatten_cons]
    exact mergeRuns_sorts order sorts _ _ .nil head left (by simp) all.1 all.2

end

end SqlEngine.Sorting
