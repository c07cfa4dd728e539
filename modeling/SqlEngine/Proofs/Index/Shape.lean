import SqlEngine.Index.Tree
import SqlEngine.Proofs.Index.Search

/-! What the nodes below a place of a tree have to be like: a subtree of some number of levels, all
of whose keys lie between two bounds. A bound is absent at the edge of the whole tree. -/

namespace SqlEngine.Index

open Std

variable {κ ν : Type} {cmp : κ → κ → Ordering}

def AtLeast (cmp : κ → κ → Ordering) : Option κ → κ → Prop
  | none, _ => True
  | some low, k => (cmp low k).isLE = true

def LessThan (cmp : κ → κ → Ordering) : Option κ → κ → Prop
  | none, _ => True
  | some high, k => cmp k high = .lt

def Within (cmp : κ → κ → Ordering) (low high : Option κ) (k : κ) : Prop :=
  AtLeast cmp low k ∧ LessThan cmp high k

def Room (cmp : κ → κ → Ordering) : Option κ → Option κ → Prop
  | some low, some high => cmp low high = .lt
  | _, _ => True

theorem Room.atLeast {low : Option κ} {k : κ} (h : Room cmp low (some k)) : AtLeast cmp low k := by
  cases low with
  | none => trivial
  | some l =>
    have less : cmp l k = .lt := h
    simp [AtLeast, less]

theorem Room.lessThan {high : Option κ} {k : κ} (h : Room cmp (some k) high) :
    LessThan cmp high k := by
  cases high with
  | none => trivial
  | some r => exact h

section

variable [TransCmp cmp] {low high : Option κ} {k k' : κ}

theorem LessThan.of_lt (less : cmp k k' = .lt) (h : LessThan cmp high k') : LessThan cmp high k := by
  cases high with
  | none => trivial
  | some r => exact TransCmp.lt_trans less h

theorem Within.room (h : Within cmp low high k) : Room cmp low high := by
  cases low with
  | none => trivial
  | some l =>
    cases high with
    | none => trivial
    | some r => exact TransCmp.lt_of_isLE_of_lt h.1 h.2

theorem Room.trans (first : Room cmp low (some k)) (second : Room cmp (some k) high) :
    Room cmp low high := by
  cases low with
  | none => trivial
  | some l =>
    cases high with
    | none => trivial
    | some r => exact TransCmp.lt_trans first second

theorem Within.widen_left (h : Within cmp (some k') high k) (room : Room cmp low (some k')) :
    Within cmp low high k := by
  refine ⟨?_, h.2⟩
  cases low with
  | none => trivial
  | some l =>
    have less : cmp l k' = .lt := room
    exact TransCmp.isLE_trans (by rw [less]; rfl) h.1

theorem Within.widen_right (h : Within cmp low (some k') k) (room : Room cmp (some k') high) :
    Within cmp low high k :=
  ⟨h.1, room.lessThan.of_lt h.2⟩

end

structure Ordered (cmp : κ → κ → Ordering) (low high : Option κ) (entries : List (Entry κ ν)) :
    Prop where
  room : Room cmp low high
  ascending : entries.Pairwise fun a b => cmp a.1 b.1 = .lt
  within : ∀ e ∈ entries, Within cmp low high e.1

theorem Ordered.append [TransCmp cmp] {low high : Option κ} {k : κ}
    {left right : List (Entry κ ν)} (hl : Ordered cmp low (some k) left)
    (hr : Ordered cmp (some k) high right) : Ordered cmp low high (left ++ right) := by
  refine ⟨hl.room.trans hr.room, ?_, ?_⟩
  · refine List.pairwise_append.mpr ⟨hl.ascending, hr.ascending, fun a ha b hb => ?_⟩
    exact TransCmp.lt_of_lt_of_isLE (hl.within a ha).2 (hr.within b hb).1
  · exact List.forall_mem_append.mpr ⟨fun e he => (hl.within e he).widen_right hr.room,
      fun e he => (hr.within e he).widen_left hl.room⟩

theorem Ordered.split [TransCmp cmp] {low high : Option κ} {left right : List (Entry κ ν)}
    {e : Entry κ ν} (h : Ordered cmp low high (left ++ e :: right)) (nonempty : left ≠ []) :
    Ordered cmp low (some e.1) left ∧ Ordered cmp (some e.1) high (e :: right) := by
  obtain ⟨-, ascending, within⟩ := h
  rw [List.pairwise_append] at ascending
  rw [List.forall_mem_append] at within
  obtain ⟨ascendLeft, ascendRight, apart⟩ := ascending
  have bounded : ∀ x ∈ left, Within cmp low (some e.1) x.1 := fun x hx =>
    ⟨(within.1 x hx).1, apart x hx e List.mem_cons_self⟩
  obtain ⟨x, hx⟩ := List.exists_mem_of_ne_nil left nonempty
  have first := (within.2 e List.mem_cons_self).2
  refine ⟨⟨(bounded x hx).room, ascendLeft, bounded⟩, ?_, ascendRight, ?_⟩
  · cases high with
    | none => trivial
    | some r => exact first
  · refine List.forall_mem_cons.mpr ⟨⟨?_, first⟩, fun y hy => ⟨?_, ?_⟩⟩
    · show (cmp e.1 e.1).isLE = true
      rw [(ReflCmp.compare_self : cmp e.1 e.1 = .eq)]
      rfl
    · show (cmp e.1 y.1).isLE = true
      rw [(List.pairwise_cons.mp ascendRight).1 y hy]
      rfl
    · exact (within.2 y (List.mem_cons_of_mem e hy)).2

theorem ascends_of_ascending [TransCmp cmp] {α : Type} {f : α → κ} {xs : List α}
    (ascending : xs.Pairwise fun a b => cmp (f a) (f b) = .lt) (key : κ) :
    Ascends (fun a => cmp (f a) key) xs := by
  refine ascending.imp fun {a b} less => ?_
  cases direction : cmp (f b) key with
  | lt => exact .inl (TransCmp.lt_trans less direction)
  | eq => exact .inl (TransCmp.lt_of_lt_of_eq less direction)
  | gt => exact .inr direction

/-- The keys before the child where a key belongs are at most that key, those behind it greater. -/
theorem childIndex_parts [TransCmp cmp] {keys : List κ}
    (ascending : keys.Pairwise fun a b => cmp a b = .lt) (key : κ) :
    childIndex cmp key keys ≤ keys.length ∧
      (∀ k ∈ keys.take (childIndex cmp key keys), (cmp k key).isLE = true) ∧
      ∀ k ∈ keys.drop (childIndex cmp key keys), cmp k key = .gt :=
  (locate_parts (ascends_of_ascending (f := fun k => k) ascending key)).at_child

/-- Neighbouring children are parted by a key, which bounds the one from above and the other from
below. -/
def Chain (P : Option κ → Option κ → Nat → Prop) : Option κ → List κ → List Nat → Option κ → Prop
  | low, [], [c], high => P low high c
  | low, k :: ks, c :: cs, high => P low (some k) c ∧ Chain P (some k) ks cs high
  | _, _, _, _ => False

namespace Chain

variable {P Q : Option κ → Option κ → Nat → Prop} {low high : Option κ} {ks : List κ} {cs : List Nat}

theorem nil_iff : Chain P low [] cs high ↔ ∃ c, cs = [c] ∧ P low high c := by
  constructor
  · intro h
    match cs, h with
    | [c], held => exact ⟨c, rfl, held⟩
  · rintro ⟨c, rfl, held⟩
    exact held

theorem cons_iff {k : κ} : Chain P low (k :: ks) cs high ↔
    ∃ c rest, cs = c :: rest ∧ P low (some k) c ∧ Chain P (some k) ks rest high := by
  constructor
  · intro h
    match cs, h with
    | c :: rest, parts => exact ⟨c, rest, rfl, parts⟩
  · rintro ⟨c, rest, rfl, parts⟩
    exact parts

theorem length_eq (h : Chain P low ks cs high) : cs.length = ks.length + 1 := by
  induction ks generalizing low cs with
  | nil =>
    obtain ⟨c, rfl, -⟩ := nil_iff.mp h
    rfl
  | cons k ks ih =>
    obtain ⟨c, rest, rfl, -, tail⟩ := cons_iff.mp h
    simp [ih tail]

theorem imp (h : Chain P low ks cs high)
    (each : ∀ c ∈ cs, ∀ low high, P low high c → Q low high c) : Chain Q low ks cs high := by
  induction ks generalizing low cs with
  | nil =>
    obtain ⟨c, rfl, held⟩ := nil_iff.mp h
    exact each c (List.mem_singleton_self c) _ _ held
  | cons k ks ih =>
    obtain ⟨c, rest, rfl, held, tail⟩ := cons_iff.mp h
    rw [List.forall_mem_cons] at each
    exact ⟨each.1 _ _ held, ih tail each.2⟩

theorem append_iff {k : κ} {ks' : List κ} {cs' : List Nat} (length : cs.length = ks.length + 1) :
    Chain P low (ks ++ k :: ks') (cs ++ cs') high ↔
      Chain P low ks cs (some k) ∧ Chain P (some k) ks' cs' high := by
  induction ks generalizing low cs with
  | nil =>
    obtain ⟨c, rfl⟩ := List.length_eq_one_iff.mp length
    rfl
  | cons l ks ih =>
    match cs, length with
    | c :: cs, length =>
      show P low (some l) c ∧ Chain P (some l) (ks ++ k :: ks') (cs ++ cs') high ↔
        (P low (some l) c ∧ Chain P (some l) ks cs (some k)) ∧ Chain P (some k) ks' cs' high
      rw [ih (Nat.succ.inj length), and_assoc]

theorem exists_of_mem (h : Chain P low ks cs high) {c : Nat} (hc : c ∈ cs) :
    ∃ low high, P low high c := by
  induction ks generalizing low cs with
  | nil =>
    obtain ⟨d, rfl, held⟩ := nil_iff.mp h
    rw [List.mem_singleton.mp hc]
    exact ⟨_, _, held⟩
  | cons k ks ih =>
    obtain ⟨d, rest, rfl, held, tail⟩ := cons_iff.mp h
    rcases List.mem_cons.mp hc with rfl | hc
    · exact ⟨_, _, held⟩
    · exact ih tail hc

theorem ordered [TransCmp cmp] {contents : Nat → List (Entry κ ν)}
    (each : ∀ low high, ∀ c ∈ cs, P low high c → Ordered cmp low high (contents c))
    (h : Chain P low ks cs high) : Ordered cmp low high (cs.flatMap contents) := by
  induction ks generalizing low cs with
  | nil =>
    obtain ⟨c, rfl, held⟩ := nil_iff.mp h
    simpa using each _ _ c (List.mem_singleton_self c) held
  | cons k ks ih =>
    obtain ⟨c, rest, rfl, held, tail⟩ := cons_iff.mp h
    rw [List.flatMap_cons]
    refine (each _ _ c List.mem_cons_self held).append (ih ?_ tail)
    exact fun low high d hd => each low high d (List.mem_cons_of_mem c hd)

theorem keys_ascend [TransCmp cmp] (room : ∀ low high c, P low high c → Room cmp low high)
    (h : Chain P low ks cs high) :
    Room cmp low high ∧ ks.Pairwise (fun a b => cmp a b = .lt) ∧
      ∀ k ∈ ks, Room cmp low (some k) ∧ Room cmp (some k) high := by
  induction ks generalizing low cs with
  | nil =>
    obtain ⟨c, -, held⟩ := nil_iff.mp h
    exact ⟨room _ _ c held, .nil, nofun⟩
  | cons k ks ih =>
    obtain ⟨c, rest, rfl, held, tail⟩ := cons_iff.mp h
    obtain ⟨above, ascend, between⟩ := ih tail
    have below := room _ _ c held
    refine ⟨below.trans above, List.pairwise_cons.mpr ⟨fun l hl => (between l hl).1, ascend⟩, ?_⟩
    refine List.forall_mem_cons.mpr ⟨⟨below, above⟩, fun l hl => ?_⟩
    exact ⟨below.trans (between l hl).1, (between l hl).2⟩

theorem exists_within_of_mem [TransCmp cmp] (room : ∀ low high c, P low high c → Room cmp low high)
    (h : Chain P low ks cs high) {c : Nat} (hc : c ∈ cs) :
    ∃ a b, P a b c ∧ ∀ k, Within cmp a b k → Within cmp low high k := by
  induction ks generalizing low cs with
  | nil =>
    obtain ⟨d, rfl, held⟩ := nil_iff.mp h
    obtain rfl := List.mem_singleton.mp hc
    exact ⟨low, high, held, fun _ within => within⟩
  | cons k ks ih =>
    obtain ⟨d, rest, rfl, held, tail⟩ := cons_iff.mp h
    rcases List.mem_cons.mp hc with rfl | hc
    · exact ⟨low, some k, held, fun _ within => within.widen_right (tail.keys_ascend room).1⟩
    · obtain ⟨a, b, inner, widen⟩ := ih tail hc
      exact ⟨a, b, inner, fun l within => (widen l within).widen_left (room _ _ d held)⟩

/-- The child of a chain whose bounds a key lies within, in its place among the others. What stands
in for it between the same bounds makes a chain again. -/
structure Focus (cmp : κ → κ → Ordering) (P : Option κ → Option κ → Nat → Prop)
    (contents : Nat → List (Entry κ ν)) (key : κ) (low : Option κ) (ks : List κ) (cs : List Nat)
    (high : Option κ) (i : Nat) (before : List Nat) (child : Nat) (after : List Nat)
    (a b : Option κ) : Prop where
  children : cs = before ++ child :: after
  place : before.length = i
  held : P a b child
  within : Within cmp a b key
  less : ∀ e ∈ before.flatMap contents, cmp e.1 key = .lt
  greater : ∀ e ∈ after.flatMap contents, cmp e.1 key = .gt
  refill : ∀ {Q : Option κ → Option κ → Nat → Prop} {ks' : List κ} {cs' : List Nat},
    (∀ c ∈ before ++ after, ∀ low high, P low high c → Q low high c) → Chain Q a ks' cs' b →
      Chain Q low (ks.take i ++ ks' ++ ks.drop i) (before ++ cs' ++ after) high

theorem exists_focus [TransCmp cmp] {contents : Nat → List (Entry κ ν)} {key : κ} {i : Nat}
    (each : ∀ low high c, P low high c → Ordered cmp low high (contents c))
    (h : Chain P low ks cs high) (within : Within cmp low high key) (inside : i ≤ ks.length)
    (left : ∀ k ∈ ks.take i, (cmp k key).isLE = true) (right : ∀ k ∈ ks.drop i, cmp k key = .gt) :
    ∃ before child after a b, Focus cmp P contents key low ks cs high i before child after a b := by
  induction ks generalizing low cs i with
  | nil =>
    obtain ⟨c, rfl, held⟩ := nil_iff.mp h
    obtain rfl : i = 0 := Nat.le_zero.mp inside
    exact ⟨[], c, [], low, high, rfl, rfl, held, within, nofun, nofun,
      fun _ refilled => by simpa using refilled⟩
  | cons k ks ih =>
    obtain ⟨c, rest, rfl, held, tail⟩ := cons_iff.mp h
    cases i with
    | zero =>
      have less : cmp key k = .lt := OrientedCmp.gt_iff_lt.mp (right k List.mem_cons_self)
      refine ⟨[], c, rest, low, some k, rfl, rfl, held, ⟨within.1, less⟩, nofun, ?_, ?_⟩
      · intro e he
        have ordered : Ordered cmp (some k) high (rest.flatMap contents) :=
          tail.ordered fun low high c _ => each low high c
        exact OrientedCmp.gt_of_lt (TransCmp.lt_of_lt_of_isLE less (ordered.within e he).1)
      · intro Q ks' cs' kept refilled
        have length := refilled.length_eq
        have rest := tail.imp kept
        simpa using (append_iff length).mpr ⟨refilled, rest⟩
    | succ i =>
      simp only [List.take_succ_cons, List.forall_mem_cons, List.drop_succ_cons] at left right
      obtain ⟨before, child, after, a, b, focus⟩ :=
        ih tail ⟨left.1, within.2⟩ (Nat.le_of_succ_le_succ inside) left.2 right
      refine ⟨c :: before, child, after, a, b, ?_, ?_, focus.held, focus.within, ?_,
        focus.greater, ?_⟩
      · rw [focus.children, List.cons_append]
      · rw [List.length_cons, focus.place]
      · rw [List.flatMap_cons, List.forall_mem_append]
        refine ⟨fun e he => ?_, focus.less⟩
        exact TransCmp.lt_of_lt_of_isLE ((each _ _ c held).within e he).2 left.1
      · intro Q ks' cs' kept refilled
        rw [List.cons_append, List.forall_mem_cons] at kept
        exact ⟨kept.1 _ _ held, focus.refill kept.2 refilled⟩

end Chain
end SqlEngine.Index
