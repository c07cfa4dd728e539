import SqlEngine.Proofs.Index.Dictionary

/-! The shape of every tree that insertions can reach, said of its nodes alone. -/

namespace SqlEngine.Index.Tree

open Std

variable {κ ν : Type} {cmp : κ → κ → Ordering}

section

variable (t : Tree κ ν)

def keysAt (id : Nat) : List κ :=
  match t.nodes[id]? with
  | some (.leaf entries _) => entries.map (·.1)
  | some (.branch keys _) => keys
  | none => []

def leafAt (id : Nat) : Bool :=
  match t.nodes[id]? with
  | some (.leaf _ _) => true
  | _ => false

def stored : List (Entry κ ν) := (List.range t.nodes.size).flatMap t.entriesAt

inductive AtDepth : Nat → Nat → Prop where
  | root : AtDepth 1 t.root
  | child {depth id child : Nat} (above : AtDepth depth id) (listed : child ∈ t.childrenAt id) :
      AtDepth (depth + 1) child

inductive Under : Nat → Nat → Prop where
  | self {id : Nat} : Under id id
  | child {id child below : Nat} (listed : child ∈ t.childrenAt id) (under : Under child below) :
      Under id below

end

/-- What holds of the nodes of a tree. No node has more keys than `capacity`. -/
structure WellFormed (cmp : κ → κ → Ordering) (capacity : Nat) (t : Tree κ ν) : Prop where
  ascending : ∀ id, (t.keysAt id).Pairwise fun a b => cmp a b = .lt
  within : ∀ id, (t.keysAt id).length ≤ capacity
  children : ∀ (id : Nat) (keys : List κ) (children : List Nat),
    t.nodes[id]? = some (.branch keys children) →
    children.length = keys.length + 1
  /-- A separator is greater than the keys below the children to its left, and no key below the
  children to its right is less than it. -/
  separated : ∀ (id : Nat) (keys : List κ) (children : List Nat),
    t.nodes[id]? = some (.branch keys children) →
    ∀ (i : Nat) (separator : κ), keys[i]? = some separator →
    ∀ (j child : Nat), children[j]? = some child → ∀ below, t.Under child below →
    ∀ key ∈ t.keysAt below,
      if j ≤ i then cmp key separator = .lt else (cmp separator key).isLE = true
  reached : ∀ id < t.nodes.size, ∃ depth, t.AtDepth depth id
  depth : ∀ depth id, t.AtDepth depth id → t.leafAt id = true → depth = t.height
  /-- The references between leaves, from the leftmost one on, lead from left to right, and end. -/
  linked : t.Linked t.leftmostLeaf? (t.leavesBelow t.levels t.root) none
  once : (t.leavesBelow t.levels t.root).Nodup
  every : ∀ id, id ∈ t.leavesBelow t.levels t.root ↔ t.leafAt id = true
  keyCount : t.counts.keys = t.stored.length
  valueCount : t.counts.values = valueCount t.stored
  leafCount : t.counts.leaves = (List.range t.nodes.size).countP t.leafAt
  branchCount : t.counts.branches = (List.range t.nodes.size).countP fun id => !t.leafAt id

variable {t : Tree κ ν} {levels id : Nat} {root : Bool} {low high : Option κ}

theorem leafAt_of_leaf {entries : List (Entry κ ν)} {next : Option Nat}
    (h : t.nodes[id]? = some (.leaf entries next)) : t.leafAt id = true := by
  simp [leafAt, h]

theorem leafAt_of_branch {keys : List κ} {children : List Nat}
    (h : t.nodes[id]? = some (.branch keys children)) : t.leafAt id = false := by
  simp [leafAt, h]

theorem keysAt_of_leaf {entries : List (Entry κ ν)} {next : Option Nat}
    (h : t.nodes[id]? = some (.leaf entries next)) : t.keysAt id = entries.map (·.1) := by
  simp [keysAt, h]

theorem keysAt_of_branch {keys : List κ} {children : List Nat}
    (h : t.nodes[id]? = some (.branch keys children)) : t.keysAt id = keys := by
  simp [keysAt, h]

theorem lt_size_of_leafAt (h : t.leafAt id = true) : id < t.nodes.size := by
  by_contra outside
  rw [leafAt, Array.getElem?_eq_none (Nat.le_of_not_lt outside)] at h
  exact absurd h nofun

theorem childrenAt_of_leafAt (h : t.leafAt id = true) : t.childrenAt id = [] := by
  unfold leafAt at h
  unfold childrenAt
  split at h <;> simp_all

theorem entriesAt_of_not_leafAt (h : t.leafAt id = false) : t.entriesAt id = [] := by
  unfold leafAt at h
  unfold entriesAt
  split at h <;> simp_all

theorem flatMap_filter_leafAt (ids : List Nat) :
    (ids.filter t.leafAt).flatMap t.entriesAt = ids.flatMap t.entriesAt := by
  induction ids with
  | nil => rfl
  | cons id rest ih =>
    rw [List.filter_cons, List.flatMap_cons, ← ih]
    split
    · rfl
    · next branch => rw [entriesAt_of_not_leafAt (Bool.eq_false_iff.mpr branch), List.nil_append]

namespace Sound

theorem exists_of_mem {x : Nat} (sound : t.Sound cmp levels root low high id)
    (hx : x ∈ t.placesBelow levels id) : ∃ levels root low high, t.Sound cmp levels root low high x := by
  induction levels generalizing root low high id with
  | zero =>
    obtain rfl := List.mem_singleton.mp hx
    exact ⟨0, root, low, high, sound⟩
  | succ levels ih =>
    have whole := sound
    obtain ⟨keys, children, stored, -, chain⟩ := sound
    rw [placesBelow, childrenAt_of_branch stored, List.mem_cons, List.mem_flatMap] at hx
    rcases hx with rfl | ⟨c, hc, hx⟩
    · exact ⟨levels + 1, root, low, high, whole⟩
    · obtain ⟨_, _, held⟩ := chain.exists_of_mem hc
      exact ih held hx

theorem keysAt_within [TransCmp cmp] (sound : t.Sound cmp levels root low high id) :
    (t.keysAt id).Pairwise (fun a b => cmp a b = .lt) ∧ (t.keysAt id).length ≤ t.rules.order ∧
      ∀ k ∈ t.keysAt id, Within cmp low high k := by
  cases levels with
  | zero =>
    obtain ⟨entries, next, stored, leaf⟩ := sound
    rw [keysAt_of_leaf stored, List.pairwise_map, List.length_map, List.forall_mem_map]
    exact ⟨leaf.ascending, leaf.capacity, leaf.within⟩
  | succ levels =>
    obtain ⟨keys, children, stored, branch, chain⟩ := sound
    rw [keysAt_of_branch stored]
    obtain ⟨-, ascending, between⟩ := chain.keys_ascend fun _ _ _ held => held.ordered.room
    refine ⟨ascending, branch.capacity, fun k hk => ?_⟩
    exact ⟨(between k hk).1.atLeast, (between k hk).2.lessThan⟩

theorem keysAt_under [TransCmp cmp] {below : Nat} (sound : t.Sound cmp levels root low high id)
    (under : t.Under id below) : ∀ k ∈ t.keysAt below, Within cmp low high k := by
  induction under generalizing levels root low high with
  | self => exact sound.keysAt_within.2.2
  | @child id child below listed under ih =>
    cases levels with
    | zero =>
      obtain ⟨entries, next, stored, -⟩ := sound
      rw [childrenAt_of_leafAt (leafAt_of_leaf stored)] at listed
      exact absurd listed nofun
    | succ levels =>
      obtain ⟨keys, children, stored, -, chain⟩ := sound
      rw [childrenAt_of_branch stored] at listed
      obtain ⟨a, b, held, widen⟩ :=
        chain.exists_within_of_mem (fun _ _ _ held => held.ordered.room) listed
      exact fun k hk => widen k (ih held k hk)

theorem filter_leafAt (sound : t.Sound cmp levels root low high id) :
    (t.placesBelow levels id).filter t.leafAt = t.leavesBelow levels id := by
  induction levels generalizing root low high id with
  | zero =>
    obtain ⟨entries, next, stored, -⟩ := sound
    rw [placesBelow, leavesBelow, List.filter_singleton, leafAt_of_leaf stored]
    rfl
  | succ levels ih =>
    obtain ⟨keys, children, stored, -, chain⟩ := sound
    rw [placesBelow, leavesBelow, childrenAt_of_branch stored,
      List.filter_cons_of_neg (by simp [leafAt_of_branch stored]), List.filter_flatMap]
    refine List.flatMap_congr fun c hc => ?_
    obtain ⟨_, _, held⟩ := chain.exists_of_mem hc
    exact ih held

end Sound

theorem AtDepth.exists_of_mem {depth x : Nat} (above : t.AtDepth depth id)
    (hx : x ∈ t.placesBelow levels id) : ∃ depth, t.AtDepth depth x := by
  induction levels generalizing depth id with
  | zero =>
    obtain rfl := List.mem_singleton.mp hx
    exact ⟨depth, above⟩
  | succ levels ih =>
    rw [placesBelow, List.mem_cons, List.mem_flatMap] at hx
    rcases hx with rfl | ⟨c, hc, hx⟩
    · exact ⟨depth, above⟩
    · exact ih (above.child hc) hx

namespace Valid

theorem mem_placesBelow (valid : Valid cmp t) :
    id ∈ t.placesBelow t.levels t.root ↔ id < t.nodes.size := by
  have places := valid.covers.places
  rw [List.flatMap_singleton] at places
  rw [places.mem_iff, List.mem_range]

theorem sound_of_atDepth (valid : Valid cmp t) {depth : Nat} (h : t.AtDepth depth id) :
    ∃ levels root low high, depth + levels = t.height ∧ t.Sound cmp levels root low high id := by
  induction h with
  | root => exact ⟨t.levels, true, none, none, by rw [valid.height, Nat.add_comm], valid.sound⟩
  | @child depth id child above listed ih =>
    obtain ⟨levels, root, low, high, sum, sound⟩ := ih
    cases levels with
    | zero =>
      obtain ⟨entries, next, stored, -⟩ := sound
      rw [childrenAt_of_leafAt (leafAt_of_leaf stored)] at listed
      exact absurd listed nofun
    | succ levels =>
      obtain ⟨keys, children, stored, -, chain⟩ := sound
      rw [childrenAt_of_branch stored] at listed
      obtain ⟨_, _, held⟩ := chain.exists_of_mem listed
      exact ⟨levels, false, _, _, by omega, held⟩

theorem sound_of_lt (valid : Valid cmp t) (inside : id < t.nodes.size) :
    ∃ levels root low high, t.Sound cmp levels root low high id :=
  valid.sound.exists_of_mem (valid.mem_placesBelow.mpr inside)

theorem chain_of_branch (valid : Valid cmp t) {keys : List κ} {children : List Nat}
    (stored : t.nodes[id]? = some (.branch keys children)) :
    ∃ levels low high, Chain (t.Sound cmp levels false) low keys children high := by
  obtain ⟨levels, root, low, high, sound⟩ :=
    valid.sound_of_lt (Array.getElem?_eq_some_iff.mp stored).1
  cases levels with
  | zero =>
    obtain ⟨entries, next, leaf, -⟩ := sound
    exact absurd (stored.symm.trans leaf) nofun
  | succ levels =>
    obtain ⟨keys', children', stored', -, chain⟩ := sound
    obtain ⟨rfl, rfl⟩ := Node.branch.inj (Option.some.inj (stored.symm.trans stored'))
    exact ⟨levels, low, high, chain⟩

/-- Keys to the left of a separator are less than it, those to its right are not. -/
theorem separated [TransCmp cmp] (valid : Valid cmp t) {keys : List κ} {children : List Nat}
    (stored : t.nodes[id]? = some (.branch keys children)) {i j child below : Nat} {separator : κ}
    (hi : keys[i]? = some separator) (hj : children[j]? = some child) (under : t.Under child below) :
    ∀ key ∈ t.keysAt below,
      if j ≤ i then cmp key separator = .lt else (cmp separator key).isLE = true := by
  obtain ⟨levels, low, high, chain⟩ := valid.chain_of_branch stored
  obtain ⟨inside, rfl⟩ := List.getElem?_eq_some_iff.mp hi
  obtain ⟨inside', rfl⟩ := List.getElem?_eq_some_iff.mp hj
  have length := chain.length_eq
  rw [← List.take_append_drop i keys, List.drop_eq_getElem_cons inside,
    ← List.take_append_drop (i + 1) children, Chain.append_iff
      (by rw [List.length_take, List.length_take]; omega)] at chain
  intro key listed
  have room (low high : Option κ) (c : Nat) (held : t.Sound cmp levels false low high c) :=
    held.ordered.room
  split
  · next left =>
    obtain ⟨a, b, held, widen⟩ := chain.1.exists_within_of_mem room
      (List.mem_take_iff_getElem.mpr ⟨j, by omega, rfl⟩)
    exact (widen key (held.keysAt_under under key listed)).2
  · next right =>
    have place : children[j] ∈ children.drop (i + 1) :=
      List.mem_drop_iff_getElem.mpr ⟨j - (i + 1), by omega, by congr 1; omega⟩
    obtain ⟨a, b, held, widen⟩ := chain.2.exists_within_of_mem room place
    exact (widen key (held.keysAt_under under key listed)).1

theorem stored_perm (valid : Valid cmp t) : t.stored.Perm t.contents := by
  have places := valid.covers.places
  rw [List.flatMap_singleton] at places
  rw [contents, contentsBelow, ← valid.sound.filter_leafAt, flatMap_filter_leafAt]
  exact places.symm.flatMap_right t.entriesAt

theorem wellFormed [TransCmp cmp] (valid : Valid cmp t) : WellFormed cmp t.rules.order t := by
  have covers := valid.covers
  have places := covers.places
  rw [List.flatMap_singleton] at places
  have filtered := valid.sound.filter_leafAt
  have node (id : Nat) : t.keysAt id = [] ∨
      ∃ levels root low high, t.Sound cmp levels root low high id := by
    by_cases inside : id < t.nodes.size
    · exact .inr (valid.sound_of_lt inside)
    · left
      simp [keysAt, Array.getElem?_eq_none (Nat.le_of_not_lt inside)]
  constructor
  case ascending =>
    intro id
    rcases node id with none | ⟨_, _, _, _, sound⟩
    · rw [none]
      exact .nil
    · exact sound.keysAt_within.1
  case within =>
    intro id
    rcases node id with none | ⟨_, _, _, _, sound⟩
    · rw [none]
      exact Nat.zero_le _
    · exact sound.keysAt_within.2.1
  case children =>
    intro id keys children stored
    obtain ⟨_, _, _, chain⟩ := valid.chain_of_branch stored
    exact chain.length_eq
  case separated =>
    intro id keys children stored i separator hi j child hj below under
    exact valid.separated stored hi hj under
  case reached =>
    intro id inside
    exact AtDepth.root.exists_of_mem (valid.mem_placesBelow.mpr inside)
  case depth =>
    intro depth id above leaf
    obtain ⟨levels, root, low, high, sum, sound⟩ := valid.sound_of_atDepth above
    cases levels with
    | zero => exact sum
    | succ levels =>
      obtain ⟨keys, children, stored, -⟩ := sound
      rw [leafAt_of_branch stored] at leaf
      exact absurd leaf nofun
  case linked =>
    obtain ⟨leaf, after, leaves, leftmost⟩ := valid.leftmostLeaf?_eq
    obtain ⟨start, linked⟩ := valid.linked
    have first := linked
    rw [leaves] at first
    rw [leftmost, ← first.1]
    exact linked
  case once =>
    rw [← filtered]
    exact (places.nodup_iff.mpr List.nodup_range).filter _
  case every =>
    intro id
    rw [← filtered, List.mem_filter, valid.mem_placesBelow]
    exact ⟨fun h => h.2, fun h => ⟨lt_size_of_leafAt h, h⟩⟩
  case keyCount =>
    rw [valid.stored_perm.length_eq, covers.keyCount, List.flatMap_singleton]
    rfl
  case valueCount =>
    rw [covers.valueCount, List.flatMap_singleton]
    exact ((valid.stored_perm.map _).sum_nat).symm
  case leafCount =>
    rw [covers.leafCount, List.flatMap_singleton, ← filtered, ← List.countP_eq_length_filter,
      places.countP_eq]
  case branchCount =>
    have leaves := covers.leafCount
    have nodes := covers.nodeCount
    rw [List.flatMap_singleton, ← filtered, ← List.countP_eq_length_filter, places.countP_eq] at leaves
    have all := List.length_eq_countP_add_countP t.leafAt (l := List.range t.nodes.size)
    rw [List.length_range] at all
    have branches : t.counts.branches = (List.range t.nodes.size).countP fun id => ¬t.leafAt id := by
      omega
    simpa using branches

end Valid

/-- Whatever is inserted into a new tree, in whatever order: the tree keeps its shape. -/
theorem insertAll_wellFormed [TransCmp cmp] [BEq ν] (order : Nat) (unique : Bool)
    (calls : List (κ × ν)) :
    WellFormed cmp (max order 3) (insertAll cmp (empty (.ofOrder order unique)) calls) := by
  have holds : Holds cmp (.ofOrder order unique) _ _ := holds_insertAll order unique calls
  have shape := holds.valid.wellFormed
  rwa [holds.rules] at shape

theorem insertAll_wellFormed_ascending :
    TransCmp (compare : Nat → Nat → Ordering) ∧
      WellFormed compare 3 (insertAll compare (empty (.ofOrder 0 true))
        [(1, 10), (2, 20), (3, 30), (4, 40), (5, 50), (6, 60)]) ∧
      (insertAll compare (empty (.ofOrder 0 true))
        [(1, 10), (2, 20), (3, 30), (4, 40), (5, 50), (6, 60)]).counts = ⟨6, 6, 3, 1⟩ :=
  ⟨inferInstance, insertAll_wellFormed 0 true _, by decide⟩

end SqlEngine.Index.Tree
