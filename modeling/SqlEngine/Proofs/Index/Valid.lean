import SqlEngine.Proofs.Index.Insertion

/-! The invariant of trees: one sound subtree hangs below the root, it takes up the whole arena, its
leaves refer to each other in a row, and the counts are right. -/

namespace SqlEngine.Index.Tree

open Std

variable {κ ν : Type} {cmp : κ → κ → Ordering}

structure Covers (t : Tree κ ν) (levels : Nat) (ids : List Nat) : Prop where
  places : (ids.flatMap (t.placesBelow levels)).Perm (List.range t.nodes.size)
  linked : ∃ start, t.Linked start (ids.flatMap (t.leavesBelow levels)) none
  keyCount : t.counts.keys = (ids.flatMap (t.contentsBelow levels)).length
  valueCount : t.counts.values = valueCount (ids.flatMap (t.contentsBelow levels))
  leafCount : t.counts.leaves = (ids.flatMap (t.leavesBelow levels)).length
  nodeCount : t.counts.leaves + t.counts.branches = t.nodes.size

def levels (t : Tree κ ν) : Nat := t.height - 1

def contents (t : Tree κ ν) : List (Entry κ ν) := t.contentsBelow t.levels t.root

structure Valid (cmp : κ → κ → Ordering) (t : Tree κ ν) : Prop where
  order : 3 ≤ t.rules.order
  height : t.height = t.levels + 1
  sound : t.Sound cmp t.levels true none none t.root
  covers : t.Covers t.levels [t.root]

theorem valid_empty (order : Nat) (unique : Bool) :
    Valid cmp (empty (.ofOrder order unique) : Tree κ ν) := by
  have stored : (empty (.ofOrder order unique) : Tree κ ν).nodes[0]? =
      some (.leaf [] none) := rfl
  refine ⟨Nat.le_max_right order 3, rfl, ⟨[], none, stored, ?_⟩, ?_⟩
  · exact ⟨⟨trivial, .nil, nofun⟩, Nat.zero_le _, nofun⟩
  · constructor
    case linked =>
      exact ⟨some 0, rfl, nextAt_of_leaf stored⟩
    all_goals rfl

section

variable {t t' : Tree κ ν} {separator : κ} {right : Nat}

theorem growRoot_stored (root : t'.root = t.root) :
    (t'.growRoot separator right).nodes[t'.nodes.size]? =
      some (.branch [separator] [t.root, right]) := by
  simp [growRoot, count, pushNode, root]

theorem growRoot_agrees {levels : Nat} {ids : List Nat}
    (inside : ∀ c ∈ ids, ∀ x ∈ t'.placesBelow levels c, x < t'.nodes.size) :
    t'.AgreesBelow (t'.growRoot separator right) levels ids := by
  intro c hc x hx
  simp [growRoot, count, pushNode, Array.getElem?_push, Nat.ne_of_lt (inside c hc x hx)]

/-- The new root covers what the two halves of the old one did. -/
theorem Covers.growRoot {levels : Nat} (root : t'.root = t.root)
    (below : t'.AgreesBelow (t'.growRoot separator right) levels [t.root, right])
    (covers : t'.Covers levels [t.root, right]) :
    (t'.growRoot separator right).Covers (levels + 1) [t'.nodes.size] := by
  have handed : [t'.nodes.size].flatMap (t'.growRoot separator right).childrenAt =
      [t.root, right] := by
    rw [List.flatMap_singleton, childrenAt_of_branch (growRoot_stored root)]
  have size : (t'.growRoot separator right).nodes.size = t'.nodes.size + 1 := by
    simp [Tree.growRoot, count, pushNode]
  have counts : (t'.growRoot separator right).counts =
      { t'.counts with branches := t'.counts.branches + 1 } := rfl
  constructor
  case places =>
    rw [size, List.range_succ]
    refine (placesBelow_children handed).trans ?_
    rw [below.placesBelow_eq]
    exact List.perm_append_comm.trans (covers.places.append_right _)
  case linked =>
    obtain ⟨start, linked⟩ := covers.linked
    rw [leavesBelow_children handed]
    exact ⟨start, linked.below below⟩
  case keyCount =>
    rw [contentsBelow_children handed, below.contentsBelow_eq]
    exact covers.keyCount
  case valueCount =>
    rw [contentsBelow_children handed, below.contentsBelow_eq]
    exact covers.valueCount
  case leafCount =>
    rw [leavesBelow_children handed, below.leavesBelow_eq]
    exact covers.leafCount
  case nodeCount =>
    rw [counts, size, ← covers.nodeCount]
    rfl

end

section

variable [BEq ν] {key : κ} {value : ν} {t t' : Tree κ ν}

theorem Grew.covers {levels : Nat} {root : Bool} {low high : Option κ} {ids ids' : List Nat}
    {keys : List κ} (grew : Grew cmp key value levels root low high t ids keys ids' t')
    (covers : t.Covers levels ids) : t'.Covers levels ids' := by
  obtain ⟨start, linked⟩ := covers.linked
  have keyCount := grew.keyCount
  have valueCount := grew.valueCount
  have leafCount := grew.leafCount
  have nodeCount := grew.nodeCount
  rw [covers.keyCount] at keyCount
  rw [covers.valueCount] at valueCount
  rw [covers.leafCount] at leafCount
  rw [covers.nodeCount] at nodeCount
  refine ⟨?_, ⟨start, grew.linked _ _ linked⟩, by omega, by omega, by omega, by omega⟩
  have new := range'_append_of_le (Nat.zero_le _) grew.size_le
  rw [Nat.sub_zero, Nat.sub_zero, ← List.range_eq_range', ← List.range_eq_range'] at new
  rw [← new]
  exact grew.places.trans (covers.places.append_right _)

inductive Step (cmp : κ → κ → Ordering) (key : κ) (value : ν) (t : Tree κ ν) :
    Except InsertFault Unit × Tree κ ν → Prop where
  | repeated {e : Entry κ ν} (listed : e ∈ t.contents) (same : cmp e.1 key = .eq)
      (there : e.2.any (· == value) = true) : Step cmp key value t (.ok (), t)
  | refused {e : Entry κ ν} (listed : e ∈ t.contents) (same : cmp e.1 key = .eq)
      (absent : e.2.any (· == value) = false) (unique : t.rules.unique = true) :
      Step cmp key value t (.error .duplicate, t)
  | taken {t' : Tree κ ν} (valid : Valid cmp t') (rules : t'.rules = t.rules)
      (put : Put cmp t.rules.unique key value t.contents t'.contents) :
      Step cmp key value t (.ok (), t')

theorem Grew.growRoot_taken {separator : κ} {right : Nat} (valid : Valid cmp t)
    (grew : Grew cmp key value t.levels false none none t [t.root] [separator] [t.root, right] t') :
    Step cmp key value t (.ok (), t'.growRoot separator right) := by
  have levels : (t'.growRoot separator right).levels = t.levels + 1 := grew.height.trans valid.height
  have stored : (t'.growRoot separator right).nodes[t'.nodes.size]? =
      some (.branch [separator] [t.root, right]) :=
    growRoot_stored grew.rootPlace
  have below : t'.AgreesBelow (t'.growRoot separator right) t.levels [t.root, right] := by
    refine growRoot_agrees fun c hc => ?_
    obtain ⟨_, _, held⟩ := grew.sound.exists_of_mem hc
    exact held.places_lt
  have root : (t'.growRoot separator right).root = t'.nodes.size := rfl
  have order := valid.order
  refine .taken ⟨grew.rules ▸ order, ?_, ?_, ?_⟩ grew.rules ?_
  · rw [levels, ← valid.height]
    exact congrArg (· + 1) grew.height
  · rw [levels, root]
    refine ⟨[separator], [t.root, right], stored, ⟨List.cons_ne_nil _ _, ?_, ?_⟩, ?_⟩
    · show 1 ≤ t'.rules.order
      rw [grew.rules]
      omega
    · exact fun inner => absurd inner (by decide)
    · exact below.chain rfl grew.sound
  · rw [levels, root]
    exact (grew.covers valid.covers).growRoot grew.rootPlace below
  · have put := grew.contents
    have children := childrenAt_of_branch stored
    rw [Tree.contents, Tree.contents, levels, root, contentsBelow_succ, children,
      below.contentsBelow_eq]
    rwa [List.flatMap_singleton] at put

theorem Valid.insert_step [TransCmp cmp] (valid : Valid cmp t) (key : κ) (value : ν) :
    Step cmp key value t (t.insert cmp key value) := by
  have places := valid.covers.places
  rw [List.flatMap_singleton] at places
  have fuel : t.levels < t.nodes.size := by
    have below := valid.sound.levels_lt
    rwa [places.length_eq, List.length_range] at below
  have inserted : Inserted cmp key value t.levels true none none t t.root _ :=
    insertAt_inserted valid.order fuel valid.sound (places.nodup_iff.mpr List.nodup_range)
      ⟨trivial, trivial⟩
  unfold insert
  generalize t.insertAt cmp key value t.nodes.size t.root = answer at inserted ⊢
  cases inserted with
  | «repeated» listed same there => exact .repeated listed same there
  | refused listed same absent unique => exact .refused listed same absent unique
  | split grew => exact grew.growRoot_taken valid
  | @grown t' grew =>
    have levels : t'.levels = t.levels := by rw [Tree.levels, grew.height, Tree.levels]
    refine .taken ⟨grew.rules ▸ valid.order, ?_, ?_, ?_⟩ grew.rules ?_
    · rw [grew.height, levels, valid.height]
    · rw [levels, grew.rootPlace]
      exact grew.sound
    · rw [levels, grew.rootPlace]
      exact grew.covers valid.covers
    · have put := grew.contents
      rw [contents, contents, levels, grew.rootPlace]
      rwa [List.flatMap_singleton, List.flatMap_singleton] at put

end
end SqlEngine.Index.Tree
