import SqlEngine.Proofs.Index.Subtree

/-! What an insertion does to a subtree. It leaves everything as it was, or it puts one pair into the
contents of one leaf and splits the nodes that have become too large on the way back up. -/

namespace SqlEngine.Index

open Std

variable {κ ν : Type} {cmp : κ → κ → Ordering} {unique : Bool} {key : κ} {value : ν}

def valueCount (entries : List (Entry κ ν)) : Nat := (entries.map fun e => e.2.length).sum

theorem valueCount_append (entries entries' : List (Entry κ ν)) :
    valueCount (entries ++ entries') = valueCount entries + valueCount entries' := by
  simp [valueCount]

theorem Tree.leafSound_halves [TransCmp cmp] {low high : Option κ} {order : Nat} (positive : 0 < order)
    {left right : List (Entry κ ν)} {first : Entry κ ν}
    (ordered : Ordered cmp low high (left ++ first :: right))
    (length : (left ++ first :: right).length = order + 1) (half : left.length = (order + 1) / 2) :
    LeafSound cmp order false low (some first.1) left ∧
      LeafSound cmp order false (some first.1) high (first :: right) := by
  rw [List.length_append] at length
  have nonempty : left ≠ [] := by
    rintro rfl
    rw [List.length_nil] at half
    omega
  obtain ⟨orderedLeft, orderedRight⟩ := ordered.split nonempty
  exact ⟨⟨orderedLeft, by omega, fun _ => by omega⟩, orderedRight, by omega, fun _ => by omega⟩

variable [BEq ν]

inductive Put (cmp : κ → κ → Ordering) (unique : Bool) (key : κ) (value : ν) :
    List (Entry κ ν) → List (Entry κ ν) → Prop where
  | fresh {before after : List (Entry κ ν)} (less : ∀ e ∈ before, cmp e.1 key = .lt)
      (greater : ∀ e ∈ after, cmp e.1 key = .gt) :
      Put cmp unique key value (before ++ after) (before ++ (key, [value]) :: after)
  | further {before after : List (Entry κ ν)} {k : κ} {values : List ν}
      (less : ∀ e ∈ before, cmp e.1 key = .lt) (same : cmp k key = .eq)
      (greater : ∀ e ∈ after, cmp e.1 key = .gt) (absent : values.any (· == value) = false)
      (many : unique = false) :
      Put cmp unique key value (before ++ (k, values) :: after)
        (before ++ (k, values ++ [value]) :: after)

namespace Put

variable {entries entries' : List (Entry κ ν)}

theorem within (h : Put cmp unique key value entries entries') {left right : List (Entry κ ν)}
    (less : ∀ e ∈ left, cmp e.1 key = .lt) (greater : ∀ e ∈ right, cmp e.1 key = .gt) :
    Put cmp unique key value (left ++ entries ++ right) (left ++ entries' ++ right) := by
  cases h with
  | fresh lessMid greaterMid =>
    have all : Put cmp unique key value _ _ := fresh (List.forall_mem_append.mpr ⟨less, lessMid⟩)
      (List.forall_mem_append.mpr ⟨greaterMid, greater⟩)
    simpa using all
  | further lessMid same greaterMid absent many =>
    have all := further (List.forall_mem_append.mpr ⟨less, lessMid⟩) same
      (List.forall_mem_append.mpr ⟨greaterMid, greater⟩) absent many
    simpa using all

theorem ordered [TransCmp cmp] (h : Put cmp unique key value entries entries') {low high : Option κ}
    (within : Within cmp low high key) (ordered : Ordered cmp low high entries) :
    Ordered cmp low high entries' := by
  obtain ⟨room, ascending, bounded⟩ := ordered
  cases h with
  | fresh less greater =>
    rw [List.pairwise_append] at ascending
    rw [List.forall_mem_append] at bounded
    refine ⟨room, ?_, ?_⟩
    · refine List.pairwise_append.mpr ⟨ascending.1, List.pairwise_cons.mpr ⟨fun e he => ?_,
        ascending.2.1⟩, fun a ha => List.forall_mem_cons.mpr ⟨less a ha, ascending.2.2 a ha⟩⟩
      exact OrientedCmp.gt_iff_lt.mp (greater e he)
    · exact List.forall_mem_append.mpr ⟨bounded.1, List.forall_mem_cons.mpr ⟨within, bounded.2⟩⟩
  | further less same greater absent many =>
    simp only [List.pairwise_append, List.pairwise_cons, List.forall_mem_append,
      List.forall_mem_cons] at ascending bounded
    refine ⟨room, ?_, ?_⟩
    · simpa only [List.pairwise_append, List.pairwise_cons, List.forall_mem_cons] using ascending
    · simpa only [List.forall_mem_append, List.forall_mem_cons] using bounded

end Put

namespace Tree

/-- A tree in which a row of subtrees has taken in a pair. Where they have split, the new row has
more of them. Nothing but the old row and nodes that were not there before has changed. -/
structure Grew (cmp : κ → κ → Ordering) (key : κ) (value : ν) (levels : Nat) (root : Bool)
    (low high : Option κ) (t : Tree κ ν) (ids : List Nat) (keys : List κ) (ids' : List Nat)
    (t' : Tree κ ν) : Prop where
  rules : t'.rules = t.rules
  rootPlace : t'.root = t.root
  height : t'.height = t.height
  sound : Chain (t'.Sound cmp levels root) low keys ids' high
  size_le : t.nodes.size ≤ t'.nodes.size
  agrees : ∀ x < t.nodes.size, x ∉ ids.flatMap (t.placesBelow levels) →
    t'.nodes[x]? = t.nodes[x]?
  places : (ids'.flatMap (t'.placesBelow levels)).Perm (ids.flatMap (t.placesBelow levels) ++
    List.range' t.nodes.size (t'.nodes.size - t.nodes.size))
  contents : Put cmp t.rules.unique key value (ids.flatMap (t.contentsBelow levels))
    (ids'.flatMap (t'.contentsBelow levels))
  linked : ∀ start stop, t.Linked start (ids.flatMap (t.leavesBelow levels)) stop →
    t'.Linked start (ids'.flatMap (t'.leavesBelow levels)) stop
  keyCount : t'.counts.keys + (ids.flatMap (t.contentsBelow levels)).length =
    t.counts.keys + (ids'.flatMap (t'.contentsBelow levels)).length
  valueCount : t'.counts.values + valueCount (ids.flatMap (t.contentsBelow levels)) =
    t.counts.values + valueCount (ids'.flatMap (t'.contentsBelow levels))
  leafCount : t'.counts.leaves + (ids.flatMap (t.leavesBelow levels)).length =
    t.counts.leaves + (ids'.flatMap (t'.leavesBelow levels)).length
  nodeCount : t'.counts.leaves + t'.counts.branches + t.nodes.size =
    t.counts.leaves + t.counts.branches + t'.nodes.size

namespace Grew

variable {t t' : Tree κ ν} {id : Nat} {root : Bool} {low high : Option κ}
  {entries entries' : List (Entry κ ν)} {next : Option Nat}

theorem of_leaf (stored : t.nodes[id]? = some (.leaf entries next))
    (put : Put cmp t.rules.unique key value entries entries')
    (sound : LeafSound cmp t.rules.order root low high entries')
    (keys : t'.counts.keys + entries.length = t.counts.keys + entries'.length)
    (values : t'.counts.values + Index.valueCount entries =
      t.counts.values + Index.valueCount entries')
    (leaves : t'.counts.leaves = t.counts.leaves) (branches : t'.counts.branches = t.counts.branches)
    (nodes : t'.nodes = t.nodes.setIfInBounds id (.leaf entries' next)) (rules : t'.rules = t.rules)
    (rootPlace : t'.root = t.root) (height : t'.height = t.height) :
    Grew cmp key value 0 root low high t [id] [] [id] t' := by
  have inside := (Array.getElem?_eq_some_iff.mp stored).1
  have stored' : t'.nodes[id]? = some (.leaf entries' next) := by
    rw [nodes, Array.getElem?_setIfInBounds_self_of_lt inside]
  have size : t'.nodes.size = t.nodes.size := by simp [nodes]
  constructor
  case sound => exact ⟨entries', next, stored', rules ▸ sound⟩
  case agrees =>
    intro x _ apart
    rw [nodes, Array.getElem?_setIfInBounds_ne]
    simpa [placesBelow, eq_comm] using apart
  case places => simp [placesBelow, size]
  case linked =>
    intro start stop
    simp [leavesBelow, Linked, nextAt_of_leaf stored, nextAt_of_leaf stored']
  all_goals simp [leavesBelow, entriesAt_of_leaf stored, entriesAt_of_leaf stored', *]

theorem of_leafSplit {left right : List (Entry κ ν)} {separator : κ}
    (stored : t.nodes[id]? = some (.leaf entries next))
    (put : Put cmp t.rules.unique key value entries (left ++ right))
    (soundLeft : LeafSound cmp t.rules.order false low (some separator) left)
    (soundRight : LeafSound cmp t.rules.order false (some separator) high right)
    (keys : t'.counts.keys + entries.length = t.counts.keys + (left ++ right).length)
    (values : t'.counts.values + Index.valueCount entries =
      t.counts.values + Index.valueCount (left ++ right))
    (leaves : t'.counts.leaves = t.counts.leaves + 1)
    (branches : t'.counts.branches = t.counts.branches)
    (nodes : t'.nodes = (t.nodes.setIfInBounds id (.leaf left (some t.nodes.size))).push
      (.leaf right next)) (rules : t'.rules = t.rules)
    (rootPlace : t'.root = t.root) (height : t'.height = t.height) :
    Grew cmp key value 0 false low high t [id] [separator] [id, t.nodes.size] t' := by
  have inside := (Array.getElem?_eq_some_iff.mp stored).1
  have storedLeft : t'.nodes[id]? = some (.leaf left (some t.nodes.size)) := by
    rw [nodes, Array.getElem?_push, if_neg (by simpa using Nat.ne_of_lt inside),
      Array.getElem?_setIfInBounds_self_of_lt inside]
  have storedRight : t'.nodes[t.nodes.size]? = some (.leaf right next) := by
    rw [nodes, Array.getElem?_push, if_pos (by simp)]
  have size : t'.nodes.size = t.nodes.size + 1 := by simp [nodes]
  constructor
  case sound =>
    exact ⟨⟨left, _, storedLeft, rules ▸ soundLeft⟩, right, next, storedRight, rules ▸ soundRight⟩
  case agrees =>
    intro x old apart
    have differs : id ≠ x := by simpa [placesBelow, eq_comm] using apart
    rw [nodes, Array.getElem?_push, if_neg (by simpa using Nat.ne_of_lt old),
      Array.getElem?_setIfInBounds_ne differs]
  case places => simp [placesBelow, size]
  case linked =>
    intro start stop
    simp [leavesBelow, Linked, nextAt_of_leaf stored, nextAt_of_leaf storedLeft,
      nextAt_of_leaf storedRight]
  all_goals simp [leavesBelow, entriesAt_of_leaf stored, entriesAt_of_leaf storedLeft,
    entriesAt_of_leaf storedRight, *]
  all_goals omega

end Grew

/-- What an insertion has done to a subtree. -/
inductive Inserted (cmp : κ → κ → Ordering) (key : κ) (value : ν) (levels : Nat) (root : Bool)
    (low high : Option κ) (t : Tree κ ν) (id : Nat) : Answer κ × Tree κ ν → Prop where
  | repeated {e : Entry κ ν} (listed : e ∈ t.contentsBelow levels id) (same : cmp e.1 key = .eq)
      (there : e.2.any (· == value) = true) :
      Inserted cmp key value levels root low high t id (.ok none, t)
  | refused {e : Entry κ ν} (listed : e ∈ t.contentsBelow levels id) (same : cmp e.1 key = .eq)
      (absent : e.2.any (· == value) = false) (unique : t.rules.unique = true) :
      Inserted cmp key value levels root low high t id (.error .duplicate, t)
  | grown {t' : Tree κ ν} (grew : Grew cmp key value levels root low high t [id] [] [id] t') :
      Inserted cmp key value levels root low high t id (.ok none, t')
  | split {t' : Tree κ ν} {separator : κ} {right : Nat}
      (grew : Grew cmp key value levels false low high t [id] [separator] [id, right] t') :
      Inserted cmp key value levels root low high t id (.ok (some (separator, right)), t')

variable {t : Tree κ ν} {id : Nat} {root : Bool} {low high : Option κ}

theorem settleLeaf_inserted [TransCmp cmp] {entries entries' : List (Entry κ ν)} {next : Option Nat}
    (positive : 0 < t.rules.order) (stored : t.nodes[id]? = some (.leaf entries next))
    (sound : LeafSound cmp t.rules.order root low high entries) (within : Within cmp low high key)
    (put : Put cmp t.rules.unique key value entries entries')
    (length : entries'.length = entries.length + 1)
    (values : valueCount entries' = valueCount entries + 1) :
    Inserted cmp key value 0 root low high t id
      ((t.count { Counts.zero with keys := 1, values := 1 }).settleLeaf id entries' next) := by
  have ordered := put.ordered within sound.toOrdered
  unfold settleLeaf
  split
  · next large =>
    have full : entries'.length = t.rules.order + 1 := by
      have capacity := sound.capacity
      have large : entries'.length > t.rules.order := large
      omega
    have half : (entries'.take (entries'.length / 2)).length = (t.rules.order + 1) / 2 := by
      rw [List.length_take, full]
      omega
    have split := List.take_append_drop (entries'.length / 2) entries'
    unfold splitLeaf
    cases upper : entries'.drop (entries'.length / 2) with
    | nil =>
      have none := congrArg List.length upper
      rw [List.length_drop, List.length_nil] at none
      omega
    | cons first rest =>
      rw [upper] at split
      obtain ⟨left, right⟩ := leafSound_halves positive (split ▸ ordered)
        (by rw [split, full]) half
      simp only [upper]
      refine .split (Grew.of_leafSplit stored (by rw [split]; exact put) left right ?_ ?_ ?_ ?_
        rfl rfl rfl rfl)
      all_goals simp only [split, count, pushNode, setNode, Counts.add, Counts.zero]
      all_goals omega
  · next small =>
    have small : entries'.length ≤ t.rules.order := Nat.le_of_not_gt small
    refine .grown (.of_leaf stored put ⟨ordered, small, fun inner => ?_⟩ ?_ ?_ ?_ ?_ rfl rfl rfl rfl)
    · have filled := sound.filled inner
      omega
    all_goals simp only [count, setNode, Counts.add, Counts.zero]
    all_goals omega

theorem insertIntoLeaf_inserted [TransCmp cmp] {entries : List (Entry κ ν)} {next : Option Nat}
    (positive : 0 < t.rules.order) (stored : t.nodes[id]? = some (.leaf entries next))
    (sound : LeafSound cmp t.rules.order root low high entries) (within : Within cmp low high key) :
    Inserted cmp key value 0 root low high t id
      (t.insertIntoLeaf cmp key value id entries next) := by
  have parts := locate_parts (ascends_of_ascending (f := Prod.fst) sound.ascending key)
  unfold insertIntoLeaf
  generalize locate (fun e : Entry κ ν => cmp e.1 key) entries = spot at parts ⊢
  cases parts with
  | @found before after e less same greater =>
    obtain ⟨k, values⟩ := e
    have listed : (k, values) ∈ t.contentsBelow 0 id := by
      simp [entriesAt_of_leaf stored]
    simp only [Nat.zero_add, List.getElem?_append_right, Nat.le_refl, Nat.sub_self,
      List.getElem?_cons_zero, List.set_append_right, List.set_cons_zero]
    split
    · next there => exact .repeated listed same there
    · next absent =>
      have absent : values.any (· == value) = false := Bool.eq_false_iff.mpr absent
      split
      · next unique => exact .refused listed same absent unique
      · next many =>
        have many : t.rules.unique = false := Bool.eq_false_iff.mpr many
        have put := Put.further less same greater absent many
        refine .grown (.of_leaf stored put ⟨put.ordered within sound.toOrdered, ?_, ?_⟩ ?_ ?_ ?_ ?_
          rfl rfl rfl rfl)
        · simpa using sound.capacity
        · simpa using sound.filled
        all_goals simp [count, setNode, Counts.add, Counts.zero, valueCount]
        omega
  | between before after less greater =>
    have place : (before ++ after).insertIdx (0 + before.length) (key, [value]) =
        before ++ (key, [value]) :: after :=
      insertIdx_append (Nat.zero_add _).symm _ _
    simp only [place]
    refine settleLeaf_inserted positive stored sound within (.fresh less greater) ?_ ?_
    · simp
      omega
    · simp [valueCount]
      omega

variable {t' : Tree κ ν} {levels : Nat} {keys keys' : List κ} {children cs : List Nat}

theorem setIfInBounds_self {α : Type} {xs : Array α} {i : Nat} {x : α} (h : xs[i]? = some x) :
    xs.setIfInBounds i x = xs := by
  refine Array.ext_getElem? fun j => ?_
  rw [Array.getElem?_setIfInBounds]
  split
  · next same =>
    subst same
    rw [h, if_pos (Array.getElem?_eq_some_iff.mp h).1]
  · rfl

theorem perm_within {before middle middle' after more : List Nat} (h : middle'.Perm (middle ++ more)) :
    (before ++ middle' ++ after).Perm (before ++ middle ++ after ++ more) := by
  rw [List.append_assoc _ after more]
  refine ((h.append_left before).append_right after).trans ?_
  rw [← List.append_assoc before, List.append_assoc _ more]
  exact List.perm_append_comm.append_left _

theorem Grew.inRow [TransCmp cmp] {i : Nat} {before after : List Nat} {child : Nat} {a b : Option κ}
    (focus : Chain.Focus cmp (t.Sound cmp levels false) (t.contentsBelow levels) key low keys
      children high i before child after a b)
    (bound : ∀ x ∈ children.flatMap (t.placesBelow levels), x < t.nodes.size)
    (distinct : (children.flatMap (t.placesBelow levels)).Nodup)
    (grew : Grew cmp key value levels false a b t [child] keys' cs t') :
    Grew cmp key value levels false low high t children (keys.take i ++ keys' ++ keys.drop i)
      (before ++ cs ++ after) t' := by
  obtain rfl := focus.children
  have others := AgreesOn.others bound distinct fun x inside apart =>
    grew.agrees x inside (by simpa using apart)
  have left := others.subset (List.subset_append_left before after)
  have right := others.subset (List.subset_append_right before after)
  have old {β : Type} (f : Nat → List β) : (before ++ child :: after).flatMap f =
      before.flatMap f ++ [child].flatMap f ++ after.flatMap f := by
    simp
  have new {β : Type} (f : Nat → List β) : (before ++ cs ++ after).flatMap f =
      before.flatMap f ++ cs.flatMap f ++ after.flatMap f := by
    simp
  constructor
  case rules => exact grew.rules
  case rootPlace => exact grew.rootPlace
  case height => exact grew.height
  case size_le => exact grew.size_le
  case nodeCount => exact grew.nodeCount
  case sound =>
    exact focus.refill (fun c hc _ _ held => (others c hc).sound grew.rules held) grew.sound
  case agrees =>
    intro x inside apart
    refine grew.agrees x inside fun below => apart ?_
    rw [old]
    exact List.mem_append_left _ (List.mem_append_right _ below)
  case places =>
    rw [new, old, left.placesBelow_eq, right.placesBelow_eq]
    exact perm_within grew.places
  case contents =>
    rw [new, old, left.contentsBelow_eq, right.contentsBelow_eq]
    exact grew.contents.within focus.less focus.greater
  case linked =>
    intro start stop
    rw [new, old]
    simp only [Linked.append_iff]
    rintro ⟨second, ⟨first, linkedLeft, middle⟩, linkedRight⟩
    exact ⟨second, ⟨first, linkedLeft.below left, grew.linked first second middle⟩,
      linkedRight.below right⟩
  case keyCount =>
    have inner := grew.keyCount
    rw [new, old, left.contentsBelow_eq, right.contentsBelow_eq]
    simp only [List.length_append]
    omega
  case valueCount =>
    have inner := grew.valueCount
    rw [new, old, left.contentsBelow_eq, right.contentsBelow_eq]
    simp only [valueCount_append]
    omega
  case leafCount =>
    have inner := grew.leafCount
    rw [new, old, left.leavesBelow_eq, right.leavesBelow_eq]
    simp only [List.length_append]
    omega

theorem range'_append_of_le {a b c : Nat} (le : a ≤ b) (le' : b ≤ c) :
    List.range' a (b - a) ++ List.range' b (c - b) = List.range' a (c - a) := by
  have append : List.range' a (b - a) ++ List.range' (a + (b - a)) (c - b) =
      List.range' a (b - a + (c - b)) :=
    List.range'_append_1
  rwa [Nat.add_sub_cancel' le, show b - a + (c - b) = c - a by omega] at append

section Raise

variable {t₁ : Tree κ ν} {ids : List Nat} {ks : List κ}

theorem Grew.agrees_below (row : Grew cmp key value levels false low high t children keys' cs t₁)
    (stored : t.nodes[id]? = some (.branch keys children))
    (distinct : (t.placesBelow (levels + 1) id).Nodup)
    (kept : ∀ x < t₁.nodes.size, x ≠ id → t'.nodes[x]? = t₁.nodes[x]?) :
    t₁.AgreesBelow t' levels cs := by
  intro c hc x hx
  obtain ⟨_, _, held⟩ := row.sound.exists_of_mem hc
  refine kept x (held.places_lt x hx) ?_
  rintro rfl
  have inside := (Array.getElem?_eq_some_iff.mp stored).1
  rw [placesBelow, childrenAt_of_branch stored, List.nodup_cons] at distinct
  have listed := row.places.subset (List.mem_flatMap.mpr ⟨c, hc, hx⟩)
  rcases List.mem_append.mp listed with old | new
  · exact distinct.1 old
  · have later := (List.mem_range'_1.mp new).1
    omega

/-- The children of a branch have taken in a pair, and have been handed out again to the branch and
to the branches that are new behind all other nodes. -/
theorem Grew.raise (row : Grew cmp key value levels false low high t children keys' cs t₁)
    (stored : t.nodes[id]? = some (.branch keys children))
    (kept : ∀ x < t₁.nodes.size, x ≠ id → t'.nodes[x]? = t₁.nodes[x]?)
    (below : t₁.AgreesBelow t' levels cs)
    (sound : Chain (t'.Sound cmp (levels + 1) root) low ks ids high)
    (handed : ids.flatMap t'.childrenAt = cs) (size_le : t₁.nodes.size ≤ t'.nodes.size)
    (added : ids = id :: List.range' t₁.nodes.size (t'.nodes.size - t₁.nodes.size))
    (rules : t'.rules = t₁.rules) (rootPlace : t'.root = t₁.root) (height : t'.height = t₁.height)
    (counts : t'.counts =
      { t₁.counts with branches := t₁.counts.branches + (t'.nodes.size - t₁.nodes.size) }) :
    Grew cmp key value (levels + 1) root low high t [id] ks ids t' := by
  have handedBefore : [id].flatMap t.childrenAt = children := by
    rw [List.flatMap_singleton, childrenAt_of_branch stored]
  have sizes := row.size_le
  constructor
  case rules => exact rules.trans row.rules
  case rootPlace => exact rootPlace.trans row.rootPlace
  case height => exact height.trans row.height
  case sound => exact sound
  case size_le => exact Nat.le_trans sizes size_le
  case agrees =>
    intro x inside apart
    rw [(placesBelow_children handedBefore).mem_iff, List.mem_append, List.mem_singleton, not_or] at apart
    exact (kept x (by omega) apart.1).trans (row.agrees x inside apart.2)
  case places =>
    rw [← range'_append_of_le sizes size_le]
    refine (placesBelow_children handed).trans ?_
    refine .trans ?_ ((placesBelow_children handedBefore).symm.append_right _)
    rw [below.placesBelow_eq, added, List.singleton_append, List.cons_append, List.cons_append,
      ← List.append_assoc]
    exact ((row.places.append_left _).trans List.perm_append_comm).cons id
  case contents =>
    rw [contentsBelow_children handed, contentsBelow_children handedBefore, below.contentsBelow_eq]
    exact row.contents
  case linked =>
    intro start stop linked
    rw [leavesBelow_children handedBefore] at linked
    rw [leavesBelow_children handed]
    exact (row.linked start stop linked).below below
  case keyCount =>
    rw [contentsBelow_children handed, contentsBelow_children handedBefore, below.contentsBelow_eq, counts]
    exact row.keyCount
  case valueCount =>
    rw [contentsBelow_children handed, contentsBelow_children handedBefore, below.contentsBelow_eq, counts]
    exact row.valueCount
  case leafCount =>
    rw [leavesBelow_children handed, leavesBelow_children handedBefore, below.leavesBelow_eq, counts]
    exact row.leafCount
  case nodeCount =>
    have nodes := row.nodeCount
    rw [counts]
    simp only
    omega

theorem Grew.branch (row : Grew cmp key value levels false low high t children ks cs t₁)
    (stored : t.nodes[id]? = some (.branch keys children))
    (distinct : (t.placesBelow (levels + 1) id).Nodup)
    (nodes : t'.nodes = t₁.nodes.setIfInBounds id (.branch ks cs))
    (sound : BranchSound t.rules.order root ks) (rules : t'.rules = t₁.rules)
    (rootPlace : t'.root = t₁.root) (height : t'.height = t₁.height)
    (counts : t'.counts = t₁.counts) :
    Grew cmp key value (levels + 1) root low high t [id] [] [id] t' := by
  have inside : id < t₁.nodes.size :=
    Nat.lt_of_lt_of_le (Array.getElem?_eq_some_iff.mp stored).1 row.size_le
  have stored' : t'.nodes[id]? = some (.branch ks cs) := by
    rw [nodes, Array.getElem?_setIfInBounds_self_of_lt inside]
  have size : t'.nodes.size = t₁.nodes.size := by rw [nodes, Array.size_setIfInBounds]
  have kept : ∀ x < t₁.nodes.size, x ≠ id → t'.nodes[x]? = t₁.nodes[x]? := by
    intro x _ differs
    rw [nodes, Array.getElem?_setIfInBounds_ne differs.symm]
  have below := row.agrees_below stored distinct kept
  refine row.raise stored kept below ?_ ?_ (Nat.le_of_eq size.symm) ?_ rules rootPlace height ?_
  · refine ⟨ks, cs, stored', ?_, below.chain rules row.sound⟩
    rwa [rules, row.rules]
  · rw [List.flatMap_singleton, childrenAt_of_branch stored']
  · simp [size]
  · simp [size, counts]

theorem Grew.branchSplit {upper : List κ} {csUpper : List Nat} {separator : κ}
    (row : Grew cmp key value levels false low high t children (ks ++ separator :: upper)
      (cs ++ csUpper) t₁) (length : cs.length = ks.length + 1)
    (stored : t.nodes[id]? = some (.branch keys children))
    (distinct : (t.placesBelow (levels + 1) id).Nodup)
    (nodes : t'.nodes = (t₁.nodes.setIfInBounds id (.branch ks cs)).push (.branch upper csUpper))
    (left : BranchSound t.rules.order false ks) (right : BranchSound t.rules.order false upper)
    (rules : t'.rules = t₁.rules) (rootPlace : t'.root = t₁.root) (height : t'.height = t₁.height)
    (counts : t'.counts = { t₁.counts with branches := t₁.counts.branches + 1 }) :
    Grew cmp key value (levels + 1) false low high t [id] [separator] [id, t₁.nodes.size] t' := by
  have inside : id < t₁.nodes.size :=
    Nat.lt_of_lt_of_le (Array.getElem?_eq_some_iff.mp stored).1 row.size_le
  have storedLeft : t'.nodes[id]? = some (.branch ks cs) := by
    rw [nodes, Array.getElem?_push, if_neg (by simpa using Nat.ne_of_lt inside),
      Array.getElem?_setIfInBounds_self_of_lt inside]
  have storedRight : t'.nodes[t₁.nodes.size]? = some (.branch upper csUpper) := by
    rw [nodes, Array.getElem?_push, if_pos (by simp)]
  have size : t'.nodes.size = t₁.nodes.size + 1 := by simp [nodes]
  have kept : ∀ x < t₁.nodes.size, x ≠ id → t'.nodes[x]? = t₁.nodes[x]? := by
    intro x old differs
    rw [nodes, Array.getElem?_push, if_neg (by simpa using Nat.ne_of_lt old),
      Array.getElem?_setIfInBounds_ne differs.symm]
  have below := row.agrees_below stored distinct kept
  have chains := (Chain.append_iff length).mp (below.chain rules row.sound)
  refine row.raise stored kept below ?_ ?_ (by omega) ?_ rules rootPlace height ?_
  · refine ⟨⟨ks, cs, storedLeft, ?_, chains.1⟩, upper, csUpper, storedRight, ?_, chains.2⟩
    · rwa [rules, row.rules]
    · rwa [rules, row.rules]
  · simp [childrenAt_of_branch storedLeft, childrenAt_of_branch storedRight]
  · simp [size]
  · simp [size, counts]

end Raise

theorem settleBranch_inserted {t₁ : Tree κ ν} {ks : List κ} (order : 3 ≤ t.rules.order)
    (stored : t.nodes[id]? = some (.branch keys children))
    (distinct : (t.placesBelow (levels + 1) id).Nodup) (sound : BranchSound t.rules.order root keys)
    (row : Grew cmp key value levels false low high t children ks cs t₁)
    (length : ks.length = keys.length + 1) :
    Inserted cmp key value (levels + 1) root low high t id (t₁.settleBranch id ks cs) := by
  have capacity := sound.capacity
  unfold settleBranch
  rw [row.rules]
  split
  · next large =>
    have split := List.take_append_drop (ks.length / 2) ks
    have lower : (ks.take (ks.length / 2)).length = ks.length / 2 := by
      rw [List.length_take]
      omega
    unfold splitBranch
    dsimp only
    cases drop : ks.drop (ks.length / 2) with
    | nil =>
      have none := congrArg List.length drop
      rw [List.length_drop, List.length_nil] at none
      omega
    | cons separator upper =>
      have upperLength := congrArg List.length drop
      rw [List.length_drop, List.length_cons] at upperLength
      have children := row.sound.length_eq
      rw [← split, drop, ← List.take_append_drop (ks.length / 2 + 1) cs] at row
      refine .split (row.branchSplit ?_ stored distinct rfl ⟨?_, ?_, ?_⟩ ⟨?_, ?_, ?_⟩ rfl rfl rfl ?_)
      · rw [List.length_take, lower]
        omega
      · rw [← List.length_pos_iff, lower]
        omega
      · rw [lower]
        omega
      · rw [lower]
        omega
      · rw [← List.length_pos_iff]
        omega
      · omega
      · omega
      · rfl
  · next small =>
    refine .grown (row.branch stored distinct rfl ⟨?_, by omega, fun inner => ?_⟩ rfl rfl rfl rfl)
    · rw [← List.length_pos_iff]
      omega
    · have filled := sound.filled inner
      omega

theorem addChild_inserted {i right child : Nat} {separator : κ} {before after : List Nat}
    (order : 3 ≤ t.rules.order) (stored : t.nodes[id]? = some (.branch keys children))
    (stored' : t'.nodes[id]? = some (.branch keys children))
    (distinct : (t.placesBelow (levels + 1) id).Nodup) (sound : BranchSound t.rules.order root keys)
    (inside : i ≤ keys.length) (focus : children = before ++ child :: after)
    (place : before.length = i)
    (row : Grew cmp key value levels false low high t children
      (keys.take i ++ [separator] ++ keys.drop i) (before ++ [child, right] ++ after) t') :
    Inserted cmp key value (levels + 1) root low high t id (t'.addChild id i separator right) := by
  have keysGrown : keys.insertIdx i separator = keys.take i ++ [separator] ++ keys.drop i := by
    have length : (keys.take i).length = i := List.length_take_of_le inside
    simpa using insertIdx_append length separator (keys.drop i)
  have childrenGrown : children.insertIdx (i + 1) right = before ++ [child, right] ++ after := by
    have length : (before ++ [child]).length = i + 1 := by
      rw [List.length_append, place]
      rfl
    simpa [focus] using insertIdx_append length right after
  simp only [addChild, stored']
  rw [keysGrown, childrenGrown]
  refine settleBranch_inserted order stored distinct sound row ?_
  rw [← keysGrown, List.length_insertIdx_of_le_length inside]

/-- An insertion below a sound place is one of the steps above. -/
theorem insertAt_inserted [TransCmp cmp] {fuel : Nat} (order : 3 ≤ t.rules.order)
    (enough : levels < fuel) (sound : t.Sound cmp levels root low high id)
    (distinct : (t.placesBelow levels id).Nodup) (within : Within cmp low high key) :
    Inserted cmp key value levels root low high t id (t.insertAt cmp key value fuel id) := by
  induction levels generalizing fuel root low high id with
  | zero =>
    obtain ⟨fuel, rfl⟩ := Nat.exists_eq_add_one.mpr enough
    obtain ⟨entries, next, stored, sound⟩ := sound
    rw [insertAt]
    simp only [stored]
    exact insertIntoLeaf_inserted (by omega) stored sound within
  | succ levels ih =>
    obtain ⟨fuel, rfl⟩ := Nat.exists_eq_add_one.mpr (Nat.zero_lt_of_lt enough)
    have bound := sound.places_lt
    obtain ⟨keys, children, stored, sound, chain⟩ := sound
    have ascending := (chain.keys_ascend fun _ _ _ held => held.ordered.room).2.1
    obtain ⟨inside, left, right⟩ := childIndex_parts ascending key
    obtain ⟨before, child, after, a, b, focus⟩ :=
      chain.exists_focus (fun _ _ _ held => held.ordered) within inside left right
    have chosen : children[childIndex cmp key keys]? = some child := by
      rw [focus.children, ← focus.place]
      simp
    have down : t.contentsBelow levels child ⊆ t.contentsBelow (levels + 1) id := by
      intro e he
      rw [contentsBelow_succ, childrenAt_of_branch stored]
      exact List.mem_flatMap.mpr ⟨child, by simp [focus.children], he⟩
    have inner := distinct
    rw [placesBelow, childrenAt_of_branch stored] at bound inner
    rw [List.forall_mem_cons] at bound
    rw [List.nodup_cons] at inner
    have row {keys' : List κ} {cs : List Nat} {t' : Tree κ ν}
        (grew : Grew cmp key value levels false a b t [child] keys' cs t') :=
      grew.inRow focus bound.2 inner.2
    have childDistinct : (t.placesBelow levels child).Nodup :=
      (List.nodup_flatMap.mp inner.2).1 child (by simp [focus.children])
    have inserted := ih (Nat.lt_of_succ_lt_succ enough) focus.held childDistinct focus.within
    rw [insertAt]
    simp only [stored, chosen]
    generalize t.insertAt cmp key value fuel child = answer at inserted ⊢
    cases inserted with
    | «repeated» listed same there => exact .repeated (down listed) same there
    | refused listed same absent unique => exact .refused (down listed) same absent unique
    | @grown t' grew =>
      have row := row grew
      rw [List.append_nil, List.take_append_drop, List.append_assoc, List.singleton_append,
        ← focus.children] at row
      have stored' := (row.agrees id bound.1 inner.1).trans stored
      refine .grown (row.branch stored distinct ?_ sound rfl rfl rfl rfl)
      exact (setIfInBounds_self stored').symm
    | @split t' separator right grew =>
      have row := row grew
      have stored' := (row.agrees id bound.1 inner.1).trans stored
      exact addChild_inserted order stored stored' distinct sound inside focus.children focus.place row

end Tree
end SqlEngine.Index
