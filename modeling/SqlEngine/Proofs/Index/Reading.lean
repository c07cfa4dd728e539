import SqlEngine.Proofs.Index.Valid

/-! What the ways to read a valid tree give, in terms of its entries from left to right. -/

namespace SqlEngine.Index

open Std

variable {κ ν : Type} {cmp : κ → κ → Ordering}

def lookup (cmp : κ → κ → Ordering) (entries : List (Entry κ ν)) (key : κ) : List ν :=
  match entries.find? fun e => cmp e.1 key == .eq with
  | some e => e.2
  | none => []

theorem lookup_eq_nil {entries : List (Entry κ ν)} {key : κ} (apart : ∀ e ∈ entries, cmp e.1 key ≠ .eq) :
    lookup cmp entries key = [] := by
  have none : entries.find? (fun e => cmp e.1 key == .eq) = none := by
    simpa [List.find?_eq_none] using apart
  rw [lookup, none]

theorem lookup_append_cons {before after : List (Entry κ ν)} {e : Entry κ ν} {key : κ}
    (apart : ∀ x ∈ before, cmp x.1 key ≠ .eq) (same : cmp e.1 key = .eq) :
    lookup cmp (before ++ e :: after) key = e.2 := by
  have none : before.find? (fun e => cmp e.1 key == .eq) = none := by
    simpa [List.find?_eq_none] using apart
  rw [lookup, List.find?_append, none, Option.none_or, List.find?_cons_of_pos (by simpa using same)]

theorem takeWhile_eq_filter [TransCmp cmp] {entries : List (Entry κ ν)}
    (ascending : entries.Pairwise fun a b => cmp a.1 b.1 = .lt) (high : κ) :
    entries.takeWhile (fun e => cmp e.1 high != .gt) =
      entries.filter fun e => cmp e.1 high != .gt := by
  induction entries with
  | nil => rfl
  | cons e rest ih =>
    rw [List.pairwise_cons] at ascending
    rw [List.takeWhile_cons, List.filter_cons, ih ascending.2]
    split
    · rfl
    · next beyond =>
      have beyond : cmp e.1 high = .gt := by simpa using beyond
      refine (List.filter_eq_nil_iff.mpr fun x hx => ?_).symm
      have further : cmp x.1 high = .gt :=
        TransCmp.gt_trans (OrientedCmp.gt_of_lt (ascending.1 x hx)) beyond
      simp [further]

theorem takeWhile_filter_eq [TransCmp cmp] {before entries : List (Entry κ ν)} {low : κ}
    (less : ∀ e ∈ before, cmp e.1 low = .lt)
    (ascending : entries.Pairwise fun a b => cmp a.1 b.1 = .lt) (high : κ) :
    ((entries.filter fun e => cmp e.1 low != .lt).takeWhile fun e => cmp e.1 high != .gt) =
      (before ++ entries).filter fun e => (cmp low e.1).isLE && (cmp e.1 high).isLE := by
  have none : (before.filter fun e => (cmp low e.1).isLE && (cmp e.1 high).isLE) = [] := by
    refine List.filter_eq_nil_iff.mpr fun e he => ?_
    simp [OrientedCmp.gt_of_lt (less e he)]
  rw [takeWhile_eq_filter (ascending.filter _), List.filter_filter, List.filter_append, none,
    List.nil_append]
  refine List.filter_congr fun e _ => ?_
  rw [(OrientedCmp.eq_swap : cmp low e.1 = _)]
  cases cmp e.1 low <;> cases cmp e.1 high <;> rfl

namespace Tree

theorem pairs_cons (e : Entry κ ν) (entries : List (Entry κ ν)) :
    pairs (e :: entries) = e.2.map (fun v => (e.1, v)) ++ pairs entries := rfl

theorem pairs_filter (entries : List (Entry κ ν)) (among : κ → Bool) :
    pairs (entries.filter fun e => among e.1) = (pairs entries).filter fun p => among p.1 := by
  induction entries with
  | nil => rfl
  | cons e rest ih =>
    rw [List.filter_cons, pairs_cons, List.filter_append, List.filter_map, ← ih]
    cases inside : among e.1 <;> simp [pairs_cons, Function.comp_def, inside]

variable {t : Tree κ ν} {levels id : Nat} {root : Bool} {low high : Option κ} {key : κ}

/-- The way to a key ends at a leaf. The leaves to its left hold lesser keys only, those to its right
greater ones. -/
structure LeadsTo (cmp : κ → κ → Ordering) (t : Tree κ ν) (key : κ) (leaves : List Nat)
    (before : List Nat) (leaf : Nat) (after : List Nat) : Prop where
  split : leaves = before ++ leaf :: after
  less : ∀ e ∈ before.flatMap t.entriesAt, cmp e.1 key = .lt
  greater : ∀ e ∈ after.flatMap t.entriesAt, cmp e.1 key = .gt

namespace Sound

theorem leafFrom_leads [TransCmp cmp] {fuel : Nat} (enough : levels < fuel)
    (sound : t.Sound cmp levels root low high id) (within : Within cmp low high key) :
    ∃ before leaf after, t.leafFrom cmp key fuel id = some leaf ∧
      LeadsTo cmp t key (t.leavesBelow levels id) before leaf after := by
  induction levels generalizing fuel root low high id with
  | zero =>
    obtain ⟨fuel, rfl⟩ := Nat.exists_eq_add_one.mpr enough
    obtain ⟨entries, next, stored, -⟩ := sound
    refine ⟨[], id, [], ?_, rfl, nofun, nofun⟩
    rw [leafFrom]
    simp only [stored]
  | succ levels ih =>
    obtain ⟨fuel, rfl⟩ := Nat.exists_eq_add_one.mpr (Nat.zero_lt_of_lt enough)
    obtain ⟨keys, children, stored, -, chain⟩ := sound
    have ascending := (chain.keys_ascend fun _ _ _ held => held.ordered.room).2.1
    obtain ⟨inside, left, right⟩ := childIndex_parts ascending key
    obtain ⟨before, child, after, a, b, focus⟩ :=
      chain.exists_focus (fun _ _ _ held => held.ordered) within inside left right
    have chosen : children[childIndex cmp key keys]? = some child := by
      rw [focus.children, ← focus.place]
      simp
    obtain ⟨leavesBefore, leaf, leavesAfter, found, leads⟩ :=
      ih (Nat.lt_of_succ_lt_succ enough) focus.held focus.within
    refine ⟨before.flatMap (t.leavesBelow levels) ++ leavesBefore, leaf,
      leavesAfter ++ after.flatMap (t.leavesBelow levels), ?_, ?_, ?_, ?_⟩
    · rw [leafFrom]
      simp only [stored, chosen]
      exact found
    · rw [leavesBelow, childrenAt_of_branch stored, focus.children, List.flatMap_append,
        List.flatMap_cons, leads.split]
      simp only [List.append_assoc, List.cons_append]
    · rw [List.flatMap_append, List.flatMap_assoc]
      exact List.forall_mem_append.mpr ⟨focus.less, leads.less⟩
    · rw [List.flatMap_append, List.flatMap_assoc]
      exact List.forall_mem_append.mpr ⟨leads.greater, focus.greater⟩

theorem leftmostFrom_eq {fuel : Nat} (enough : levels < fuel)
    (sound : t.Sound cmp levels root low high id) :
    t.leftmostFrom fuel id = (t.leavesBelow levels id).head? ∧ t.leavesBelow levels id ≠ [] := by
  induction levels generalizing fuel root low high id with
  | zero =>
    obtain ⟨fuel, rfl⟩ := Nat.exists_eq_add_one.mpr enough
    obtain ⟨entries, next, stored, -⟩ := sound
    rw [leftmostFrom]
    simp only [stored]
    exact ⟨rfl, nofun⟩
  | succ levels ih =>
    obtain ⟨fuel, rfl⟩ := Nat.exists_eq_add_one.mpr (Nat.zero_lt_of_lt enough)
    obtain ⟨keys, children, stored, -, chain⟩ := sound
    obtain ⟨c, rest, rfl⟩ : ∃ c rest, children = c :: rest :=
      List.exists_cons_of_length_eq_add_one chain.length_eq
    obtain ⟨_, _, held⟩ := chain.exists_of_mem List.mem_cons_self
    obtain ⟨head, nonempty⟩ := ih (Nat.lt_of_succ_lt_succ enough) held
    rw [leavesBelow, childrenAt_of_branch stored, List.flatMap_cons, leftmostFrom]
    simp only [stored]
    refine ⟨?_, List.append_ne_nil_of_left_ne_nil nonempty _⟩
    rw [head, List.head?_append_of_ne_nil _ nonempty]

theorem entriesAt_ne_nil (order : 0 < t.rules.order) (sound : t.Sound cmp levels root low high id)
    (inner : root = false ∨ levels ≠ 0) : ∀ x ∈ t.leavesBelow levels id, t.entriesAt x ≠ [] := by
  induction levels generalizing root low high id with
  | zero =>
    obtain ⟨entries, next, stored, sound⟩ := sound
    have filled := sound.filled (inner.resolve_right fun h => h rfl)
    simp only [leavesBelow, List.mem_singleton, forall_eq, entriesAt_of_leaf stored]
    rintro rfl
    rw [List.length_nil] at filled
    omega
  | succ levels ih =>
    obtain ⟨keys, children, stored, -, chain⟩ := sound
    rw [leavesBelow, childrenAt_of_branch stored]
    intro x hx
    obtain ⟨c, hc, hx⟩ := List.mem_flatMap.mp hx
    obtain ⟨_, _, held⟩ := chain.exists_of_mem hc
    exact ih held (.inl rfl) x hx

end Sound

namespace Valid

theorem levels_lt (valid : Valid cmp t) : t.levels < t.nodes.size := by
  have below := valid.sound.levels_lt
  have places := valid.covers.places.length_eq
  rw [List.flatMap_singleton, List.length_range] at places
  rwa [places] at below

theorem ordered [TransCmp cmp] (valid : Valid cmp t) : Ordered cmp none none t.contents :=
  valid.sound.ordered

theorem linked (valid : Valid cmp t) :
    ∃ start, t.Linked start (t.leavesBelow t.levels t.root) none := by
  have linked := valid.covers.linked
  rwa [List.flatMap_singleton] at linked

theorem leavesBelow_length_le (valid : Valid cmp t) :
    (t.leavesBelow t.levels t.root).length ≤ t.nodes.size := by
  have leaves := valid.covers.leafCount
  have nodes := valid.covers.nodeCount
  rw [List.flatMap_singleton] at leaves
  omega

/-- From any leaf on, the references lead to all leaves to its right. -/
theorem entriesFrom_eq (valid : Valid cmp t) {before after : List Nat} {leaf : Nat}
    (split : t.leavesBelow t.levels t.root = before ++ leaf :: after) :
    t.entriesFrom (some leaf) = (leaf :: after).flatMap t.entriesAt := by
  obtain ⟨start, linked⟩ := valid.linked
  have leaves := valid.sound.isLeaf
  have length := valid.leavesBelow_length_le
  rw [split] at linked leaves length
  rw [List.length_append] at length
  rw [List.forall_mem_append] at leaves
  obtain ⟨middle, -, here, rest⟩ := Linked.append_iff.mp linked
  have along : t.Linked (some leaf) (leaf :: after) none := ⟨rfl, rest⟩
  exact along.entriesAlong_eq leaves.2 (by omega)

theorem leftmostLeaf?_eq (valid : Valid cmp t) :
    ∃ leaf after, t.leavesBelow t.levels t.root = leaf :: after ∧ t.leftmostLeaf? = some leaf := by
  obtain ⟨head, nonempty⟩ := valid.sound.leftmostFrom_eq valid.levels_lt
  obtain ⟨leaf, after, leaves⟩ := List.exists_cons_of_ne_nil nonempty
  refine ⟨leaf, after, leaves, ?_⟩
  rw [leftmostLeaf?, head, leaves, List.head?_cons]

theorem toList_eq (valid : Valid cmp t) : t.toList = t.contents := by
  obtain ⟨leaf, after, leaves, leftmost⟩ := valid.leftmostLeaf?_eq
  rw [toList, leftmost, valid.entriesFrom_eq (leaves.trans (List.nil_append _).symm), contents,
    contentsBelow, leaves]

theorem minKey?_eq (valid : Valid cmp t) : t.minKey? = t.contents.head?.map (·.1) := by
  obtain ⟨leaf, after, leaves, leftmost⟩ := valid.leftmostLeaf?_eq
  have contents : t.contents = t.entriesAt leaf ++ after.flatMap t.entriesAt := by
    rw [contents, contentsBelow, leaves, List.flatMap_cons]
  rw [minKey?, leftmost, Option.bind_some, contents]
  by_cases inner : t.levels = 0
  · -- A root without branches is the only leaf.
    have single : after = [] := by
      rw [inner] at leaves
      exact (List.cons.inj leaves).2.symm
    rw [single, List.flatMap_nil, List.append_nil]
  · have order := valid.order
    have filled := valid.sound.entriesAt_ne_nil (by omega) (.inr inner) leaf
      (by rw [leaves]; exact List.mem_cons_self)
    rw [List.head?_append_of_ne_nil _ filled]

theorem size_eq (valid : Valid cmp t) : t.size = t.contents.length := by
  have count := valid.covers.keyCount
  rwa [List.flatMap_singleton] at count

section

variable [TransCmp cmp]

theorem leafOf?_leads (valid : Valid cmp t) (key : κ) :
    ∃ before leaf after, t.leafOf? cmp key = some leaf ∧
      LeadsTo cmp t key (t.leavesBelow t.levels t.root) before leaf after :=
  valid.sound.leafFrom_leads valid.levels_lt ⟨trivial, trivial⟩

theorem search_eq (valid : Valid cmp t) (key : κ) : t.search cmp key = lookup cmp t.contents key := by
  obtain ⟨before, leaf, after, found, split, less, greater⟩ := valid.leafOf?_leads key
  have contents : t.contents =
      before.flatMap t.entriesAt ++ (t.entriesAt leaf ++ after.flatMap t.entriesAt) := by
    rw [contents, contentsBelow, split, List.flatMap_append, List.flatMap_cons]
  have ascending := valid.ordered.ascending
  rw [contents, List.pairwise_append, List.pairwise_append] at ascending
  have parts := locate_parts (ascends_of_ascending (f := Prod.fst) ascending.2.1.1 key)
  simp only [search, found]
  rw [contents]
  generalize t.entriesAt leaf = entries at parts ⊢
  generalize locate (fun e : Entry κ ν => cmp e.1 key) entries = spot at parts ⊢
  cases parts with
  | @found left right e lessMid same greaterMid =>
    have apart : ∀ x ∈ before.flatMap t.entriesAt ++ left, cmp x.1 key ≠ .eq := by
      rw [List.forall_mem_append]
      exact ⟨fun x hx => by rw [less x hx]; decide, fun x hx => by rw [lessMid x hx]; decide⟩
    rw [List.append_assoc, List.cons_append, ← List.append_assoc, lookup_append_cons apart same]
    simp
  | between left right lessMid greaterMid =>
    refine (lookup_eq_nil ?_).symm
    simp only [List.forall_mem_append]
    refine ⟨fun x hx => ?_, ⟨fun x hx => ?_, fun x hx => ?_⟩, fun x hx => ?_⟩
    · rw [less x hx]; decide
    · rw [lessMid x hx]; decide
    · rw [greaterMid x hx]; decide
    · rw [greater x hx]; decide

theorem range_eq (valid : Valid cmp t) (low high : κ) :
    t.range cmp low high =
      t.scan.filter fun p => (cmp low p.1).isLE && (cmp p.1 high).isLE := by
  rw [scan, valid.toList_eq,
    ← pairs_filter _ fun k => (cmp low k).isLE && (cmp k high).isLE, range]
  split
  · next empty =>
    -- A key between the bounds would put the bounds in order.
    rw [List.filter_eq_nil_iff.mpr, pairs, List.flatMap_nil]
    intro e _
    simp only [Bool.and_eq_true, not_and]
    intro above below
    have le := TransCmp.isLE_trans above below
    rw [empty] at le
    exact absurd le nofun
  · next =>
    obtain ⟨before, leaf, after, found, split, less, greater⟩ := valid.leafOf?_leads low
    have contents : t.contents =
        before.flatMap t.entriesAt ++ (leaf :: after).flatMap t.entriesAt := by
      rw [contents, contentsBelow, split, List.flatMap_append]
    have ascending := valid.ordered.ascending
    rw [contents, List.pairwise_append] at ascending
    dsimp only
    rw [found, valid.entriesFrom_eq split, contents, takeWhile_filter_eq less ascending.2.1]

end

end Valid
end Tree
end SqlEngine.Index
