import SqlEngine.Proofs.Index.Shape

/-! The subtrees of a tree: which nodes belong to one, what its leaves hold, and when it is sound.
All of this depends on the nodes of the subtree alone. -/

namespace SqlEngine.Index.Tree

open Std

variable {κ ν : Type} {cmp : κ → κ → Ordering}

section

variable (t : Tree κ ν)

def childrenAt (id : Nat) : List Nat :=
  match t.nodes[id]? with
  | some (.branch _ children) => children
  | _ => []

def nextAt (id : Nat) : Option Nat :=
  match t.nodes[id]? with
  | some (.leaf _ next) => next
  | _ => none

def placesBelow : (levels : Nat) → (id : Nat) → List Nat
  | 0, id => [id]
  | levels + 1, id => id :: (t.childrenAt id).flatMap (placesBelow levels)

def leavesBelow : (levels : Nat) → (id : Nat) → List Nat
  | 0, id => [id]
  | levels + 1, id => (t.childrenAt id).flatMap (leavesBelow levels)

def contentsBelow (levels id : Nat) : List (Entry κ ν) :=
  (t.leavesBelow levels id).flatMap t.entriesAt

end

variable {t t' : Tree κ ν} {levels id : Nat} {root : Bool} {low high : Option κ}

theorem entriesAt_of_leaf {entries : List (Entry κ ν)} {next : Option Nat}
    (h : t.nodes[id]? = some (.leaf entries next)) : t.entriesAt id = entries := by
  simp [entriesAt, h]

theorem nextAt_of_leaf {entries : List (Entry κ ν)} {next : Option Nat}
    (h : t.nodes[id]? = some (.leaf entries next)) : t.nextAt id = next := by
  simp [nextAt, h]

theorem childrenAt_of_branch {keys : List κ} {children : List Nat}
    (h : t.nodes[id]? = some (.branch keys children)) : t.childrenAt id = children := by
  simp [childrenAt, h]

@[simp] theorem contentsBelow_zero : t.contentsBelow 0 id = t.entriesAt id := by
  simp [contentsBelow, leavesBelow]

theorem contentsBelow_succ :
    t.contentsBelow (levels + 1) id = (t.childrenAt id).flatMap (t.contentsBelow levels) := by
  rw [contentsBelow, leavesBelow, List.flatMap_assoc]
  rfl

section

variable {ids cs : List Nat}

theorem contentsBelow_children (handed : ids.flatMap t.childrenAt = cs) :
    ids.flatMap (t.contentsBelow (levels + 1)) = cs.flatMap (t.contentsBelow levels) := by
  have level : t.contentsBelow (levels + 1) =
      fun x => (t.childrenAt x).flatMap (t.contentsBelow levels) :=
    funext fun _ => contentsBelow_succ
  rw [level, ← List.flatMap_assoc, handed]

theorem leavesBelow_children (handed : ids.flatMap t.childrenAt = cs) :
    ids.flatMap (t.leavesBelow (levels + 1)) = cs.flatMap (t.leavesBelow levels) := by
  rw [← handed, List.flatMap_assoc]
  rfl

theorem placesBelow_children (handed : ids.flatMap t.childrenAt = cs) :
    (ids.flatMap (t.placesBelow (levels + 1))).Perm (ids ++ cs.flatMap (t.placesBelow levels)) := by
  have apart := List.map_append_flatMap_perm ids (fun x => x)
    fun x => (t.childrenAt x).flatMap (t.placesBelow levels)
  rw [List.map_id', ← List.flatMap_assoc, handed] at apart
  exact apart.symm

end

theorem mem_placesBelow_self : id ∈ t.placesBelow levels id := by
  cases levels <;> simp [placesBelow]

theorem leavesBelow_subset : t.leavesBelow levels id ⊆ t.placesBelow levels id := by
  induction levels generalizing id with
  | zero => exact List.Subset.refl _
  | succ levels ih =>
    intro x hx
    obtain ⟨c, hc, hx⟩ := List.mem_flatMap.mp hx
    exact List.mem_cons_of_mem _ (List.mem_flatMap.mpr ⟨c, hc, ih hx⟩)

/-- What a leaf may hold. A leaf that is not the root is at least half full. -/
structure LeafSound (cmp : κ → κ → Ordering) (order : Nat) (root : Bool) (low high : Option κ)
    (entries : List (Entry κ ν)) : Prop extends Ordered cmp low high entries where
  capacity : entries.length ≤ order
  filled : root = false → (order + 1) / 2 ≤ entries.length

structure BranchSound (order : Nat) (root : Bool) (keys : List κ) : Prop where
  nonempty : keys ≠ []
  capacity : keys.length ≤ order
  filled : root = false → order / 2 ≤ keys.length

/-- The place holds a leaf or a branch that is as it should be, and so do all places below it. All
leaves stand the same number of levels lower. -/
def Sound (cmp : κ → κ → Ordering) (t : Tree κ ν) :
    (levels : Nat) → (root : Bool) → (low high : Option κ) → (id : Nat) → Prop
  | 0, root, low, high, id => ∃ entries next, t.nodes[id]? = some (.leaf entries next) ∧
      LeafSound cmp t.rules.order root low high entries
  | levels + 1, root, low, high, id => ∃ keys children,
      t.nodes[id]? = some (.branch keys children) ∧ BranchSound t.rules.order root keys ∧
      Chain (Sound cmp t levels false) low keys children high

namespace Sound

theorem ordered [TransCmp cmp] (h : t.Sound cmp levels root low high id) :
    Ordered cmp low high (t.contentsBelow levels id) := by
  induction levels generalizing root low high id with
  | zero =>
    obtain ⟨entries, next, stored, sound⟩ := h
    rw [contentsBelow_zero, entriesAt_of_leaf stored]
    exact sound.toOrdered
  | succ levels ih =>
    obtain ⟨keys, children, stored, -, chain⟩ := h
    rw [contentsBelow_succ, childrenAt_of_branch stored]
    exact chain.ordered fun _ _ _ _ held => ih held

theorem places_lt (h : t.Sound cmp levels root low high id) :
    ∀ x ∈ t.placesBelow levels id, x < t.nodes.size := by
  induction levels generalizing root low high id with
  | zero =>
    obtain ⟨entries, next, stored, -⟩ := h
    simpa [placesBelow] using (Array.getElem?_eq_some_iff.mp stored).1
  | succ levels ih =>
    obtain ⟨keys, children, stored, -, chain⟩ := h
    rw [placesBelow, childrenAt_of_branch stored, List.forall_mem_cons]
    refine ⟨(Array.getElem?_eq_some_iff.mp stored).1, fun x hx => ?_⟩
    obtain ⟨c, hc, hx⟩ := List.mem_flatMap.mp hx
    obtain ⟨_, _, held⟩ := chain.exists_of_mem hc
    exact ih held x hx

theorem isLeaf (h : t.Sound cmp levels root low high id) :
    ∀ x ∈ t.leavesBelow levels id, ∃ entries next, t.nodes[x]? = some (.leaf entries next) := by
  induction levels generalizing root low high id with
  | zero =>
    obtain ⟨entries, next, stored, -⟩ := h
    simpa [leavesBelow] using ⟨entries, next, stored⟩
  | succ levels ih =>
    obtain ⟨keys, children, stored, -, chain⟩ := h
    rw [leavesBelow, childrenAt_of_branch stored]
    intro x hx
    obtain ⟨c, hc, hx⟩ := List.mem_flatMap.mp hx
    obtain ⟨_, _, held⟩ := chain.exists_of_mem hc
    exact ih held x hx

theorem levels_lt (h : t.Sound cmp levels root low high id) :
    levels < (t.placesBelow levels id).length := by
  induction levels generalizing root low high id with
  | zero => simp [placesBelow]
  | succ levels ih =>
    obtain ⟨keys, children, stored, -, chain⟩ := h
    obtain ⟨c, rest, rfl⟩ : ∃ c rest, children = c :: rest :=
      List.exists_cons_of_length_eq_add_one chain.length_eq
    obtain ⟨_, _, held⟩ := chain.exists_of_mem List.mem_cons_self
    have below := ih held
    rw [placesBelow, childrenAt_of_branch stored, List.length_cons, List.flatMap_cons,
      List.length_append]
    omega

end Sound

def AgreesOn (t t' : Tree κ ν) (ids : List Nat) : Prop := ∀ x ∈ ids, t'.nodes[x]? = t.nodes[x]?

def AgreesBelow (t t' : Tree κ ν) (levels : Nat) (ids : List Nat) : Prop :=
  ∀ c ∈ ids, t.AgreesOn t' (t.placesBelow levels c)

theorem AgreesOn.subset {ids ids' : List Nat} (h : t.AgreesOn t' ids) (sub : ids' ⊆ ids) :
    t.AgreesOn t' ids' :=
  fun _ hx => h _ (sub hx)

theorem childrenAt_congr (same : t'.nodes[id]? = t.nodes[id]?) :
    t'.childrenAt id = t.childrenAt id := by
  simp [childrenAt, same]

theorem entriesAt_congr (same : t'.nodes[id]? = t.nodes[id]?) :
    t'.entriesAt id = t.entriesAt id := by
  simp [entriesAt, same]

theorem nextAt_congr (same : t'.nodes[id]? = t.nodes[id]?) : t'.nextAt id = t.nextAt id := by
  simp [nextAt, same]

theorem placesBelow_subset_of_mem {c : Nat} (hc : c ∈ t.childrenAt id) :
    t.placesBelow levels c ⊆ t.placesBelow (levels + 1) id :=
  fun _ hx => List.mem_cons_of_mem _ (List.mem_flatMap.mpr ⟨c, hc, hx⟩)

namespace AgreesOn

theorem placesBelow_eq (h : t.AgreesOn t' (t.placesBelow levels id)) :
    t'.placesBelow levels id = t.placesBelow levels id := by
  induction levels generalizing id with
  | zero => rfl
  | succ levels ih =>
    rw [placesBelow, placesBelow, childrenAt_congr (h id mem_placesBelow_self)]
    exact congrArg _ (List.flatMap_congr fun c hc => ih (h.subset (placesBelow_subset_of_mem hc)))

theorem leavesBelow_eq (h : t.AgreesOn t' (t.placesBelow levels id)) :
    t'.leavesBelow levels id = t.leavesBelow levels id := by
  induction levels generalizing id with
  | zero => rfl
  | succ levels ih =>
    rw [leavesBelow, leavesBelow, childrenAt_congr (h id mem_placesBelow_self)]
    exact List.flatMap_congr fun c hc => ih (h.subset (placesBelow_subset_of_mem hc))

theorem contentsBelow_eq (h : t.AgreesOn t' (t.placesBelow levels id)) :
    t'.contentsBelow levels id = t.contentsBelow levels id := by
  rw [contentsBelow, contentsBelow, h.leavesBelow_eq]
  exact List.flatMap_congr fun x hx => entriesAt_congr (h x (leavesBelow_subset hx))

theorem sound (h : t.AgreesOn t' (t.placesBelow levels id)) (rules : t'.rules = t.rules)
    (sound : t.Sound cmp levels root low high id) : t'.Sound cmp levels root low high id := by
  induction levels generalizing root low high id with
  | zero =>
    obtain ⟨entries, next, stored, sound⟩ := sound
    exact ⟨entries, next, (h id mem_placesBelow_self).trans stored, rules ▸ sound⟩
  | succ levels ih =>
    obtain ⟨keys, children, stored, sound, chain⟩ := sound
    refine ⟨keys, children, (h id mem_placesBelow_self).trans stored, rules ▸ sound, ?_⟩
    refine chain.imp fun c hc low high held => ih (h.subset (placesBelow_subset_of_mem ?_)) held
    rwa [childrenAt_of_branch stored]

theorem others {before after : List Nat} {child : Nat}
    (bound : ∀ x ∈ (before ++ child :: after).flatMap (t.placesBelow levels), x < t.nodes.size)
    (distinct : ((before ++ child :: after).flatMap (t.placesBelow levels)).Nodup)
    (agrees : ∀ x < t.nodes.size, x ∉ t.placesBelow levels child → t'.nodes[x]? = t.nodes[x]?) :
    t.AgreesBelow t' levels (before ++ after) := by
  intro c hc x hx
  simp only [List.flatMap_append, List.flatMap_cons] at bound distinct
  have listed : x ∈ before.flatMap (t.placesBelow levels) ++ after.flatMap (t.placesBelow levels) := by
    rw [← List.flatMap_append]
    exact List.mem_flatMap.mpr ⟨c, hc, hx⟩
  have inside : x < t.nodes.size := bound x (by
    simp only [List.mem_append] at listed ⊢
    tauto)
  refine agrees x inside fun below => ?_
  simp only [List.nodup_append, List.mem_append] at distinct listed
  rcases listed with listed | listed
  · exact distinct.2.2 x listed x (.inl below) rfl
  · exact distinct.2.1.2.2 x below x listed rfl

end AgreesOn

namespace AgreesBelow

variable {ids : List Nat}

theorem subset {ids' : List Nat} (h : t.AgreesBelow t' levels ids) (sub : ids' ⊆ ids) :
    t.AgreesBelow t' levels ids' :=
  fun c hc => h c (sub hc)

theorem placesBelow_eq (h : t.AgreesBelow t' levels ids) :
    ids.flatMap (t'.placesBelow levels) = ids.flatMap (t.placesBelow levels) :=
  List.flatMap_congr fun c hc => (h c hc).placesBelow_eq

theorem leavesBelow_eq (h : t.AgreesBelow t' levels ids) :
    ids.flatMap (t'.leavesBelow levels) = ids.flatMap (t.leavesBelow levels) :=
  List.flatMap_congr fun c hc => (h c hc).leavesBelow_eq

theorem contentsBelow_eq (h : t.AgreesBelow t' levels ids) :
    ids.flatMap (t'.contentsBelow levels) = ids.flatMap (t.contentsBelow levels) :=
  List.flatMap_congr fun c hc => (h c hc).contentsBelow_eq

theorem chain (h : t.AgreesBelow t' levels ids) (rules : t'.rules = t.rules) {keys : List κ}
    (held : Chain (t.Sound cmp levels root) low keys ids high) :
    Chain (t'.Sound cmp levels root) low keys ids high :=
  held.imp fun c hc _ _ sound => (h c hc).sound rules sound

end AgreesBelow

/-- From `start` the references of the leaves lead through the listed places to `stop`. -/
def Linked (t : Tree κ ν) : (start : Option Nat) → List Nat → (stop : Option Nat) → Prop
  | start, [], stop => start = stop
  | start, id :: rest, stop => start = some id ∧ Linked t (t.nextAt id) rest stop

namespace Linked

variable {start stop : Option Nat} {ids ids' : List Nat}

theorem append_iff : t.Linked start (ids ++ ids') stop ↔
    ∃ middle, t.Linked start ids middle ∧ t.Linked middle ids' stop := by
  induction ids generalizing start with
  | nil => simp [Linked]
  | cons id rest ih => simp only [List.cons_append, Linked, ih, exists_and_left, and_assoc]

theorem congr (agrees : t.AgreesOn t' ids) (h : t.Linked start ids stop) :
    t'.Linked start ids stop := by
  induction ids generalizing start with
  | nil => exact h
  | cons id rest ih =>
    have tail : t.AgreesOn t' rest := agrees.subset (List.subset_cons_self id rest)
    refine ⟨h.1, ?_⟩
    rw [nextAt_congr (agrees id List.mem_cons_self)]
    exact ih tail h.2

theorem below (h : t.Linked start (ids.flatMap (t.leavesBelow levels)) stop)
    (agrees : t.AgreesBelow t' levels ids) :
    t'.Linked start (ids.flatMap (t'.leavesBelow levels)) stop := by
  rw [agrees.leavesBelow_eq]
  refine h.congr fun x hx => ?_
  obtain ⟨c, hc, hx⟩ := List.mem_flatMap.mp hx
  exact agrees c hc x (leavesBelow_subset hx)

/-- Following the references collects what the leaves hold. -/
theorem entriesAlong_eq (h : t.Linked start ids none)
    (leaves : ∀ x ∈ ids, ∃ entries next, t.nodes[x]? = some (.leaf entries next)) {fuel : Nat}
    (enough : ids.length ≤ fuel) : t.entriesAlong fuel start = ids.flatMap t.entriesAt := by
  induction ids generalizing start fuel with
  | nil =>
    cases h
    cases fuel <;> rfl
  | cons id rest ih =>
    obtain ⟨rfl, tail⟩ := h
    rw [List.forall_mem_cons] at leaves
    obtain ⟨⟨entries, next, stored⟩, leaves⟩ := leaves
    rw [nextAt_of_leaf stored] at tail
    match fuel, enough with
    | fuel + 1, enough =>
      have along : t.entriesAlong (fuel + 1) (some id) = entries ++ t.entriesAlong fuel next := by
        simp [entriesAlong, stored]
      rw [along, ih tail leaves (Nat.le_of_succ_le_succ enough), List.flatMap_cons,
        entriesAt_of_leaf stored]

end Linked
end SqlEngine.Index.Tree
