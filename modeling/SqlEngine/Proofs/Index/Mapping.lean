import SqlEngine.Index.Build
import SqlEngine.Proofs.Index.Search

/-! A tree asks of its keys only how they compare, and of what stands under them only whether it is
the same as something else. So both can be exchanged for others that answer alike, before an
insertion or a search or after it. -/

namespace SqlEngine.Index

theorem locateFrom_map {α β : Type} (f : α → β) (side : β → Ordering) (fuel base : Nat)
    (xs : List α) :
    locateFrom side fuel base (xs.map f) = locateFrom (fun x => side (f x)) fuel base xs := by
  induction fuel generalizing base xs with
  | zero =>
    match xs with
    | [] => rfl
    | [x] => rfl
    | x :: y :: rest => rfl
  | succ fuel ih =>
    match xs with
    | [] => rfl
    | [x] => rfl
    | x :: y :: rest =>
      rw [locateFrom_halves (by simp), locateFrom_halves (by simp)]
      simp only [List.get_eq_getElem, List.getElem_map, List.length_map, ← List.map_take,
        ← List.map_drop, ih]

theorem locate_map {α β : Type} (f : α → β) (side : β → Ordering) (xs : List α) :
    locate side (xs.map f) = locate (fun x => side (f x)) xs := by
  rw [locate, locate, List.length_map, locateFrom_map]

variable {κ κ' ν ν' : Type} {g : κ → κ'} {f : ν → ν'}

def Entry.map (g : κ → κ') (f : ν → ν') (e : Entry κ ν) : Entry κ' ν' := (g e.1, e.2.map f)

def Node.map (g : κ → κ') (f : ν → ν') : Node κ ν → Node κ' ν'
  | .leaf entries next => .leaf (entries.map (Entry.map g f)) next
  | .branch keys children => .branch (keys.map g) children

namespace Tree

def map (g : κ → κ') (f : ν → ν') (t : Tree κ ν) : Tree κ' ν' :=
  ⟨t.rules, t.nodes.map (Node.map g f), t.root, t.height, t.counts⟩

def mapChanged (g : κ → κ') (f : ν → ν') (change : Answer κ × Tree κ ν) : Answer κ' × Tree κ' ν' :=
  (change.1.map (Option.map fun split => (g split.1, split.2)), change.2.map g f)

variable (t : Tree κ ν)

@[simp] theorem map_rules : (t.map g f).rules = t.rules := (rfl)

@[simp] theorem map_root : (t.map g f).root = t.root := rfl

@[simp] theorem map_size : (t.map g f).nodes.size = t.nodes.size := by
  simp [map]

@[simp] theorem map_getElem? (id : Nat) :
    (t.map g f).nodes[id]? = t.nodes[id]?.map (Node.map g f) := by
  simp [map]

@[simp] theorem map_setNode (id : Nat) (node : Node κ ν) :
    (t.setNode id node).map g f = (t.map g f).setNode id (node.map g f) := by
  simp [map, setNode]

@[simp] theorem map_pushNode (node : Node κ ν) :
    (t.pushNode node).map g f = (t.map g f).pushNode (node.map g f) := by
  simp [map, pushNode]

@[simp] theorem map_count (more : Counts) :
    (t.count more).map g f = (t.map g f).count more := rfl

theorem map_empty (rules : Rules) : (Tree.empty rules : Tree κ ν).map g f = Tree.empty rules := by
  simp [map, empty, Node.map]

theorem splitLeaf_map (id : Nat) (entries : List (Entry κ ν)) (next : Option Nat) :
    (t.map g f).splitLeaf id (entries.map (Entry.map g f)) next =
      mapChanged g f (t.splitLeaf id entries next) := by
  simp only [splitLeaf, List.length_map, ← List.map_drop, ← List.map_take]
  cases entries.drop (entries.length / 2) with
  | nil => rfl
  | cons first upper => simp [mapChanged, Except.map, Entry.map, Node.map]

theorem splitBranch_map (id : Nat) (keys : List κ) (children : List Nat) :
    (t.map g f).splitBranch id (keys.map g) children =
      mapChanged g f (t.splitBranch id keys children) := by
  simp only [splitBranch, List.length_map, ← List.map_drop, ← List.map_take]
  cases keys.drop (keys.length / 2) with
  | nil => rfl
  | cons separator upper => simp [mapChanged, Except.map, Node.map]

theorem settleLeaf_map (id : Nat) (entries : List (Entry κ ν)) (next : Option Nat) :
    (t.map g f).settleLeaf id (entries.map (Entry.map g f)) next =
      mapChanged g f (t.settleLeaf id entries next) := by
  simp only [settleLeaf, List.length_map, map_rules]
  by_cases many : entries.length > t.rules.order
  · rw [if_pos many, if_pos many]
    exact t.splitLeaf_map id entries next
  · rw [if_neg many, if_neg many]
    simp [mapChanged, Except.map, Node.map]

theorem settleBranch_map (id : Nat) (keys : List κ) (children : List Nat) :
    (t.map g f).settleBranch id (keys.map g) children =
      mapChanged g f (t.settleBranch id keys children) := by
  simp only [settleBranch, List.length_map, map_rules]
  by_cases many : keys.length > t.rules.order
  · rw [if_pos many, if_pos many]
    exact t.splitBranch_map id keys children
  · rw [if_neg many, if_neg many]
    simp [mapChanged, Except.map, Node.map]

theorem addChild_map (id i : Nat) (separator : κ) (right : Nat) :
    (t.map g f).addChild id i (g separator) right =
      mapChanged g f (t.addChild id i separator right) := by
  simp only [addChild, map_getElem?]
  rcases t.nodes[id]? with _ | ⟨entries, next⟩ | ⟨keys, children⟩
  · rfl
  · rfl
  · simp only [Option.map_some, Node.map, ← List.map_insertIdx]
    exact t.settleBranch_map id _ _

section

variable {cmp : κ → κ → Ordering} {cmp' : κ' → κ' → Ordering}
  (compared : ∀ a b, cmp' (g a) (g b) = cmp a b) (key : κ)
include compared

theorem childIndex_map (keys : List κ) :
    childIndex cmp' (g key) (keys.map g) = childIndex cmp key keys := by
  simp only [childIndex, locate_map, compared]

section

variable [BEq ν] [LawfulBEq ν] [BEq ν'] [LawfulBEq ν'] (injective : Function.Injective f)
  (value : ν)
include injective

theorem insertIntoLeaf_map (id : Nat) (entries : List (Entry κ ν)) (next : Option Nat) :
    insertIntoLeaf cmp' (g key) (f value) (t.map g f) id (entries.map (Entry.map g f)) next =
      mapChanged g f (insertIntoLeaf cmp key value t id entries next) := by
  simp only [insertIntoLeaf, locate_map, Entry.map, compared]
  cases locate (fun e : Entry κ ν => cmp e.1 key) entries with
  | found i =>
    simp only [List.getElem?_map]
    cases entries[i]? with
    | none => rfl
    | some entry =>
      obtain ⟨k, values⟩ := entry
      have present : ((values.map f).any fun v => v == f value) = values.any (· == value) := by
        rw [List.any_map]
        congr 1
        funext v
        rw [Function.comp, Bool.eq_iff_iff, beq_iff_eq, beq_iff_eq, injective.eq_iff]
      simp only [Option.map_some, Entry.map, present, map_rules]
      cases values.any (· == value) with
      | true => rfl
      | false =>
        cases t.rules.unique with
        | true => rfl
        | false => simp [mapChanged, Except.map, Node.map, Entry.map, List.map_set]
  | between i =>
    rw [← settleLeaf_map]
    simp [Entry.map, List.map_insertIdx]

theorem insertAt_map (fuel id : Nat) :
    insertAt cmp' (g key) (f value) fuel id (t.map g f) =
      mapChanged g f (insertAt cmp key value fuel id t) := by
  induction fuel generalizing id with
  | zero => rfl
  | succ fuel ih =>
    simp only [insertAt, map_getElem?]
    rcases t.nodes[id]? with _ | ⟨entries, next⟩ | ⟨keys, children⟩
    · rfl
    · exact t.insertIntoLeaf_map compared key injective value id entries next
    · simp only [Option.map_some, Node.map, childIndex_map compared]
      cases children[childIndex cmp key keys]? with
      | none => rfl
      | some child =>
        simp only [ih]
        rcases insertAt cmp key value fuel child t with ⟨_ | _ | ⟨separator, right⟩, grown⟩
        · rfl
        · rfl
        · exact grown.addChild_map id _ separator right

theorem insert_map :
    (t.map g f).insert cmp' (g key) (f value) =
      ((t.insert cmp key value).1, (t.insert cmp key value).2.map g f) := by
  simp only [insert, map_size, map_root, t.insertAt_map compared key injective value]
  rcases t.insertAt cmp key value t.nodes.size t.root with ⟨_ | _ | ⟨separator, right⟩, grown⟩
  · rfl
  · rfl
  · simp [mapChanged, Except.map, growRoot, map, pushNode, count, Node.map]

end

theorem leafFrom_map (fuel id : Nat) :
    (t.map g f).leafFrom cmp' (g key) fuel id = t.leafFrom cmp key fuel id := by
  induction fuel generalizing id with
  | zero => rfl
  | succ fuel ih =>
    simp only [leafFrom, map_getElem?]
    rcases t.nodes[id]? with _ | ⟨entries, next⟩ | ⟨keys, children⟩
    · rfl
    · rfl
    · simp only [Option.map_some, Node.map, childIndex_map compared, ih]

omit compared in
theorem entriesAt_map (id : Nat) :
    (t.map g f).entriesAt id = (t.entriesAt id).map (Entry.map g f) := by
  simp only [entriesAt, map_getElem?]
  rcases t.nodes[id]? with _ | ⟨entries, next⟩ | ⟨keys, children⟩ <;> rfl

theorem search_map : (t.map g f).search cmp' (g key) = (t.search cmp key).map f := by
  simp only [search, leafOf?, map_size, map_root, t.leafFrom_map compared]
  cases t.leafFrom cmp key t.nodes.size t.root with
  | none => rfl
  | some leaf =>
    simp only [entriesAt_map, locate_map, Entry.map, compared]
    cases locate (fun e : Entry κ ν => cmp e.1 key) (t.entriesAt leaf) with
    | found i =>
      simp only [List.getElem?_map]
      cases (t.entriesAt leaf)[i]? <;> rfl
    | between i => rfl

end

end Tree
end SqlEngine.Index
