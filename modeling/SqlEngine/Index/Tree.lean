import SqlEngine.Index.Search

/-! Search trees whose entries stand in leaves of equal depth. The nodes of a tree stand in an arena
and refer to each other by their places in it. A leaf lists keys with their values and refers to the
leaf to its right. A branch has one child more than keys, and a key parts the children to its left
from those to its right. A node that holds more keys than the order of the tree is split in two, and
its upper half becomes a new node behind all others. -/

namespace SqlEngine.Index

abbrev Entry (κ ν : Type) := κ × List ν

inductive Node (κ ν : Type) where
  | leaf (entries : List (Entry κ ν)) (next : Option Nat)
  | branch (keys : List κ) (children : List Nat)

structure Counts where
  keys : Nat
  values : Nat
  leaves : Nat
  branches : Nat
deriving DecidableEq, Repr

namespace Counts

def zero : Counts := ⟨0, 0, 0, 0⟩

def add (a b : Counts) : Counts :=
  ⟨a.keys + b.keys, a.values + b.values, a.leaves + b.leaves, a.branches + b.branches⟩

end Counts

structure Rules where
  order : Nat
  unique : Bool
deriving DecidableEq, Repr

namespace Rules

def ofOrder (order : Nat) (unique : Bool) : Rules := ⟨max order 3, unique⟩

def default (unique : Bool) : Rules := ofOrder 64 unique

end Rules

/-- Why an insertion fails: the key is there with another value and may not have a second one. To go
astray is to follow a reference to no node of the kind it should lead to. -/
inductive InsertFault where
  | duplicate
  | astray
deriving DecidableEq, Repr

structure Tree (κ ν : Type) where
  rules : Rules
  nodes : Array (Node κ ν)
  root : Nat
  height : Nat
  counts : Counts

def childIndex {κ : Type} (cmp : κ → κ → Ordering) (key : κ) (keys : List κ) : Nat :=
  (locate (fun k => cmp k key) keys).child

namespace Tree

variable {κ ν : Type}

def empty (rules : Rules) : Tree κ ν :=
  ⟨rules, #[.leaf [] none], 0, 1, { Counts.zero with leaves := 1 }⟩

def setNode (t : Tree κ ν) (id : Nat) (node : Node κ ν) : Tree κ ν :=
  { t with nodes := t.nodes.setIfInBounds id node }

def pushNode (t : Tree κ ν) (node : Node κ ν) : Tree κ ν :=
  { t with nodes := t.nodes.push node }

def count (t : Tree κ ν) (more : Counts) : Tree κ ν := { t with counts := t.counts.add more }

/-- What an insertion answers for the node below which it was made. When the node was split, this is
the separator and the place of the new node to its right. -/
abbrev Answer (κ : Type) := Except InsertFault (Option (κ × Nat))

def splitLeaf (t : Tree κ ν) (id : Nat) (entries : List (Entry κ ν)) (next : Option Nat) :
    Answer κ × Tree κ ν :=
  let half := entries.length / 2
  match entries.drop half with
  | [] => (.error .astray, t)
  | first :: upper =>
    let right := t.nodes.size
    (.ok (some (first.1, right)),
      ((t.setNode id (.leaf (entries.take half) (some right))).pushNode
        (.leaf (first :: upper) next)).count { Counts.zero with leaves := 1 })

def splitBranch (t : Tree κ ν) (id : Nat) (keys : List κ) (children : List Nat) :
    Answer κ × Tree κ ν :=
  let half := keys.length / 2
  match keys.drop half with
  | [] => (.error .astray, t)
  | separator :: upper =>
    (.ok (some (separator, t.nodes.size)),
      ((t.setNode id (.branch (keys.take half) (children.take (half + 1)))).pushNode
        (.branch upper (children.drop (half + 1)))).count { Counts.zero with branches := 1 })

def settleLeaf (t : Tree κ ν) (id : Nat) (entries : List (Entry κ ν)) (next : Option Nat) :
    Answer κ × Tree κ ν :=
  if entries.length > t.rules.order then t.splitLeaf id entries next
  else (.ok none, t.setNode id (.leaf entries next))

def settleBranch (t : Tree κ ν) (id : Nat) (keys : List κ) (children : List Nat) :
    Answer κ × Tree κ ν :=
  if keys.length > t.rules.order then t.splitBranch id keys children
  else (.ok none, t.setNode id (.branch keys children))

def insertIntoLeaf [BEq ν] (cmp : κ → κ → Ordering) (key : κ) (value : ν) (t : Tree κ ν) (id : Nat)
    (entries : List (Entry κ ν)) (next : Option Nat) : Answer κ × Tree κ ν :=
  match locate (fun e => cmp e.1 key) entries with
  | .found i =>
    match entries[i]? with
    | none => (.error .astray, t)
    | some (k, values) =>
      if values.any (· == value) then (.ok none, t)
      else if t.rules.unique then (.error .duplicate, t)
      else (.ok none, (t.setNode id (.leaf (entries.set i (k, values ++ [value])) next)).count
        { Counts.zero with values := 1 })
  | .between i =>
    (t.count { Counts.zero with keys := 1, values := 1 }).settleLeaf id
      (entries.insertIdx i (key, [value])) next

def addChild (t : Tree κ ν) (id i : Nat) (separator : κ) (right : Nat) : Answer κ × Tree κ ν :=
  match t.nodes[id]? with
  | some (.branch keys children) =>
    t.settleBranch id (keys.insertIdx i separator) (children.insertIdx (i + 1) right)
  | _ => (.error .astray, t)

/-- No way down passes a node twice, so the number of nodes is enough `fuel`. -/
def insertAt [BEq ν] (cmp : κ → κ → Ordering) (key : κ) (value : ν) :
    (fuel : Nat) → (id : Nat) → Tree κ ν → Answer κ × Tree κ ν
  | 0, _, t => (.error .astray, t)
  | fuel + 1, id, t =>
    match t.nodes[id]? with
    | none => (.error .astray, t)
    | some (.leaf entries next) => t.insertIntoLeaf cmp key value id entries next
    | some (.branch keys children) =>
      let i := childIndex cmp key keys
      match children[i]? with
      | none => (.error .astray, t)
      | some child =>
        match insertAt cmp key value fuel child t with
        | (.ok (some (separator, right)), t) => t.addChild id i separator right
        | unsplit => unsplit

def growRoot (t : Tree κ ν) (separator : κ) (right : Nat) : Tree κ ν :=
  { (t.pushNode (.branch [separator] [t.root, right])).count { Counts.zero with branches := 1 } with
    root := t.nodes.size, height := t.height + 1 }

def insert [BEq ν] (cmp : κ → κ → Ordering) (t : Tree κ ν) (key : κ) (value : ν) :
    Except InsertFault Unit × Tree κ ν :=
  match t.insertAt cmp key value t.nodes.size t.root with
  | (.ok (some (separator, right)), t) => (.ok (), t.growRoot separator right)
  | (.ok none, t) => (.ok (), t)
  | (.error fault, t) => (.error fault, t)

def leafFrom (t : Tree κ ν) (cmp : κ → κ → Ordering) (key : κ) :
    (fuel : Nat) → (id : Nat) → Option Nat
  | 0, _ => none
  | fuel + 1, id =>
    match t.nodes[id]? with
    | some (.leaf _ _) => some id
    | some (.branch keys children) =>
      match children[childIndex cmp key keys]? with
      | some child => leafFrom t cmp key fuel child
      | none => none
    | none => none

def leafOf? (cmp : κ → κ → Ordering) (t : Tree κ ν) (key : κ) : Option Nat :=
  t.leafFrom cmp key t.nodes.size t.root

def leftmostFrom (t : Tree κ ν) : (fuel : Nat) → (id : Nat) → Option Nat
  | 0, _ => none
  | fuel + 1, id =>
    match t.nodes[id]? with
    | some (.leaf _ _) => some id
    | some (.branch _ (child :: _)) => leftmostFrom t fuel child
    | _ => none

def leftmostLeaf? (t : Tree κ ν) : Option Nat := t.leftmostFrom t.nodes.size t.root

def entriesAt (t : Tree κ ν) (id : Nat) : List (Entry κ ν) :=
  match t.nodes[id]? with
  | some (.leaf entries _) => entries
  | _ => []

/-- The entries of a leaf and of those that follow it by their references. No leaf follows itself,
so the number of nodes is enough `fuel`. -/
def entriesAlong (t : Tree κ ν) : (fuel : Nat) → (leaf : Option Nat) → List (Entry κ ν)
  | fuel + 1, some id =>
    match t.nodes[id]? with
    | some (.leaf entries next) => entries ++ entriesAlong t fuel next
    | _ => []
  | _, _ => []

def entriesFrom (t : Tree κ ν) (leaf : Option Nat) : List (Entry κ ν) :=
  t.entriesAlong t.nodes.size leaf

def size (t : Tree κ ν) : Nat := t.counts.keys

def isEmpty (t : Tree κ ν) : Bool := t.size == 0

def search (cmp : κ → κ → Ordering) (t : Tree κ ν) (key : κ) : List ν :=
  match t.leafOf? cmp key with
  | none => []
  | some leaf =>
    match locate (fun e => cmp e.1 key) (t.entriesAt leaf) with
    | .found i => (((t.entriesAt leaf)[i]?).map (·.2)).getD []
    | .between _ => []

def contains (cmp : κ → κ → Ordering) (t : Tree κ ν) (key : κ) : Bool :=
  !(t.search cmp key).isEmpty

def toList (t : Tree κ ν) : List (Entry κ ν) := t.entriesFrom t.leftmostLeaf?

def pairs (entries : List (Entry κ ν)) : List (κ × ν) :=
  entries.flatMap fun entry => entry.2.map fun v => (entry.1, v)

def scan (t : Tree κ ν) : List (κ × ν) := pairs t.toList

def range (cmp : κ → κ → Ordering) (t : Tree κ ν) (low high : κ) : List (κ × ν) :=
  if cmp low high = .gt then []
  else
    let entries := t.entriesFrom (t.leafOf? cmp low)
    pairs ((entries.filter fun e => cmp e.1 low != .lt).takeWhile fun e => cmp e.1 high != .gt)

def minKey? (t : Tree κ ν) : Option κ :=
  t.leftmostLeaf?.bind fun leaf => (t.entriesAt leaf).head?.map (·.1)

end Tree
end SqlEngine.Index
