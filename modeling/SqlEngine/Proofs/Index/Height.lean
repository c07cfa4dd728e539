import Mathlib.Algebra.Order.BigOperators.Group.List
import Mathlib.Data.Nat.Log
import SqlEngine.Proofs.Index.Dictionary

/-! How high trees grow. Every node but the root is at least half full, so each level multiplies the
least number of keys by half the order, and a search visits one node on each level only. So the
height, and with it the number of nodes that a search visits, is at most a logarithm of the number
of keys. -/

namespace SqlEngine.Index.Tree

open Std

variable {κ ν : Type} {cmp : κ → κ → Ordering}

section

variable (t : Tree κ ν)

/-- The places of the nodes that a search for a key passes on its way down from a node. -/
def pathFrom (cmp : κ → κ → Ordering) (key : κ) : (fuel : Nat) → (id : Nat) → List Nat
  | 0, _ => []
  | fuel + 1, id =>
    id :: match t.nodes[id]? with
      | some (.branch keys children) =>
        match children[childIndex cmp key keys]? with
        | some child => pathFrom cmp key fuel child
        | none => []
      | _ => []

end

def path (cmp : κ → κ → Ordering) (t : Tree κ ν) (key : κ) : List Nat :=
  t.pathFrom cmp key t.nodes.size t.root

variable {t t' : Tree κ ν} {levels fuel id : Nat} {root : Bool} {low high : Option κ} {key : κ}

theorem pathFrom_of_leaf {entries : List (Entry κ ν)} {next : Option Nat}
    (h : t.nodes[id]? = some (.leaf entries next)) : t.pathFrom cmp key (fuel + 1) id = [id] := by
  simp only [pathFrom, h]

theorem pathFrom_of_branch {keys : List κ} {children : List Nat} {child : Nat}
    (h : t.nodes[id]? = some (.branch keys children))
    (chosen : children[childIndex cmp key keys]? = some child) :
    t.pathFrom cmp key (fuel + 1) id = id :: t.pathFrom cmp key fuel child := by
  simp only [pathFrom, h, chosen]

theorem leafFrom_of_leaf {entries : List (Entry κ ν)} {next : Option Nat}
    (h : t.nodes[id]? = some (.leaf entries next)) :
    t.leafFrom cmp key (fuel + 1) id = some id := by
  simp only [leafFrom, h]

theorem leafFrom_of_branch {keys : List κ} {children : List Nat} {child : Nat}
    (h : t.nodes[id]? = some (.branch keys children))
    (chosen : children[childIndex cmp key keys]? = some child) :
    t.leafFrom cmp key (fuel + 1) id = t.leafFrom cmp key fuel child := by
  simp only [leafFrom, h, chosen]

namespace Sound

/-- A way down from a sound node leads through one node on each level, to a leaf. Whatever has the
same nodes on this way has the same way. -/
theorem pathFrom_leads [TransCmp cmp] (key : κ) (enough : levels < fuel)
    (sound : t.Sound cmp levels root low high id) :
    (t.pathFrom cmp key fuel id).length = levels + 1 ∧
      (t.pathFrom cmp key fuel id).getLast? = t.leafFrom cmp key fuel id ∧
      ∀ t', t.AgreesOn t' (t.pathFrom cmp key fuel id) →
        t'.leafFrom cmp key fuel id = t.leafFrom cmp key fuel id := by
  induction levels generalizing fuel root low high id with
  | zero =>
    obtain ⟨fuel, rfl⟩ := Nat.exists_eq_add_one.mpr enough
    obtain ⟨entries, next, stored, -⟩ := sound
    rw [pathFrom_of_leaf stored, leafFrom_of_leaf stored]
    refine ⟨rfl, rfl, fun t' agrees => ?_⟩
    exact leafFrom_of_leaf ((agrees id List.mem_cons_self).trans stored)
  | succ levels ih =>
    obtain ⟨fuel, rfl⟩ := Nat.exists_eq_add_one.mpr (Nat.zero_lt_of_lt enough)
    obtain ⟨keys, children, stored, -, chain⟩ := sound
    have ascending := (chain.keys_ascend fun _ _ _ held => held.ordered.room).2.1
    have inside := (childIndex_parts ascending key).1
    obtain ⟨child, chosen⟩ : ∃ child, children[childIndex cmp key keys]? = some child :=
      ⟨_, List.getElem?_eq_getElem (by rw [chain.length_eq]; omega)⟩
    obtain ⟨_, _, held⟩ := chain.exists_of_mem (List.mem_of_getElem? chosen)
    obtain ⟨length, last, same⟩ := ih (Nat.lt_of_succ_lt_succ enough) held
    rw [pathFrom_of_branch stored chosen, leafFrom_of_branch stored chosen]
    refine ⟨congrArg (· + 1) length, ?_, fun t' agrees => ?_⟩
    · have nonempty : t.pathFrom cmp key fuel child ≠ [] := by
        rw [← List.length_pos_iff, length]
        exact Nat.succ_pos levels
      rw [List.getLast?_cons_of_ne_nil nonempty, last]
    · have stored' := (agrees id List.mem_cons_self).trans stored
      rw [leafFrom_of_branch stored' chosen]
      exact same t' (agrees.subset (List.subset_cons_self id _))

end Sound

theorem mul_le_length_flatMap {α β : Type} {xs : List α} {f : α → List β} {n least : Nat}
    (many : n ≤ xs.length) (each : ∀ x ∈ xs, least ≤ (f x).length) :
    n * least ≤ (xs.flatMap f).length := by
  rw [List.length_flatMap]
  calc n * least ≤ (xs.map fun x => (f x).length).length * least := by
        rw [List.length_map]
        exact Nat.mul_le_mul_right least many
    _ ≤ (xs.map fun x => (f x).length).sum :=
        List.card_nsmul_le_sum _ _ (List.forall_mem_map.mpr each)

theorem Sound.fill_le (sound : t.Sound cmp levels false low high id) :
    (t.rules.order / 2 + 1) ^ levels * ((t.rules.order + 1) / 2) ≤
      (t.contentsBelow levels id).length := by
  induction levels generalizing low high id with
  | zero =>
    obtain ⟨entries, next, stored, leaf⟩ := sound
    rw [contentsBelow_zero, entriesAt_of_leaf stored, Nat.pow_zero, Nat.one_mul]
    exact leaf.filled rfl
  | succ levels ih =>
    obtain ⟨keys, children, stored, branch, chain⟩ := sound
    have many : t.rules.order / 2 + 1 ≤ children.length := by
      rw [chain.length_eq]
      exact Nat.succ_le_succ (branch.filled rfl)
    rw [contentsBelow_succ, childrenAt_of_branch stored, Nat.pow_succ', Nat.mul_assoc]
    refine mul_le_length_flatMap many fun c listed => ?_
    obtain ⟨_, _, held⟩ := chain.exists_of_mem listed
    exact ih held

theorem Sound.root_fill_le (sound : t.Sound cmp (levels + 1) true low high id) :
    2 * ((t.rules.order / 2 + 1) ^ levels * ((t.rules.order + 1) / 2)) ≤
      (t.contentsBelow (levels + 1) id).length := by
  obtain ⟨keys, children, stored, branch, chain⟩ := sound
  have many : 2 ≤ children.length := by
    rw [chain.length_eq]
    exact Nat.succ_le_succ (List.length_pos_iff.mpr branch.nonempty)
  rw [contentsBelow_succ, childrenAt_of_branch stored]
  refine mul_le_length_flatMap many fun c listed => ?_
  obtain ⟨_, _, held⟩ := chain.exists_of_mem listed
  exact held.fill_le

/-- What the number of keys says about the height, and the height about a search. -/
structure Shallow (cmp : κ → κ → Ordering) (order : Nat) (t : Tree κ ν) : Prop where
  size : t.size = t.toList.length
  size_ge : 2 ≤ t.height → 2 * (order / 2 + 1) ^ (t.height - 2) * ((order + 1) / 2) ≤ t.size
  height_le : t.height ≤ Nat.log (order / 2 + 1) (t.size / (2 * ((order + 1) / 2))) + 2
  visited : ∀ key, (t.path cmp key).length = t.height
  leaf : ∀ key, (t.path cmp key).getLast? = t.leafOf? cmp key
  /-- No other nodes are looked at. -/
  unvisited : ∀ (key : κ) (t' : Tree κ ν), t'.root = t.root → t'.nodes.size = t.nodes.size →
    t.AgreesOn t' (t.path cmp key) → t'.search cmp key = t.search cmp key

namespace Valid

theorem size_ge (valid : Valid cmp t) (branched : 2 ≤ t.height) :
    2 * (t.rules.order / 2 + 1) ^ (t.height - 2) * ((t.rules.order + 1) / 2) ≤ t.size := by
  obtain ⟨below, split⟩ : ∃ below, t.levels = below + 1 :=
    Nat.exists_eq_add_one.mpr (by rw [levels]; omega)
  have height : t.height - 2 = below := by rw [valid.height, split]; omega
  have sound := valid.sound
  rw [split] at sound
  rw [valid.size_eq, contents, split, height, Nat.mul_assoc]
  exact sound.root_fill_le

theorem height_le (valid : Valid cmp t) :
    t.height ≤ Nat.log (t.rules.order / 2 + 1) (t.size / (2 * ((t.rules.order + 1) / 2))) + 2 := by
  have order := valid.order
  rcases Nat.lt_or_ge t.height 2 with leafOnly | branched
  · omega
  · have least := valid.size_ge branched
    have power : (t.rules.order / 2 + 1) ^ (t.height - 2) ≤
        t.size / (2 * ((t.rules.order + 1) / 2)) := by
      rw [Nat.le_div_iff_mul_le (by omega)]
      calc _ = 2 * (t.rules.order / 2 + 1) ^ (t.height - 2) * ((t.rules.order + 1) / 2) := by ring
        _ ≤ t.size := least
    have := Nat.le_log_of_pow_le (by omega) power
    omega

theorem path_leads [TransCmp cmp] (valid : Valid cmp t) (key : κ) :
    (t.path cmp key).length = t.height ∧ (t.path cmp key).getLast? = t.leafOf? cmp key := by
  obtain ⟨length, last, -⟩ := valid.sound.pathFrom_leads key valid.levels_lt
  exact ⟨length.trans valid.height.symm, last⟩

theorem search_congr [TransCmp cmp] (valid : Valid cmp t) (sameRoot : t'.root = t.root)
    (sameSize : t'.nodes.size = t.nodes.size) (agrees : t.AgreesOn t' (t.path cmp key)) :
    t'.search cmp key = t.search cmp key := by
  have leaf : t'.leafOf? cmp key = t.leafOf? cmp key := by
    rw [leafOf?, sameRoot, sameSize]
    exact (valid.sound.pathFrom_leads key valid.levels_lt).2.2 t' agrees
  rw [search, search, leaf]
  cases found : t.leafOf? cmp key with
  | none => rfl
  | some id =>
    have last : id ∈ t.path cmp key :=
      List.mem_of_getLast? ((valid.path_leads key).2.trans found)
    dsimp only
    rw [entriesAt_congr (agrees id last)]

theorem shallow [TransCmp cmp] (valid : Valid cmp t) : Shallow cmp t.rules.order t where
  size := by rw [valid.size_eq, valid.toList_eq]
  size_ge := valid.size_ge
  height_le := valid.height_le
  visited key := (valid.path_leads key).1
  leaf key := (valid.path_leads key).2
  unvisited _ _ := valid.search_congr

end Valid

/-- Whatever is inserted into a new tree, in whatever order: each level of branches multiplies its
least number of keys. -/
theorem insertAll_shallow [TransCmp cmp] [BEq ν] {order : Nat} (least : 3 ≤ order) (unique : Bool)
    (calls : List (κ × ν)) :
    Shallow cmp order (insertAll cmp (empty (.ofOrder order unique)) calls) := by
  have holds : Holds cmp (.ofOrder order unique) _ _ := holds_insertAll order unique calls
  have shallow := holds.valid.shallow
  have kept : (Rules.ofOrder order unique).order = order := Nat.max_eq_left least
  rwa [holds.rules, kept] at shallow

theorem insertAll_shallow_ascending :
    TransCmp (compare : Nat → Nat → Ordering) ∧ 3 ≤ 3 ∧
      Shallow compare 3 (insertAll compare (empty (.ofOrder 3 true))
        ((List.range 10).map fun n => (n, n))) ∧
      (insertAll compare (empty (.ofOrder 3 true))
        ((List.range 10).map fun n => (n, n))).height = 3 ∧
      (insertAll compare (empty (.ofOrder 3 true))
        ((List.range 10).map fun n => (n, n))).path compare 7 = [7, 6, 4] :=
  ⟨inferInstance, le_rfl, insertAll_shallow le_rfl true _, by decide, by decide⟩

end SqlEngine.Index.Tree
