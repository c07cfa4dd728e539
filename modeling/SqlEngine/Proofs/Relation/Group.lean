import Mathlib.Algebra.Ring.Nat
import Mathlib.Data.Fin.Basic
import Mathlib.Data.List.FinRange
import Mathlib.Data.List.Induction
import SqlEngine.Proofs.Entries
import SqlEngine.Proofs.Lists
import SqlEngine.Proofs.Success
import SqlEngine.Relation.Group

/-! The groups of rows. Rows come one by one into the group for their key, which a map of places
finds. In the end the groups are a partition of the rows by their keys, and no row has been lost,
repeated or moved before another one of its group. The row of a group then has a value for each
item. -/

namespace SqlEngine

open Dialect

/-- Groups that hold the elements of a list at these places: each place is in one group, a group
holds all places of one key in their order, and groups are ordered by their first places. -/
structure PartitionedBy {α κ : Type} (key : α → κ) (xs : List α) (groups : List (List α))
    (places : List (List (Fin xs.length))) : Prop where
  held : groups = places.map (·.map xs.get)
  nonempty : ∀ part ∈ places, part ≠ []
  whole : places.flatten.Perm (List.finRange xs.length)
  ordered : ∀ part ∈ places, part.Pairwise (· < ·)
  alike : ∀ part ∈ places, ∀ i ∈ part, ∀ j, j ∈ part ↔ key (xs.get i) = key (xs.get j)
  firsts : places.Pairwise fun part other => ∃ i, part.head? = some i ∧ ∀ j ∈ other, i < j

namespace PartitionedBy

variable {α κ : Type} {key : α → κ} {xs : List α} {groups : List (List α)}
  {places : List (List (Fin xs.length))}

theorem perm (h : PartitionedBy key xs groups places) : groups.flatten.Perm xs := by
  have flat : groups.flatten = places.flatten.map xs.get := by
    rw [h.held, List.map_flatten]
  rw [flat]
  exact (h.whole.map xs.get).trans (by rw [List.map_get_finRange])

theorem mem_of_mem_group (h : PartitionedBy key xs groups places) {group : List α}
    (hgroup : group ∈ groups) {x : α} (hx : x ∈ group) : x ∈ xs :=
  h.perm.mem_iff.mp (List.mem_flatten.mpr ⟨group, hgroup, hx⟩)

theorem key_eq (h : PartitionedBy key xs groups places) {group : List α} (hgroup : group ∈ groups)
    {x y : α} (hx : x ∈ group) (hy : y ∈ group) : key x = key y := by
  rw [h.held] at hgroup
  obtain ⟨part, hpart, rfl⟩ := List.mem_map.mp hgroup
  obtain ⟨i, hi, rfl⟩ := List.mem_map.mp hx
  obtain ⟨j, hj, rfl⟩ := List.mem_map.mp hy
  exact (h.alike part hpart i hi j).mp hj

end PartitionedBy

section

variable {α κ : Type} [BEq κ] [LawfulBEq κ]

theorem eraseDups_firsts (keys : List κ) : keys.eraseDups.Pairwise fun a b =>
    ∃ i : Nat, keys[i]? = some a ∧ ∀ j : Nat, keys[j]? = some b → i < j := by
  induction keys using List.reverseRecOn with
  | nil => exact .nil
  | append_singleton keys last ih =>
    -- What comes before the last key is found before it.
    have before {a b : κ} (earlier : ∃ i : Nat, keys[i]? = some a ∧
        ∀ j : Nat, keys[j]? = some b → i < j) : ∃ i : Nat, (keys ++ [last])[i]? = some a ∧
          ∀ j : Nat, (keys ++ [last])[j]? = some b → i < j := by
      obtain ⟨i, found, first⟩ := earlier
      have inside := (List.getElem?_eq_some_iff.mp found).1
      refine ⟨i, by rw [List.getElem?_append_left inside, found], fun j there => ?_⟩
      rcases Nat.lt_or_ge j keys.length with short | long
      · exact first j (by rwa [List.getElem?_append_left short] at there)
      · omega
    rw [Lists.eraseDups_concat]
    split
    · exact ih.imp before
    · next new =>
      have new : last ∉ keys := by simpa using new
      refine List.pairwise_append.mpr ⟨ih.imp before, List.pairwise_singleton _ _, ?_⟩
      intro a listed b isLast
      obtain rfl := List.mem_singleton.mp isLast
      obtain ⟨i, found⟩ := List.getElem?_of_mem (List.mem_eraseDups.mp listed)
      have inside := (List.getElem?_eq_some_iff.mp found).1
      refine ⟨i, by rw [List.getElem?_append_left inside, found], fun j there => ?_⟩
      rcases Nat.lt_or_ge j keys.length with short | long
      · rw [List.getElem?_append_left short] at there
        exact absurd (List.mem_of_getElem? there) new
      · omega

theorem eraseDups_nodup (keys : List κ) : keys.eraseDups.Nodup := by
  refine (eraseDups_firsts keys).imp fun {a b} earlier same => ?_
  obtain ⟨i, found, first⟩ := earlier
  exact lt_irrefl i (first i (same ▸ found))

def placesOf (key : α → κ) (xs : List α) (k : κ) : List (Fin xs.length) :=
  (List.finRange xs.length).filter fun i => key (xs.get i) == k

theorem mem_placesOf {key : α → κ} {xs : List α} {k : κ} {i : Fin xs.length} :
    i ∈ placesOf key xs k ↔ key (xs.get i) = k := by
  simp [placesOf]

omit [LawfulBEq κ] in
theorem map_placesOf (key : α → κ) (xs : List α) (k : κ) :
    (placesOf key xs k).map xs.get = xs.filter (key · == k) := by
  conv_rhs => rw [← List.map_get_finRange xs, List.filter_map]
  rfl

omit [LawfulBEq κ] in
theorem placesOf_ordered (key : α → κ) (xs : List α) (k : κ) :
    (placesOf key xs k).Pairwise (· < ·) :=
  (List.pairwise_lt_finRange xs.length).sublist List.filter_sublist

theorem mem_keys {key : α → κ} {xs : List α} {k : κ} :
    k ∈ (xs.map key).eraseDups ↔ ∃ i : Fin xs.length, key (xs.get i) = k := by
  rw [List.mem_eraseDups, List.mem_map]
  constructor
  · rintro ⟨x, listed, rfl⟩
    obtain ⟨i, inside, rfl⟩ := List.getElem_of_mem listed
    exact ⟨⟨i, inside⟩, rfl⟩
  · rintro ⟨i, rfl⟩
    exact ⟨xs.get i, xs.get_mem i, rfl⟩

theorem partitionedBy_keys (key : α → κ) (xs : List α) :
    PartitionedBy key xs ((xs.map key).eraseDups.map fun k => xs.filter (key · == k))
      ((xs.map key).eraseDups.map (placesOf key xs)) where
  held := by
    rw [List.map_map]
    exact List.map_congr_left fun k _ => (map_placesOf key xs k).symm
  nonempty := by
    intro part listed
    obtain ⟨k, hk, rfl⟩ := List.mem_map.mp listed
    obtain ⟨i, same⟩ := mem_keys.mp hk
    exact List.ne_nil_of_mem (mem_placesOf.mpr same)
  whole := by
    refine (List.perm_ext_iff_of_nodup ?_ (List.nodup_finRange _)).mpr fun i => ?_
    · refine List.nodup_flatten.mpr ⟨?_, List.pairwise_map.mpr ?_⟩
      · intro part listed
        obtain ⟨k, -, rfl⟩ := List.mem_map.mp listed
        exact (placesOf_ordered key xs k).imp Fin.ne_of_lt
      · refine (eraseDups_nodup _).imp fun differs i hi hi' => differs ?_
        exact (mem_placesOf.mp hi).symm.trans (mem_placesOf.mp hi')
    · simp only [List.mem_flatten, List.mem_map, List.mem_finRange, iff_true]
      exact ⟨_, ⟨_, mem_keys.mpr ⟨i, rfl⟩, rfl⟩, mem_placesOf.mpr rfl⟩
  ordered := by
    intro part listed
    obtain ⟨k, -, rfl⟩ := List.mem_map.mp listed
    exact placesOf_ordered key xs k
  alike := by
    intro part listed i hi j
    obtain ⟨k, -, rfl⟩ := List.mem_map.mp listed
    rw [mem_placesOf] at hi ⊢
    rw [hi, eq_comm]
  firsts := by
    refine List.pairwise_map.mpr ((eraseDups_firsts (xs.map key)).imp fun {k k'} earlier => ?_)
    obtain ⟨n, found, first⟩ := earlier
    obtain ⟨inside, same⟩ := List.getElem?_eq_some_iff.mp found
    rw [List.length_map] at inside
    have listed : (⟨n, inside⟩ : Fin xs.length) ∈ placesOf key xs k :=
      mem_placesOf.mpr (by simpa using same)
    cases cut : placesOf key xs k with
    | nil => simp [cut] at listed
    | cons i rest =>
      refine ⟨i, rfl, fun j hj => ?_⟩
      have least : i ≤ ⟨n, inside⟩ := by
        have sorted := placesOf_ordered key xs k
        rw [cut] at listed sorted
        rcases List.mem_cons.mp listed with same | further
        · exact same ▸ le_rfl
        · exact (List.pairwise_cons.mp sorted).1 _ further |>.le
      have later : n < j := first j (by simpa using mem_placesOf.mp hj)
      exact lt_of_le_of_lt least later

end

namespace Grouping

/-- What has become of some rows: the keys have their places in the order in which they came, and
at each place stand the rows of its key. -/
structure Of (key : Row → String) (rows : List Row) (g : Grouping) : Prop where
  places : g.places = (rows.map key).eraseDups.zipIdx
  groups : g.groups = (rows.map key).eraseDups.map fun k => rows.filter (key · == k)

section

variable {key : Row → String} {rows : List Row} {g : Grouping} (h : g.Of key rows) (row : Row)

theorem filter_concat (key : Row → String) (rows : List Row) (row : Row) (k : String) :
    (rows ++ [row]).filter (key · == k) =
      rows.filter (key · == k) ++ if key row == k then [row] else [] := by
  rw [List.filter_append, List.filter_singleton]
  cases key row == k <;> rfl

theorem keys_concat (key : Row → String) (rows : List Row) (row : Row) :
    ((rows ++ [row]).map key).eraseDups =
      if key row ∈ (rows.map key).eraseDups then (rows.map key).eraseDups
      else (rows.map key).eraseDups ++ [key row] := by
  rw [List.map_append, List.map_singleton, Lists.eraseDups_concat]
  simp

include h

theorem Of.add_known {place : Nat} (found : g.places.lookup (key row) = some place) :
    (g.add (key row) row).Of key (rows ++ [row]) := by
  have there : (rows.map key).eraseDups[place]? = some (key row) := by
    rw [h.places] at found
    obtain ⟨_, _, split, -⟩ := List.lookup_eq_some_iff.mp found
    rw [← List.mk_mem_zipIdx_iff_getElem?, split]
    simp
  have keys : ((rows ++ [row]).map key).eraseDups = (rows.map key).eraseDups := by
    rw [keys_concat, if_pos (List.mem_of_getElem? there)]
  have groups : g.groups.modify place (· ++ [row]) =
      (rows.map key).eraseDups.map fun k => (rows ++ [row]).filter (key · == k) := by
    refine List.ext_getElem? fun i => ?_
    simp only [h.groups, List.getElem?_modify, List.getElem?_map, filter_concat]
    cases listed : (rows.map key).eraseDups[i]? with
    | none => rfl
    | some k =>
      have own : place = i ↔ key row = k := by
        constructor
        · rintro rfl
          exact Option.some.inj (there.symm.trans listed)
        · rintro rfl
          exact (List.getElem?_inj (List.getElem?_eq_some_iff.mp there).1 (eraseDups_nodup _)).mp
            (there.trans listed.symm)
      by_cases same : place = i <;> simp [same, ← own]
  simp only [Grouping.add, found]
  exact ⟨by rw [keys, h.places], by rw [keys, groups]⟩

theorem Of.add_new (missing : g.places.lookup (key row) = none) :
    (g.add (key row) row).Of key (rows ++ [row]) := by
  have new : key row ∉ (rows.map key).eraseDups := fun listed => by
    rw [h.places, List.lookup_eq_none_iff] at missing
    obtain ⟨i, there⟩ := List.getElem?_of_mem listed
    simpa using missing _ (List.mk_mem_zipIdx_iff_getElem?.mpr there)
  have keys : ((rows ++ [row]).map key).eraseDups = (rows.map key).eraseDups ++ [key row] := by
    rw [keys_concat, if_neg new]
  have old : ((rows.map key).eraseDups.map fun k => (rows ++ [row]).filter (key · == k)) =
      g.groups := by
    rw [h.groups]
    refine List.map_congr_left fun k listed => ?_
    have other : (key row == k) = false := beq_eq_false_iff_ne.mpr fun same => new (same ▸ listed)
    simp [other]
  have own : (rows ++ [row]).filter (key · == key row) = [row] := by
    have none : rows.filter (key · == key row) = [] := by
      rw [List.filter_eq_nil_iff]
      intro other listed same
      exact new (List.mem_eraseDups.mpr (List.mem_map.mpr ⟨other, listed, beq_iff_eq.mp same⟩))
    simp [none]
  simp only [Grouping.add, missing]
  constructor
  · rw [keys, List.zipIdx_append, h.places, h.groups]
    simp
  · rw [keys, List.map_append, old, List.map_singleton, own]

theorem Of.add : (g.add (key row) row).Of key (rows ++ [row]) := by
  cases found : g.places.lookup (key row) with
  | some place => exact h.add_known row found
  | none => exact h.add_new row found

end

theorem of_foldl (key : Row → String) (rows : List Row) :
    (rows.foldl (fun (g : Grouping) row => g.add (key row) row) .empty).Of key rows := by
  induction rows using List.reverseRecOn with
  | nil => exact ⟨rfl, rfl⟩
  | append_singleton rows row ih =>
    rw [List.foldl_append]
    exact ih.add row

end Grouping

/-- The groups of rows are a partition by the JSON text of the values of GROUP BY. -/
theorem groupRows_partitioned (scope : Scope) (groupBy : List ColumnName) (rows : List Row) :
    ∃ places, PartitionedBy (groupKey scope (groupBy.map (·.text))) rows
      (groupRows scope groupBy rows) places := by
  have groups := (Grouping.of_foldl (groupKey scope (groupBy.map (·.text))) rows).groups
  exact ⟨_, groups ▸ partitionedBy_keys _ rows⟩

def Dialect.SelectItem.valueFor (scope : Scope) (group : List Row) : SelectItem → Value
  | .column name _ =>
    match group with
    | first :: _ => scope.value first name.text
    | [] => .null
  | .aggregate call _ =>
    match call.argument with
    | some name => call.function.ofValues (argumentValues scope name call.distinct group)
    | none => .integer (.ofNat group.length)

def Dialect.SelectItem.IsSupported : SelectItem → Prop
  | .column .. => True
  | .aggregate call _ => call.isSupported = true

def GroupedRow.ofGroup (scope : Scope) (items : List SelectItem) (group : List Row) : GroupedRow :=
  ⟨.ofEntries (items.map fun item => (item.outputName, item.valueFor scope group)), group.head?⟩

section

variable {scope : Scope} {items : List SelectItem} {group : List Row}

theorem itemValue_eq {item : SelectItem} (supported : item.IsSupported) :
    itemValue scope group item = .ok (item.valueFor scope group) := by
  cases item with
  | column name _ => rfl
  | aggregate call _ =>
    have supported : call.isSupported = true := supported
    cases argument : call.argument <;>
      simp [itemValue, AggregateCall.evaluate, SelectItem.valueFor, argument, supported]

theorem groupedRow_eq (supported : ∀ item ∈ items, item.IsSupported) :
    groupedRow scope items group = .ok (.ofGroup scope items group) := by
  have entries : (items.mapM fun item =>
      (do return (item.outputName, ← itemValue scope group item) : Except Failure _)) =
        .ok (items.map fun item => (item.outputName, item.valueFor scope group)) := by
    refine Success.mapM_of_ok fun item listed => ?_
    rw [itemValue_eq (supported item listed)]
    rfl
  simp only [groupedRow, entries]
  rfl

theorem aggregateRows_eq (supported : ∀ item ∈ items, item.IsSupported)
    (groupBy : List ColumnName) (rows : List Row) : aggregateRows scope items groupBy rows =
      .ok ((groupsOf scope groupBy rows).map (.ofGroup scope items)) :=
  Success.mapM_of_ok fun _ _ => groupedRow_eq supported

end

end SqlEngine
