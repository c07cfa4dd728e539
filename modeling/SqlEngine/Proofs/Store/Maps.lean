import Mathlib.Logic.Function.Basic
import SqlEngine.Proofs.Index.Catalog
import SqlEngine.Proofs.Store.History

/-! A store as three maps: from the names of tables to their numbers, from those to the tables, and
from the numbers of rows to the rows. A call that succeeds writes the entries that it is about, and
no other. -/

namespace SqlEngine.Store

open Function

structure Maps where
  numbers : String → Option Nat
  tables : Nat → Option Table
  rows : Nat → Option StoredRow

def row? (s : Store) (id : Nat) : Option StoredRow := s.rows.find? (·.id == id)

def maps (s : Store) : Maps where
  numbers name := (s.tableNamed? name).map (·.id)
  tables := s.table?
  rows := s.row?

namespace Maps

def empty : Maps := ⟨fun _ => none, fun _ => none, fun _ => none⟩

def after (m : Maps) : Reply → Maps
  | ⟨.createTable name columns indexes, .ok id⟩ => { m with
      numbers := update m.numbers name (some id)
      tables := update m.tables id (some ⟨id, name, columns, indexes⟩) }
  | ⟨.dropTable id, .ok _⟩ => {
      numbers := match m.tables id with
        | some t => update m.numbers t.name none
        | none => m.numbers
      tables := update m.tables id none
      rows := fun row => (m.rows row).filter (·.table != id) }
  | ⟨.insertRow table data, .ok id⟩ => { m with
      rows := update m.rows id (some ⟨id, table, data⟩) }
  | ⟨.updateRow id data, .ok _⟩ => { m with
      rows := update m.rows id ((m.rows id).map ({ · with data })) }
  | ⟨.deleteRow id, .ok _⟩ => { m with rows := update m.rows id none }
  | ⟨.setIndexes id indexes, .ok _⟩ => { m with
      tables := update m.tables id ((m.tables id).map ({ · with indexes })) }
  | _ => m

theorem after_refused (m : Maps) (c : StoreCall) (e : StoreFault) : m.after ⟨c, .error e⟩ = m := by
  cases c <;> rfl

end Maps

section

variable {α κ : Type} [DecidableEq κ] (key : α → κ) (xs : List α)

theorem find?_eq_some_of_distinct {xs : List α} (distinct : (xs.map key).Nodup) {k : κ} {a : α} :
    xs.find? (key · == k) = some a ↔ a ∈ xs ∧ key a = k := by
  refine ⟨fun found => ⟨List.mem_of_find?_eq_some found, by simpa using List.find?_some found⟩, ?_⟩
  rintro ⟨ha, rfl⟩
  have present : (xs.find? (key · == key a)).isSome = true := by simpa using ⟨a, ha, rfl⟩
  obtain ⟨b, found⟩ := Option.isSome_iff_exists.mp present
  have same : key b = key a := by simpa using List.find?_some found
  rw [found, List.inj_on_of_nodup_map distinct (List.mem_of_find?_eq_some found) ha same]

theorem find?_filter_of_distinct {xs : List α} (distinct : (xs.map key).Nodup) (p : α → Bool)
    (k : κ) : (xs.filter p).find? (key · == k) = (xs.find? (key · == k)).filter p := by
  ext a
  have kept : ((xs.filter p).map key).Nodup := distinct.sublist (List.filter_sublist.map _)
  rw [find?_eq_some_of_distinct key kept, Option.filter_eq_some_iff,
    find?_eq_some_of_distinct key distinct, List.mem_filter]
  exact and_right_comm

theorem find?_append_fresh {a : α} (fresh : ∀ b ∈ xs, key b ≠ key a) :
    (fun k => (xs ++ [a]).find? (key · == k)) =
      update (fun k => xs.find? (key · == k)) (key a) (some a) := by
  funext k
  by_cases same : k = key a
  · subst same
    have absent : xs.find? (key · == key a) = none := by simpa using fresh
    simp [List.find?_append, absent]
  · have other : (key a == k) = false := by simpa using Ne.symm same
    simp [List.find?_append, update_of_ne same, other]

theorem find?_filter_ne (gone : κ) :
    (fun k => (xs.filter (key · != gone)).find? (key · == k)) =
      update (fun k => xs.find? (key · == k)) gone none := by
  funext k
  by_cases same : k = gone
  · subst same
    rw [update_self, Index.Catalog.find?_filter_eq_none (by simp)]
  · rw [update_of_ne same, Index.Catalog.find?_filter_of_imp]
    intro b found
    simp_all

theorem find?_map_at (changed : κ) (f : α → α) (kept : ∀ a, key (f a) = key a) :
    (fun k => (xs.map fun a => if key a = changed then f a else a).find? (key · == k)) =
      update (fun k => xs.find? (key · == k)) changed ((xs.find? (key · == changed)).map f) := by
  funext k
  have keys : ((key · == k) ∘ fun a => if key a = changed then f a else a) = (key · == k) := by
    funext a
    by_cases here : key a = changed <;> simp [here, kept]
  rw [List.find?_map, keys]
  by_cases same : k = changed
  · subst same
    rw [update_self]
    refine Option.map_congr fun a found => if_pos ?_
    simpa using List.find?_some found
  · rw [update_of_ne same]
    refine (Option.map_congr fun a found => ?_).trans Option.map_id'
    have here : key a = k := by simpa using List.find?_some found
    rw [if_neg (here ▸ same)]

end

theorem Numbered.filter_id_eq {s : Store} (hs : s.Numbered) {t : Table} (ht : t ∈ s.tables) :
    s.tables.filter (·.id != t.id) = s.tables.filter (·.name != t.name) := by
  refine List.filter_congr fun u hu => ?_
  rw [Bool.eq_iff_iff, bne_iff_ne, bne_iff_ne, Ne, hs.id_eq_iff hu ht]

theorem Answered.maps_eq {s t : Store} {r : Reply} (h : Answered s r t) (hs : s.Numbered) :
    t.maps = s.maps.after r := by
  cases h with
  | refused c e => rw [Maps.after_refused]
  | found | listed | counted | selected => rfl
  | @created name columns indexes absent =>
    let new : Table := ⟨s.nextTable, name, columns, indexes⟩
    have named := find?_append_fresh Table.name s.tables (a := new) (tableNamed?_eq_none.mp absent)
    have numbered := find?_append_fresh Table.id s.tables (a := new) fun u hu =>
      Nat.ne_of_lt (hs.tableBound u hu)
    have numbers := (congrArg (Option.map Table.id ∘ ·) named).trans (comp_update ..)
    simp only [maps, Maps.after, Maps.mk.injEq]
    exact ⟨numbers, numbered, rfl⟩
  | @dropped table there =>
    obtain ⟨u, hu, rfl⟩ := hasTable_iff.mp there
    have found : s.table? u.id = some u :=
      (find?_eq_some_of_distinct Table.id hs.tableIds).mpr ⟨hu, rfl⟩
    have named := find?_filter_ne Table.name s.tables u.name
    rw [← hs.filter_id_eq hu] at named
    have numbers := (congrArg (Option.map Table.id ∘ ·) named).trans (comp_update ..)
    simp only [maps, Maps.after, Maps.mk.injEq, found]
    refine ⟨numbers, find?_filter_ne Table.id s.tables u.id, ?_⟩
    funext row
    exact find?_filter_of_distinct StoredRow.id hs.rowIds _ row
  | @inserted table data there =>
    have numbered := find?_append_fresh StoredRow.id s.rows (a := ⟨s.nextRow, table, data⟩)
      fun q hq => Nat.ne_of_lt (hs.rowBound q hq)
    simp only [maps, Maps.after, Maps.mk.injEq]
    exact ⟨rfl, rfl, numbered⟩
  | @updated row data there =>
    have written := find?_map_at StoredRow.id s.rows row ({ · with data }) fun _ => rfl
    simp only [maps, Maps.after, Maps.mk.injEq]
    exact ⟨rfl, rfl, written⟩
  | @deleted row there =>
    simp only [maps, Maps.after, Maps.mk.injEq]
    exact ⟨rfl, rfl, find?_filter_ne StoredRow.id s.rows row⟩
  | @reindexed table indexes there =>
    have written := find?_map_at Table.id s.tables table ({ · with indexes }) fun _ => rfl
    have kept : ∀ u : Table, (if u.id = table then { u with indexes } else u).id = u.id ∧
        (if u.id = table then { u with indexes } else u).name = u.name := by
      intro u
      split <;> exact ⟨rfl, rfl⟩
    simp only [maps, Maps.after, Maps.mk.injEq]
    refine ⟨?_, written, rfl⟩
    funext name
    simp only [tableNamed?, List.find?_map, Option.map_map, comp_def, kept]

theorem maps_afterCalls (calls : List StoreCall) :
    (empty.afterCalls calls).maps = (empty.replies calls).foldl Maps.after Maps.empty := by
  induction calls using List.reverseRecOn with
  | nil => rfl
  | append_singleton calls c ih =>
    rw [replies_concat, List.foldl_append, ← ih, afterCalls_append]
    exact (answered _ c).maps_eq (Numbered.empty.afterCalls calls)

/-- What a store holds, told from the answers it has given. -/
structure Accounted (s : Store) (h : List Reply) : Prop where
  maps : s.maps = h.foldl Maps.after Maps.empty
  inverse : ∀ name id, s.maps.numbers name = some id ↔ ∃ t, s.maps.tables id = some t ∧ t.name = name
  ownTable : ∀ id t, s.maps.tables id = some t → t.id = id
  ownRow : ∀ id r, s.maps.rows id = some r → r.id = id ∧ (s.maps.tables r.table).isSome = true
  tables : s.tables = survivors Reply.createdTable Reply.tableFate h
  rows : s.rows = survivors Reply.insertedRow Reply.rowFate h
  mapped : ∀ r, r ∈ s.rows ↔ s.maps.rows r.id = some r
  ascending : (s.rows.map (·.id)).Pairwise (· < ·)
  tableNumbers : ((h.filterMap Reply.createdTable).map (·.id)).Pairwise (· < ·) ∧
    ∀ t ∈ h.filterMap Reply.createdTable, t.id ≤ (h.filterMap Reply.createdTable).length
  rowNumbers : ((h.filterMap Reply.insertedRow).map (·.id)).Pairwise (· < ·) ∧
    ∀ r ∈ h.filterMap Reply.insertedRow, r.id ≤ (h.filterMap Reply.insertedRow).length
  selected : ∀ id, s.selectRows id =
    if (s.maps.tables id).isSome then
      .ok ((survivors Reply.insertedRow Reply.rowFate h).filter (·.table == id))
    else .error (.tableNotFound id)
  refusals : ∀ c e, s.answer c = .error e → s.afterCall c = s

namespace Numbered

variable {s : Store}

theorem table?_eq_some (hs : s.Numbered) {id : Nat} {t : Table} :
    s.table? id = some t ↔ t ∈ s.tables ∧ t.id = id :=
  find?_eq_some_of_distinct Table.id hs.tableIds

theorem tableNamed?_eq_some (hs : s.Numbered) {name : String} {t : Table} :
    s.tableNamed? name = some t ↔ t ∈ s.tables ∧ t.name = name :=
  find?_eq_some_of_distinct Table.name hs.names

theorem row?_eq_some (hs : s.Numbered) {id : Nat} {r : StoredRow} :
    s.row? id = some r ↔ r ∈ s.rows ∧ r.id = id :=
  find?_eq_some_of_distinct StoredRow.id hs.rowIds

theorem maps_inverse (hs : s.Numbered) (name : String) (id : Nat) :
    s.maps.numbers name = some id ↔ ∃ t, s.maps.tables id = some t ∧ t.name = name := by
  simp only [maps, Option.map_eq_some_iff, hs.table?_eq_some, hs.tableNamed?_eq_some]
  constructor
  · rintro ⟨t, ⟨ht, named⟩, numbered⟩
    exact ⟨t, ⟨ht, numbered⟩, named⟩
  · rintro ⟨t, ⟨ht, numbered⟩, named⟩
    exact ⟨t, ⟨ht, named⟩, numbered⟩

theorem maps_rows (hs : s.Numbered) {id : Nat} {r : StoredRow} (found : s.maps.rows id = some r) :
    r.id = id ∧ (s.maps.tables r.table).isSome = true := by
  obtain ⟨hr, own⟩ := hs.row?_eq_some.mp found
  obtain ⟨t, ht, owner⟩ := hs.owned r hr
  exact ⟨own, Option.isSome_iff_exists.mpr ⟨t, hs.table?_eq_some.mpr ⟨ht, owner⟩⟩⟩

end Numbered

theorem numbers_ascend {α : Type} (number : α → Nat) {xs : List α}
    (counted : xs.map number = List.range' 1 xs.length) :
    (xs.map number).Pairwise (· < ·) ∧ ∀ a ∈ xs, number a ≤ xs.length := by
  refine ⟨counted ▸ List.pairwise_lt_range', fun a ha => ?_⟩
  have drawn : number a ∈ List.range' 1 xs.length := counted ▸ List.mem_map_of_mem ha
  rw [List.mem_range'_1] at drawn
  omega

theorem afterCalls_accounted (calls : List StoreCall) :
    Accounted (empty.afterCalls calls) (empty.replies calls) := by
  have numbered := Numbered.empty.afterCalls calls
  constructor
  case maps => exact maps_afterCalls calls
  case inverse => exact numbered.maps_inverse
  case ownTable => exact fun id t found => (numbered.table?_eq_some.mp found).2
  case ownRow => exact fun id r found => numbered.maps_rows found
  case tables => exact tables_afterCalls calls
  case rows => exact rows_afterCalls calls
  case mapped => exact fun r => (numbered.row?_eq_some.trans (and_iff_left rfl)).symm
  case ascending => exact rows_ascend calls
  case tableNumbers => exact numbers_ascend Table.id (createdTable_ids calls)
  case rowNumbers => exact numbers_ascend StoredRow.id (insertedRow_ids calls)
  case selected =>
    intro id
    rw [← rows_afterCalls]
    rfl
  case refusals =>
    intro c e refused
    unfold afterCall
    rw [refused]

end SqlEngine.Store
