import SqlEngine.Proofs.Constraint.Schema
import SqlEngine.Proofs.Engine.Insertion
import SqlEngine.Proofs.Execution.Generated

/-! The numbers that an INSERT generates. -/

namespace SqlEngine.Engine

open Dialect Execution Script Store

variable {e : Engine} {t : Table} {auto : Column}

theorem Reachable.generates (h : Reachable e) (ht : t ∈ e.store.tables) (hc : auto ∈ t.columns)
    (generated : auto.autoIncrement = true) : Generates t auto := by
  have integer := ((h.declared ht).wellTyped auto hc).generated generated
  refine ⟨hc, generated, fun c hc' isAuto => ?_, integer⟩
  have few := (h.declared ht).autoIncrements
  have listed : auto ∈ t.columns.filter (·.autoIncrement) := List.mem_filter.mpr ⟨hc, generated⟩
  have listed' : c ∈ t.columns.filter (·.autoIncrement) := List.mem_filter.mpr ⟨hc', isAuto⟩
  obtain ⟨d, alone⟩ := List.length_eq_one_iff.mp
    (Nat.le_antisymm few (List.length_pos_of_mem listed))
  rw [alone, List.mem_singleton] at listed listed'
  rw [listed, listed']

theorem Reachable.numeric (h : Reachable e) (ht : t ∈ e.store.tables) (g : Generates t auto) :
    Numeric auto.name (e.store.data t) := by
  refine List.forall_mem_map.mpr fun r hr => ?_
  rw [← g.integer]
  exact h.admits ht g.mem r hr

theorem lt_successor {k m : Int64} (le : k ≤ m) (below : m.toInt < 2 ^ 63 - 1) :
    k < successor m := by
  rw [Int64.le_iff_toInt_le] at le
  rw [Int64.lt_iff_toInt_lt, toInt_successor]
  omega

/-- Let `m` be the largest number in the generated column of a table, zero if there is none, and let
it be the value of a double. An undisturbed INSERT that omits the column, that suits the table
otherwise and keeps its quota, and for whose rows there are numbers left, succeeds. Its rows take
the numbers after `m`, in their order. -/
theorem Reachable.insert_numbers (h : Reachable e) (ht : t ∈ e.store.tables)
    (hc : auto ∈ t.columns) (generated : auto.autoIncrement = true) {m : Int64}
    (largest : Largest (numbers auto.name (e.store.data t)) m) (exact : Binary64.Exact m.toInt)
    (opened : e.deadline.passed = false) {now : Nat} {caller sql : String}
    (admitted : (e.limiter.chargeThrough e.remote caller now).1 = .ok ())
    {names : Option (List String)} {values : List (List Value)}
    (spelled : Statement.ofText sql = .ok (.insert ⟨t.name, names, values⟩)) {columns : List Column}
    (received : Receives t names values columns) (omitted : auto ∉ columns)
    (room : m.toInt + values.length ≤ Int64.maxValue.toInt)
    (quota : e.bounds.quotas.checkRows t.name (e.store.rowsOf t.id).length values.length = .ok ())
    (suits : Suits t columns (e.store.data t) values) :
    let step := e.execute noOutage now caller sql
    step.result.success = true ∧ step.result.rowCount = some values.length ∧
      ∃ new : List StoredRow,
        step.engine.store.rowsOf t.id = e.store.rowsOf t.id ++ new ∧
        new.map (fun r => r.data.get auto.name) =
          (List.range values.length).map fun (j : Nat) =>
            .integer (Int64.ofInt (m.toInt + 1 + j)) := by
  have g := h.generates ht hc generated
  have numeric := h.numeric ht g
  have next : upcoming t (e.store.data t) [] = some (successor m) := by
    rw [g.upcoming_eq, List.foldl_nil, numeric.nextNumber_eq largest exact]
  rw [Int64.toInt_maxValue] at room
  have left : (successor m).toInt + values.length ≤ 2 ^ 63 := by
    rw [toInt_successor]
    omega
  have below : values ≠ [] → ∀ k ∈ numbers auto.name (e.store.data t ++ []), k < successor m := by
    intro some k hk
    have := List.length_pos_iff.mpr some
    rw [List.append_nil] at hk
    exact lt_successor (largest.le hk) (by omega)
  rw [← List.append_nil (e.store.data t)] at numeric suits
  obtain ⟨rows, stages, held⟩ :=
    g.exists_stages (h.declared ht).names omitted numeric next left below suits
  obtain ⟨result, store⟩ := h.execute_stages ht opened admitted spelled received quota stages
  refine ⟨?_, ?_, Store.numbered t.id e.store.nextRow rows, ?_, ?_⟩
  · rw [result]
    rfl
  · rw [result, stages.forall₂.length_eq]
    rfl
  · rw [store, rowsOf_inserted ht]
  · have data : (Store.numbered t.id e.store.nextRow rows).map (fun r => r.data.get auto.name) =
        rows.map (·.get auto.name) := by
      conv_rhs => rw [← map_data_numbered t.id e.store.nextRow rows, List.map_map]
      rfl
    rw [data, held]
    refine List.map_congr_left fun j hj => ?_
    rw [List.mem_range] at hj
    rw [toInt_successor]
    congr 3
    omega

def withNumber (n : Int64) : Engine := (ofConfiguration .testing noRemoteLimiter).afterTexts [
  "CREATE TABLE t (name TEXT UNIQUE)",
  "INSERT INTO t (id, name) VALUES (" ++ toString n.toInt ++ ", 'a')"]

def nameColumn : Column := { name := "name", type := .text, unique := true }

def nameTable : Table := ⟨1, "t", [.implicitId, nameColumn], []⟩

theorem withNumber_reachable (n : Int64) : Reachable (withNumber n) :=
  (Reachable.start _ _).afterTexts _

theorem eq_of_takes_name {s : String} {v : Value}
    (h : Takes [nameColumn] [.text s] none nameColumn v) : v = .text s := by
  cases h with
  | converted given some ok =>
    have is := List.mem_singleton.mp given
    cases is
    cases ok
    rfl
  | generated missing auto number => cases auto
  | default missing plain declared => cases declared
  | null missing plain nullable =>
    rcases missing with ⟨absent, -⟩ | given
    · exact absurd (List.mem_singleton_self _) absent
    · cases List.mem_singleton.mp given

theorem eq_nameColumn {c : Column} (hc : c ∈ nameTable.columns) (plain : c.autoIncrement = false) :
    c = nameColumn := by
  rcases List.mem_cons.mp hc with rfl | hc
  · cases plain
  · exact List.mem_singleton.mp hc

theorem suits_names {names : List String} (distinct : names.Nodup) (existing : List Row)
    (fresh : ∀ s ∈ names, ∀ row ∈ existing, (row.get "name").equals (.text s) = false) :
    Suits nameTable [nameColumn] existing (names.map fun s => [.text s]) where
  lengths := List.forall_mem_map.mpr fun _ _ => rfl
  taken := List.forall_mem_map.mpr fun s _ c hc plain => by
    obtain rfl := eq_nameColumn hc plain
    exact ⟨.text s, .converted (List.mem_singleton_self _) nofun rfl⟩
  fresh := List.forall_mem_map.mpr fun s hs c hc plain v takes other ho => by
    obtain rfl := eq_nameColumn (Table.mem_uniqueColumns.mp hc).1 plain
    rw [eq_of_takes_name takes]
    exact fresh s hs other ho
  distinct := by
    refine List.pairwise_map.mpr (distinct.imp fun {a b} differ c hc plain v w first second => ?_)
    obtain rfl := eq_nameColumn (Table.mem_uniqueColumns.mp hc).1 plain
    rw [eq_of_takes_name first, eq_of_takes_name second]
    exact beq_eq_false_iff_ne.mpr differ

theorem withNumber_holds :
    (∀ n ∈ [9007199254740993, 9007199254740994],
      (withNumber n).store.tables = [nameTable] ∧
      (withNumber n).store.data nameTable = [.ofEntries [("id", .integer n), ("name", .text "a")]] ∧
      (withNumber n).deadline.passed = false ∧
      (((withNumber n).limiter.chargeThrough (withNumber n).remote "ann" 0).1 = .ok ()) ∧
      ∀ k ∈ [1, 2], (withNumber n).bounds.quotas.checkRows nameTable.name
        ((withNumber n).store.rowsOf nameTable.id).length k = .ok ()) ∧
    (⟨0x4340000000000001⟩ : Binary64).units = (9007199254740994 : Int64).toInt * Binary64.one ∧
    Statement.ofText "INSERT INTO t (name) VALUES ('b')" =
      .ok (.insert ⟨nameTable.name, some ["name"], ["b"].map fun s => [.text s]⟩) ∧
    Statement.ofText "INSERT INTO t (name) VALUES ('b'), ('c')" =
      .ok (.insert ⟨nameTable.name, some ["name"], ["b", "c"].map fun s => [.text s]⟩) := by
  refine ⟨List.forall_mem_cons.mpr ⟨?_, List.forall_mem_singleton.mpr ?_⟩, ?_⟩ <;> decide +kernel

theorem largest_of_single (n : Int64) (name : String) :
    Largest (numbers "id" [.ofEntries [("id", .integer n), ("name", .text name)]]) n :=
  .inr ⟨List.mem_singleton_self n, fun _ hk => List.mem_singleton.mp hk ▸ Int64.le_refl n⟩

theorem suits_beside {names : List String} (distinct : names.Nodup) (n : Int64)
    (fresh : "a" ∉ names) : Suits nameTable [nameColumn]
      [.ofEntries [("id", .integer n), ("name", .text "a")]] (names.map fun s => [.text s]) := by
  refine suits_names distinct _ fun s hs row hrow => ?_
  rw [List.mem_singleton.mp hrow]
  exact beq_eq_false_iff_ne.mpr fun same => fresh (same ▸ hs)

theorem receives_name (values : List (List Value)) :
    Receives nameTable (some ["name"]) values [nameColumn] :=
  .listed (List.nodup_singleton _) (.cons ⟨by decide, rfl⟩ .nil)

theorem insert_numbers_withNumber :
    let step := (withNumber 9007199254740994).execute noOutage 0 "ann"
      "INSERT INTO t (name) VALUES ('b'), ('c')"
    step.result.success = true ∧ step.result.rowCount = some 2 ∧
      ∃ new : List StoredRow,
        step.engine.store.rowsOf 1 = (withNumber 9007199254740994).store.rowsOf 1 ++ new ∧
        new.map (fun r => r.data.get "id") =
          [.integer 9007199254740995, .integer 9007199254740996] := by
  obtain ⟨holds, units, -, spelled⟩ := withNumber_holds
  obtain ⟨tables, rows, opened, admitted, quota⟩ := holds 9007199254740994 (by simp)
  have there : nameTable ∈ (withNumber 9007199254740994).store.tables := by
    rw [tables]
    exact List.mem_singleton_self _
  have key : Column.implicitId ∈ nameTable.columns := List.mem_cons_self
  have exact : Binary64.Exact (9007199254740994 : Int64).toInt :=
    ⟨⟨0x4340000000000001⟩, by decide, units⟩
  exact (withNumber_reachable _).insert_numbers there key rfl (rows ▸ largest_of_single _ _) exact
    opened admitted spelled (receives_name _) (by decide) (by decide) (quota 2 (by simp))
    (rows ▸ suits_beside (by decide) _ (by decide))

/-- The number after one that is not the value of a double may be there already. The row that takes
it is refused, though it would only have to take the next one. -/
theorem numbers_astray :
    ∃ e, Reachable e ∧ e.deadline.passed = false ∧ ∃ t ∈ e.store.tables, ∃ auto ∈ t.columns,
      auto.autoIncrement = true ∧ ∃ m, Largest (numbers auto.name (e.store.data t)) m ∧
      ∃ sql names columns values, Statement.ofText sql = .ok (.insert ⟨t.name, names, values⟩) ∧
        (e.limiter.chargeThrough e.remote "ann" 0).1 = .ok () ∧
        Receives t names values columns ∧ auto ∉ columns ∧
        m.toInt + values.length ≤ Int64.maxValue.toInt ∧
        e.bounds.quotas.checkRows t.name (e.store.rowsOf t.id).length values.length = .ok () ∧
        Suits t columns (e.store.data t) values ∧
        (e.execute noOutage 0 "ann" sql).result.success = false := by
  obtain ⟨holds, -, spelled, -⟩ := withNumber_holds
  obtain ⟨tables, rows, opened, admitted, quota⟩ := holds 9007199254740993 (by simp)
  refine ⟨withNumber 9007199254740993, withNumber_reachable _, opened, nameTable, ?_, .implicitId,
    List.mem_cons_self, rfl, 9007199254740993, rows ▸ largest_of_single _ _,
    "INSERT INTO t (name) VALUES ('b')", some ["name"], [nameColumn], ["b"].map fun s => [.text s],
    spelled, admitted, receives_name _, by decide, by decide, quota 1 (by simp),
    rows ▸ suits_beside (by decide) _ (by decide), by decide +kernel⟩
  rw [tables]
  exact List.mem_singleton_self _

end SqlEngine.Engine
