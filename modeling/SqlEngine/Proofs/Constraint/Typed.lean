import SqlEngine.Proofs.Engine.Reachable
import SqlEngine.Proofs.Execution.Values

/-! The shape of stored rows. A row has one entry for each column of its table and no others, and a
value is null or of the declared type of its column, whichever way it came into the row. -/

namespace SqlEngine

open Dialect Execution Script Store

namespace ColumnType

theorem admits_toInteger? {v w : Value} (h : toInteger? v = some w) : integer.admits w = true := by
  cases v <;> simp only [toInteger?, Option.map_eq_some_iff, Option.bind_eq_some_iff,
    Option.some.injEq, reduceCtorEq] at h
  · subst h
    rfl
  · subst h
    rfl
  · obtain ⟨n, -, rfl⟩ := h
    rfl
  · obtain ⟨x, -, n, -, rfl⟩ := h
    rfl

theorem admits_toReal? {v w : Value} (h : toReal? v = some w) : real.admits w = true := by
  unfold toReal? at h
  split at h
  · cases h
    rfl
  · obtain ⟨x, -, rfl⟩ := Option.map_eq_some_iff.mp h
    rfl

theorem admits_toBoolean? {v w : Value} (h : toBoolean? v = some w) : boolean.admits w = true := by
  unfold toBoolean? at h
  split at h
  · cases h
    rfl
  · split at h
    · cases h
      rfl
    · split at h <;> cases h
      rfl
  · split at h
    · cases h
      rfl
    · split at h <;> cases h
      rfl
  · obtain ⟨b, -, rfl⟩ := Option.map_eq_some_iff.mp h
    rfl
  · cases h

theorem admits_convert? {type : ColumnType} {v w : Value} (h : type.convert? v = some w) :
    type.admits w = true := by
  cases type with
  | integer => exact admits_toInteger? h
  | real => exact admits_toReal? h
  | boolean => exact admits_toBoolean? h
  | text =>
    cases h
    rfl
  | date =>
    obtain ⟨i, -, rfl⟩ := Option.map_eq_some_iff.mp h
    rfl

theorem admits_null (type : ColumnType) : type.admits .null = true := by
  cases type <;> rfl

end ColumnType

theorem Column.admits_coerce {c : Column} {v w : Value} (ok : c.coerce v = .ok w) :
    c.type.admits w = true := by
  unfold Column.coerce at ok
  split at ok
  · cases ok
    exact c.type.admits_null
  · split at ok
    · next converted =>
      cases ok
      exact ColumnType.admits_convert? converted
    · cases ok

/-- The values that a column supplies by itself, its default and its generated numbers, are of its
type. -/
structure Column.WellTyped (c : Column) : Prop where
  default : ∀ w, c.default? = some w → c.type.admits w = true
  generated : c.autoIncrement = true → c.type = .integer

theorem Column.settleDefault_wellTyped {c d : Column} (ok : c.settleDefault = .ok d)
    (generated : c.autoIncrement = true → c.type = .integer) : d.WellTyped := by
  unfold settleDefault at ok
  split at ok
  · next none =>
    cases ok
    exact ⟨fun w some => by simp [none] at some, generated⟩
  · obtain ⟨w, coerced, rfl⟩ := Success.map_eq_ok.mp ok
    refine ⟨?_, generated⟩
    rintro w ⟨⟩
    exact Column.admits_coerce (c := c) coerced

theorem Completed.wellTyped {settled columns : List Column} (h : Completed settled columns)
    (typed : ∀ c ∈ settled, c.WellTyped) : ∀ c ∈ columns, c.WellTyped := by
  cases h with
  | declared listed isKey => exact typed
  | @promoted before after id noKey named integer alone =>
    simp only [List.forall_mem_append, List.forall_mem_cons] at typed ⊢
    exact ⟨typed.1, ⟨typed.2.1.default, fun _ => integer⟩, typed.2.2⟩
  | implicit noKey noId noAutoIncrement =>
    exact List.forall_mem_cons.mpr ⟨⟨nofun, fun _ => rfl⟩, typed⟩

/-- Defaults are coerced when a table is created, so those of its columns are of their types. -/
theorem settleColumns_wellTyped {given columns : List Column}
    (ok : settleColumns given = .ok columns) : ∀ c ∈ columns, c.WellTyped := by
  obtain ⟨faultless, settled, each, completed⟩ := settleColumns_ok ok
  refine completed.wellTyped fun d hd => ?_
  obtain ⟨c, hc, made⟩ := Success.exists_left_of_mem each hd
  exact Column.settleDefault_wellTyped made (faultless.integers c hc)

theorem Engine.Declared.wellTyped {columns : List Column} (h : Declared columns) :
    ∀ c ∈ columns, c.WellTyped := by
  obtain ⟨sql, c, -, settled⟩ := h
  exact settleColumns_wellTyped settled

namespace Execution

theorem admits_of_passes {c : Column} (typed : c.WellTyped) {w : Value} (h : Passes c w) :
    c.type.admits w = true := by
  obtain ⟨omitted, v, origin, filled⟩ := h
  have given : c.type.admits v = true := by
    rcases origin with ⟨u, coerced⟩ | ⟨auto, n, rfl⟩
    · exact Column.admits_coerce coerced
    · rw [typed.generated auto]
      rfl
  unfold fillMissing at filled
  split at filled
  · cases filled
    exact given
  · split at filled
    · next replaced =>
      cases filled
      split at replaced
      · exact typed.default _ replaced
      · cases replaced
    · split at filled <;> cases filled
      exact c.type.admits_null

end Execution

namespace Engine

variable {e : Engine}

theorem Reachable.names (h : Reachable e) {t : Table} (ht : t ∈ e.store.tables) :
    ∀ r ∈ e.store.rowsOf t.id, r.data.names = t.columnNames := by
  refine h.rows_induction (P := fun columns rows =>
    ∀ r ∈ rows, r.data.names = columns.map (·.name)) ?_ ?_ ht
  · intro columns _ r hr
    cases hr
  · intro t rows rows' declared ids step before
    exact step.names declared.names ids before

theorem Reachable.admits (h : Reachable e) {t : Table} (ht : t ∈ e.store.tables) {c : Column}
    (hc : c ∈ t.columns) : ∀ r ∈ e.store.rowsOf t.id, c.type.admits (r.data.get c.name) = true := by
  refine h.rows_induction (P := fun columns rows => c ∈ columns →
    ∀ r ∈ rows, c.type.admits (r.data.get c.name) = true) ?_ ?_ ht hc
  · intro columns _ _ r hr
    cases hr
  · intro t rows rows' declared ids step before hc r' hr'
    rcases step.values declared.names ids hc r' hr' with ⟨r, hr, same⟩ | passes
    · rw [same]
      exact before hc r hr
    · exact admits_of_passes (declared.wellTyped c hc) passes

/-- In every reachable state each stored row belongs to a table. It has the columns of its table
and no others, each once, and holds null or a value of the declared type in every one. -/
theorem Reachable.row_fits (h : Reachable e) {r : StoredRow} (hr : r ∈ e.store.rows) :
    (∃ t ∈ e.store.tables, t.id = r.table) ∧
    ∀ t ∈ e.store.tables, t.id = r.table →
      r.data.names = t.columnNames ∧ t.columnNames.Nodup ∧
      ∀ c ∈ t.columns, ∃ v, r.data.get? c.name = some v ∧ c.type.admits v = true := by
  refine ⟨h.numbered.owned r hr, fun t ht owns => ?_⟩
  have listed : r ∈ e.store.rowsOf t.id := mem_rowsOf.mpr ⟨hr, owns.symm⟩
  have names := h.names ht r listed
  refine ⟨names, (h.declared ht).names, fun c hc => ?_⟩
  have there : c.name ∈ r.data.names := names ▸ List.mem_map_of_mem hc
  obtain ⟨v, found⟩ := Row.exists_get?_of_mem_names there
  have admitted := h.admits ht hc r listed
  rw [Row.get, found, Option.getD_some] at admitted
  exact ⟨v, found, admitted⟩

def withEveryType : Engine := (ofConfiguration .testing noRemoteLimiter).afterTexts [
  "CREATE TABLE t (id INTEGER PRIMARY KEY AUTO_INCREMENT, a REAL DEFAULT '2', b BOOLEAN, " ++
    "c DATE, d TEXT)",
  "INSERT INTO t (b, c) VALUES (1, 0)",
  "UPDATE t SET d = 7"]

def everyTypeRow : StoredRow := ⟨1, 1, .ofEntries [("id", .integer 1), ("a", .real (.ofNat 2)),
  ("b", .boolean true), ("c", .date "1970-01-01T00:00:00.000Z"), ("d", .text "7")]⟩

theorem withEveryType_rows : withEveryType.store.rows = [everyTypeRow] := by
  decide +kernel

theorem row_fits_withEveryType :
    (∃ t ∈ withEveryType.store.tables, t.id = 1) ∧
    ∀ t ∈ withEveryType.store.tables, t.id = 1 →
      ["id", "a", "b", "c", "d"] = t.columnNames ∧ t.columnNames.Nodup ∧
      ∀ c ∈ t.columns, ∃ v, everyTypeRow.data.get? c.name = some v ∧ c.type.admits v = true := by
  have reachable : Reachable withEveryType := (Reachable.start _ _).afterTexts _
  refine reachable.row_fits (r := everyTypeRow) ?_
  rw [withEveryType_rows]
  exact List.mem_singleton_self _

end Engine
end SqlEngine
