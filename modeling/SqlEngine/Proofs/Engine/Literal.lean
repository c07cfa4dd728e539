import SqlEngine.Proofs.Dialect.Quoting
import SqlEngine.Proofs.Engine.Insertion
import SqlEngine.Proofs.Relation.Resolution

/-! A text on its way through the engine: written as a literal, inserted, and selected. -/

namespace SqlEngine

open Dialect

namespace Query

variable {q : Query} {column output : String} {row : Row}

inductive Shows (q : Query) (column : String) : String → Prop
  | star (all : q.select.items = none) : Shows q column column
  | item {items : List SelectItem} {name : ColumnName} {alias? : Option String}
      (list : q.select.items = some items) (listed : .column name alias? ∈ items)
      (meant : q.scope.key? q.available name.text = some column)
      (named : column = name.text ∨ Scope.splitQualifier name.text ≠ none)
      (alone : ∀ item ∈ items, item.outputName = (SelectItem.column name alias?).outputName →
        item = .column name alias?) :
      Shows q column (SelectItem.column name alias?).outputName

/-- A name is read under the key that it has, unless it is a bare name of joined columns. -/
theorem value_of_key? {s : Scope} {available : List String} {name key : String}
    (keys : row.HasKeys available) (found : s.key? available name = some key)
    (named : key = name ∨ Scope.splitQualifier name ≠ none) : s.value row name = row.get key := by
  cases Scope.keyed_of_key? found with
  | own listed =>
    obtain ⟨v, there⟩ := keys.exists_get? listed
    rw [Scope.value, there, Row.get, there]
    rfl
  | base unlisted split based listed =>
    have own : row.get? name = none := keys.get?_eq_none.mpr unlisted
    simp [Scope.value, own, split, based]
  | joined unlisted bare listed ends =>
    rcases named with rfl | qualified
    · exact absurd listed unlisted
    · exact absurd bare qualified

theorem get_ofEntries_of_forall {entries : List (String × Value)} {name : String} {v : Value}
    (listed : (name, v) ∈ entries) (only : ∀ w, (name, w) ∈ entries → w = v) :
    (Row.ofEntries entries).get name = v := by
  obtain ⟨w, there, get⟩ := Row.exists_get_putAll (List.mem_map_of_mem (f := Prod.fst) listed)
  rw [Row.ofEntries, get, only w there]

theorem Shows.get_project (h : q.Shows column output) (listed : column ∈ q.available)
    (keys : row.HasKeys q.available) : (q.project row).get output = row.get column := by
  cases h with
  | star all =>
    simp only [project, all]
    refine get_ofEntries_of_forall (List.mem_map.mpr ⟨column, listed, rfl⟩) fun w there => ?_
    obtain ⟨key, -, same⟩ := List.mem_map.mp there
    cases same
    rfl
  | @item items name alias? list mem meant named alone =>
    have read := value_of_key? keys meant named
    simp only [project, list]
    refine get_ofEntries_of_forall (List.mem_filterMap.mpr ⟨_, mem, ?_⟩) fun w there => ?_
    · exact congrArg (fun v => some (_, v)) read
    · obtain ⟨item, mem', same⟩ := List.mem_filterMap.mp there
      cases item with
      | aggregate => cases same
      | column name' alias' =>
        simp only [Option.some.injEq, Prod.mk.injEq] at same
        cases alone _ mem' same.1
        rw [← same.2, read]

structure Alone (q : Query) (s : Store) (t : Table) (row : Row) : Prop extends q.Over s where
  table : q.base = t
  single : q.joined = []
  plain : q.isGrouped = false
  meets : (s.data t).filter (satisfies q.scope q.select.condition) = [row]

theorem Alone.available {s : Store} {t : Table} (h : q.Alone s t row) :
    q.available = t.columnNames := by
  rw [Query.available, keysAfter, h.single, h.table, List.flatMap_nil, List.append_nil]

theorem Alone.finish {s : Store} {t : Table} (h : q.Alone s t row) : q.finish (s.joined q) =
    .ok (.rows q.plainColumns (page q.select.offset q.select.limit [q.project row])) := by
  have joined : s.joined q = s.data t := by
    rw [Store.joined, Store.joinedAfter, h.single, h.table]
    rfl
  have sorted : sortBy q.scope q.plainSortNames id [row] = .ok [row] := rfl
  have kept : firsts (tupleText q.plainColumns) [q.project row] = [q.project row] := rfl
  rw [finish_of_plain h.plain, joined, h.meets, plainRows_eq, sorted]
  simp only [Except.map, wholeResult, ← firsts_eq, List.map_singleton, kept, ite_self]

end Query

namespace Execution

theorem Takes.coerced {t : Table} {columns : List Column} {values : List Value}
    {next : Option Int64} {c : Column} {v w : Value} (h : Takes columns values next c w)
    (fits : Fits t columns values) (given : (c, v) ∈ columns.zip values) (some : v ≠ .null) :
    c.coerce v = .ok w := by
  have listed := (List.of_mem_zip given).1
  have hc := fits.mem c listed
  have only {u : Value} (there : (c, u) ∈ columns.zip values) : u = v := by
    have first := (fits.supplied_some hc).mpr given
    have second := (fits.supplied_some hc).mpr there
    exact Option.some.inj (second.symm.trans first)
  cases h with
  | converted there _ ok => rwa [← only there]
  | generated missing =>
    rcases missing with absent | null
    · exact absurd listed absent
    · exact absurd (only null).symm some
  | default missing =>
    rcases missing with absent | null
    · exact absurd listed absent
    · exact absurd (only null.1).symm some
  | null missing =>
    rcases missing with absent | null
    · exact absurd listed absent.1
    · exact absurd (only null).symm some

end Execution

namespace Engine

open Execution Script Store

variable {e : Engine}

theorem exists_of_forall₂_middle {α β : Type} {R : α → β → Prop} {before after : List α} {a : α}
    {bs : List β} (h : List.Forall₂ R (before ++ a :: after) bs) :
    ∃ b, bs[before.length]? = some b ∧ R a b := by
  induction before generalizing bs with
  | nil =>
    cases h with
    | cons first => exact ⟨_, rfl, first⟩
  | cons x before ih =>
    cases h with
    | cons _ others => exact ih others

theorem exists_of_zip_middle {α β : Type} {before after : List β} {b : β} {as : List α}
    (length : (before ++ b :: after).length = as.length) :
    ∃ a, as[before.length]? = some a ∧ (a, b) ∈ as.zip (before ++ b :: after) := by
  induction before generalizing as with
  | nil =>
    cases as with
    | nil => cases length
    | cons a as => exact ⟨a, rfl, List.mem_cons_self⟩
  | cons x before ih =>
    cases as with
    | nil => cases length
    | cons a as =>
      obtain ⟨c, here, listed⟩ := ih (Nat.succ.inj length)
      exact ⟨c, here, List.mem_cons_of_mem _ listed⟩

/-- A value that an INSERT gives is coerced to the column at its place, in the row at its place
behind the rows that the table had. -/
theorem Reachable.insert_gives (h : Reachable e) (outage : Outage) (now : Nat) (caller : String)
    {sql : String} {i : Insert} (spelled : Statement.ofText sql = .ok (.insert i))
    (succeeded : (e.execute outage now caller sql).result.success = true)
    {rows rows' : List (List Value)} {row row' : List Value} {v : Value} (given : v ≠ .null)
    (values : i.values = rows ++ (row ++ v :: row') :: rows') :
    ∃ t ∈ e.store.tables, t.name = i.table ∧
      t ∈ (e.execute outage now caller sql).engine.store.tables ∧
      ∃ columns, Receives t i.columns i.values columns ∧ ∃ c, columns[row.length]? = some c ∧
        ∃ r, ((e.execute outage now caller sql).engine.store.rowsOf t.id)[
            (e.store.rowsOf t.id).length + rows.length]? = some r ∧
          c.coerce v = .ok (r.data.get c.name) := by
  obtain ⟨⟨-, opened⟩, p, planned, -, store⟩ :=
    planned_of_success e outage now caller sql h.numbered spelled succeeded
  have inserted : (insert e.bounds i).eval e.store = .ok p := planned
  obtain ⟨t, named, -⟩ := (eval_insert_eq_ok opened).mp inserted
  obtain ⟨ht, same⟩ := mem_of_tableNamed? (named_eq_ok.mp named)
  have distinct := (h.declared ht).names
  obtain ⟨columns, received, -, made, stages, rfl⟩ :=
    (plan_insert_eq_ok opened named distinct).mp planned
  have each := stages.forall₂
  rw [← map_data_numbered t.id e.store.nextRow made, List.forall₂_map_right_iff, values] at each
  obtain ⟨r, here, length, next, isMade⟩ := exists_of_forall₂_middle each
  obtain ⟨c, place, listed⟩ := exists_of_zip_middle length
  have fits : Fits t columns (row ++ v :: row') :=
    ⟨distinct, received.mem, received.distinct distinct, length⟩
  have hc := received.mem c (List.mem_of_getElem? place)
  refine ⟨t, ht, same, ?_, columns, received, c, place, r, ?_,
    (isMade.takes c hc).coerced fits listed given⟩
  · rw [store, tables_inserted ht]
    exact ht
  · rw [store, rowsOf_inserted ht, List.getElem?_append_right (Nat.le_add_right _ _),
      Nat.add_sub_cancel_left]
    exact here

theorem Reachable.select_alone (h : Reachable e) {q : Query} {t : Table} {row : Row}
    (alone : q.Alone e.store t row) (outage : Outage) (now : Nat) (caller : String) {sql : String}
    (spelled : Statement.ofText sql = .ok (.select q.select))
    (succeeded : (e.execute outage now caller sql).result.success = true) :
    (e.execute outage now caller sql).result = .ofOutput (.rows q.plainColumns
      (Query.page q.select.offset q.select.limit [q.project row])) := by
  obtain ⟨⟨-, opened⟩, p, planned, result, -⟩ :=
    planned_of_success e outage now caller sql h.numbered spelled succeeded
  have selected : (plan e.bounds (.select q.select)).eval e.store = _ :=
    eval_select (b := e.bounds) opened h.numbered alone.toOver
  rw [selected, alone.finish, Success.map_eq_ok] at planned
  obtain ⟨output, checked, rfl⟩ := planned
  obtain ⟨-, -, same⟩ := Success.bind_eq_ok.mp checked
  rw [result, ← Except.ok.inj same]

/-- A text between quotes, with each such quote in it doubled, is one token of that text before
whatever does not begin with the quote, and what comes behind is cut as it is on its own. In an
INSERT it is one value, at a place that does not depend on the text, and where this place is that
of a TEXT column, the new row holds the text. A query that this row alone meets answers it. -/
theorem Reachable.literal_returned (h : Reachable e) {quote : Char}
    (mark : quote = '\'' ∨ quote = '"') (s : String) :
    (∀ rest : String, (∀ d ∈ rest.toList.head?, d ≠ quote) →
      tokens (quotedBy quote s ++ rest) =
        (shifted (quotedBy quote s).utf8ByteSize
          (List.map (Token.shift (quotedBy quote s).utf8ByteSize)) (tokens rest)).map
            (⟨.string s, 0, (quotedBy quote s).utf8ByteSize⟩ :: ·)) ∧
    ∀ (outage : Outage) (now : Nat) (caller pre post : String) (i : Insert),
      Carries quote s pre post i →
      let inserted := e.execute outage now caller (pre ++ (quotedBy quote s ++ post))
      inserted.result.success = true →
      ∃ rows row row' rows',
        (∀ x, Statement.ofText (pre ++ (quotedBy quote x ++ post)) = .ok (.insert
          { i with values := rows ++ (row ++ .text x :: row') :: rows' })) ∧
        ∃ t ∈ e.store.tables, t.name = i.table ∧
          ∃ columns, Receives t i.columns i.values columns ∧ ∃ c, columns[row.length]? = some c ∧
            ∃ r, (inserted.engine.store.rowsOf t.id)[
                (e.store.rowsOf t.id).length + rows.length]? = some r ∧
              (c.type = .text → r.data.get c.name = .text s ∧
                ∀ (q : Query) (output : String), q.Alone inserted.engine.store t r.data →
                  q.Shows c.name output → ∀ (outage : Outage) (now : Nat) (caller sql : String),
                    Statement.ofText sql = .ok (.select q.select) →
                    (q.check = .ok () → (inserted.engine.limiter.chargeThrough
                        inserted.engine.remote caller now).1 = .ok () →
                      (inserted.engine.execute noOutage now caller sql).result.success = true) ∧
                    let selected := inserted.engine.execute outage now caller sql
                    (selected.result.success = true → ∃ answer : Row,
                      answer.get output = .text s ∧ selected.result = .ofOutput
                        (.rows q.plainColumns
                          (Query.page q.select.offset q.select.limit [answer])))) := by
  refine ⟨fun rest => tokens_quotedBy_append mark s rest, ?_⟩
  intro outage now caller pre post i carries inserted succeeded
  have opened : inserted.engine.deadline.passed = false := by
    obtain ⟨⟨-, opened⟩, -⟩ :=
      planned_of_success e outage now caller _ h.numbered carries.spelled succeeded
    rwa [deadline, execute_configuration]
  obtain ⟨rows, row, row', rows', values, each⟩ := carries.requoted mark
  obtain ⟨t, ht, named, there, columns, received, c, place, r, here, coerced⟩ :=
    h.insert_gives outage now caller carries.spelled succeeded (v := .text s) nofun values
  refine ⟨rows, row, row', rows', each, t, ht, named, columns, received, c, place, r, here, ?_⟩
  intro isText
  have kept : r.data.get c.name = .text s := by
    rw [Column.coerce, isText] at coerced
    exact (Except.ok.inj coerced).symm
  refine ⟨kept, ?_⟩
  intro q output alone shows outage now caller sql spelled
  have reachable : Reachable inserted.engine := h.execute ..
  have keys : r.data.HasKeys q.available := by
    rw [alone.available]
    exact Row.hasKeys_of_names (reachable.names there r (List.mem_of_getElem? here))
  have listed : c.name ∈ q.available := by
    rw [alone.available]
    exact List.mem_map_of_mem (received.mem c (List.mem_of_getElem? place))
  refine ⟨fun checked admitted => ?_, fun succeeded => ⟨q.project r.data, ?_, ?_⟩⟩
  · rw [execute_accepted reachable.numbered opened admitted spelled ⟨alone.toOver, checked⟩,
      alone.finish]
    rfl
  · rw [shows.get_project listed keys, kept]
  · exact reachable.select_alone alone outage now caller spelled succeeded

def withNotes : Engine := (ofConfiguration .testing noRemoteLimiter).afterTexts [
  "CREATE TABLE notes (id INTEGER PRIMARY KEY, body TEXT)"]

def notesTable : Table := keyed 1 "notes" [{ name := "body", type := .text }]

def hostile : String := "''); -- /*\né'"

def hostileInsert : String := "INSERT INTO notes VALUES (1, " ++ (quotedBy '\'' hostile ++ ")")

def hostileRow : Row := ⟨[("id", .integer 1), ("body", .text hostile)]⟩

def noteQuery : Query where
  select := {
    distinct := false
    items := some [.column (.bare "body") none]
    source := ⟨"notes", none⟩
    joins := []
    condition := some (.test "id" (.compare .equal (.integer 1)))
    groupBy := []
    having := none
    orderBy := []
    limit := none
    offset := none }
  base := notesTable
  joined := []

def afterHostile : Engine := (withNotes.execute noOutage 0 "ann" hostileInsert).engine

theorem withNotes_holds :
    (withNotes.store.tables = [notesTable] ∧ withNotes.store.rowsOf notesTable.id = []) ∧
    (((tokens hostileInsert).map fun ts => decide (⟨.string hostile, 29, 48⟩ ∈ ts)) = .ok true ∧
      Statement.ofText hostileInsert =
        .ok (.insert ⟨"notes", none, [[.integer 1, .text hostile]]⟩)) ∧
    (withNotes.execute noOutage 0 "ann" hostileInsert).result.success = true ∧
    (afterHostile.store.tables = [notesTable] ∧
      (afterHostile.store.rowsOf 1).map (·.data) = [hostileRow] ∧
      [hostileRow].filter (satisfies noteQuery.scope noteQuery.select.condition) = [hostileRow]) ∧
    Statement.ofText "SELECT body FROM notes WHERE id = 1" = .ok (.select noteQuery.select) ∧
    (afterHostile.execute noOutage 1 "bob" "SELECT body FROM notes WHERE id = 1").result.success =
      true := by
  decide +kernel

theorem literal_returned_hostile :
    tokens (quotedBy '\'' hostile ++ ")") =
        (shifted (quotedBy '\'' hostile).utf8ByteSize
          (List.map (Token.shift (quotedBy '\'' hostile).utf8ByteSize)) (tokens ")")).map
            (⟨.string hostile, 0, (quotedBy '\'' hostile).utf8ByteSize⟩ :: ·) ∧
      (withNotes.execute noOutage 0 "ann" hostileInsert).result.success = true ∧
      ∃ answer : Row, answer.get "body" = .text hostile ∧
        (afterHostile.execute noOutage 1 "bob" "SELECT body FROM notes WHERE id = 1").result =
          .ofOutput (.rows ["body"] [answer]) := by
  obtain ⟨⟨tables, empty⟩, ⟨cut, spelled⟩, inserted, ⟨tables', data, met⟩, asked, selected⟩ :=
    withNotes_holds
  have reachable : Reachable withNotes := (Reachable.start _ _).afterTexts _
  obtain ⟨lexed, returned⟩ := reachable.literal_returned (.inl rfl) hostile
  have stop : ∀ d ∈ ")".toList.head?, d ≠ '\'' := by simp
  refine ⟨lexed ")" stop, inserted, ?_⟩
  have token : ∃ ts, tokens hostileInsert = .ok ts ∧ ⟨.string hostile, 29, 48⟩ ∈ ts := by
    obtain ⟨ts, ok, listed⟩ := Success.map_eq_ok.mp cut
    exact ⟨ts, ok, of_decide_eq_true listed⟩
  have carries : Carries '\'' hostile "INSERT INTO notes VALUES (1, " ")"
      ⟨"notes", none, [[.integer 1, .text hostile]]⟩ := ⟨stop, token, spelled⟩
  obtain ⟨rows, row, row', rows', each, t, ht, -, columns, received, c, place, r, here, kept⟩ :=
    returned noOutage 0 "ann" _ _ _ carries inserted
  obtain rfl : t = notesTable := List.mem_singleton.mp (tables ▸ ht)
  have values : [[.integer 1, .text hostile]] =
      rows ++ (row ++ .text hostile :: row') :: rows' := by
    have same := spelled.symm.trans (each hostile)
    simpa using same
  obtain ⟨rfl, rfl⟩ : rows = [] ∧ row = [.integer 1] := by
    rcases rows with _ | ⟨_, _ | _⟩
    · rcases row with _ | ⟨v, _ | ⟨_, _ | _⟩⟩
      all_goals cases values
      exact ⟨rfl, rfl⟩
    all_goals cases values
  have column : c = { name := "body", type := .text } := by
    cases received with
    | everything whole => exact (Option.some.inj place).symm
    | allButGenerated short fits => exact absurd rfl short
  subst column
  have same : r.data = hostileRow := by
    rw [empty] at here
    have first : (afterHostile.store.rowsOf 1)[0]? = some r := here
    have stored := congrArg List.head? data
    rw [List.head?_map, List.head?_eq_getElem?, first] at stored
    exact Option.some.inj stored
  obtain ⟨-, shown⟩ := kept rfl
  have alone : noteQuery.Alone afterHostile.store notesTable r.data :=
    { base := by rw [tables']; exact List.mem_cons_self
      source := rfl
      joins := rfl
      joined := nofun
      table := rfl
      single := rfl
      plain := rfl
      meets := by rw [same]; exact (congrArg (List.filter _) data).trans met }
  have meant : noteQuery.scope.key? noteQuery.available (ColumnName.bare "body").text =
      some "body" := by
    rfl
  have shows : noteQuery.Shows "body" (SelectItem.column (.bare "body") none).outputName :=
    .item rfl List.mem_cons_self meant (.inl rfl) fun _ mem _ => List.mem_singleton.mp mem
  obtain ⟨answer, kept, answered⟩ :=
    (shown noteQuery _ alone shows noOutage 1 "bob" _ asked).2 selected
  exact ⟨answer, kept, answered⟩

end Engine
end SqlEngine
