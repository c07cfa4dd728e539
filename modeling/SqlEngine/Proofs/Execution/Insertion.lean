import SqlEngine.Proofs.Execution.Staging

/-! The rows of an INSERT, as relations between what a statement gives and what a row holds. The
executable rules are proved equal to them, so that a row can be read off its values and a statement
can be shown to succeed. -/

namespace SqlEngine

theorem Value.isNull_eq_false {v : Value} : v.isNull = false ↔ v ≠ .null := by
  rw [Ne, ← isNull_eq_true, Bool.not_eq_true]

namespace ColumnType

theorem convert?_ne_null {type : ColumnType} {v w : Value} (h : type.convert? v = some w) :
    w ≠ .null := by
  rintro rfl
  cases type with
  | integer => cases v <;> simp [convert?, toInteger?, Option.bind_eq_some_iff] at h
  | real => cases v <;> simp [convert?, toReal?] at h
  | text => simp [convert?] at h
  | date => simp [convert?] at h
  | boolean =>
    simp only [convert?, toBoolean?] at h
    split at h
    · simp at h
    · split at h <;> (try split at h) <;> simp at h
    · split at h <;> (try split at h) <;> simp at h
    · simp at h
    · cases h

end ColumnType

theorem Column.coerce_ne_null {c : Column} {v w : Value} (some : v ≠ .null)
    (ok : c.coerce v = .ok w) : w ≠ .null := by
  rw [Column.coerce, if_neg (by simpa using some)] at ok
  split at ok
  · next converted =>
    cases ok
    exact ColumnType.convert?_ne_null converted
  · cases ok

namespace Execution

/-- The columns that receive the values of an INSERT, in the order of the values: those that it
lists, or all, or all but the generated one where the first row is too short by just that. -/
inductive Receives (t : Table) : Option (List String) → List (List Value) → List Column → Prop where
  | listed {names : List String} {values : List (List Value)} {columns : List Column}
      (distinct : names.Nodup)
      (found : List.Forall₂ (fun name c => c ∈ t.columns ∧ c.name = name) names columns) :
      Receives t (some names) values columns
  | everything {values : List (List Value)}
      (whole : ∀ first ∈ values.head?, first.length = t.columns.length ∨
        first.length ≠ (t.columns.filter fun c => !c.autoIncrement).length) :
      Receives t none values t.columns
  | allButGenerated {first : List Value} {rest : List (List Value)}
      (short : first.length ≠ t.columns.length)
      (fits : first.length = (t.columns.filter fun c => !c.autoIncrement).length) :
      Receives t none (first :: rest) (t.columns.filter fun c => !c.autoIncrement)

theorem columnNamed_eq_ok {t : Table} (distinct : t.columnNames.Nodup) {name : String}
    {c : Column} : t.columnNamed name = .ok c ↔ c ∈ t.columns ∧ c.name = name := by
  constructor
  · intro named
    unfold Table.columnNamed Table.column? at named
    split at named
    · next found =>
      cases named
      exact ⟨List.mem_of_find?_eq_some found, by simpa using List.find?_some found⟩
    · cases named
  · rintro ⟨hc, rfl⟩
    exact columnNamed_of_mem distinct hc

theorem listedColumns_eq_ok {t : Table} (distinct : t.columnNames.Nodup) {seen names : List String}
    {columns : List Column} : listedColumns t seen names = .ok columns ↔
      (names.Nodup ∧ ∀ name ∈ names, name ∉ seen) ∧
        List.Forall₂ (fun name c => c ∈ t.columns ∧ c.name = name) names columns := by
  induction names generalizing seen columns with
  | nil => simp [listedColumns, eq_comm]
  | cons name rest ih =>
    rw [listedColumns]
    split
    · next twice =>
      rw [List.contains_iff_mem] at twice
      exact ⟨nofun, fun ⟨⟨_, fresh⟩, _⟩ => absurd twice (fresh name List.mem_cons_self)⟩
    · next fresh =>
      rw [List.contains_iff_mem] at fresh
      simp only [Success.bind_eq_ok, Success.pure_eq_ok, columnNamed_eq_ok distinct, ih,
        List.nodup_cons, List.mem_cons, not_or, forall_eq_or_imp, List.forall₂_cons_left_iff]
      constructor
      · rintro ⟨c, found, others, ⟨⟨nodup, apart⟩, each⟩, rfl⟩
        exact ⟨⟨⟨fun mem => (apart name mem).1 rfl, nodup⟩, fresh, fun x mem => (apart x mem).2⟩,
          c, others, found, each, rfl⟩
      · rintro ⟨⟨⟨notLater, nodup⟩, -, apart⟩, c, others, found, each, rfl⟩
        refine ⟨c, found, others, ⟨⟨nodup, fun x mem => ⟨?_, apart x mem⟩⟩, each⟩, rfl⟩
        exact fun same => notLater (same ▸ mem)

theorem targets_eq_ok {t : Table} (distinct : t.columnNames.Nodup) {names : Option (List String)}
    {values : List (List Value)} {columns : List Column} :
    targets t names values = .ok columns ↔ Receives t names values columns := by
  cases names with
  | some names =>
    simp only [targets, listedColumns_eq_ok distinct]
    constructor
    · rintro ⟨⟨nodup, -⟩, found⟩
      exact .listed nodup found
    · rintro ⟨nodup, found⟩
      exact ⟨⟨nodup, by simp⟩, found⟩
  | none =>
    simp only [targets]
    cases values with
    | nil =>
      constructor
      · rintro ⟨⟩
        exact .everything (by simp)
      · rintro ⟨⟩
        rfl
    | cons first rest =>
      by_cases short : first.length ≠ t.columns.length ∧
          first.length = (t.columns.filter fun c => !c.autoIncrement).length
      · simp only [if_pos short]
        constructor
        · rintro ⟨⟩
          exact .allButGenerated short.1 short.2
        · rintro (_ | whole | _)
          · exact absurd (whole first rfl) (by omega)
          · rfl
      · simp only [if_neg short]
        constructor
        · rintro ⟨⟩
          refine .everything ?_
          simp only [List.head?_cons, Option.mem_some_iff, forall_eq']
          omega
        · rintro (_ | whole | ⟨isShort, fits⟩)
          · rfl
          · exact absurd ⟨isShort, fits⟩ short

theorem Receives.mem {t : Table} {names : Option (List String)} {values : List (List Value)}
    {columns : List Column} (h : Receives t names values columns) :
    ∀ c ∈ columns, c ∈ t.columns := by
  intro c hc
  cases h with
  | listed distinct found =>
    obtain ⟨name, -, there, -⟩ := Success.exists_left_of_mem found hc
    exact there
  | everything whole => exact hc
  | allButGenerated short fits => exact (List.mem_filter.mp hc).1

theorem Receives.names_eq {t : Table} {names : List String} {values : List (List Value)}
    {columns : List Column} (h : Receives t (some names) values columns) :
    names = columns.map (·.name) := by
  cases h with
  | listed distinct found =>
    rw [← List.forall₂_eq_eq_eq, List.forall₂_map_right_iff]
    exact found.imp fun name c each => each.2.symm

theorem Receives.distinct {t : Table} (distinct : t.columnNames.Nodup)
    {names : Option (List String)} {values : List (List Value)} {columns : List Column}
    (h : Receives t names values columns) : (columns.map (·.name)).Nodup := by
  cases names with
  | some names =>
    rw [← h.names_eq]
    cases h with
    | listed nodup found => exact nodup
  | none =>
    cases h with
    | everything whole => exact distinct
    | allButGenerated short fits => exact distinct.sublist (List.filter_sublist.map _)

theorem Receives.of_listed {t : Table} {names : List String} {values values' : List (List Value)}
    {columns : List Column} (h : Receives t (some names) values columns) :
    Receives t (some names) values' columns := by
  cases h with
  | listed distinct found => exact .listed distinct found

def Missing (columns : List Column) (values : List Value) (c : Column) : Prop :=
  c ∉ columns ∨ (c, .null) ∈ columns.zip values

/-- What a column of a new row holds, where `next` is the number to generate. -/
inductive Takes (columns : List Column) (values : List Value) (next : Option Int64) (c : Column) :
    Value → Prop where
  | converted {v w : Value} (given : (c, v) ∈ columns.zip values) (some : v ≠ .null)
      (ok : c.coerce v = .ok w) : Takes columns values next c w
  | generated {n : Int64} (missing : Missing columns values c) (auto : c.autoIncrement = true)
      (number : next = some n) : Takes columns values next c (.integer n)
  | default {w : Value}
      (missing : c ∉ columns ∨ (c, .null) ∈ columns.zip values ∧ c.notNull = true)
      (plain : c.autoIncrement = false) (declared : c.default? = some w) :
      Takes columns values next c w
  | null (missing : c ∉ columns ∧ c.default? = none ∨ (c, .null) ∈ columns.zip values)
      (plain : c.autoIncrement = false) (nullable : c.notNull = false) :
      Takes columns values next c .null

theorem Takes.of_next {columns : List Column} {values : List Value} {next next' : Option Int64}
    {c : Column} {v : Value} (h : Takes columns values next c v)
    (same : c.autoIncrement = true → Missing columns values c → next = next') :
    Takes columns values next' c v := by
  cases h with
  | converted given some ok => exact .converted given some ok
  | generated missing auto number => exact .generated missing auto (same auto missing ▸ number)
  | default missing plain declared => exact .default missing plain declared
  | null missing plain nullable => exact .null missing plain nullable

section

variable {t : Table} {columns : List Column} {values : List Value} {next : Option Int64}
  {c : Column} {v : Value}

structure Fits (t : Table) (columns : List Column) (values : List Value) : Prop where
  names : t.columnNames.Nodup
  mem : ∀ c ∈ columns, c ∈ t.columns
  distinct : (columns.map (·.name)).Nodup
  length : values.length = columns.length

theorem Fits.mem_zip_names (h : Fits t columns values) (hc : c ∈ t.columns) :
    (c.name, v) ∈ (columns.map (·.name)).zip values ↔ (c, v) ∈ columns.zip values := by
  rw [List.zip_map_left, List.mem_map]
  constructor
  · rintro ⟨⟨d, w⟩, mem, same⟩
    simp only [Prod.map, id, Prod.mk.injEq] at same
    have := List.inj_on_of_nodup_map h.names (h.mem d (List.of_mem_zip mem).1) hc same.1
    rwa [← this, ← same.2]
  · exact fun mem => ⟨(c, v), mem, rfl⟩

theorem Fits.mem_names (h : Fits t columns values) (hc : c ∈ t.columns) :
    c.name ∈ columns.map (·.name) ↔ c ∈ columns := by
  rw [List.mem_map]
  constructor
  · rintro ⟨d, mem, same⟩
    rwa [← List.inj_on_of_nodup_map h.names (h.mem d mem) hc same]
  · exact fun mem => ⟨c, mem, rfl⟩

theorem Fits.keys (h : Fits t columns values) :
    ((columns.map (·.name)).zip values).map (·.1) = columns.map (·.name) :=
  List.map_fst_zip (by simp [h.length])

theorem Fits.supplied_some (h : Fits t columns values) (hc : c ∈ t.columns) :
    supplied? ((columns.map (·.name)).zip values) c = some v ↔ (c, v) ∈ columns.zip values := by
  rw [← h.mem_zip_names hc]
  exact ⟨Row.mem_of_find?, Row.find?_of_mem (by rw [h.keys]; exact h.distinct)⟩

theorem Fits.supplied_none (h : Fits t columns values) (hc : c ∈ t.columns) :
    supplied? ((columns.map (·.name)).zip values) c = none ↔ c ∉ columns := by
  rw [supplied?, Row.find?_eq_none, h.keys, h.mem_names hc]

theorem fillMissing_null_eq_ok {omitted : Bool} : fillMissing c omitted .null = .ok v ↔
    (omitted = true ∨ c.notNull = true) ∧ c.default? = some v ∨
      (omitted = true → c.default? = none) ∧ c.notNull = false ∧ v = .null := by
  simp only [fillMissing, Value.isNull, Bool.not_true, Bool.false_eq_true, if_false]
  cases omitted <;> cases c.notNull <;> cases c.default? <;> simp [eq_comm]

theorem fillMissing_of_ne_null {omitted : Bool} (some : v ≠ .null) :
    fillMissing c omitted v = .ok v := by
  rw [fillMissing, Value.isNull_eq_false.mpr some, Bool.not_false, if_pos rfl]

theorem columnValue_of_given {given : List (String × Value)} (supplied : supplied? given c = some v)
    (nonNull : v ≠ .null) : columnValue given next c = c.coerce v := by
  simp only [columnValue, supplied, Option.getD_some]
  cases coerced : c.coerce v with
  | error e => rfl
  | ok w =>
    have nonNull := Column.coerce_ne_null nonNull coerced
    have isNull := Value.isNull_eq_false.mpr nonNull
    show fillMissing c _ _ = _
    cases next <;> simp [isNull, fillMissing_of_ne_null nonNull]

theorem columnValue_of_missing {given : List (String × Value)}
    (missing : (supplied? given c).getD .null = .null)
    (numbered : c.autoIncrement = true → next.isSome = true) :
    columnValue given next c = .ok v ↔
      c.autoIncrement = true ∧ next.map .integer = some v ∨
      c.autoIncrement = false ∧ fillMissing c (supplied? given c).isNone .null = .ok v := by
  simp only [columnValue, missing, Column.coerce_null]
  show fillMissing c _ _ = _ ↔ _
  cases auto : c.autoIncrement with
  | true =>
    obtain ⟨n, rfl⟩ := Option.isSome_iff_exists.mp (numbered auto)
    simp [Value.isNull, fillMissing_of_ne_null, eq_comm]
  | false => cases next <;> simp

theorem Fits.columnValue_eq_ok (h : Fits t columns values) (hc : c ∈ t.columns)
    (numbered : c.autoIncrement = true → next.isSome = true) :
    columnValue ((columns.map (·.name)).zip values) next c = .ok v ↔
      Takes columns values next c v := by
  cases supplied : supplied? ((columns.map (·.name)).zip values) c with
  | none =>
    have absent := (h.supplied_none hc).mp supplied
    have notGiven {w : Value} : (c, w) ∉ columns.zip values := fun mem =>
      absurd (List.of_mem_zip mem).1 absent
    rw [columnValue_of_missing (by rw [supplied]; rfl) numbered, supplied, Option.isNone_none,
      fillMissing_null_eq_ok]
    constructor
    · rintro (⟨auto, number⟩ | ⟨plain, ⟨-, declared⟩ | ⟨undeclared, nullable, rfl⟩⟩)
      · obtain ⟨n, next_eq, rfl⟩ := Option.map_eq_some_iff.mp number
        exact .generated (.inl absent) auto next_eq
      · exact .default (.inl absent) plain declared
      · exact .null (.inl ⟨absent, undeclared rfl⟩) plain nullable
    · rintro (⟨given, -, -⟩ | ⟨-, auto, number⟩ | ⟨-, plain, declared⟩ | ⟨missing, plain, nullable⟩)
      · exact absurd given notGiven
      · exact .inl ⟨auto, by rw [number]; rfl⟩
      · exact .inr ⟨plain, .inl ⟨.inl rfl, declared⟩⟩
      · exact .inr ⟨plain, .inr ⟨fun _ => (missing.resolve_right notGiven).2, nullable, rfl⟩⟩
  | some u =>
    have given := (h.supplied_some hc).mp supplied
    have present : c ∈ columns := (List.of_mem_zip given).1
    have only {w : Value} (mem : (c, w) ∈ columns.zip values) : w = u := by
      have again := (h.supplied_some hc).mpr mem
      rwa [supplied, Option.some.injEq, eq_comm] at again
    by_cases null : u = .null
    · subst null
      rw [columnValue_of_missing (by rw [supplied]; rfl) numbered, supplied, Option.isNone_some,
        fillMissing_null_eq_ok]
      constructor
      · rintro (⟨auto, number⟩ | ⟨plain, ⟨required, declared⟩ | ⟨-, nullable, rfl⟩⟩)
        · obtain ⟨n, next_eq, rfl⟩ := Option.map_eq_some_iff.mp number
          exact .generated (.inr given) auto next_eq
        · exact .default (.inr ⟨given, required.resolve_left nofun⟩) plain declared
        · exact .null (.inr given) plain nullable
      · rintro (⟨mem, some, -⟩ | ⟨-, auto, number⟩ | ⟨missing, plain, declared⟩ |
          ⟨missing, plain, nullable⟩)
        · exact absurd (only mem) some
        · exact .inl ⟨auto, by rw [number]; rfl⟩
        · have required := (missing.resolve_left (not_not_intro present)).2
          exact .inr ⟨plain, .inl ⟨.inr required, declared⟩⟩
        · exact .inr ⟨plain, .inr ⟨nofun, nullable, rfl⟩⟩
    · rw [columnValue_of_given supplied null]
      have notMissing : ¬Missing columns values c := by
        rintro (absent | mem)
        · exact absent present
        · exact null (only mem).symm
      constructor
      · exact .converted given null
      · rintro (⟨mem, -, ok⟩ | ⟨missing, -, -⟩ | ⟨missing, -, -⟩ | ⟨missing, -, -⟩)
        · rwa [← only mem]
        · exact absurd missing notMissing
        · exact absurd (missing.imp_right (·.1)) notMissing
        · exact absurd (missing.imp_left (·.1)) notMissing

structure Made (t : Table) (columns : List Column) (values : List Value) (next : Option Int64)
    (row : Row) : Prop where
  names : row.names = t.columnNames
  takes : ∀ c ∈ t.columns, Takes columns values next c (row.get c.name)

theorem Made.of_next {next' : Option Int64} {row : Row} (h : Made t columns values next row)
    (same : ∀ c ∈ t.columns, c.autoIncrement = true → Missing columns values c → next = next') :
    Made t columns values next' row :=
  ⟨h.names, fun c hc => (h.takes c hc).of_next (same c hc)⟩

theorem newRow_eq_ok {given : List (String × Value)} {row : Row} (distinct : t.columnNames.Nodup) :
    newRow t given next = .ok row ↔ row.names = t.columnNames ∧
      ∀ c ∈ t.columns, columnValue given next c = .ok (row.get c.name) := by
  constructor
  · exact fun ok => ⟨newRow_names distinct ok, fun c hc => get_newRow distinct ok hc⟩
  · rintro ⟨names, each⟩
    have entries : t.columns.mapM (fun c => return (c.name, ← columnValue given next c) :
        Column → Except Failure (String × Value)) =
        .ok (t.columns.map fun c => (c.name, row.get c.name)) := by
      refine Success.mapM_of_ok fun c hc => ?_
      rw [each c hc]
      rfl
    have whole : t.columns.map (fun c => (c.name, row.get c.name)) =
        row.names.map fun name => (name, row.get name) := by
      rw [names, Table.columnNames, List.map_map]
      rfl
    simp only [newRow, Success.bind_eq_ok, Success.pure_eq_ok]
    exact ⟨_, entries, by rw [whole, Row.ofEntries_get (names ▸ distinct)]⟩

theorem Fits.newRow_eq_ok (h : Fits t columns values) {row : Row}
    (numbered : ∀ c ∈ t.columns, c.autoIncrement = true → next.isSome = true) :
    newRow t ((columns.map (·.name)).zip values) next = .ok row ↔
      Made t columns values next row := by
  rw [Execution.newRow_eq_ok h.names]
  constructor
  · rintro ⟨names, each⟩
    exact ⟨names, fun c hc => (h.columnValue_eq_ok hc (numbered c hc)).mp (each c hc)⟩
  · rintro ⟨names, each⟩
    exact ⟨names, fun c hc => (h.columnValue_eq_ok hc (numbered c hc)).mpr (each c hc)⟩

end

def upcoming (t : Table) (existing before : List Row) : Option Int64 :=
  t.autoIncrement?.map fun c => before.foldl (advance c.name) (nextNumber c.name existing)

theorem upcoming_isSome {t : Table} {existing before : List Row} {c : Column} (hc : c ∈ t.columns)
    (auto : c.autoIncrement = true) : (upcoming t existing before).isSome = true := by
  rw [upcoming, Option.isSome_map, Table.autoIncrement?, List.find?_isSome]
  exact ⟨c, hc, auto⟩

/-- Rows that are made one after the other behind those in `before`, each with the number that is
upcoming, and each apart from all rows before it. -/
inductive Stages (t : Table) (columns : List Column) (existing : List Row) :
    List Row → List (List Value) → List Row → Prop where
  | nil {before : List Row} : Stages t columns existing before [] []
  | cons {before : List Row} {values : List Value} {rest : List (List Value)} {row : Row}
      {rows : List Row} (fits : values.length = columns.length)
      (made : Made t columns values (upcoming t existing before) row)
      (apart : ∀ other ∈ existing ++ before, t.Apart other row)
      (others : Stages t columns existing (before ++ [row]) rest rows) :
      Stages t columns existing before (values :: rest) (row :: rows)

section

variable {t : Table} {columns : List Column} {existing before : List Row}
  {values : List (List Value)} {rows : List Row}

theorem stageRows_concat (t : Table) (columns : List Column) (existing before : List Row)
    (row : Row) (number : Nat) (rest : List (List Value)) :
    stageRows t columns existing number (match t.autoIncrement? with
        | some c => (upcoming t existing before).map fun n => advance c.name n row
        | none => upcoming t existing before) (before ++ [row]) rest =
      stageRows t columns existing number (upcoming t existing (before ++ [row])) (before ++ [row])
        rest := by
  congr 1
  unfold upcoming
  cases t.autoIncrement? with
  | none => rfl
  | some c => simp [List.foldl_append]

theorem stageRows_eq_ok (names : t.columnNames.Nodup) (mem : ∀ c ∈ columns, c ∈ t.columns)
    (distinct : (columns.map (·.name)).Nodup) {number : Nat} {all : List Row} :
    stageRows t columns existing number (upcoming t existing before) before values = .ok all ↔
      ∃ rows, all = before ++ rows ∧ Stages t columns existing before values rows := by
  induction values generalizing before number with
  | nil =>
    constructor
    · rintro ⟨⟩
      exact ⟨[], (List.append_nil _).symm, .nil⟩
    · rintro ⟨rows, rfl, ⟨⟩⟩
      rw [List.append_nil]
      rfl
  | cons given rest ih =>
    simp only [stageRows]
    by_cases length : given.length = columns.length
    case neg =>
      rw [if_pos length]
      constructor
      · rintro ⟨⟩
      · rintro ⟨rows, -, stages⟩
        cases stages with
        | cons fits => exact absurd fits length
    case pos =>
      have fits : Fits t columns given := ⟨names, mem, distinct, length⟩
      rw [if_neg (not_not_intro length)]
      simp only [Success.bind_eq_ok, checkUnique_eq_ok, fits.newRow_eq_ok fun c => upcoming_isSome]
      constructor
      · rintro ⟨row, made, ⟨⟩, fromExisting, ⟨⟩, fromBefore, ok⟩
        obtain ⟨rows, rfl, others⟩ := ih.mp ((stageRows_concat ..).symm.trans ok)
        refine ⟨row :: rows, by simp, .cons length made ?_ others⟩
        exact List.forall_mem_append.mpr ⟨fromExisting, fromBefore⟩
      · rintro ⟨rows, rfl, stages⟩
        cases stages with
        | @cons _ _ _ row rows _ made apart others =>
          rw [List.forall_mem_append] at apart
          refine ⟨row, made, (), apart.1, (), apart.2, (stageRows_concat ..).trans ?_⟩
          exact ih.mpr ⟨rows, by simp, others⟩

theorem insertedRows_eq_ok (names : t.columnNames.Nodup) (mem : ∀ c ∈ columns, c ∈ t.columns)
    (distinct : (columns.map (·.name)).Nodup) :
    insertedRows t columns existing values = .ok rows ↔
      Stages t columns existing [] values rows := by
  have start : insertedRows t columns existing values =
      stageRows t columns existing 1 (upcoming t existing []) [] values := rfl
  rw [start, stageRows_eq_ok names mem distinct]
  simp

theorem Stages.forall₂ (h : Stages t columns existing before values rows) :
    List.Forall₂ (fun given row => given.length = columns.length ∧
      ∃ next, Made t columns given next row) values rows := by
  induction h with
  | nil => exact .nil
  | cons fits made apart others ih => exact .cons ⟨fits, _, made⟩ ih

end

end Execution
end SqlEngine
