import SqlEngine.Proofs.Constraint.Typed
import SqlEngine.Proofs.Schema.Coercion

/-! The columns of a new table in full: which lists are taken, what is made of them, and that the
made columns are taken again as they are. A date default is the exception, since the text that is
written for an instant is read anew. -/

namespace SqlEngine

namespace Column

inductive Settles : Column → Column → Prop where
  | plain {c : Column} (absent : c.default? = none) : Settles c c
  | coerced {c : Column} {v w : Value} (given : c.default? = some v) (made : c.coerce v = .ok w) :
      Settles c { c with default? := some w }

theorem settleDefault_eq_ok {c d : Column} : c.settleDefault = .ok d ↔ c.Settles d := by
  unfold settleDefault
  constructor
  · intro ok
    split at ok
    · next absent =>
      cases ok
      exact .plain absent
    · next given =>
      obtain ⟨w, made, rfl⟩ := Success.map_eq_ok.mp ok
      exact .coerced given made
  · rintro (absent | ⟨given, made⟩)
    · simp [absent]
    · simp [given, made, Except.map]

theorem Settles.type_eq {c d : Column} (h : c.Settles d) : d.type = c.type := by
  cases h <;> rfl

theorem Settles.default_none {c d : Column} (h : c.Settles d) (absent : c.default? = none) :
    d.default? = none := by
  cases h with
  | plain => exact absent
  | coerced given made => simp [given] at absent

end Column

theorem ColumnType.convert?_eq_some_self {type : ColumnType} {v : Value} (known : v ≠ .null)
    (admitted : type.admits v = true) (noDate : type ≠ .date) : type.convert? v = some v := by
  cases type with
  | date => exact absurd rfl noDate
  | integer | real | text | boolean =>
    cases v <;> first
      | exact absurd rfl known
      | exact Bool.noConfusion admitted
      | rfl

namespace Column

theorem coerce_eq_self {c : Column} {v : Value} (admitted : c.type.admits v = true)
    (noDate : c.type ≠ .date) : c.coerce v = .ok v := by
  by_cases null : v = .null
  · rw [null, coerce_null]
  · rw [coerce_eq c v null, ColumnType.convert?_eq_some_self null admitted noDate, Option.elim_some]

theorem settles_self {c : Column} (typed : c.WellTyped)
    (noDate : c.type = .date → c.default? = none) : c.Settles c := by
  cases given : c.default? with
  | none => exact .plain given
  | some w =>
    have notDate : c.type ≠ .date := fun date => by simp [noDate date] at given
    have settles := Settles.coerced given (coerce_eq_self (typed.default w given) notDate)
    rwa [← given] at settles

end Column

/-- A declared key stays. Without one the first column that is named `id` becomes the key and
generates its numbers, and without such a column one is put in front. No other column may generate
numbers then. -/
inductive Keyed : List Column → List Column → Prop where
  | declared {columns : List Column} (key : ∃ c ∈ columns, c.primaryKey = true) :
      Keyed columns columns
  | promoted {before after : List Column} {id : Column}
      (noKey : ∀ c ∈ before ++ id :: after, c.primaryKey = false)
      (first : ∀ c ∈ before, c.isNamedId = false) (named : id.isNamedId = true)
      (integer : id.type = .integer) (alone : ∀ c ∈ before ++ after, c.autoIncrement = false) :
      Keyed (before ++ id :: after)
        (before ++ { id.asPrimaryKey with autoIncrement := true } :: after)
  | implicit {columns : List Column} (noKey : ∀ c ∈ columns, c.primaryKey = false)
      (noId : ∀ c ∈ columns, c.isNamedId = false)
      (alone : ∀ c ∈ columns, c.autoIncrement = false) : Keyed columns (.implicitId :: columns)

theorem exists_primaryKey_of_keyed {settled columns : List Column} (h : Keyed settled columns) :
    ∃ c ∈ columns, c.primaryKey = true := by
  cases h with
  | declared key => exact key
  | promoted => exact ⟨_, List.mem_append_right _ List.mem_cons_self, rfl⟩
  | implicit => exact ⟨_, List.mem_cons_self, rfl⟩

theorem keyed_iff_of_declared {settled columns : List Column}
    (declared : ∃ c ∈ settled, c.primaryKey = true) :
    Keyed settled columns ↔ settled = columns := by
  constructor
  · intro keyed
    obtain ⟨c, hc, key⟩ := declared
    cases keyed with
    | declared => rfl
    | promoted noKey => exact absurd key (by simp [noKey c hc])
    | implicit noKey => exact absurd key (by simp [noKey c hc])
  · rintro rfl
    exact .declared declared

section Promotion

variable {before after : List Column} {id : Column}

theorem filter_find?_autoIncrement_eq_none
    (distinct : ((before ++ id :: after).map (·.name)).Nodup)
    (one : ((before ++ id :: after).filter (·.autoIncrement)).length ≤ 1) :
    (((before ++ id :: after).find? (·.autoIncrement)).map (·.name)).filter (· != id.name) = none ↔
      ∀ c ∈ before ++ after, c.autoIncrement = false := by
  constructor
  · intro none c hc
    by_contra marked
    rw [Bool.not_eq_false] at marked
    have listed : c ∈ before ++ id :: after := by
      rw [List.mem_append] at hc ⊢
      exact hc.imp_right (List.mem_cons_of_mem _)
    obtain ⟨d, found⟩ := Option.isSome_iff_exists.mp
      (List.find?_isSome.mpr ⟨c, listed, marked⟩)
    have same : d = c := by
      obtain ⟨only, filtered⟩ := List.length_eq_one_iff.mp
        (one.antisymm (List.length_pos_of_mem (List.mem_filter.mpr ⟨listed, marked⟩)))
      have hd := List.mem_filter.mpr ⟨List.mem_of_find?_eq_some found, List.find?_some found⟩
      have hc := List.mem_filter.mpr ⟨listed, marked⟩
      rw [filtered, List.mem_singleton] at hd hc
      rw [hd, hc]
    subst same
    have named : d.name = id.name := by simpa [found, Option.filter] using none
    rw [List.map_append, List.map_cons, List.nodup_middle, List.nodup_cons,
      ← List.map_append] at distinct
    exact distinct.1 (named ▸ List.mem_map_of_mem hc)
  · intro others
    cases found : (before ++ id :: after).find? (·.autoIncrement) with
    | none => rfl
    | some c =>
      have listed := List.mem_of_find?_eq_some found
      have marked := List.find?_some found
      rw [List.mem_append, List.mem_cons, or_left_comm, ← List.mem_append] at listed
      rcases listed with rfl | listed
      · simp [Option.filter]
      · rw [others c listed] at marked
        cases marked

theorem withPrimaryKey_promoted {columns : List Column}
    (first : ∀ c ∈ before, c.isNamedId = false) (named : id.isNamedId = true)
    (distinct : ((before ++ id :: after).map (·.name)).Nodup)
    (one : ((before ++ id :: after).filter (·.autoIncrement)).length ≤ 1) :
    withPrimaryKey (before ++ id :: after) = .ok columns ↔
      id.type = .integer ∧ (∀ c ∈ before ++ after, c.autoIncrement = false) ∧
        before ++ { id.asPrimaryKey with autoIncrement := true } :: after = columns := by
  have found : (before ++ id :: after).find? (·.isNamedId) = some id :=
    List.find?_eq_some_iff_append.mpr ⟨named, before, after, rfl, by simpa using first⟩
  have place : (before ++ id :: after).findIdx? (·.isNamedId) = some before.length := by
    rw [List.findIdx?_append, List.findIdx?_eq_none_iff.mpr first, List.findIdx?_cons, named]
    simp
  rw [← filter_find?_autoIncrement_eq_none distinct one, withPrimaryKey, found, place]
  by_cases integer : id.type = .integer
  · dsimp only
    rw [if_neg (not_not_intro integer), List.set_append_right _ _ le_rfl, Nat.sub_self,
      List.set_cons_zero]
    cases (((before ++ id :: after).find? (·.autoIncrement)).map (·.name)).filter
        (· != id.name) with
    | none => simp [integer]
    | some other => simp
  · simp [integer]

end Promotion

theorem withPrimaryKey_implicit {settled columns : List Column}
    (noId : ∀ c ∈ settled, c.isNamedId = false) :
    withPrimaryKey settled = .ok columns ↔
      (∀ c ∈ settled, c.autoIncrement = false) ∧ .implicitId :: settled = columns := by
  have found : settled.find? (·.isNamedId) = none :=
    List.find?_eq_none.mpr fun c hc => by simp [noId c hc]
  rw [withPrimaryKey, List.findIdx?_eq_none_iff.mpr noId, found]
  cases marked : settled.find? (·.autoIncrement) with
  | none =>
    have none : ∀ c ∈ settled, c.autoIncrement = false := by simpa using marked
    simpa using fun _ => none
  | some c =>
    have some := List.find?_some marked
    have listed := List.mem_of_find?_eq_some marked
    simpa using fun none => absurd (none c listed) (by simp [some])

theorem withPrimaryKey_eq_ok {settled columns : List Column}
    (noKey : ∀ c ∈ settled, c.primaryKey = false) (distinct : (settled.map (·.name)).Nodup)
    (one : (settled.filter (·.autoIncrement)).length ≤ 1) :
    withPrimaryKey settled = .ok columns ↔ Keyed settled columns := by
  constructor
  · intro ok
    cases found : settled.find? (·.isNamedId) with
    | none =>
      have noId : ∀ c ∈ settled, c.isNamedId = false := by simpa using found
      obtain ⟨alone, rfl⟩ := (withPrimaryKey_implicit noId).mp ok
      exact .implicit noKey noId alone
    | some id =>
      obtain ⟨named, before, after, rfl, first⟩ := List.find?_eq_some_iff_append.mp found
      have first : ∀ c ∈ before, c.isNamedId = false := by simpa using first
      obtain ⟨integer, alone, rfl⟩ := (withPrimaryKey_promoted first named distinct one).mp ok
      exact .promoted noKey first named integer alone
  · intro keyed
    cases keyed with
    | declared key =>
      obtain ⟨c, hc, key⟩ := key
      rw [noKey c hc] at key
      cases key
    | promoted _ first named integer alone =>
      exact (withPrimaryKey_promoted first named distinct one).mpr ⟨integer, alone, rfl⟩
    | implicit _ noId alone => exact (withPrimaryKey_implicit noId).mpr ⟨alone, rfl⟩

theorem columnFault?_eq_none {columns : List Column} :
    columnFault? columns = none ↔ Faultless columns := by
  refine ⟨faultless_of_columnFault?, fun h => ?_⟩
  have distinct : repeatedName? [] (columns.map (·.name)) = none :=
    repeatedName?_eq_none.mpr ⟨h.names, fun _ _ => List.not_mem_nil⟩
  have integers : (columns.filter (·.autoIncrement)).find? (·.type != .integer) = none := by
    simpa using h.integers
  simp only [columnFault?, distinct, integers]
  rw [if_neg (by simpa using h.nonempty), if_neg (Nat.not_lt.mpr h.keys),
    if_neg (Nat.not_lt.mpr h.autoIncrements)]

theorem settleColumns_eq_ok {given columns : List Column} :
    settleColumns given = .ok columns ↔
      Faultless given ∧ ∃ settled, List.Forall₂ Column.Settles given settled ∧
        Keyed settled columns := by
  rw [← columnFault?_eq_none]
  cases fault : columnFault? given with
  | some f => simp [settleColumns, fault]
  | none =>
    have faultless := columnFault?_eq_none.mp fault
    have settles : Column.Settles = fun c d => c.settleDefault = .ok d :=
      funext fun c => funext fun d => propext Column.settleDefault_eq_ok.symm
    simp only [settleColumns, fault, Success.bind_eq_ok, Success.mapM_eq_ok, true_and, settles]
    refine exists_congr fun settled => and_congr_right fun each => ?_
    by_cases key : settled.any (·.primaryKey) = true
    · rw [if_pos key, Success.pure_eq_ok, keyed_iff_of_declared (by simpa using key)]
    · rw [if_neg key]
      refine withPrimaryKey_eq_ok (by simpa using key) ?_ ?_
      · rw [map_settled (fun _ _ => rfl) each]
        exact faultless.names
      · rw [length_filter_settled (fun _ _ => rfl) each]
        exact faultless.autoIncrements

theorem Faultless.settled {given columns : List Column} (ok : settleColumns given = .ok columns) :
    Faultless columns := by
  obtain ⟨key, keys⟩ := settleColumns_key ok
  refine ⟨?_, settleColumns_names ok, by rw [keys]; rfl, settleColumns_autoIncrements ok, fun c hc =>
    (settleColumns_wellTyped ok c hc).generated⟩
  rintro rfl
  cases keys

theorem Keyed.dates {settled columns : List Column} (h : Keyed settled columns)
    (noDates : ∀ c ∈ settled, c.type = .date → c.default? = none) :
    ∀ c ∈ columns, c.type = .date → c.default? = none := by
  cases h with
  | declared => exact noDates
  | promoted noKey first named integer alone =>
    simp only [List.forall_mem_append, List.forall_mem_cons] at noDates ⊢
    exact noDates
  | implicit => exact List.forall_mem_cons.mpr ⟨fun _ => rfl, noDates⟩

/-- A list of columns is taken just if it is without a fault, every default is a value that its
column can hold and a primary key is there or can be provided. The columns then stand as they were
given, in their order, with nothing but the defaults coerced, if one of them is declared as the
key. Else the first one that is named `id` in any spelling is also the key and generates numbers,
or one such column stands in front. Without a date among the defaults the outcome is taken again
and stays as it is. -/
theorem settleColumns_outcome (given columns : List Column) :
    (settleColumns given = .ok columns ↔
      Faultless given ∧ ∃ settled, List.Forall₂ Column.Settles given settled ∧
        Keyed settled columns) ∧
    (settleColumns given = .ok columns → (∀ c ∈ given, c.type = .date → c.default? = none) →
      settleColumns columns = .ok columns) := by
  refine ⟨settleColumns_eq_ok, fun ok noDates => ?_⟩
  obtain ⟨-, settled, each, keyed⟩ := settleColumns_eq_ok.mp ok
  have noDates : ∀ c ∈ columns, c.type = .date → c.default? = none := by
    refine keyed.dates fun d hd date => ?_
    obtain ⟨c, hc, settles⟩ := Success.exists_left_of_mem each hd
    exact settles.default_none (noDates c hc (settles.type_eq ▸ date))
  refine settleColumns_eq_ok.mpr ⟨.settled ok, columns, List.forall₂_same.mpr fun c hc => ?_,
    .declared (exists_primaryKey_of_keyed keyed)⟩
  exact Column.settles_self (settleColumns_wellTyped ok c hc) (noDates c hc)

def notedColumns : List Column := [
  { name := "note", type := .text, default? := some (.integer 7) },
  { name := "Id", type := .integer }]

def notedTable : List Column := [
  { name := "note", type := .text, default? := some (.text "7") },
  { name := "Id", type := .integer, primaryKey := true, unique := true, notNull := true,
    autoIncrement := true }]

theorem settleColumns_outcome_noted :
    settleColumns notedColumns = .ok notedTable ∧ settleColumns notedTable = .ok notedTable := by
  have ok : settleColumns notedColumns = .ok notedTable := by cbv
  exact ⟨ok, (settleColumns_outcome notedColumns notedTable).2 ok (by decide)⟩

end SqlEngine
