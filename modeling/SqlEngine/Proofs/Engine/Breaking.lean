import SqlEngine.Proofs.Engine.Distinct
import SqlEngine.Proofs.Engine.Lookup
import SqlEngine.Proofs.Order
import SqlEngine.Proofs.Relation.Join

/-! The only statements that break off are queries that sort many groups by values without an order.
Rows, stored or merged, have values of one type under each key, and these are always ordered. -/

namespace SqlEngine

open Dialect Execution Script Store

theorem Value.totallyOrdered_of_oneType {vs : List Value}
    (oneType : ∀ v ∈ vs, ∀ w ∈ vs, OneType v w) : TotallyOrdered vs := by
  refine totallyOrdered_iff.mpr fun m n hm hn hx same => ?_
  -- A word and a number that is none are of no common type.
  obtain ⟨type, word, other⟩ := oneType _ hm _ hx
  cases type <;> simp [ColumnType.admits] at word other

def KeysTyped (rows : List Row) : Prop :=
  ∀ key, ∃ type : ColumnType, ∀ row ∈ rows, type.admits (row.get key) = true

theorem Row.get_nulls (names : List String) (name : String) : (nulls names).get name = .null := by
  rw [get, get?_nulls]
  split <;> rfl

theorem KeysTyped.of_fits {types : List (String × ColumnType)} {rows : List Row}
    (fits : ∀ row ∈ rows, row.Fits types) : KeysTyped rows := by
  intro key
  by_cases listed : key ∈ types.map (·.1)
  · obtain ⟨column, hcolumn, rfl⟩ := List.mem_map.mp listed
    exact ⟨column.2, fun row hrow => (fits row hrow).admits column hcolumn⟩
  · refine ⟨.integer, fun row hrow => ?_⟩
    rw [Row.get, (fits row hrow).keys.get?_eq_none.mpr listed]
    rfl

theorem KeysTyped.of_mergeRows (binding : String) (columns : List String)
    {lefts rights merged : List Row} (left : KeysTyped lefts) (right : KeysTyped rights)
    (each : ∀ row ∈ merged, ∃ l r, row = mergeRows binding l r ∧
      (l ∈ lefts ∨ ∀ key, l.get key = .null) ∧ (r ∈ rights ∨ ∀ key, r.get key = .null) ∧
      r.names.Nodup ∧ r.HasKeys columns) : KeysTyped merged := by
  intro key
  -- The right row writes the keys of its own table, and all others stay as the left row has them.
  by_cases bound : key ∈ columns.map (boundName binding)
  · obtain ⟨column, listed, rfl⟩ := List.mem_map.mp bound
    obtain ⟨type, admits⟩ := right column
    refine ⟨type, fun row hrow => ?_⟩
    obtain ⟨l, r, rfl, -, origin, distinct, keys⟩ := each row hrow
    rw [Row.get, get?_mergeRows_of_mem distinct ((keys column).mpr listed), Option.getD_some]
    rcases origin with stored | none
    · exact admits r stored
    · rw [none]
      exact type.admits_null
  · obtain ⟨type, admits⟩ := left key
    refine ⟨type, fun row hrow => ?_⟩
    obtain ⟨l, r, rfl, origin, -, -, keys⟩ := each row hrow
    have unlisted : key ∉ r.names.map (boundName binding) := fun mem => bound (by
      obtain ⟨column, named, rfl⟩ := List.mem_map.mp mem
      exact List.mem_map_of_mem ((keys column).mp named))
    rw [Row.get, get?_mergeRows_of_not_mem unlisted]
    rcases origin with before | none
    · exact admits l before
    · rw [← Row.get, none]
      exact type.admits_null

theorem KeysTyped.oneType_value {rows : List Row} (typed : KeysTyped rows)
    {available : List String} (keys : ∀ row ∈ rows, row.HasKeys available) (scope : Scope)
    (name : String) {a b : Row} (ha : a ∈ rows) (hb : b ∈ rows) :
    OneType (scope.value a name) (scope.value b name) := by
  rcases scope.value_shared name (keys a ha) (keys b hb) with ⟨none, none'⟩ | ⟨key, here, there⟩
  · rw [none, none']
    exact oneType_null
  · rw [here, there]
    obtain ⟨type, admits⟩ := typed key
    exact ⟨type, admits a ha, admits b hb⟩

namespace Store

theorem keysTyped_joinedAfter {s : Store} {q : Query} (base : KeysTyped (s.data q.base))
    {joins : List (Join × Table)}
    (each : ∀ entry ∈ joins, KeysTyped (s.data entry.2) ∧
      ∀ row ∈ s.data entry.2, row.names.Nodup ∧ row.HasKeys entry.2.columnNames) :
    KeysTyped (s.joinedAfter q joins) := by
  induction joins using List.reverseRecOn with
  | nil => exact base
  | append_singleton before entry ih =>
    obtain ⟨j, t⟩ := entry
    simp only [List.forall_mem_append, List.forall_mem_singleton] at each
    obtain ⟨others, typed, keys⟩ := each
    rw [joinedAfter_concat]
    refine .of_mergeRows j.table.binding t.columnNames (ih others) typed fun row hrow => ?_
    obtain ⟨left, right, rfl, isLeft, isRight⟩ := JoinPlan.exists_of_mem_rows hrow
    refine ⟨left, right, rfl, isLeft.imp_right ?_, ?_⟩
    · rintro rfl
      exact Row.get_nulls _
    · rcases isRight with stored | rfl
      · exact ⟨.inl stored, keys right stored⟩
      · exact ⟨.inr (Row.get_nulls _), Row.nodup_nulls _, Row.hasKeys_nulls _⟩

end Store

namespace Query

variable {q : Query} {rows : List Row}

/-- A query without groups sorts rows with values of one type under each key. -/
theorem finish_ne_broken (plain : q.isGrouped = false) (typed : KeysTyped rows)
    {available : List String} (keys : ∀ row ∈ rows, row.HasKeys available) :
    q.finish rows ≠ .error .broken := by
  intro broken
  have total : ∀ key ∈ q.plainSortNames, Value.TotallyOrdered
      ((rows.filter (satisfies q.scope q.select.condition)).map (q.scope.value · key.1)) := by
    intro key _
    refine Value.totallyOrdered_of_oneType ?_
    simp only [List.forall_mem_map]
    exact fun a ha b hb => typed.oneType_value keys q.scope key.1 (List.mem_of_mem_filter ha)
      (List.mem_of_mem_filter hb)
  obtain ⟨sorted, answered, -⟩ := sortBy_sorted total
  rw [finish_of_plain plain, plainRows_eq, answered] at broken
  cases broken

end Query

namespace Engine

variable {e : Engine}

theorem Reachable.keysTyped (h : Reachable e) {t : Table} (ht : t ∈ e.store.tables) :
    KeysTyped (e.store.data t) :=
  .of_fits (h.fits ht)

/-- The text is a query that sorts groups, more than twenty, by values without an order. -/
def Disordered (e : Engine) (sql : String) : Prop :=
  ∃ q : Query, Statement.ofText sql = .ok (.select q.select) ∧ q.Accepted e.store ∧
    q.Disordered (e.store.joined q)

theorem Reachable.disordered_of_broken (h : Reachable e) {outage : Outage} {now : Nat}
    {caller sql : String} (broken : (e.execute outage now caller sql).result = .broken) :
    e.Disordered sql := by
  have ended := executed e outage now caller sql h.numbered
  rw [broken] at ended
  cases ended with
  | turnedAway result => cases result
  | done _ _ result => cases result
  | @failed st halt spelled ran result =>
    obtain rfl : halt = .broken := by
      cases halt with
      | failed failure => cases result
      | broken => rfl
    generalize (e.execute outage now caller sql).engine.store = after at ran
    cases ran with
    | refused why =>
      obtain ⟨stmt, rfl, stopped⟩ := select_of_broken e.bounds why
      cases passed : e.bounds.deadline.passed with
      | true =>
        rw [plan_of_passed passed, eval_fail] at why
        cases why
      | false =>
        obtain ⟨q, rfl, accepted, finished⟩ := accepted_of_broken passed h.numbered stopped
        refine ⟨q, spelled, accepted, ?_⟩
        have keys := (h.names_found accepted).2.1 q.joined [] (List.append_nil _).symm
        cases grouped : q.isGrouped with
        | true => exact q.disordered_of_broken grouped finished
        | false =>
          refine absurd finished (Query.finish_ne_broken grouped ?_ keys)
          refine keysTyped_joinedAfter (h.keysTyped accepted.base) fun entry hentry => ?_
          have there := (accepted.joined entry hentry).1
          refine ⟨h.keysTyped there, fun row hrow => ⟨?_, h.hasKeys there row hrow⟩⟩
          rw [h.data_names there row hrow]
          exact (h.declared there).names

end Engine
end SqlEngine
