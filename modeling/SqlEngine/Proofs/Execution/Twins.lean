import SqlEngine.Proofs.Execution.Alike
import SqlEngine.Proofs.Execution.Effect
import SqlEngine.Proofs.Execution.Change
import SqlEngine.Proofs.Index.Relabel

/-! One statement over two stores that agree in the tables which it names. The stores may number
these tables and their rows differently and may differ in all other tables; the statement settles on
plans of the same output, and its writes leave the tables in agreement. -/

namespace SqlEngine

open Dialect Execution Script Store

/-- A table of one store and a table of another, which agree in all but the numbers. -/
structure Store.Twins (s s' : Store) (t u : Table) : Prop where
  left : t ∈ s.tables
  right : u ∈ s'.tables
  alike : t.Alike u
  data : (s.rowsOf t.id).map (·.data) = (s'.rowsOf u.id).map (·.data)

def Store.Agree (s s' : Store) (name : String) : Prop :=
  ∃ t u, s.Twins s' t u ∧ t.name = name

variable {s s' : Store} {t u : Table}

theorem Store.Agree.named {name : String} (h : s.Agree s' name) (hs : s.Numbered)
    (hs' : s'.Numbered) : Alike (s.Twins s') (s.named name) (s'.named name) := by
  obtain ⟨t, u, twins, rfl⟩ := h
  rw [hs.named twins.left, twins.alike.name, hs'.named twins.right]
  exact .ok twins

namespace Store.Twins

variable (h : s.Twins s' t u)
include h

theorem length : (s.rowsOf t.id).length = (s'.rowsOf u.id).length := by
  simpa using congrArg List.length h.data

theorem inserted (rows : List Row) :
    (s.afterCalls (rows.map (.insertRow t.id))).Twins
      (s'.afterCalls (rows.map (.insertRow u.id))) t u := by
  rw [(insertRows (hasTable_of_mem h.left) rows).2, (insertRows (hasTable_of_mem h.right) rows).2]
  refine ⟨h.left, h.right, h.alike, ?_⟩
  rw [rowsOf_insertRows, rowsOf_insertRows, if_pos rfl, if_pos rfl]
  simp [h.data]

theorem reindexed (indexes : List IndexDefinition) :
    (s.afterCalls [.setIndexes t.id indexes]).Twins (s'.afterCalls [.setIndexes u.id indexes])
      { t with indexes } { u with indexes } := by
  rw [afterCalls_cons, afterCalls_cons,
    afterCall_of_answer (answer_setIndexes (hasTable_of_mem h.left)),
    afterCall_of_answer (answer_setIndexes (hasTable_of_mem h.right))]
  refine ⟨?_, ?_, ⟨h.alike.name, h.alike.columns, rfl⟩, h.data⟩
  · exact List.mem_map.mpr ⟨t, h.left, if_pos rfl⟩
  · exact List.mem_map.mpr ⟨u, h.right, if_pos rfl⟩

end Store.Twins

namespace Execution

theorem afterCalls_updateRows (hs : s.Numbered) {changes : List (Column × Value)} {scope : Scope}
    {condition : Option Condition} {staged : List (Nat × Row)}
    (ok : updatedRows t changes (partitionRows scope condition (s.rowsOf t.id)).1
      (partitionRows scope condition (s.rowsOf t.id)).2 = .ok staged) :
    s.afterCalls (staged.map fun e => .updateRow e.1 e.2) =
      { s with rows := s.rows.map (putStaged staged) } := by
  obtain ⟨distinct, there⟩ := staged_there hs ok
  refine (updateRows distinct fun e he => ?_).2
  obtain ⟨r, hr, found⟩ := there e he
  exact ⟨r, (mem_rowsOf.mp hr).1, found⟩

theorem afterCalls_deleteRows (hs : s.Numbered) {scope : Scope} {condition : Option Condition} :
    s.afterCalls ((partitionRows scope condition (s.rowsOf t.id)).1.map fun r =>
      .deleteRow r.id) =
      { s with rows := s.rows.filter fun r =>
        !((partitionRows scope condition (s.rowsOf t.id)).1.map (·.id)).contains r.id } :=
  (deleteRows (meant_ids (hs.rowsOf_ids t.id)) fun _ hr => (mem_rowsOf.mp (mem_meant hr)).1).2

theorem map_data_meant (scope : Scope) (condition : Option Condition) (rows : List StoredRow) :
    (partitionRows scope condition rows).1.map (·.data) =
      (rows.map (·.data)).filter (satisfies scope condition) := by
  rw [partitionRows_fst, List.filter_map]
  rfl

theorem map_data_others (scope : Scope) (condition : Option Condition) (rows : List StoredRow) :
    (partitionRows scope condition rows).2.map (·.data) =
      (rows.map (·.data)).filter fun data => !satisfies scope condition data := by
  rw [partitionRows_snd, List.filter_map]
  rfl

theorem map_data_updated {t : Table} {changes : List (Column × Value)} {scope : Scope}
    {condition : Option Condition} {rows : List StoredRow} {staged : List (Nat × Row)}
    (distinct : (rows.map (·.id)).Nodup)
    (ok : updatedRows t changes (partitionRows scope condition rows).1
      (partitionRows scope condition rows).2 = .ok staged) :
    ∃ entries,
      staged.map (·.2) =
        ((rows.map (·.data)).filter (satisfies scope condition)).map (·.putAll entries) ∧
      (rows.map (putStaged staged)).map (·.data) = (rows.map (·.data)).map fun data =>
        if satisfies scope condition data then data.putAll entries else data := by
  obtain ⟨⟨entries, -, rfl⟩, -⟩ := updatedRows_ok ok
  refine ⟨entries, ?_, ?_⟩
  · rw [← map_data_meant]
    simp
  · rw [partitionRows_fst, map_putStaged_filter distinct _ fun r => r.data.putAll entries,
      List.map_map, List.map_map]
    refine List.map_congr_left fun r _ => ?_
    simp only [Function.comp]
    split <;> rfl

theorem map_data_deleted (scope : Scope) (condition : Option Condition) {rows : List StoredRow}
    (distinct : (rows.map (·.id)).Nodup) :
    (rows.filter fun r =>
      !((partitionRows scope condition rows).1.map (·.id)).contains r.id).map (·.data) =
      (rows.map (·.data)).filter fun data => !satisfies scope condition data := by
  rw [partitionRows_fst, filter_not_doomed distinct, List.filter_map]
  rfl

end Execution

namespace Store.Twins

variable (h : s.Twins s' t u) (hs : s.Numbered) (hs' : s'.Numbered) {scope : Scope}
  {condition : Option Condition}
include h hs hs'

theorem updated {changes : List (Column × Value)} {staged staged' : List (Nat × Row)}
    (ok : updatedRows t changes (partitionRows scope condition (s.rowsOf t.id)).1
      (partitionRows scope condition (s.rowsOf t.id)).2 = .ok staged)
    (ok' : updatedRows u changes (partitionRows scope condition (s'.rowsOf u.id)).1
      (partitionRows scope condition (s'.rowsOf u.id)).2 = .ok staged')
    (same : staged.map (·.2) = staged'.map (·.2)) :
    (s.afterCalls (staged.map fun e => .updateRow e.1 e.2)).Twins
      (s'.afterCalls (staged'.map fun e => .updateRow e.1 e.2)) t u := by
  rw [afterCalls_updateRows hs ok, afterCalls_updateRows hs' ok']
  refine ⟨h.left, h.right, h.alike, ?_⟩
  obtain ⟨entries, made, after⟩ := map_data_updated (hs.rowsOf_ids t.id) ok
  obtain ⟨entries', made', after'⟩ := map_data_updated (hs'.rowsOf_ids u.id) ok'
  rw [rowsOf_updateRows, rowsOf_updateRows, after, after', ← h.data]
  rw [made, made', ← h.data, List.map_inj_left] at same
  refine List.map_congr_left fun data listed => ?_
  split
  · next isMeant => exact same data (List.mem_filter.mpr ⟨listed, isMeant⟩)
  · rfl

theorem deleted :
    (s.afterCalls ((partitionRows scope condition (s.rowsOf t.id)).1.map fun r =>
      .deleteRow r.id)).Twins
      (s'.afterCalls ((partitionRows scope condition (s'.rowsOf u.id)).1.map fun r =>
        .deleteRow r.id)) t u := by
  rw [afterCalls_deleteRows hs, afterCalls_deleteRows hs']
  refine ⟨h.left, h.right, h.alike, ?_⟩
  rw [rowsOf_filter, rowsOf_filter, map_data_deleted _ _ (hs.rowsOf_ids t.id),
    map_data_deleted _ _ (hs'.rowsOf_ids u.id), h.data]

end Store.Twins

end SqlEngine
