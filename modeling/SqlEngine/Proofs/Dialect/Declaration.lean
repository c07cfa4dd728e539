import SqlEngine.Dialect.Grammar
import SqlEngine.Proofs.Dialect.Reader
import SqlEngine.Proofs.Schema.Settlement

/-! What the grammar guarantees about the columns of a CREATE TABLE, wherever their constraints are
written. -/

namespace SqlEngine.Dialect

namespace Grammar

open Reader

theorem constraint?_ensures {c : Column} (h : c.KeyMarked) :
    Ensures (constraint? c) fun next => ∀ d, next = some d → d.KeyMarked := by
  refine .after fun l => ?_
  split
  · refine .after fun _ => .after fun _ => .pure ?_
    rintro d ⟨⟩
    exact c.asPrimaryKey_keyMarked
  · refine .after fun _ => .pure ?_
    rintro d ⟨⟩ key
    exact ⟨rfl, (h key).2⟩
  · refine .after fun _ => .after fun _ => .pure ?_
    rintro d ⟨⟩ key
    exact ⟨(h key).1, rfl⟩
  · refine .after fun _ => .pure ?_
    rintro d ⟨⟩
    exact h
  · refine .after fun _ => .after fun v => .pure ?_
    rintro d ⟨⟩
    exact h
  · split
    · refine .after fun _ => .pure ?_
      rintro d ⟨⟩
      exact h
    · refine .pure ?_
      rintro d ⟨⟩

theorem column_ensures : Ensures column Column.KeyMarked := by
  refine .after fun name => .after fun type => .repeatedly (fun c => constraint?_ensures) ?_
  exact nofun

def TableItem.KeyMarked : TableItem → Prop
  | .column c => c.KeyMarked
  | _ => True

theorem tableItem_ensures : Ensures tableItem TableItem.KeyMarked := by
  refine .after fun l => .after fun next => ?_
  split
  · exact .after fun _ => .after fun _ => .after fun _ => .pure trivial
  · exact .after fun _ => .after fun _ => .pure trivial
  · exact .bind column_ensures fun c hc => .pure hc

theorem changeColumn_keeps {P : Column → Prop} {name : String} {change : Column → Column}
    {columns changed : List Column} (ok : changeColumn name change columns = .ok changed)
    (kept : ∀ c, P c → P (change c)) (h : ∀ c ∈ columns, P c) : ∀ c ∈ changed, P c := by
  simp only [changeColumn] at ok
  split at ok
  · cases ok
    intro c hc
    obtain ⟨i, hi, rfl⟩ := List.getElem_of_mem hc
    rw [List.getElem_modify]
    split
    · exact kept _ (h _ (List.getElem_mem _))
    · exact h _ (List.getElem_mem _)
  · cases ok

theorem columnsOf_keeps {P : Column → Prop} {items : List TableItem} {columns : List Column}
    (ok : columnsOf items = .ok columns) (primaryKey : ∀ c, P c → P c.asPrimaryKey)
    (unique : ∀ c, P c → P { c with unique := true }) (h : ∀ c, .column c ∈ items → P c) :
    ∀ c ∈ columns, P c := by
  refine Success.foldlM_keeps (P := fun columns => ∀ c ∈ columns, P c) ?_ ok ?_
  · intro before item after changed before
    split at changed
    · cases changed
      exact before
    · exact changeColumn_keeps changed primaryKey before
    · exact changeColumn_keeps changed unique before
  · intro c hc
    obtain ⟨item, hitem, found⟩ := List.mem_filterMap.mp hc
    split at found
    · cases found
      exact h _ hitem
    · cases found

theorem createTable_ensures : Ensures createTable fun c => ∀ d ∈ c.columns, d.KeyMarked := by
  refine .after fun _ => .after fun ifNotExists => .after fun table => .after fun _ => ?_
  refine .bind (.commaSeparated tableItem_ensures) fun items hitems => ?_
  refine .bind (.ofExcept fun columns ok => columnsOf_keeps ok (fun c _ => c.asPrimaryKey_keyMarked)
    (fun c marked key => ⟨rfl, (marked key).2⟩) fun c => hitems _) fun columns h => ?_
  exact .after fun _ => .pure h

def StatementKeyMarked (s : Statement) : Prop :=
  ∀ c, s = .createTable c → ∀ d ∈ c.columns, d.KeyMarked

theorem create_ensures : Ensures create StatementKeyMarked := by
  refine .after fun _ => .after fun l => ?_
  split
  · refine .bind createTable_ensures fun c h => .pure ?_
    rintro d ⟨⟩
    exact h
  · exact .after fun i => .pure nofun
  · exact .after fun _ => .after fun i => .pure nofun
  · exact .fail _

theorem body_ensures : Ensures body StatementKeyMarked := by
  refine .after fun l => ?_
  split
  · exact .after fun s => .pure nofun
  · exact .after fun s => .pure nofun
  · exact .after fun s => .pure nofun
  · exact .after fun s => .pure nofun
  · exact create_ensures
  · exact .after fun s => .pure nofun
  · refine .after fun _ => .after fun tables => ?_
    split
    · exact .pure nofun
    · exact .fail _
  · exact .after fun _ => .after fun s => .pure nofun
  · exact .after fun _ => .after fun s => .pure nofun
  · exact .fail _

theorem statement_ensures : Ensures statement StatementKeyMarked := by
  refine .bind body_ensures fun s h => .after fun _ => .after fun l => ?_
  split
  · exact .pure h
  · exact .fail _

end Grammar

/-- In what a text spells, a primary key is unique and never null. -/
theorem Statement.keyMarked_ofText {sql : String} {c : CreateTable}
    (spelled : Statement.ofText sql = .ok (.createTable c)) : ∀ d ∈ c.columns, d.KeyMarked := by
  unfold Statement.ofText at spelled
  split at spelled
  · next ts _ =>
    obtain ⟨⟨s, rest⟩, read, same⟩ := Success.map_eq_ok.mp spelled
    exact Grammar.statement_ensures ts s rest read c same
  · cases spelled

end SqlEngine.Dialect
