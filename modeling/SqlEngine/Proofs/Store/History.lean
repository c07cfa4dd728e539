import Mathlib.Data.List.Induction
import SqlEngine.Proofs.Store.Numbering

/-! The calls that a store has had and its answers to them. The tables and rows that are there can
be told from these answers alone: each was made by one of them, and what the later ones say of it
was done to it in turn. -/

namespace SqlEngine.Store

structure Reply where
  call : StoreCall
  result : Except StoreFault call.Answer

def reply (s : Store) (c : StoreCall) : Reply := ⟨c, (s.answer c).map (·.1)⟩

def replies : Store → List StoreCall → List Reply
  | _, [] => []
  | s, c :: rest => s.reply c :: (s.afterCall c).replies rest

theorem replies_append (s : Store) (first second : List StoreCall) :
    s.replies (first ++ second) = s.replies first ++ (s.afterCalls first).replies second := by
  induction first generalizing s with
  | nil => rfl
  | cons c rest ih => simp only [List.cons_append, replies, ih, afterCalls_cons]

theorem replies_concat (s : Store) (calls : List StoreCall) (c : StoreCall) :
    s.replies (calls ++ [c]) = s.replies calls ++ [(s.afterCalls calls).reply c] := by
  rw [replies_append]
  rfl

/-- An answer, with the store before it and after it. -/
inductive Answered (s : Store) : Reply → Store → Prop where
  | refused (c : StoreCall) (e : StoreFault) : Answered s ⟨c, .error e⟩ s
  | found (name : String) : Answered s ⟨.tableNamed name, .ok (s.tableNamed? name)⟩ s
  | listed : Answered s ⟨.tableNames, .ok s.tableNames⟩ s
  | counted : Answered s ⟨.tableCount, .ok s.tableCount⟩ s
  | selected {table : Nat} (there : s.hasTable table = true) :
      Answered s ⟨.selectRows table, .ok (s.rowsOf table)⟩ s
  | created {name : String} (columns : List Column) (indexes : List IndexDefinition)
      (absent : s.tableNamed? name = none) :
      Answered s ⟨.createTable name columns indexes, .ok s.nextTable⟩ { s with
        tables := s.tables ++ [⟨s.nextTable, name, columns, indexes⟩]
        nextTable := s.nextTable + 1 }
  | dropped {table : Nat} (there : s.hasTable table = true) :
      Answered s ⟨.dropTable table, .ok ()⟩ { s with
        tables := s.tables.filter (·.id != table)
        rows := s.rows.filter (·.table != table) }
  | inserted {table : Nat} (data : Row) (there : s.hasTable table = true) :
      Answered s ⟨.insertRow table data, .ok s.nextRow⟩ { s with
        rows := s.rows ++ [⟨s.nextRow, table, data⟩]
        nextRow := s.nextRow + 1 }
  | updated {row : Nat} (data : Row) (there : s.rows.any (·.id == row) = true) :
      Answered s ⟨.updateRow row data, .ok ()⟩ { s with
        rows := s.rows.map fun r => if r.id = row then { r with data } else r }
  | deleted {row : Nat} (there : s.rows.any (·.id == row) = true) :
      Answered s ⟨.deleteRow row, .ok ()⟩ { s with rows := s.rows.filter (·.id != row) }
  | reindexed {table : Nat} (indexes : List IndexDefinition) (there : s.hasTable table = true) :
      Answered s ⟨.setIndexes table indexes, .ok ()⟩ { s with
        tables := s.tables.map fun t => if t.id = table then { t with indexes } else t }

theorem answered (s : Store) (c : StoreCall) : Answered s (s.reply c) (s.afterCall c) := by
  unfold reply afterCall
  cases result : s.answer c with
  | error e => exact .refused c e
  | ok answer =>
    obtain ⟨a, t⟩ := answer
    show Answered s ⟨c, .ok a⟩ t
    cases c with
    | tableNamed name => cases result; exact .found name
    | tableNames => cases result; exact .listed
    | tableCount => cases result; exact .counted
    | createTable name columns indexes =>
      simp only [answer, createTable] at result
      split at result
      · cases result
      · next absent =>
        cases result
        exact .created columns indexes (by simpa using absent)
    | dropTable table =>
      simp only [answer, dropTable] at result
      split at result <;> cases result
      exact .dropped ‹_›
    | insertRow table data =>
      simp only [answer, insertRow] at result
      split at result <;> cases result
      exact .inserted data ‹_›
    | selectRows table =>
      simp only [answer, selectRows] at result
      split at result <;> cases result
      exact .selected ‹_›
    | updateRow row data =>
      simp only [answer, updateRow] at result
      split at result <;> cases result
      exact .updated data ‹_›
    | deleteRow row =>
      simp only [answer, deleteRow] at result
      split at result <;> cases result
      exact .deleted ‹_›
    | setIndexes table indexes =>
      simp only [answer, setIndexes] at result
      split at result <;> cases result
      exact .reindexed indexes ‹_›

section

variable {α : Type} (born : Reply → Option α) (fate : Reply → α → Option α)

/-- What the answers of a history have made, in their order, each as the later answers have left
it. -/
def survivors : List Reply → List α
  | [] => []
  | r :: rest =>
    ((born r).bind fun a => rest.foldlM (fun a later => fate later a) a).toList ++ survivors rest

theorem survivors_concat (h : List Reply) (last : Reply) :
    survivors born fate (h ++ [last]) =
      (survivors born fate h).filterMap (fate last) ++ (born last).toList := by
  induction h with
  | nil => cases made : born last <;> simp [survivors, made]
  | cons r rest ih =>
    simp only [List.cons_append, survivors, ih, List.filterMap_append, List.append_assoc]
    congr 1
    cases born r with
    | none => rfl
    | some a =>
      simp only [Option.bind_some, List.foldlM_append, List.foldlM_cons, List.foldlM_nil]
      cases rest.foldlM (fun a later => fate later a) a with
      | none => rfl
      | some b => cases made : fate last b <;> simp [made]

theorem survivors_keys {β : Type} (key : α → β)
    (kept : ∀ r a b, fate r a = some b → key b = key a) (h : List Reply) :
    ((survivors born fate h).map key).Sublist ((h.filterMap born).map key) := by
  have along : ∀ (later : List Reply) (a b : α),
      later.foldlM (fun a r => fate r a) a = some b → key b = key a := by
    intro later
    induction later with
    | nil => rintro a b ⟨⟩; rfl
    | cons r rest ih =>
      intro a b led
      rw [List.foldlM_cons] at led
      obtain ⟨c, first, rest⟩ := Option.bind_eq_some_iff.mp led
      exact (ih c b rest).trans (kept r a c first)
  induction h with
  | nil => exact .slnil
  | cons r rest ih =>
    simp only [survivors, List.map_append, List.filterMap_cons]
    cases born r with
    | none => exact ih
    | some a =>
      cases led : rest.foldlM (fun a later => fate later a) a with
      | none => simpa [led] using ih.cons _
      | some b => simpa [led, along rest a b led] using ih

end

namespace Reply

def createdTable : Reply → Option Table
  | ⟨.createTable name columns indexes, .ok id⟩ => some ⟨id, name, columns, indexes⟩
  | _ => none

def tableFate : Reply → Table → Option Table
  | ⟨.dropTable id, .ok _⟩ => Option.guard fun t => t.id != id
  | ⟨.setIndexes id indexes, .ok _⟩ => fun t => some (if t.id = id then { t with indexes } else t)
  | _ => some

def insertedRow : Reply → Option StoredRow
  | ⟨.insertRow table data, .ok id⟩ => some ⟨id, table, data⟩
  | _ => none

/-- New data replace those of their row, and a row goes when it is deleted or its table is
dropped. -/
def rowFate : Reply → StoredRow → Option StoredRow
  | ⟨.updateRow id data, .ok _⟩ => fun r => some (if r.id = id then { r with data } else r)
  | ⟨.deleteRow id, .ok _⟩ => Option.guard fun r => r.id != id
  | ⟨.dropTable id, .ok _⟩ => Option.guard fun r => r.table != id
  | _ => some

theorem of_refused (c : StoreCall) (e : StoreFault) :
    createdTable ⟨c, .error e⟩ = none ∧ tableFate ⟨c, .error e⟩ = some ∧
      insertedRow ⟨c, .error e⟩ = none ∧ rowFate ⟨c, .error e⟩ = some := by
  cases c <;> exact ⟨rfl, rfl, rfl, rfl⟩

end Reply

namespace Answered

variable {s t : Store} {r : Reply}

theorem tables_eq (h : Answered s r t) :
    t.tables = s.tables.filterMap r.tableFate ++ r.createdTable.toList := by
  cases h with
  | refused c e => simp [Reply.of_refused c e]
  | _ => simp [Reply.tableFate, Reply.createdTable, List.filterMap_eq_map']

theorem rows_eq (h : Answered s r t) :
    t.rows = s.rows.filterMap r.rowFate ++ r.insertedRow.toList := by
  cases h with
  | refused c e => simp [Reply.of_refused c e]
  | _ => simp [Reply.rowFate, Reply.insertedRow, List.filterMap_eq_map']

theorem nextTable_eq (h : Answered s r t) :
    t.nextTable = s.nextTable + r.createdTable.toList.length ∧
      ∀ u ∈ r.createdTable, u.id = s.nextTable := by
  cases h with
  | refused c e => simp [Reply.of_refused c e]
  | _ => simp [Reply.createdTable]

theorem nextRow_eq (h : Answered s r t) :
    t.nextRow = s.nextRow + r.insertedRow.toList.length ∧
      ∀ q ∈ r.insertedRow, q.id = s.nextRow := by
  cases h with
  | refused c e => simp [Reply.of_refused c e]
  | _ => simp [Reply.insertedRow]

end Answered

section

variable {α : Type} {born : Reply → Option α} {fate : Reply → α → Option α}

/-- What a part of the store holds after some calls, if each call makes and undoes there what its
answer says. -/
theorem survivors_of_step (part : Store → List α) (start : part empty = [])
    (step : ∀ s c, part (s.afterCall c) =
      (part s).filterMap (fate (s.reply c)) ++ (born (s.reply c)).toList) (calls : List StoreCall) :
    part (empty.afterCalls calls) = survivors born fate (empty.replies calls) := by
  induction calls using List.reverseRecOn with
  | nil => exact start
  | append_singleton calls c ih =>
    rw [replies_concat, survivors_concat, ← ih, afterCalls_append]
    exact step _ c

theorem numbers_of_step (next : Store → Nat) (number : α → Nat)
    (step : ∀ s c, next (s.afterCall c) = next s + (born (s.reply c)).toList.length ∧
      ∀ a ∈ born (s.reply c), number a = next s) (s : Store) (calls : List StoreCall) :
    ((s.replies calls).filterMap born).map number =
      List.range' (next s) ((s.replies calls).filterMap born).length := by
  induction calls generalizing s with
  | nil => rfl
  | cons c rest ih =>
    obtain ⟨counted, own⟩ := step s c
    have later := ih (s.afterCall c)
    rw [counted] at later
    cases made : born (s.reply c) with
    | none => simpa [replies, made] using later
    | some a =>
      rw [made] at own
      simpa [replies, made, List.range'_succ, own a rfl] using later

end

variable (calls : List StoreCall)

theorem tables_afterCalls : (empty.afterCalls calls).tables =
    survivors Reply.createdTable Reply.tableFate (empty.replies calls) :=
  survivors_of_step Store.tables rfl (fun s c => (answered s c).tables_eq) calls

theorem rows_afterCalls : (empty.afterCalls calls).rows =
    survivors Reply.insertedRow Reply.rowFate (empty.replies calls) :=
  survivors_of_step Store.rows rfl (fun s c => (answered s c).rows_eq) calls

theorem createdTable_ids : ((empty.replies calls).filterMap Reply.createdTable).map (·.id) =
    List.range' 1 ((empty.replies calls).filterMap Reply.createdTable).length :=
  numbers_of_step Store.nextTable _ (fun s c => (answered s c).nextTable_eq) empty calls

theorem insertedRow_ids : ((empty.replies calls).filterMap Reply.insertedRow).map (·.id) =
    List.range' 1 ((empty.replies calls).filterMap Reply.insertedRow).length :=
  numbers_of_step Store.nextRow _ (fun s c => (answered s c).nextRow_eq) empty calls

theorem rows_ascend : ((empty.afterCalls calls).rows.map (·.id)).Pairwise (· < ·) := by
  have kept : ∀ (r : Reply) (q q' : StoredRow), r.rowFate q = some q' → q'.id = q.id := by
    intro r q q' hq
    unfold Reply.rowFate at hq
    split at hq <;> grind
  rw [rows_afterCalls]
  refine (insertedRow_ids calls ▸ List.pairwise_lt_range').sublist ?_
  exact survivors_keys _ _ _ kept _

end SqlEngine.Store
