import SqlEngine.Proofs.Dialect.Definitions

/-! The verdicts of the readers for tables and for whole statements. A table's list is completed by
declaring the columns that its constraints speak of. -/

namespace SqlEngine.Success

variable {ε α β : Type} {f : β → α → Except ε β}

theorem foldlM_succeeds {P : β → Prop} {xs : List α}
    (steps : ∀ a ∈ xs, ∀ b, P b → ∃ b', f b a = .ok b' ∧ P b') {b : β} (start : P b) :
    ∃ b', xs.foldlM f b = .ok b' := by
  induction xs generalizing b with
  | nil => exact ⟨b, rfl⟩
  | cons a rest ih =>
    rw [List.forall_mem_cons] at steps
    obtain ⟨next, stepped, kept⟩ := steps.1 b start
    rw [List.foldlM_cons, stepped]
    exact ih steps.2 kept

theorem foldlM_fails {P : ε → Prop} (steps : ∀ b a e, f b a = .error e → P e) {xs : List α} {b : β}
    {e : ε} (failed : xs.foldlM f b = .error e) : P e := by
  induction xs generalizing b with
  | nil => cases failed
  | cons a rest ih =>
    rw [List.foldlM_cons] at failed
    cases stepped : f b a with
    | error e' =>
      rw [stepped] at failed
      cases failed
      exact steps b a e stepped
    | ok next =>
      rw [stepped] at failed
      exact ih failed

end SqlEngine.Success

namespace SqlEngine.Dialect.Grammar

open Reader

variable {n : Nat} {N : Lexeme → Prop}

def TableItem.constrained? : TableItem → Option String
  | .column _ => none
  | .primaryKey name => some name
  | .unique name => some name

def missing (items : List TableItem) : List Column :=
  (items.filterMap TableItem.constrained?).map fun name => { name, type := .integer }

theorem changeColumn_ok (change : Column → Column) {name : String} {columns : List Column}
    (listed : name ∈ columns.map (·.name)) (kept : ∀ c, (change c).name = c.name) :
    ∃ changed, changeColumn name change columns = .ok changed ∧
      changed.map (·.name) = columns.map (·.name) := by
  obtain ⟨c, declared, same⟩ := List.mem_map.mp listed
  rw [changeColumn]
  cases found : columns.findIdx? (·.name == name) with
  | none =>
    rw [List.findIdx?_eq_none_iff] at found
    exact absurd same (by simpa using found c declared)
  | some i =>
    refine ⟨columns.modify i change, rfl, List.ext_getElem (by simp) fun j _ _ => ?_⟩
    rw [List.getElem_map, List.getElem_map, List.getElem_modify]
    split
    · exact kept _
    · rfl

theorem columnsOf_ok {items : List TableItem} (known : ∀ item ∈ items, ∀ name,
      item.constrained? = some name → ∃ c : Column, .column c ∈ items ∧ c.name = name) :
    ∃ columns, columnsOf items = .ok columns := by
  unfold columnsOf
  refine Success.foldlM_succeeds
    (P := fun columns => ∀ c : Column, .column c ∈ items → c.name ∈ columns.map (·.name)) ?_ ?_
  · intro item listed columns names
    have declared (name : String) (constrained : item.constrained? = some name) :
        name ∈ columns.map (·.name) := by
      obtain ⟨c, declared, rfl⟩ := known item listed name constrained
      exact names c declared
    cases item with
    | column c => exact ⟨columns, rfl, names⟩
    | primaryKey name =>
      obtain ⟨changed, ok, same⟩ :=
        changeColumn_ok Column.asPrimaryKey (declared name rfl) fun _ => rfl
      exact ⟨changed, ok, same ▸ names⟩
    | unique name =>
      obtain ⟨changed, ok, same⟩ :=
        changeColumn_ok (fun c => { c with unique := true }) (declared name rfl) fun _ => rfl
      exact ⟨changed, ok, same ▸ names⟩
  · exact fun c declared => List.mem_map.mpr ⟨c, List.mem_filterMap.mpr ⟨_, declared, rfl⟩, rfl⟩

theorem columnsOf_missing (items : List TableItem) :
    ∃ columns, columnsOf (items ++ (missing items).map .column) = .ok columns := by
  refine columnsOf_ok fun item listed name constrained => ?_
  rcases List.mem_append.mp listed with given | added
  · refine ⟨{ name, type := .integer }, List.mem_append_right _ (List.mem_map_of_mem ?_), rfl⟩
    exact List.mem_map.mpr ⟨name, List.mem_filterMap.mpr ⟨item, given, constrained⟩, rfl⟩
  · obtain ⟨c, -, rfl⟩ := List.mem_map.mp added
    cases constrained

theorem columnsOf_error {items : List TableItem} {failure : Failure}
    (failed : columnsOf items = .error failure) :
    ∀ e found offset, failure ≠ .parse e found offset := by
  refine Success.foldlM_fails (P := fun failure => ∀ e found offset, failure ≠ .parse e found offset)
    ?_ failed
  have changed (name : String) (change : Column → Column) (columns : List Column) (failure : Failure)
      (failed : changeColumn name change columns = .error failure) (e : Expectation) (found : Lexeme)
      (offset : Nat) : failure ≠ .parse e found offset := by
    rw [changeColumn] at failed
    split at failed
    · cases failed
    · cases failed
      simp
  intro columns item failure failed
  cases item with
  | column c => cases failed
  | primaryKey name => exact changed _ _ _ _ failed
  | unique name => exact changed _ _ _ _ failed

section

variable (table : String) (ifNotExists : Bool)

def tableEnd (items : List TableItem) : Reader CreateTable := do
  let columns ← columnsOf items
  expectSign .closeParen
  return ⟨table, ifNotExists, columns⟩

def tableRest (items : List TableItem) : Reader CreateTable :=
  repeatedly (another (.symbol .comma) tableItem fun items item => items ++ [item]) items >>=
    tableEnd table ifNotExists

theorem tableRest_eq (items : List TableItem) (ts : List Token) (ended : Ended (ts.map (·.lexeme))) :
    tableRest table ifNotExists items ts = (do
      if ← acceptSign .comma then tableRest table ifNotExists (items ++ [← tableItem])
      else tableEnd table ifNotExists items) ts := by
  have shortens : Shortens (another (.symbol .comma) tableItem fun items item => items ++ [item]) :=
    another_shortens (by decide) (.of_phrase fun _ => tableItem_phrase trivial)
  rw [tableRest, bind_apply, repeatedly_eq shortens items ts ended, ← bind_apply, acceptSign]
  by_cases here : (current ts).lexeme = .symbol .comma
  · rw [another, bind_assoc, bind_assoc, accept_bind_of_eq here, accept_bind_of_eq here]
    simp only [if_true, bind_assoc, pure_bind]
    rfl
  · rw [another, bind_assoc, bind_assoc, accept_bind_of_ne here, accept_bind_of_ne here]
    rfl

theorem tableEnd_of_ok {items : List TableItem} {columns : List Column}
    (ok : columnsOf items = .ok columns) : tableEnd table ifNotExists items =
      expectSign .closeParen >>= fun _ => Pure.pure ⟨table, ifNotExists, columns⟩ := by
  rw [tableEnd, ok]
  rfl

theorem tableEnd_of_error {items : List TableItem} {failure : Failure}
    (failed : columnsOf items = .error failure) (ts : List Token) :
    tableEnd table ifNotExists items ts = .error failure := by
  rw [tableEnd, failed]
  rfl

theorem tableEnd_judged (items : List TableItem) (ts : List Token)
    (ended : Ended (ts.map (·.lexeme))) : Judged (tableEnd table ifNotExists items) Any ts := by
  cases found : columnsOf items with
  | ok columns =>
    have closing : Phrase ts.length (tableEnd table ifNotExists items) Any Any := by
      rw [tableEnd_of_ok table ifNotExists found]
      exact .andThen (.expect (by decide) trivial) fun _ => .value _
    exact closing.judged ts ended (Nat.le_refl _)
  | error failure =>
    constructor
    · intro a left answered
      cases (tableEnd_of_error table ifNotExists found ts).symm.trans answered
    · intro e l offset failed
      cases (tableEnd_of_error table ifNotExists found ts).symm.trans failed
      exact absurd rfl (columnsOf_error found e l offset)

theorem tableEnd_end (items : List TableItem) (x : CreateTable × List Token) :
    tableEnd table ifNotExists items [⟨.finish, 0, 0⟩] ≠ .ok x := by
  intro answered
  cases found : columnsOf items with
  | ok columns =>
    rw [tableEnd_of_ok table ifNotExists found] at answered
    cases answered
  | error failure => cases (tableEnd_of_error table ifNotExists found _).symm.trans answered

theorem tableRest_end (items : List TableItem) (x : CreateTable × List Token) :
    tableRest table ifNotExists items [⟨.finish, 0, 0⟩] ≠ .ok x := by
  have ended : Ended ([(⟨.finish, 0, 0⟩ : Token)].map (·.lexeme)) := Ended.singleton
  rw [tableRest_eq table ifNotExists items _ ended, acceptSign, accept_bind_of_ne (by decide)]
  exact tableEnd_end table ifNotExists items x

theorem declaration_reads {name : String} {rest : List Lexeme}
    (follow : Starts [.symbol .comma, .symbol .closeParen] rest) :
    Reader.Reads tableItem [.identifier name, .identifier ColumnType.integer.name]
      (.column { name, type := .integer }) rest := by
  have declared : Reader.Reads column [.identifier name, .identifier ColumnType.integer.name]
      { name, type := .integer } rest :=
    .bind_cons .identifier (.bind_cons (columnType_reads (follow.head?_ne (by decide)))
      (.repeatedly_none (constraint?_none _ follow)))
  exact .look rfl (.lookNext rfl (.last declared (.pure _)))

theorem tableRest_sample (items : List TableItem) :
    Sample (tableRest table ifNotExists items) Any Delimits := by
  obtain ⟨columns, found⟩ := columnsOf_missing items
  let declaration (name : String) : List Lexeme :=
    [.symbol .comma, .identifier name, .identifier ColumnType.integer.name]
  let names := items.filterMap TableItem.constrained?
  refine ⟨names.flatMap declaration ++ [.symbol .closeParen], ⟨table, ifNotExists, columns⟩,
    fun rest follows => ?_⟩
  have starts (names : List String) : Starts [.symbol .comma, .symbol .closeParen]
      (names.flatMap declaration ++ .symbol .closeParen :: rest) := by
    cases names with
    | nil => exact ⟨_, by decide, _, rfl⟩
    | cons name names => exact ⟨_, by decide, _, rfl⟩
  have listed : Reader.Reads (repeatedly (another (.symbol .comma) tableItem fun items item =>
      items ++ [item]) items) (names.flatMap declaration)
      (names.foldl (fun items name => items ++ [.column { name, type := .integer }]) items)
      (.symbol .closeParen :: rest) := by
    refine .repeatedly (P := fun _ => True) (fun items => ?_) (fun items name more _ _ => ?_)
      (fun _ _ => trivial) (fun _ _ => by simp [declaration]) items
    · exact .last (.decline_cons (by decide)) (.pure none)
    · exact .bind_cons .accept (.last (declaration_reads (starts more)) (.pure _))
  have added : names.foldl (fun items name => items ++ [.column { name, type := .integer }]) items =
      items ++ (missing items).map .column := by
    rw [missing, List.map_map, ← Reader.Reads.foldl_concat, List.foldl_map]
    rfl
  rw [added] at listed
  constructor
  · refine .bind listed ?_
    rw [tableEnd_of_ok table ifNotExists found]
    exact .bind_cons .expect (.pure _)
  · have ended : Ended (names.flatMap declaration ++ .symbol .closeParen :: rest) :=
      (follows.ended.append [.symbol .closeParen]).append _
    have delimits : ∀ l ∈ [Lexeme.symbol .comma, .symbol .closeParen], Delimits l := by decide
    obtain ⟨l, known, more, same⟩ := starts names
    rw [List.append_assoc, List.singleton_append]
    exact ⟨ended, l, by rw [same]; rfl, delimits l known⟩

theorem tableRest_phrase (items : List TableItem) :
    Phrase n (tableRest table ifNotExists items) Any Delimits := by
  refine ⟨?_, tableRest_sample table ifNotExists items⟩
  induction n generalizing items with
  | zero => exact (Phrase.zero (tableRest_sample table ifNotExists items)).judged
  | succ n ih =>
    have rest (items : List TableItem) :
        Phrase n (tableRest table ifNotExists items) Any Delimits :=
      ⟨ih items, tableRest_sample table ifNotExists items⟩
    refine (Phrase.of_eq (tableRest_eq table ifNotExists items) (.branch (N := Delimits) (by decide)
      ?_ (fun ts ended _ => tableEnd_judged table ifNotExists items ts ended)
      (fun _ => refuses_end trivial (tableEnd_end table ifNotExists items)) ?_)).judged
    · exact .followed (tableItem_phrase trivial) (fun item => rest (items ++ [item]))
        fun item => refuses_end trivial (tableRest_end table ifNotExists _)
    · exact .of_eq (fun ts ended => (tableRest_eq table ifNotExists items ts ended).symm)
        (tableRest_sample table ifNotExists items)

end

theorem ifExists_phrase (negated : Bool) (le : ∀ l, l ≠ .keyword .IF → N l) :
    Phrase n (ifExists negated) (· ≠ .keyword .IF) N := by
  refine .choice (by decide) ?_ (.pure (fun l known => ⟨known, le l known⟩) _)
    fun known => absurd rfl known
  cases negated with
  | false => exact .andThen (.expect (by decide) trivial) fun _ => .value _
  | true =>
    exact .andThen (.expect (by decide) trivial) fun _ =>
      .andThen (.expect (by decide) trivial) fun _ => .value _

def tableBehind (ifNotExists : Bool) : Reader CreateTable := do
  let table ← identifier
  expectSign .openParen
  let first ← tableItem
  tableRest table ifNotExists [first]

theorem createTable_eq : createTable = (do
    expectWord .TABLE
    let ifNotExists ← ifExists true
    tableBehind ifNotExists) := by
  unfold createTable commaSeparated
  simp only [bind_assoc]
  rfl

theorem tableBehind_phrase (ifNotExists : Bool) (known : N (.identifier "x")) :
    Phrase n (tableBehind ifNotExists) Any N := by
  refine .andThen (.identifier known) fun table => .andThen (.expect (by decide) trivial) fun _ => ?_
  exact .followed (tableItem_phrase trivial) (fun first => tableRest_phrase table ifNotExists [first])
    fun first => refuses_end trivial (tableRest_end table ifNotExists [first])

theorem createTable_phrase (known : N (.keyword .TABLE)) : Phrase n createTable Any N := by
  rw [createTable_eq]
  refine .andThen (.expect (by decide) known) fun _ => ?_
  exact .followed (ifExists_phrase true fun _ _ => trivial)
    (fun ifNotExists => tableBehind_phrase ifNotExists (by decide))
    fun ifNotExists => refuses_end trivial fun _ answered => by cases answered

theorem createIndex_phrase (unique : Bool) (known : N (.keyword .INDEX)) :
    Phrase n (createIndex unique) Any N := by
  have name {n : Nat} : Phrase n identifier Closing Any := .within (.identifier trivial)
  have names {n : Nat} : Phrase n (commaSeparated identifier) Closing Any :=
    .commaSeparated (.of_phrase fun _ => name) name (by decide)
  refine .andThen (.expect (by decide) known) fun _ => .andThen (.identifier trivial) fun _ =>
    .andThen (.expect (by decide) trivial) fun _ => .andThen (.identifier trivial) fun _ => ?_
  exact .andThen (inParentheses_phrase names trivial) fun _ => .value _

theorem create_phrase (known : N (.keyword .CREATE)) : Phrase n create Any N := by
  have table {n : Nat} {N : Lexeme → Prop} (known : N (.keyword .TABLE)) :
      Phrase n (createTable >>= fun s => Pure.pure (Statement.createTable s)) Any N :=
    .andThen (createTable_phrase known) fun _ => .value _
  have index {n : Nat} {N : Lexeme → Prop} (unique : Bool) (known : N (.keyword .INDEX)) :
      Phrase n (createIndex unique >>= fun s => Pure.pure (Statement.createIndex s)) Any N :=
    .andThen (createIndex_phrase unique known) fun _ => .value _
  refine .andThen (.expect (by decide) known) fun _ => ?_
  refine .look none (fun l => ?_) (fun _ absurd => by cases absurd) ?_
  · split
    · exact .enters (table (N := Any) trivial).judged
        (refuses_end trivial fun _ answered => by cases answered)
    · exact .enters (index (N := Any) false trivial).judged
        (refuses_end trivial fun _ answered => by cases answered)
    · exact .passes (by simp) (index true trivial)
    · exact .fails (by simp [IsLate])
  · refine .enter (P := (· = .keyword .INDEX)) (fun l isIndex => ?_)
      (index (n := 0) false ⟨rfl, trivial⟩).sample
    rw [isIndex]

theorem dropTable_phrase (known : N (.keyword .DROP)) : Phrase n dropTable Any N := by
  have name {n : Nat} (ifExists : Bool) : Phrase n (identifier >>= fun table =>
      Pure.pure (⟨table, ifExists⟩ : DropTable)) Any (· ≠ .keyword .IF) :=
    .andThen (.identifier (by decide)) fun _ => .value _
  refine .andThen (.expect (by decide) known) fun _ => .andThen (.expect (by decide) trivial)
    fun _ => ?_
  exact .followed (ifExists_phrase false fun _ _ => trivial) (fun ifExists => name ifExists)
    fun ifExists => refuses_end trivial fun _ answered => by cases answered

theorem showTables_phrase (known : N (.keyword .SHOW)) : Phrase n showTables Any N := by
  refine .andThen (.expect (by decide) known) fun _ => ?_
  rw [acceptWord, Phrase.accept_eq_look]
  refine .look none (fun l => ?_) (fun _ absurd => by cases absurd)
    (.look (l := .keyword .TABLES) rfl trivial (.pure (fun _ _ => trivial) _))
  split
  case isTrue here =>
    refine .passes ?_ (.value _)
    rw [here]
    decide
  case isFalse => exact .fails (by simp [IsLate])

theorem body_phrase : Phrase n body Closing Any := by
  have entered {l : Lexeme} {m : Reader Statement} (phrase : Phrase n m Closing Any)
      (never : ∀ x, m [⟨.finish, 0, 0⟩] ≠ .ok x) : Turn n Closing none l m :=
    .enters phrase.judged (refuses_end (by decide) never)
  have described {n : Nat} :
      Phrase n (identifier >>= fun table => Pure.pure (Statement.describe table)) Closing Any :=
    .andThen (.identifier trivial) fun _ => .value _
  refine .look none (fun l => ?_) (fun _ absurd => by cases absurd) ?_
  · split
    · exact entered (.bind (select_phrase trivial) fun _ => .answer _)
        fun _ answered => by cases answered
    · exact entered (.bind (insert_phrase trivial) fun _ => .answer _)
        fun _ answered => by cases answered
    · exact entered (.bind (update_phrase trivial) fun _ => .answer _)
        fun _ answered => by cases answered
    · exact entered (.bind (delete_phrase trivial) fun _ => .answer _)
        fun _ answered => by cases answered
    · exact entered (.within (create_phrase trivial)) fun _ answered => by cases answered
    · exact entered (.andThen (dropTable_phrase trivial) fun _ => .value _)
        fun _ answered => by cases answered
    · exact entered (.within (showTables_phrase trivial)) fun _ answered => by cases answered
    · exact .passes (by simp) described
    · exact .passes (by simp) described
    · exact .fails (by simp [IsLate])
  · have shown : Phrase 0 showTables Any fun l => l = .keyword .SHOW ∧ Any l :=
      showTables_phrase ⟨rfl, trivial⟩
    refine .enter (P := (· = .keyword .SHOW)) (fun l isShow => ?_)
      (shown.sample.mono (fun _ _ => trivial) fun _ known => known)
    rw [isShow]

def statementEnd (s : Statement) : Reader Statement := do
  match ← look with
  | .finish => return s
  | _ => fail .statementEnd

theorem statement_eq : statement = (do
    let s ← body
    let _ ← acceptSign .semicolon
    statementEnd s) := rfl

theorem statementEnd_phrase (s : Statement) (known : N .finish) :
    Phrase n (statementEnd s) (· = .finish) N := by
  refine .optional (b := s) (fun l => ?_) (fun l isEnd => by rw [isEnd]) fun l isEnd => isEnd ▸ known
  split
  · exact .stays rfl (Phrase.value s).judged
  · exact .fails (by simp [IsLate])

theorem statement_phrase : Phrase n statement (· = .finish) Any := by
  rw [statement_eq]
  refine .seq body_phrase (fun s => ?_) fun l isEnd => by rw [isEnd]; decide
  refine .accept (by decide) (statementEnd_phrase s trivial)
    (statementEnd_phrase s ⟨by decide, by decide⟩) fun isEnd => ?_
  cases isEnd

end SqlEngine.Dialect.Grammar
