import SqlEngine.Proofs.Dialect.Query

/-! Statements that are written out read back as themselves. -/

namespace SqlEngine.Dialect

open Reader Grammar

variable {rest heads : List Lexeme}

theorem inParentheses_reads {α : Type} {item : Reader α} {inner : List Word} {a : α}
    (h : Reads item (Word.lexemesOf inner) a (.symbol .closeParen :: rest)) :
    Reads (inParentheses item) (Word.lexemesOf (Word.parentheses inner)) a rest := by
  rw [Word.parentheses, Word.lexemesOf_append, Word.lexemesOf_cons]
  exact .bind_cons .expect (.bind h (.bind_cons .expect (.pure a)))

theorem names_read {names : List String} (nonempty : names ≠ []) :
    Reads (commaSeparated identifier) (Word.lexemesOf (Word.commas (names.map fun n => [.name n])))
      names (.symbol .closeParen :: rest) :=
  commas_read nonempty (.cons _ _) (by decide) fun _ _ _ _ => .identifier

theorem row_reads {row : List Value} (nonempty : row ≠ []) (h : ∀ v ∈ row, HasLiteral v) :
    Reads (inParentheses (commaSeparated literal)) (Word.lexemesOf (rowWords row)) row rest := by
  refine inParentheses_reads (commas_read nonempty (.cons _ _) (by decide) ?_)
  intro v listed after _
  rw [Word.lexemesOf_cons, Word.lexemesOf_nil, List.append_nil]
  exact literal_reads (h v listed)

theorem nameList?_reads {columns : Option (List String)} (h : ∀ names ∈ columns, names ≠ [])
    (apart : rest.head? ≠ some (.symbol .openParen)) :
    Reads nameList? (Word.lexemesOf ((columns.map nameList).getD [])) columns rest := by
  cases columns with
  | none => exact .skip (.decline apart) (.pure none)
  | some names =>
    show Reads nameList? (Word.lexemesOf (nameList names)) _ _
    rw [nameList, Word.parentheses, Word.lexemesOf_append, Word.lexemesOf_cons]
    refine .bind_cons .accept (.bind (names_read (h names rfl)) ?_)
    exact .bind_cons .expect (.pure _)

theorem insert_reads {s : Insert} (h : s.WellFormed) :
    Reads insert (Word.lexemesOf s.words) s [.finish] := by
  simp only [Insert.words, List.cons_append, List.nil_append,
    Word.lexemesOf_cons, Word.lexemesOf_append, Word.lexemes]
  refine .bind_cons .expect (.bind_cons .expect (.bind_cons .identifier ?_))
  refine .bind (nameList?_reads (fun names listed => (h.columns names listed).1) nofun) ?_
  refine .bind_cons .expect (.last ?_ (.pure s))
  exact commas_read h.rows (.cons _ _) (by decide) fun row listed _ _ =>
    row_reads (h.values row listed).1 (h.values row listed).2

theorem assignment_reads {a : String × Value} (h : HasLiteral a.2) :
    Reads assignment (Word.lexemesOf [.name a.1, .sign .equal, .literal a.2]) a rest := by
  simp only [Word.lexemesOf_cons, Word.lexemes, List.cons_append, List.nil_append]
  exact .bind_cons .identifier (.bind_cons .expect (.bind (literal_reads h) (.pure a)))

theorem update_reads {s : Update} (h : s.WellFormed) :
    Reads update (Word.lexemesOf s.words) s [.finish] := by
  have follow := (Starts.cons .finish []).before
    (clause_begins .WHERE (s.condition.map (·.words .disjunction)))
  simp only [Update.words, List.cons_append, List.nil_append,
    Word.lexemesOf_cons, Word.lexemesOf_append, Word.lexemes]
  refine .bind_cons .expect (.bind_cons .identifier (.bind_cons .expect ?_))
  refine .bind (commas_read h.nonempty follow (by decide) fun a listed _ _ =>
    assignment_reads (h.assignments a listed).2) ?_
  exact .last (conditionAfter_reads h.condition (.cons _ _) (by decide) (by decide) (by decide))
    (.pure s)

theorem delete_reads {s : Delete} (h : s.WellFormed) :
    Reads delete (Word.lexemesOf s.words) s [.finish] := by
  simp only [Delete.words, List.cons_append, List.nil_append, Word.lexemesOf_cons, Word.lexemes]
  refine .bind_cons .expect (.bind_cons .expect (.bind_cons .identifier ?_))
  exact .last (conditionAfter_reads h.condition (.cons _ _) (by decide) (by decide) (by decide))
    (.pure s)

theorem ColumnType.named?_name (type : ColumnType) : ColumnType.named? type.name = some type := by
  cases type <;> decide +kernel

theorem columnType_reads {type : ColumnType} (apart : rest.head? ≠ some (.symbol .openParen)) :
    Reads columnType [.identifier type.name] type rest := by
  refine .look rfl ?_
  dsimp only
  rw [ColumnType.named?_name]
  exact .bind_cons .pass (.skip (.decline apart) (.pure type))

theorem columnConstraints_cases {c : Column} {constraint : List Word × (Column → Column)}
    (listed : constraint ∈ columnConstraints c) :
    constraint = ([.keyword .PRIMARY, .keyword .KEY], Column.asPrimaryKey) ∨
    constraint = ([.keyword .UNIQUE], fun made => { made with unique := true }) ∨
    constraint = ([.keyword .NOT, .keyword .NULL], fun made => { made with notNull := true }) ∨
    constraint = ([.keyword .AUTO_INCREMENT], fun made => { made with autoIncrement := true }) ∨
    ∃ v ∈ c.default?, constraint =
      ([.keyword .DEFAULT, .literal v], fun made => { made with default? := some v }) := by
  simp only [columnConstraints, List.mem_append, List.mem_ite_nil_right, List.mem_singleton] at listed
  rcases listed with (((key | unique) | notNull) | automatic) | default
  · exact .inl key.2
  · exact .inr (.inl unique.2)
  · exact .inr (.inr (.inl notNull.2))
  · exact .inr (.inr (.inr (.inl automatic.2)))
  · split at default
    · exact absurd default List.not_mem_nil
    · next v given => exact .inr (.inr (.inr (.inr ⟨v, given, List.mem_singleton.mp default⟩)))

theorem constraint_starts {c : Column} {constraint : List Word × (Column → Column)}
    (listed : constraint ∈ columnConstraints c) :
    Starts [.keyword .PRIMARY, .keyword .UNIQUE, .keyword .NOT, .keyword .AUTO_INCREMENT,
      .keyword .DEFAULT] (Word.lexemesOf constraint.1) := by
  rcases columnConstraints_cases listed with rfl | rfl | rfl | rfl | ⟨v, -, rfl⟩
  all_goals exact ⟨_, by decide, _, rfl⟩

theorem constraint?_reads {c made : Column} (h : ColumnWellFormed c)
    {constraint : List Word × (Column → Column)} (listed : constraint ∈ columnConstraints c) :
    Reads (constraint? made) (Word.lexemesOf constraint.1) (some (constraint.2 made)) rest := by
  rcases columnConstraints_cases listed with rfl | rfl | rfl | rfl | ⟨v, given, rfl⟩
  · exact .look rfl (.bind_cons .pass (.bind_cons .expect (.pure _)))
  · exact .look rfl (.bind_cons .pass (.pure _))
  · exact .look rfl (.bind_cons .pass (.bind_cons .expect (.pure _)))
  · exact .look rfl (.bind_cons .pass (.pure _))
  · simp only [Word.lexemesOf_cons, Word.lexemes, List.cons_append, List.nil_append]
    refine .look rfl (.bind_cons .pass ?_)
    exact .bind (literal_reads (h.default? v given)) (.pure _)

theorem columnConstraints_fold {c : Column} (h : ColumnWellFormed c) :
    (columnConstraints c).foldl (fun made constraint => constraint.2 made)
      { name := c.name, type := c.type } = c := by
  obtain ⟨name, type, primaryKey, unique, notNull, autoIncrement, default?⟩ := c
  cases primaryKey with
  | true =>
    obtain rfl : unique = true := h.unique rfl
    obtain rfl : notNull = true := h.notNull rfl
    cases autoIncrement <;> cases default? <;> rfl
  | false => cases unique <;> cases notNull <;> cases autoIncrement <;> cases default? <;> rfl

theorem constraint?_none (c : Column)
    (follow : Starts [.symbol .comma, .symbol .closeParen] rest) :
    Reads (constraint? c) [] none rest := by
  obtain ⟨l, listed, more, rfl⟩ := follow
  rw [List.mem_pair] at listed
  rcases listed with rfl | rfl
  · exact .look rfl (.pure none)
  · exact .look rfl (.pure none)

theorem column_reads {c : Column} (h : ColumnWellFormed c)
    (follow : Starts [.symbol .comma, .symbol .closeParen] rest) :
    Reads column (Word.lexemesOf (columnWords c)) c rest := by
  have constraints := Reads.repeatedly (fun made => constraint?_none made follow)
    (fun _ _ _ listed _ => constraint?_reads h listed) (fun _ listed => listed)
    (fun _ listed => (constraint_starts listed).ne_nil) { name := c.name, type := c.type }
  rw [columnConstraints_fold h] at constraints
  have next := follow.before (flatMap_begins fun _ listed => constraint_starts (c := c) listed)
  rw [Word.lexemesOf_flatMap] at next
  rw [columnWords, Word.lexemesOf_cons, Word.lexemesOf_cons, Word.lexemesOf_flatMap]
  refine .bind_cons .identifier (.bind_cons (columnType_reads ?_) constraints)
  exact next.head?_ne (by decide)

def tableItemWords : TableItem → List Word
  | .column c => columnWords c
  | .primaryKey name => .keyword .PRIMARY :: .keyword .KEY :: Word.parentheses [.name name]
  | .unique name => .keyword .UNIQUE :: Word.parentheses [.name name]

theorem tableItem_reads {item : TableItem} (h : ∀ c, item = .column c → ColumnWellFormed c)
    (follow : Starts [.symbol .comma, .symbol .closeParen] rest) :
    Reads tableItem (Word.lexemesOf (tableItemWords item)) item rest := by
  cases item with
  | column c => exact .look rfl (.lookNext rfl (.last (column_reads (h c rfl) follow) (.pure _)))
  | primaryKey name =>
    refine .look rfl (.lookNext rfl (.bind_cons .pass (.bind_cons .expect ?_)))
    exact .last (inParentheses_reads .identifier) (.pure _)
  | unique name =>
    refine .look rfl (.lookNext rfl (.bind_cons .pass ?_))
    exact .last (inParentheses_reads .identifier) (.pure _)

theorem columnsOf_columns (columns : List Column) :
    columnsOf (columns.map .column) = .ok columns := by
  have unchanged (found : List Column) :
      columns.foldlM (fun found _ => (Except.ok found : Except Failure _)) found = .ok found := by
    induction columns with
    | nil => rfl
    | cons c columns ih => exact ih
  have declared := unchanged columns
  rw [columnsOf, List.filterMap_map, List.foldlM_map]
  show List.foldlM (fun found _ => Except.ok found) (columns.filterMap some) columns = .ok columns
  rwa [List.filterMap_some]

theorem ifExists_reads {negated present : Bool} (apart : rest.head? ≠ some (.keyword .IF)) :
    Reads (ifExists negated)
      (Word.lexemesOf (if present then
        .keyword .IF :: (Word.flag .NOT negated ++ [.keyword .EXISTS]) else []))
      present rest := by
  cases present with
  | false => exact .skip (.decline apart) (.pure false)
  | true => cases negated with
    | false => exact .bind_cons .accept (.bind_cons .expect (.pure true))
    | true => exact .bind_cons .accept (.bind_cons .expect (.bind_cons .expect (.pure true)))

theorem createTable_reads {s : CreateTable} (h : s.WellFormed) :
    Reads create (Word.lexemesOf s.words) (.createTable s) [.finish] := by
  have items : Reads (commaSeparated tableItem)
      (Word.lexemesOf (Word.commas ((s.columns.map .column).map tableItemWords)))
      (s.columns.map .column) [.symbol .closeParen, .finish] := by
    refine commas_read (by simpa using h.nonempty) (.cons _ _) (by decide) ?_
    intro item listed after starts
    obtain ⟨c, declared, rfl⟩ := List.mem_map.mp listed
    refine tableItem_reads ?_ starts
    rintro c' ⟨⟩
    exact h.columns c declared
  rw [List.map_map] at items
  simp only [CreateTable.words, Word.parentheses, List.cons_append, List.nil_append,
    Word.lexemesOf_cons, Word.lexemesOf_append, Word.lexemes]
  refine .bind_cons .expect (.look rfl (.last (.bind_cons .expect ?_) (.pure _)))
  refine .bind (ifExists_reads (by simp)) (.bind_cons .identifier (.bind_cons .expect ?_))
  refine .bind items (.skip (.lift (columnsOf_columns s.columns)) ?_)
  exact .bind_cons .expect (.pure s)

theorem createIndex_reads {s : CreateIndex} (h : s.WellFormed) :
    Reads create (Word.lexemesOf s.words) (.createIndex s) [.finish] := by
  obtain ⟨⟨name, columns, unique⟩, table⟩ := s
  have listed : Reads (inParentheses (commaSeparated identifier))
      (Word.lexemesOf (nameList columns)) columns [.finish] :=
    inParentheses_reads (names_read h.nonempty)
  have index : Reads (createIndex unique)
      (.keyword .INDEX :: .identifier name :: .keyword .ON :: .identifier table ::
        Word.lexemesOf (nameList columns)) ⟨⟨name, columns, unique⟩, table⟩ [.finish] := by
    refine .bind_cons .expect (.bind_cons .identifier (.bind_cons .expect ?_))
    exact .bind_cons .identifier (.last listed (.pure _))
  cases unique with
  | false => exact .bind_cons .expect (.look rfl (.last index (.pure _)))
  | true => exact .bind_cons .expect (.look rfl (.bind_cons .pass (.last index (.pure _))))

theorem dropTable_reads {s : DropTable} :
    Reads dropTable (Word.lexemesOf s.words) s [.finish] := by
  simp only [DropTable.words, List.cons_append, List.nil_append, Word.lexemesOf_cons,
    Word.lexemesOf_append, Word.lexemes]
  refine .bind_cons .expect (.bind_cons .expect (.bind (ifExists_reads nofun) ?_))
  exact .bind_cons .identifier (.pure s)

theorem body_reads {s : Statement} (h : s.WellFormed) :
    Reads body (Word.lexemesOf s.words) s [.finish] := by
  cases s with
  | select s => exact .look rfl (.last (select_reads h) (.pure _))
  | insert s => exact .look rfl (.last (insert_reads h) (.pure _))
  | update s => exact .look rfl (.last (update_reads h) (.pure _))
  | delete s => exact .look rfl (.last (delete_reads h) (.pure _))
  | createTable s => exact .look rfl (createTable_reads h)
  | createIndex s => exact .look rfl (createIndex_reads h)
  | dropTable s => exact .look rfl (.last dropTable_reads (.pure _))
  | showTables => exact .look rfl (.bind_cons .expect (.bind_cons .accept (.pure _)))
  | describe table => exact .look rfl (.bind_cons .pass (.bind_cons .identifier (.pure _)))

theorem statement_reads {s : Statement} (h : s.WellFormed) :
    Reads statement (Word.lexemesOf s.words) s [.finish] :=
  .last (body_reads h) (.skip (.decline nofun) (.look rfl (.pure s)))

namespace Word

def AllPlain (ws : List Word) : Prop := ∀ w ∈ ws, w.Plain

variable {ws ws' : List Word} {items : List (List Word)}

@[simp] theorem allPlain_nil : AllPlain [] := nofun

@[simp] theorem allPlain_cons {w : Word} : AllPlain (w :: ws) ↔ w.Plain ∧ AllPlain ws :=
  List.forall_mem_cons

@[simp] theorem allPlain_append : AllPlain (ws ++ ws') ↔ AllPlain ws ∧ AllPlain ws' :=
  List.forall_mem_append

theorem allPlain_flatMap {α : Type} {f : α → List Word} {xs : List α} :
    AllPlain (xs.flatMap f) ↔ ∀ x ∈ xs, AllPlain (f x) := by
  simp only [AllPlain, List.mem_flatMap]
  exact ⟨fun h x hx w hw => h w ⟨x, hx, hw⟩, fun h w ⟨x, hx, hw⟩ => h x hx w hw⟩

@[simp] theorem allPlain_commas : AllPlain (commas items) ↔ ∀ item ∈ items, AllPlain item := by
  cases items with
  | nil => simp [commas]
  | cons first more => simp [commas, allPlain_flatMap, Plain]

@[simp] theorem allPlain_parentheses : AllPlain (parentheses ws) ↔ AllPlain ws := by
  simp [parentheses, Plain]

@[simp] theorem allPlain_flag (k : Keyword) (present : Bool) : AllPlain (flag k present) := by
  cases present <;> simp [flag, Plain]

@[simp] theorem allPlain_clause {k : Keyword} {body : Option (List Word)} :
    AllPlain (clause k body) ↔ ∀ ws ∈ body, AllPlain ws := by
  cases body <;> simp [clause, Plain]

@[simp] theorem allPlain_listClause {k : Keyword} :
    AllPlain (listClause k items) ↔ ∀ item ∈ items, AllPlain item := by
  cases items with
  | nil => simp [listClause]
  | cons first more => simp [listClause, Plain]

end Word

open Word (AllPlain)

theorem Test.allPlain {t : Test} (h : t.WellFormed) : AllPlain t.words := by
  cases t with
  | compare op v => simpa [words, Word.Plain, Test.WellFormed] using h
  | like pattern negated => simp [words, Word.Plain, HasLiteral]
  | isNull negated => simp [words, Word.Plain]

theorem Condition.allPlain {c : Condition} (h : c.WellFormed) (level : Level) :
    AllPlain (c.words level) := by
  induction c generalizing level with
  | both left right ihLeft ihRight =>
    have parts := And.intro (ihLeft h.1 .conjunction) (ihRight h.2 .term)
    cases level <;> simpa [words, Word.Plain] using parts
  | either left right ihLeft ihRight =>
    have parts := And.intro (ihLeft h.1 .disjunction) (ihRight h.2 .conjunction)
    cases level <;> simpa [words, Word.Plain] using parts
  | negation inner ih => simpa [words, Word.Plain] using ih h .term
  | test column tested => simpa [words, Word.Plain] using And.intro h.1 (Test.allPlain h.2)

theorem whereWords_allPlain {k : Keyword} {condition : Option Condition}
    (h : ∀ c ∈ condition, c.WellFormed) : AllPlain (whereWords k condition) := by
  cases condition with
  | none => simp [whereWords]
  | some c => simpa [whereWords] using c.allPlain (h c rfl) .disjunction

theorem countWords_allPlain (k : Keyword) (n : Option Nat) : AllPlain (countWords k n) := by
  cases n <;> simp [countWords, Word.Plain]

theorem aliasWords_allPlain {alias? : Option String} (h : ∀ a ∈ alias?, IsName a) :
    AllPlain (aliasWords alias?) := by
  cases alias? with
  | none => simp [aliasWords]
  | some a => simpa [aliasWords, Word.Plain] using h a rfl

theorem SelectItem.allPlain {item : SelectItem} (h : item.WellFormed) : AllPlain item.words := by
  cases item with
  | column name alias? =>
    exact Word.allPlain_cons.mpr ⟨.inl ⟨name, h.1, rfl⟩, aliasWords_allPlain h.2⟩
  | aggregate call alias? =>
    exact Word.allPlain_cons.mpr ⟨.inr ⟨call, h.1, rfl⟩, aliasWords_allPlain h.2⟩

theorem itemWords_allPlain {items : Option (List SelectItem)}
    (h : ∀ list ∈ items, list ≠ [] ∧ ∀ item ∈ list, item.WellFormed) :
    AllPlain (itemWords items) := by
  cases items with
  | none => simp [itemWords, Word.Plain]
  | some list =>
    simpa [itemWords] using fun item listed => SelectItem.allPlain ((h list rfl).2 item listed)

theorem TableName.allPlain {t : TableName} (h : t.WellFormed) : AllPlain t.words :=
  Word.allPlain_cons.mpr ⟨h.name, aliasWords_allPlain h.alias?⟩

theorem Join.allPlain {j : Join} (h : j.WellFormed) : AllPlain j.words := by
  have kind : AllPlain j.kind.words := by
    cases j.kind <;> simp [JoinKind.words, Word.Plain]
  have left : IsOperand j.left.text := .inl ⟨j.left, h.left, rfl⟩
  have right : IsOperand j.right.text := .inl ⟨j.right, h.right, rfl⟩
  simp [words, Word.Plain, kind, TableName.allPlain h.table, left, right]

theorem SortKey.allPlain {k : SortKey} (h : k.WellFormed) : AllPlain k.words := by
  refine Word.allPlain_cons.mpr ⟨?_, Word.allPlain_flag _ _⟩
  rcases h with wf | ⟨call, wf, same⟩
  · exact .inl ⟨k.column, wf, rfl⟩
  · exact .inr ⟨call, wf, by rw [same]; rfl⟩

theorem Select.allPlain {s : Select} (h : s.WellFormed) : AllPlain s.words := by
  have groupBy : ∀ c ∈ s.groupBy, IsOperand c.text := fun c listed =>
    .inl ⟨c, h.groupBy c listed, rfl⟩
  have orderBy : ∀ k ∈ s.orderBy, AllPlain k.words := fun k listed =>
    SortKey.allPlain (h.orderBy k listed)
  have joins : AllPlain (s.joins.flatMap (·.words)) :=
    Word.allPlain_flatMap.mpr fun j listed => Join.allPlain (h.joins j listed)
  simpa [words, Word.Plain, itemWords_allPlain h.items, TableName.allPlain h.source, joins,
    whereWords_allPlain h.condition, whereWords_allPlain h.having, countWords_allPlain] using
    ⟨groupBy, orderBy⟩

theorem nameList_allPlain {names : List String} (h : ∀ name ∈ names, IsName name) :
    AllPlain (nameList names) := by
  simpa [nameList, Word.Plain] using h

theorem Insert.allPlain {s : Insert} (h : s.WellFormed) : AllPlain s.words := by
  have columns : AllPlain ((s.columns.map nameList).getD []) := by
    cases given : s.columns with
    | none => simp
    | some names => exact nameList_allPlain (h.columns names given).2
  have values : ∀ row ∈ s.values, ∀ v ∈ row, HasLiteral v := fun row listed =>
    (h.values row listed).2
  simpa [words, Word.Plain, h.table, columns, rowWords] using values

theorem Update.allPlain {s : Update} (h : s.WellFormed) : AllPlain s.words := by
  have assigned (a : String × Value) (listed : a ∈ s.assignments) :
      AllPlain [.name a.1, .sign .equal, .literal a.2] := by
    simpa [Word.Plain] using h.assignments a listed
  have assignments := Word.allPlain_commas.mpr (List.forall_mem_map.mpr assigned)
  simp [words, Word.Plain, h.table, assignments, whereWords_allPlain h.condition]

theorem Delete.allPlain {s : Delete} (h : s.WellFormed) : AllPlain s.words := by
  simp [words, Word.Plain, h.table, whereWords_allPlain h.condition]

theorem columnWords_allPlain {c : Column} (h : ColumnWellFormed c) : AllPlain (columnWords c) := by
  have type : IsName c.type.name := by
    cases c.type <;> decide +kernel
  have constraints : AllPlain ((columnConstraints c).flatMap (·.1)) := by
    refine Word.allPlain_flatMap.mpr fun constraint listed => ?_
    rcases columnConstraints_cases listed with rfl | rfl | rfl | rfl | ⟨v, given, rfl⟩
    · simp [Word.Plain]
    · simp [Word.Plain]
    · simp [Word.Plain]
    · simp [Word.Plain]
    · simpa [Word.Plain] using h.default? v given
  simp [columnWords, Word.Plain, h.name, type, constraints]

theorem CreateTable.allPlain {s : CreateTable} (h : s.WellFormed) : AllPlain s.words := by
  have columns : ∀ c ∈ s.columns, AllPlain (columnWords c) := fun c listed =>
    columnWords_allPlain (h.columns c listed)
  cases given : s.ifNotExists <;> simpa [words, Word.Plain, given, h.table] using columns

theorem CreateIndex.allPlain {s : CreateIndex} (h : s.WellFormed) : AllPlain s.words := by
  simp [words, Word.Plain, h.name, h.table, nameList_allPlain h.columns]

theorem DropTable.allPlain {s : DropTable} (h : IsName s.table) : AllPlain s.words := by
  cases given : s.ifExists <;> simp [words, Word.Plain, given, h]

theorem Statement.allPlain {s : Statement} (h : s.WellFormed) : AllPlain s.words := by
  cases s with
  | select s => exact Select.allPlain h
  | insert s => exact Insert.allPlain h
  | update s => exact Update.allPlain h
  | delete s => exact Delete.allPlain h
  | createTable s => exact CreateTable.allPlain h
  | createIndex s => exact CreateIndex.allPlain h
  | dropTable s => exact DropTable.allPlain h
  | showTables => simp [words, Word.Plain]
  | describe table => simpa [words, Word.Plain, WellFormed] using h

namespace Statement

/-- The text of a well-formed statement is read as that statement. -/
theorem ofText_render (s : Statement) (h : s.WellFormed) : ofText s.render = .ok s := by
  obtain ⟨ts, cut, same⟩ := tokens_of_lexed (Word.lexed_textOf (allPlain h))
  obtain ⟨left, read, -⟩ := statement_reads h nofun ts same
  rw [ofText, render, cut]
  show (Grammar.statement ts).map (·.1) = .ok s
  rw [read]
  rfl

def filtered : Statement :=
  .select {
    distinct := false
    items := none
    source := ⟨"users", some "u"⟩
    joins := []
    condition := some (.both
      (.either (.test "u.age" (.compare .less (.integer Int64.minValue)))
        (.negation (.test "name" (.like "it's" false))))
      (.test "COUNT(DISTINCT id)" (.isNull true)))
    groupBy := []
    having := none
    orderBy := []
    limit := some 5
    offset := none }

theorem filtered_wellFormed : filtered.WellFormed where
  items := nofun
  source := ⟨by decide +kernel, by rintro a ⟨⟩; decide +kernel⟩
  joins := nofun
  condition := by
    rintro c ⟨⟩
    have age : IsOperand "u.age" := by
      refine .inl ⟨⟨some "u", "age"⟩, ⟨?_, by decide +kernel⟩, rfl⟩
      rintro q ⟨⟩
      decide +kernel
    have name : IsOperand "name" := .inl ⟨.bare "name", ⟨nofun, by decide +kernel⟩, rfl⟩
    have counted : IsOperand "COUNT(DISTINCT id)" := by
      refine .inr ⟨⟨.count, some (.bare "id"), true⟩, ⟨rfl, ?_⟩, rfl⟩
      rintro column ⟨⟩
      exact ⟨nofun, by decide +kernel⟩
    exact ⟨⟨⟨age, trivial⟩, name, trivial⟩, counted, trivial⟩
  groupBy := nofun
  having := nofun
  orderBy := nofun
  limit := by
    rintro n ⟨⟩
    decide
  offset := nofun

theorem ofText_render_filtered :
    filtered.render = "SELECT * FROM users AS u WHERE (u.age < -9223372036854775808 OR " ++
      "NOT name LIKE 'it''s') AND COUNT(DISTINCT id) IS NOT NULL LIMIT 5" ∧
    filtered.WellFormed ∧ ofText filtered.render = .ok filtered :=
  ⟨by decide +kernel, filtered_wellFormed, ofText_render filtered filtered_wellFormed⟩

end Statement
end SqlEngine.Dialect
