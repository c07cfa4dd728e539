import SqlEngine.Proofs.Dialect.Conditions

/-! SELECT statements that are written out read back as themselves. -/

namespace SqlEngine.Dialect

open Reader Grammar

variable {rest heads ls : List Lexeme}

theorem clause_begins (k : Keyword) (body : Option (List Word)) :
    Word.lexemesOf (Word.clause k body) = [] ∨
      Starts [.keyword k] (Word.lexemesOf (Word.clause k body)) := by
  cases body with
  | none => exact .inl rfl
  | some body => exact .inr (.cons _ _)

theorem listClause_begins (k : Keyword) (items : List (List Word)) :
    Word.lexemesOf (Word.listClause k items) = [] ∨
      Starts [.keyword k] (Word.lexemesOf (Word.listClause k items)) := by
  cases items with
  | nil => exact .inl rfl
  | cons item items => exact .inr (.cons _ _)

theorem flag_begins (k : Keyword) (present : Bool) :
    Word.lexemesOf (Word.flag k present) = [] ∨
      Starts [.keyword k] (Word.lexemesOf (Word.flag k present)) := by
  cases present with
  | false => exact .inl rfl
  | true => exact .inr (.cons _ _)

theorem flatMap_begins {α : Type} {words : α → List Word} {items : List α}
    (each : ∀ a ∈ items, Starts heads (Word.lexemesOf (words a))) :
    Word.lexemesOf (items.flatMap words) = [] ∨
      Starts heads (Word.lexemesOf (items.flatMap words)) := by
  cases items with
  | nil => exact .inl rfl
  | cons a items =>
    obtain ⟨l, listed, more, same⟩ := each a List.mem_cons_self
    rw [List.flatMap_cons, Word.lexemesOf_append, same]
    exact .inr ⟨l, listed, _, rfl⟩

section

variable {α : Type} {item : Reader α} {words : α → List Word}

theorem clause_reads {k : Keyword} {value : Option α} (apart : rest.head? ≠ some (.keyword k))
    (each : ∀ a ∈ value, Reads item (Word.lexemesOf (words a)) a rest) :
    Reads (do if ← acceptWord k then return some (← item) else return none)
      (Word.lexemesOf (Word.clause k (value.map words))) value rest := by
  cases value with
  | none => exact .skip (.decline apart) (.pure none)
  | some a => exact .bind_cons .accept (.last (each a rfl) (.pure _))

theorem commas_read {items : List α} (nonempty : items ≠ []) (follow : Starts heads rest)
    (apart : .symbol .comma ∉ heads)
    (each : ∀ a ∈ items, ∀ after, Starts (.symbol .comma :: heads) after →
      Reads item (Word.lexemesOf (words a)) a after) :
    Reads (commaSeparated item) (Word.lexemesOf (Word.commas (items.map words))) items rest := by
  obtain ⟨first, more, rfl⟩ := List.exists_cons_of_ne_nil nonempty
  rw [List.map_cons, Word.commas, Word.lexemesOf_append, Word.lexemesOf_flatMap, List.flatMap_map]
  exact .commaSeparated follow apart each

theorem listAfter_reads {k : Keyword} {items : List α} (follow : Starts heads rest)
    (notNext : .keyword k ∉ heads) (apart : .symbol .comma ∉ heads)
    (each : ∀ a ∈ items, ∀ after, Starts (.symbol .comma :: heads) after →
      Reads item (Word.lexemesOf (words a)) a after) :
    Reads (listAfter k item) (Word.lexemesOf (Word.listClause k (items.map words))) items rest := by
  cases items with
  | nil => exact .skip (.decline (follow.head?_ne notNext)) (.pure [])
  | cons first more =>
    refine .bind_cons .accept (.bind_cons .expect ?_)
    exact commas_read nofun follow apart each

end

theorem conditionAfter_reads {k : Keyword} {condition : Option Condition}
    (h : ∀ c ∈ condition, c.WellFormed) (follow : Starts heads rest) (notNext : .keyword k ∉ heads)
    (notAnd : .keyword .AND ∉ heads) (notOr : .keyword .OR ∉ heads) :
    Reads (conditionAfter k) (Word.lexemesOf (whereWords k condition)) condition rest :=
  clause_reads (follow.head?_ne notNext) fun c listed => condition_reads (h c listed) follow notAnd notOr

theorem countAfter_reads {k : Keyword} {n : Option Nat} (bounded : ∀ m ∈ n, m ≤ maxWord)
    (apart : rest.head? ≠ some (.keyword k)) :
    Reads (countAfter k) (Word.lexemesOf (countWords k n)) n rest :=
  clause_reads apart fun m listed => count_reads (bounded m listed)

def EndsNames (heads : List Lexeme) : Prop :=
  .keyword .AS ∉ heads ∧ ∀ name, .identifier name ∉ heads

theorem aliasName_reads {alias? : Option String} (follow : Starts heads rest)
    (ends : EndsNames heads) :
    Reads aliasName (Word.lexemesOf (aliasWords alias?)) alias? rest := by
  cases alias? with
  | none =>
    have notAs := follow.head?_ne ends.1
    obtain ⟨l, listed, tail, rfl⟩ := follow
    refine .skip (.decline notAs) (.look rfl ?_)
    split
    · exact absurd listed (ends.2 _)
    · exact .pure none
  | some name => exact .bind_cons .accept (.bind_cons .identifier (.pure _))

theorem alias_begins (alias? : Option String) :
    Word.lexemesOf (aliasWords alias?) = [] ∨
      Starts [.keyword .AS] (Word.lexemesOf (aliasWords alias?)) :=
  clause_begins .AS _

theorem selectItem_reads {item : SelectItem} (h : item.WellFormed) (follow : Starts heads rest)
    (ends : EndsNames heads) (closes : Closes heads) :
    Reads selectItem (Word.lexemesOf item.words) item rest := by
  cases item with
  | column name alias? =>
    have next := follow.before (alias_begins alias?)
    have closes : Closes (.keyword .AS :: heads) := by simpa [Closes] using closes
    rw [SelectItem.words, Word.lexemesOf_cons, Word.lexemes, (spells_column h.1).cut_eq]
    have noCall : Reads aggregateNext? [] none
        ((name.lexemes ++ Word.lexemesOf (aliasWords alias?)) ++ rest) := by
      rw [List.append_assoc]
      exact aggregateNext?_column next closes
    refine .skip noCall (.bind (columnName_reads next closes) ?_)
    exact .last (aliasName_reads follow ends) (.pure _)
  | aggregate call alias? =>
    rw [SelectItem.words, Word.lexemesOf_cons, Word.lexemes, (spells_call h.1).cut_eq]
    have isCall : Reads aggregateNext? [] (some call.function)
        ((call.lexemes ++ Word.lexemesOf (aliasWords alias?)) ++ rest) := by
      rw [List.append_assoc]
      exact aggregateNext?_call call
    refine .skip isCall (.bind (aggregateCall_reads h.1) ?_)
    exact .last (aliasName_reads follow ends) (.pure _)

theorem SelectItem.head?_lexemes_ne {item : SelectItem} (h : item.WellFormed) {l : Lexeme}
    (apart : ∀ name, l ≠ .identifier name) :
    (Word.lexemesOf item.words ++ ls).head? ≠ some l := by
  cases item with
  | column name alias? =>
    rw [SelectItem.words, Word.lexemesOf_cons, List.append_assoc]
    exact IsOperand.head?_cut_ne (.inl ⟨name, h.1, rfl⟩) apart
  | aggregate call alias? =>
    rw [SelectItem.words, Word.lexemesOf_cons, List.append_assoc]
    exact IsOperand.head?_cut_ne (.inr ⟨call, h.1, rfl⟩) apart

theorem head?_commas_ne {items : List SelectItem} (nonempty : items ≠ [])
    (h : ∀ item ∈ items, item.WellFormed) {l : Lexeme} (apart : ∀ name, l ≠ .identifier name) :
    (Word.lexemesOf (Word.commas (items.map (·.words))) ++ ls).head? ≠ some l := by
  obtain ⟨first, more, rfl⟩ := List.exists_cons_of_ne_nil nonempty
  rw [List.map_cons, Word.commas, Word.lexemesOf_append, List.append_assoc]
  exact SelectItem.head?_lexemes_ne (h first List.mem_cons_self) apart

theorem itemWords_head?_ne {items : Option (List SelectItem)}
    (h : ∀ list ∈ items, list ≠ [] ∧ ∀ item ∈ list, item.WellFormed) {k : Keyword} :
    (Word.lexemesOf (itemWords items) ++ ls).head? ≠ some (.keyword k) := by
  cases items with
  | none => exact nofun
  | some list => exact head?_commas_ne (h list rfl).1 (h list rfl).2 nofun

theorem selectItems_reads {items : Option (List SelectItem)}
    (h : ∀ list ∈ items, list ≠ [] ∧ ∀ item ∈ list, item.WellFormed) :
    Reads selectItems (Word.lexemesOf (itemWords items)) items (.keyword .FROM :: rest) := by
  cases items with
  | none => exact .bind_cons .accept (.pure none)
  | some list =>
    obtain ⟨nonempty, each⟩ := h list rfl
    refine .skip (.decline (head?_commas_ne nonempty each nofun)) (.last ?_ (.pure _))
    exact commas_read nonempty (.cons _ _) (by decide) fun item listed after starts =>
      selectItem_reads (each item listed) starts ⟨by decide, by simp⟩ (by decide)

theorem tableName_reads {t : TableName} (follow : Starts heads rest) (ends : EndsNames heads) :
    Reads tableName (Word.lexemesOf t.words) t rest :=
  .bind_cons .identifier (.last (aliasName_reads follow ends) (.pure _))

def joinHeads : List Lexeme := [.keyword .JOIN, .keyword .LEFT, .keyword .RIGHT]

theorem join_starts (j : Join) : Starts joinHeads (Word.lexemesOf j.words) := by
  obtain ⟨kind, table, left, right⟩ := j
  cases kind <;> exact ⟨_, by decide, _, rfl⟩

theorem joinKind?_none (follow : Starts heads rest)
    (apart : ∀ k ∈ [Keyword.JOIN, .INNER, .LEFT, .RIGHT], .keyword k ∉ heads) :
    Reads joinKind? [] none rest := by
  obtain ⟨l, listed, more, rfl⟩ := follow
  refine .look rfl ?_
  split
  · exact absurd listed (apart .JOIN (by decide))
  · exact absurd listed (apart .INNER (by decide))
  · exact absurd listed (apart .LEFT (by decide))
  · exact absurd listed (apart .RIGHT (by decide))
  · exact .pure none

theorem joinKind?_reads {kind : JoinKind} :
    Reads joinKind? (Word.lexemesOf kind.words) (some kind) rest := by
  cases kind with
  | inner => exact .look rfl (.bind_cons .pass (.pure _))
  | left =>
    refine .look rfl (.bind_cons .pass (.skip (.decline nofun) ?_))
    exact .bind_cons .expect (.pure _)
  | right =>
    refine .look rfl (.bind_cons .pass (.skip (.decline nofun) ?_))
    exact .bind_cons .expect (.pure _)

theorem join?_reads {j : Join} (h : j.WellFormed) (follow : Starts heads rest)
    (closes : Closes heads) : Reads join? (Word.lexemesOf j.words) (some j) rest := by
  have named : EndsNames [.keyword .ON] := ⟨by decide, by simp⟩
  have sides : Word.lexemesOf [.keyword .ON, .operand j.left.text, .sign .equal,
      .operand j.right.text] =
      .keyword .ON :: (j.left.lexemes ++ .symbol .equal :: j.right.lexemes) := by
    simp [(spells_column h.left).cut_eq, (spells_column h.right).cut_eq]
  rw [Join.words, List.append_assoc, Word.lexemesOf_append, Word.lexemesOf_append, sides]
  refine .bind joinKind?_reads (.bind (tableName_reads (.cons _ _) named) (.bind_cons .expect ?_))
  refine .bind (columnName_reads (.cons _ _) (by decide)) (.bind_cons .expect ?_)
  exact .last (columnName_reads follow closes) (.pure _)

theorem joins_read {list : List Join} (h : ∀ j ∈ list, j.WellFormed) (follow : Starts heads rest)
    (apart : ∀ k ∈ [Keyword.JOIN, .INNER, .LEFT, .RIGHT], .keyword k ∉ heads)
    (closes : Closes heads) : Reads joins (Word.lexemesOf (list.flatMap (·.words))) list rest := by
  have stop (found : List Join) :
      Reads (do return (← join?).map fun j => found ++ [j]) [] none rest :=
    .skip (.skip (joinKind?_none follow apart) (.pure none)) (.pure none)
  have go (found : List Join) (j : Join) (more : List Join) (wf : j.WellFormed)
      (_ : ∀ x ∈ more, x.WellFormed) :
      Reads (do return (← join?).map fun j => found ++ [j]) (Word.lexemesOf j.words)
        (some (found ++ [j])) ((more.flatMap fun j => Word.lexemesOf j.words) ++ rest) := by
    have next := follow.before (flatMap_begins fun j (_ : j ∈ more) => join_starts j)
    rw [Word.lexemesOf_flatMap] at next
    have closes : Closes (joinHeads ++ heads) := by simpa [Closes, joinHeads] using closes
    exact .last (join?_reads wf next closes) (.pure _)
  have nonempty (j : Join) (_ : j ∈ list) : Word.lexemesOf j.words ≠ [] := (join_starts j).ne_nil
  have all := Reads.repeatedly stop go h nonempty []
  rw [Reads.foldl_concat] at all
  rw [Word.lexemesOf_flatMap]
  exact all

theorem sortKey_reads {k : SortKey} (h : k.WellFormed) (follow : Starts heads rest)
    (notDesc : .keyword .DESC ∉ heads) (notAsc : .keyword .ASC ∉ heads) (closes : Closes heads) :
    Reads sortKey (Word.lexemesOf k.words) k rest := by
  obtain ⟨column, ascending⟩ := k
  have next := follow.before (flag_begins .DESC !ascending)
  have closes : Closes (.keyword .DESC :: heads) := by simpa [Closes] using closes
  have named : Reads operand (cut column.text) column
      (Word.lexemesOf (Word.flag .DESC !ascending) ++ rest) := by
    rcases h with wf | ⟨call, wf, rfl⟩
    · rw [(spells_column wf).cut_eq]
      exact operand_column next closes
    · show Reads operand (cut call.text) _ _
      rw [(spells_call wf).cut_eq]
      exact operand_call wf
  refine .bind named ?_
  cases ascending with
  | false => exact .bind_cons .accept (.pure _)
  | true =>
    refine .skip (.decline (follow.head?_ne notDesc)) ?_
    exact .skip (.decline (follow.head?_ne notAsc)) (.pure _)

theorem groupColumn_reads {c : ColumnName} (h : c.WellFormed) (follow : Starts heads rest)
    (closes : Closes heads) : Reads columnName (Word.lexemesOf [.operand c.text]) c rest := by
  rw [Word.lexemesOf_cons, Word.lexemes, (spells_column h).cut_eq, Word.lexemesOf_nil, List.append_nil]
  exact columnName_reads follow closes

theorem select_reads {s : Select} (h : s.WellFormed) :
    Reads select (Word.lexemesOf s.words) s [.finish] := by
  -- what each clause finds behind it, from the last clause to the first
  have offset := (Starts.cons .finish []).before
    (clause_begins .OFFSET (s.offset.map fun n => [.count n]))
  have limit := offset.before_append (clause_begins .LIMIT (s.limit.map fun n => [.count n]))
  have orderBy := limit.before_append (listClause_begins .ORDER (s.orderBy.map (·.words)))
  have having := orderBy.before_append
    (clause_begins .HAVING (s.having.map (·.words .disjunction)))
  have groupBy := having.before_append
    (listClause_begins .GROUP (s.groupBy.map fun c => [.operand c.text]))
  have condition := groupBy.before_append
    (clause_begins .WHERE (s.condition.map (·.words .disjunction)))
  have joined := condition.before_append (flatMap_begins fun j (_ : j ∈ s.joins) => join_starts j)
  simp only [Select.words, List.append_assoc, List.cons_append, Word.lexemesOf_cons,
    Word.lexemesOf_append, lexemesOf_flag, Word.lexemes, List.nil_append]
  refine .bind_cons .expect (.bind (flag_reads ?_) ?_)
  · rw [List.append_assoc]
    exact itemWords_head?_ne h.items
  refine .bind (selectItems_reads h.items) (.bind_cons .expect ?_)
  refine .bind (tableName_reads joined ⟨by decide, by simp [joinHeads]⟩) ?_
  refine .bind (joins_read h.joins condition (by decide) (by decide)) ?_
  refine .bind (conditionAfter_reads h.condition groupBy (by decide) (by decide) (by decide)) ?_
  refine .bind (listAfter_reads having (by decide) (by decide) fun c listed after starts =>
    groupColumn_reads (h.groupBy c listed) starts (by decide)) ?_
  refine .bind (conditionAfter_reads h.having orderBy (by decide) (by decide) (by decide)) ?_
  refine .bind (listAfter_reads limit (by decide) (by decide) fun k listed after starts =>
    sortKey_reads (h.orderBy k listed) starts (by decide) (by decide) (by decide)) ?_
  refine .bind (countAfter_reads h.limit (offset.head?_ne (by decide))) ?_
  exact .last (countAfter_reads h.offset nofun) (.pure s)

end SqlEngine.Dialect
