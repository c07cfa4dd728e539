import SqlEngine.Proofs.Dialect.Naming
import SqlEngine.Proofs.Relation.Check
import SqlEngine.Proofs.Relation.Group
import SqlEngine.Proofs.Relation.Join

/-! Aggregate calls that are named by their texts. Different calls have different texts, and there is
no column, alias or key of a row whose name is the text of a call. -/

namespace SqlEngine

open Dialect

def IsDotted (s : String) : Prop := ∀ c ∈ s.toList, isWordPart c = true ∨ c = '.'

theorem IsDotted.not_mem {s : String} (h : IsDotted s) {c : Char} (other : isWordPart c = false)
    (point : c ≠ '.') : c ∉ s.toList := by
  intro inside
  rcases h c inside with part | isPoint
  · rw [other] at part
    cases part
  · exact point isPoint

theorem isDotted_boundName {binding column : String} (hb : IsDotted binding) (hc : IsDotted column) :
    IsDotted (boundName binding column) := by
  intro c inside
  simp only [boundName, String.toList_append, List.mem_append] at inside
  rcases inside with (first | point) | second
  · exact hb c first
  · exact .inr (List.mem_singleton.mp point)
  · exact hc c second

namespace Dialect

theorem IsName.isDotted {s : String} (h : IsName s) : IsDotted s := by
  have word := h.1
  intro c inside
  cases cut : s.toList with
  | nil =>
    rw [cut] at inside
    cases inside
  | cons first rest =>
    rw [cut, isWord, Bool.and_eq_true] at word
    rw [cut] at inside
    rcases List.mem_cons.mp inside with rfl | inside
    · exact .inl (isWordPart_of_isWordStart word.1)
    · exact .inl (List.all_eq_true.mp word.2 c inside)

theorem ColumnName.WellFormed.isDotted {c : ColumnName} (h : c.WellFormed) : IsDotted c.text := by
  obtain ⟨qualifier, column⟩ := c
  cases qualifier with
  | none => exact h.column.isDotted
  | some q => exact isDotted_boundName (h.qualifier q rfl).isDotted h.column.isDotted

namespace AggregateCall

variable {c d : AggregateCall}

theorem toList_text (c : AggregateCall) : ∃ front, c.text.toList = front ++ [')'] ∧ '(' ∈ front := by
  rw [text, String.toList_append]
  exact ⟨_, rfl, by simp⟩

theorem isCallText_text (c : AggregateCall) : Query.isCallText c.text = true := by
  obtain ⟨front, ends, opens⟩ := c.toList_text
  rw [Query.isCallText, ends, List.contains_iff_mem]
  exact List.mem_append_left _ opens

theorem not_isDotted_text (c : AggregateCall) : ¬IsDotted c.text := by
  obtain ⟨front, ends, -⟩ := c.toList_text
  intro dotted
  refine dotted.not_mem (c := ')') (by decide) (by decide) ?_
  rw [ends]
  exact List.mem_append_right _ (List.mem_singleton_self _)

/-- From the lexemes of its text the grammar reads a call back, so that the text determines it. -/
theorem WellFormed.eq_of_text (hc : c.WellFormed) (hd : d.WellFormed) (same : c.text = d.text) :
    c = d := by
  have lexemes : c.lexemes = d.lexemes := by
    rw [← (spells_call hc).cut_eq, same, (spells_call hd).cut_eq]
  have functions : c.function = d.function := by
    have names : c.function.name = d.function.name :=
      Lexeme.identifier.inj (List.cons.inj lexemes).1
    have named := c.function.named?_name
    rw [names, Aggregate.named?_name] at named
    exact (Option.some.inj named).symm
  let ts : List Token := (c.lexemes ++ [Lexeme.finish]).map fun l => ⟨l, 0, 0⟩
  have whole : ts.map (·.lexeme) = c.lexemes ++ [.finish] := by simp [ts, Function.comp_def]
  obtain ⟨left, read, -⟩ := aggregateCall_reads hc (List.cons_ne_nil _ _) ts whole
  obtain ⟨left', read', -⟩ := aggregateCall_reads hd (List.cons_ne_nil _ _) ts (lexemes ▸ whole)
  rw [functions, read'] at read
  cases read
  rfl

end AggregateCall

theorem IsOperand.call {name : String} (h : IsOperand name) (isCall : Query.isCallText name = true) :
    ∃ c : AggregateCall, c.WellFormed ∧ c.text = name := by
  rcases h with ⟨c, known, rfl⟩ | call
  · rw [Query.isCallText, List.contains_iff_mem] at isCall
    exact absurd isCall (known.isDotted.not_mem (by decide) (by decide))
  · exact call

theorem SelectItem.WellFormed.eq_of_outputName {item : SelectItem} (h : item.WellFormed)
    {c : AggregateCall} (known : c.WellFormed) (same : item.outputName = c.text) :
    item = .aggregate c none := by
  have undotted (name : String) (dotted : IsDotted name) : name ≠ c.text := by
    rintro rfl
    exact c.not_isDotted_text dotted
  cases item with
  | column column alias? =>
    cases alias? with
    | none => exact absurd same (undotted _ h.1.isDotted)
    | some name => exact absurd same (undotted _ (h.2 name rfl).isDotted)
  | aggregate d alias? =>
    cases alias? with
    | none => rw [h.1.eq_of_text known same]
    | some name => exact absurd same (undotted _ (h.2 name rfl).isDotted)

theorem SelectItem.WellFormed.isSupported {item : SelectItem} (h : item.WellFormed) :
    item.IsSupported := by
  cases item with
  | column name alias? => trivial
  | aggregate call alias? => exact h.1.supported

end Dialect

namespace Scope

theorem mem_of_splitQualifier {name qualifier column : String} {front : List Char} {last : Char}
    (split : splitQualifier name = some (qualifier, column)) (ends : name.toList = front ++ [last])
    (point : last ≠ '.') : last ∈ column.toList := by
  unfold splitQualifier at split
  split at split
  · next before dot after cut =>
    cases split
    rw [List.span_eq_takeWhile_dropWhile, Prod.mk.injEq] at cut
    have isDot : dot = '.' := by
      have stops := List.head?_dropWhile_not (fun c => decide (c ≠ '.')) name.toList
      rw [cut.2] at stops
      simpa using stops
    have whole : front ++ [last] = before ++ dot :: after := by
      rw [← ends, ← cut.1, ← cut.2, List.takeWhile_append_dropWhile]
    rw [String.toList_ofList]
    rcases List.eq_nil_or_concat after with rfl | ⟨init, final, rfl⟩
    · have same := (List.append_inj' whole rfl).2
      exact absurd ((List.cons.inj same).1.trans isDot) point
    · rw [List.concat_eq_append, ← List.cons_append, ← List.append_assoc] at whole
      have same := (List.append_inj' whole rfl).2
      rw [(List.cons.inj same).1]
      simp
  · cases split

theorem key?_call {s : Scope} {available : List String} (dotted : ∀ key ∈ available, IsDotted key)
    (c : AggregateCall) : s.key? available c.text = none := by
  obtain ⟨front, ends, opens⟩ := c.toList_text
  rw [← Option.isNone_iff_eq_none, key?_isNone]
  rintro key listed (_ | ⟨split, -⟩ | ⟨-, qualified⟩)
  · exact c.not_isDotted_text (dotted _ listed)
  · exact (dotted _ listed).not_mem (by decide) (by decide)
      (mem_of_splitQualifier split ends (by decide))
  · refine (dotted _ listed).not_mem (c := ')') (by decide) (by decide) ?_
    have suffix := List.isSuffixOf_iff_suffix.mp qualified
    refine suffix.subset (List.mem_cons_of_mem _ ?_)
    rw [ends]
    exact List.mem_append_right _ (List.mem_singleton_self _)

end Scope

/-- The name of some items, all of which have one value, has that value in the row of a group,
whatever the first row of the group is. -/
theorem GroupedRow.value_context {scope : Scope} {items : List SelectItem} {group : List Row}
    {name : String} {v : Value} (listed : ∃ item ∈ items, item.outputName = name)
    (alike : ∀ item ∈ items, item.outputName = name → item.valueFor scope group = v) :
    scope.value (ofGroup scope items group).context name = v := by
  have own : (ofGroup scope items group).values.get? name = some v := by
    rw [ofGroup, Row.get?_ofEntries]
    cases found : Row.find? name (items.map fun item =>
        (item.outputName, item.valueFor scope group)).reverse with
    | none => simp_all [Row.find?_eq_none]
    | some w =>
      have entry := Row.mem_of_find? found
      rw [List.mem_reverse, List.mem_map] at entry
      obtain ⟨item, among, same⟩ := entry
      obtain ⟨named, value⟩ := Prod.mk.inj same
      rw [← value, alike item among named]
  have distinct : (ofGroup scope items group).values.names.Nodup :=
    Row.nodup_putAll (r := .empty) List.nodup_nil _
  have above : (ofGroup scope items group).context.get? name = some v := by
    rw [context, Row.get?_putAll, Row.find?_of_mem]
    · rfl
    · rwa [List.map_reverse, List.nodup_reverse]
    · exact List.mem_reverse.mpr (Row.mem_of_find? own)
  unfold Scope.value
  rw [above]

theorem Dialect.AggregateCall.evaluate_eq {call : AggregateCall} (supported : call.isSupported = true)
    (alias? : Option String) (scope : Scope) (group : List Row) :
    call.evaluate scope group = .ok ((SelectItem.aggregate call alias?).valueFor scope group) := by
  have isItem : (SelectItem.aggregate call alias?).IsSupported := supported
  exact itemValue_eq isItem

namespace Dialect.Select

def namesOfGroups (s : Select) : List String :=
  Query.conditionNames s.having ++ s.orderBy.map (·.column.text)

theorem WellNamed.isOperand_of_mem {s : Select} (named : s.WellNamed) :
    ∀ name ∈ s.namesOfGroups, IsOperand name := by
  refine List.forall_mem_append.mpr
    ⟨fun name read => ?_, List.forall_mem_map.mpr fun key listed => ?_⟩
  · cases having : s.having with
    | none => simp [Query.conditionNames, having] at read
    | some condition =>
      rw [Query.conditionNames, having] at read
      exact named.having condition having name read
  · rcases named.orderBy key listed with known | ⟨call, known, same⟩
    · exact .inl ⟨key.column, known, rfl⟩
    · exact .inr ⟨call, known, by rw [same]; rfl⟩

end Dialect.Select

namespace Query

variable {q : Query} {c : AggregateCall}

theorem not_mem_outputNames (named : q.select.WellNamed) (known : c.WellFormed)
    (unlisted : .aggregate c none ∉ q.select.items.getD []) : c.text ∉ q.select.outputNames := by
  intro output
  obtain ⟨item, listed, same⟩ := List.mem_map.mp output
  cases items : q.select.items with
  | none => simp [items] at listed
  | some all =>
    rw [items] at listed unlisted
    have own := (named.items all items item listed).eq_of_outputName known same
    exact unlisted (own ▸ listed)

theorem check_of_unselected (unselected : c.text ∉ q.select.outputNames)
    (dotted : ∀ key ∈ q.available, IsDotted key) (read : c.text ∈ q.select.namesOfGroups) :
    q.check ≠ .ok () := by
  have unknown : q.checkName c.text ≠ .ok () := by
    rw [Ne, checkName_eq_ok, Scope.key?_call dotted]
    decide
  intro checked
  simp only [check, Success.bind_eq_ok, Success.forM_eq_ok] at checked
  obtain ⟨_, -, _, -, _, -, _, -, _, having, order⟩ := checked
  rcases List.mem_append.mp read with read | read
  · have own := having _ read
    simp [checkHavingName, unselected, c.isCallText_text] at own
  · obtain ⟨key, listed, same⟩ := List.mem_map.mp read
    have own := order key listed
    rw [same, checkOrderName] at own
    simp only [List.contains_iff_mem, unselected, if_false, c.isCallText_text, Bool.and_true] at own
    split at own
    · cases own
    · exact unknown own

end Query
end SqlEngine
