import SqlEngine.Proofs.Dialect.Declaration
import SqlEngine.Proofs.Dialect.Splice
import SqlEngine.Proofs.Dialect.Tables

/-! The names in a statement that a text spells. The grammar takes them from the tokens, in which an
identifier is a word and no keyword. -/

namespace SqlEngine.Dialect

structure WellNamed (ts : List Token) : Prop where
  ended : Ended (ts.map (·.lexeme))
  names : ∀ t ∈ ts, ∀ name, t.lexeme = .identifier name → IsName name

namespace WellNamed

variable {ts read left : List Token}

theorem of_append (h : WellNamed (read ++ left)) (ended : Ended (left.map (·.lexeme))) :
    WellNamed left :=
  ⟨ended, fun t listed => h.names t (List.mem_append_right _ listed)⟩

theorem passed (h : WellNamed ts) : WellNamed (Reader.passed ts) := by
  obtain ⟨t, rest, rfl⟩ := Reader.Ended.exists_cons h.ended
  cases rest with
  | nil => exact h
  | cons t' rest =>
    have ended : Ended ([t.lexeme] ++ (t' :: rest).map (·.lexeme)) := h.ended
    have whole : WellNamed ([t] ++ t' :: rest) := h
    exact whole.of_append (ended.of_append (List.cons_ne_nil _ _))

theorem current (h : WellNamed ts) {name : String}
    (here : (Reader.current ts).lexeme = .identifier name) : IsName name := by
  obtain ⟨t, rest, rfl⟩ := Reader.Ended.exists_cons h.ended
  exact h.names t List.mem_cons_self name here

end WellNamed

namespace Reader

variable {α β : Type} {P : α → Prop} {Q : β → Prop}

/-- From such tokens the reader answers something with the property, and leaves such tokens. -/
def Yields (m : Reader α) (P : α → Prop) : Prop :=
  ∀ ts a left, WellNamed ts → m ts = .ok (a, left) → P a ∧ WellNamed left

namespace Yields

variable {m : Reader α} {K : Lexeme → Prop} {l : Lexeme}

theorem pure {a : α} (h : P a) : Yields (Pure.pure a) P := by
  intro ts b left named answered
  cases answered
  exact ⟨h, named⟩

theorem fail (e : Expectation) : Yields (Reader.fail e) P := by
  intro ts a left named answered
  cases answered

theorem mono {P' : α → Prop} (h : Yields m P) (le : ∀ a, P a → P' a) : Yields m P' :=
  fun ts a left named answered => (h ts a left named answered).imp_left (le a)

theorem bind {f : α → Reader β} (first : Yields m P) (rest : ∀ a, P a → Yields (f a) Q) :
    Yields (m >>= f) Q := by
  intro ts b left named answered
  rw [bind_apply, Success.bind_eq_ok] at answered
  obtain ⟨⟨a, between⟩, ha, hb⟩ := answered
  obtain ⟨known, named'⟩ := first ts a between named ha
  exact rest a known between b left named' hb

theorem of_phrase (phrase : ∀ n, Phrase n m K Any) (ensures : Ensures m P) : Yields m P := by
  intro ts a left named answered
  have judged := (phrase ts.length).judged ts named.ended (Nat.le_refl _)
  obtain ⟨read, rfl, ended, -⟩ := judged.accepts a left answered
  exact ⟨ensures _ a left answered, named.of_append ended⟩

theorem after {f : α → Reader β} (phrase : ∀ n, Phrase n m K Any) (rest : ∀ a, Yields (f a) Q) :
    Yields (m >>= f) Q :=
  bind (of_phrase (P := fun _ => True) phrase fun _ _ _ _ => trivial) fun a _ => rest a

theorem ofExcept {x : Except Failure α} (h : ∀ a, x = .ok a → P a) :
    Yields (liftM x : Reader α) P := by
  intro ts a left named answered
  have lifted : (liftM x : Reader α) ts = x >>= fun a => Pure.pure (a, ts) := rfl
  rw [lifted, Success.bind_eq_ok] at answered
  obtain ⟨b, computed, same⟩ := answered
  cases same
  exact ⟨h a computed, named⟩

theorem look {f : Lexeme → Reader β} (rest : ∀ l, Yields (f l) Q) :
    Yields (Reader.look >>= f) Q :=
  fun ts => rest (Reader.current ts).lexeme ts

theorem lookNext {f : Lexeme → Reader β} (rest : ∀ l, Yields (f l) Q) :
    Yields (Reader.lookNext >>= f) Q :=
  fun ts => rest (Reader.next ts).lexeme ts

theorem pass {f : Unit → Reader β} (rest : Yields (f ()) Q) : Yields (Reader.pass >>= f) Q :=
  fun ts b left named => rest (Reader.passed ts) b left named.passed

theorem accept {f : Bool → Reader β} (rest : ∀ found, Yields (f found) Q) :
    Yields (Reader.accept l >>= f) Q := by
  intro ts b left named answered
  by_cases here : (Reader.current ts).lexeme = l
  · rw [accept_bind_of_eq here] at answered
    exact rest true _ b left named.passed answered
  · rw [accept_bind_of_ne here] at answered
    exact rest false ts b left named answered

theorem expect {f : Unit → Reader β} (rest : Yields (f ()) Q) : Yields (Reader.expect l >>= f) Q := by
  intro ts b left named answered
  by_cases here : (Reader.current ts).lexeme = l
  · rw [bind_apply, Reader.expect, if_pos here] at answered
    exact rest _ b left named.passed answered
  · rw [bind_apply, Reader.expect, if_neg here] at answered
    cases answered

theorem identifier : Yields Reader.identifier IsName := by
  intro ts name left named answered
  rw [Reader.identifier, look_bind] at answered
  cases here : (Reader.current ts).lexeme with
  | identifier word =>
    rw [here] at answered
    cases answered
    exact ⟨named.current here, named.passed⟩
  | _ =>
    rw [here] at answered
    cases answered

theorem iterate {step : α → Reader (Option α)}
    (kept : ∀ a, P a → Yields (step a) fun next => ∀ b ∈ next, P b) (fuel : Nat) {a : α}
    (h : P a) : Yields (Reader.iterate step fuel a) P := by
  induction fuel generalizing a with
  | zero => exact .pure h
  | succ fuel ih =>
    refine .bind (kept a h) fun next known => ?_
    cases next with
    | none => exact .pure h
    | some b => exact ih (known b rfl)

theorem repeatedly {step : α → Reader (Option α)}
    (kept : ∀ a, P a → Yields (step a) fun next => ∀ b ∈ next, P b) {a : α} (h : P a) :
    Yields (Reader.repeatedly step a) P :=
  fun ts => iterate kept ts.length h ts

theorem commaSeparated (h : Yields m P) :
    Yields (Reader.commaSeparated m) fun as => ∀ a ∈ as, P a := by
  refine .bind h fun first known => .repeatedly (fun as all => .accept fun comma => ?_)
    (List.forall_mem_singleton.mpr known)
  split
  · refine .bind h fun a known => .pure ?_
    rintro _ ⟨⟩
    exact List.forall_mem_append.mpr ⟨all, List.forall_mem_singleton.mpr known⟩
  · exact .pure (by simp)

end Yields
end Reader

def Condition.WellNamed (c : Condition) : Prop := ∀ name ∈ c.columns, IsOperand name

structure Select.WellNamed (s : Select) : Prop where
  items : ∀ items ∈ s.items, ∀ item ∈ items, item.WellFormed
  source : s.source.WellFormed
  joins : ∀ j ∈ s.joins, j.WellFormed
  condition : ∀ c ∈ s.condition, c.WellNamed
  groupBy : ∀ c ∈ s.groupBy, c.WellFormed
  having : ∀ c ∈ s.having, c.WellNamed
  orderBy : ∀ k ∈ s.orderBy, k.WellFormed

/-- Of the other statements only the columns of a new table matter here. -/
def Statement.WellNamed : Statement → Prop
  | .select s => s.WellNamed
  | .createTable s => ∀ c ∈ s.columns, IsName c.name
  | _ => True

namespace Grammar

open Reader

theorem columnName_yields : Yields columnName ColumnName.WellFormed := by
  refine .bind .identifier fun first named => .accept fun dotted => ?_
  split
  · refine .bind .identifier fun column named' => .pure ⟨?_, named'⟩
    rintro _ ⟨⟩
    exact named
  · refine .pure ⟨?_, named⟩
    rintro _ ⟨⟩

theorem callArgument_yields (function : Aggregate) (distinct : Bool) :
    Yields (callArgument function distinct) fun argument =>
      AggregateCall.WellFormed ⟨function, argument, distinct⟩ := by
  refine .accept fun star => ?_
  split
  · split
    · exact .fail _
    · next plain =>
      refine .pure ⟨?_, by simp⟩
      simpa [AggregateCall.isSupported] using plain
  · refine .bind columnName_yields fun column known => .pure ⟨rfl, ?_⟩
    rintro _ ⟨⟩
    exact known

theorem aggregateCall_yields (function : Aggregate) :
    Yields (aggregateCall function) AggregateCall.WellFormed :=
  .bind .identifier fun _ _ => .expect (.accept fun distinct =>
    .bind (callArgument_yields function distinct) fun _ known => .expect (.pure known))

theorem aggregateNext?_bind {α : Type} {P : α → Prop} {f : Option Aggregate → Reader α}
    (rest : ∀ function?, Yields (f function?) P) : Yields (aggregateNext? >>= f) P := by
  refine .bind (P := fun _ => True) (.look fun l => .lookNext fun l' => ?_) fun function? _ =>
    rest function?
  split
  · exact .pure trivial
  · exact .pure trivial

theorem operand_yields : Yields operand fun column => column.WellFormed ∨
    ∃ call : AggregateCall, call.WellFormed ∧ column = .bare call.text := by
  refine aggregateNext?_bind fun function? => ?_
  cases function? with
  | none => exact columnName_yields.mono fun _ => .inl
  | some function =>
    exact .bind (aggregateCall_yields function) fun call known => .pure (.inr ⟨call, known, rfl⟩)

theorem leftChain_yields {inner : Reader Condition} (h : Yields inner Condition.WellNamed)
    (k : Keyword) {combine : Condition → Condition → Condition}
    (columns : ∀ left right, (combine left right).columns = left.columns ++ right.columns) :
    Yields (leftChain k combine inner) Condition.WellNamed := by
  refine .bind h fun first known => .repeatedly (fun left known => .accept fun more => ?_) known
  split
  · refine .bind h fun right known' => .pure ?_
    rintro _ ⟨⟩
    rw [Condition.WellNamed, columns]
    exact List.forall_mem_append.mpr ⟨known, known'⟩
  · exact .pure (by simp)

theorem disjunction_yields {inner : Reader Condition} (h : Yields inner Condition.WellNamed) :
    Yields (disjunction inner) Condition.WellNamed :=
  leftChain_yields (leftChain_yields h _ fun _ _ => rfl) _ fun _ _ => rfl

theorem term_yields (depth : Nat) : Yields (term depth) Condition.WellNamed := by
  induction depth with
  | zero => exact .fail _
  | succ depth ih =>
    refine .accept fun negated => ?_
    split
    · exact .bind ih fun inner known => .pure known
    · refine .accept fun opened => ?_
      split
      · exact .bind (disjunction_yields ih) fun inner known => .expect (.pure known)
      · refine .bind operand_yields fun column known =>
          .after (fun _ => test_phrase trivial) fun tested => .pure ?_
        refine List.forall_mem_singleton.mpr ?_
        rcases known with known | ⟨call, known, rfl⟩
        · exact .inl ⟨column, known, rfl⟩
        · exact .inr ⟨call, known, rfl⟩

theorem condition_yields : Yields condition Condition.WellNamed :=
  fun ts => disjunction_yields (term_yields ts.length) ts

theorem conditionAfter_yields (k : Keyword) :
    Yields (conditionAfter k) fun c? => ∀ c ∈ c?, c.WellNamed := by
  refine .accept fun found => ?_
  split
  · refine .bind condition_yields fun c known => .pure ?_
    rintro _ ⟨⟩
    exact known
  · exact .pure (by simp)

theorem aliasName_yields : Yields aliasName fun alias? => ∀ name ∈ alias?, IsName name := by
  have some : Yields (identifier >>= fun name => (Pure.pure (some name) : Reader _))
      fun alias? => ∀ name ∈ alias?, IsName name := by
    refine .bind .identifier fun name named => .pure ?_
    rintro _ ⟨⟩
    exact named
  refine .accept fun found => ?_
  split
  · exact some
  · refine .look fun l => ?_
    split
    · exact some
    · exact .pure (by simp)

theorem selectItem_yields : Yields selectItem SelectItem.WellFormed := by
  refine aggregateNext?_bind fun function? => ?_
  cases function? with
  | some function =>
    exact .bind (aggregateCall_yields function) fun call known =>
      .bind aliasName_yields fun alias? named => .pure ⟨known, named⟩
  | none =>
    exact .bind columnName_yields fun column known =>
      .bind aliasName_yields fun alias? named => .pure ⟨known, named⟩

theorem selectItems_yields :
    Yields selectItems fun items? => ∀ items ∈ items?, ∀ item ∈ items, item.WellFormed := by
  refine .accept fun star => ?_
  split
  · exact .pure (by simp)
  · refine .bind (.commaSeparated selectItem_yields) fun items known => .pure ?_
    rintro _ ⟨⟩
    exact known

theorem tableName_yields : Yields tableName TableName.WellFormed :=
  .bind .identifier fun _ named => .bind aliasName_yields fun _ named' => .pure ⟨named, named'⟩

theorem join?_yields : Yields join? fun j? => ∀ j ∈ j?, j.WellFormed := by
  refine .after (fun _ => joinKind?_phrase.any) fun kind? => ?_
  cases kind? with
  | none => exact .pure (by simp)
  | some kind =>
    refine .bind tableName_yields fun table known => .expect <|
      .bind columnName_yields fun left known' => .expect <|
      .bind columnName_yields fun right known'' => .pure ?_
    rintro _ ⟨⟩
    exact ⟨known, known', known''⟩

theorem joins_yields : Yields joins fun joined => ∀ j ∈ joined, j.WellFormed := by
  refine .repeatedly (fun found all => .bind join?_yields fun j? known => .pure ?_) (by simp)
  intro joined isJoined
  obtain ⟨j, rfl, rfl⟩ := Option.map_eq_some_iff.mp isJoined
  exact List.forall_mem_append.mpr ⟨all, List.forall_mem_singleton.mpr (known j rfl)⟩

theorem sortKey_yields : Yields sortKey SortKey.WellFormed := by
  refine .bind operand_yields fun column known => .accept fun descending => ?_
  split
  · exact .pure known
  · exact .accept fun _ => .pure known

theorem listAfter_yields {α : Type} {P : α → Prop} {item : Reader α} (h : Yields item P)
    (k : Keyword) : Yields (listAfter k item) fun items => ∀ item ∈ items, P item := by
  refine .accept fun found => ?_
  split
  · exact .expect (.commaSeparated h)
  · exact .pure (List.forall_mem_nil _)

theorem select_yields : Yields select Select.WellNamed := by
  have count {α : Type} {P : α → Prop} {f : Option Nat → Reader α} (k : Keyword)
      (apart : ¬Closing (.keyword k)) (rest : ∀ n, Yields (f n) P) :
      Yields (countAfter k >>= f) P :=
    .after (fun _ => countAfter_phrase k apart fun _ _ => trivial) rest
  refine .expect (.accept fun distinct => .bind selectItems_yields fun _ items => .expect ?_)
  refine .bind tableName_yields fun _ source => .bind joins_yields fun _ joins => ?_
  refine .bind (conditionAfter_yields .WHERE) fun _ condition => ?_
  refine .bind (listAfter_yields columnName_yields .GROUP) fun _ groupBy => ?_
  refine .bind (conditionAfter_yields .HAVING) fun _ having => ?_
  refine .bind (listAfter_yields sortKey_yields .ORDER) fun _ orderBy => ?_
  refine count _ (by decide) fun _ => count _ (by decide) fun _ => .pure ?_
  exact ⟨items, source, joins, condition, groupBy, having, orderBy⟩

theorem constraint?_name (c : Column) :
    Ensures (constraint? c) fun next => ∀ d ∈ next, d.name = c.name := by
  refine .after fun l => ?_
  split
  · exact .after fun _ => .after fun _ => .pure (by rintro _ ⟨⟩; rfl)
  · exact .after fun _ => .pure (by rintro _ ⟨⟩; rfl)
  · exact .after fun _ => .after fun _ => .pure (by rintro _ ⟨⟩; rfl)
  · exact .after fun _ => .pure (by rintro _ ⟨⟩; rfl)
  · exact .after fun _ => .after fun _ => .pure (by rintro _ ⟨⟩; rfl)
  · split
    · exact .after fun _ => .pure (by rintro _ ⟨⟩; rfl)
    · exact .pure (by simp)

theorem column_yields : Yields column fun c => IsName c.name := by
  refine .bind .identifier fun name named =>
    .after (fun _ => columnType_phrase trivial) fun type => .repeatedly ?_ named
  refine fun c named => (Yields.of_phrase (fun _ => (constraint?_phrase c).any)
    (constraint?_name c)).mono fun next same d isNext => ?_
  rw [same d isNext]
  exact named

theorem tableItem_yields : Yields tableItem fun item => ∀ c, item = .column c → IsName c.name := by
  have inner : Yields (inParentheses identifier) fun _ => True :=
    .expect (.bind .identifier fun _ _ => .expect (.pure trivial))
  refine .look fun l => .lookNext fun l' => ?_
  split
  · exact .pass (.expect (.bind inner fun _ _ => .pure (by simp)))
  · exact .pass (.bind inner fun _ _ => .pure (by simp))
  · refine .bind column_yields fun c named => .pure ?_
    rintro _ ⟨⟩
    exact named

theorem createTable_yields : Yields createTable fun s => ∀ c ∈ s.columns, IsName c.name := by
  refine .expect (.after (fun _ => ifExists_phrase true fun _ _ => trivial) fun _ => ?_)
  refine .bind .identifier fun table _ => .expect (.bind (.commaSeparated tableItem_yields) ?_)
  intro items declared
  refine .bind (.ofExcept fun columns ok => ?_) fun columns named => .expect (.pure named)
  refine columnsOf_keeps ok (fun c named => named) (fun c named => named) fun c listed => ?_
  exact declared _ listed c rfl

theorem create_yields : Yields create Statement.WellNamed := by
  refine .expect (.look fun l => ?_)
  split
  · exact .bind createTable_yields fun s named => .pure named
  · exact .after (fun _ => createIndex_phrase false trivial) fun s => .pure trivial
  · exact .pass (.after (fun _ => createIndex_phrase true trivial) fun s => .pure trivial)
  · exact .fail _

theorem body_yields : Yields body Statement.WellNamed := by
  refine .look fun l => ?_
  split
  · exact .bind select_yields fun s named => .pure named
  · exact .after (fun _ => insert_phrase trivial) fun s => .pure trivial
  · exact .after (fun _ => update_phrase trivial) fun s => .pure trivial
  · exact .after (fun _ => delete_phrase trivial) fun s => .pure trivial
  · exact create_yields
  · exact .after (fun _ => dropTable_phrase trivial) fun s => .pure trivial
  · refine .expect (.accept fun tables => ?_)
    split
    · exact .pure trivial
    · exact .fail _
  · exact .pass (.bind .identifier fun table _ => .pure trivial)
  · exact .pass (.bind .identifier fun table _ => .pure trivial)
  · exact .fail _

theorem statement_yields : Yields statement Statement.WellNamed := by
  refine .bind body_yields fun s named => .accept fun _ => .look fun l => ?_
  split
  · exact .pure named
  · exact .fail _

end Grammar

theorem Spelled.isName {front rest : List Char} {name : String}
    (h : Spelled front (.identifier name) rest) : IsName name := by
  generalize is : Lexeme.identifier name = l at h
  cases h with
  | word start parts _ =>
    unfold wordLexeme at is
    split at is
    · cases is
    · next unreserved =>
      cases is
      refine ⟨?_, unreserved⟩
      rw [String.toList_ofList, isWord, start, parts]
      rfl
  | _ => cases is

theorem Cuts.wellNamed {n : Nat} {cs : List Char} {ts : List Token} (h : Cuts n cs ts) :
    WellNamed ts := by
  induction h with
  | finish passes => exact ⟨rfl, by simp⟩
  | @token n gap c more rest l ts passes reads _ ih =>
    refine ⟨ih.ended.append [l], List.forall_mem_cons.mpr ⟨?_, ih.names⟩⟩
    rintro name rfl
    exact (reads.spelled passes).isName

variable {sql : String}

theorem tokens_wellNamed {ts : List Token} (h : tokens sql = .ok ts) : WellNamed ts := by
  have cuts : Cuts 0 sql.toList ts := cuts_of_tokensFrom h (Nat.lt_succ_self _)
  exact cuts.wellNamed

/-- In what a text spells, everything is named as it may be written. -/
theorem Statement.wellNamed_ofText {s : Statement} (spelled : Statement.ofText sql = .ok s) :
    s.WellNamed := by
  unfold Statement.ofText at spelled
  split at spelled
  · next ts cut =>
    obtain ⟨⟨s, left⟩, read, rfl⟩ := Success.map_eq_ok.mp spelled
    exact (Grammar.statement_yields ts s left (tokens_wellNamed cut) read).1
  · cases spelled

def AggregateCall.IsWritten (c : AggregateCall) : Prop :=
  ∃ sql ts left, tokens sql = .ok ts ∧
    Grammar.aggregateNext? ts = .ok (some c.function, ts) ∧
    Grammar.aggregateCall c.function ts = .ok (c, left)

theorem AggregateCall.isWritten_iff {c : AggregateCall} : c.IsWritten ↔ c.WellFormed := by
  constructor
  · rintro ⟨sql, ts, left, cut, -, read⟩
    exact (Grammar.aggregateCall_yields c.function ts c left (tokens_wellNamed cut) read).1
  · intro known
    have alone := spells_call known [] [.finish] (by simp [Parted]) .nil
    rw [List.append_nil] at alone
    obtain ⟨ts, cut, lexemes⟩ := tokens_of_lexed alone
    obtain ⟨left, read, -⟩ := aggregateCall_reads known (List.cons_ne_nil _ _) ts lexemes
    refine ⟨c.text, ts, left, cut, ?_, read⟩
    rw [Grammar.aggregateNext?_apply (Reader.current_lexeme lexemes), Reader.next_lexeme lexemes,
      Grammar.callNext?, c.function.named?_name]

end SqlEngine.Dialect
