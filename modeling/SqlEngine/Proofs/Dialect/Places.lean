import SqlEngine.Dialect.Grammar
import SqlEngine.Proofs.Dialect.Recognition

/-! The grammar reads lexemes. The places of the tokens come back in the offsets of failures and
nowhere else. -/

namespace SqlEngine

def Failure.unplaced : Failure → Failure
  | parse expected found _ => parse expected found 0
  | e => e

namespace Dialect

namespace Reader

variable {α β : Type}

/-- The same answer, with the same lexemes left, or failures that differ in an offset at most. -/
inductive SameAnswer : Except Failure (α × List Token) → Except Failure (α × List Token) → Prop
  | ok {a : α} {ts us : List Token} (left : ts.map (·.lexeme) = us.map (·.lexeme)) :
      SameAnswer (.ok (a, ts)) (.ok (a, us))
  | error {e f : Failure} (same : e.unplaced = f.unplaced) : SameAnswer (.error e) (.error f)

def Placeless (m : Reader α) : Prop :=
  ∀ ts us : List Token, ts.map (·.lexeme) = us.map (·.lexeme) → SameAnswer (m ts) (m us)

section

variable {ts us : List Token} (same : ts.map (·.lexeme) = us.map (·.lexeme))
include same

theorem same_current : (current ts).lexeme = (current us).lexeme := by
  cases ts <;> cases us <;> simp_all [current]

theorem same_passed : (passed ts).map (·.lexeme) = (passed us).map (·.lexeme) := by
  rcases ts with _ | ⟨t, _ | ⟨t', ts⟩⟩ <;> rcases us with _ | ⟨u, _ | ⟨u', us⟩⟩ <;>
    simp_all [passed]

theorem same_next : (next ts).lexeme = (next us).lexeme := by
  rcases ts with _ | ⟨t, _ | ⟨t', ts⟩⟩ <;> rcases us with _ | ⟨u, _ | ⟨u', us⟩⟩ <;>
    simp_all [next, current]

end

namespace Placeless

theorem pure (a : α) : Placeless (Pure.pure a) := fun _ _ same => .ok same

theorem bind {m : Reader α} {f : α → Reader β} (first : Placeless m)
    (second : ∀ a, Placeless (f a)) : Placeless (m >>= f) := by
  intro ts us same
  have split (ts : List Token) : (m >>= f) ts = m ts >>= fun answer => f answer.1 answer.2 := rfl
  rw [split, split]
  have answered := first ts us same
  generalize m ts = x at answered ⊢
  generalize m us = y at answered ⊢
  cases answered with
  | ok left => exact second _ _ _ left
  | error same => exact .error same

theorem look : Placeless Reader.look := by
  intro ts us same
  rw [Reader.look, Reader.look, same_current same]
  exact .ok same

theorem lookNext : Placeless Reader.lookNext := by
  intro ts us same
  rw [Reader.lookNext, Reader.lookNext, same_next same]
  exact .ok same

theorem pass : Placeless Reader.pass := fun _ _ same => .ok (same_passed same)

theorem fail (e : Expectation) : Placeless (Reader.fail e : Reader α) := by
  intro ts us same
  refine .error ?_
  rw [Failure.unplaced, Failure.unplaced, same_current same]

theorem accept (l : Lexeme) : Placeless (Reader.accept l) := by
  intro ts us same
  rw [Reader.accept, Reader.accept, same_current same]
  split
  · exact .ok (same_passed same)
  · exact .ok same

theorem expect (l : Lexeme) : Placeless (Reader.expect l) := by
  intro ts us same
  rw [Reader.expect, Reader.expect, same_current same]
  split
  · exact .ok (same_passed same)
  · refine .error ?_
    rw [Failure.unplaced, Failure.unplaced]

theorem lift (x : Except Failure α) : Placeless (liftM x : Reader α) := by
  intro ts us same
  have lifted (ts : List Token) : (liftM x : Reader α) ts = x >>= fun a => Pure.pure (a, ts) := rfl
  rw [lifted, lifted]
  cases x with
  | error e => exact .error rfl
  | ok a => exact .ok same

theorem ite {p : Prop} [Decidable p] {m m' : Reader α} (h : Placeless m) (h' : Placeless m') :
    Placeless (if p then m else m') := by
  split
  · exact h
  · exact h'

theorem iterate {step : α → Reader (Option α)} (h : ∀ a, Placeless (step a)) (fuel : Nat) (a : α) :
    Placeless (Reader.iterate step fuel a) := by
  induction fuel generalizing a with
  | zero => exact .pure a
  | succ fuel ih =>
    refine .bind (h a) fun next => ?_
    cases next with
    | none => exact .pure a
    | some b => exact ih b

theorem repeatedly {step : α → Reader (Option α)} (h : ∀ a, Placeless (step a)) (a : α) :
    Placeless (Reader.repeatedly step a) := by
  intro ts us same
  have length : ts.length = us.length := by simpa using congrArg List.length same
  rw [Reader.repeatedly, Reader.repeatedly, length]
  exact iterate h us.length a ts us same

theorem commaSeparated {item : Reader α} (h : Placeless item) :
    Placeless (Reader.commaSeparated item) := by
  refine .bind h fun first => .repeatedly (fun items => ?_) [first]
  refine .bind (.accept _) fun comma => .ite (.bind h fun a => .pure _) (.pure none)

theorem identifier : Placeless Reader.identifier := by
  refine .bind .look fun l => ?_
  split
  · exact .bind .pass fun _ => .pure _
  · exact .fail _

end Placeless
end Reader

namespace Grammar

open Reader

theorem literal_placeless : Placeless literal := by
  refine .bind (.accept _) fun negative => ?_
  have signed {m : Reader Value} (h : Placeless m) :
      Placeless (if !negative then acceptSign .plus >>= fun _ => m else m) :=
    .ite (.bind (.accept _) fun _ => h) h
  refine signed (.bind .look fun l => ?_)
  split
  case h_6 => exact .fail _
  all_goals exact .bind .pass fun _ => .pure _

theorem count_placeless : Placeless count := by
  refine .bind .look fun l => ?_
  split
  · split
    · exact .bind .pass fun _ => .pure _
    · exact .fail _
  · exact .fail _

theorem columnName_placeless : Placeless columnName :=
  .bind .identifier fun _ => .bind (.accept _) fun _ =>
    .ite (.bind .identifier fun _ => .pure _) (.pure _)

theorem aggregateNext?_placeless : Placeless aggregateNext? := by
  refine .bind .look fun l => .bind .lookNext fun l' => ?_
  split
  · exact .pure _
  · exact .pure _

theorem callArgument_placeless (f : Aggregate) (distinct : Bool) :
    Placeless (callArgument f distinct) :=
  .bind (.accept _) fun _ => .ite (.ite (.fail _) (.pure _))
    (.bind columnName_placeless fun _ => .pure _)

theorem aggregateCall_placeless (f : Aggregate) : Placeless (aggregateCall f) :=
  .bind .identifier fun _ => .bind (.expect _) fun _ => .bind (.accept _) fun _ =>
    .bind (callArgument_placeless _ _) fun _ => .bind (.expect _) fun _ => .pure _

theorem operand_placeless : Placeless operand := by
  refine .bind aggregateNext?_placeless fun found => ?_
  split
  · exact .bind (aggregateCall_placeless _) fun _ => .pure _
  · exact columnName_placeless

theorem likePattern_placeless : Placeless likePattern := by
  refine .bind literal_placeless fun v => ?_
  split
  · exact .fail _
  · exact .pure _

theorem comparison_placeless : Placeless comparison := by
  refine .bind .look fun l => ?_
  split
  · split
    · exact .bind .pass fun _ => .pure _
    · exact .fail _
  · exact .fail _

theorem test_placeless : Placeless test := by
  refine .bind .look fun l => ?_
  split
  · exact .bind .pass fun _ => .bind (.accept _) fun _ => .bind (.expect _) fun _ => .pure _
  · exact .bind .pass fun _ => .bind (.expect _) fun _ =>
      .bind likePattern_placeless fun _ => .pure _
  · exact .bind .pass fun _ => .bind likePattern_placeless fun _ => .pure _
  · exact .bind comparison_placeless fun _ => .bind literal_placeless fun _ => .pure _

theorem leftChain_placeless {t : Reader Condition} (h : Placeless t) (k : Keyword)
    (combine : Condition → Condition → Condition) : Placeless (leftChain k combine t) :=
  .bind h fun _ => .repeatedly (fun _ => .bind (.accept _) fun _ =>
    .ite (.bind h fun _ => .pure _) (.pure _)) _

theorem disjunction_placeless {t : Reader Condition} (h : Placeless t) :
    Placeless (disjunction t) :=
  leftChain_placeless (leftChain_placeless h _ _) _ _

theorem term_placeless (depth : Nat) : Placeless (term depth) := by
  induction depth with
  | zero => exact .fail _
  | succ depth ih =>
    refine .bind (.accept _) fun negated => .ite (.bind ih fun _ => .pure _) ?_
    refine .bind (.accept _) fun nested => .ite ?_ ?_
    · exact .bind (disjunction_placeless ih) fun _ => .bind (.expect _) fun _ => .pure _
    · exact .bind operand_placeless fun _ => .bind test_placeless fun _ => .pure _

theorem condition_placeless : Placeless condition := by
  intro ts us same
  have length : ts.length = us.length := by simpa using congrArg List.length same
  rw [condition, condition, length]
  exact disjunction_placeless (term_placeless us.length) ts us same

theorem conditionAfter_placeless (k : Keyword) : Placeless (conditionAfter k) :=
  .bind (.accept _) fun _ => .ite (.bind condition_placeless fun _ => .pure _) (.pure _)

theorem aliasName_placeless : Placeless aliasName := by
  refine .bind (.accept _) fun _ => .ite (.bind .identifier fun _ => .pure _) ?_
  refine .bind .look fun l => ?_
  split
  · exact .bind .identifier fun _ => .pure _
  · exact .pure _

theorem selectItem_placeless : Placeless selectItem := by
  refine .bind aggregateNext?_placeless fun found => ?_
  split
  · exact .bind (aggregateCall_placeless _) fun _ => .bind aliasName_placeless fun _ => .pure _
  · exact .bind columnName_placeless fun _ => .bind aliasName_placeless fun _ => .pure _

theorem selectItems_placeless : Placeless selectItems :=
  .bind (.accept _) fun _ => .ite (.pure _)
    (.bind (.commaSeparated selectItem_placeless) fun _ => .pure _)

theorem tableName_placeless : Placeless tableName :=
  .bind .identifier fun _ => .bind aliasName_placeless fun _ => .pure _

theorem joinKind?_placeless : Placeless joinKind? := by
  refine .bind .look fun l => ?_
  split
  · exact .bind .pass fun _ => .pure _
  · exact .bind .pass fun _ => .bind (.expect _) fun _ => .pure _
  · exact .bind .pass fun _ => .bind (.accept _) fun _ => .bind (.expect _) fun _ => .pure _
  · exact .bind .pass fun _ => .bind (.accept _) fun _ => .bind (.expect _) fun _ => .pure _
  · exact .pure _

theorem join?_placeless : Placeless join? := by
  refine .bind joinKind?_placeless fun kind => ?_
  split
  · exact .pure _
  · exact .bind tableName_placeless fun _ => .bind (.expect _) fun _ =>
      .bind columnName_placeless fun _ => .bind (.expect _) fun _ =>
        .bind columnName_placeless fun _ => .pure _

theorem joins_placeless : Placeless joins :=
  .repeatedly (fun _ => .bind join?_placeless fun _ => .pure _) _

theorem sortKey_placeless : Placeless sortKey :=
  .bind operand_placeless fun _ => .bind (.accept _) fun _ =>
    .ite (.pure _) (.bind (.accept _) fun _ => .pure _)

theorem listAfter_placeless {α : Type} {item : Reader α} (h : Placeless item) (k : Keyword) :
    Placeless (listAfter k item) :=
  .bind (.accept _) fun _ => .ite (.bind (.expect _) fun _ => .commaSeparated h) (.pure _)

theorem countAfter_placeless (k : Keyword) : Placeless (countAfter k) :=
  .bind (.accept _) fun _ => .ite (.bind count_placeless fun _ => .pure _) (.pure _)

theorem select_placeless : Placeless select :=
  .bind (.expect _) fun _ => .bind (.accept _) fun _ => .bind selectItems_placeless fun _ =>
    .bind (.expect _) fun _ => .bind tableName_placeless fun _ => .bind joins_placeless fun _ =>
      .bind (conditionAfter_placeless _) fun _ =>
        .bind (listAfter_placeless columnName_placeless _) fun _ =>
          .bind (conditionAfter_placeless _) fun _ =>
            .bind (listAfter_placeless sortKey_placeless _) fun _ =>
              .bind (countAfter_placeless _) fun _ =>
                .bind (countAfter_placeless _) fun _ => .pure _

theorem inParentheses_placeless {α : Type} {inner : Reader α} (h : Placeless inner) :
    Placeless (inParentheses inner) :=
  .bind (.expect _) fun _ => .bind h fun _ => .bind (.expect _) fun _ => .pure _

theorem nameList?_placeless : Placeless nameList? :=
  .bind (.accept _) fun _ => .ite (.bind (.commaSeparated .identifier) fun _ =>
    .bind (.expect _) fun _ => .pure _) (.pure _)

theorem insert_placeless : Placeless insert :=
  .bind (.expect _) fun _ => .bind (.expect _) fun _ => .bind .identifier fun _ =>
    .bind nameList?_placeless fun _ => .bind (.expect _) fun _ =>
      .bind (.commaSeparated (inParentheses_placeless (.commaSeparated literal_placeless)))
        fun _ => .pure _

theorem assignment_placeless : Placeless assignment :=
  .bind .identifier fun _ => .bind (.expect _) fun _ => .bind literal_placeless fun _ => .pure _

theorem update_placeless : Placeless update :=
  .bind (.expect _) fun _ => .bind .identifier fun _ => .bind (.expect _) fun _ =>
    .bind (.commaSeparated assignment_placeless) fun _ =>
      .bind (conditionAfter_placeless _) fun _ => .pure _

theorem delete_placeless : Placeless delete :=
  .bind (.expect _) fun _ => .bind (.expect _) fun _ => .bind .identifier fun _ =>
    .bind (conditionAfter_placeless _) fun _ => .pure _

theorem columnType_placeless : Placeless columnType := by
  refine .bind .look fun l => ?_
  dsimp only
  split
  · exact .fail _
  · refine .bind .pass fun _ => .bind (.accept _) fun _ => .ite ?_ (.pure _)
    refine .bind count_placeless fun _ => .bind (.accept _) fun _ => ?_
    have closed {α : Type} (a : α) : Placeless (expectSign .closeParen >>= fun _ => pure a) :=
      .bind (.expect _) fun _ => .pure _
    exact .ite (.bind count_placeless fun _ => closed _) (closed _)

theorem constraint?_placeless (c : Column) : Placeless (constraint? c) := by
  refine .bind .look fun l => ?_
  split
  · exact .bind .pass fun _ => .bind (.expect _) fun _ => .pure _
  · exact .bind .pass fun _ => .pure _
  · exact .bind .pass fun _ => .bind (.expect _) fun _ => .pure _
  · exact .bind .pass fun _ => .pure _
  · exact .bind .pass fun _ => .bind literal_placeless fun _ => .pure _
  · exact .ite (.bind .pass fun _ => .pure _) (.pure _)

theorem column_placeless : Placeless column :=
  .bind .identifier fun _ => .bind columnType_placeless fun _ => .repeatedly constraint?_placeless _

theorem tableItem_placeless : Placeless tableItem := by
  refine .bind .look fun l => .bind .lookNext fun l' => ?_
  split
  · exact .bind .pass fun _ => .bind (.expect _) fun _ =>
      .bind (inParentheses_placeless .identifier) fun _ => .pure _
  · exact .bind .pass fun _ => .bind (inParentheses_placeless .identifier) fun _ => .pure _
  · exact .bind column_placeless fun _ => .pure _

theorem ifExists_placeless (negated : Bool) : Placeless (ifExists negated) := by
  have existing {α : Type} (a : α) : Placeless (expectWord .EXISTS >>= fun _ => pure a) :=
    .bind (.expect _) fun _ => .pure _
  exact .bind (.accept _) fun _ =>
    .ite (.ite (.bind (.expect _) fun _ => existing _) (existing _)) (.pure _)

theorem createTable_placeless : Placeless createTable :=
  .bind (.expect _) fun _ => .bind (ifExists_placeless _) fun _ => .bind .identifier fun _ =>
    .bind (.expect _) fun _ => .bind (.commaSeparated tableItem_placeless) fun _ =>
      .bind (.lift _) fun _ => .bind (.expect _) fun _ => .pure _

theorem createIndex_placeless (unique : Bool) : Placeless (createIndex unique) :=
  .bind (.expect _) fun _ => .bind .identifier fun _ => .bind (.expect _) fun _ =>
    .bind .identifier fun _ => .bind (inParentheses_placeless (.commaSeparated .identifier))
      fun _ => .pure _

theorem create_placeless : Placeless create := by
  refine .bind (.expect _) fun _ => .bind .look fun l => ?_
  split
  · exact .bind createTable_placeless fun _ => .pure _
  · exact .bind (createIndex_placeless _) fun _ => .pure _
  · exact .bind .pass fun _ => .bind (createIndex_placeless _) fun _ => .pure _
  · exact .fail _

theorem dropTable_placeless : Placeless dropTable :=
  .bind (.expect _) fun _ => .bind (.expect _) fun _ => .bind (ifExists_placeless _) fun _ =>
    .bind .identifier fun _ => .pure _

theorem showTables_placeless : Placeless showTables :=
  .bind (.expect _) fun _ => .bind (.accept _) fun _ => .ite (.pure _) (.fail _)

theorem body_placeless : Placeless body := by
  refine .bind .look fun l => ?_
  split
  · exact .bind select_placeless fun _ => .pure _
  · exact .bind insert_placeless fun _ => .pure _
  · exact .bind update_placeless fun _ => .pure _
  · exact .bind delete_placeless fun _ => .pure _
  · exact create_placeless
  · exact .bind dropTable_placeless fun _ => .pure _
  · exact showTables_placeless
  · exact .bind .pass fun _ => .bind .identifier fun _ => .pure _
  · exact .bind .pass fun _ => .bind .identifier fun _ => .pure _
  · exact .fail _

theorem statement_placeless : Placeless statement := by
  refine .bind body_placeless fun s => .bind (.accept _) fun _ => .bind .look fun l => ?_
  split
  · exact .pure _
  · exact .fail _

end Grammar

theorem Statement.ofTokens_places {ts us : List Token}
    (same : ts.map (·.lexeme) = us.map (·.lexeme)) :
    (ofTokens ts).mapError Failure.unplaced = (ofTokens us).mapError Failure.unplaced := by
  have answered := Grammar.statement_placeless ts us same
  unfold ofTokens
  generalize Grammar.statement ts = x at answered ⊢
  generalize Grammar.statement us = y at answered ⊢
  cases answered with
  | ok left => rfl
  | error same => exact congrArg Except.error same

end Dialect
end SqlEngine
