import SqlEngine.Dialect.Grammar
import SqlEngine.Proofs.Dialect.Composition

/-! The verdicts of the readers for literals, columns, calls and tests. -/

namespace SqlEngine.Dialect

namespace Reader

variable {α β : Type} {n : Nat} {K N : Lexeme → Prop}

theorem refuses_end {m : Reader α} (known : K .finish)
    (never : ∀ x, m [⟨.finish, 0, 0⟩] ≠ .ok x) : Refuses m K :=
  ⟨[⟨.finish, 0, 0⟩], ⟨Ended.singleton, .finish, rfl, known⟩, never⟩

end Reader

namespace Grammar

open Reader

variable {n : Nat} {K N : Lexeme → Prop}

abbrev Closing (l : Lexeme) : Prop :=
  l ∈ [.symbol .closeParen, .symbol .semicolon, .symbol .equal, .keyword .FROM, .keyword .ON,
    .keyword .VALUES, .finish]

theorem Closing.ne {l l' : Lexeme} (known : Closing l) (apart : ¬Closing l') : l ≠ l' := by
  rintro rfl
  exact apart known

def literalBehind (negative : Bool) : Reader Value := do
  match negative, ← look with
  | _, .number digits => pass; return numberValue negative digits.toList
  | false, .string body => pass; return .text body
  | false, .keyword .TRUE => pass; return .boolean true
  | false, .keyword .FALSE => pass; return .boolean false
  | false, .keyword .NULL => pass; return .null
  | _, _ => fail .literal

theorem literal_eq : literal = (do
    if ← acceptSign .minus then literalBehind true
    else if ← acceptSign .plus then literalBehind false
    else literalBehind false) := by
  unfold literal
  congr
  funext negative
  cases negative with
  | true => rfl
  | false =>
    show (acceptSign .plus >>= fun _ => literalBehind false) = _
    congr
    funext plus
    cases plus <;> rfl

theorem literalBehind_phrase (negative : Bool) (known : N (.number "0")) :
    Phrase n (literalBehind negative) Any N := by
  refine .look none (fun l => ?_) (fun _ absurd => by cases absurd)
    (.look (l := .number "0") rfl known (.pure (fun _ _ => trivial) _))
  split
  case h_6 => exact .fails (by simp [IsLate])
  all_goals exact .passes (by simp) (.value _)

theorem literal_phrase (known : N (.number "0")) : Phrase n literal Any N := by
  rw [literal_eq]
  refine .choice (by decide) (literalBehind_phrase true trivial) ?_ fun _ => ?_
  · refine .choice (by decide) (literalBehind_phrase false trivial)
      (literalBehind_phrase false ⟨by decide, by decide, known⟩) fun _ => ?_
    exact refuses_end trivial fun _ answered => by cases answered
  · exact refuses_end trivial fun _ answered => by cases answered

def columnBehind (first : String) : Reader ColumnName := do
  if ← acceptSign .dot then return ⟨some first, ← identifier⟩ else return .bare first

theorem columnName_eq : columnName = identifier >>= columnBehind := rfl

theorem columnBehind_phrase (first : String) (le : ∀ l, Closing l → N l) :
    Phrase n (columnBehind first) Closing N :=
  .choice (by decide) (.andThen (.identifier trivial) fun _ => .value _)
    (.pure (fun l known => ⟨known.ne (by decide), le l known⟩) _) fun known => absurd known (by decide)

theorem columnName_phrase (known : N (.identifier "x")) : Phrase n columnName Closing N :=
  .andThen (.identifier known) fun first => columnBehind_phrase first fun _ _ => trivial

theorem callArgument_phrase (function : Aggregate) (distinct : Bool) (known : N (.identifier "x")) :
    Phrase n (callArgument function distinct) Closing N := by
  have column : Phrase n (columnName >>= fun name => (Pure.pure (some name) : Reader _)) Closing
      fun l => l ≠ .symbol .star ∧ N l :=
    .bind (columnName_phrase ⟨by decide, known⟩) fun _ => .answer _
  unfold callArgument
  by_cases plain : function ≠ .count || distinct
  · simp only [plain, if_true]
    exact .refused (by decide) (.inr rfl) column fun known => absurd known (by decide)
  · simp only [plain]
    exact .choice (by decide) (.value none) column
      fun known => absurd known (by decide)

def callBehind (function : Aggregate) : Reader AggregateCall := do
  expectSign .openParen
  let distinct ← acceptWord .DISTINCT
  let argument ← callArgument function distinct
  expectSign .closeParen
  return ⟨function, argument, distinct⟩

theorem aggregateCall_eq (function : Aggregate) :
    aggregateCall function = identifier >>= fun _ => callBehind function := rfl

theorem callBehind_phrase (function : Aggregate) (known : N (.symbol .openParen)) :
    Phrase n (callBehind function) Any N := by
  have argument {n : Nat} {N : Lexeme → Prop} (distinct : Bool) (known : N (.identifier "x")) :
      Phrase n (callArgument function distinct >>= fun argument =>
        expectSign .closeParen >>= fun _ => Pure.pure (⟨function, argument, distinct⟩ :
          AggregateCall)) Any N :=
    .closed (by decide) (callArgument_phrase function distinct known) (by decide)
      fun _ => .value _
  refine .andThen (.expect (by decide) known) fun _ => .accept (by decide) (argument true trivial)
    (argument false ⟨by decide, trivial⟩) fun _ => ?_
  exact refuses_end trivial fun _ answered => by cases function <;> cases answered

theorem identifier_apply {ts : List Token} {word : String}
    (here : (current ts).lexeme = .identifier word) : identifier ts = .ok (word, passed ts) := by
  rw [identifier, look_bind, here]
  rfl

theorem identifier_fails {ts : List Token}
    (other : ∀ word, (current ts).lexeme ≠ .identifier word) :
    identifier ts = Reader.fail .identifier ts := by
  rw [identifier, look_bind]
  cases here : (current ts).lexeme with
  | identifier word => exact absurd here (other word)
  | _ => rfl

section

variable {α : Type} (call : Aggregate → Reader α) (other : String → Reader α)

def callNext? (word : String) : Lexeme → Option Aggregate
  | .symbol .openParen => Aggregate.named? word
  | _ => none

def callTurn (word : String) (l : Lexeme) : Reader α :=
  match callNext? word l with
  | some function => call function
  | none => other word

def callOr : Reader α := do callTurn call other (← identifier) (← look)

theorem callNext?_of_ne {word : String} {l : Lexeme} (apart : l ≠ .symbol .openParen) :
    callNext? word l = none := by
  unfold callNext?
  split
  · exact absurd rfl apart
  · rfl

theorem callTurn_of_ne {word : String} {l : Lexeme} (apart : l ≠ .symbol .openParen) :
    callTurn call other word l = other word := by
  rw [callTurn, callNext?_of_ne apart]

theorem next_eq (ts : List Token) : next ts = current (passed ts) := by
  rcases ts with _ | ⟨t, _ | ⟨t', ts⟩⟩ <;> rfl

theorem aggregateNext?_apply {ts : List Token} {word : String}
    (here : (current ts).lexeme = .identifier word) :
    aggregateNext? ts = .ok (callNext? word (next ts).lexeme, ts) := by
  rcases ts with _ | ⟨⟨l, start, stop⟩, _ | ⟨⟨l', start', stop'⟩, rest⟩⟩
  · cases here
  · obtain rfl : l = .identifier word := here
    rfl
  · obtain rfl : l = .identifier word := here
    cases l' with
    | symbol s => cases s <;> rfl
    | _ => rfl

theorem aggregateNext?_none {ts : List Token}
    (other : ∀ word, (current ts).lexeme ≠ .identifier word) :
    aggregateNext? ts = .ok (none, ts) := by
  rcases ts with _ | ⟨⟨l, start, stop⟩, rest⟩
  · rfl
  · cases l with
    | identifier word => exact absurd rfl (other word)
    | _ => rfl

theorem aggregateNext?_eq {m : Option Aggregate → Reader α}
    (isCall : ∀ f, m (some f) = identifier >>= fun _ => call f)
    (isOther : m none = identifier >>= other) : aggregateNext? >>= m = callOr call other := by
  funext ts
  by_cases isWord : ∃ word, (current ts).lexeme = .identifier word
  · obtain ⟨word, here⟩ := isWord
    have turned : callOr call other ts =
        callTurn call other word (next ts).lexeme (passed ts) := by
      rw [callOr, bind_apply, identifier_apply here, next_eq]
      rfl
    rw [turned, callTurn, bind_apply, aggregateNext?_apply here]
    show m (callNext? word (next ts).lexeme) ts = _
    cases callNext? word (next ts).lexeme with
    | some f =>
      rw [isCall, bind_apply, identifier_apply here]
      rfl
    | none =>
      rw [isOther, bind_apply, identifier_apply here]
      rfl
  · have notWord (word : String) : (current ts).lexeme ≠ .identifier word :=
      fun here => isWord ⟨word, here⟩
    rw [bind_apply, aggregateNext?_none notWord]
    show m none ts = _
    rw [isOther, callOr, bind_apply, bind_apply]
    rw [identifier_fails notWord]
    rfl

variable {call other}

theorem callOr_phrase (calls : ∀ f n, Phrase n (call f) Closing Any)
    (refuses : ∀ f, Refuses (call f) Closing)
    (others : ∀ word n, Phrase n (other word) Closing (· ≠ .symbol .openParen))
    (known : N (.identifier "x")) : Phrase n (callOr call other) Closing N := by
  refine .andThen (.identifier known) fun word => .look (some (other word)) (fun l => ?_) ?_ ?_
  · rw [callTurn]
    split
    · exact .enters (calls _ n).judged (refuses _)
    · exact .stays rfl (others word n).judged
  · rintro g ⟨⟩ l known
    exact callTurn_of_ne call other (known.ne (by decide))
  · refine .enter (P := (· ≠ .symbol .openParen)) (fun l => callTurn_of_ne call other) ?_
    exact (others word n).sample.mono (fun _ known => known) fun _ apart => ⟨apart, trivial⟩

end

theorem operand_eq : operand = callOr
    (fun f => callBehind f >>= fun call => Pure.pure (.bare call.text)) columnBehind := by
  refine aggregateNext?_eq _ _ (fun f => ?_) rfl
  show (aggregateCall f >>= _) = _
  rw [aggregateCall_eq, bind_assoc]

theorem operand_phrase (known : N (.identifier "x")) : Phrase n operand Closing N := by
  rw [operand_eq]
  refine callOr_phrase (fun f n => ?_) (fun f => ?_) (fun word n => ?_) known
  · exact .andThen (callBehind_phrase f trivial) fun _ => .value _
  · exact refuses_end (by decide) fun _ answered => by cases answered
  · exact columnBehind_phrase word fun l known => known.ne (by decide)

end Grammar
end SqlEngine.Dialect
