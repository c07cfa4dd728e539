import SqlEngine.Proofs.Dialect.Clauses
import SqlEngine.Proofs.Dialect.RoundTrip

/-! The verdicts of the readers for definitions, and for whole statements. -/

namespace SqlEngine.Dialect.Grammar

open Reader

variable {n : Nat} {N : Lexeme → Prop} {α : Type}

abbrev Delimits (l : Lexeme) : Prop := l ∈ [.symbol .comma, .symbol .closeParen, .finish]

theorem Delimits.ne {l l' : Lexeme} (known : Delimits l) (apart : ¬Delimits l') : l ≠ l' := by
  rintro rfl
  exact apart known

def typeBehind (type : ColumnType) : Reader ColumnType := do
  if ← acceptSign .openParen then
    let _ ← count
    if ← acceptSign .comma then
      let _ ← count
    expectSign .closeParen
  return type

theorem typeBehind_phrase (type : ColumnType) : Phrase n (typeBehind type) Delimits Delimits := by
  have closing {n : Nat} {N : Lexeme → Prop} (known : N (.symbol .closeParen)) :
      Phrase n (expectSign .closeParen >>= fun _ => (Pure.pure type : Reader _)) Delimits N :=
    .andThen (.expect (by decide) known) fun _ => .value type
  refine .choice (by decide) (.andThen (count_phrase trivial) fun _ => ?_)
    (.pure (fun _ known => ⟨known.ne (by decide), known⟩) type) fun known => absurd known (by decide)
  refine .choice (by decide) (.andThen (count_phrase trivial) fun _ => closing trivial)
    (closing ⟨by decide, trivial⟩) fun _ => ?_
  exact refuses_end (by decide) fun _ answered => by cases answered

def typeNamed? : Lexeme → Option ColumnType
  | .identifier word => ColumnType.named? word
  | _ => none

def typeTurn (l : Lexeme) : Reader ColumnType :=
  match typeNamed? l with
  | none => fail .dataType
  | some type => pass >>= fun _ => typeBehind type

theorem columnType_eq : columnType = look >>= typeTurn := by
  unfold columnType
  congr

theorem columnType_phrase (known : N (.identifier "INTEGER")) :
    Phrase n columnType Delimits N := by
  have behind {n : Nat} (type : ColumnType) : Phrase n (typeBehind type) Delimits Any :=
    (typeBehind_phrase type).any
  rw [columnType_eq]
  refine .look none (fun l => ?_) (fun _ absurd => by cases absurd)
    (.look (l := .identifier "INTEGER") ?_ known (behind (n := 0) .integer).sample)
  · unfold typeTurn
    split
    case h_1 => exact .fails (by simp [IsLate])
    case h_2 type named =>
      refine .passes ?_ (behind type)
      rintro rfl
      cases named
  · rw [typeTurn, typeNamed?, show ColumnType.named? "INTEGER" = some .integer from
      ColumnType.named?_name .integer]

theorem isAutoIncrement_of_delimits : ∀ l, Delimits l → isAutoIncrement l = false := by decide

def constraintTurn (c : Column) (l : Lexeme) : Reader (Option Column) := do
  match l with
  | .keyword .PRIMARY => pass; expectWord .KEY; return some c.asPrimaryKey
  | .keyword .UNIQUE => pass; return some { c with unique := true }
  | .keyword .NOT => pass; expectWord .NULL; return some { c with notNull := true }
  | .keyword .NULL => pass; return some c
  | .keyword .DEFAULT => pass; return some { c with default? := some (← literal) }
  | _ =>
    if isAutoIncrement l then
      pass
      return some { c with autoIncrement := true }
    else return none

theorem constraintTurn_of_delimits (c : Column) (l : Lexeme) (known : Delimits l) :
    constraintTurn c l = Pure.pure none := by
  unfold constraintTurn
  split
  case h_6 => rw [if_neg (Bool.eq_false_iff.mp (isAutoIncrement_of_delimits l known))]
  all_goals exact absurd known (by decide)

theorem constraint?_phrase (c : Column) : Phrase n (constraint? c) Delimits Delimits := by
  refine .optional (fun l => ?_) (constraintTurn_of_delimits c) fun _ known => known
  split
  · exact .passes (by simp) (.andThen (.expect (by decide) trivial) fun _ => .value _)
  · exact .passes (by simp) (.value _)
  · exact .passes (by simp) (.andThen (.expect (by decide) trivial) fun _ => .value _)
  · exact .passes (by simp) (.value _)
  · exact .passes (by simp) (.andThen (literal_phrase trivial) fun _ => .value _)
  · split
    case isTrue automatic =>
      refine .passes ?_ (.value _)
      rintro rfl
      cases automatic
    case isFalse => exact .stays rfl (Phrase.value none).judged

theorem column_phrase (known : N (.identifier "x")) : Phrase n column Delimits N := by
  have stop (c : Column) (rest : List Lexeme) (follows : Follows Delimits rest) :
      Reader.Reads (constraint? c) [] none rest :=
    Follows.reads_look (constraintTurn_of_delimits c) follows
  have shortens : Shortens constraint? := .of_judged
    (fun c ts ended => (constraint?_phrase c).judged ts ended (Nat.le_refl _)) stop (by decide)
  refine .andThen (.identifier known) fun name => .bind (columnType_phrase trivial) fun type => ?_
  exact .repeatedly shortens (fun c => (constraint?_phrase c).judged) stop (fun _ known => known) _

theorem opened {M g : Reader α} {K : Lexeme → Prop} {ts : List Token} {l' : Lexeme}
    (ended : Ended (ts.map (·.lexeme))) (here : (current ts).lexeme = .keyword .UNIQUE)
    (opens : ∀ us, (current us).lexeme = .keyword .UNIQUE → (next us).lexeme = l' →
      M us = g (passed us))
    (fails : ∀ us, (current us).lexeme = .keyword .UNIQUE → (next us).lexeme ≠ l' →
      M us = Reader.fail .identifier us)
    (refuses : ∀ us, (current us).lexeme ≠ l' → ∀ x, g us ≠ .ok x)
    (judged : Judged g K (passed ts)) (sample : Sample g K (· = l')) : Judged M K ts := by
  obtain ⟨split, ended'⟩ := Ended.passed ended (by rw [here]; decide)
  by_cases isOpen : (next ts).lexeme = l'
  · refine .guarded (P := (· = .keyword .UNIQUE)) (g := pass >>= fun _ => g) (fun us same x => ?_)
      (fun e failed => (opens ts here isOpen).symm.trans failed) here (fun a idle => ?_)
      (.cons (by decide) ended (fun us _ => rfl) here judged
        (sample.mono (fun _ known => known) fun _ _ => trivial))
    · by_cases isOpen' : (next us).lexeme = l'
      · rw [opens us same isOpen']
        rfl
      · rw [fails us same isOpen']
        rw [next_eq] at isOpen'
        refine ⟨fun answered => ?_, fun answered => absurd answered (refuses _ isOpen' x)⟩
        cases answered
    · obtain ⟨read, longer, -⟩ := judged.accepts a ts idle
      have lengths := congrArg List.length longer
      have shorter := congrArg List.length split
      rw [List.length_append] at lengths
      rw [List.length_cons] at shorter
      omega
  · obtain ⟨t, rest, isRest⟩ := Ended.exists_cons ended'
    have behind : (next ts).lexeme = t.lexeme := by rw [next_eq, isRest]; rfl
    constructor
    · intro a left answered
      cases (fails ts here isOpen).symm.trans answered
    · intro e found offset failed
      cases (fails ts here isOpen).symm.trans failed
      refine ⟨[current ts], t, rest, by rw [← isRest]; exact split,
        .before (List.nil_append _).symm here,
        fun us _ begins a left answered => ?_, fun _ => ?_⟩
      · obtain ⟨more, lexemes⟩ := begins
        have same : (current us).lexeme = .keyword .UNIQUE :=
          (current_lexeme lexemes.symm).trans here
        have after : (next us).lexeme = t.lexeme := next_lexeme lexemes.symm
        rw [fails us same (by rw [after, ← behind]; exact isOpen)] at answered
        cases answered
      · obtain ⟨ls, a, others⟩ := sample
        refine ⟨ls, a, fun rest follows some us lexemes => ?_⟩
        obtain ⟨reads, starts⟩ := others rest follows
        obtain ⟨_, isHead, rfl⟩ := starts.head
        obtain ⟨tail, split'⟩ := List.head?_eq_some_iff.mp isHead
        rw [List.map_singleton, here, List.singleton_append, List.cons_append] at lexemes
        rw [opens us (current_lexeme lexemes) (next_lexeme (lexemes.trans (by rw [split'])))]
        exact reads some _ (passed_lexemes lexemes starts.ended.ne_nil)

def columnItem : Reader TableItem := do return .column (← column)

def namedItem (item : String → TableItem) : Reader TableItem := do
  return item (← inParentheses identifier)

theorem namedItem_phrase (item : String → TableItem) (known : N (.symbol .openParen)) :
    Phrase n (namedItem item) Any N := by
  have name : Phrase n identifier Closing Any := .within (.identifier trivial)
  exact .andThen (inParentheses_phrase name known) fun _ => .value _

def plainItem : Reader TableItem := do
  if ← acceptWord .PRIMARY then
    expectWord .KEY
    namedItem .primaryKey
  else columnItem

theorem plainItem_phrase (known : N (.identifier "x")) : Phrase n plainItem Delimits N := by
  refine .choice (by decide) (.andThen (.expect (by decide) trivial) fun _ =>
    .within (namedItem_phrase _ trivial)) ?_ fun known => absurd known (by decide)
  exact .bind (column_phrase ⟨by decide, known⟩) fun _ => .answer _

def tableTurn (l l' : Lexeme) : Reader TableItem :=
  match l, l' with
  | .keyword .PRIMARY, _ => pass >>= fun _ => expectWord .KEY >>= fun _ => namedItem .primaryKey
  | .keyword .UNIQUE, .symbol .openParen => pass >>= fun _ => namedItem .unique
  | _, _ => columnItem

theorem tableItem_apply (ts : List Token) :
    tableItem ts = tableTurn (current ts).lexeme (next ts).lexeme ts := rfl

theorem tableTurn_of_ne {l l' : Lexeme} (notKey : l ≠ .keyword .PRIMARY)
    (notOpen : l = .keyword .UNIQUE → l' ≠ .symbol .openParen) : tableTurn l l' = columnItem := by
  unfold tableTurn
  split
  case h_1 => exact absurd rfl notKey
  case h_2 => exact absurd rfl (notOpen rfl)
  case h_3 => rfl

theorem tableItem_plain (ts : List Token) (other : (current ts).lexeme ≠ .keyword .UNIQUE) :
    tableItem ts = plainItem ts := by
  rw [tableItem_apply]
  by_cases here : (current ts).lexeme = .keyword .PRIMARY
  · rw [plainItem, acceptWord, accept_bind_of_eq here, here]
    rfl
  · rw [plainItem, acceptWord, accept_bind_of_ne here,
      tableTurn_of_ne here fun unique => absurd unique other]
    rfl

theorem tableItem_opens (ts : List Token) (here : (current ts).lexeme = .keyword .UNIQUE)
    (isOpen : (next ts).lexeme = .symbol .openParen) :
    tableItem ts = namedItem .unique (passed ts) := by
  rw [tableItem_apply, here, isOpen]
  rfl

theorem tableItem_fails (ts : List Token) (here : (current ts).lexeme = .keyword .UNIQUE)
    (other : (next ts).lexeme ≠ .symbol .openParen) : tableItem ts = Reader.fail .identifier ts := by
  have failed : identifier ts = Reader.fail .identifier ts :=
    identifier_fails fun word same => by cases here.symm.trans same
  rw [tableItem_apply, tableTurn_of_ne (by rw [here]; decide) fun _ => other, columnItem, column,
    bind_assoc, bind_apply, failed]
  rfl

theorem tableItem_phrase (known : N (.identifier "x")) : Phrase n tableItem Delimits N := by
  refine ⟨fun ts ended length => ?_, .guarded (P := (· ≠ .keyword .UNIQUE)) tableItem_plain
    (plainItem_phrase (n := 0) ⟨by decide, known⟩).sample⟩
  by_cases here : (current ts).lexeme = .keyword .UNIQUE
  · refine opened ended here tableItem_opens tableItem_fails (fun us other x answered => ?_)
      (.mono ((namedItem_phrase .unique (N := Any) trivial).judged _ ?_ (Nat.le_refl _))
        fun _ _ => trivial)
      ((namedItem_phrase (n := 0) .unique rfl).sample.mono (fun _ _ => trivial) fun _ known => known.symm)
    · rw [namedItem, inParentheses, bind_assoc, bind_apply, expectSign, expect, if_neg other]
        at answered
      cases answered
    · exact (Ended.passed ended (by rw [here]; decide)).2
  · refine .guarded (P := (· ≠ .keyword .UNIQUE)) (g := plainItem)
      (fun us other x => by rw [tableItem_plain us other])
      (fun e failed => (tableItem_plain ts here).symm.trans failed) here (fun _ _ l known => ?_)
      ((plainItem_phrase (N := Any) trivial).judged ts ended length)
    exact known.ne (by decide)

end SqlEngine.Dialect.Grammar
