import SqlEngine.Proofs.Dialect.Nesting

/-! The verdicts of the readers for queries and for changes of rows. -/

namespace SqlEngine.Dialect.Grammar

open Reader

variable {n : Nat} {N : Lexeme → Prop} {α : Type}

theorem conditionAfter_phrase (k : Keyword) (apart : ¬Closing (.keyword k))
    (le : ∀ l, Closing l → N l) : Phrase n (conditionAfter k) Closing N :=
  .choice (by simp) (.bind (condition_phrase trivial) fun _ => .answer _)
    (.pure (fun l known => ⟨known.ne apart, le l known⟩) none) fun known => absurd known apart

theorem listAfter_phrase {item : Reader α} (k : Keyword) (apart : ¬Closing (.keyword k))
    (phrase : ∀ n, Phrase n item Closing Any) (le : ∀ l, Closing l → N l) :
    Phrase n (listAfter k item) Closing N := by
  refine .choice (by simp) (.andThen (.expect (by simp) trivial) fun _ => ?_)
    (.pure (fun l known => ⟨known.ne apart, le l known⟩) _) fun known => absurd known apart
  exact .commaSeparated (.of_phrase phrase) (phrase _) (by decide)

theorem inParentheses_phrase {inner : Reader α} (phrase : Phrase n inner Closing Any)
    (known : N (.symbol .openParen)) : Phrase n (inParentheses inner) Any N :=
  .andThen (.expect (by decide) known) fun _ =>
    .closed (by decide) phrase (by decide) fun _ => .value _

theorem count_phrase (known : N (.number "0")) : Phrase n count Any N := by
  refine .look none (fun l => ?_) (fun _ absurd => by cases absurd)
    (.look (l := .number "0") rfl known (.pure (fun _ _ => trivial) 0))
  split
  · split
    · exact .passes (by simp) (.value _)
    · exact .fails (by simp [IsLate])
  · exact .fails (by simp [IsLate])

theorem countAfter_phrase (k : Keyword) (apart : ¬Closing (.keyword k))
    (le : ∀ l, Closing l → N l) : Phrase n (countAfter k) Closing N :=
  .choice (by simp) (.andThen (count_phrase trivial) fun _ => .value _)
    (.pure (fun l known => ⟨known.ne apart, le l known⟩) none) fun known => absurd known apart

theorem aliasName_phrase (le : ∀ l, Closing l → N l) : Phrase n aliasName Closing N := by
  have named {n : Nat} {N : Lexeme → Prop} (known : N (.identifier "x")) :
      Phrase n (identifier >>= fun name => (Pure.pure (some name) : Reader _)) Closing N :=
    .andThen (.identifier known) fun _ => .value _
  refine .choice (by decide) (named trivial) ?_ fun known => absurd known (by decide)
  refine .optional (b := none) (fun l => ?_) (fun l known => ?_) fun l known =>
    ⟨known.ne (by decide), le l known⟩
  · split
    · exact .enters (named (N := Any) trivial).judged
        (refuses_end (by decide) fun _ answered => by cases answered)
    · exact .stays rfl (Phrase.value none).judged
  · split
    · exact absurd known (by simp)
    · rfl

theorem selectItem_eq : selectItem = callOr
    (fun f => callBehind f >>= fun call => aliasName >>= fun name =>
      Pure.pure (.aggregate call name))
    (fun word => columnBehind word >>= fun column => aliasName >>= fun name =>
      Pure.pure (.column column name)) := by
  refine aggregateNext?_eq _ _ (fun f => ?_) ?_
  · show (aggregateCall f >>= _) = _
    rw [aggregateCall_eq, bind_assoc]
  · show (columnName >>= _) = _
    rw [columnName_eq, bind_assoc]

theorem selectItem_phrase (known : N (.identifier "x")) : Phrase n selectItem Closing N := by
  have named {n : Nat} (f : Option String → SelectItem) :
      Phrase n (aliasName >>= fun name => Pure.pure (f name)) Closing Closing :=
    .bind (aliasName_phrase fun _ known => known) fun _ => .answer _
  rw [selectItem_eq]
  refine callOr_phrase (fun f n => ?_) (fun f => ?_) (fun word n => ?_) known
  · exact .andThen (callBehind_phrase f trivial) fun call => (named (.aggregate call)).any
  · exact refuses_end (by decide) fun _ answered => by cases answered
  · exact .bind (columnBehind_phrase word fun l known => known.ne (by decide)) fun column =>
      named (.column column)

theorem selectItems_phrase (known : N (.identifier "x")) : Phrase n selectItems Closing N := by
  refine .choice (by decide) (.value none) ?_ fun known => absurd known (by decide)
  refine .bind ?_ fun _ => .answer _
  exact .commaSeparated (.of_phrase fun _ => selectItem_phrase trivial)
    (selectItem_phrase ⟨by decide, known⟩) (by decide)

theorem tableName_phrase (known : N (.identifier "x")) : Phrase n tableName Closing N :=
  .andThen (.identifier known) fun _ =>
    .bind ((aliasName_phrase fun _ known => known).any)
      fun _ => .answer _

abbrev NoJoin (l : Lexeme) : Prop :=
  l ∉ [.keyword .JOIN, .keyword .INNER, .keyword .LEFT, .keyword .RIGHT]

theorem NoJoin.of_closing : ∀ l, Closing l → NoJoin l := by decide

def joinTurn (l : Lexeme) : Reader (Option JoinKind) := do
  match l with
  | .keyword .JOIN => pass; return some .inner
  | .keyword .INNER => pass; expectWord .JOIN; return some .inner
  | .keyword .LEFT => pass; let _ ← acceptWord .OUTER; expectWord .JOIN; return some .left
  | .keyword .RIGHT => pass; let _ ← acceptWord .OUTER; expectWord .JOIN; return some .right
  | _ => return none

theorem joinTurn_of_noJoin (l : Lexeme) (known : NoJoin l) : joinTurn l = Pure.pure none := by
  unfold joinTurn
  split
  case h_5 => rfl
  all_goals exact absurd known (by decide)

theorem joinKind?_phrase : Phrase n joinKind? NoJoin NoJoin := by
  have behind {n : Nat} {N : Lexeme → Prop} (kind : JoinKind) (known : N (.keyword .JOIN)) :
      Phrase n (expectWord .JOIN >>= fun _ => (Pure.pure (some kind) : Reader _)) NoJoin N :=
    .andThen (.expect (by decide) known) fun _ => .value _
  have outer {n : Nat} (kind : JoinKind) : Phrase n (acceptWord .OUTER >>= fun _ =>
      expectWord .JOIN >>= fun _ => (Pure.pure (some kind) : Reader _)) NoJoin Any :=
    .accept (by decide) (behind kind trivial) (behind kind ⟨by decide, trivial⟩) fun _ =>
      refuses_end (by decide) fun _ answered => by cases answered
  refine .optional (fun l => ?_) joinTurn_of_noJoin fun _ known => known
  split
  · exact .passes (by simp) (.value _)
  · exact .passes (by simp) (behind _ trivial)
  · exact .passes (by simp) (outer _)
  · exact .passes (by simp) (outer _)
  · exact .stays rfl (Phrase.value none).judged

theorem join?_phrase : Phrase n join? Closing Any := by
  refine (Phrase.seq joinKind?_phrase (fun kind? => ?_) NoJoin.of_closing).mono
    (fun _ known => known) fun _ _ => trivial
  cases kind? with
  | none => exact .pure NoJoin.of_closing none
  | some kind =>
    refine .closed (by decide) (tableName_phrase (by decide)) (by decide) fun _ => ?_
    refine .closed (by decide) (columnName_phrase trivial) (by decide) fun _ => ?_
    exact .bind (columnName_phrase trivial) fun _ => .answer _

theorem joins_phrase (le : ∀ l, Closing l → N l) : Phrase n joins Closing N := by
  have each (n : Nat) (found : List Join) :
      Phrase n (join? >>= fun j? => Pure.pure (j?.map fun j => found ++ [j])) Closing Any :=
    .bind join?_phrase fun _ => .answer _
  have stop (found : List Join) (rest : List Lexeme) (follows : Follows Closing rest) :
      Reader.Reads (join? >>= fun j? => Pure.pure (j?.map fun j => found ++ [j])) [] none rest := by
    have kind : Reader.Reads joinKind? [] none rest :=
      Follows.reads_look joinTurn_of_noJoin (follows.mono NoJoin.of_closing)
    exact .last (.last kind (.pure none)) (.pure none)
  have judged (found : List Join) (ts : List Token) (ended : Ended (ts.map (·.lexeme))) :=
    (each ts.length found).judged ts ended (Nat.le_refl _)
  exact .repeatedly (.of_judged judged stop (by decide))
    (fun found ts ended _ => judged found ts ended)
    stop le _

theorem sortKey_phrase (known : N (.identifier "x")) : Phrase n sortKey Closing N := by
  refine .bind (operand_phrase known) fun column => ?_
  refine .choice (by decide) (.pure (fun _ _ => trivial) _) ?_ fun known => absurd known (by decide)
  refine .accept (by decide) (.pure (fun _ _ => trivial) _) (.pure (fun l known => ?_) _)
    fun known => absurd known (by decide)
  exact ⟨known.ne (by decide), known.ne (by decide), known⟩

def selectBehind (distinct : Bool) : Reader Select := do
  let items ← selectItems
  expectWord .FROM
  let source ← tableName
  let joined ← joins
  let condition ← conditionAfter .WHERE
  let groupBy ← listAfter .GROUP columnName
  let having ← conditionAfter .HAVING
  let orderBy ← listAfter .ORDER sortKey
  let limit ← countAfter .LIMIT
  let offset ← countAfter .OFFSET
  return ⟨distinct, items, source, joined, condition, groupBy, having, orderBy, limit, offset⟩

theorem select_eq : select = (do
    expectWord .SELECT
    selectBehind (← acceptWord .DISTINCT)) := rfl

theorem selectBehind_phrase (distinct : Bool) (known : N (.identifier "x")) :
    Phrase n (selectBehind distinct) Closing N := by
  have same (l : Lexeme) (known : Closing l) : Closing l := known
  refine .closed (by decide) (selectItems_phrase known) (by decide) fun _ => ?_
  refine .bind (tableName_phrase trivial) fun _ => .bind (joins_phrase same) fun _ => ?_
  refine .bind (conditionAfter_phrase _ (by decide) same) fun _ => ?_
  refine .bind (listAfter_phrase _ (by decide) (fun _ => columnName_phrase trivial) same) fun _ => ?_
  refine .bind (conditionAfter_phrase _ (by decide) same) fun _ => ?_
  refine .bind (listAfter_phrase _ (by decide) (fun _ => sortKey_phrase trivial) same) fun _ => ?_
  exact .bind (countAfter_phrase _ (by decide) same) fun _ =>
    .bind (countAfter_phrase _ (by decide) same) fun _ => .answer _

theorem select_phrase (known : N (.keyword .SELECT)) : Phrase n select Closing N := by
  rw [select_eq]
  exact .andThen (.expect (by decide) known) fun _ =>
    .accept (by decide) (selectBehind_phrase true trivial)
      (selectBehind_phrase false ⟨by decide, trivial⟩) fun known => absurd known (by decide)

theorem nameList?_phrase (le : ∀ l, Closing l → N l) : Phrase n nameList? Closing N := by
  have name {n : Nat} : Phrase n identifier Closing Any := .within (.identifier trivial)
  have names {n : Nat} : Phrase n (commaSeparated identifier) Closing Any :=
    .commaSeparated (.of_phrase fun _ => name) name (by decide)
  exact .choice (by decide) (.closed (by decide) names (by decide) fun _ => .value _)
    (.pure (fun l known => ⟨known.ne (by decide), le l known⟩) none)
    fun known => absurd known (by decide)

theorem insert_phrase (known : N (.keyword .INSERT)) : Phrase n insert Closing N := by
  have value {n : Nat} : Phrase n literal Closing Any := .within (literal_phrase trivial)
  have values {n : Nat} : Phrase n (commaSeparated literal) Closing Any :=
    .commaSeparated (.of_phrase fun _ => value) value (by decide)
  have row {n : Nat} : Phrase n (inParentheses (commaSeparated literal)) Closing Any :=
    .within (inParentheses_phrase values trivial)
  refine .andThen (.expect (by decide) known) fun _ => .andThen (.expect (by decide) trivial) fun _ =>
    .andThen (.identifier trivial) fun _ => ?_
  refine .closed (by decide) (nameList?_phrase fun _ _ => trivial) (by decide) fun _ => ?_
  exact .bind (.commaSeparated (.of_phrase fun _ => row) row (by decide)) fun _ => .answer _

theorem assignment_phrase (known : N (.identifier "x")) : Phrase n assignment Any N :=
  .andThen (.identifier known) fun _ => .andThen (.expect (by decide) trivial) fun _ =>
    .andThen (literal_phrase trivial) fun _ => .value _

theorem update_phrase (known : N (.keyword .UPDATE)) : Phrase n update Closing N := by
  have one {n : Nat} : Phrase n assignment Closing Any := .within (assignment_phrase trivial)
  refine .andThen (.expect (by decide) known) fun _ => .andThen (.identifier trivial) fun _ =>
    .andThen (.expect (by decide) trivial) fun _ => ?_
  exact .bind (.commaSeparated (.of_phrase fun _ => one) one (by decide)) fun _ =>
    .bind (conditionAfter_phrase _ (by decide) fun _ known => known) fun _ => .answer _

theorem delete_phrase (known : N (.keyword .DELETE)) : Phrase n delete Closing N :=
  .andThen (.expect (by decide) known) fun _ => .andThen (.expect (by decide) trivial) fun _ =>
    .andThen (.identifier trivial) fun _ =>
      .bind (conditionAfter_phrase _ (by decide) fun _ _ => trivial) fun _ => .answer _

end SqlEngine.Dialect.Grammar
