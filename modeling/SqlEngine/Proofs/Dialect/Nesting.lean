import SqlEngine.Proofs.Dialect.Operands

/-! The verdicts of the readers for tests and conditions. On lists that end, the bound on the nesting
is never reached, so that conditions are read by a reader that calls itself for what they contain. -/

namespace SqlEngine.Dialect

namespace Reader

variable {α β : Type}

def Agree (k : Nat) (m m' : Reader α) : Prop :=
  ∀ ts : List Token, Ended (ts.map (·.lexeme)) → ts.length ≤ k → m ts = m' ts ∧
    ∀ a left, m ts = .ok (a, left) → Ended (left.map (·.lexeme)) ∧ left.length ≤ ts.length

namespace Agree

variable {k : Nat} {m m' : Reader α} {f f' : α → Reader β}

theorem of_leaves (leaves : Leaves m) : Agree k m m :=
  fun ts ended _ => ⟨rfl, fun a left => leaves ts a left ended⟩

theorem pure (a : α) : Agree k (Pure.pure a) (Pure.pure a) := by
  refine of_leaves fun ts b left ended answered => ?_
  cases answered
  exact ⟨ended, Nat.le_refl _⟩

theorem bind (first : Agree k m m') (second : ∀ a, Agree k (f a) (f' a)) :
    Agree k (m >>= f) (m' >>= f') := by
  intro ts ended length
  obtain ⟨same, leaves⟩ := first ts ended length
  rw [bind_apply, bind_apply, ← same]
  cases answered : m ts with
  | error failure => exact ⟨rfl, fun _ _ absurd => by cases absurd⟩
  | ok answer =>
    obtain ⟨a, between⟩ := answer
    obtain ⟨ended', shorter⟩ := leaves a between answered
    obtain ⟨same', leaves'⟩ := second a between ended' (Nat.le_trans shorter length)
    refine ⟨same', fun b left answered' => ?_⟩
    obtain ⟨ended'', shorter'⟩ := leaves' b left answered'
    exact ⟨ended'', Nat.le_trans shorter' shorter⟩

theorem choice {l : Lexeme} {x x' y y' : Reader β} (unfinished : l ≠ .finish)
    (yes : Agree (k - 1) x x') (no : Agree k y y') :
    Agree k (accept l >>= fun found => if found = true then x else y)
      (accept l >>= fun found => if found = true then x' else y') := by
  intro ts ended length
  by_cases here : (current ts).lexeme = l
  · have taken (x y : Reader β) :
        (accept l >>= fun found => if found = true then x else y) ts = x (passed ts) := by
      rw [bind_apply, accept, if_pos here]
      rfl
    obtain ⟨split, ended'⟩ := Ended.passed ended (here ▸ unfinished)
    obtain ⟨same, leaves⟩ := yes _ ended' (length_passed ended (here ▸ unfinished) length)
    rw [taken, taken]
    refine ⟨same, fun b left answered => ?_⟩
    obtain ⟨ended'', shorter⟩ := leaves b left answered
    refine ⟨ended'', ?_⟩
    rw [split, List.length_cons]
    omega
  · have declined (x y : Reader β) :
        (accept l >>= fun found => if found = true then x else y) ts = y ts := by
      rw [bind_apply, accept, if_neg here]
      rfl
    rw [declined, declined]
    exact no ts ended length

theorem iterate {step step' : α → Reader (Option α)} (each : ∀ a, Agree k (step a) (step' a))
    (fuel : Nat) (a : α) : Agree k (Reader.iterate step fuel a) (Reader.iterate step' fuel a) := by
  induction fuel generalizing a with
  | zero => exact .pure a
  | succ fuel ih =>
    refine .bind (each a) fun next => ?_
    cases next with
    | none => exact .pure a
    | some b => exact ih b

theorem repeatedly {step step' : α → Reader (Option α)} (each : ∀ a, Agree k (step a) (step' a))
    (a : α) : Agree k (Reader.repeatedly step a) (Reader.repeatedly step' a) :=
  fun ts ended length => iterate each ts.length a ts ended length

theorem shorter (h : Agree k m m') {j : Nat} (le : j ≤ k) : Agree j m m' :=
  fun ts ended length => h ts ended (Nat.le_trans length le)

theorem leaves (h : ∀ k, Agree k m m) : Leaves m :=
  fun ts a left ended => (h ts.length ts ended (Nat.le_refl _)).2 a left

end Agree
end Reader

namespace Grammar

open Reader

variable {n : Nat} {N : Lexeme → Prop}

def patternOf (v : Value) : Reader String :=
  match v with
  | .null => fail .likePattern
  | v => return v.display

theorem patternOf_of_ne {v : Value} (known : v ≠ .null) : patternOf v = Pure.pure v.display := by
  cases v with
  | null => exact absurd rfl known
  | _ => rfl

theorem numberValue_ne_null (negative : Bool) (digits : List Char) :
    numberValue negative digits ≠ .null := by
  unfold numberValue
  split
  · simp
  · simp only
    split <;> simp

theorem likePattern_eq : likePattern = (do
    if ← acceptSign .minus then literalBehind true >>= patternOf
    else if ← acceptSign .plus then literalBehind false >>= patternOf
    else literalBehind false >>= patternOf) := by
  have split : likePattern = literal >>= patternOf := by
    unfold likePattern
    congr
  rw [split, literal_eq, bind_assoc]
  congr
  funext negative
  cases negative with
  | true => rfl
  | false =>
    show (acceptSign .plus >>= _) >>= patternOf = _
    rw [bind_assoc]
    congr
    funext plus
    cases plus <;> rfl

theorem patternBehind_phrase (negative : Bool) (known : N (.number "0")) :
    Phrase n (literalBehind negative >>= patternOf) Any N := by
  have number (digits : List Char) : (pass >>= fun _ => Pure.pure (numberValue negative digits)) >>=
      patternOf = pass >>= fun _ => Pure.pure (numberValue negative digits).display := by
    rw [bind_assoc]
    simp only [pure_bind, patternOf_of_ne (numberValue_ne_null _ _)]
  rw [literalBehind, bind_assoc]
  refine .look none (fun l => ?_) (fun _ absurd => by cases absurd) ?_
  · split
    · rw [number]
      exact .passes (by simp) (.value _)
    · exact .passes (by simp) (.value _)
    · exact .passes (by simp) (.value _)
    · exact .passes (by simp) (.value _)
    · exact .refuses (.inl rfl) (by simp)
    · exact .fails (by simp [IsLate])
  · exact .look (l := .number "0") (number _) known (.pure (fun _ _ => trivial) _)

theorem likePattern_phrase (known : N (.number "0")) : Phrase n likePattern Any N := by
  rw [likePattern_eq]
  refine .choice (by decide) (patternBehind_phrase true trivial) ?_ fun _ => ?_
  · refine .choice (by decide) (patternBehind_phrase false trivial)
      (patternBehind_phrase false ⟨by decide, by decide, known⟩) fun _ => ?_
    exact refuses_end trivial fun _ answered => by cases answered
  · exact refuses_end trivial fun _ answered => by cases answered

theorem comparison_phrase (known : N (.symbol .equal)) : Phrase n comparison Any N := by
  refine .look none (fun l => ?_) (fun _ absurd => by cases absurd)
    (.look (l := .symbol .equal) rfl known (.pure (fun _ _ => trivial) _))
  split
  · split
    · exact .passes (by simp) (.value _)
    · exact .fails (by simp [IsLate])
  · exact .fails (by simp [IsLate])

theorem test_phrase (known : N (.symbol .equal)) : Phrase n test Any N := by
  have compared {N : Lexeme → Prop} (known : N (.symbol .equal)) : Phrase n (comparison >>= fun op =>
      literal >>= fun v => Pure.pure (Test.compare op v)) Any N :=
    .andThen (comparison_phrase known) fun _ =>
      .andThen (literal_phrase trivial) fun _ => .value _
  refine .look none (fun l => ?_) (fun _ absurd => by cases absurd) ?_
  · split
    · refine .passes (by simp) (.accept (by decide) ?_ ?_ fun _ => ?_)
      · exact .andThen (.expect (by decide) trivial) fun _ => .value _
      · exact .andThen (.expect (by decide) ⟨by decide, trivial⟩) fun _ => .value _
      · exact refuses_end trivial fun _ answered => by cases answered
    · refine .passes (by simp) (.andThen (.expect (by decide) trivial) fun _ => ?_)
      exact .andThen (likePattern_phrase trivial) fun _ => .value _
    · refine .passes (by simp) ?_
      exact .andThen (likePattern_phrase trivial) fun _ => .value _
    · exact .enters (compared (N := Any) trivial).judged
        (refuses_end trivial fun _ answered => by cases answered)
  · refine .enter (P := (· = .symbol .equal)) (fun l isEqual => ?_) (compared ⟨rfl, known⟩).sample
    rw [isEqual]

def termWith (inner : Reader Condition) : Reader Condition := do
  if ← acceptWord .NOT then return .negation (← inner)
  else if ← acceptSign .openParen then
    let condition ← disjunction inner
    expectSign .closeParen
    return condition
  else
    let column ← operand
    return .test column.text (← test)

theorem term_succ (depth : Nat) : term (depth + 1) = termWith (term depth) := rfl

section

variable {k : Nat} {inner inner' : Reader Condition}

theorem leftChain_agree (h : Agree k inner inner') (w : Keyword)
    (combine : Condition → Condition → Condition) :
    Agree k (leftChain w combine inner) (leftChain w combine inner') := by
  refine .bind h fun first => .repeatedly (fun left => ?_) first
  exact .choice (by simp) (.bind (h.shorter (Nat.sub_le k 1)) fun _ => .pure _) (.pure none)

theorem disjunction_agree (h : Agree k inner inner') :
    Agree k (disjunction inner) (disjunction inner') :=
  leftChain_agree (leftChain_agree h _ _) _ _

theorem termWith_agree (h : Agree k inner inner') :
    Agree (k + 1) (termWith inner) (termWith inner') := by
  have closing : Leaves (expectSign .closeParen) :=
    .of_phrase fun _ => .expect (by decide) trivial
  refine .choice (by decide) (.bind h fun _ => .pure _) (.choice (by decide) ?_ ?_)
  · exact .bind (disjunction_agree h) fun _ => .bind (.of_leaves closing) fun _ => .pure _
  · refine .bind (.of_leaves (.of_phrase fun _ => operand_phrase trivial)) fun _ => ?_
    exact .bind (.of_leaves (.of_phrase fun _ => test_phrase trivial)) fun _ => .pure _

/-- With a bound on its depth that is as large as the list, a term is what it is with any larger. -/
theorem term_agree (k : Nat) {depth depth' : Nat} (le : k ≤ depth) (le' : k ≤ depth') :
    Agree k (term depth) (term depth') := by
  induction k generalizing depth depth' with
  | zero =>
    intro ts ended length
    obtain ⟨t, rest, rfl⟩ := Ended.exists_cons ended
    cases length
  | succ k ih =>
    obtain ⟨depth, rfl⟩ := Nat.exists_eq_add_one.mpr (Nat.zero_lt_of_lt le)
    obtain ⟨depth', rfl⟩ := Nat.exists_eq_add_one.mpr (Nat.zero_lt_of_lt le')
    rw [term_succ, term_succ]
    exact termWith_agree (ih (Nat.le_of_succ_le_succ le) (Nat.le_of_succ_le_succ le'))

end

def anyTerm : Reader Condition := fun ts => term ts.length ts

theorem term_agree_anyTerm (k : Nat) : Agree k (term k) anyTerm :=
  fun ts ended length => term_agree ts.length length (Nat.le_refl _) ts ended (Nat.le_refl _)

theorem anyTerm_leaves : Leaves anyTerm :=
  fun ts a left ended => (term_agree ts.length (Nat.le_refl _) (Nat.le_refl _) ts ended
    (Nat.le_refl _)).2 a left

theorem anyTerm_eq (ts : List Token) (ended : Ended (ts.map (·.lexeme))) :
    anyTerm ts = termWith anyTerm ts := by
  obtain ⟨t, rest, rfl⟩ := Ended.exists_cons ended
  exact (termWith_agree (term_agree_anyTerm rest.length) _ ended (Nat.le_refl _)).1

theorem condition_eq (ts : List Token) (ended : Ended (ts.map (·.lexeme))) :
    condition ts = disjunction anyTerm ts :=
  (disjunction_agree (term_agree_anyTerm ts.length) ts ended (Nat.le_refl _)).1

theorem disjunction_phrase (h : Phrase n anyTerm Closing N) :
    Phrase n (disjunction anyTerm) Closing N := by
  have leaves : Leaves (leftChain .AND .both anyTerm) :=
    Agree.leaves fun _ => leftChain_agree (.of_leaves anyTerm_leaves) _ _
  exact .separated (l := .keyword .OR) (by decide) leaves
    (.separated (l := .keyword .AND) (by decide) anyTerm_leaves h (by decide)) (by decide)

theorem tested_phrase (known : N (.identifier "x")) : Phrase n (operand >>= fun column =>
    test >>= fun tested => Pure.pure (Condition.test column.text tested)) Closing N :=
  .bind (operand_phrase known) fun _ =>
    .andThen (test_phrase (by decide)) fun _ => .value _

theorem anyTerm_phrase (known : N (.identifier "x")) : Phrase n anyTerm Closing N := by
  refine .of_eq anyTerm_eq ?_
  induction n generalizing N with
  | zero =>
    have tested := tested_phrase (n := 0) (N := fun l => l ≠ .symbol .openParen ∧ l ≠ .keyword .NOT ∧
      N l) ⟨by decide, by decide, known⟩
    exact .zero (.decline (.decline tested.sample))
  | succ n ih =>
    have inner : Phrase n anyTerm Closing Any := .of_eq anyTerm_eq (ih trivial)
    refine .choice (by decide) (.bind inner fun _ => .answer _) ?_ ?_
    · refine .choice (by decide) (.closed (by decide) (disjunction_phrase inner) (by decide)
        fun _ => .value _) (tested_phrase ⟨by decide, by decide, known⟩) ?_
      exact fun known => absurd known (by decide)
    · exact fun known => absurd known (by decide)

theorem condition_phrase (known : N (.identifier "x")) : Phrase n condition Closing N :=
  .of_eq condition_eq (disjunction_phrase (anyTerm_phrase known))

end Grammar
end SqlEngine.Dialect
