import SqlEngine.Proofs.Dialect.Places
import SqlEngine.Proofs.Dialect.Reader

/-! The grammar does not look into the strings of an INSERT. Token lists that differ in one string
are read as statements that differ in one value, the text of that string. -/

namespace SqlEngine.Dialect

namespace Reader

variable {α β : Type} {s : String} {us : String → List Token}

def Ahead (us : String → List Token) : Prop :=
  ∃ ls ls', .finish ∉ ls ∧ ls' ≠ [] ∧ ∀ x, (us x).map (·.lexeme) = ls ++ .string x :: ls'

def Past (us : String → List Token) : Prop := ∀ x y, (us x).map (·.lexeme) = (us y).map (·.lexeme)

theorem Ahead.length (ahead : Ahead us) (x y : String) : (us x).length = (us y).length := by
  obtain ⟨ls, ls', -, -, lexemes⟩ := ahead
  have length (x : String) : (us x).length = ls.length + (ls'.length + 1) := by
    simpa using congrArg List.length (lexemes x)
  rw [length, length]

theorem Past.length (past : Past us) (x y : String) : (us x).length = (us y).length := by
  simpa using congrArg List.length (past x y)

inductive Heads (us : String → List Token) : Prop
  | string (here : ∀ x, (current (us x)).lexeme = .string x) (past : Past fun x => passed (us x))
  | other (l : Lexeme) (named : l ≠ .finish) (here : ∀ x, (current (us x)).lexeme = l)
      (ahead : Ahead fun x => passed (us x))

theorem Ahead.heads (ahead : Ahead us) : Heads us := by
  obtain ⟨ls, ls', unfinished, more, lexemes⟩ := ahead
  cases ls with
  | nil =>
    refine .string (fun x => current_lexeme (lexemes x)) fun x y => ?_
    rw [passed_lexemes (lexemes x) more, passed_lexemes (lexemes y) more]
  | cons l ls =>
    rw [List.mem_cons, not_or] at unfinished
    refine .other l (Ne.symm unfinished.1) (fun x => current_lexeme (lexemes x))
      ⟨ls, ls', unfinished.2, more, fun x => ?_⟩
    exact passed_lexemes (lexemes x) (List.append_ne_nil_of_right_ne_nil _ (List.cons_ne_nil _ _))

/-- If the reader for `s` accepts its tokens, the readers for all strings accept theirs, and `Q`
holds of their answers and of what they leave. -/
def Uniform (s : String) (m : String → Reader α) (us : String → List Token)
    (Q : (String → α) → (String → List Token) → Prop) : Prop :=
  ∀ a left, m s (us s) = .ok (a, left) →
    ∃ f lefts, (∀ x, m x (us x) = .ok (f x, lefts x)) ∧ Q f lefts

def Still (P : (String → List Token) → Prop) (f : String → α) (lefts : String → List Token) :
    Prop :=
  (∃ a, f = fun _ => a) ∧ P lefts

/-- The string is still to come and the answer is the same for all, or it has been read and the
answers have the property. -/
inductive Met (R : (String → α) → Prop) : (String → α) → (String → List Token) → Prop
  | ahead (a : α) {lefts : String → List Token} (ahead : Ahead lefts) : Met R (fun _ => a) lefts
  | past {f : String → α} {lefts : String → List Token} (there : R f) (past : Past lefts) :
      Met R f lefts

def Among (R : (String → α) → Prop) (F : String → List α) : Prop :=
  ∃ before f after, R f ∧ F = fun x => before ++ f x :: after

theorem Still.met {R : (String → α) → Prop} {f : String → α} {lefts : String → List Token}
    (h : Still Ahead f lefts) : Met R f lefts := by
  obtain ⟨⟨a, rfl⟩, ahead⟩ := h
  exact .ahead a ahead

theorem Among.concat {R : (String → α) → Prop} {F : String → List α} (h : Among R F) (a : α) :
    Among R fun x => F x ++ [a] := by
  obtain ⟨before, f, after, there, rfl⟩ := h
  exact ⟨before, f, after ++ [a], there, funext fun x => by simp⟩

namespace Uniform

variable {m : String → Reader α} {g : String → α → Reader β}
  {Q : (String → α) → (String → List Token) → Prop}
  {Q' : (String → β) → (String → List Token) → Prop}

theorem pure {f : String → α} (h : Q f us) : Uniform s (fun x => Pure.pure (f x)) us Q :=
  fun _ _ _ => ⟨f, us, fun _ => rfl, h⟩

theorem mono (h : Uniform s m us Q) {P : (String → α) → (String → List Token) → Prop}
    (imp : ∀ f lefts, Q f lefts → P f lefts) : Uniform s m us P := by
  intro a left answered
  obtain ⟨f, lefts, each, holds⟩ := h a left answered
  exact ⟨f, lefts, each, imp f lefts holds⟩

theorem fail (e : String → Expectation) : Uniform s (fun x => Reader.fail (e x)) us Q :=
  fun _ _ answered => by cases answered

theorem bind (first : Uniform s m us Q)
    (second : ∀ f lefts, Q f lefts → Uniform s (fun x => g x (f x)) lefts Q') :
    Uniform s (fun x => m x >>= g x) us Q' := by
  intro b left answered
  have split (x : String) : (m x >>= g x) (us x) =
      m x (us x) >>= fun answer => g x answer.1 answer.2 := rfl
  obtain ⟨⟨a, between⟩, first', second'⟩ := Success.bind_eq_ok.mp ((split s).symm.trans answered)
  obtain ⟨f, lefts, each, holds⟩ := first a between first'
  obtain ⟨rfl, rfl⟩ : a = f s ∧ between = lefts s := by simpa [first'] using each s
  obtain ⟨f', lefts', each', holds'⟩ := second f lefts holds b left second'
  refine ⟨f', lefts', fun x => (split x).trans ?_, holds'⟩
  rw [each]
  exact each' x

theorem placeless {m : Reader α} (h : Placeless m) (past : Past us) :
    Uniform s (fun _ => m) us (Still Past) := by
  intro a left answered
  have answered : m (us s) = .ok (a, left) := answered
  have each (x : String) : ∃ other, m (us x) = .ok (a, other) ∧
      left.map (·.lexeme) = other.map (·.lexeme) := by
    have same := h (us s) (us x) (past s x)
    rw [answered] at same
    generalize m (us x) = y at same ⊢
    cases same with
    | ok left => exact ⟨_, rfl, left⟩
  choose lefts accepted same using each
  exact ⟨fun _ => a, lefts, accepted, ⟨a, rfl⟩, fun x y => (same x).symm.trans (same y)⟩

theorem look {g : String → Lexeme → Reader β} {l : String → Lexeme}
    (here : ∀ x, (current (us x)).lexeme = l x) (h : Uniform s (fun x => g x (l x)) us Q') :
    Uniform s (fun x => Reader.look >>= g x) us Q' := by
  have step (x : String) : (Reader.look >>= g x) (us x) = g x (l x) (us x) := by rw [← here x]; rfl
  intro b left answered
  obtain ⟨f, lefts, each, holds⟩ := h b left ((step s).symm.trans answered)
  exact ⟨f, lefts, fun x => (step x).trans (each x), holds⟩

theorem pass : Uniform s (fun _ => Reader.pass) us fun _ lefts => lefts = fun x => passed (us x) :=
  fun _ _ _ => ⟨fun _ => (), _, fun _ => rfl, rfl⟩

section

variable {l : Lexeme} (ahead : Ahead us) (named : ∀ x, l ≠ .string x)
include ahead named

theorem accept : Uniform s (fun _ => Reader.accept l) us (Still Ahead) := by
  intro a left _
  cases ahead.heads with
  | string here _ =>
    refine ⟨fun _ => false, us, fun x => if_neg ?_, ⟨false, rfl⟩, ahead⟩
    rw [here x]
    exact Ne.symm (named x)
  | other l' _ here further =>
    by_cases same : l' = l
    · exact ⟨fun _ => true, _, fun x => if_pos ((here x).trans same), ⟨true, rfl⟩, further⟩
    · refine ⟨fun _ => false, us, fun x => if_neg ?_, ⟨false, rfl⟩, ahead⟩
      rwa [here x]

theorem expect : Uniform s (fun _ => Reader.expect l) us (Still Ahead) := by
  intro a left answered
  have found : (current (us s)).lexeme = l := by
    by_contra other
    have failed := (if_neg other).symm.trans answered
    cases failed
  cases ahead.heads with
  | string here _ => exact absurd (found.symm.trans (here s)) (named s)
  | other l' _ here further =>
    obtain rfl : l' = l := (here s).symm.trans found
    exact ⟨fun _ => (), _, fun x => if_pos (here x), ⟨(), rfl⟩, further⟩

end

theorem identifier (ahead : Ahead us) :
    Uniform s (fun _ => Reader.identifier) us (Still Ahead) := by
  cases ahead.heads with
  | string here _ => exact .look here (.fail _)
  | other l _ here further =>
    refine .look here ?_
    split
    · next name _ => exact .bind .pass fun _ lefts same => .pure ⟨⟨name, rfl⟩, same ▸ further⟩
    · exact .fail _

section

variable {step : α → Reader (Option α)} {R : (String → α) → Prop}
  (later : ∀ F us, R F → Past us → Uniform s (fun x => step (F x)) us fun G lefts =>
    ((G = fun _ => none) ∨ ∃ F', R F' ∧ G = fun x => some (F' x)) ∧ Past lefts)
include later

theorem iterate_past (fuel : Nat) {F : String → α} (there : R F) (past : Past us) :
    Uniform s (fun x => Reader.iterate step fuel (F x)) us fun F lefts => R F ∧ Past lefts := by
  induction fuel generalizing F us with
  | zero => exact .pure ⟨there, past⟩
  | succ fuel ih =>
    refine .bind (later F us there past) ?_
    rintro G lefts ⟨rfl | ⟨F', there', rfl⟩, past'⟩
    · exact .pure ⟨there, past'⟩
    · exact ih there' past'

theorem iterate_ahead (now : ∀ a us, Ahead us → Uniform s (fun _ => step a) us
      (Met fun G => ∃ F, R F ∧ G = fun x => some (F x)))
    (fuel : Nat) (a : α) (ahead : Ahead us) :
    Uniform s (fun _ => Reader.iterate step fuel a) us (Met R) := by
  induction fuel generalizing a us with
  | zero => exact .pure (.ahead a ahead)
  | succ fuel ih =>
    refine .bind (now a us ahead) ?_
    rintro G lefts (⟨next, ahead'⟩ | ⟨⟨F, there, rfl⟩, past⟩)
    · cases next with
      | none => exact .pure (.ahead a ahead')
      | some b => exact ih b ahead'
    · intro b left answered
      obtain ⟨F', lefts', each, there', past'⟩ :=
        iterate_past later fuel there past b left answered
      exact ⟨F', lefts', each, .past there' past'⟩

end

theorem repeatedly {step : α → Reader (Option α)} {F : String → α} {n : Nat}
    (length : ∀ x, (us x).length = n)
    (h : Uniform s (fun x => Reader.iterate step n (F x)) us Q) :
    Uniform s (fun x => Reader.repeatedly step (F x)) us Q := by
  have same (x : String) : Reader.repeatedly step (F x) (us x) =
      Reader.iterate step n (F x) (us x) := by rw [Reader.repeatedly, length x]
  intro a left answered
  obtain ⟨f, lefts, each, holds⟩ := h a left ((same s).symm.trans answered)
  exact ⟨f, lefts, fun x => (same x).trans (each x), holds⟩

theorem commaSeparated {item : Reader α} {R : (String → α) → Prop} (h : Placeless item)
    (reads : ∀ us, Ahead us → Uniform s (fun _ => item) us (Met R)) (ahead : Ahead us) :
    Uniform s (fun _ => Reader.commaSeparated item) us (Met (Among R)) := by
  have later (F : String → List α) (us : String → List Token) (there : Among R F) (past : Past us) :
      Uniform s (fun x => do
          if ← acceptSign .comma then return some (F x ++ [← item]) else return none) us
        fun G lefts => ((G = fun _ => none) ∨ ∃ F', Among R F' ∧ G = fun x => some (F' x)) ∧
          Past lefts := by
    refine .bind (.placeless (.accept _) past) ?_
    rintro _ lefts ⟨⟨comma, rfl⟩, past⟩
    cases comma with
    | false => exact .pure ⟨.inl rfl, past⟩
    | true =>
      refine .bind (.placeless h past) ?_
      rintro _ lefts ⟨⟨a, rfl⟩, past⟩
      exact .pure ⟨.inr ⟨_, there.concat a, rfl⟩, past⟩
  have now (items : List α) (us : String → List Token) (ahead : Ahead us) :
      Uniform s (fun _ => do
          if ← acceptSign .comma then return some (items ++ [← item]) else return none) us
        (Met fun G => ∃ F, Among R F ∧ G = fun x => some (F x)) := by
    refine .bind (.accept ahead nofun) ?_
    rintro _ lefts ⟨⟨comma, rfl⟩, ahead⟩
    cases comma with
    | false => exact .pure (.ahead none ahead)
    | true =>
      refine .bind (reads lefts ahead) ?_
      rintro _ lefts (⟨a, ahead⟩ | ⟨there, past⟩)
      · exact .pure (.ahead _ ahead)
      · exact .pure (.past ⟨_, ⟨items, _, [], there, rfl⟩, rfl⟩ past)
  refine .bind (reads us ahead) ?_
  rintro _ lefts (⟨a, ahead⟩ | ⟨there, past⟩)
  · exact .repeatedly (fun x => ahead.length x s) (iterate_ahead later now _ [a] ahead)
  · refine .repeatedly (fun x => past.length x s) ?_
    intro a left answered
    have first : Among R fun x => [_] := ⟨[], _, [], there, rfl⟩
    obtain ⟨F, lefts', each, there', past'⟩ := iterate_past later _ first past a left answered
    exact ⟨F, lefts', each, .past there' past'⟩

end Uniform
end Reader

namespace Grammar

open Reader

variable {s : String} {us : String → List Token}

theorem literal_uniform (ahead : Ahead us) :
    Uniform s (fun _ => literal) us (Met (· = Value.text)) := by
  refine .bind (.accept ahead nofun) ?_
  rintro _ lefts ⟨⟨negative, rfl⟩, ahead⟩
  have signed {m : Reader Value}
      (h : ∀ us, Ahead us → Uniform s (fun _ => m) us (Met (· = Value.text))) :
      Uniform s (fun _ => if !negative then acceptSign .plus >>= fun _ => m else m) lefts
        (Met (· = Value.text)) := by
    split
    · exact .bind (.accept ahead nofun) fun _ lefts still => h lefts still.2
    · exact h lefts ahead
  refine signed fun us ahead => ?_
  cases ahead.heads with
  | string here past =>
    refine .look here ?_
    cases negative with
    | false => exact .bind .pass fun _ lefts same => .pure (.past rfl (same ▸ past))
    | true => exact .fail _
  | other l _ here further =>
    refine .look here ?_
    split
    case h_6 => exact .fail _
    all_goals exact .bind .pass fun _ lefts same => .pure (.ahead _ (same ▸ further))

theorem inParentheses_uniform {α : Type} {item : Reader α} {R : (String → α) → Prop}
    (reads : ∀ us, Ahead us → Uniform s (fun _ => item) us (Met R)) (ahead : Ahead us) :
    Uniform s (fun _ => inParentheses item) us (Met R) := by
  refine .bind (.expect ahead nofun) fun _ lefts still => .bind (reads lefts still.2) ?_
  rintro f lefts (⟨a, ahead⟩ | ⟨there, past⟩)
  · exact .bind (.expect ahead nofun) fun _ _ still => .pure (.ahead a still.2)
  · exact .bind (.placeless (.expect _) past) fun _ _ still => .pure (.past there still.2)

theorem nameList?_uniform (ahead : Ahead us) :
    Uniform s (fun _ => nameList?) us (Still Ahead) := by
  refine .bind (.accept ahead nofun) ?_
  rintro _ lefts ⟨⟨opened, rfl⟩, ahead⟩
  cases opened with
  | false => exact .pure ⟨⟨none, rfl⟩, ahead⟩
  | true =>
    have names (us : String → List Token) (ahead : Ahead us) :
        Uniform s (fun _ => identifier) us (Met fun _ => False) :=
      (Uniform.identifier ahead).mono fun _ _ still => still.met
    refine .bind (.commaSeparated .identifier names ahead) ?_
    rintro _ lefts (⟨names, ahead⟩ | ⟨⟨_, _, _, absurd, _⟩, _⟩)
    · exact .bind (.expect ahead nofun) fun _ _ still => .pure ⟨⟨some names, rfl⟩, still.2⟩
    · exact absurd.elim

def OneText (F : String → Insert) : Prop :=
  ∃ (i : Insert) (values : String → List (List Value)), Among (Among (· = Value.text)) values ∧
    F = fun x => { i with values := values x }

theorem insert_uniform (ahead : Ahead us) : Uniform s (fun _ => insert) us (Met OneText) := by
  refine .bind (.expect ahead nofun) fun _ lefts still => ?_
  refine .bind (.expect still.2 nofun) fun _ lefts still => ?_
  refine .bind (.identifier still.2) ?_
  rintro _ lefts ⟨⟨table, rfl⟩, ahead⟩
  refine .bind (nameList?_uniform ahead) ?_
  rintro _ lefts ⟨⟨columns, rfl⟩, ahead⟩
  refine .bind (.expect ahead nofun) fun _ lefts still => ?_
  refine .bind (.commaSeparated (inParentheses_placeless (.commaSeparated literal_placeless))
    (fun us ahead => inParentheses_uniform
      (fun us ahead =>
        .commaSeparated literal_placeless (fun us ahead => literal_uniform ahead) ahead)
      ahead) still.2) ?_
  rintro values lefts (⟨values, ahead⟩ | ⟨there, past⟩)
  · exact .pure (.ahead (Insert.mk table columns values) ahead)
  · have inserts : OneText fun x => ⟨table, columns, values x⟩ :=
      ⟨⟨table, columns, []⟩, values, there, rfl⟩
    exact .pure (.past inserts past)

theorem insert_of_body {ts left : List Token} {i : Insert} (h : body ts = .ok (.insert i, left)) :
    (current ts).lexeme = .keyword .INSERT := by
  have step (g : Lexeme → Reader Statement) : (look >>= g) ts = g (current ts).lexeme ts := rfl
  have never {m : Reader Statement} (h : m ts = .ok (.insert i, left))
      (other : Ensures m fun st => ∀ i, st ≠ .insert i) : False := other ts _ left h i rfl
  rw [body, step] at h
  generalize (current ts).lexeme = l at h ⊢
  split at h
  case h_2 => rfl
  case h_5 =>
    refine (never h (.after fun _ => .after fun l => ?_)).elim
    split
    · exact .after fun _ => .pure nofun
    · exact .after fun _ => .pure nofun
    · exact .after fun _ => .after fun _ => .pure nofun
    · exact .fail _
  case h_7 =>
    refine (never h (.after fun _ => .after fun tables => ?_)).elim
    split
    · exact .pure nofun
    · exact .fail _
  case h_8 => exact (never h (.after fun _ => .after fun _ => .pure nofun)).elim
  case h_9 => exact (never h (.after fun _ => .after fun _ => .pure nofun)).elim
  case h_10 => exact (never h (.fail _)).elim
  all_goals exact (never h (.after fun _ => .pure nofun)).elim

theorem body_uniform (ahead : Ahead us) (head : (current (us s)).lexeme = .keyword .INSERT) :
    Uniform s (fun _ => body) us (Met fun F => ∃ G, OneText G ∧ F = fun x => .insert (G x)) := by
  cases ahead.heads with
  | string here _ => cases (here s).symm.trans head
  | other l _ here _ =>
    obtain rfl : l = .keyword .INSERT := (here s).symm.trans head
    refine .look here (.bind (insert_uniform ahead) ?_)
    rintro G lefts (⟨i, ahead⟩ | ⟨there, past⟩)
    · exact .pure (.ahead _ ahead)
    · exact .pure (.past ⟨G, there, rfl⟩ past)

theorem statement_uniform (ahead : Ahead us) (head : (current (us s)).lexeme = .keyword .INSERT) :
    Uniform s (fun _ => statement) us fun F _ => ∃ G, OneText G ∧ F = fun x => .insert (G x) := by
  refine .bind (body_uniform ahead head) ?_
  rintro F lefts (⟨st, ahead⟩ | ⟨there, past⟩)
  · refine .bind (.accept ahead nofun) fun _ lefts still => ?_
    cases still.2.heads with
    | string here _ => exact .look here (.fail _)
    | other l named here _ =>
      refine .look here ?_
      split
      · exact absurd rfl named
      · exact .fail _
  · refine .bind (.placeless (.accept _) past) fun _ lefts still => ?_
    refine .look (fun x => same_current (still.2 x s)) ?_
    split
    · exact .pure there
    · exact .fail _

theorem body_of_statement {ts left : List Token} {st : Statement}
    (h : statement ts = .ok (st, left)) : ∃ between, body ts = .ok (st, between) := by
  obtain ⟨⟨found, between⟩, first, rest⟩ := Success.bind_eq_ok.mp h
  suffices same : found = st from ⟨between, same ▸ first⟩
  refine Ensures.after (Q := fun st => found = st) (fun _ => .after fun l => ?_)
    between st left rest
  split
  · exact .pure rfl
  · exact .fail _

end Grammar

/-- Token lists that differ in one string: if one of them is an INSERT, so are all, and the text
of the string is the only value in which they differ. -/
theorem Statement.ofTokens_ahead {us : String → List Token} (ahead : Reader.Ahead us) {s : String}
    {i : Insert} (h : ofTokens (us s) = .ok (.insert i)) :
    ∃ rows row row' rows', i.values = rows ++ (row ++ .text s :: row') :: rows' ∧ ∀ x,
      ofTokens (us x) = .ok (.insert { i with
        values := rows ++ (row ++ .text x :: row') :: rows' }) := by
  obtain ⟨⟨st, left⟩, read, rfl⟩ := Success.map_eq_ok.mp h
  obtain ⟨between, first⟩ := Grammar.body_of_statement read
  have same := Grammar.statement_uniform ahead (Grammar.insert_of_body first) _ _ read
  obtain ⟨F, lefts, each, G, ⟨i', values, inRows, rfl⟩, rfl⟩ := same
  obtain ⟨rows, f, rows', ⟨row, g, row', rfl, rfl⟩, rfl⟩ := inRows
  obtain ⟨rfl, -⟩ : _ ∧ left = lefts s := by simpa [read] using each s
  exact ⟨rows, row, row', rows', rfl, fun x => congrArg (Except.map Prod.fst) (each x)⟩

end SqlEngine.Dialect
