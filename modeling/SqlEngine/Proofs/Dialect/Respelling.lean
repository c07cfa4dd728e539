import Mathlib.Logic.Relation
import SqlEngine.Proofs.Dialect.Places
import SqlEngine.Proofs.Dialect.Spans
import SqlEngine.Proofs.Dialect.Splice

/-! Texts that say the same. Blanks or a block comment at the edge of a token and the case of a
keyword change neither the lexemes of a text nor the statement that it is read as. -/

namespace SqlEngine.Dialect

inductive Spacing : List Char → Prop
  | blanks {cs : List Char} (all : ∀ c ∈ cs, Text.isBlank c = true) : Spacing cs
  | comment {body : List Char} (inside : CommentBody body) :
      Spacing ('/' :: '*' :: (body ++ ['*', '/']))

/-- The second text says the same as the first one, except for one place. -/
inductive Respelling (source source' : String) : Prop
  | spaced {before after spacing : String} {ts : List Token} {t : Token}
      (cut : tokens source = .ok ts) (listed : t ∈ ts) (named : t.lexeme ≠ .finish)
      (edge : t.start = before.utf8ByteSize ∨ t.stop = before.utf8ByteSize)
      (spaced : Spacing spacing.toList) (whole : source = before ++ after)
      (whole' : source' = before ++ (spacing ++ after))
  | recased {before word word' after : String} {ts : List Token} {k : Keyword}
      (cut : tokens source = .ok ts)
      (listed : ⟨.keyword k, before.utf8ByteSize, before.utf8ByteSize + word.utf8ByteSize⟩ ∈ ts)
      (same : Text.asciiUpper word' = Text.asciiUpper word)
      (whole : source = before ++ (word ++ after)) (whole' : source' = before ++ (word' ++ after))

namespace Spacing

variable {spacing : List Char}

theorem filling (h : Spacing spacing) : Filling spacing := by
  cases h with
  | blanks all => exact .of_blanks all
  | comment inside => exact .block inside .nil

theorem resembles (h : Spacing spacing) (rest : List Char) : Resembles rest (spacing ++ rest) := by
  cases spacing with
  | nil => exact .refl rest
  | cons c spacing =>
    refine .of_mild rest fun d hd => ?_
    obtain rfl : c = d := Option.some.inj hd
    cases h with
    | blanks all => exact .inl (all c List.mem_cons_self)
    | comment => exact .inr rfl

end Spacing

theorem toUpper_eq {c d : Char} (same : c.toUpper = d.toUpper) :
    c = d ∨ c.isAlpha = true ∧ d.isAlpha = true := by
  have letters : c.isAlpha = d.isAlpha := by
    rw [← Char.isUpper_toUpper_eq_isAlpha, ← Char.isUpper_toUpper_eq_isAlpha, same]
  cases letter : c.isAlpha with
  | true => exact .inr ⟨rfl, letters ▸ letter⟩
  | false =>
    have unchanged {c : Char} (sign : c.isAlpha = false) : c.toUpper = c := by
      rw [Char.isAlpha, Bool.or_eq_false_iff] at sign
      exact Char.toUpper_eq_of_not_isLower (by simp [sign.2])
    rw [unchanged letter, unchanged (letters ▸ letter)] at same
    exact .inl same

theorem isWordStart_of_toUpper {c d : Char} (same : c.toUpper = d.toUpper)
    (start : isWordStart d = true) : isWordStart c = true := by
  rcases toUpper_eq same with rfl | ⟨letter, -⟩
  · exact start
  · rw [isWordStart, letter]
    rfl

theorem isWordPart_of_toUpper {c d : Char} (same : c.toUpper = d.toUpper)
    (part : isWordPart d = true) : isWordPart c = true := by
  rcases toUpper_eq same with rfl | ⟨letter, -⟩
  · exact part
  · rw [isWordPart, Char.isAlphanum, letter]
    rfl

theorem all_isWordPart_of_toUpper {cs ds : List Char}
    (same : cs.map Char.toUpper = ds.map Char.toUpper) (parts : ds.all isWordPart = true) :
    cs.all isWordPart = true := by
  induction cs generalizing ds with
  | nil => rfl
  | cons c cs ih =>
    cases ds with
    | nil => cases same
    | cons d ds =>
      obtain ⟨first, same⟩ := List.cons.inj same
      rw [List.all_cons, Bool.and_eq_true] at parts ⊢
      exact ⟨isWordPart_of_toUpper first parts.1, ih same parts.2⟩

theorem asciiUpper_eq_iff {s t : String} : Text.asciiUpper s = Text.asciiUpper t ↔
    s.toList.map Char.toUpper = t.toList.map Char.toUpper := by
  rw [← String.toList_inj, Text.asciiUpper, Text.asciiUpper, String.toList_map, String.toList_map]

theorem wordLexeme_eq_keyword {word : String} {k : Keyword} :
    wordLexeme word = .keyword k ↔ Keyword.ofWord? word = some k := by
  unfold wordLexeme
  split <;> simp_all

theorem Spelled.recased {word word' rest : List Char} {k : Keyword}
    (h : Spelled word (.keyword k) rest) (same : word'.map Char.toUpper = word.map Char.toUpper) :
    Spelled word' (.keyword k) rest ∧ Resembles (word ++ rest) (word' ++ rest) := by
  generalize lexeme : Lexeme.keyword k = l at h
  cases h with
  | @word c cs _ start parts stop =>
    cases word' with
    | nil => cases same
    | cons c' cs' =>
      obtain ⟨first, others⟩ := List.cons.inj same
      have start' := isWordStart_of_toUpper first start
      have found : Keyword.ofWord? (String.ofList (c' :: cs')) = some k := by
        have upper : Text.asciiUpper (String.ofList (c' :: cs')) =
            Text.asciiUpper (String.ofList (c :: cs)) := by
          rw [asciiUpper_eq_iff, String.toList_ofList, String.toList_ofList, same]
        rw [Keyword.ofWord?, upper]
        exact wordLexeme_eq_keyword.mp lexeme.symm
      refine ⟨?_, fun d hd => .inr ⟨c, rfl, ?_⟩, fun d more point _ => ?_⟩
      · rw [← lexeme, ← wordLexeme_eq_keyword.mpr found]
        exact .word start' (all_isWordPart_of_toUpper others parts) stop
      · obtain rfl : c' = d := Option.some.inj hd
        exact toUpper_eq first
      · obtain rfl : c' = '.' := (List.cons.inj point).1
        cases start'
  | _ => cases lexeme

theorem append_inj_of_bytes {as bs cs ds : List Char} (whole : as ++ bs = cs ++ ds)
    (size : bytes as = bytes cs) : as = cs ∧ bs = ds := by
  induction as generalizing cs with
  | nil =>
    cases cs with
    | nil => exact ⟨rfl, whole⟩
    | cons c cs =>
      have := bytes_pos c cs
      rw [bytes_nil] at size
      omega
  | cons a as ih =>
    cases cs with
    | nil =>
      have := bytes_pos a as
      rw [bytes_nil] at size
      omega
    | cons c cs =>
      obtain ⟨rfl, others⟩ := List.cons.inj whole
      rw [bytes_cons, bytes_cons] at size
      obtain ⟨rfl, rfl⟩ := ih others (by omega)
      exact ⟨rfl, rfl⟩

theorem Respelling.lexed {source source' : String} (h : Respelling source source') :
    ∃ ls, Lexed source.toList ls ∧ Lexed source'.toList ls := by
  cases h with
  | @spaced before after spacing ts t cut listed named edge spaced same same' =>
    subst same same'
    have cuts := cuts_of_tokensFrom cut (Nat.lt_succ_self _)
    obtain ⟨front, token, rest, ls, ls', whole, start, stop, spelled, precedes, behind, same⟩ :=
      cuts.stands listed named
    refine ⟨_, cuts.lexed, ?_⟩
    rw [String.toList_append, String.toList_append, same]
    rw [String.toList_append] at whole
    rw [utf8ByteSize_eq] at edge
    rcases edge with edge | edge
    · obtain ⟨left, right⟩ := append_inj_of_bytes whole (by omega)
      rw [left, right]
      exact precedes _ _ (spaced.resembles _) (.filling spaced.filling (.spelled spelled behind))
    · rw [← List.append_assoc] at whole
      obtain ⟨left, right⟩ := append_inj_of_bytes whole (by rw [bytes_append]; omega)
      rw [left, right, List.append_assoc]
      have like := spaced.resembles rest
      exact precedes _ _ (like.append_left token)
        (.spelled (spelled.mono like) (.filling spaced.filling behind))
  | @recased before word word' after ts k cut listed upper same same' =>
    subst same same'
    have cuts := cuts_of_tokensFrom cut (Nat.lt_succ_self _)
    obtain ⟨front, token, rest, ls, ls', whole, start, stop, spelled, precedes, behind, lexemes⟩ :=
      cuts.stands listed nofun
    refine ⟨_, cuts.lexed, ?_⟩
    simp only [utf8ByteSize_eq, Nat.zero_add] at start stop
    rw [String.toList_append, String.toList_append] at whole ⊢
    obtain ⟨left, whole⟩ := append_inj_of_bytes whole start
    obtain ⟨rfl, right⟩ := append_inj_of_bytes whole (by omega)
    rw [left, right, lexemes]
    obtain ⟨spelled', like⟩ := spelled.recased (asciiUpper_eq_iff.mp upper)
    exact precedes _ _ like (.spelled spelled' behind)

theorem Statement.ofText_eq {sql : String} {ts : List Token} (h : tokens sql = .ok ts) :
    ofText sql = ofTokens ts := by
  rw [ofText, h]

/-- However many gaps are widened and keywords are recased: the lexemes are the same, and with
them the statement or, up to its offset, the failure. -/
theorem respelled {source source' : String} (h : Relation.ReflTransGen Respelling source source')
    {ts : List Token} (cut : tokens source = .ok ts) :
    (∃ ts', tokens source' = .ok ts' ∧ ts'.map (·.lexeme) = ts.map (·.lexeme)) ∧
    (∀ s, Statement.ofText source' = .ok s ↔ Statement.ofText source = .ok s) ∧
    (Statement.ofText source').mapError Failure.unplaced =
      (Statement.ofText source).mapError Failure.unplaced := by
  have lexed : ∃ ts', tokens source' = .ok ts' ∧ ts'.map (·.lexeme) = ts.map (·.lexeme) := by
    induction h with
    | refl => exact ⟨ts, cut, rfl⟩
    | tail _ step ih =>
      obtain ⟨ts', cut', same⟩ := ih
      obtain ⟨ls, before, after⟩ := step.lexed
      obtain ⟨ts'', cut'', lexemes⟩ := tokens_of_lexed after
      have lexemes' := (cuts_of_tokensFrom cut' (Nat.lt_succ_self _)).lexed.unique before
      exact ⟨ts'', cut'', lexemes.trans (lexemes'.symm.trans same)⟩
  obtain ⟨ts', cut', same⟩ := lexed
  have outcome := Statement.ofTokens_places same
  rw [← Statement.ofText_eq cut, ← Statement.ofText_eq cut'] at outcome
  refine ⟨⟨ts', cut', same⟩, fun s => ?_, outcome⟩
  generalize Statement.ofText source = x at outcome ⊢
  generalize Statement.ofText source' = y at outcome ⊢
  cases x with
  | ok =>
    cases y with
    | ok =>
      cases outcome
      exact Iff.rfl
    | error => cases outcome
  | error =>
    cases y with
    | ok => cases outcome
    | error => exact ⟨nofun, nofun⟩

def queryTokens : List Token :=
  [⟨.keyword .SELECT, 0, 6⟩, ⟨.identifier "a", 7, 8⟩, ⟨.keyword .FROM, 9, 13⟩,
    ⟨.identifier "t", 14, 15⟩, ⟨.keyword .WHERE, 16, 21⟩, ⟨.identifier "n", 22, 23⟩,
    ⟨.symbol .lessEqual, 23, 25⟩, ⟨.number "1.5", 25, 28⟩, ⟨.finish, 28, 28⟩]

/-- A keyword in other letters, and a comment with a quote between a name and a sign. -/
theorem respelled_query :
    Relation.ReflTransGen Respelling "SELECT a FROM t WHERE n<=1.5"
      "sElEcT a FROM t WHERE n/*'é*/<=1.5" ∧
    tokens "SELECT a FROM t WHERE n<=1.5" = .ok queryTokens ∧
    ∃ s, Statement.ofText "SELECT a FROM t WHERE n<=1.5" = .ok s ∧
      Statement.ofText "sElEcT a FROM t WHERE n/*'é*/<=1.5" = .ok s := by
  have cut : tokens "SELECT a FROM t WHERE n<=1.5" = .ok queryTokens := by decide +kernel
  have listed : ⟨.keyword .SELECT, "".utf8ByteSize, "".utf8ByteSize + "SELECT".utf8ByteSize⟩ ∈
      queryTokens := by decide +kernel
  have upper : Text.asciiUpper "sElEcT" = Text.asciiUpper "SELECT" :=
    asciiUpper_eq_iff.mpr (by decide +kernel)
  have whole : "SELECT a FROM t WHERE n<=1.5" = "" ++ ("SELECT" ++ " a FROM t WHERE n<=1.5") := by
    decide +kernel
  have whole' : "sElEcT a FROM t WHERE n<=1.5" = "" ++ ("sElEcT" ++ " a FROM t WHERE n<=1.5") := by
    decide +kernel
  have recased := Respelling.recased cut listed upper whole whole'
  have cut' : tokens "sElEcT a FROM t WHERE n<=1.5" = .ok queryTokens := by decide +kernel
  have listed' : ⟨.identifier "n", 22, 23⟩ ∈ queryTokens := by decide +kernel
  have edge : 23 = "sElEcT a FROM t WHERE n".utf8ByteSize := by decide +kernel
  have inside : CommentBody ['\'', 'é'] := by decide
  have comment : "/*'é*/".toList = '/' :: '*' :: (['\'', 'é'] ++ ['*', '/']) := by decide +kernel
  have widened : "sElEcT a FROM t WHERE n<=1.5" = "sElEcT a FROM t WHERE n" ++ "<=1.5" := by
    decide +kernel
  have widened' : "sElEcT a FROM t WHERE n/*'é*/<=1.5" =
      "sElEcT a FROM t WHERE n" ++ ("/*'é*/" ++ "<=1.5") := by decide +kernel
  have spaced := Respelling.spaced cut' listed' nofun (.inr edge) (comment ▸ .comment inside)
    widened widened'
  have steps := Relation.ReflTransGen.tail (.single recased) spaced
  have accepted : (Statement.ofText "SELECT a FROM t WHERE n<=1.5").toOption.isSome = true := by
    decide +kernel
  refine ⟨steps, cut, ?_⟩
  cases read : Statement.ofText "SELECT a FROM t WHERE n<=1.5" with
  | error e =>
    rw [read] at accepted
    cases accepted
  | ok s => exact ⟨s, rfl, ((respelled steps cut).2.1 s).mpr read⟩

end SqlEngine.Dialect
