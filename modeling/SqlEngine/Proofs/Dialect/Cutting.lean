import Mathlib
import SqlEngine.Proofs.Dialect.Rendering
import SqlEngine.Proofs.Text.Blank

/-! Which lexemes a text is cut into, from one token to the next. -/

namespace SqlEngine.Dialect

theorem toNat_of_isWordStart {c : Char} (h : isWordStart c = true) :
    0x40 < c.toNat ∧ c.toNat < 0x80 := by
  simp only [isWordStart, Char.isAlpha, Char.isUpper, Char.isLower, Bool.or_eq_true,
    Bool.and_eq_true, decide_eq_true_eq, beq_iff_eq, UInt32.le_iff_toNat_le, ge_iff_le] at h
  rcases h with (upper | lower) | rfl
  · simp at upper
    omega
  · simp at lower
    omega
  · decide

theorem isWordPart_of_isWordStart {c : Char} (h : isWordStart c = true) : isWordPart c = true := by
  rw [isWordStart, Bool.or_eq_true] at h
  rw [isWordPart, Char.isAlphanum, Bool.or_eq_true, Bool.or_eq_true]
  exact h.imp_left .inl

theorem toNat_of_isDigit {c : Char} (h : c.isDigit = true) : 0x2F < c.toNat ∧ c.toNat < 0x3A := by
  simp only [Char.isDigit, Bool.and_eq_true, decide_eq_true_eq, UInt32.le_iff_toNat_le,
    ge_iff_le] at h
  simp at h
  omega

theorem span_append {α : Type} {p : α → Bool} {xs rest : List α} (all : xs.all p = true)
    (stop : ∀ x ∈ rest.head?, p x = false) : (xs ++ rest).span p = (xs, rest) := by
  have all : ∀ x ∈ xs, p x = true := List.all_eq_true.mp all
  rw [List.span_eq_takeWhile_dropWhile, List.takeWhile_append_of_pos all,
    List.dropWhile_append_of_pos all]
  cases rest with
  | nil => simp
  | cons x rest =>
    have stop : p x = false := stop x rfl
    simp [stop]

def Begins (cs : List Char) (l : Lexeme) (rest : List Char) : Prop :=
  ∀ n, ∃ c more stop, cs = c :: more ∧ skipGap .blank cs n = .ok ⟨cs, n⟩ ∧
    readToken c more n = .ok (⟨l, n, stop⟩, ⟨rest, stop⟩) ∧ rest.length ≤ more.length

theorem skipGap_cons {c : Char} {rest : List Char} (n : Nat)
    (line : ∀ more, c = '-' → rest ≠ '-' :: more) (block : ∀ more, c = '/' → rest ≠ '*' :: more) :
    skipGap .blank (c :: rest) n =
      if Text.isBlank c then skipGap .blank rest (n + c.utf8Size) else .ok ⟨c :: rest, n⟩ := by
  conv_lhs => unfold skipGap
  split
  all_goals first | contradiction | skip
  · next same => exact absurd (List.cons.inj same).2 (line _ (List.cons.inj same).1)
  · next same => exact absurd (List.cons.inj same).2 (block _ (List.cons.inj same).1)
  · next same =>
    cases same
    rfl

theorem skipGap_blank {c : Char} (between : Text.isBlank c = true) (rest : List Char) (n : Nat) :
    skipGap .blank (c :: rest) n = skipGap .blank rest (n + c.utf8Size) := by
  rw [skipGap_cons n, if_pos between]
  · rintro _ rfl
    exact absurd between (by decide)
  · rintro _ rfl
    exact absurd between (by decide)

theorem skipGap_self {c : Char} (solid : Text.isBlank c = false) (hyphen : c ≠ '-') (slash : c ≠ '/')
    (rest : List Char) (n : Nat) : skipGap .blank (c :: rest) n = .ok ⟨c :: rest, n⟩ := by
  rw [skipGap_cons n (fun _ same => absurd same hyphen) fun _ same => absurd same slash,
    if_neg (by rw [solid]; nofun)]

theorem begins_word {c : Char} {cs rest : List Char} (start : isWordStart c = true)
    (parts : cs.all isWordPart = true) (stop : ∀ d ∈ rest.head?, isWordPart d = false) :
    Begins (c :: cs ++ rest) (wordLexeme (String.ofList (c :: cs))) rest := by
  intro n
  have range := toNat_of_isWordStart start
  have part : isWordPart c = true := isWordPart_of_isWordStart start
  have whole : (c :: (cs ++ rest)).span isWordPart = (c :: cs, rest) :=
    span_append (by rw [List.all_cons, part, parts]; rfl) stop
  refine ⟨c, cs ++ rest, n + (c :: cs).length, rfl, ?_, ?_, by simp⟩
  · refine skipGap_self (Text.isBlank_of_range ⟨by omega, range.2⟩) ?_ ?_ _ n
    · rintro rfl
      exact absurd range.1 (by decide)
    · rintro rfl
      exact absurd range.1 (by decide)
  · have quote : ¬ (c = '\'' ∨ c = '"') := by
      rintro (rfl | rfl)
      · exact absurd range.1 (by decide)
      · exact absurd range.1 (by decide)
    have digit : ¬ c.isDigit = true := by
      intro digit
      have := toNat_of_isDigit digit
      omega
    rw [readToken, if_neg quote, if_neg digit, if_pos start, whole]

theorem begins_number {c : Char} {cs rest : List Char} (digits : (c :: cs).all Char.isDigit = true)
    (stop : ∀ d ∈ rest.head?, d.isDigit = false ∧ d ≠ '.') :
    Begins (c :: cs ++ rest) (.number (String.ofList (c :: cs))) rest := by
  intro n
  have digit : c.isDigit = true := List.all_eq_true.mp digits c List.mem_cons_self
  have range := toNat_of_isDigit digit
  have whole : readNumber (c :: (cs ++ rest)) = (c :: cs, rest) := by
    have span : (c :: (cs ++ rest)).span Char.isDigit = (c :: cs, rest) :=
      span_append digits fun d hd => (stop d hd).1
    rw [readNumber, span]
    cases rest with
    | nil => rfl
    | cons d more =>
      have point : d ≠ '.' := (stop d rfl).2
      dsimp only
      split
      · next same => exact absurd (List.cons.inj same).1 point
      · rfl
  refine ⟨c, cs ++ rest, n + (c :: cs).length, rfl, ?_, ?_, by simp⟩
  · refine skipGap_self (Text.isBlank_of_range ⟨by omega, by omega⟩) ?_ ?_ _ n
    · rintro rfl
      exact absurd range.1 (by decide)
    · rintro rfl
      exact absurd range.1 (by decide)
  · have quote : ¬ (c = '\'' ∨ c = '"') := by
      rintro (rfl | rfl)
      · exact absurd range.1 (by decide)
      · exact absurd range.1 (by decide)
    rw [readToken, if_neg quote, if_pos digit, whole]

theorem readString?_other {quote c : Char} (apart : c ≠ quote) {rest body after : List Char} {n : Nat}
    (read : readString? quote rest = some (body, after, n)) :
    readString? quote (c :: rest) = some (c :: body, after, n + c.utf8Size) := by
  cases rest with
  | nil => exact absurd read nofun
  | cons d more => rw [readString?, if_neg apart, read, Option.map_some]

theorem readString?_doubled {quote : Char} (body : List Char) {rest : List Char}
    (stop : ∀ d ∈ rest.head?, d ≠ quote) :
    ∃ n, readString? quote (doubled quote body ++ quote :: rest) = some (body, rest, n) := by
  induction body with
  | nil =>
    refine ⟨quote.utf8Size, ?_⟩
    cases rest with
    | nil => exact if_pos rfl
    | cons d more =>
      have apart : d ≠ quote := stop d rfl
      show readString? quote (quote :: d :: more) = some ([], d :: more, quote.utf8Size)
      rw [readString?, if_pos rfl, if_neg apart]
  | cons c body ih =>
    obtain ⟨n, read⟩ := ih
    rw [doubled, List.flatMap_cons, ← doubled]
    by_cases same : c = quote
    · refine ⟨n + 2 * quote.utf8Size, ?_⟩
      subst same
      rw [if_pos rfl]
      show readString? c (c :: c :: (doubled c body ++ c :: rest)) = _
      rw [readString?, if_pos rfl, if_pos rfl, read, Option.map_some]
    · refine ⟨n + c.utf8Size, ?_⟩
      rw [if_neg same]
      exact readString?_other same read

theorem begins_string {quote : Char} (mark : quote = '\'' ∨ quote = '"') (body : List Char)
    {rest : List Char} (stop : ∀ d ∈ rest.head?, d ≠ quote) :
    Begins (quote :: doubled quote body ++ quote :: rest) (.string (String.ofList body)) rest := by
  intro n
  obtain ⟨bytes, read⟩ := readString?_doubled body stop
  refine ⟨quote, doubled quote body ++ quote :: rest, n + quote.utf8Size + bytes, rfl, ?_, ?_, ?_⟩
  · rcases mark with rfl | rfl
    · exact skipGap_self (by decide) (by decide) (by decide) _ n
    · exact skipGap_self (by decide) (by decide) (by decide) _ n
  · rw [readToken, if_pos mark, read]
  · rw [List.length_append, List.length_cons]
    omega

def Symbol.continuesWith : Symbol → Char → Bool
  | .less, d => d == '=' || d == '>'
  | .greater, d => d == '='
  | .minus, d => d == '-'
  | _, _ => false

theorem skipGap_hyphen {rest : List Char} (stop : ∀ d ∈ rest.head?, d ≠ '-') (n : Nat) :
    skipGap .blank ('-' :: rest) n = .ok ⟨'-' :: rest, n⟩ := by
  cases rest with
  | nil => rfl
  | cons d more =>
    have apart : d ≠ '-' := stop d rfl
    rw [skipGap_cons n (fun _ _ same => apart (List.cons.inj same).1) fun _ same =>
      absurd same (by decide)]
    rfl

theorem readToken_symbol {c : Char} {rest : List Char} {n k : Nat} {s : Symbol}
    (quote : ¬ (c = '\'' ∨ c = '"')) (digit : c.isDigit = false) (word : isWordStart c = false)
    (read : readSymbol? (c :: rest) = some (s, k)) :
    readToken c rest n = .ok (⟨.symbol s, n, n + k⟩, ⟨(c :: rest).drop k, n + k⟩) := by
  rw [readToken, if_neg quote, if_neg (by rw [digit]; nofun), if_neg (by rw [word]; nofun), read]

theorem readSymbol?_less {rest : List Char} (stop : ∀ d ∈ rest.head?, d ≠ '=' ∧ d ≠ '>') :
    readSymbol? ('<' :: rest) = some (.less, 1) := by
  cases rest with
  | nil => rfl
  | cons d more =>
    have apart := stop d rfl
    unfold readSymbol?
    split <;> simp_all

theorem readSymbol?_greater {rest : List Char} (stop : ∀ d ∈ rest.head?, d ≠ '=') :
    readSymbol? ('>' :: rest) = some (.greater, 1) := by
  cases rest with
  | nil => rfl
  | cons d more =>
    have apart := stop d rfl
    unfold readSymbol?
    split <;> simp_all

theorem begins_symbol (s : Symbol) {rest : List Char}
    (stop : ∀ d ∈ rest.head?, s.continuesWith d = false) :
    Begins (s.text.toList ++ rest) (.symbol s) rest := by
  intro n
  cases s
  case minus =>
    refine ⟨'-', rest, n + 1, rfl, skipGap_hyphen (fun d hd => ?_) n, rfl, Nat.le_refl _⟩
    simpa [Symbol.continuesWith] using stop d hd
  case less =>
    have read : readSymbol? ('<' :: rest) = some (.less, 1) := readSymbol?_less fun d hd => by
      simpa [Symbol.continuesWith] using stop d hd
    exact ⟨'<', rest, n + 1, rfl, skipGap_self (by decide) (by decide) (by decide) _ n,
      readToken_symbol (by decide) (by decide) (by decide) read, Nat.le_refl _⟩
  case greater =>
    have read : readSymbol? ('>' :: rest) = some (.greater, 1) := readSymbol?_greater fun d hd => by
      simpa [Symbol.continuesWith] using stop d hd
    exact ⟨'>', rest, n + 1, rfl, skipGap_self (by decide) (by decide) (by decide) _ n,
      readToken_symbol (by decide) (by decide) (by decide) read, Nat.le_refl _⟩
  all_goals exact ⟨_, _, _, rfl, skipGap_self (by decide) (by decide) (by decide) _ n, rfl, by simp⟩

/-- The text is cut into these lexemes, wherever it stands and with whatever fuel is enough. -/
def Lexed (cs : List Char) (ls : List Lexeme) : Prop :=
  ∀ fuel n, cs.length < fuel →
    ∃ ts, tokensFrom fuel ⟨cs, n⟩ = .ok ts ∧ ts.map (·.lexeme) = ls

namespace Lexed

theorem nil : Lexed [] [.finish] := by
  intro fuel n enough
  obtain ⟨fuel, rfl⟩ := Nat.exists_eq_add_one.mpr enough
  exact ⟨_, rfl, rfl⟩

theorem blank {c : Char} {cs : List Char} {ls : List Lexeme} (between : Text.isBlank c = true)
    (h : Lexed cs ls) : Lexed (c :: cs) ls := by
  intro fuel n enough
  rw [List.length_cons] at enough
  obtain ⟨ts, cut, same⟩ := h fuel (n + c.utf8Size) (by omega)
  refine ⟨ts, ?_, same⟩
  obtain ⟨fuel, rfl⟩ := Nat.exists_eq_add_one.mpr (Nat.zero_lt_of_lt enough)
  rw [tokensFrom] at cut ⊢
  rwa [skipGap_blank between]

theorem token {cs rest : List Char} {l : Lexeme} {ls : List Lexeme} (first : Begins cs l rest)
    (h : Lexed rest ls) : Lexed cs (l :: ls) := by
  intro fuel n enough
  obtain ⟨c, more, stop, rfl, skip, read, shorter⟩ := first n
  rw [List.length_cons] at enough
  obtain ⟨fuel, rfl⟩ := Nat.exists_eq_add_one.mpr (Nat.zero_lt_of_lt enough)
  obtain ⟨ts, cut, same⟩ := h fuel stop (by omega)
  refine ⟨⟨l, n, stop⟩ :: ts, ?_, by rw [List.map_cons, same]⟩
  rw [tokensFrom, skip]
  show (readToken c more n >>= fun found =>
    tokensFrom fuel found.2 >>= fun others => pure (found.1 :: others)) = _
  rw [read]
  show (tokensFrom fuel ⟨rest, stop⟩ >>= fun others => pure (_ :: others)) = _
  rw [cut]
  rfl

end Lexed

theorem tokens_of_lexed {text : String} {ls : List Lexeme} (h : Lexed text.toList ls) :
    ∃ ts, tokens text = .ok ts ∧ ts.map (·.lexeme) = ls :=
  h _ 0 (Nat.lt_succ_self _)

def Parted (rest : List Char) : Prop := ∀ d ∈ rest.head?, d = ' ' ∨ d = ',' ∨ d = ')'

def Spells (text : String) (ls : List Lexeme) : Prop :=
  ∀ rest ls', Parted rest → Lexed rest ls' → Lexed (text.toList ++ rest) (ls ++ ls')

def cut (text : String) : List Lexeme :=
  match tokens text with
  | .ok ts => (ts.map (·.lexeme)).dropLast
  | .error _ => []

theorem Spells.cut_eq {text : String} {ls : List Lexeme} (h : Spells text ls) : cut text = ls := by
  have alone := h [] [.finish] nofun .nil
  rw [List.append_nil] at alone
  obtain ⟨ts, tokens, same⟩ := tokens_of_lexed alone
  rw [cut, tokens]
  simp only [same, List.dropLast_concat]

namespace Lexed

variable {rest : List Char} {ls : List Lexeme}

theorem word {text : String} {c : Char} {cs : List Char} (spelled : text.toList = c :: cs)
    (start : isWordStart c = true) (parts : cs.all isWordPart = true)
    (stop : ∀ d ∈ rest.head?, isWordPart d = false) (h : Lexed rest ls) :
    Lexed (text.toList ++ rest) (wordLexeme text :: ls) := by
  have whole : text = String.ofList (c :: cs) := by rw [← spelled, String.ofList_toList]
  rw [spelled, whole]
  exact token (begins_word start parts stop) h

theorem name {name : String} (named : IsName name) (stop : ∀ d ∈ rest.head?, isWordPart d = false)
    (h : Lexed rest ls) : Lexed (name.toList ++ rest) (.identifier name :: ls) := by
  obtain ⟨spelled, free⟩ := named
  cases chars : name.toList with
  | nil =>
    rw [chars] at spelled
    exact absurd spelled nofun
  | cons c cs =>
    rw [chars, isWord, Bool.and_eq_true] at spelled
    have lexed := word chars spelled.1 spelled.2 stop h
    rwa [wordLexeme, free, chars] at lexed

theorem keyword (k : Keyword) (stop : ∀ d ∈ rest.head?, isWordPart d = false) (h : Lexed rest ls) :
    Lexed (k.text.toList ++ rest) (.keyword k :: ls) := by
  have spelled : ∃ c cs, k.text.toList = c :: cs ∧ isWordStart c = true ∧
      cs.all isWordPart = true := by
    cases k <;> exact ⟨_, _, rfl, by decide, by decide⟩
  obtain ⟨c, cs, spelled, start, parts⟩ := spelled
  have lexed := word spelled start parts stop h
  rwa [wordLexeme, Keyword.ofWord?_text] at lexed

theorem symbol (s : Symbol) (stop : ∀ d ∈ rest.head?, s.continuesWith d = false)
    (h : Lexed rest ls) : Lexed (s.text.toList ++ rest) (.symbol s :: ls) :=
  token (begins_symbol s stop) h

theorem number {digits : List Char} (nonempty : digits ≠ [])
    (all : digits.all Char.isDigit = true) (stop : ∀ d ∈ rest.head?, d.isDigit = false ∧ d ≠ '.')
    (h : Lexed rest ls) : Lexed (digits ++ rest) (.number (String.ofList digits) :: ls) := by
  obtain ⟨c, cs, rfl⟩ := List.exists_cons_of_ne_nil nonempty
  exact token (begins_number all stop) h

end Lexed

theorem Parted.not_isWordPart {rest : List Char} (h : Parted rest) :
    ∀ d ∈ rest.head?, isWordPart d = false := by
  intro d hd
  rcases h d hd with rfl | rfl | rfl <;> decide

theorem Parted.not_isDigit {rest : List Char} (h : Parted rest) :
    ∀ d ∈ rest.head?, d.isDigit = false ∧ d ≠ '.' := by
  intro d hd
  rcases h d hd with rfl | rfl | rfl <;> decide

theorem spells_name {name : String} (h : IsName name) : Spells name [.identifier name] :=
  fun _ _ parted lexed => .name h parted.not_isWordPart lexed

theorem spells_keyword (k : Keyword) : Spells k.text [.keyword k] :=
  fun _ _ parted lexed => .keyword k parted.not_isWordPart lexed

theorem spells_symbol (s : Symbol) : Spells s.text [.symbol s] := by
  intro rest ls' parted lexed
  refine .symbol s (fun d hd => ?_) lexed
  rcases parted d hd with rfl | rfl | rfl <;> cases s <;> rfl

theorem spells_quoted (s : String) : Spells (quoted s) [.string s] := by
  intro rest ls' parted lexed
  have begins : Begins ('\'' :: doubled '\'' s.toList ++ '\'' :: rest) (.string s) rest := by
    have apart : ∀ d ∈ rest.head?, d ≠ '\'' := fun d hd => by
      rcases parted d hd with rfl | rfl | rfl <;> decide
    have string := begins_string (.inl rfl) s.toList apart
    rwa [String.ofList_toList] at string
  simpa [quoted] using Lexed.token begins lexed

theorem all_isDigit_toDigits (n : Nat) : (Nat.toDigits 10 n).all Char.isDigit = true :=
  List.all_eq_true.mpr fun _ hc => Nat.isDigit_of_mem_toDigits (by decide) (by decide) hc

theorem spells_count (n : Nat) : Spells (toString n) [.number (toString n)] := by
  intro rest ls' parted lexed
  rw [Nat.toString_eq_ofList_toDigits, String.toList_ofList]
  exact .number Nat.toDigits_ne_nil (all_isDigit_toDigits n) parted.not_isDigit lexed

def literalLexemes : Value → List Lexeme
  | .null => [.keyword .NULL]
  | .boolean true => [.keyword .TRUE]
  | .boolean false => [.keyword .FALSE]
  | .integer n =>
    if n.toInt < 0 then [.symbol .minus, .number (toString n.toInt.natAbs)]
    else [.number (toString n.toInt.natAbs)]
  | .text s => [.string s]
  | _ => []

theorem toString_int (i : Int) :
    toString i = if i < 0 then "-" ++ toString i.natAbs else toString i.natAbs := by
  cases i with
  | ofNat n => rfl
  | negSucc n =>
    rw [if_pos (Int.negSucc_lt_zero n)]
    rfl

theorem spells_literal {v : Value} (h : HasLiteral v) : Spells (literalText v) (literalLexemes v) := by
  cases v with
  | null => exact spells_keyword .NULL
  | boolean b => cases b with
    | true => exact spells_keyword .TRUE
    | false => exact spells_keyword .FALSE
  | integer n =>
    rw [literalText, literalLexemes, toString_int]
    split
    · intro rest ls' parted lexed
      rw [String.toList_append, List.append_assoc]
      refine .symbol .minus (fun d hd => ?_) (spells_count _ rest ls' parted lexed)
      rw [Nat.toString_eq_repr, Nat.toList_repr] at hd
      have digits := all_isDigit_toDigits n.toInt.natAbs
      obtain ⟨c, cs, split⟩ := List.exists_cons_of_ne_nil (Nat.toDigits_ne_nil (n := n.toInt.natAbs))
      rw [split, List.all_cons, Bool.and_eq_true] at digits
      rw [split] at hd
      obtain rfl : c = d := Option.some.inj hd
      have range := toNat_of_isDigit digits.1
      refine beq_eq_false_iff_ne.mpr ?_
      rintro rfl
      exact absurd range.1 (by decide)
    · exact spells_count _
  | real x => exact h.elim
  | text s => exact spells_quoted s
  | date s => exact h.elim

def ColumnName.lexemes (c : ColumnName) : List Lexeme :=
  match c.qualifier with
  | none => [.identifier c.column]
  | some q => [.identifier q, .symbol .dot, .identifier c.column]

def argumentLexemes : Option ColumnName → List Lexeme
  | some column => column.lexemes
  | none => [.symbol .star]

def AggregateCall.lexemes (c : AggregateCall) : List Lexeme :=
  .identifier c.function.name :: .symbol .openParen ::
    ((if c.distinct then [.keyword .DISTINCT] else []) ++ argumentLexemes c.argument ++
      [.symbol .closeParen])

theorem spells_column {c : ColumnName} (h : c.WellFormed) : Spells c.text c.lexemes := by
  obtain ⟨qualifier, column⟩ := c
  obtain ⟨named, column⟩ := h
  cases qualifier with
  | none => exact spells_name column
  | some q =>
    intro rest ls' parted lexed
    simp only [ColumnName.text, ColumnName.lexemes, String.toList_append, List.append_assoc]
    refine .name (named q rfl) (fun d hd => ?_) (.symbol .dot (fun _ _ => rfl) ?_)
    · obtain rfl : '.' = d := Option.some.inj hd
      decide
    · exact spells_name column rest ls' parted lexed

theorem isName_aggregate (f : Aggregate) : IsName f.name := by
  cases f <;> decide +kernel

theorem Lexed.callStart (function : Aggregate) (distinct : Bool) {rest : List Char} {ls : List Lexeme}
    (h : Lexed rest ls) :
    Lexed (function.name.toList ++ '(' :: ((if distinct then "DISTINCT " else "").toList ++ rest))
      (.identifier function.name :: .symbol .openParen ::
        ((if distinct then [.keyword .DISTINCT] else []) ++ ls)) := by
  refine .name (isName_aggregate function) (fun d hd => ?_) (.symbol .openParen (fun _ _ => rfl) ?_)
  · obtain rfl : '(' = d := Option.some.inj hd
    decide
  · cases distinct with
    | false => exact h
    | true =>
      refine .keyword .DISTINCT (fun d hd => ?_) (.blank (c := ' ') (by decide) h)
      obtain rfl : ' ' = d := Option.some.inj hd
      decide

theorem spells_call {c : AggregateCall} (h : c.WellFormed) : Spells c.text c.lexemes := by
  obtain ⟨function, argument, distinct⟩ := c
  obtain ⟨-, named⟩ := h
  intro rest ls' parted lexed
  have closed : Lexed (')' :: rest) (.symbol .closeParen :: ls') :=
    .symbol .closeParen (fun _ _ => rfl) lexed
  cases argument with
  | none =>
    have star : Lexed ('*' :: ')' :: rest) (.symbol .star :: .symbol .closeParen :: ls') :=
      .symbol .star (fun _ _ => rfl) closed
    simpa [AggregateCall.text, AggregateCall.lexemes, argumentLexemes] using
      star.callStart function distinct
  | some column =>
    have inner : Lexed (column.text.toList ++ ')' :: rest)
        (column.lexemes ++ .symbol .closeParen :: ls') := by
      refine spells_column (named column rfl) _ _ (fun d hd => ?_) closed
      obtain rfl : ')' = d := Option.some.inj hd
      exact .inr (.inr rfl)
    simpa [AggregateCall.text, AggregateCall.lexemes, argumentLexemes] using
      inner.callStart function distinct

theorem spells_operand {text : String} (h : IsOperand text) : Spells text (cut text) := by
  rcases h with ⟨c, wf, rfl⟩ | ⟨c, wf, rfl⟩
  · rw [(spells_column wf).cut_eq]
    exact spells_column wf
  · rw [(spells_call wf).cut_eq]
    exact spells_call wf

namespace Word

def Plain : Word → Prop
  | name identifier => IsName identifier
  | operand text => IsOperand text
  | literal v => HasLiteral v
  | _ => True

@[simp] def lexemes : Word → List Lexeme
  | keyword k => [.keyword k]
  | sign s => [.symbol s]
  | name identifier => [.identifier identifier]
  | operand text => cut text
  | literal v => literalLexemes v
  | count n => [.number (toString n)]

def lexemesOf (ws : List Word) : List Lexeme := ws.flatMap lexemes

@[simp] theorem lexemesOf_nil : lexemesOf [] = [] := rfl

@[simp] theorem lexemesOf_cons (w : Word) (ws : List Word) :
    lexemesOf (w :: ws) = w.lexemes ++ lexemesOf ws := rfl

@[simp] theorem lexemesOf_append (ws ws' : List Word) :
    lexemesOf (ws ++ ws') = lexemesOf ws ++ lexemesOf ws' :=
  List.flatMap_append

theorem lexemesOf_flatMap {α : Type} (f : α → List Word) (xs : List α) :
    lexemesOf (xs.flatMap f) = xs.flatMap fun x => lexemesOf (f x) :=
  List.flatMap_assoc

theorem spells_of_plain {w : Word} (h : w.Plain) : Spells w.text w.lexemes := by
  cases w with
  | keyword k => exact spells_keyword k
  | sign s => exact spells_symbol s
  | name identifier => exact spells_name h
  | operand text => exact spells_operand h
  | literal v => exact spells_literal h
  | count n => exact spells_count n

theorem toList_textOf_cons (w : Word) (rest : List Word) :
    ∃ more, (textOf (w :: rest)).toList = w.text.toList ++ more := by
  cases rest with
  | nil => exact ⟨[], (List.append_nil _).symm⟩
  | cons v rest =>
    refine ⟨(gap w v).toList ++ (textOf (v :: rest)).toList, ?_⟩
    rw [textOf, String.toList_append, String.toList_append, List.append_assoc]

/-- Words keep apart from each other. -/
theorem lexed_textOf {ws : List Word} (plain : ∀ w ∈ ws, w.Plain) :
    Lexed (textOf ws).toList (lexemesOf ws ++ [.finish]) := by
  induction ws with
  | nil => exact .nil
  | cons w rest ih =>
    rw [List.forall_mem_cons] at plain
    have lexed := ih plain.2
    have spells := spells_of_plain plain.1
    rw [lexemesOf_cons, List.append_assoc]
    cases rest with
    | nil =>
      rw [← List.append_nil (textOf [w]).toList]
      exact spells [] _ nofun lexed
    | cons v rest =>
      rw [textOf, String.toList_append, String.toList_append, List.append_assoc, gap]
      split
      · next close =>
        rcases close with rfl | rfl | rfl
        · exact .symbol .openParen (fun _ _ => rfl) lexed
        · refine spells _ _ (fun d hd => ?_) lexed
          obtain ⟨more, head⟩ := toList_textOf_cons (sign .comma) rest
          rw [head] at hd
          exact .inr (.inl (Option.some.inj hd).symm)
        · refine spells _ _ (fun d hd => ?_) lexed
          obtain ⟨more, head⟩ := toList_textOf_cons (sign .closeParen) rest
          rw [head] at hd
          exact .inr (.inr (Option.some.inj hd).symm)
      · refine spells _ _ (fun d hd => ?_) (.blank (c := ' ') (by decide) lexed)
        exact .inl (Option.some.inj hd).symm

end Word
end SqlEngine.Dialect
