import SqlEngine.Proofs.Dialect.Filling

/-! The grammar of tokens. A token goes as far as it can, so its text is told together with what
comes behind it. What comes behind may be exchanged for what begins like it or with a gap. -/

namespace SqlEngine.Dialect

/-- These characters are the token before what comes next. -/
inductive Spelled : List Char → Lexeme → List Char → Prop
  | string {quote : Char} {rest : List Char} (mark : quote = '\'' ∨ quote = '"') (body : List Char)
      (stop : ∀ d ∈ rest.head?, d ≠ quote) :
      Spelled (quote :: (doubled quote body ++ [quote])) (.string (String.ofList body)) rest
  | whole {digits rest : List Char} (nonempty : digits ≠ []) (all : digits.all Char.isDigit = true)
      (stop : ∀ d ∈ rest.head?, d.isDigit = false)
      (point : ∀ d more, rest = '.' :: d :: more → d.isDigit = false) :
      Spelled digits (.number (String.ofList digits)) rest
  | decimal {digits places rest : List Char} (nonempty : digits ≠ [])
      (all : digits.all Char.isDigit = true) (placed : places ≠ [])
      (allPlaces : places.all Char.isDigit = true) (stop : ∀ d ∈ rest.head?, d.isDigit = false) :
      Spelled (digits ++ '.' :: places) (.number (String.ofList (digits ++ '.' :: places))) rest
  | word {c : Char} {cs rest : List Char} (start : isWordStart c = true)
      (parts : cs.all isWordPart = true) (stop : ∀ d ∈ rest.head?, isWordPart d = false) :
      Spelled (c :: cs) (wordLexeme (String.ofList (c :: cs))) rest
  | symbol {rest : List Char} (s : Symbol) (stop : ∀ d ∈ rest.head?, s.continuesWith d = false) :
      Spelled s.text.toList (.symbol s) rest
  | unequal {rest : List Char} : Spelled ['<', '>'] (.symbol .notEqual) rest

variable {front rest rest' : List Char} {l : Lexeme}

theorem begins_of_digit {c : Char} {cs digits : List Char} (digit : c.isDigit = true)
    (read : readNumber (c :: cs) = (digits, rest)) (shorter : rest.length ≤ cs.length) :
    Begins (c :: cs) (.number (String.ofList digits)) rest := by
  intro n
  have range := toNat_of_isDigit digit
  refine ⟨c, cs, n + digits.length, rfl, ?_, ?_, shorter⟩
  · refine skipGap_self (Text.isBlank_of_range ⟨by omega, by omega⟩) ?_ ?_ _ n
    · rintro rfl
      exact absurd range.1 (by decide)
    · rintro rfl
      exact absurd range.1 (by decide)
  · have quote : ¬ (c = '\'' ∨ c = '"') := by
      rintro (rfl | rfl)
      · exact absurd range.1 (by decide)
      · exact absurd range.1 (by decide)
    rw [readToken, if_neg quote, if_pos digit, read]

theorem Spelled.begins (h : Spelled front l rest) : Begins (front ++ rest) l rest := by
  cases h with
  | string mark body stop => simpa using begins_string mark body stop
  | whole nonempty all stop point =>
    obtain ⟨c, cs, rfl⟩ := List.exists_cons_of_ne_nil nonempty
    have digit : c.isDigit = true := List.all_eq_true.mp all c List.mem_cons_self
    exact begins_of_digit digit (readNumber_of_span (span_append all stop) point) (by simp)
  | @decimal digits places _ nonempty all placed allPlaces stop =>
    obtain ⟨c, cs, rfl⟩ := List.exists_cons_of_ne_nil nonempty
    obtain ⟨d, places, rfl⟩ := List.exists_cons_of_ne_nil placed
    have digit : c.isDigit = true := List.all_eq_true.mp all c List.mem_cons_self
    have digit' : d.isDigit = true := List.all_eq_true.mp allPlaces d List.mem_cons_self
    have spanned : (c :: (cs ++ '.' :: d :: (places ++ rest))).span Char.isDigit =
        (c :: cs, '.' :: d :: (places ++ rest)) :=
      span_append all fun e he => by
        obtain rfl := Option.some.inj he
        decide
    have read := readNumber_of_point spanned digit' (span_append allPlaces stop)
    have begins := begins_of_digit digit read (by simp; omega)
    simpa using begins
  | word start parts stop => exact begins_word start parts stop
  | symbol s stop => exact begins_symbol s stop
  | unequal =>
    intro n
    exact ⟨'<', '>' :: rest, n + 2, rfl, skipGap_self (by decide) (by decide) (by decide) _ n, rfl,
      by simp⟩

theorem readString?_spelled {quote : Char} {cs body : List Char} {k : Nat}
    (h : readString? quote cs = some (body, rest, k)) :
    cs = doubled quote body ++ quote :: rest ∧ ∀ d ∈ rest.head?, d ≠ quote := by
  fun_induction readString? quote cs generalizing body rest k with
  | case1 => cases h
  | case2 more ih =>
    obtain ⟨⟨body, after, k⟩, read, same⟩ := Option.map_eq_some_iff.mp h
    cases same
    obtain ⟨rfl, stop⟩ := ih read
    exact ⟨by simp [doubled], stop⟩
  | case3 d more apart =>
    cases h
    refine ⟨rfl, fun e he => ?_⟩
    obtain rfl : d = e := Option.some.inj he
    exact apart
  | case4 =>
    cases h
    exact ⟨rfl, by simp⟩
  | case5 c more apart ih =>
    obtain ⟨⟨body, after, k⟩, read, same⟩ := Option.map_eq_some_iff.mp h
    cases same
    obtain ⟨rfl, stop⟩ := ih read
    exact ⟨by simp [doubled, apart], stop⟩

theorem readNumber_spelled {c : Char} {cs digits : List Char} (first : c.isDigit = true)
    (h : readNumber (c :: cs) = (digits, rest)) :
    c :: cs = digits ++ rest ∧ Spelled digits (.number (String.ofList digits)) rest := by
  cases spanned : (c :: cs).span Char.isDigit with
  | mk whole after =>
    obtain ⟨more, rfl, rfl, all, stop⟩ := span_split first spanned
    by_cases point : ∃ d places, after = '.' :: d :: places ∧ d.isDigit = true
    · obtain ⟨d, places, rfl, digit⟩ := point
      cases placed : (d :: places).span Char.isDigit with
      | mk places behind =>
        obtain ⟨places, rfl, rfl, allPlaces, stopPlaces⟩ := span_split digit placed
        rw [readNumber_of_point spanned digit placed] at h
        cases h
        exact ⟨by simp, .decimal nofun all nofun allPlaces stopPlaces⟩
    · have alone (d : Char) (places : List Char) (same : after = '.' :: d :: places) :
          d.isDigit = false := by
        by_contra digit
        exact point ⟨d, places, same, by simpa using digit⟩
      rw [readNumber_of_span spanned alone] at h
      cases h
      exact ⟨rfl, .whole nofun all stop alone⟩

theorem readSymbol?_spelled {c : Char} {cs : List Char} {s : Symbol} {k : Nat}
    (comment : c = '-' → cs.head? ≠ some '-') (h : readSymbol? (c :: cs) = some (s, k)) :
    ∃ front, c :: cs = front ++ (c :: cs).drop k ∧
      Spelled front (.symbol s) ((c :: cs).drop k) := by
  unfold readSymbol? at h
  split at h
  case h_5 more equal unequal same =>
    cases same
    cases h
    refine ⟨['<'], rfl, .symbol .less fun d hd => ?_⟩
    obtain ⟨more, rfl⟩ := List.head?_eq_some_iff.mp hd
    have first : d ≠ '=' := fun same => equal more (by rw [same])
    have second : d ≠ '>' := fun same => unequal more (by rw [same])
    simp [Symbol.continuesWith, first, second]
  case h_6 more equal same =>
    cases same
    cases h
    refine ⟨['>'], rfl, .symbol .greater fun d hd => ?_⟩
    obtain ⟨more, rfl⟩ := List.head?_eq_some_iff.mp hd
    have first : d ≠ '=' := fun same => equal more (by rw [same])
    simp [Symbol.continuesWith, first]
  case h_9 more same =>
    cases same
    cases h
    refine ⟨['-'], rfl, .symbol .minus fun d hd => ?_⟩
    have first : d ≠ '-' := fun same => comment rfl (same ▸ hd)
    simp [Symbol.continuesWith, first]
  case h_3 more same =>
    cases same
    cases h
    exact ⟨['<', '>'], rfl, .unequal⟩
  case h_16 => cases h
  -- The other signs are not the beginnings of longer ones.
  all_goals
    rename_i same
    cases same
    cases h
    exact ⟨_, rfl, .symbol _ fun _ _ => rfl⟩

theorem Begins.spelled {cs : List Char} (h : Begins cs l rest) :
    ∃ front, cs = front ++ rest ∧ Spelled front l rest := by
  obtain ⟨c, more, stop, rfl, skip, read, -⟩ := h 0
  unfold readToken at read
  split at read
  · next mark =>
    cases found : readString? c more with
    | none => simp [found] at read
    | some found' =>
      obtain ⟨body, after, k⟩ := found'
      simp only [found, Except.ok.injEq, Prod.mk.injEq, Token.mk.injEq, Place.mk.injEq] at read
      obtain ⟨⟨rfl, -⟩, rfl, -⟩ := read
      obtain ⟨rfl, stop⟩ := readString?_spelled found
      exact ⟨_, by simp, .string mark body stop⟩
  · split at read
    · next digit =>
      cases found : readNumber (c :: more) with
      | mk digits after =>
        simp only [found, Except.ok.injEq, Prod.mk.injEq, Token.mk.injEq, Place.mk.injEq] at read
        obtain ⟨⟨rfl, -⟩, rfl, -⟩ := read
        exact ⟨digits, readNumber_spelled digit found⟩
    · split at read
      · next start =>
        cases found : (c :: more).span isWordPart with
        | mk word after =>
          simp only [found, Except.ok.injEq, Prod.mk.injEq, Token.mk.injEq, Place.mk.injEq] at read
          obtain ⟨⟨rfl, -⟩, rfl, -⟩ := read
          obtain ⟨cs, rfl, rfl, all, stop⟩ := span_split (isWordPart_of_isWordStart start) found
          rw [List.all_cons, Bool.and_eq_true] at all
          exact ⟨c :: cs, rfl, .word start all.2 stop⟩
      · cases found : readSymbol? (c :: more) with
        | none => simp [found] at read
        | some found' =>
          obtain ⟨s, k⟩ := found'
          simp only [found, Except.ok.injEq, Prod.mk.injEq, Token.mk.injEq, Place.mk.injEq] at read
          obtain ⟨⟨rfl, -⟩, rfl, -⟩ := read
          refine readSymbol?_spelled ?_ found
          rintro rfl comment
          obtain ⟨more, rfl⟩ := List.head?_eq_some_iff.mp comment
          change skipGap .line more 2 = _ at skip
          obtain ⟨gap, split, -⟩ := skipGap_split skip
          have longer := congrArg List.length split
          simp only [List.length_append, List.length_cons] at longer
          omega

def Mild (c : Char) : Prop := Text.isBlank c = true ∨ c = '/'

instance (c : Char) : Decidable (Mild c) := inferInstanceAs (Decidable (_ ∨ _))

theorem Mild.eq_false {p : Char → Bool} {c : Char} (h : Mild c) (plain : p c = true → IsPlain c)
    (slash : p '/' = false) : p c = false := by
  rcases h with blank | rfl
  · by_contra holds
    rw [Text.isBlank_of_range (plain (by simpa using holds))] at blank
    cases blank
  · exact slash

theorem toNat_of_isAlpha {c : Char} (h : c.isAlpha = true) : 0x40 < c.toNat :=
  (toNat_of_isWordStart (by rw [isWordStart, h]; rfl)).1

theorem isDigit_of_isAlpha {c : Char} (h : c.isAlpha = true) : c.isDigit = false := by
  by_contra digit
  have letter := toNat_of_isAlpha h
  have range := toNat_of_isDigit (by simpa using digit)
  omega

/-- A text that may take the place of another one behind a token. It begins as the other one does,
with another letter for a letter, or with a gap. -/
structure Resembles (rest rest' : List Char) : Prop where
  head : ∀ d ∈ rest'.head?, Mild d ∨ ∃ e ∈ rest.head?, d = e ∨ d.isAlpha = true ∧ e.isAlpha = true
  point : ∀ d more, rest' = '.' :: d :: more → d.isDigit = true → ∃ more', rest = '.' :: d :: more'

namespace Resembles

theorem refl (rest : List Char) : Resembles rest rest :=
  ⟨fun d hd => .inr ⟨d, hd, .inl rfl⟩, fun _ more same _ => ⟨more, same⟩⟩

theorem of_mild (rest : List Char) (h : ∀ d ∈ rest'.head?, Mild d) : Resembles rest rest' := by
  refine ⟨fun d hd => .inl (h d hd), fun d more same _ => ?_⟩
  subst same
  exact absurd (h '.' rfl) (by decide)

theorem head_digit (h : Resembles rest rest') {d : Char} (first : rest'.head? = some d)
    (digit : d.isDigit = true) : rest.head? = some d := by
  obtain mild | ⟨e, he, rfl | ⟨letter, -⟩⟩ := h.head d first
  · rw [mild.eq_false isPlain_of_isDigit (by decide)] at digit
    cases digit
  · exact he
  · rw [isDigit_of_isAlpha letter] at digit
    cases digit

theorem append_left (h : Resembles rest rest') (before : List Char) :
    Resembles (before ++ rest) (before ++ rest') := by
  match before with
  | [] => exact h
  | [c] =>
    refine ⟨fun d hd => .inr ⟨d, hd, .inl rfl⟩, fun d more same digit => ?_⟩
    obtain ⟨rfl, rfl⟩ := List.cons.inj same
    obtain ⟨more', rfl⟩ := List.head?_eq_some_iff.mp (h.head_digit rfl digit)
    exact ⟨more', rfl⟩
  | c :: c' :: before =>
    refine ⟨fun d hd => .inr ⟨d, hd, .inl rfl⟩, fun d more same _ => ?_⟩
    simp only [List.cons_append, List.cons.injEq] at same
    obtain ⟨rfl, rfl, -⟩ := same
    exact ⟨before ++ rest, rfl⟩

theorem stop (h : Resembles rest rest') {p : Char → Bool} (mild : ∀ d, Mild d → p d = false)
    (letters : ∀ d e, d.isAlpha = true → e.isAlpha = true → p d = p e)
    (stop : ∀ d ∈ rest.head?, p d = false) : ∀ d ∈ rest'.head?, p d = false := by
  intro d hd
  obtain gap | ⟨e, he, rfl | ⟨letter, letter'⟩⟩ := h.head d hd
  · exact mild d gap
  · exact stop d he
  · rw [letters d e letter letter']
    exact stop e he

theorem stop_digit (h : Resembles rest rest') (stop : ∀ d ∈ rest.head?, d.isDigit = false) :
    ∀ d ∈ rest'.head?, d.isDigit = false :=
  h.stop (fun _ mild => mild.eq_false isPlain_of_isDigit (by decide))
    (fun _ _ letter letter' => by rw [isDigit_of_isAlpha letter, isDigit_of_isAlpha letter']) stop

end Resembles

theorem Symbol.continuesWith_range {s : Symbol} {c : Char} (h : s.continuesWith c = true) :
    0x20 < c.toNat ∧ c.toNat ≤ 0x40 := by
  cases s <;> simp only [continuesWith, Bool.or_eq_true, beq_iff_eq, Bool.false_eq_true] at h
  case less => rcases h with rfl | rfl <;> decide
  case greater => subst h; decide
  case minus => subst h; decide

theorem Spelled.mono (h : Spelled front l rest) (like : Resembles rest rest') :
    Spelled front l rest' := by
  cases h with
  | @string quote _ mark body stop =>
    have range : 0x20 < quote.toNat ∧ quote.toNat ≤ 0x40 := by rcases mark with rfl | rfl <;> decide
    have mild (d : Char) (h : Mild d) : (d == quote) = false := by
      refine h.eq_false (p := (· == quote)) (fun same => ?_) ?_
      · obtain rfl := beq_iff_eq.mp same
        exact ⟨range.1, by omega⟩
      · rcases mark with rfl | rfl <;> decide
    have letters {d : Char} (letter : d.isAlpha = true) : (d == quote) = false := by
      have large := toNat_of_isAlpha letter
      exact beq_false_of_ne (by rintro rfl; omega)
    have stop' := like.stop mild (fun d e letter letter' => by rw [letters letter, letters letter'])
      fun d hd => beq_false_of_ne (stop d hd)
    exact .string mark body fun d hd => ne_of_beq_false (stop' d hd)
  | whole nonempty all stop point =>
    refine .whole nonempty all (like.stop_digit stop) fun d more same => ?_
    by_contra digit
    obtain ⟨more', same'⟩ := like.point d more same (by simpa using digit)
    exact digit (point d more' same')
  | decimal nonempty all placed allPlaces stop =>
    exact .decimal nonempty all placed allPlaces (like.stop_digit stop)
  | word start parts stop =>
    refine .word start parts (like.stop (fun d mild => ?_) (fun d e letter letter' => ?_) stop)
    · exact mild.eq_false isPlain_of_isWordPart (by decide)
    · simp [isWordPart, Char.isAlphanum, letter, letter']
  | symbol s stop =>
    refine .symbol s (like.stop (fun d mild => mild.eq_false (fun same => ?_) ?_)
      (fun d e letter letter' => ?_) stop)
    · have range := Symbol.continuesWith_range same
      exact ⟨range.1, by omega⟩
    · cases s <;> decide
    · have large := toNat_of_isAlpha letter
      have large' := toNat_of_isAlpha letter'
      have none {c : Char} (large : 0x40 < c.toNat) : s.continuesWith c = false := by
        by_contra continues
        have range := Symbol.continuesWith_range (by simpa using continues)
        omega
      rw [none large, none large']
  | unequal => exact .unequal

end SqlEngine.Dialect
