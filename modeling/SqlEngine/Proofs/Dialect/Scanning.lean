import SqlEngine.Proofs.Dialect.Cutting
import SqlEngine.Proofs.Success

/-! How the cutting of a text into tokens goes through its characters. A gap or a token is a stretch
of the text. What is taken for it depends on the stretch and on what follows, but it stays the same
when the text ends earlier behind it. -/

namespace SqlEngine.Dialect

def bytes (cs : List Char) : Nat := (cs.map Char.utf8Size).sum

@[simp] theorem bytes_nil : bytes [] = 0 := rfl

@[simp] theorem bytes_cons (c : Char) (cs : List Char) : bytes (c :: cs) = c.utf8Size + bytes cs :=
  rfl

@[simp] theorem bytes_append (cs ds : List Char) : bytes (cs ++ ds) = bytes cs + bytes ds := by
  simp [bytes]

def Gap.openedAt (k : Nat) : Gap → Gap
  | .block _ => .block k
  | g => g

def Gap.Passes (g : Gap) (gap rest : List Char) : Prop :=
  ∀ k n u tail, rest = u ++ tail →
    skipGap (g.openedAt k) (gap ++ u) n = .ok ⟨u, n + bytes gap⟩

theorem skipGap_block_cons {c : Char} {rest : List Char} (opened n : Nat)
    (closed : ∀ more, c = '*' → rest ≠ '/' :: more) :
    skipGap (.block opened) (c :: rest) n = skipGap (.block opened) rest (n + c.utf8Size) := by
  conv_lhs => unfold skipGap
  split
  all_goals first | contradiction | skip
  · next same => exact absurd (List.cons.inj same).2 (closed _ (List.cons.inj same).1)
  · next same same' =>
    cases same
    cases same'
    rfl

theorem skipGap_line_cons (c : Char) (rest : List Char) (n : Nat) :
    skipGap .line (c :: rest) n =
      skipGap (if c = '\n' then .blank else .line) rest (n + c.utf8Size) := rfl

theorem Gap.Passes.step {g g' : Gap} {mark gap rest : List Char} (h : g'.Passes gap rest)
    (stepped : ∀ k n u tail, rest = u ++ tail → ∃ k',
      skipGap (g.openedAt k) (mark ++ (gap ++ u)) n =
        skipGap (g'.openedAt k') (gap ++ u) (n + bytes mark)) : g.Passes (mark ++ gap) rest := by
  intro k n u tail split
  obtain ⟨k', same⟩ := stepped k n u tail split
  rw [List.append_assoc, same, h k' _ u tail split, bytes_append, Nat.add_assoc]

theorem Gap.passes_end {g : Gap} (ends : ∀ k n, skipGap (g.openedAt k) [] n = .ok ⟨[], n⟩) :
    g.Passes [] [] := by
  intro k n u tail split
  obtain ⟨rfl, -⟩ := List.append_eq_nil_iff.mp split.symm
  exact ends k n

theorem ne_cons_of_longer {d : Char} {u tail : List Char} (h : ∀ more, u ++ tail ≠ d :: more)
    (more : List Char) : u ≠ d :: more := by
  rintro rfl
  exact h (more ++ tail) rfl

theorem skipGap_shorter {c : Char} {u tail : List Char} (n : Nat)
    (line : ∀ more, c = '-' → u ++ tail ≠ '-' :: more)
    (block : ∀ more, c = '/' → u ++ tail ≠ '*' :: more) :
    skipGap .blank (c :: u) n =
      if Text.isBlank c then skipGap .blank u (n + c.utf8Size) else .ok ⟨c :: u, n⟩ :=
  skipGap_cons n (fun more hyphen => ne_cons_of_longer (fun more => line more hyphen) more)
    fun more slash => ne_cons_of_longer (fun more => block more slash) more

theorem skipGap_split {g : Gap} {cs : List Char} {n : Nat} {p : Place}
    (h : skipGap g cs n = .ok p) :
    ∃ gap, cs = gap ++ p.rest ∧ p.offset = n + bytes gap ∧ g.Passes gap p.rest := by
  fun_induction skipGap g cs n with
  | case1 => cases h
  | case2 opened rest n ih =>
    obtain ⟨gap, rfl, offset, passes⟩ := ih h
    refine ⟨['*', '/'] ++ gap, rfl, ?_, passes.step fun k n u tail split => ⟨k, rfl⟩⟩
    rwa [bytes_append, ← Nat.add_assoc]
  | case3 opened c rest n closed ih =>
    obtain ⟨gap, rfl, offset, passes⟩ := ih h
    refine ⟨[c] ++ gap, rfl, ?_, passes.step fun k n u tail split => ⟨k, ?_⟩⟩
    · rwa [bytes_append, ← Nat.add_assoc]
    · rw [split, ← List.append_assoc] at closed
      exact skipGap_block_cons k n fun more star =>
        ne_cons_of_longer (fun more => closed more star) more
  | case4 n =>
    cases h
    exact ⟨[], rfl, rfl, Gap.passes_end fun _ _ => rfl⟩
  | case5 c rest n ih =>
    obtain ⟨gap, rfl, offset, passes⟩ := ih h
    refine ⟨[c] ++ gap, rfl, ?_, passes.step fun k n u tail split => ⟨k, ?_⟩⟩
    · rwa [bytes_append, ← Nat.add_assoc]
    · refine (skipGap_line_cons c (gap ++ u) n).trans ?_
      split <;> rfl
  | case6 n =>
    cases h
    exact ⟨[], rfl, rfl, Gap.passes_end fun _ _ => rfl⟩
  | case7 rest n ih =>
    obtain ⟨gap, rfl, offset, passes⟩ := ih h
    refine ⟨['-', '-'] ++ gap, rfl, ?_, passes.step fun k n u tail split => ⟨k, rfl⟩⟩
    rwa [bytes_append, ← Nat.add_assoc]
  | case8 rest n ih =>
    obtain ⟨gap, rfl, offset, passes⟩ := ih h
    refine ⟨['/', '*'] ++ gap, rfl, ?_, passes.step fun k n u tail split => ⟨n, rfl⟩⟩
    rwa [bytes_append, ← Nat.add_assoc]
  | case9 c rest n line block blank ih =>
    obtain ⟨gap, rfl, offset, passes⟩ := ih h
    refine ⟨[c] ++ gap, rfl, ?_, passes.step fun k n u tail split => ⟨k, ?_⟩⟩
    · rwa [bytes_append, ← Nat.add_assoc]
    · rw [split, ← List.append_assoc] at line block
      exact (skipGap_shorter n line block).trans (if_pos blank)
  | case10 c rest n line block solid =>
    cases h
    refine ⟨[], rfl, rfl, fun k n u tail split => ?_⟩
    obtain _ | ⟨d, u⟩ := u
    · rfl
    · obtain ⟨rfl, rfl⟩ := List.cons.inj split
      exact (skipGap_shorter n line block).trans (if_neg solid)

theorem head?_of_longer {p : Char → Prop} {rest u tail : List Char} (split : rest = u ++ tail)
    (h : ∀ d ∈ rest.head?, p d) : ∀ d ∈ u.head?, p d := by
  subst split
  cases u with
  | nil => nofun
  | cons c u => exact h

theorem readString?_split {quote : Char} {cs body after : List Char} {k : Nat}
    (h : readString? quote cs = some (body, after, k)) :
    ∃ front, cs = front ++ quote :: after ∧ k = bytes (front ++ [quote]) ∧
      ∀ u tail, after = u ++ tail →
        readString? quote (front ++ quote :: u) = some (body, u, k) := by
  fun_induction readString? quote cs generalizing body after k with
  | case1 => cases h
  | case2 more ih =>
    obtain ⟨⟨body, after, k⟩, read, same⟩ := Option.map_eq_some_iff.mp h
    cases same
    obtain ⟨front, rfl, rfl, stays⟩ := ih read
    refine ⟨quote :: quote :: front, rfl, ?_, fun u tail split => ?_⟩
    · simp only [List.cons_append, bytes_cons]
      omega
    · show readString? quote (quote :: quote :: (front ++ quote :: u)) = _
      rw [readString?, if_pos rfl, if_pos rfl, stays u tail split, Option.map_some]
  | case3 d more apart =>
    cases h
    refine ⟨[], rfl, rfl, fun u tail split => ?_⟩
    obtain _ | ⟨e, u⟩ := u
    · exact if_pos rfl
    · obtain ⟨rfl, -⟩ := List.cons.inj split
      show readString? quote (quote :: d :: u) = _
      rw [readString?, if_pos rfl, if_neg apart]
  | case4 =>
    cases h
    refine ⟨[], rfl, rfl, fun u tail split => ?_⟩
    obtain ⟨rfl, -⟩ := List.append_eq_nil_iff.mp split.symm
    exact if_pos rfl
  | case5 c rest apart ih =>
    obtain ⟨⟨body, after, k⟩, read, same⟩ := Option.map_eq_some_iff.mp h
    cases same
    obtain ⟨front, rfl, rfl, stays⟩ := ih read
    refine ⟨c :: front, rfl, ?_, fun u tail split => readString?_other apart (stays u tail split)⟩
    rw [List.cons_append, bytes_cons, Nat.add_comm]

def IsPlain (c : Char) : Prop := 0x20 < c.toNat ∧ c.toNat < 0x80

theorem IsPlain.utf8Size {c : Char} (h : IsPlain c) : c.utf8Size = 1 := by
  have small : c.val ≤ 0x7F := UInt32.le_iff_toNat_le.mpr (Nat.le_of_lt_succ h.2)
  simp [Char.utf8Size, small]

theorem bytes_of_plain {cs : List Char} (plain : ∀ c ∈ cs, IsPlain c) : bytes cs = cs.length := by
  induction cs with
  | nil => rfl
  | cons c cs ih =>
    rw [List.forall_mem_cons] at plain
    rw [bytes_cons, ih plain.2, plain.1.utf8Size, List.length_cons, Nat.add_comm]

theorem readSymbol?_split {c : Char} {cs : List Char} {s : Symbol} {k : Nat}
    (h : readSymbol? (c :: cs) = some (s, k)) :
    ∃ more after, cs = more ++ after ∧ k = (c :: more).length ∧ (∀ d ∈ c :: more, IsPlain d) ∧
      ∀ u tail, after = u ++ tail → readSymbol? (c :: (more ++ u)) = some (s, k) := by
  unfold readSymbol? at h
  split at h
  case h_5 rest equal greater same =>
    cases same
    cases h
    have stop : ∀ d ∈ cs.head?, d ≠ '=' ∧ d ≠ '>' := by
      rintro d hd
      obtain ⟨more, rfl⟩ := List.head?_eq_some_iff.mp hd
      exact ⟨fun same => equal more (by rw [same]), fun same => greater more (by rw [same])⟩
    exact ⟨[], cs, rfl, rfl, by simp [IsPlain],
      fun u tail split => readSymbol?_less (head?_of_longer split stop)⟩
  case h_6 rest equal same =>
    cases same
    cases h
    have stop : ∀ d ∈ cs.head?, d ≠ '=' := by
      rintro d hd rfl
      obtain ⟨more, rfl⟩ := List.head?_eq_some_iff.mp hd
      exact equal more rfl
    exact ⟨[], cs, rfl, rfl, by simp [IsPlain],
      fun u tail split => readSymbol?_greater (head?_of_longer split stop)⟩
  case h_16 => cases h
  case h_1 rest same | h_2 rest same | h_3 rest same | h_4 rest same =>
    cases same
    cases h
    exact ⟨[_], rest, rfl, rfl, by simp [IsPlain], fun _ _ _ => rfl⟩
  -- The other signs are not the beginnings of longer ones.
  all_goals
    rename_i same
    cases same
    cases h
    exact ⟨[], cs, rfl, rfl, by simp [IsPlain], fun _ _ _ => rfl⟩

theorem isPlain_of_isDigit {c : Char} (h : c.isDigit = true) : IsPlain c := by
  have := toNat_of_isDigit h
  exact ⟨by omega, by omega⟩

theorem isPlain_of_isWordPart {c : Char} (h : isWordPart c = true) : IsPlain c := by
  rw [isWordPart, Char.isAlphanum, Bool.or_assoc, Bool.or_comm c.isDigit, ← Bool.or_assoc,
    Bool.or_eq_true] at h
  rcases h with letter | digit
  · have := toNat_of_isWordStart letter
    exact ⟨by omega, this.2⟩
  · exact isPlain_of_isDigit digit

theorem span_split {p : Char → Bool} {c : Char} {cs front after : List Char} (first : p c = true)
    (h : (c :: cs).span p = (front, after)) :
    ∃ more, front = c :: more ∧ cs = more ++ after ∧ front.all p = true ∧
      ∀ d ∈ after.head?, p d = false := by
  rw [List.span_eq_takeWhile_dropWhile, List.takeWhile_cons_of_pos first,
    List.dropWhile_cons_of_pos first] at h
  cases h
  refine ⟨_, rfl, List.takeWhile_append_dropWhile.symm, ?_, fun d hd => ?_⟩
  · rw [List.all_cons, first, List.all_takeWhile]
    rfl
  · have stopped := List.head?_dropWhile_not p cs
    rwa [hd] at stopped

theorem readNumber_of_span {cs whole rest : List Char} (h : cs.span Char.isDigit = (whole, rest))
    (stop : ∀ d more, rest = '.' :: d :: more → d.isDigit = false) :
    readNumber cs = (whole, rest) := by
  rw [readNumber, h]
  dsimp only
  split
  · next d more => rw [stop d more rfl, if_neg Bool.false_ne_true]
  · rfl

theorem readNumber_of_point {cs whole more places rest : List Char} {d : Char}
    (h : cs.span Char.isDigit = (whole, '.' :: d :: more)) (digit : d.isDigit = true)
    (placed : (d :: more).span Char.isDigit = (places, rest)) :
    readNumber cs = (whole ++ '.' :: places, rest) := by
  simp only [readNumber, h, digit, if_true, placed]

theorem readNumber_split {c : Char} {cs digits after : List Char} (first : c.isDigit = true)
    (h : readNumber (c :: cs) = (digits, after)) :
    ∃ more, digits = c :: more ∧ cs = more ++ after ∧ (∀ d ∈ c :: more, IsPlain d) ∧
      ∀ u tail, after = u ++ tail → readNumber (c :: (more ++ u)) = (c :: more, u) := by
  have plain {ds : List Char} (all : ds.all Char.isDigit = true) : ∀ d ∈ ds, IsPlain d :=
    fun d hd => isPlain_of_isDigit (List.all_eq_true.mp all d hd)
  cases spanned : (c :: cs).span Char.isDigit with
  | mk whole rest =>
    obtain ⟨more, rfl, rfl, all, stop⟩ := span_split first spanned
    by_cases point : ∃ d places, rest = '.' :: d :: places ∧ d.isDigit = true
    · obtain ⟨d, places, rfl, digit⟩ := point
      cases placed : (d :: places).span Char.isDigit with
      | mk places rest =>
        obtain ⟨places, rfl, rfl, allPlaces, stopPlaces⟩ := span_split digit placed
        have stays (u tail : List Char) (split : rest = u ++ tail) :
            readNumber (c :: (more ++ '.' :: d :: places ++ u)) =
              (c :: (more ++ '.' :: d :: places), u) := by
          have stop : ∀ x ∈ ('.' :: d :: (places ++ u)).head?, x.isDigit = false := stop
          rw [List.append_assoc]
          exact readNumber_of_point (span_append all stop) digit
            (span_append allPlaces (head?_of_longer split stopPlaces))
        have whole := stays rest [] (List.append_nil rest).symm
        rw [List.append_assoc] at whole
        obtain ⟨rfl, rfl⟩ := Prod.mk.inj (whole.symm.trans h)
        refine ⟨more ++ '.' :: d :: places, rfl, by simp, ?_, stays⟩
        exact List.forall_mem_append.mpr
          ⟨plain all, List.forall_mem_cons.mpr ⟨by simp [IsPlain], plain allPlaces⟩⟩
    · have stays (u tail : List Char) (split : rest = u ++ tail) :
          readNumber (c :: (more ++ u)) = (c :: more, u) := by
        refine readNumber_of_span (span_append all (head?_of_longer split stop))
          fun d places same => ?_
        subst same split
        by_contra digit
        exact point ⟨d, places ++ tail, rfl, by simpa using digit⟩
      obtain ⟨rfl, rfl⟩ := Prod.mk.inj ((stays rest [] (List.append_nil rest).symm).symm.trans h)
      exact ⟨more, rfl, rfl, plain all, stays⟩

/-- Wherever they stand, these characters are a token, also in a text that ends earlier. -/
structure Reads (c : Char) (more rest : List Char) (l : Lexeme) : Prop where
  stays : ∀ n u tail, rest = u ++ tail → readToken c (more ++ u) n =
    .ok (⟨l, n, n + bytes (c :: more)⟩, ⟨u, n + bytes (c :: more)⟩)
  solid : ∀ d ∈ (c :: more).getLast?, Text.isBlank d = false
  named : l ≠ .finish

theorem solid_of_plain {cs : List Char} (plain : ∀ c ∈ cs, IsPlain c) :
    ∀ d ∈ cs.getLast?, Text.isBlank d = false :=
  fun d hd => Text.isBlank_of_range (plain d (List.mem_of_getLast? hd))

theorem readToken_split {c : Char} {cs : List Char} {n : Nat} {t : Token} {p : Place}
    (h : readToken c cs n = .ok (t, p)) :
    ∃ more l, cs = more ++ p.rest ∧ t = ⟨l, n, n + bytes (c :: more)⟩ ∧
      p.offset = n + bytes (c :: more) ∧ Reads c more p.rest l := by
  suffices ∃ more after l, cs = more ++ after ∧ Reads c more after l by
    obtain ⟨more, after, l, rfl, reads⟩ := this
    have same := Except.ok.inj ((reads.stays n after [] (List.append_nil after).symm).symm.trans h)
    obtain ⟨rfl, rfl⟩ := Prod.mk.inj same
    exact ⟨more, l, rfl, rfl, rfl, reads⟩
  unfold readToken at h
  split at h
  · next quote =>
    cases read : readString? c cs with
    | none => simp [read] at h
    | some found =>
      obtain ⟨body, after, k⟩ := found
      obtain ⟨front, rfl, rfl, stays⟩ := readString?_split read
      refine ⟨front ++ [c], after, .string (String.ofList body), by simp, ?_, ?_, by simp⟩
      · intro n u tail split
        rw [List.append_assoc, List.singleton_append, readToken, if_pos quote, stays u tail split]
        simp only [bytes_cons, Nat.add_assoc]
      · rw [← List.cons_append, List.getLast?_concat]
        rintro d ⟨⟩
        rcases quote with rfl | rfl <;> decide
  · next other =>
    split at h
    · next digit =>
      cases read : readNumber (c :: cs) with
      | mk digits after =>
        obtain ⟨more, rfl, rfl, plain, stays⟩ := readNumber_split digit read
        refine ⟨more, after, .number (String.ofList (c :: more)), rfl, ?_, solid_of_plain plain,
          by simp⟩
        intro n u tail split
        rw [readToken, if_neg other, if_pos digit, stays u tail split, bytes_of_plain plain]
    · next letter =>
      split at h
      · next start =>
        cases read : (c :: cs).span isWordPart with
        | mk word after =>
          obtain ⟨more, rfl, rfl, all, stop⟩ := span_split (isWordPart_of_isWordStart start) read
          have plain : ∀ d ∈ c :: more, IsPlain d := fun d hd =>
            isPlain_of_isWordPart (List.all_eq_true.mp all d hd)
          refine ⟨more, after, wordLexeme (String.ofList (c :: more)), rfl, ?_,
            solid_of_plain plain, ?_⟩
          · intro n u tail split
            have spanned : (c :: (more ++ u)).span isWordPart = (c :: more, u) :=
              span_append all (head?_of_longer split stop)
            rw [readToken, if_neg other, if_neg letter, if_pos start, spanned, bytes_of_plain plain]
          · unfold wordLexeme
            split <;> simp
      · next sign =>
        cases read : readSymbol? (c :: cs) with
        | none => simp [read] at h
        | some found =>
          obtain ⟨s, k⟩ := found
          obtain ⟨more, after, rfl, rfl, plain, stays⟩ := readSymbol?_split read
          refine ⟨more, after, .symbol s, rfl, ?_, solid_of_plain plain, by simp⟩
          intro n u tail split
          rw [readToken, if_neg other, if_neg letter, if_neg sign, stays u tail split,
            bytes_of_plain plain]
          simp

inductive Cuts : Nat → List Char → List Token → Prop
  | finish {n : Nat} {gap : List Char} (passes : Gap.blank.Passes gap []) :
      Cuts n gap [⟨.finish, n + bytes gap, n + bytes gap⟩]
  | token {n : Nat} {gap : List Char} {c : Char} {more rest : List Char} {l : Lexeme}
      {ts : List Token} (passes : Gap.blank.Passes gap (c :: (more ++ rest)))
      (reads : Reads c more rest l) (others : Cuts (n + bytes gap + bytes (c :: more)) rest ts) :
      Cuts n (gap ++ c :: (more ++ rest))
        (⟨l, n + bytes gap, n + bytes gap + bytes (c :: more)⟩ :: ts)

theorem tokensFrom_finish {cs : List Char} {n m : Nat} (fuel : Nat)
    (skip : skipGap .blank cs n = .ok ⟨[], m⟩) :
    tokensFrom (fuel + 1) ⟨cs, n⟩ = .ok [⟨.finish, m, m⟩] := by
  rw [tokensFrom, skip]
  rfl

theorem tokensFrom_token {c : Char} {cs rest : List Char} {n m : Nat} (fuel : Nat)
    (skip : skipGap .blank cs n = .ok ⟨c :: rest, m⟩) :
    tokensFrom (fuel + 1) ⟨cs, n⟩ =
      (readToken c rest m >>= fun found => (tokensFrom fuel found.2).map (found.1 :: ·)) := by
  rw [tokensFrom, skip]
  show (readToken c rest m >>= fun found =>
    tokensFrom fuel found.2 >>= fun others => pure (found.1 :: others)) = _
  cases readToken c rest m with
  | error e => rfl
  | ok found => cases tokensFrom fuel found.2 <;> rfl

theorem cuts_of_tokensFrom {fuel n : Nat} {cs : List Char} {ts : List Token}
    (h : tokensFrom fuel ⟨cs, n⟩ = .ok ts) (enough : cs.length < fuel) : Cuts n cs ts := by
  induction fuel generalizing n cs ts with
  | zero => cases enough
  | succ fuel ih =>
    cases skipped : skipGap .blank cs n with
    | error e =>
      rw [tokensFrom, skipped] at h
      cases h
    | ok place =>
      obtain ⟨rest, m⟩ := place
      obtain ⟨gap, rfl, rfl, passes⟩ := skipGap_split skipped
      cases rest with
      | nil =>
        rw [tokensFrom_finish fuel skipped] at h
        cases h
        rw [List.append_nil]
        exact .finish passes
      | cons c rest =>
        rw [tokensFrom_token fuel skipped] at h
        obtain ⟨⟨t, p⟩, read, h⟩ := Success.bind_eq_ok.mp h
        obtain ⟨others, cut, rfl⟩ := Success.map_eq_ok.mp h
        obtain ⟨more, l, rfl, rfl, offset, reads⟩ := readToken_split read
        obtain ⟨rest, m⟩ := p
        cases offset
        simp only [List.length_append, List.length_cons] at enough
        exact .token passes reads (ih cut (show rest.length < fuel by omega))

theorem Gap.Passes.restrict {g : Gap} {gap u tail : List Char} (h : g.Passes gap (u ++ tail)) :
    g.Passes gap u :=
  fun k n v more split => h k n v (more ++ tail) (by rw [split, List.append_assoc])

theorem Reads.restrict {c : Char} {more u tail : List Char} {l : Lexeme}
    (h : Reads c more (u ++ tail) l) : Reads c more u l :=
  ⟨fun n v rest split => h.stays n v (rest ++ tail) (by rw [split, List.append_assoc]), h.solid,
    h.named⟩

namespace Lexed

theorem gap {gap : List Char} (passes : Gap.blank.Passes gap []) : Lexed gap [.finish] := by
  intro fuel n enough
  obtain ⟨fuel, rfl⟩ := Nat.exists_eq_add_one.mpr (Nat.zero_lt_of_lt enough)
  have skip := passes 0 n [] [] rfl
  rw [List.append_nil] at skip
  exact ⟨_, tokensFrom_finish fuel skip, rfl⟩

theorem stretch {gap : List Char} {c : Char} {more rest : List Char} {l : Lexeme}
    {ls : List Lexeme} (passes : Gap.blank.Passes gap (c :: (more ++ rest)))
    (reads : Reads c more rest l) (h : Lexed rest ls) :
    Lexed (gap ++ c :: (more ++ rest)) (l :: ls) := by
  intro fuel n enough
  obtain ⟨fuel, rfl⟩ := Nat.exists_eq_add_one.mpr (Nat.zero_lt_of_lt enough)
  have skip := passes 0 n (c :: (more ++ rest)) [] (List.append_nil _).symm
  have read := reads.stays (n + bytes gap) rest [] (List.append_nil rest).symm
  obtain ⟨ts, cut, same⟩ := h fuel (n + bytes gap + bytes (c :: more)) (by
    simp only [List.length_append, List.length_cons] at enough
    omega)
  refine ⟨⟨l, n + bytes gap, n + bytes gap + bytes (c :: more)⟩ :: ts, ?_,
    by rw [List.map_cons, same]⟩
  rw [tokensFrom_token fuel skip, read]
  show (tokensFrom fuel _).map _ = _
  rw [cut]
  rfl

end Lexed

theorem Cuts.lexed {n : Nat} {cs : List Char} {ts : List Token} (h : Cuts n cs ts) :
    Lexed cs (ts.map (·.lexeme)) := by
  induction h with
  | finish passes => exact .gap passes
  | token passes reads _ ih => exact .stretch passes reads ih

variable {b : Char} {cs : List Char} {ls : List Lexeme}

theorem ne_concat_blank {d : Char} (between : Text.isBlank b = true)
    (solid : Text.isBlank d = false) (h : ∀ more, cs ≠ d :: more) (more : List Char) : cs ++ [b] ≠ d :: more := by
  intro same
  obtain _ | ⟨e, cs⟩ := cs
  · cases same
    rw [between] at solid
    cases solid
  · cases same
    exact h cs rfl

theorem skipGap_concat {c : Char} (n : Nat) (between : Text.isBlank b = true)
    (line : ∀ more, c = '-' → cs ≠ '-' :: more) (block : ∀ more, c = '/' → cs ≠ '*' :: more) :
    skipGap .blank (c :: cs ++ [b]) n =
      if Text.isBlank c then skipGap .blank (cs ++ [b]) (n + c.utf8Size)
      else .ok ⟨c :: cs ++ [b], n⟩ :=
  skipGap_cons n
    (fun more hyphen => ne_concat_blank between (by decide) (fun more => line more hyphen) more)
    fun more slash => ne_concat_blank between (by decide) (fun more => block more slash) more

theorem skipGap_of_concat {g : Gap} {n m : Nat} (between : Text.isBlank b = true)
    (h : skipGap g (cs ++ [b]) n = .ok ⟨[], m⟩) : ∃ m', skipGap g cs n = .ok ⟨[], m'⟩ := by
  fun_induction skipGap g cs n with
  | case1 opened n =>
    rw [List.nil_append, skipGap_block_cons opened n fun _ _ => (List.cons_ne_nil _ _).symm] at h
    cases h
  | case2 opened rest n ih => exact ih h
  | case3 opened c rest n closed ih =>
    rw [List.cons_append, skipGap_block_cons opened n fun more star =>
      ne_concat_blank between (by decide) (fun more => closed more star) more] at h
    exact ih h
  | case4 n => exact ⟨n, rfl⟩
  | case5 c rest n ih =>
    rw [List.cons_append, skipGap_line_cons] at h
    exact ih h
  | case6 n => exact ⟨n, rfl⟩
  | case7 rest n ih => exact ih h
  | case8 rest n ih => exact ih h
  | case9 c rest n line block blank ih =>
    rw [skipGap_concat n between line block, if_pos blank] at h
    exact ih h
  | case10 c rest n line block solid =>
    rw [skipGap_concat n between line block, if_neg solid] at h
    cases h

theorem Gap.Passes.of_concat (between : Text.isBlank b = true)
    (h : Gap.blank.Passes (cs ++ [b]) []) : Gap.blank.Passes cs [] := by
  have skip := h 0 0 [] [] rfl
  rw [List.append_nil] at skip
  obtain ⟨m, skip⟩ := skipGap_of_concat between skip
  obtain ⟨gap, rfl, -, passes⟩ := skipGap_split skip
  rwa [List.append_nil]

theorem Cuts.lexed_of_concat {n : Nat} {ts : List Token} (between : Text.isBlank b = true)
    (h : Cuts n (cs ++ [b]) ts) : Lexed cs (ts.map (·.lexeme)) := by
  generalize whole : cs ++ [b] = text at h
  induction h generalizing cs with
  | finish passes =>
    subst whole
    exact .gap (passes.of_concat between)
  | @token n gap c more rest l ts passes reads _ ih =>
    -- A token does not end with a blank, so this one stands behind it.
    obtain rfl | ⟨rest, last, rfl⟩ := rest.eq_nil_or_concat
    · rw [List.append_nil] at whole
      have last : (c :: more).getLast? = some b := by
        rw [← List.getLast?_append_cons gap, ← whole, List.getLast?_concat]
      rw [reads.solid b last] at between
      cases between
    · rw [List.concat_eq_append] at whole passes reads ih
      have split : c :: (more ++ (rest ++ [last])) = c :: (more ++ rest) ++ [last] := by simp
      rw [split] at whole passes
      rw [← List.append_assoc] at whole
      obtain ⟨rfl, -⟩ := List.append_inj' whole rfl
      obtain rfl := List.singleton_inj.mp (List.append_cancel_left whole)
      exact .stretch passes.restrict reads.restrict (ih rfl)

namespace Lexed

theorem of_blank_cons (between : Text.isBlank b = true) (h : Lexed (b :: cs) ls) : Lexed cs ls := by
  obtain ⟨ts, cut, rfl⟩ := h _ 0 (Nat.lt_succ_self _)
  have same : tokensFrom ((b :: cs).length + 1) ⟨b :: cs, 0⟩ =
      tokensFrom ((b :: cs).length + 1) ⟨cs, 0 + b.utf8Size⟩ := by
    rw [tokensFrom, tokensFrom, skipGap_blank between]
  rw [same] at cut
  exact (cuts_of_tokensFrom cut (by simp)).lexed

theorem of_concat_blank (between : Text.isBlank b = true) (h : Lexed (cs ++ [b]) ls) :
    Lexed cs ls := by
  obtain ⟨ts, cut, rfl⟩ := h _ 0 (Nat.lt_succ_self _)
  exact (cuts_of_tokensFrom cut (Nat.lt_succ_self _)).lexed_of_concat between

theorem trimStart (h : Lexed cs ls) : Lexed (Text.trimStart cs) ls := by
  induction cs with
  | nil => exact h
  | cons c cs ih =>
    rw [Text.trimStart, List.dropWhile_cons]
    split
    · next blank => exact ih (h.of_blank_cons blank)
    · exact h

theorem trimEnd (h : Lexed cs ls) : Lexed (Text.trimEnd cs) ls := by
  induction cs using List.reverseRecOn with
  | nil => exact h
  | append_singleton cs c ih =>
    rw [Text.trimEnd, List.reverse_append, List.reverse_singleton, List.singleton_append,
      List.dropWhile_cons]
    split
    · next blank => exact ih (h.of_concat_blank blank)
    · rw [List.reverse_cons, List.reverse_reverse]
      exact h

end Lexed

end SqlEngine.Dialect
