import SqlEngine.Proofs.Dialect.Shifting

/-! What may stand between two tokens: blanks, line comments up to the end of their line, and
block comments up to the sign that closes them. The scanner passes over just that. At the end of a
text the end of a line may be missing. -/

namespace SqlEngine.Dialect

def CommentBody (body : List Char) : Prop := ¬ ['*', '/'] <:+: body ++ ['*']

instance (body : List Char) : Decidable (CommentBody body) :=
  inferInstanceAs (Decidable (¬ ['*', '/'] <:+: body ++ ['*']))

inductive Filling : List Char → Prop
  | nil : Filling []
  | blank {c : Char} {rest : List Char} (between : Text.isBlank c = true) (more : Filling rest) :
      Filling (c :: rest)
  | line {body rest : List Char} (inside : '\n' ∉ body) (more : Filling rest) :
      Filling ('-' :: '-' :: (body ++ '\n' :: rest))
  | block {body rest : List Char} (inside : CommentBody body) (more : Filling rest) :
      Filling ('/' :: '*' :: (body ++ '*' :: '/' :: rest))

namespace Filling

variable {gap gap' : List Char}

theorem append (h : Filling gap) (h' : Filling gap') : Filling (gap ++ gap') := by
  induction h with
  | nil => exact h'
  | blank between _ ih => exact .blank between ih
  | line inside _ ih => simpa using Filling.line inside ih
  | block inside _ ih => simpa using Filling.block inside ih

theorem of_blanks (h : ∀ c ∈ gap, Text.isBlank c = true) : Filling gap := by
  induction gap with
  | nil => exact .nil
  | cons c gap ih =>
    rw [List.forall_mem_cons] at h
    exact .blank h.1 (ih h.2)

end Filling

theorem CommentBody.tail {c : Char} {body : List Char} (h : CommentBody (c :: body)) :
    CommentBody body :=
  fun found => h (found.trans (List.suffix_cons c _).isInfix)

theorem CommentBody.not_closed {c : Char} {body rest : List Char} (h : CommentBody (c :: body)) :
    ∀ more, c = '*' → body ++ '*' :: rest ≠ '/' :: more := by
  rintro more rfl same
  cases body with
  | nil => exact absurd (List.cons.inj same).1 (by decide)
  | cons d body =>
    obtain rfl : d = '/' := (List.cons.inj same).1
    exact h ⟨[], body ++ ['*'], rfl⟩

theorem skipGap_line {body : List Char} (inside : '\n' ∉ body) (rest : List Char) (n : Nat) :
    skipGap .line (body ++ '\n' :: rest) n = skipGap .blank rest (n + bytes body + 1) := by
  induction body generalizing n with
  | nil => rfl
  | cons c body ih =>
    rw [List.mem_cons, not_or] at inside
    rw [List.cons_append, skipGap_line_cons, if_neg (Ne.symm inside.1), ih inside.2, bytes_cons,
      ← Nat.add_assoc n]

theorem skipGap_block {body : List Char} (inside : CommentBody body) (opened : Nat)
    (rest : List Char) (n : Nat) : skipGap (.block opened) (body ++ '*' :: '/' :: rest) n =
      skipGap .blank rest (n + bytes body + 2) := by
  induction body generalizing n with
  | nil => rfl
  | cons c body ih =>
    rw [List.cons_append, skipGap_block_cons opened n inside.not_closed, ih inside.tail, bytes_cons,
      ← Nat.add_assoc n]

theorem skipGap_filling {gap : List Char} (h : Filling gap) (rest : List Char) (n : Nat) :
    skipGap .blank (gap ++ rest) n = skipGap .blank rest (n + bytes gap) := by
  induction h generalizing n with
  | nil => rfl
  | @blank c more between _ ih =>
    rw [List.cons_append, skipGap_blank between, ih, bytes_cons, Nat.add_assoc]
  | @line body more inside _ ih =>
    have first : skipGap .blank ('-' :: '-' :: (body ++ '\n' :: more) ++ rest) n =
        skipGap .line (body ++ '\n' :: (more ++ rest)) (n + 2) := by
      rw [List.cons_append, List.cons_append, List.append_assoc]
      rfl
    have size : bytes ('-' :: '-' :: (body ++ '\n' :: more)) =
        1 + (1 + (bytes body + (1 + bytes more))) := by
      simp only [bytes_cons, bytes_append]
      rfl
    rw [first, skipGap_line inside, ih, size]
    congr 1
    omega
  | @block body more inside _ ih =>
    have first : skipGap .blank ('/' :: '*' :: (body ++ '*' :: '/' :: more) ++ rest) n =
        skipGap (.block n) (body ++ '*' :: '/' :: (more ++ rest)) (n + 2) := by
      rw [List.cons_append, List.cons_append, List.append_assoc]
      rfl
    have size : bytes ('/' :: '*' :: (body ++ '*' :: '/' :: more)) =
        1 + (1 + (bytes body + (1 + (1 + bytes more)))) := by
      simp only [bytes_cons, bytes_append]
      rfl
    rw [first, skipGap_block inside, ih, size]
    congr 1
    omega

def Gap.Fills : Gap → List Char → Prop
  | .blank, gap => Filling gap
  | .line, gap => ∃ body more, gap = body ++ '\n' :: more ∧ '\n' ∉ body ∧ Filling more
  | .block _, gap => ∃ body more, gap = body ++ '*' :: '/' :: more ∧ CommentBody body ∧ Filling more

def Gap.FillsUpTo (g : Gap) (gap rest : List Char) : Prop :=
  g.Fills gap ∨ rest = [] ∧ g.Fills (gap ++ ['\n'])

theorem Gap.FillsUpTo.step {g g' : Gap} {mark gap rest : List Char} (h : g'.FillsUpTo gap rest)
    (stepped : ∀ more, g'.Fills more → g.Fills (mark ++ more)) :
    g.FillsUpTo (mark ++ gap) rest := by
  rw [FillsUpTo, List.append_assoc]
  exact h.imp (stepped gap) (And.imp_right (stepped _))

theorem CommentBody.cons {c : Char} {body : List Char} (h : CommentBody body) (rest : List Char)
    (apart : ∀ more, c = '*' → body ++ '*' :: rest ≠ '/' :: more) : CommentBody (c :: body) := by
  intro found
  rw [List.cons_append, List.infix_cons_iff] at found
  rcases found with starts | later
  · obtain ⟨rfl, slash⟩ := List.cons_prefix_cons.mp starts
    cases body with
    | nil => exact absurd (List.cons_prefix_cons.mp slash).1 (by decide)
    | cons d body =>
      obtain ⟨rfl, -⟩ := List.cons_prefix_cons.mp slash
      exact apart _ rfl rfl
  · exact h later

theorem skipGap_fills {g : Gap} {cs : List Char} {n : Nat} {p : Place}
    (h : skipGap g cs n = .ok p) :
    ∃ gap, cs = gap ++ p.rest ∧ p.offset = n + bytes gap ∧ g.FillsUpTo gap p.rest := by
  fun_induction skipGap g cs n with
  | case1 => cases h
  | case2 opened rest n ih =>
    obtain ⟨gap, rfl, offset, fills⟩ := ih h
    refine ⟨['*', '/'] ++ gap, rfl, by rwa [bytes_append, ← Nat.add_assoc], fills.step ?_⟩
    exact fun more filling => ⟨[], more, rfl, by decide, filling⟩
  | case3 opened c rest n closed ih =>
    obtain ⟨gap, rfl, offset, fills⟩ := ih h
    refine ⟨[c] ++ gap, rfl, by rwa [bytes_append, ← Nat.add_assoc], ?_⟩
    rcases fills with ⟨body, more, rfl, inside, fills⟩ | ⟨ends, body, more, whole, inside, fills⟩
    · refine .inl ⟨c :: body, more, rfl, inside.cons ('/' :: (more ++ p.rest)) ?_, fills⟩
      exact fun tail star same => closed tail star (by rw [← same]; simp)
    · have longer := congrArg (c :: ·) whole
      refine .inr ⟨ends, c :: body, more, longer, inside.cons ('/' :: more) ?_, fills⟩
      intro tail star same
      rw [← whole] at same
      cases gap with
      | nil => exact absurd (List.cons.inj same).1 (by decide)
      | cons d gap =>
        obtain rfl : d = '/' := (List.cons.inj same).1
        exact closed _ star rfl
  | case4 n =>
    cases h
    exact ⟨[], rfl, rfl, .inr ⟨rfl, [], [], rfl, List.not_mem_nil, .nil⟩⟩
  | case5 c rest n ih =>
    obtain ⟨gap, rfl, offset, fills⟩ := ih h
    refine ⟨[c] ++ gap, rfl, by rwa [bytes_append, ← Nat.add_assoc], fills.step ?_⟩
    intro more filling
    split at filling
    · next same => exact ⟨[], more, by rw [same]; rfl, List.not_mem_nil, filling⟩
    · next apart =>
      obtain ⟨body, more, rfl, inside, filling⟩ := filling
      exact ⟨c :: body, more, rfl, by simp [Ne.symm apart, inside], filling⟩
  | case6 n =>
    cases h
    exact ⟨[], rfl, rfl, .inl .nil⟩
  | case7 rest n ih =>
    obtain ⟨gap, rfl, offset, fills⟩ := ih h
    refine ⟨['-', '-'] ++ gap, rfl, by rwa [bytes_append, ← Nat.add_assoc], fills.step ?_⟩
    rintro _ ⟨body, more, rfl, inside, filling⟩
    exact .line inside filling
  | case8 rest n ih =>
    obtain ⟨gap, rfl, offset, fills⟩ := ih h
    refine ⟨['/', '*'] ++ gap, rfl, by rwa [bytes_append, ← Nat.add_assoc], fills.step ?_⟩
    rintro _ ⟨body, more, rfl, inside, filling⟩
    exact .block inside filling
  | case9 c rest n line block blank ih =>
    obtain ⟨gap, rfl, offset, fills⟩ := ih h
    refine ⟨[c] ++ gap, rfl, by rwa [bytes_append, ← Nat.add_assoc], fills.step ?_⟩
    exact fun more filling => .blank blank filling
  | case10 c rest n line block solid =>
    cases h
    exact ⟨[], rfl, rfl, .inl .nil⟩

variable {gap rest : List Char}

theorem Gap.Passes.fills (h : Gap.blank.Passes gap rest) : Gap.blank.FillsUpTo gap rest := by
  obtain ⟨gap', split, -, fills⟩ := skipGap_fills (h 0 0 rest [] (List.append_nil rest).symm)
  rwa [List.append_cancel_right split]

theorem Gap.Passes.filling (h : Gap.blank.Passes gap rest) (more : rest ≠ []) : Filling gap :=
  h.fills.resolve_right fun ends => more ends.1

theorem Gap.Passes.filling_end (h : Gap.blank.Passes gap rest) : Filling (gap ++ ['\n']) := by
  rcases h.fills with filling | ⟨-, filling⟩
  · exact filling.append (.blank (by decide) .nil)
  · exact filling

theorem Gap.Passes.stops {u tail : List Char} {c : Char}
    (h : Gap.blank.Passes gap (c :: rest)) (whole : rest = u ++ tail) (n : Nat) :
    skipGap .blank (c :: u) n = .ok ⟨c :: u, n⟩ := by
  have skip : skipGap .blank (gap ++ c :: u) 0 = _ := h 0 0 (c :: u) tail (congrArg (c :: ·) whole)
  rw [skipGap_filling (h.filling (List.cons_ne_nil _ _)), Nat.zero_add] at skip
  exact skipGap_stays skip n

end SqlEngine.Dialect
