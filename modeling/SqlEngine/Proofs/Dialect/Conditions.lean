import SqlEngine.Proofs.Dialect.Phrases

/-! Conditions that are written out read back as themselves, whatever their parts are. -/

namespace SqlEngine.Dialect

open Reader Grammar

variable {rest heads : List Lexeme}

theorem lexemesOf_flag (k : Keyword) (present : Bool) :
    Word.lexemesOf (Word.flag k present) = if present then [.keyword k] else [] := by
  cases present <;> rfl

def testHeads : List Lexeme :=
  [.keyword .IS, .keyword .NOT, .keyword .LIKE, .symbol .equal, .symbol .notEqual, .symbol .less,
    .symbol .greater, .symbol .lessEqual, .symbol .greaterEqual]

theorem Test.starts (t : Test) (ls : List Lexeme) : Starts testHeads (Word.lexemesOf t.words ++ ls) := by
  cases t with
  | compare op v => cases op <;> exact ⟨_, by decide, _, rfl⟩
  | like pattern negated => cases negated <;> exact ⟨_, by decide, _, rfl⟩
  | isNull negated => exact ⟨_, by decide, _, rfl⟩

theorem comparison_reads (op : Comparison) : Reads comparison [.symbol op.symbol] op rest := by
  cases op <;> exact .look rfl (.bind_cons .pass (.pure _))

theorem likePattern_reads (pattern : String) :
    Reads likePattern (literalLexemes (.text pattern)) pattern rest :=
  .last (literal_reads trivial) (.pure pattern)

theorem test_reads {t : Test} (h : t.WellFormed) :
    Reads test (Word.lexemesOf t.words) t rest := by
  cases t with
  | compare op v =>
    have compared : Reads (do
        let op ← comparison
        return Test.compare op (← literal)) (.symbol op.symbol :: (literalLexemes v ++ []))
        (.compare op v) rest :=
      .bind_cons (comparison_reads op) (.bind (literal_reads h) (.pure _))
    refine .look (l := .symbol op.symbol) rfl ?_
    exact compared
  | like pattern negated =>
    cases negated with
    | true =>
      refine .look rfl (.bind_cons .pass (.bind_cons .expect ?_))
      exact .bind_cons (likePattern_reads pattern) (.pure _)
    | false =>
      refine .look rfl (.bind_cons .pass ?_)
      exact .bind_cons (likePattern_reads pattern) (.pure _)
  | isNull negated =>
    cases negated with
    | true =>
      refine .look rfl (.bind_cons .pass ?_)
      exact .bind_cons .accept (.bind_cons .expect (.pure _))
    | false =>
      refine .look rfl (.bind_cons .pass ?_)
      exact .skip (.decline nofun) (.bind_cons .expect (.pure _))

namespace Condition

def alternatives : Condition → Condition × List Condition
  | .either left right => (left.alternatives.1, left.alternatives.2 ++ [right])
  | c => (c, [])

def factors : Condition → Condition × List Condition
  | .both left right => (left.factors.1, left.factors.2 ++ [right])
  | c => (c, [])

theorem alternatives_fold (c : Condition) : c.alternatives.2.foldl .either c.alternatives.1 = c := by
  induction c with
  | either left right ihLeft _ => rw [alternatives, List.foldl_concat, ihLeft]
  | _ => rfl

theorem factors_fold (c : Condition) : c.factors.2.foldl .both c.factors.1 = c := by
  induction c with
  | both left right ihLeft _ => rw [factors, List.foldl_concat, ihLeft]
  | _ => rfl

theorem alternatives_words (c : Condition) :
    c.words .disjunction = c.alternatives.1.words .conjunction ++
      c.alternatives.2.flatMap fun d => .keyword .OR :: d.words .conjunction := by
  induction c with
  | either left right ihLeft _ =>
    rw [words, alternatives, ihLeft, List.flatMap_append, List.append_assoc]
    simp
  | both => simp [alternatives, words]
  | negation => simp [alternatives, words]
  | test => simp [alternatives, words]

theorem factors_words (c : Condition) :
    c.words .conjunction = c.factors.1.words .term ++
      c.factors.2.flatMap fun d => .keyword .AND :: d.words .term := by
  induction c with
  | both left right ihLeft _ =>
    rw [words, factors, ihLeft, List.flatMap_append, List.append_assoc]
    · simp
    · nofun
  | either => simp [factors, words]
  | negation => simp [factors, words]
  | test => simp [factors, words]

def depth : Condition → Nat
  | .both left right => max left.depth right.depth + 1
  | .either left right => max left.depth right.depth + 1
  | .negation inner => inner.depth + 1
  | .test .. => 1

theorem depth_le_length (c : Condition) (level : Level) :
    c.depth ≤ (Word.lexemesOf (c.words level)).length := by
  induction c generalizing level with
  | both left right ihLeft ihRight =>
    have left := ihLeft .conjunction
    have right := ihRight .term
    cases level <;> simp [words, depth, Word.parentheses] <;> omega
  | either left right ihLeft ihRight =>
    have left := ihLeft .disjunction
    have right := ihRight .conjunction
    cases level <;> simp [words, depth, Word.parentheses] <;> omega
  | negation inner ih =>
    have inner := ih .term
    cases level <;> simp [words, depth] <;> omega
  | test column tested =>
    have present := (tested.starts []).ne_nil
    rw [List.append_nil, ← List.length_pos_iff] at present
    cases level <;> simp [words, depth] <;> omega

end Condition

theorem leftChain_reads {k : Keyword} {combine : Condition → Condition → Condition}
    {item : Reader Condition} {lexemes : Condition → List Lexeme} {first : Condition}
    {more : List Condition} (follow : Starts heads rest) (apart : .keyword k ∉ heads)
    (each : ∀ c ∈ first :: more, ∀ after, Starts (.keyword k :: heads) after →
      Reads item (lexemes c) c after) :
    Reads (leftChain k combine item) (lexemes first ++ more.flatMap fun c => .keyword k :: lexemes c)
      (more.foldl combine first) rest :=
  .separated follow apart each

section

variable {c : Condition} {d : Nat}

def TermReads (c : Condition) (d : Nat) : Prop :=
  ∀ rest, Reads (term d) (Word.lexemesOf (c.words .term)) c rest

def ConjunctionReads (c : Condition) (d : Nat) : Prop :=
  ∀ heads rest, Starts heads rest → .keyword .AND ∉ heads →
    Reads (leftChain .AND .both (term d)) (Word.lexemesOf (c.words .conjunction)) c rest

def DisjunctionReads (c : Condition) (d : Nat) : Prop :=
  ∀ heads rest, Starts heads rest → .keyword .AND ∉ heads → .keyword .OR ∉ heads →
    Reads (disjunction (term d)) (Word.lexemesOf (c.words .disjunction)) c rest

theorem conjunctionReads (h : ∀ x ∈ c.factors.1 :: c.factors.2, TermReads x d) :
    ConjunctionReads c d := by
  intro heads rest follow apart
  have chain : Reads (leftChain .AND .both (term d)) _ (c.factors.2.foldl .both c.factors.1) rest :=
    leftChain_reads follow apart fun x hx after _ => h x hx after
  rw [c.factors_fold] at chain
  rw [c.factors_words, Word.lexemesOf_append, Word.lexemesOf_flatMap]
  exact chain

theorem disjunctionReads (h : ∀ x ∈ c.alternatives.1 :: c.alternatives.2, ConjunctionReads x d) :
    DisjunctionReads c d := by
  intro heads rest follow notAnd notOr
  have chain : Reads (disjunction (term d)) _
      (c.alternatives.2.foldl .either c.alternatives.1) rest :=
    leftChain_reads follow notOr fun x hx after starts =>
      h x hx _ after starts (by simpa using notAnd)
  rw [c.alternatives_fold] at chain
  rw [c.alternatives_words, Word.lexemesOf_append, Word.lexemesOf_flatMap]
  exact chain

theorem termReads_parentheses (h : DisjunctionReads c d)
    (compound : c.words .term = Word.parentheses (c.words .disjunction)) : TermReads c (d + 1) := by
  intro rest
  rw [compound, Word.parentheses, Word.lexemesOf_append, Word.lexemesOf_cons]
  refine .skip (.decline nofun) (.bind_cons .accept ?_)
  exact .bind (h _ _ (Starts.cons _ _) (by decide) (by decide)) (.bind_cons .expect (.pure _))

theorem termReads_test {column : String} {tested : Test} (operand : IsOperand column)
    (h : tested.WellFormed) : TermReads (.test column tested) (d + 1) := by
  intro rest
  obtain ⟨name, text, named⟩ := operand_reads operand (tested.starts rest) (by decide)
  have head {l : Lexeme} (apart : ∀ name, l ≠ .identifier name) :
      ((cut column ++ Word.lexemesOf tested.words) ++ rest).head? ≠ some l := by
    rw [List.append_assoc]
    exact operand.head?_cut_ne apart
  refine .skip (.decline (head nofun)) (.skip (.decline (head nofun)) ?_)
  refine .bind named (.last (test_reads h) ?_)
  rw [text]
  exact .pure _

/-- With enough depth each part of a condition is read in its place. -/
theorem parts_read (h : c.WellFormed) (enough : c.depth ≤ d) :
    TermReads c d ∧ (∀ x ∈ c.factors.1 :: c.factors.2, TermReads x d) ∧
      ∀ x ∈ c.alternatives.1 :: c.alternatives.2, ConjunctionReads x d := by
  induction c generalizing d with
  | both left right ihLeft ihRight =>
    rw [Condition.depth] at enough
    obtain ⟨d, rfl⟩ := Nat.exists_eq_add_one.mpr (Nat.zero_lt_of_lt enough)
    have factors (e : Nat) (le : d ≤ e) :
        ∀ x ∈ left.factors.1 :: (left.factors.2 ++ [right]), TermReads x e := by
      rw [← List.cons_append]
      refine List.forall_mem_append.mpr ⟨(ihLeft h.1 (by omega)).2.1, ?_⟩
      exact List.forall_mem_singleton.mpr (ihRight h.2 (by omega)).1
    have whole (e : Nat) (le : d ≤ e) : ∀ x ∈ [Condition.both left right], ConjunctionReads x e :=
      List.forall_mem_singleton.mpr (conjunctionReads (factors e le))
    refine ⟨?_, factors _ (Nat.le_succ d), whole _ (Nat.le_succ d)⟩
    exact termReads_parentheses (disjunctionReads (whole d (Nat.le_refl d))) rfl
  | either left right ihLeft ihRight =>
    rw [Condition.depth] at enough
    obtain ⟨d, rfl⟩ := Nat.exists_eq_add_one.mpr (Nat.zero_lt_of_lt enough)
    have alternatives (e : Nat) (le : d ≤ e) :
        ∀ x ∈ left.alternatives.1 :: (left.alternatives.2 ++ [right]), ConjunctionReads x e := by
      rw [← List.cons_append]
      refine List.forall_mem_append.mpr ⟨(ihLeft h.1 (by omega)).2.2, ?_⟩
      exact List.forall_mem_singleton.mpr (conjunctionReads (ihRight h.2 (by omega)).2.1)
    have whole : TermReads (.either left right) (d + 1) :=
      termReads_parentheses (disjunctionReads (alternatives d (Nat.le_refl d))) rfl
    exact ⟨whole, List.forall_mem_singleton.mpr whole, alternatives _ (Nat.le_succ d)⟩
  | negation inner ih =>
    rw [Condition.depth] at enough
    obtain ⟨d, rfl⟩ := Nat.exists_eq_add_one.mpr (Nat.zero_lt_of_lt enough)
    have whole : TermReads (.negation inner) (d + 1) := fun rest =>
      .bind_cons .accept (.last ((ih h (by omega)).1 rest) (.pure _))
    have single : ∀ x ∈ [Condition.negation inner], TermReads x (d + 1) :=
      List.forall_mem_singleton.mpr whole
    exact ⟨whole, single, List.forall_mem_singleton.mpr (conjunctionReads single)⟩
  | test column tested =>
    rw [Condition.depth] at enough
    obtain ⟨d, rfl⟩ := Nat.exists_eq_add_one.mpr (Nat.zero_lt_of_lt enough)
    have whole : TermReads (.test column tested) (d + 1) := termReads_test h.1 h.2
    have single : ∀ x ∈ [Condition.test column tested], TermReads x (d + 1) :=
      List.forall_mem_singleton.mpr whole
    exact ⟨whole, single, List.forall_mem_singleton.mpr (conjunctionReads single)⟩

end

theorem condition_reads {c : Condition} (h : c.WellFormed) (follow : Starts heads rest)
    (notAnd : .keyword .AND ∉ heads) (notOr : .keyword .OR ∉ heads) :
    Reads condition (Word.lexemesOf (c.words .disjunction)) c rest := by
  intro more ts same
  have length := congrArg List.length same
  have deep := c.depth_le_length .disjunction
  rw [List.length_map, List.length_append] at length
  have parts := parts_read (d := ts.length) h (by omega)
  exact disjunctionReads parts.2.2 heads rest follow notAnd notOr more ts same

end SqlEngine.Dialect
