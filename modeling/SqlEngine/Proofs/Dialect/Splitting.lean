import SqlEngine.Dialect.Split
import SqlEngine.Proofs.Dialect.Scanning

/-! What the statements of a script are cut into. A piece of the script between two semicolon tokens
has the tokens that stand there, since none of them and no comment goes on behind the piece. So the
statements have the tokens of the script. A piece without tokens is left out if it is blank, but not
if it has a comment. -/

namespace SqlEngine.Dialect

theorem sliceChars_piece {start n : Nat} (inside : start ≤ n) (piece after : List Char) :
    sliceChars (piece ++ after) n start (n + bytes piece) = piece := by
  induction piece generalizing n with
  | nil => cases after <;> simp [sliceChars]
  | cons c piece ih =>
    have size := c.utf8Size_pos
    have same : n + bytes (c :: piece) = n + c.utf8Size + bytes piece := by
      rw [bytes_cons, Nat.add_assoc]
    rw [List.cons_append, sliceChars, if_neg (by omega), if_pos inside, same, ih (by omega)]

theorem sliceChars_append (before piece after : List Char) (n : Nat) :
    sliceChars (before ++ (piece ++ after)) n (n + bytes before) (n + bytes before + bytes piece) =
      piece := by
  induction before generalizing n with
  | nil => exact sliceChars_piece (Nat.le_refl _) piece after
  | cons c before ih =>
    have size := c.utf8Size_pos
    have same : n + bytes (c :: before) = n + c.utf8Size + bytes before := by
      rw [bytes_cons, Nat.add_assoc]
    rw [List.cons_append, sliceChars, if_neg (by rw [same]; omega), if_neg (by rw [same]; omega),
      same, ih]

theorem slice_eq {script : String} {before piece after : List Char}
    (whole : script.toList = before ++ (piece ++ after)) :
    slice script (bytes before) (bytes before + bytes piece) = String.ofList piece := by
  have sliced := sliceChars_append before piece after 0
  rw [Nat.zero_add] at sliced
  rw [slice, whole, sliced]

/-- The lexemes between the semicolons. -/
def groups (ts : List Token) : List (List Lexeme) :=
  (ts.map (·.lexeme)).dropLast.splitOn (.symbol .semicolon)

def Leads (opened : List Char) (ls : List Lexeme) (rest : List Char) : Prop :=
  ∀ u tail ls', rest = u ++ tail → Lexed u ls' → Lexed (opened ++ u) (ls ++ ls')

theorem leads_nil (rest : List Char) : Leads [] [] rest := fun _ _ _ _ h => h

theorem Leads.token {opened gap more rest : List Char} {c : Char} {ls : List Lexeme} {l : Lexeme}
    (h : Leads opened ls (gap ++ c :: (more ++ rest)))
    (passes : Gap.blank.Passes gap (c :: (more ++ rest))) (reads : Reads c more rest l) :
    Leads (opened ++ (gap ++ c :: more)) (ls ++ [l]) rest := by
  rintro u tail ls' rfl lexed
  have split : c :: (more ++ (u ++ tail)) = c :: (more ++ u) ++ tail := by simp
  rw [split] at passes
  have longer := h (gap ++ c :: (more ++ u)) tail (l :: ls') (by simp)
    (.stretch passes.restrict reads.restrict lexed)
  simpa using longer

theorem Leads.piece {script : String} {before opened gap rest : List Char} {ls : List Lexeme}
    (h : Leads opened ls (gap ++ rest))
    (whole : script.toList = before ++ (opened ++ (gap ++ rest))) (passes : Gap.blank.Passes gap rest) :
    Lexed (slice script (bytes before) (bytes before + bytes opened + bytes gap)).toList
      (ls ++ [.finish]) := by
  rw [← List.append_assoc opened] at whole
  rw [Nat.add_assoc, ← bytes_append, slice_eq whole, String.toList_ofList]
  exact h gap rest _ rfl (.gap (Gap.Passes.restrict passes))

theorem Cuts.ne_nil {n : Nat} {cs : List Char} {ts : List Token} (h : Cuts n cs ts) : ts ≠ [] := by
  cases h <;> nofun

theorem Lexeme.endsStatement_iff {l : Lexeme} (h : l ≠ .finish) :
    l.endsStatement = true ↔ l = .symbol .semicolon := by
  cases l with
  | symbol s => cases s <;> simp [Lexeme.endsStatement]
  | finish => exact absurd rfl h
  | _ => simp [Lexeme.endsStatement]

/-- A piece that is open at a place has the lexemes since the last semicolon. -/
theorem Cuts.pieces {script : String} {n : Nat} {cs : List Char} {ts : List Token}
    (h : Cuts n cs ts) {before opened : List Char} {ls : List Lexeme}
    (whole : script.toList = before ++ (opened ++ cs)) (place : n = bytes before + bytes opened)
    (leads : Leads opened ls cs) (apart : ∀ l ∈ ls, (l == .symbol .semicolon) = false) :
    List.Forall₂ (fun piece group => Lexed piece.toList (group ++ [.finish]))
      (piecesFrom script (bytes before) ts)
      ((ls ++ (ts.map (·.lexeme)).dropLast).splitOn (.symbol .semicolon)) := by
  induction h generalizing before opened ls with
  | @finish n gap passes =>
    subst place
    have last : (ls ++ []).splitOn (.symbol .semicolon) = [ls] := by
      rw [List.append_nil]
      exact List.splitOnP_eq_singleton apart
    rw [List.map_singleton, List.dropLast_singleton, last]
    rw [← List.append_nil gap] at whole leads
    exact .cons (leads.piece whole passes) .nil
  | @token n gap c more rest l ts passes reads others ih =>
    subst place
    have first : (l :: ts.map (·.lexeme)).dropLast = l :: (ts.map (·.lexeme)).dropLast :=
      List.dropLast_cons_of_ne_nil (List.map_eq_nil_iff.not.mpr others.ne_nil)
    rw [List.map_cons, first, piecesFrom]
    by_cases semicolon : l = .symbol .semicolon
    · subst semicolon
      have parts : (ls ++ .symbol .semicolon :: (ts.map (·.lexeme)).dropLast).splitOn
          (.symbol .semicolon) = ls :: (ts.map (·.lexeme)).dropLast.splitOn (.symbol .semicolon) :=
        List.splitOnP_append_cons_of_forall_mem apart _ (by decide) _
      have next := @ih (before ++ (opened ++ (gap ++ c :: more))) [] [] (by simp [whole])
        (by simp [Nat.add_assoc]) (leads_nil rest) nofun
      rw [parts]
      refine .cons (leads.piece whole passes) ?_
      simpa [Nat.add_assoc] using next
    · have goesOn : ¬ l.endsStatement = true := by
        rw [Lexeme.endsStatement_iff reads.named]
        exact semicolon
      have next := @ih before (opened ++ (gap ++ c :: more)) (ls ++ [l]) (by simp [whole])
        (by simp [Nat.add_assoc]) (leads.token passes reads)
        (List.forall_mem_append.mpr ⟨apart, by simpa using semicolon⟩)
      rw [if_neg goesOn]
      simpa using next

theorem piecesFrom_groups {script : String} {ts : List Token} (h : tokens script = .ok ts) :
    List.Forall₂ (fun piece group => Lexed piece.toList (group ++ [.finish]))
      (piecesFrom script 0 ts) (groups ts) :=
  @Cuts.pieces script 0 _ ts (cuts_of_tokensFrom h (Nat.lt_succ_self _)) [] [] [] rfl rfl
    (leads_nil _) nofun

theorem Lexed.trim {text : String} {ls : List Lexeme} (h : Lexed text.toList ls) :
    Lexed (Text.trim text).toList ls := by
  rw [Text.trim, String.toList_ofList]
  exact h.trimStart.trimEnd

theorem Lexed.unique {cs : List Char} {ls ls' : List Lexeme} (h : Lexed cs ls) (h' : Lexed cs ls') :
    ls = ls' := by
  obtain ⟨ts, cut, rfl⟩ := h _ 0 (Nat.lt_succ_self _)
  obtain ⟨ts', cut', rfl⟩ := h' _ 0 (Nat.lt_succ_self _)
  rw [cut] at cut'
  cases cut'
  rfl

theorem cut_of_lexed {text : String} {ls : List Lexeme} (h : Lexed text.toList (ls ++ [.finish])) :
    cut text = ls := by
  obtain ⟨ts, tokens, same⟩ := tokens_of_lexed h
  rw [cut, tokens]
  simp only [same, List.dropLast_concat]

theorem exists_cuts {pieces : List String} {gs : List (List Lexeme)}
    (h : List.Forall₂ (fun piece group => Lexed piece.toList (group ++ [.finish])) pieces gs) :
    ∃ cuts, List.Forall₂ (fun text group => Lexed text.toList (group ++ [.finish]))
        ((pieces.map Text.trim).filter (· ≠ "")) cuts ∧
      cuts.filter (· ≠ []) = gs.filter (· ≠ []) ∧
      (cuts = gs.filter (· ≠ []) ↔ ∀ piece ∈ pieces, cut piece = [] → Text.trim piece = "") := by
  induction h with
  | nil => exact ⟨[], .nil, rfl, by simp⟩
  | @cons piece group pieces gs first _ ih =>
    obtain ⟨cuts, lexed, same, iff⟩ := ih
    have alone : cut piece = group := cut_of_lexed first
    rw [List.map_cons, List.forall_mem_cons, alone]
    by_cases blank : Text.trim piece = ""
    · have empty : group = [] := by
        have none := first.trim
        rw [blank] at none
        exact List.append_cancel_right (none.unique .nil)
      subst empty
      rw [List.filter_cons_of_neg (by simpa using blank), List.filter_cons_of_neg (by simp)]
      exact ⟨cuts, lexed, same, iff.trans (and_iff_right fun _ => blank).symm⟩
    · rw [List.filter_cons_of_pos (by simpa using blank)]
      refine ⟨group :: cuts, .cons first.trim lexed, ?_⟩
      by_cases empty : group = []
      · subst empty
        rw [List.filter_cons_of_neg (by simp), List.filter_cons_of_neg (by simp)]
        refine ⟨same, fun all => ?_, fun all => absurd (all.1 rfl) blank⟩
        have listed : [] ∈ gs.filter (· ≠ []) := all ▸ List.mem_cons_self
        simp at listed
      · rw [List.filter_cons_of_pos (by simpa using empty),
          List.filter_cons_of_pos (by simpa using empty)]
        refine ⟨by rw [same], ?_⟩
        rw [List.cons.injEq, and_iff_right rfl, iff]
        exact (and_iff_right fun none => absurd none empty).symm

/-- The texts of the statements of a script have the lexemes between its semicolons. They are the
groups that are not empty if each piece without tokens is blank. A piece that has only comments is
taken for a statement. -/
theorem statementTexts_groups {script : String} {ts : List Token} (h : tokens script = .ok ts) :
    ∃ texts cuts, statementTexts script = .ok texts ∧
      List.Forall₂ (fun text group => ∃ us, tokens text = .ok us ∧
        us.map (·.lexeme) = group ++ [.finish]) texts cuts ∧
      cuts.filter (· ≠ []) = (groups ts).filter (· ≠ []) ∧
      (cuts = (groups ts).filter (· ≠ []) ↔
        ∀ piece ∈ piecesFrom script 0 ts, cut piece = [] → Text.trim piece = "") := by
  obtain ⟨cuts, lexed, same, iff⟩ := exists_cuts (piecesFrom_groups h)
  refine ⟨_, cuts, ?_, lexed.imp fun _ _ => tokens_of_lexed, same, iff⟩
  rw [statementTexts, h]
  rfl

/-- Semicolons in a string and in two comments, a character of two bytes and an empty piece. -/
theorem statementTexts_groups_quoted :
    let script := "SELECT 'a;é' -- ;\n;; x /* ; */ "
    let ts : List Token := [⟨.keyword .SELECT, 0, 6⟩, ⟨.string "a;é", 7, 13⟩,
      ⟨.symbol .semicolon, 19, 20⟩, ⟨.symbol .semicolon, 20, 21⟩, ⟨.identifier "x", 22, 23⟩,
      ⟨.finish, 32, 32⟩]
    tokens script = .ok ts ∧ ∃ texts, statementTexts script = .ok texts ∧
      List.Forall₂ (fun text group => ∃ us, tokens text = .ok us ∧
        us.map (·.lexeme) = group ++ [.finish]) texts
        [[.keyword .SELECT, .string "a;é"], [.identifier "x"]] := by
  intro script ts
  have cutUp : tokens script = .ok ts := by decide +kernel
  obtain ⟨texts, cuts, split, alone, -, all⟩ := statementTexts_groups cutUp
  have groups : cuts = [[.keyword .SELECT, .string "a;é"], [.identifier "x"]] :=
    (all.mpr (by decide +kernel)).trans (by decide +kernel)
  exact ⟨cutUp, texts, split, groups ▸ alone⟩

/-- A comment behind the last semicolon is a statement, which has no tokens. -/
theorem statementTexts_astray :
    statementTexts "SHOW TABLES; -- done" = .ok ["SHOW TABLES", "-- done"] ∧
    (tokens "SHOW TABLES; -- done").map groups = .ok [[.keyword .SHOW, .keyword .TABLES], []] ∧
    tokens "-- done" = .ok [⟨.finish, 7, 7⟩] := by
  decide +kernel

end SqlEngine.Dialect
