import SqlEngine.Proofs.Dialect.Tables

/-! Where a list of tokens stops being a statement. What comes before that token begins a statement,
and what goes on with that token does not. Most failures name that token itself. -/

namespace SqlEngine.Dialect

open Reader

/-- The tokens begin a list that is accepted. -/
def Viable (read : List Token) : Prop :=
  ∃ more s, Ended ((read ++ more).map (·.lexeme)) ∧ Statement.ofTokens (read ++ more) = .ok s

theorem ofTokens_eq_ok {ts : List Token} {s : Statement} :
    Statement.ofTokens ts = .ok s ↔ ∃ left, Grammar.statement ts = .ok (s, left) := by
  rw [Statement.ofTokens, Success.map_eq_ok]
  constructor
  · rintro ⟨⟨s, left⟩, answered, rfl⟩
    exact ⟨left, answered⟩
  · rintro ⟨left, answered⟩
    exact ⟨(s, left), answered, rfl⟩

theorem ofTokens_eq_error {ts : List Token} {failure : Failure} :
    Statement.ofTokens ts = .error failure ↔ Grammar.statement ts = .error failure := by
  rw [Statement.ofTokens]
  cases Grammar.statement ts with
  | ok answer => simp [Except.map]
  | error e => simp [Except.map]

theorem Viable.of_append {read more : List Token} (h : Viable (read ++ more)) : Viable read := by
  obtain ⟨rest, s, ended, accepted⟩ := h
  rw [List.append_assoc] at ended accepted
  exact ⟨more ++ rest, s, ended, accepted⟩

theorem Viable.of_reads {read : List Token} {more : List Lexeme} {s : Statement}
    (reads : Reader.Reads Grammar.statement (read.map (·.lexeme) ++ more) s [.finish]) :
    Viable read := by
  let placed (l : Lexeme) : Token := ⟨l, 0, 0⟩
  have lexemes : (read ++ (more ++ [Lexeme.finish]).map placed).map (·.lexeme) =
      read.map (·.lexeme) ++ more ++ [.finish] := by
    simp [Function.comp_def, placed]
  obtain ⟨left, answered, -⟩ := reads (List.cons_ne_nil _ _) _ lexemes
  refine ⟨_, s, ?_, ofTokens_eq_ok.mpr ⟨left, answered⟩⟩
  rw [lexemes]
  exact Ended.singleton.append _

theorem not_viable {read : List Token} (stuck : Stuck Grammar.statement (read.map (·.lexeme))) :
    ¬Viable read := by
  rintro ⟨more, s, ended, accepted⟩
  obtain ⟨left, answered⟩ := ofTokens_eq_ok.mp accepted
  exact stuck _ ended (by rw [List.map_append]; exact List.prefix_append _ _) s left answered

/-- Every failure of the grammar comes from the first token with which nothing is a statement. -/
theorem ofTokens_rejected {ts : List Token} {e : Expectation} {found : Lexeme} {offset : Nat}
    (ended : Ended (ts.map (·.lexeme)))
    (failed : Statement.ofTokens ts = .error (.parse e found offset)) :
    ∃ read t rest, ts = read ++ t :: rest ∧ Blames read t rest (.parse e found offset) ∧
      Viable read ∧ ¬Viable (read ++ [t]) := by
  have phrase : Phrase ts.length Grammar.statement (· = .finish) Any := Grammar.statement_phrase
  obtain ⟨read, t, rest, split, blames, stuck, complete⟩ :=
    (phrase.judged ts ended (Nat.le_refl _)).rejects e found offset (ofTokens_eq_error.mp failed)
  refine ⟨read, t, rest, split, blames, ?_, not_viable stuck⟩
  have ends : Follows (· = .finish) [.finish] := ⟨Ended.singleton, .finish, rfl, rfl⟩
  by_cases begun : read = []
  · obtain ⟨ls, s, reads⟩ := phrase.sample
    rw [begun]
    exact .of_reads (reads _ ends).1
  · obtain ⟨more, s, reads⟩ := complete begun
    exact .of_reads (reads _ ends)

theorem filter_start {read rest : List Token} {t : Token}
    (ascending : (read ++ t :: rest).Pairwise fun t u => t.start < u.start) :
    (read ++ t :: rest).filter (·.start < t.start) = read := by
  rw [List.pairwise_append, List.pairwise_cons] at ascending
  obtain ⟨-, ⟨behind, -⟩, before⟩ := ascending
  rw [List.filter_append, List.filter_cons_of_neg (by simp), List.filter_eq_self.mpr,
    List.filter_eq_nil_iff.mpr, List.append_nil]
  · intro u later
    have order := behind u later
    simp only [decide_eq_true_eq]
    omega
  · intro u earlier
    simpa using before u earlier t List.mem_cons_self

/-- Unless the failure is found late, the tokens before the one that it names begin a statement, and
with that token they do not. The word UNIQUE may also be named for the token behind it: where a
table's list is read, only a parenthesis may follow it. -/
theorem ofTokens_names_first {ts : List Token} {e : Expectation} {found : Lexeme} {offset : Nat}
    (ended : Ended (ts.map (·.lexeme)))
    (failed : Statement.ofTokens ts = .error (.parse e found offset)) (timely : ¬IsLate e) :
    ∃ read t rest, ts = read ++ t :: rest ∧ t.lexeme = found ∧ t.start = offset ∧
      (ts.Pairwise (fun t u => t.start < u.start) → ts.filter (·.start < offset) = read) ∧
      Viable read ∧ (¬Viable (read ++ [t]) ∨ e = .identifier ∧ found = .keyword .UNIQUE ∧
        ∃ u ∈ rest.head?, ¬Viable (read ++ [t, u])) := by
  obtain ⟨read, t, rest, split, blames, viable, stuck⟩ := ofTokens_rejected ended failed
  cases blames with
  | itself =>
    refine ⟨read, t, rest, split, rfl, rfl, fun ascending => ?_, viable, .inl stuck⟩
    rw [split] at ascending ⊢
    exact filter_start ascending
  | behind late => exact absurd late timely
  | @before front u isLast unique =>
    rw [isLast] at split viable stuck
    rw [List.append_assoc] at split stuck
    refine ⟨front, u, t :: rest, split, rfl, rfl, fun ascending => ?_, viable.of_append,
      .inr ⟨rfl, unique, t, rfl, stuck⟩⟩
    rw [split] at ascending ⊢
    exact filter_start ascending

def selectFrom : List Token :=
  [⟨.keyword .SELECT, 0, 6⟩, ⟨.keyword .FROM, 7, 11⟩, ⟨.identifier "users", 12, 17⟩, ⟨.finish, 17, 17⟩]

theorem ofTokens_names_first_selectFrom :
    Statement.ofTokens selectFrom = .error (.parse .identifier (.keyword .FROM) 7) ∧
      Viable (selectFrom.take 1) ∧ ¬Viable (selectFrom.take 2) := by
  have failed : Statement.ofTokens selectFrom = .error (.parse .identifier (.keyword .FROM) 7) := rfl
  have ended : Ended (selectFrom.map (·.lexeme)) := rfl
  obtain ⟨read, t, rest, split, named, start, before, viable, stuck⟩ :=
    ofTokens_names_first ended failed (by simp [IsLate])
  have isRead : selectFrom.take 1 = read := before (by decide)
  subst isRead
  cases split
  exact ⟨failed, viable, stuck.resolve_right (by simp)⟩

/-- A failure that is found late names a token before which the list has gone wrong already. -/
theorem not_viable_of_late {ts : List Token} {e : Expectation} {found : Lexeme} {offset : Nat}
    (ended : Ended (ts.map (·.lexeme))) (ascending : ts.Pairwise fun t u => t.start < u.start)
    (failed : Statement.ofTokens ts = .error (.parse e found offset)) (late : IsLate e) :
    ¬Viable (ts.filter (·.start < offset)) := by
  obtain ⟨read, t, rest, split, blames, -, stuck⟩ := ofTokens_rejected ended failed
  cases blames with
  | itself timely => exact absurd late timely
  | @behind _ u _ isNext =>
    obtain ⟨more, rfl⟩ := List.head?_eq_some_iff.mp isNext
    rw [← List.singleton_append, ← List.append_assoc] at split
    rw [split] at ascending ⊢
    rwa [filter_start ascending]
  | before => simp [IsLate] at late

def likeNull : List Token :=
  [⟨.keyword .SELECT, 0, 6⟩, ⟨.identifier "a", 7, 8⟩, ⟨.keyword .FROM, 9, 13⟩, ⟨.identifier "t", 14, 15⟩,
    ⟨.keyword .WHERE, 16, 21⟩, ⟨.identifier "a", 22, 23⟩, ⟨.keyword .LIKE, 24, 28⟩,
    ⟨.keyword .NULL, 29, 33⟩, ⟨.finish, 33, 33⟩]

theorem not_viable_likeNull : tokens "SELECT a FROM t WHERE a LIKE NULL" = .ok likeNull ∧
    Statement.ofTokens likeNull = .error (.parse .likePattern .finish 33) ∧
      ¬Viable (likeNull.filter (·.start < 33)) := by
  have failed : Statement.ofTokens likeNull = .error (.parse .likePattern .finish 33) := rfl
  exact ⟨by decide +kernel, failed, not_viable_of_late rfl (by decide) failed (.inl rfl)⟩

end SqlEngine.Dialect
