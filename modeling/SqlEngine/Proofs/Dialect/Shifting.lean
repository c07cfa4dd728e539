import SqlEngine.Proofs.Dialect.Scanning

/-! What a text is cut into does not depend on where it stands. Behind another text it has the same
tokens and the same first error, only further on. -/

namespace SqlEngine.Dialect

def Token.shift (k : Nat) (t : Token) : Token := ⟨t.lexeme, t.start + k, t.stop + k⟩

def LexError.shift (k : Nat) (e : LexError) : LexError := ⟨e.fault, e.offset + k⟩

def Place.shift (k : Nat) (p : Place) : Place := ⟨p.rest, p.offset + k⟩

def Gap.shift (k : Nat) : Gap → Gap
  | .block opened => .block (opened + k)
  | g => g

def shifted {α : Type} (k : Nat) (move : α → α) (answer : Except LexError α) : Except LexError α :=
  (answer.mapError (LexError.shift k)).map move

variable {α : Type} {move : α → α}

@[simp] theorem shifted_ok (k : Nat) (a : α) : shifted k move (.ok a) = .ok (move a) := rfl

theorem skipGap_shift (k : Nat) (g : Gap) (cs : List Char) (n : Nat) :
    skipGap (g.shift k) cs (n + k) = shifted k (Place.shift k) (skipGap g cs n) := by
  have further (n m : Nat) : n + k + m = n + m + k := Nat.add_right_comm n k m
  fun_induction skipGap g cs n with
  | case1 => rfl
  | case2 opened rest n ih => rw [← ih, ← further]; rfl
  | case3 opened c rest n closed ih =>
    rw [← ih, ← further]
    exact skipGap_block_cons _ _ closed
  | case4 n => rfl
  | case5 c rest n ih =>
    rw [← ih, ← further]
    refine (skipGap_line_cons c rest (n + k)).trans ?_
    split <;> rfl
  | case6 n => rfl
  | case7 rest n ih => rw [← ih, ← further]; rfl
  | case8 rest n ih => rw [← ih, ← further]; rfl
  | case9 c rest n line block blank ih =>
    rw [← ih, ← further]
    exact (skipGap_cons (n + k) line block).trans (if_pos blank)
  | case10 c rest n line block solid =>
    exact (skipGap_cons (n + k) line block).trans (if_neg solid)

def shiftRead (k : Nat) (found : Token × Place) : Token × Place :=
  (found.1.shift k, found.2.shift k)

theorem readToken_shift (k : Nat) (c : Char) (cs : List Char) (n : Nat) :
    readToken c cs (n + k) = shifted k (shiftRead k) (readToken c cs n) := by
  have further (n m : Nat) : n + k + m = n + m + k := Nat.add_right_comm n k m
  unfold readToken
  split
  · cases readString? c cs with
    | none => rfl
    | some found =>
      simp only [further, shifted_ok]
      rfl
  · split
    · simp only [further, shifted_ok]
      rfl
    · split
      · simp only [further, shifted_ok]
        rfl
      · cases readSymbol? (c :: cs) with
        | none => rfl
        | some found =>
          simp only [further, shifted_ok]
          rfl

theorem tokensFrom_error {cs : List Char} {n : Nat} {e : LexError} (fuel : Nat)
    (skip : skipGap .blank cs n = .error e) : tokensFrom (fuel + 1) ⟨cs, n⟩ = .error e := by
  rw [tokensFrom, skip]
  rfl

theorem tokensFrom_shift (k fuel : Nat) (cs : List Char) (n : Nat) :
    tokensFrom fuel ⟨cs, n + k⟩ =
      shifted k (List.map (Token.shift k)) (tokensFrom fuel ⟨cs, n⟩) := by
  induction fuel generalizing cs n with
  | zero => rfl
  | succ fuel ih =>
    have skip : skipGap .blank cs (n + k) = _ := skipGap_shift k .blank cs n
    cases skipped : skipGap .blank cs n with
    | error e =>
      rw [skipped] at skip
      rw [tokensFrom_error fuel skip, tokensFrom_error fuel skipped]
      rfl
    | ok place =>
      obtain ⟨rest, m⟩ := place
      rw [skipped] at skip
      cases rest with
      | nil =>
        rw [tokensFrom_finish fuel skip, tokensFrom_finish fuel skipped]
        rfl
      | cons c rest =>
        rw [tokensFrom_token fuel skip, tokensFrom_token fuel skipped, readToken_shift]
        cases readToken c rest m with
        | error e => rfl
        | ok found =>
          show (tokensFrom fuel (found.2.shift k)).map _ =
            shifted k _ ((tokensFrom fuel found.2).map _)
          rw [Place.shift, ih]
          cases tokensFrom fuel found.2 <;> rfl

/-- More fuel than a text needs is of no use. -/
theorem tokensFrom_fuel {fuel fuel' n : Nat} {cs : List Char} (enough : cs.length < fuel)
    (enough' : cs.length < fuel') : tokensFrom fuel ⟨cs, n⟩ = tokensFrom fuel' ⟨cs, n⟩ := by
  induction fuel generalizing fuel' n cs with
  | zero => cases enough
  | succ fuel ih =>
    obtain ⟨fuel', rfl⟩ := Nat.exists_eq_add_one.mpr (Nat.zero_lt_of_lt enough')
    cases skipped : skipGap .blank cs n with
    | error e => rw [tokensFrom_error fuel skipped, tokensFrom_error fuel' skipped]
    | ok place =>
      obtain ⟨rest, m⟩ := place
      obtain ⟨gap, rfl, -, -⟩ := skipGap_split skipped
      cases rest with
      | nil => rw [tokensFrom_finish fuel skipped, tokensFrom_finish fuel' skipped]
      | cons c rest =>
        rw [tokensFrom_token fuel skipped, tokensFrom_token fuel' skipped]
        cases read : readToken c rest m with
        | error e => rfl
        | ok found =>
          obtain ⟨t, p⟩ := found
          obtain ⟨more, l, rfl, -, -, -⟩ := readToken_split read
          simp only [List.length_append, List.length_cons] at enough enough'
          have same : tokensFrom fuel p = tokensFrom fuel' p :=
            ih (show p.rest.length < fuel by omega) (by omega)
          show (tokensFrom fuel p).map _ = (tokensFrom fuel' p).map _
          rw [same]

theorem tokensFrom_behind {fuel : Nat} (text : String) (k : Nat)
    (enough : text.toList.length < fuel) :
    tokensFrom fuel ⟨text.toList, k⟩ = shifted k (List.map (Token.shift k)) (tokens text) := by
  rw [tokens, ← tokensFrom_shift, Nat.zero_add]
  exact tokensFrom_fuel enough (Nat.lt_succ_self _)

theorem skipGap_stays {cs : List Char} {n : Nat} (h : skipGap .blank cs n = .ok ⟨cs, n⟩) (m : Nat) :
    skipGap .blank cs m = .ok ⟨cs, m⟩ := by
  have start : skipGap .blank cs 0 = .ok ⟨cs, 0⟩ := by
    have shift : skipGap .blank cs (0 + n) = _ := skipGap_shift n .blank cs 0
    rw [Nat.zero_add, h] at shift
    cases skipped : skipGap .blank cs 0 with
    | error e =>
      rw [skipped] at shift
      cases shift
    | ok place =>
      obtain ⟨rest, k⟩ := place
      rw [skipped] at shift
      simp only [shifted_ok, Place.shift, Except.ok.injEq, Place.mk.injEq] at shift
      obtain ⟨rfl, same⟩ := shift
      rw [show k = 0 by omega]
  have shift : skipGap .blank cs (0 + m) = _ := skipGap_shift m .blank cs 0
  rw [start, Nat.zero_add] at shift
  rw [shift, shifted_ok, Place.shift, Nat.zero_add]

end SqlEngine.Dialect
