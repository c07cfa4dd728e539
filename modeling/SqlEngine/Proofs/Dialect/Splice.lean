import SqlEngine.Proofs.Dialect.Lookahead

/-! Parts of a text that are exchanged. Up to a token the text is cut in the same way, whatever
comes from there on, as long as this begins like the text that stood there or with a gap. -/

namespace SqlEngine.Dialect

variable {before after gap front rest : List Char} {l : Lexeme} {ls ls' : List Lexeme}

namespace Lexed

theorem filling (filling : Filling gap) (h : Lexed rest ls) : Lexed (gap ++ rest) ls := by
  intro fuel n enough
  rw [List.length_append] at enough
  obtain ⟨ts, cut, same⟩ := h fuel (n + bytes gap) (by omega)
  refine ⟨ts, ?_, same⟩
  obtain ⟨fuel, rfl⟩ := Nat.exists_eq_add_one.mpr (Nat.zero_lt_of_lt enough)
  rw [tokensFrom] at cut ⊢
  rwa [skipGap_filling filling]

theorem spelled (spelled : Spelled front l rest) (h : Lexed rest ls) :
    Lexed (front ++ rest) (l :: ls) :=
  token spelled.begins h

end Lexed

def Precedes (before : List Char) (ls : List Lexeme) (after : List Char) : Prop :=
  ∀ after' ls', Resembles after after' → Lexed after' ls' → Lexed (before ++ after') (ls ++ ls')

namespace Precedes

theorem nil (after : List Char) : Precedes [] [] after := fun _ _ _ lexed => lexed

theorem filling (h : Precedes before ls (gap ++ after)) (filling : Filling gap) :
    Precedes (before ++ gap) ls after := by
  intro after' ls' like lexed
  rw [List.append_assoc]
  exact h _ _ (like.append_left gap) (lexed.filling filling)

theorem behind (h : Precedes before ls after) (filling : Filling gap) :
    Precedes (gap ++ before) ls after := by
  intro after' ls' like lexed
  rw [List.append_assoc]
  exact (h after' ls' like lexed).filling filling

theorem spelled (h : Precedes before ls after) (spelled : Spelled front l (before ++ after)) :
    Precedes (front ++ before) (l :: ls) after := by
  intro after' ls' like lexed
  rw [List.append_assoc]
  exact .spelled (spelled.mono (like.append_left before)) (h after' ls' like lexed)

end Precedes

/-- Where a token stands among the characters of a text, and how they are cut around it. -/
structure Stands (n : Nat) (cs : List Char) (ts : List Token) (t : Token)
    (before front rest : List Char) (ls ls' : List Lexeme) : Prop where
  whole : cs = before ++ (front ++ rest)
  start : t.start = n + bytes before
  stop : t.stop = n + bytes before + bytes front
  spelled : Spelled front t.lexeme rest
  precedes : Precedes before ls (front ++ rest)
  behind : Lexed rest ls'
  lexemes : ts.map (·.lexeme) = ls ++ t.lexeme :: ls'

theorem Reads.spelled {c : Char} {more : List Char} (reads : Reads c more rest l)
    (passes : Gap.blank.Passes gap (c :: (more ++ rest))) : Spelled (c :: more) l rest := by
  have begins : Begins (c :: (more ++ rest)) l rest := fun n =>
    ⟨c, more ++ rest, _, rfl, passes.stops (List.append_nil _).symm n,
      reads.stays n rest [] (List.append_nil _).symm, by simp⟩
  obtain ⟨front, split, spelled⟩ := begins.spelled
  obtain rfl : c :: more = front := List.append_cancel_right split
  exact spelled

theorem Cuts.stands {n : Nat} {cs : List Char} {ts : List Token} (h : Cuts n cs ts) {t : Token}
    (ht : t ∈ ts) (named : t.lexeme ≠ .finish) :
    ∃ before front rest ls ls', Stands n cs ts t before front rest ls ls' := by
  induction h with
  | finish passes =>
    obtain rfl := List.mem_singleton.mp ht
    exact absurd rfl named
  | @token n gap c more rest l ts passes reads others ih =>
    have filling := passes.filling (List.cons_ne_nil _ _)
    have spelled := reads.spelled passes
    rcases List.mem_cons.mp ht with rfl | ht
    · exact ⟨gap, c :: more, rest, [], ts.map (·.lexeme), rfl, rfl, rfl, spelled,
        (Precedes.nil _).filling filling, others.lexed, rfl⟩
    · obtain ⟨before, front, rest, ls, ls', rfl, start, stop, spelled', precedes, behind, same⟩ :=
        ih ht
      refine ⟨gap ++ (c :: more ++ before), front, rest, l :: ls, ls', ?_, ?_, ?_, spelled', ?_,
        behind, ?_⟩
      · simp
      · rw [start, bytes_append, bytes_append]
        omega
      · rw [stop, bytes_append, bytes_append]
        omega
      · exact (precedes.spelled spelled).behind filling
      · rw [List.map_cons, same]
        rfl

end SqlEngine.Dialect
