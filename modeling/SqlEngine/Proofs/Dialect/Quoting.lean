import SqlEngine.Proofs.Dialect.Exchange
import SqlEngine.Proofs.Dialect.Respelling

/-! Texts between quotes. Whatever a text holds, it comes back from its literal, and nothing around
the literal is read in another way. -/

namespace SqlEngine.Dialect

/-- The literal of a text: the text between two quotes, with each such quote in it doubled. -/
def quotedBy (quote : Char) (s : String) : String :=
  String.ofList (quote :: (doubled quote s.toList ++ [quote]))

theorem toList_quotedBy (quote : Char) (s : String) :
    (quotedBy quote s).toList = quote :: (doubled quote s.toList ++ [quote]) :=
  String.toList_ofList

theorem tokensFrom_spelled {front rest : List Char} {l : Lexeme} (h : Spelled front l rest)
    (fuel n : Nat) : tokensFrom (fuel + 1) ⟨front ++ rest, n⟩ =
      (tokensFrom fuel ⟨rest, n + bytes front⟩).map (⟨l, n, n + bytes front⟩ :: ·) := by
  obtain ⟨c, more, stop, whole, skip, read, -⟩ := h.begins n
  have size : stop = n + bytes front := by
    obtain ⟨tail, l', split, same, -, -⟩ := readToken_split read
    rw [split, ← List.cons_append] at whole
    rw [List.append_cancel_right whole]
    exact (Token.mk.inj same).2.2
  rw [whole] at skip ⊢
  rw [tokensFrom_token fuel skip, read, size]
  rfl

section

variable {quote : Char} (mark : quote = '\'' ∨ quote = '"')
include mark

theorem spelled_quotedBy (s : String) {rest : List Char} (stop : ∀ d ∈ rest.head?, d ≠ quote) :
    Spelled (quotedBy quote s).toList (.string s) rest := by
  rw [toList_quotedBy]
  have spelled := Spelled.string mark s.toList stop
  rwa [String.ofList_toList] at spelled

/-- The literal is one token. Behind it the text has the tokens, or the first error, that it has on
its own. -/
theorem tokens_quotedBy_append (s rest : String) (stop : ∀ d ∈ rest.toList.head?, d ≠ quote) :
    tokens (quotedBy quote s ++ rest) =
      (shifted (quotedBy quote s).utf8ByteSize
        (List.map (Token.shift (quotedBy quote s).utf8ByteSize)) (tokens rest)).map
          (⟨.string s, 0, (quotedBy quote s).utf8ByteSize⟩ :: ·) := by
  have enough : rest.toList.length < ((quotedBy quote s).toList ++ rest.toList).length := by
    rw [List.length_append, toList_quotedBy, List.length_cons]
    omega
  have cut := tokensFrom_spelled (spelled_quotedBy mark s stop)
    ((quotedBy quote s).toList ++ rest.toList).length 0
  rw [Nat.zero_add, ← utf8ByteSize_eq, tokensFrom_behind rest _ enough] at cut
  rwa [tokens, String.toList_append]

theorem resembles_quotedBy (s x : String) (rest : List Char) :
    Resembles ((quotedBy quote s).toList ++ rest) ((quotedBy quote x).toList ++ rest) := by
  rw [toList_quotedBy, toList_quotedBy]
  refine ⟨fun d hd => .inr ⟨d, hd, .inl rfl⟩, fun d more same _ => ?_⟩
  obtain rfl : quote = '.' := (List.cons.inj same).1
  rcases mark with absurd | absurd <;> cases absurd

theorem tokens_requoted {pre post s : String} {ts : List Token}
    (stop : ∀ d ∈ post.toList.head?, d ≠ quote)
    (cut : tokens (pre ++ (quotedBy quote s ++ post)) = .ok ts)
    (listed : ⟨.string s, pre.utf8ByteSize,
      pre.utf8ByteSize + (quotedBy quote s).utf8ByteSize⟩ ∈ ts) :
    ∃ ls ls', ts.map (·.lexeme) = ls ++ .string s :: ls' ∧ ∀ x, ∃ us,
      tokens (pre ++ (quotedBy quote x ++ post)) = .ok us ∧
        us.map (·.lexeme) = ls ++ .string x :: ls' := by
  have cuts := cuts_of_tokensFrom cut (Nat.lt_succ_self _)
  obtain ⟨before, front, rest, ls, ls', whole, start, stop', -, precedes, behind, lexemes⟩ :=
    cuts.stands listed nofun
  simp only [utf8ByteSize_eq, Nat.zero_add] at start stop'
  rw [String.toList_append, String.toList_append] at whole
  obtain ⟨left, whole⟩ := append_inj_of_bytes whole start
  obtain ⟨rfl, rfl⟩ := append_inj_of_bytes whole (by omega)
  refine ⟨ls, ls', lexemes, fun x => tokens_of_lexed ?_⟩
  rw [String.toList_append, String.toList_append, left]
  have spelled := spelled_quotedBy mark x stop
  exact precedes _ _ (resembles_quotedBy mark s x _) (.spelled spelled behind)

/-- An INSERT in which the literal of a text, between what stands before and behind it, is one
token. -/
structure Carries (quote : Char) (s pre post : String) (i : Insert) : Prop where
  stop : ∀ d ∈ post.toList.head?, d ≠ quote
  token : ∃ ts, tokens (pre ++ (quotedBy quote s ++ post)) = .ok ts ∧
    ⟨.string s, pre.utf8ByteSize, pre.utf8ByteSize + (quotedBy quote s).utf8ByteSize⟩ ∈ ts
  spelled : Statement.ofText (pre ++ (quotedBy quote s ++ post)) = .ok (.insert i)

/-- The literal is one of the values, whatever text it is the literal of. -/
theorem Carries.requoted {s pre post : String} {i : Insert} (h : Carries quote s pre post i) :
    ∃ rows row row' rows', i.values = rows ++ (row ++ .text s :: row') :: rows' ∧ ∀ x,
      Statement.ofText (pre ++ (quotedBy quote x ++ post)) =
        .ok (.insert { i with values := rows ++ (row ++ .text x :: row') :: rows' }) := by
  obtain ⟨stop, ⟨ts, cut, listed⟩, spelled⟩ := h
  obtain ⟨ls, ls', lexemes, others⟩ := tokens_requoted mark stop cut listed
  choose us cut' lexemes' using others
  have ahead : Reader.Ahead us := by
    obtain ⟨front, rfl, named⟩ := (cuts_of_tokensFrom cut (Nat.lt_succ_self _)).finished
    rw [List.map_append, List.map_singleton] at lexemes
    rcases List.eq_nil_or_concat' ls' with rfl | ⟨init, l, rfl⟩
    · cases (List.append_inj' lexemes rfl).2
    · refine ⟨ls, _, fun finished => ?_, List.concat_ne_nil l init, lexemes'⟩
      rw [← List.cons_append, ← List.append_assoc] at lexemes
      have earlier : .finish ∈ front.map (·.lexeme) := by
        rw [(List.append_inj' lexemes rfl).1]
        exact List.mem_append_left _ finished
      obtain ⟨t, listed, same⟩ := List.mem_map.mp earlier
      exact (named t listed).1 same
  rw [Statement.ofText_eq (cut' s)] at spelled
  obtain ⟨rows, row, row', rows', values, each⟩ := Statement.ofTokens_ahead ahead spelled
  exact ⟨rows, row, row', rows', values, fun x => (Statement.ofText_eq (cut' x)).trans (each x)⟩

end
end SqlEngine.Dialect
