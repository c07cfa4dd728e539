import Mathlib.Data.List.Basic
import SqlEngine.Condition.Pattern

/-! What it is for a text to match a pattern, and that matching piece by piece comes to this. A piece
between two percent signs is looked for only once, at the leftmost place where it stands: whatever
can follow it at another place can follow it there. -/

namespace SqlEngine.Pattern

/-- A percent sign matches any run of characters, an underscore any one, and any other character
itself. -/
def Matches : (pattern text : List Char) → Prop
  | [], text => text = []
  | c :: pattern, text =>
    if c = '%' then ∃ rest, rest <:+ text ∧ Matches pattern rest
    else ∃ d rest, text = d :: rest ∧ (c = '_' ∨ c = d) ∧ Matches pattern rest

theorem matches_percent {pattern text : List Char} :
    Matches ('%' :: pattern) text ↔ ∃ rest, rest <:+ text ∧ Matches pattern rest := by
  rw [Matches, if_pos rfl]

theorem matches_cons {c : Char} (other : c ≠ '%') {pattern text : List Char} :
    Matches (c :: pattern) text ↔
      ∃ d rest, text = d :: rest ∧ (c = '_' ∨ c = d) ∧ Matches pattern rest := by
  rw [Matches, if_neg other]

theorem afterPiece?_cons {p : Char} {piece text rest : List Char} :
    afterPiece? (p :: piece) text = some rest ↔
      ∃ d more, text = d :: more ∧ (p = '_' ∨ p = d) ∧ afterPiece? piece more = some rest := by
  cases text with
  | nil => simp [afterPiece?]
  | cons d more => by_cases fits : p = '_' ∨ p = d <;> simp [afterPiece?, fits]

theorem length_of_afterPiece? {piece text rest : List Char} (h : afterPiece? piece text = some rest) :
    text.length = piece.length + rest.length := by
  induction piece generalizing text with
  | nil =>
    rw [afterPiece?, Option.some.injEq] at h
    simp [h]
  | cons p piece ih =>
    obtain ⟨d, more, rfl, -, after⟩ := afterPiece?_cons.mp h
    simp only [List.length_cons, ih after]
    omega

theorem suffix_of_afterPiece? {piece text rest : List Char} (h : afterPiece? piece text = some rest) :
    rest <:+ text := by
  induction piece generalizing text with
  | nil =>
    rw [afterPiece?, Option.some.injEq] at h
    exact h ▸ List.suffix_rfl
  | cons p piece ih =>
    obtain ⟨d, more, rfl, -, after⟩ := afterPiece?_cons.mp h
    exact (ih after).trans (List.suffix_cons d more)

def Loosely : (pieces : List (List Char)) → (text : List Char) → Prop
  | [], text => text = []
  | piece :: more, text =>
    ∃ start, start <:+ text ∧ ∃ rest, afterPiece? piece start = some rest ∧ Loosely more rest

theorem Loosely.widen {piece : List Char} {more : List (List Char)} {text longer : List Char}
    (h : Loosely (piece :: more) text) (behind : text <:+ longer) :
    Loosely (piece :: more) longer := by
  obtain ⟨start, inside, found⟩ := h
  exact ⟨start, inside.trans behind, found⟩

theorem matches_iff_pieces {pattern text : List Char} :
    Matches pattern text ↔
      ∃ rest, afterPiece? (pieces pattern).1 text = some rest ∧ Loosely (pieces pattern).2 rest := by
  induction pattern generalizing text with
  | nil => simp [Matches, pieces, afterPiece?, Loosely]
  | cons c pattern ih =>
    by_cases percent : c = '%'
    · subst percent
      rw [matches_percent]
      simp only [pieces, if_true, afterPiece?, Option.some.injEq, exists_eq_left', Loosely, ih]
    · rw [matches_cons percent]
      simp only [pieces, if_neg percent, afterPiece?_cons, ih]
      constructor
      · rintro ⟨d, more, rfl, fits, rest, after, loosely⟩
        exact ⟨rest, ⟨d, more, rfl, fits, after⟩, loosely⟩
      · rintro ⟨rest, ⟨d, more, rfl, fits, after⟩, loosely⟩
        exact ⟨d, more, rfl, fits, rest, after, loosely⟩

theorem findPiece?_eq_some {piece text rest : List Char} (h : findPiece? piece text = some rest) :
    (∃ start, start <:+ text ∧ afterPiece? piece start = some rest) ∧
      ∀ start, start <:+ text → ∀ other, afterPiece? piece start = some other → other <:+ rest := by
  induction text with
  | nil =>
    refine ⟨⟨[], List.suffix_rfl, h⟩, fun start inside other after => ?_⟩
    rw [List.suffix_nil] at inside
    subst inside
    obtain rfl : rest = other := Option.some.inj (h.symm.trans after)
    exact List.suffix_rfl
  | cons c text ih =>
    rw [findPiece?] at h
    split at h
    · next here =>
      obtain rfl := Option.some.inj h
      refine ⟨⟨c :: text, List.suffix_rfl, here⟩, fun start inside other after => ?_⟩
      refine List.suffix_of_suffix_length_le ((suffix_of_afterPiece? after).trans inside)
        (suffix_of_afterPiece? here) ?_
      have := inside.length_le
      have := length_of_afterPiece? here
      have := length_of_afterPiece? after
      omega
    · next nowhere =>
      obtain ⟨⟨start, inside, after⟩, leftmost⟩ := ih h
      refine ⟨⟨start, inside.trans (List.suffix_cons c text), after⟩, fun start inside other after => ?_⟩
      rcases List.suffix_cons_iff.mp inside with rfl | inside
      · rw [nowhere] at after
        cases after
      · exact leftmost start inside other after

theorem findPiece?_eq_none {piece text : List Char} (h : findPiece? piece text = none) :
    ∀ start, start <:+ text → afterPiece? piece start = none := by
  induction text with
  | nil =>
    intro start inside
    rw [List.suffix_nil] at inside
    exact inside ▸ h
  | cons c text ih =>
    rw [findPiece?] at h
    split at h
    · cases h
    · next nowhere =>
      intro start inside
      rcases List.suffix_cons_iff.mp inside with rfl | inside
      · exact nowhere
      · exact ih h start inside

theorem endsWith_iff {piece text : List Char} :
    endsWith piece text = true ↔ ∃ start, start <:+ text ∧ afterPiece? piece start = some [] := by
  rw [endsWith, Bool.and_eq_true, decide_eq_true_eq, beq_iff_eq]
  constructor
  · rintro ⟨-, after⟩
    exact ⟨_, List.drop_suffix _ text, after⟩
  · rintro ⟨start, inside, after⟩
    have length := length_of_afterPiece? after
    rw [List.length_nil, Nat.add_zero] at length
    refine ⟨length ▸ inside.length_le, ?_⟩
    rw [← length, ← List.suffix_iff_eq_drop.mp inside]
    exact after

theorem matchesLoosely_iff {pieces : List (List Char)} {text : List Char} :
    matchesLoosely pieces text = true ↔ Loosely pieces text := by
  induction pieces generalizing text with
  | nil => simp [matchesLoosely, Loosely]
  | cons piece more ih =>
    cases more with
    | nil =>
      rw [matchesLoosely, endsWith_iff]
      simp [Loosely]
    | cons next more =>
      rw [matchesLoosely, Loosely]
      · cases found : findPiece? piece text with
        | none =>
          have nowhere := findPiece?_eq_none found
          simp only [Bool.false_eq_true, false_iff, not_exists, not_and]
          intro start inside rest after
          rw [nowhere start inside] at after
          cases after
        | some rest =>
          obtain ⟨⟨start, inside, after⟩, leftmost⟩ := findPiece?_eq_some found
          rw [ih]
          constructor
          · exact fun loosely => ⟨start, inside, rest, after, loosely⟩
          · rintro ⟨other, otherInside, otherRest, otherAfter, loosely⟩
            exact loosely.widen (leftmost other otherInside otherRest otherAfter)
      · nofun

theorem matchesExactly_iff {pattern text : List Char} :
    matchesExactly pattern text = true ↔ Matches pattern text := by
  rw [matchesExactly, matches_iff_pieces]
  rcases pieces pattern with ⟨first, more⟩
  cases after : afterPiece? first text with
  | none => simp [after]
  | some rest =>
    cases more with
    | nil => simp [after, Loosely]
    | cons piece more => simp [after, ← matchesLoosely_iff]

theorem like_iff {pattern text : String} :
    like pattern text = true ↔
      Matches (Text.lowerChars pattern.toList) (Text.lowerChars text.toList) :=
  matchesExactly_iff

end SqlEngine.Pattern
