import SqlEngine.Proofs.Dialect.Cutting
import SqlEngine.Proofs.Dialect.Recognition
import SqlEngine.Proofs.Number.Decimal

/-! Literals, columns, calls and names that are written out read back as themselves. -/

namespace SqlEngine.Dialect

open Reader Grammar

variable {rest heads : List Lexeme}

theorem no_point_toDigits (n : Nat) : (Nat.toDigits 10 n).contains '.' = false := by
  rw [Bool.eq_false_iff]
  intro point
  have digit := List.all_eq_true.mp (all_isDigit_toDigits n) '.' (List.contains_iff_mem.mp point)
  exact absurd digit (by decide)

theorem numberValue_toString (negative : Bool) (n : Int64)
    (sign : n.toInt = if negative then -(n.toInt.natAbs : Int) else n.toInt.natAbs) :
    numberValue negative (toString n.toInt.natAbs).toList = .integer n := by
  rw [numberValue, Nat.toString_eq_repr, Nat.toList_repr, no_point_toDigits,
    Decimal.naturalOf_toDigits, if_neg nofun]
  dsimp only
  rw [← sign, signedWord?_toInt]

theorem literal_reads {v : Value} (h : HasLiteral v) : Reads literal (literalLexemes v) v rest := by
  unfold literal
  cases v with
  | null =>
    refine .skip (.decline_cons (by simp)) (.skip (.decline_cons (by simp)) (.look rfl ?_))
    exact .bind_cons .pass (.pure _)
  | boolean b => cases b with
    | true =>
      refine .skip (.decline_cons (by simp)) (.skip (.decline_cons (by simp)) (.look rfl ?_))
      exact .bind_cons .pass (.pure _)
    | false =>
      refine .skip (.decline_cons (by simp)) (.skip (.decline_cons (by simp)) (.look rfl ?_))
      exact .bind_cons .pass (.pure _)
  | integer n =>
    rw [literalLexemes]
    split
    · next negative =>
      have value := numberValue_toString true n (by rw [if_pos rfl]; omega)
      refine .bind_cons .accept (.look rfl ?_)
      rw [← value]
      exact .bind_cons .pass (.pure _)
    · next positive =>
      have value := numberValue_toString false n (by rw [if_neg Bool.false_ne_true]; omega)
      refine .skip (.decline_cons (by simp)) (.skip (.decline_cons (by simp)) (.look rfl ?_))
      rw [← value]
      exact .bind_cons .pass (.pure _)
  | real x => exact h.elim
  | text s =>
    refine .skip (.decline_cons (by simp)) (.skip (.decline_cons (by simp)) (.look rfl ?_))
    exact .bind_cons .pass (.pure _)
  | date s => exact h.elim

theorem count_reads {n : Nat} (bounded : n ≤ maxWord) :
    Reads count [.number (toString n)] n rest := by
  have value : countOf? (toString n).toList = some n := by
    rw [countOf?, Nat.toString_eq_repr, Nat.toList_repr, all_isDigit_toDigits,
      Decimal.naturalOf_toDigits]
    simp [bounded]
  refine .look rfl ?_
  dsimp only
  rw [value]
  exact .bind_cons .pass (.pure _)

def Closes (heads : List Lexeme) : Prop :=
  .symbol .dot ∉ heads ∧ .symbol .openParen ∉ heads

instance (heads : List Lexeme) : Decidable (Closes heads) := inferInstanceAs (Decidable (_ ∧ _))

theorem ColumnName.head?_lexemes_ne (c : ColumnName) {ls : List Lexeme} {l : Lexeme}
    (apart : ∀ name, l ≠ .identifier name) : (c.lexemes ++ ls).head? ≠ some l := by
  obtain ⟨qualifier, name⟩ := c
  cases qualifier <;> exact fun same => apart _ (Option.some.inj same).symm

theorem columnName_reads {c : ColumnName} (follow : Starts heads rest) (closes : Closes heads) :
    Reads columnName c.lexemes c rest := by
  obtain ⟨qualifier, column⟩ := c
  cases qualifier with
  | none =>
    exact .bind_cons .identifier (.skip (.decline (follow.head?_ne closes.1)) (.pure _))
  | some q =>
    refine .bind_cons .identifier (.bind_cons .accept ?_)
    exact .bind_cons .identifier (.pure _)

theorem aggregateNext?_column {c : ColumnName} (follow : Starts heads rest) (closes : Closes heads) :
    Reads aggregateNext? [] none (c.lexemes ++ rest) := by
  obtain ⟨qualifier, column⟩ := c
  cases qualifier with
  | none =>
    obtain ⟨l, listed, tail, rfl⟩ := follow
    refine .look rfl (.lookNext rfl ?_)
    split
    · next same =>
      cases same
      exact absurd listed closes.2
    · exact .pure none
  | some q => exact .look rfl (.lookNext rfl (.pure none))

theorem aggregateNext?_call (c : AggregateCall) :
    Reads aggregateNext? [] (some c.function) (c.lexemes ++ rest) := by
  refine .look rfl (.lookNext rfl ?_)
  rw [← Aggregate.named?_name]
  exact .pure _

theorem flag_reads {k : Keyword} {present : Bool} (apart : rest.head? ≠ some (.keyword k)) :
    Reads (acceptWord k) (if present then [.keyword k] else []) present rest := by
  cases present with
  | true => exact .accept
  | false => exact .decline apart

theorem callArgument_reads {c : AggregateCall} (h : c.WellFormed)
    (follow : Starts [.symbol .closeParen] rest) :
    Reads (callArgument c.function c.distinct) (argumentLexemes c.argument) c.argument rest := by
  obtain ⟨function, argument, distinct⟩ := c
  cases argument with
  | none =>
    have supported := h.supported
    simp only [AggregateCall.isSupported, Option.isSome_none, Bool.false_or, Bool.and_eq_true,
      beq_iff_eq, Bool.not_eq_true'] at supported
    obtain ⟨rfl, rfl⟩ := supported
    exact .bind_cons .accept (.pure none)
  | some column =>
    refine .skip (.decline (column.head?_lexemes_ne nofun)) ?_
    exact .last (columnName_reads follow (by decide)) (.pure _)

theorem aggregateCall_reads {c : AggregateCall} (h : c.WellFormed) :
    Reads (aggregateCall c.function) c.lexemes c rest := by
  have notDistinct : (argumentLexemes c.argument ++ [Lexeme.symbol .closeParen] ++ rest).head? ≠
      some (.keyword .DISTINCT) := by
    rw [List.append_assoc]
    cases c.argument with
    | none => exact nofun
    | some column => exact column.head?_lexemes_ne nofun
  rw [AggregateCall.lexemes, List.append_assoc]
  refine .bind_cons .identifier (.bind_cons .expect (.bind (flag_reads notDistinct) ?_))
  exact .bind (callArgument_reads h (.cons _ _)) (.bind_cons .expect (.pure _))

theorem operand_column {c : ColumnName} (follow : Starts heads rest) (closes : Closes heads) :
    Reads operand c.lexemes c rest :=
  .skip (aggregateNext?_column follow closes) (columnName_reads follow closes)

theorem operand_call {c : AggregateCall} (h : c.WellFormed) :
    Reads operand c.lexemes (.bare c.text) rest :=
  .skip (aggregateNext?_call c) (.last (aggregateCall_reads h) (.pure _))

theorem operand_reads {text : String} (h : IsOperand text) (follow : Starts heads rest)
    (closes : Closes heads) : ∃ c : ColumnName, c.text = text ∧ Reads operand (cut text) c rest := by
  rcases h with ⟨c, wf, rfl⟩ | ⟨c, wf, rfl⟩
  · rw [(spells_column wf).cut_eq]
    exact ⟨c, rfl, operand_column follow closes⟩
  · rw [(spells_call wf).cut_eq]
    exact ⟨.bare c.text, rfl, operand_call wf⟩

theorem IsOperand.head?_cut_ne {text : String} (h : IsOperand text) {ls : List Lexeme} {l : Lexeme}
    (apart : ∀ name, l ≠ .identifier name) : (cut text ++ ls).head? ≠ some l := by
  rcases h with ⟨c, wf, rfl⟩ | ⟨c, wf, rfl⟩
  · rw [(spells_column wf).cut_eq]
    exact c.head?_lexemes_ne apart
  · rw [(spells_call wf).cut_eq]
    exact fun same => apart _ (Option.some.inj same).symm

end SqlEngine.Dialect
