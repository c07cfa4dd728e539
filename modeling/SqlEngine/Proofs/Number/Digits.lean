import Mathlib.Data.String.Basic
import SqlEngine.Proofs.Lists
import SqlEngine.Proofs.Number.Decimal
import SqlEngine.Proofs.Text.Blank

/-! Digits of one number. As many digits as another number has are smaller just if they spell a
smaller number. -/

namespace SqlEngine.Decimal

theorem naturalOf_cons (c : Char) (cs : List Char) :
    naturalOf (c :: cs) = digitValue c * 10 ^ cs.length + naturalOf cs := by
  rw [← List.singleton_append, naturalOf_append]
  simp [naturalOf]

theorem digitValue_lt {c : Char} (digit : c.isDigit = true) : digitValue c < 10 := by
  have range := Text.toNat_of_isDigit digit
  have zero : '0'.toNat = 48 := rfl
  rw [digitValue, zero]
  omega

theorem digitValue_lt_of_lt {c d : Char} (digit : c.isDigit = true) (less : c < d) :
    digitValue c < digitValue d := by
  have order : c.toNat < d.toNat := UInt32.lt_iff_toNat_lt.mp less
  have low := (Text.toNat_of_isDigit digit).1
  have zero : '0'.toNat = 48 := rfl
  rw [digitValue, digitValue, zero]
  omega

theorem place_lt {x y u place : Nat} (digit : x < y) (behind : u < place) (v : Nat) :
    x * place + u < y * place + v :=
  calc x * place + u < x * place + place := Nat.add_lt_add_left behind _
    _ = (x + 1) * place := (Nat.succ_mul x place).symm
    _ ≤ y * place := Nat.mul_le_mul_right place digit
    _ ≤ y * place + v := Nat.le_add_right _ _

theorem naturalOf_lt {ds : List Char} (hd : ∀ c ∈ ds, c.isDigit = true) :
    naturalOf ds < 10 ^ ds.length := by
  induction ds with
  | nil => decide
  | cons c ds ih =>
    obtain ⟨first, rest⟩ := List.forall_mem_cons.mp hd
    rw [naturalOf_cons, List.length_cons, pow_succ']
    exact place_lt (digitValue_lt first) (ih rest) 0

theorem naturalOf_lt_of_lt {as bs : List Char} (length : as.length = bs.length)
    (ha : ∀ c ∈ as, c.isDigit = true) (hb : ∀ c ∈ bs, c.isDigit = true) (less : as < bs) :
    naturalOf as < naturalOf bs := by
  change List.Lex (· < ·) as bs at less
  induction less with
  | nil => cases length
  | @rel a as b bs first =>
    obtain ⟨a_digit, as_digits⟩ := List.forall_mem_cons.mp ha
    have same : as.length = bs.length := Nat.succ.inj length
    rw [naturalOf_cons, naturalOf_cons, ← same]
    exact place_lt (digitValue_lt_of_lt a_digit first) (naturalOf_lt as_digits) _
  | @cons c as bs _ ih =>
    have same : as.length = bs.length := Nat.succ.inj length
    rw [naturalOf_cons, naturalOf_cons, same]
    exact Nat.add_lt_add_left
      (ih same (List.forall_mem_cons.mp ha).2 (List.forall_mem_cons.mp hb).2) _

theorem lt_of_naturalOf_lt {as bs : List Char} (length : as.length = bs.length)
    (ha : ∀ c ∈ as, c.isDigit = true) (hb : ∀ c ∈ bs, c.isDigit = true)
    (less : naturalOf as < naturalOf bs) : as < bs := by
  rcases lt_trichotomy as bs with before | rfl | after
  · exact before
  · exact absurd less (lt_irrefl _)
  · exact absurd less (naturalOf_lt_of_lt length.symm hb ha after).asymm

end SqlEngine.Decimal
