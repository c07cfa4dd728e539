import SqlEngine.Json.Document
import SqlEngine.Proofs.Number.Decimal
import SqlEngine.Proofs.Number.Shortest
import SqlEngine.Proofs.Order

/-! JSON texts of reals. In each of its three forms a text spells the shortest digits, which are
rounded to no other double, so different finite reals have different texts. -/

namespace SqlEngine.Json

open Decimal Binary64

def afterFirst : List Char → List Char
  | [c] => [c]
  | c :: rest => c :: '.' :: rest
  | [] => []

theorem isDigit_zeros (n : Nat) : ∀ c ∈ List.replicate n '0', c.isDigit = true := by
  intro c hc
  rw [List.eq_of_mem_replicate hc]
  rfl

section

variable {digits : List Char} (hd : ∀ c ∈ digits, c.isDigit = true)
include hd

theorem valueOf_afterFirst (some : digits ≠ []) : 'e' ∉ afterFirst digits ∧
    valueOf (afterFirst digits) = naturalOf digits * 10 ^ (1 - digits.length : Int) := by
  match digits, some with
  | [c], _ => exact ⟨(no_mark hd).1, by rw [afterFirst, valueOf_whole hd]; simp⟩
  | c :: d :: rest, _ =>
    rw [List.forall_mem_cons] at hd
    have first : ∀ d ∈ [c], d.isDigit = true := by simpa using hd.1
    have point := valueOf_point first hd.2
    refine ⟨noExponent_point first hd.2, point.trans ?_⟩
    have places : -((d :: rest).length : Int) = 1 - (c :: d :: rest).length := by
      simp
    rw [places]
    rfl

theorem valueOf_zeros (zeros : Nat) :
    valueOf (digits ++ List.replicate zeros '0' ++ ['.', '0']) = naturalOf digits * 10 ^ zeros := by
  have padded : ∀ c ∈ digits ++ List.replicate zeros '0', c.isDigit = true :=
    List.forall_mem_append.mpr ⟨hd, isDigit_zeros zeros⟩
  have value : naturalOf (digits ++ List.replicate zeros '0' ++ ['0']) =
      naturalOf digits * 10 ^ zeros * 10 := by
    rw [naturalOf_append, naturalOf_append, naturalOf_zeros, List.length_replicate]
    simp [naturalOf, digitValue]
  have zero : ∀ c ∈ ['0'], c.isDigit = true := isDigit_zeros 1
  rw [valueOf_point padded zero, value]
  push_cast
  simp

theorem pointed_parts (places : Nat) : ∃ whole fraction,
    pointed digits places = whole ++ '.' :: fraction ∧ whole ≠ [] ∧ fraction.length = places ∧
      (∀ c ∈ whole, c.isDigit = true) ∧ (∀ c ∈ fraction, c.isDigit = true) ∧
      naturalOf (whole ++ fraction) = naturalOf digits := by
  generalize padding : places + 1 - digits.length = zeros
  generalize made : List.replicate zeros '0' ++ digits = padded
  have all : ∀ c ∈ padded, c.isDigit = true :=
    made ▸ List.forall_mem_append.mpr ⟨isDigit_zeros zeros, hd⟩
  have value : naturalOf padded = naturalOf digits := by
    rw [← made, naturalOf_append, naturalOf_zeros, Nat.zero_mul, Nat.zero_add]
  have long : places < padded.length := by
    rw [← made, List.length_append, List.length_replicate]
    omega
  refine ⟨padded.take (padded.length - places), padded.drop (padded.length - places), ?_, ?_, ?_,
    fun c hc => all c (List.mem_of_mem_take hc), fun c hc => all c (List.mem_of_mem_drop hc), ?_⟩
  · rw [pointed, padding, made]
  · rw [← List.length_pos_iff, List.length_take]
    omega
  · rw [List.length_drop, Nat.sub_sub_self long.le]
  · rw [List.take_append_drop, value]

theorem valueOf_pointed (places : Nat) :
    valueOf (pointed digits places) = naturalOf digits * 10 ^ (-places : Int) := by
  obtain ⟨whole, fraction, split, -, length, hw, hf, value⟩ := pointed_parts hd places
  rw [split, valueOf_point hw hf, value, length]

end

theorem valueOf_realDigits (m : Nat) :
    valueOf (realDigits m) = (shortest m).digits * 10 ^ (shortest m).exponent := by
  generalize found : shortest m = d
  have hd : ∀ c ∈ Nat.toDigits 10 d.digits, c.isDigit = true := fun c => isDigit_of_mem_toDigits
  have ten : (10 : ℚ) ≠ 0 := by norm_num
  unfold realDigits
  simp only [found]
  split
  · obtain ⟨noExponent, mantissa⟩ := valueOf_afterFirst hd Nat.toDigits_ne_nil
    have exponent : (1 - (Nat.toDigits 10 d.digits).length : Int) +
        (d.exponent + (Nat.toDigits 10 d.digits).length - 1) = d.exponent := by omega
    refine (valueOf_exponent noExponent _).trans ?_
    rw [mantissa, naturalOf_toDigits, wholeOf_toString, mul_assoc, ← zpow_add₀ ten, exponent]
  · split
    · next whole =>
      rw [valueOf_zeros hd, naturalOf_toDigits, ← zpow_natCast, Int.toNat_of_nonneg whole]
    · next small =>
      have exponent : (-(d.exponent.natAbs : Int)) = d.exponent := by omega
      rw [valueOf_pointed hd, naturalOf_toDigits, exponent]

def IsNumeric (c : Char) : Prop := c.isDigit = true ∨ c = '.' ∨ c = 'e' ∨ c = '-'

theorem isNumeric_toString (i : Int) : ∀ c ∈ (toString i).toList, IsNumeric c := by
  rw [toList_toString, List.forall_mem_append]
  refine ⟨?_, fun c listed => .inl (isDigit_of_mem_toDigits listed)⟩
  split
  · simp [IsNumeric]
  · simp

structure Unsigned (cs : List Char) : Prop where
  first : ∃ c rest, cs = c :: rest ∧ c.isDigit = true
  numeric : ∀ c ∈ cs, IsNumeric c

theorem Unsigned.ne_minus {cs ds : List Char} (h : Unsigned cs) : cs ≠ '-' :: ds := by
  rintro rfl
  obtain ⟨c, rest, same, digit⟩ := h.first
  cases same
  exact absurd digit (by decide)

section

variable {digits : List Char} (hd : ∀ c ∈ digits, c.isDigit = true)
include hd

theorem unsigned_append (some : digits ≠ []) {rest : List Char} (hr : ∀ c ∈ rest, IsNumeric c) :
    Unsigned (digits ++ rest) where
  first := by
    obtain ⟨c, more, rfl⟩ := List.exists_cons_of_ne_nil some
    exact ⟨c, more ++ rest, rfl, hd c List.mem_cons_self⟩
  numeric := List.forall_mem_append.mpr ⟨fun c hc => .inl (hd c hc), hr⟩

theorem unsigned_afterFirst (some : digits ≠ []) {rest : List Char}
    (hr : ∀ c ∈ rest, IsNumeric c) : Unsigned (afterFirst digits ++ rest) := by
  match digits, some with
  | [c], some => exact unsigned_append hd some hr
  | c :: d :: more, _ =>
    rw [List.forall_mem_cons] at hd
    have first : ∀ d ∈ [c], d.isDigit = true := by simpa using hd.1
    have behind : ∀ c ∈ '.' :: d :: more ++ rest, IsNumeric c := by
      rw [List.forall_mem_append, List.forall_mem_cons]
      exact ⟨⟨.inr (.inl rfl), fun c hc => .inl (hd.2 c hc)⟩, hr⟩
    exact unsigned_append first (List.cons_ne_nil c []) behind

theorem unsigned_pointed (places : Nat) : Unsigned (pointed digits places) := by
  obtain ⟨whole, fraction, split, some, -, hw, hf, -⟩ := pointed_parts hd places
  rw [split]
  refine unsigned_append hw some (List.forall_mem_cons.mpr ⟨.inr (.inl rfl), ?_⟩)
  exact fun c hc => .inl (hf c hc)

end

theorem unsigned_realDigits (m : Nat) : Unsigned (realDigits m) := by
  generalize found : shortest m = d
  have hd : ∀ c ∈ Nat.toDigits 10 d.digits, c.isDigit = true := fun c => isDigit_of_mem_toDigits
  unfold realDigits
  simp only [found]
  split
  · refine unsigned_afterFirst hd Nat.toDigits_ne_nil (List.forall_mem_cons.mpr ⟨?_, ?_⟩)
    · exact .inr (.inr (.inl rfl))
    · exact isNumeric_toString _
  · split
    · rw [List.append_assoc]
      refine unsigned_append hd Nat.toDigits_ne_nil (List.forall_mem_append.mpr ⟨?_, ?_⟩)
      · exact fun c hc => .inl (isDigit_zeros _ c hc)
      · simp [IsNumeric]
    · exact unsigned_pointed hd _

def magnitudeText (m : Nat) : List Char := if m = 0 then ['0', '.', '0'] else realDigits m

theorem unsigned_magnitudeText (m : Nat) : Unsigned (magnitudeText m) := by
  unfold magnitudeText
  split
  · exact ⟨⟨'0', ['.', '0'], rfl, rfl⟩, by simp [IsNumeric]⟩
  · exact unsigned_realDigits m

theorem toList_realText {x : Binary64} (finite : x.isFinite = true) :
    (realText x).toList = (if x.isNegative then ['-'] else []) ++ magnitudeText x.magnitude := by
  unfold realText magnitudeText signed
  simp only [finite, Bool.not_true, Bool.false_eq_true, if_false]
  by_cases zero : x.magnitude = 0
  · simp only [zero, if_true, String.toList_ofList]
    split <;> rfl
  · simp only [zero, if_false, String.toList_ofList]
    split <;> simp

/-- What the text of a magnitude spells is rounded to that magnitude. -/
theorem rounds_magnitudeText (m : Nat) : Rounds m (valueOf (magnitudeText m) * one) := by
  unfold magnitudeText
  split
  · next zero =>
    have value : valueOf ['0', '.', '0'] = 0 := by
      simpa [naturalOf, digitValue] using valueOf_zeros (isDigit_zeros 1) 0
    rw [value, zero_mul, zero]
    exact rounds_zero
  · next some =>
    rw [valueOf_realDigits]
    exact shortest_rounds (Nat.pos_of_ne_zero some)

theorem magnitudeText_injective : Function.Injective magnitudeText := fun m n same =>
  (rounds_magnitudeText m).eq (same ▸ rounds_magnitudeText n)

theorem realText_injective {x y : Binary64} (hx : x.isFinite = true) (hy : y.isFinite = true)
    (same : realText x = realText y) : x = y := by
  have lists := congrArg String.toList same
  rw [toList_realText hx, toList_realText hy] at lists
  have signs : x.isNegative = y.isNegative := by
    cases sx : x.isNegative <;> cases sy : y.isNegative <;> rw [sx, sy] at lists
    case false.true => exact absurd lists (unsigned_magnitudeText _).ne_minus
    case true.false => exact absurd lists.symm (unsigned_magnitudeText _).ne_minus
  rw [signs] at lists
  have magnitudes := magnitudeText_injective (List.append_cancel_left lists)
  exact totalRank_injective (by simp only [totalRank, signs, magnitudes])

end SqlEngine.Json
