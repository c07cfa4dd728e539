import SqlEngine.Proofs.Number.Whole
import SqlEngine.Proofs.Text.Blank
import SqlEngine.Schema.Coercion

/-! Words and truth values that go through a TEXT column. Truth values come back as they were. A
word comes back as the double that is nearest to it, so it is the same again just if it is the value
of a double. -/

namespace SqlEngine

namespace Value

theorem isFinite_ofWord (n : Int64) : (ofWord n).isFinite = true :=
  (Binary64.units_ofInt (natAbs_toInt_le n)).1

theorem numberOfText?_toString (n : Int64) :
    numberOfText? (toString n.toInt) = some (ofWord n) := by
  have plain : ∀ c ∈ (toString n.toInt).toList, Text.isBlank c = false := by
    rw [Decimal.toList_toString, List.forall_mem_append]
    refine ⟨?_, fun c hc => Text.isBlank_of_isDigit (Decimal.isDigit_of_mem_toDigits hc)⟩
    split
    · exact List.forall_mem_singleton.mpr rfl
    · nofun
  have small : n.toInt.natAbs < 10 ^ 400 := natAbs_toInt_lt_pow n (by decide)
  rw [numberOfText?, Text.trim_eq_self plain, Decimal.read?_toString small]
  exact Option.filter_eq_some_iff.mpr ⟨rfl, isFinite_ofWord n⟩

end Value

namespace ColumnType

theorem convert?_integer_toString (n : Int64) : convert? .integer (.text (toString n.toInt)) =
    (signedWord? (Value.ofWord n).floor).map .integer := by
  dsimp only [convert?, toInteger?]
  rw [Value.numberOfText?_toString, Option.bind_some, floorWord?,
    if_pos (Value.isFinite_ofWord n)]

/-- A word comes back from its text just if it is the value of a double. -/
theorem convert?_integer_eq_some_iff {n : Int64} :
    convert? .integer (.text (toString n.toInt)) = some (.integer n) ↔ Binary64.Exact n.toInt := by
  rw [← Binary64.floor_ofInt_eq_iff (Value.natAbs_toInt_le n), ← Value.ofWord,
    convert?_integer_toString]
  constructor
  · intro same
    obtain ⟨m, floor, word⟩ := Option.map_eq_some_iff.mp same
    cases word
    exact (signedWord?_eq_some.mp floor).symm
  · intro same
    rw [same, signedWord?_toInt]
    rfl

theorem convert?_boolean_display (b : Bool) :
    convert? .boolean (.text (Value.boolean b).display) = some (.boolean b) := by
  cases b <;> decide +kernel

end ColumnType

namespace Column

theorem coerce_eq (c : Column) (v : Value) (some : v ≠ .null) :
    c.coerce v = (c.type.convert? v).elim (.error (.notConvertible v c.type c.name)) .ok := by
  rw [coerce, if_neg (mt Value.isNull_eq_true.mp some)]
  cases c.type.convert? v <;> rfl

/-- Truth values come back from a TEXT column as they were. A word is stored there with its digits,
and comes back just if it is the value of a double, which is so of all words up to the power of two
of the digits of a double. Another word comes back as the whole number that it is rounded to, or is
refused if this one is no word. -/
theorem coerce_text_coerce {text integer boolean : Column} (ht : text.type = .text)
    (hi : integer.type = .integer) (hb : boolean.type = .boolean) :
    (∀ b, ∃ s, text.coerce (.boolean b) = .ok (.text s) ∧
      boolean.coerce (.text s) = .ok (.boolean b)) ∧
    ∀ n : Int64, ∃ s, text.coerce (.integer n) = .ok (.text s) ∧
      (integer.coerce (.text s) = .ok (.integer n) ↔ Binary64.Exact n.toInt) ∧
      (n.toInt.natAbs ≤ 2 ^ 53 → Binary64.Exact n.toInt) ∧
      integer.coerce (.text s) = (signedWord? (Value.ofWord n).floor).elim
        (.error (.notConvertible (.text s) .integer integer.name)) (fun m => .ok (.integer m)) := by
  have stored {v : Value} (some : v ≠ .null) : text.coerce v = .ok (.text v.display) := by
    rw [coerce_eq _ _ some, ht]
    rfl
  refine ⟨fun b => ⟨_, stored nofun, ?_⟩,
    fun n => ⟨_, stored nofun, ?_, Binary64.exact_of_natAbs_le, ?_⟩⟩
  · rw [coerce_eq _ (.text _) nofun, hb, ColumnType.convert?_boolean_display]
    rfl
  · rw [← ColumnType.convert?_integer_eq_some_iff, coerce_eq _ (.text _) nofun, hi, Value.display]
    cases ColumnType.convert? .integer (.text (toString n.toInt)) <;> simp
  · rw [coerce_eq _ (.text _) nofun, hi, Value.display, ColumnType.convert?_integer_toString]
    cases signedWord? (Value.ofWord n).floor <;> rfl

/-- The words from the fifty-third power of two on are values of doubles if they are even. -/
theorem coerce_text_coerce_beyond :
    let column (type : ColumnType) : Column := { name := "c", type := type }
    ∃ s, (column .text).coerce (.integer 9007199254740994) = .ok (.text s) ∧
      (column .integer).coerce (.text s) = .ok (.integer 9007199254740994) := by
  intro column
  have exact : Binary64.Exact (9007199254740994 : Int64).toInt :=
    ⟨Value.ofWord 9007199254740994, by decide +kernel, by decide +kernel⟩
  obtain ⟨-, words⟩ :=
    @coerce_text_coerce (column .text) (column .integer) (column .boolean) rfl rfl rfl
  obtain ⟨s, stored, back, -⟩ := words 9007199254740994
  exact ⟨s, stored, back.mpr exact⟩

/-- One word comes back as its neighbour, and the greatest one is refused. -/
theorem texts_astray :
    let column (type : ColumnType) : Column := { name := "c", type := type }
    (column .text).coerce (.integer 9007199254740993) = .ok (.text "9007199254740993") ∧
    (column .integer).coerce (.text "9007199254740993") = .ok (.integer 9007199254740992) ∧
    (column .text).coerce (.integer 9223372036854775807) = .ok (.text "9223372036854775807") ∧
    (column .integer).coerce (.text "9223372036854775807") =
      .error (.notConvertible (.text "9223372036854775807") .integer "c") := by
  decide +kernel

end Column
end SqlEngine
