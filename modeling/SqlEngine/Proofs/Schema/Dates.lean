import SqlEngine.Proofs.Calendar.Rereading
import SqlEngine.Proofs.Schema.Coercion

/-! The values of a DATE column as the instants that were meant. -/

namespace SqlEngine

open Calendar

/-- The instant that a value stands for in a DATE column, to the millisecond. Numbers count the
milliseconds since 1970, and what a real counts beyond whole ones is dropped. -/
inductive Value.Denotes : Value → Instant → Prop
  | text {s : String} {i : Instant} (spelled : Spells (Text.trim s).toList i) : Denotes (.text s) i
  | date {s : String} {i : Instant} (spelled : Spells (Text.trim s).toList i) : Denotes (.date s) i
  | integer (n : Int64) :
      Denotes (.integer n) (.ofSeconds (n.toInt / 1000) (n.toInt % 1000).toNat)
  | real {x : Binary64} (finite : x.isFinite = true) :
      Denotes (.real x) (.ofSeconds (x.trunc / 1000) (x.trunc % 1000).toNat)

namespace Calendar.Instant

theorem ofMilliseconds?_eq_some {ms : Int} {i : Instant} (h : ofMilliseconds? ms = some i) :
    i = .ofSeconds (ms / 1000) (ms % 1000).toNat ∧
      Date.firstDay * 86400000 ≤ ms ∧ ms < (Date.lastDay + 1) * 86400000 := by
  have perDay : ((secondsPerDay * 1000 : Nat) : Int) = 86400000 := rfl
  unfold ofMilliseconds? at h
  dsimp only at h
  rw [perDay] at h
  split at h
  · next inside =>
    cases h
    rw [Bool.and_eq_true, decide_eq_true_eq, decide_eq_true_eq] at inside
    obtain ⟨first, last⟩ := inside
    refine ⟨?_, by omega, by omega⟩
    simp only [ofSeconds, secondsPerDay, Instant.mk.injEq]
    omega
  · cases h

end Calendar.Instant

namespace ColumnType

theorem toInt_toInt64_of_day {x : Binary64} (finite : x.isFinite = true) {i : Instant}
    (h : Instant.ofMilliseconds? x.toInt64.toInt = some i) : x.toInt64.toInt = x.trunc := by
  obtain ⟨-, first, last⟩ := Instant.ofMilliseconds?_eq_some h
  have low : -2 ^ 63 < Date.firstDay * 86400000 := by decide
  have high : (Date.lastDay + 1) * 86400000 < 2 ^ 63 - 1 := by decide
  rw [Binary64.toInt_toInt64 finite] at first last ⊢
  omega

theorem denotes_of_instantOf? {v : Value} {i : Instant} (h : instantOf? v = some i) :
    v.Denotes i.toMillisecond := by
  have whole (seconds : Int) (ms : Nat) :
      (Instant.ofSeconds seconds ms).toMillisecond = .ofSeconds seconds ms := by
    simp [Instant.toMillisecond, Instant.ofSeconds]
  cases v with
  | text s => exact .text (spells_of_read h)
  | date s => exact .date (spells_of_read h)
  | integer n =>
    rw [(Instant.ofMilliseconds?_eq_some h).1, whole]
    exact .integer n
  | real x =>
    dsimp only [instantOf?] at h
    split at h
    · next finite =>
      rw [(Instant.ofMilliseconds?_eq_some h).1, whole, toInt_toInt64_of_day finite h]
      exact .real finite
    · cases h
  | null => cases h
  | boolean b => cases h

end ColumnType

theorem Value.Denotes.valid {v : Value} {i : Instant} (h : v.Denotes i) : i.Valid := by
  cases h with
  | text spelled => exact spelled.valid
  | date spelled => exact spelled.valid
  | integer n => exact Instant.valid_ofSeconds (.inl (by omega))
  | real _ => exact Instant.valid_ofSeconds (.inl (by omega))

namespace Column

theorem coerce_date {c : Column} (hc : c.type = .date) {v : Value} (some : v ≠ .null) :
    c.coerce v = (ColumnType.instantOf? v).elim (.error (.notConvertible v .date c.name))
      fun i => .ok (.date i.text) := by
  rw [coerce_eq c v some, hc, ColumnType.convert?]
  cases ColumnType.instantOf? v <;> rfl

/-- What a DATE column holds is the text of the instant that the value stands for. -/
theorem denotes_of_coerce {c : Column} (hc : c.type = .date) {v : Value} {s : String}
    (h : c.coerce v = .ok (.date s)) : ∃ i, v.Denotes i ∧ i.toMillisecond = i ∧ s = i.text := by
  have some : v ≠ .null := by
    rintro rfl
    cases h
  rw [coerce_date hc some] at h
  cases read : ColumnType.instantOf? v with
  | none =>
    rw [read] at h
    cases h
  | some i =>
    rw [read, Option.elim_some, Except.ok.injEq, Value.date.injEq] at h
    exact ⟨i.toMillisecond, ColumnType.denotes_of_instantOf? read, i.toMillisecond_toMillisecond,
      h.symm.trans i.text_toMillisecond.symm⟩

theorem coerce_text {c : Column} (hc : c.type = .date) {i : Instant} (valid : i.Valid) {v : Value}
    (hv : v = .date i.text ∨ v = .text i.text) :
    c.coerce v = if IsPlain i.date.year then .ok (.date i.text)
      else .error (.notConvertible v .date c.name) := by
  have some : v ≠ .null := by
    rintro rfl
    rcases hv with h | h <;> cases h
  have read : ColumnType.instantOf? v = Instant.ofText? i.text := by
    rcases hv with rfl | rfl <;> rfl
  rw [coerce_date hc some, read, ofText?_text valid]
  split
  · rw [Option.elim_some, Instant.text_toMillisecond]
  · rw [Option.elim_none]

/-- The texts that a DATE column holds are equal just if the instants are. Those of years of four
digits come in the order of the instants, and each of them is taken again as it is. The text of any
other year is refused. -/
theorem dates_ordered {c : Column} (hc : c.type = .date) {v w : Value} {s t : String}
    (hv : c.coerce v = .ok (.date s)) (hw : c.coerce w = .ok (.date t)) :
    ∃ i j : Instant, v.Denotes i ∧ w.Denotes j ∧
      (Value.equals (.date s) (.date t) = true ↔ i = j) ∧
      (IsPlain i.date.year → IsPlain j.date.year →
        Value.order? (.date s) (.date t) = some (i.order j) ∧
        Value.sortOrder (.date s) (.date t) = i.order j) ∧
      ∀ again, again = .date s ∨ again = .text s →
        c.coerce again = if IsPlain i.date.year then .ok (.date s)
          else .error (.notConvertible again .date c.name) := by
  obtain ⟨i, hi, i_exact, rfl⟩ := denotes_of_coerce hc hv
  obtain ⟨j, hj, j_exact, rfl⟩ := denotes_of_coerce hc hw
  have equal := Instant.text_eq_text hi.valid hj.valid
  have ordered := Instant.compare_text hi.valid hj.valid
  rw [i_exact, j_exact] at equal ordered
  refine ⟨i, j, hi, hj, ?_, fun hp hq => ?_, fun again => coerce_text hc hi.valid⟩
  · rw [← equal]
    exact beq_iff_eq
  · rw [← ordered hp hq]
    exact ⟨rfl, rfl⟩

theorem dates_ordered_1970 :
    let c : Column := { name := "d", type := .date }
    let last := "1969-12-31T23:59:59.999Z"
    let first := "1970-01-01T00:00:00.000Z"
    c.coerce (.integer (-1)) = .ok (.date last) ∧ c.coerce (.integer 0) = .ok (.date first) ∧
    Value.sortOrder (.date last) (.date first) =
      Instant.order ⟨-1, 86399, 999000000⟩ ⟨0, 0, 0⟩ ∧
    c.coerce (.text last) = .ok (.date last) := by
  intro c last first
  have stored : c.coerce (.integer (-1)) = .ok (.date last) ∧
      c.coerce (.integer 0) = .ok (.date first) := by
    decide
  obtain ⟨i, j, hi, hj, -, ordered, again⟩ := @dates_ordered c rfl _ _ _ _ stored.1 stored.2
  cases hi
  cases hj
  refine ⟨stored.1, stored.2, ?_, ?_⟩
  · exact (ordered (by decide) (by decide +kernel)).2
  · rw [again _ (.inr rfl), if_pos (by decide)]

/-- The year 10000 comes before the year 2024, and its text is refused. -/
theorem dates_astray :
    let c : Column := { name := "d", type := .date }
    let late := "+10000-01-01T00:00:00.000Z"
    let early := "2024-01-01T00:00:00.000Z"
    c.coerce (.integer 253402300800000) = .ok (.date late) ∧
    c.coerce (.text "2024-01-01") = .ok (.date early) ∧
    Instant.order (.ofSeconds 253402300800 0) (.ofSeconds 1704067200 0) = .gt ∧
    Value.order? (.date late) (.date early) = some .lt ∧
    Value.sortOrder (.date late) (.date early) = .lt ∧
    c.coerce (.date late) = .error (.notConvertible (.date late) .date "d") := by
  decide

end Column
end SqlEngine
