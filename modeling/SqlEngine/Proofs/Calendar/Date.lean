import Mathlib
import SqlEngine.Calendar.Date

/-! Days and their dates. Every day has a date, from which the day comes back, and later days have
later dates. The months follow each other without a gap, which puts their first days in order. -/

namespace SqlEngine.Calendar.Date

theorem exists_year {day : Nat} (h : day < 146097) : ∃ century four year rest,
    day = 36524 * century + 1461 * four + 365 * year + rest ∧ century ≤ 3 ∧ four ≤ 24 ∧ year ≤ 3 ∧
      rest ≤ 365 ∧ (rest = 365 → year = 3 ∧ (four = 24 → century = 3)) := by
  refine ⟨min (day / 36524) 3, (day - 36524 * min (day / 36524) 3) / 1461,
    min ((day - 36524 * min (day / 36524) 3) % 1461 / 365) 3,
    (day - 36524 * min (day / 36524) 3) % 1461 -
      365 * min ((day - 36524 * min (day / 36524) 3) % 1461 / 365) 3, ?_⟩
  omega

section

variable {century four year rest day : Nat}
  (split : day = 36524 * century + 1461 * four + 365 * year + rest) (hc : century ≤ 3)
  (hf : four ≤ 24) (hy : year ≤ 3) (hr : rest ≤ 365)
  (leap : rest = 365 → year = 3 ∧ (four = 24 → century = 3))
include split hc hf hy hr leap

theorem yearOfCycle_eq : (day - day / 1460 + day / 36524 - day / 146096) / 365 =
    100 * century + 4 * four + year := by
  have fours : day / 1460 =
      25 * century + four + (24 * century + four + 365 * year + rest) / 1460 := by
    have : day = 1460 * (25 * century + four) + (24 * century + four + 365 * year + rest) := by
      omega
    rw [this, Nat.mul_add_div (by decide)]
  have centuries : day / 36524 - day / 146096 = century ∧ day / 146096 ≤ day / 36524 := by
    by_cases last : day = 146096
    · omega
    · have none : day / 146096 = 0 := by omega
      have whole : day / 36524 = century := by omega
      omega
  have late : (24 * century + four + 365 * year + rest) / 1460 ≤ rest ∧
      (24 * century + four + 365 * year + rest) / 1460 ≤ 1 ∧
      (rest = 365 → 1 ≤ (24 * century + four + 365 * year + rest) / 1460) := by omega
  generalize (24 * century + four + 365 * year + rest) / 1460 = more at fours late
  have days : day - day / 1460 + day / 36524 - day / 146096 =
      365 * (100 * century + 4 * four + year) + (rest - more) := by omega
  rw [days, Nat.mul_add_div (by decide), Nat.div_eq_of_lt (by omega), Nat.add_zero]

end

def firstOfYear (year : Nat) : Nat := 365 * year + year / 4 - year / 100

/-- Which day of which year of the cycle a day is. -/
structure IsYearDay (day year rest : Nat) : Prop where
  year_lt : year < 400
  rest_le : rest ≤ 365
  leap : rest = 365 → (year + 1) % 4 = 0 ∧ ((year + 1) % 100 ≠ 0 ∨ year = 399)
  eq : day = firstOfYear year + rest

theorem exists_yearDay {day : Nat} (h : day < 146097) :
    ∃ rest, IsYearDay day ((day - day / 1460 + day / 36524 - day / 146096) / 365) rest := by
  obtain ⟨century, four, year, rest, split, hc, hf, hy, hr, leap⟩ := exists_year h
  rw [yearOfCycle_eq split hc hf hy hr leap]
  have fours : (100 * century + 4 * four + year) / 4 = 25 * century + four := by omega
  have centuries : (100 * century + 4 * four + year) / 100 = century := by omega
  refine ⟨rest, by omega, hr, fun last => ?_, ?_⟩
  · obtain ⟨rfl, whole⟩ := leap last
    omega
  · rw [firstOfYear, fours, centuries, split]
    omega

def ofMarch (year : Int) (day : Nat) : Date :=
  let fromMarch := (5 * day + 2) / 153
  let month := if fromMarch < 10 then fromMarch + 3 else fromMarch - 9
  ⟨if month ≤ 2 then year + 1 else year, month, day - (153 * fromMarch + 2) / 5 + 1⟩

theorem exists_ofMarch (n : Int) : ∃ cycle : Int, ∃ day year rest : Nat,
    IsYearDay day year rest ∧ n + 719468 = cycle * 146097 + day ∧
      ofDays n = ofMarch (cycle * 400 + year) rest := by
  have inside : ((n + 719468) % 146097).toNat < 146097 := by omega
  obtain ⟨rest, split⟩ := exists_yearDay inside
  refine ⟨(n + 719468) / 146097, _, _, rest, split, by omega, ?_⟩
  have left (year : Nat) (h : IsYearDay ((n + 719468) % 146097).toNat year rest) :
      ((n + 719468) % 146097).toNat - (365 * year + year / 4 - year / 100) = rest := by
    rw [h.eq, firstOfYear, Nat.add_sub_cancel_left]
  unfold ofDays
  dsimp only
  rw [left _ split]
  rfl

theorem toDays_ofMarch {cycle : Int} {day year rest : Nat} (h : IsYearDay day year rest) :
    (ofMarch (cycle * 400 + year) rest).toDays = cycle * 146097 + day - 719468 := by
  obtain ⟨hy, hr, -, rfl⟩ := h
  have fromMarch : (5 * rest + 2) / 153 ≤ 11 := by omega
  have day : (153 * ((5 * rest + 2) / 153) + 2) / 5 ≤ rest := by omega
  have months : ((if (5 * rest + 2) / 153 < 10 then (5 * rest + 2) / 153 + 3
      else (5 * rest + 2) / 153 - 9) + 9) % 12 = (5 * rest + 2) / 153 := by
    split <;> omega
  have years (m : Nat) : (if m ≤ 2 then (if m ≤ 2 then cycle * 400 + (year : Int) + 1
      else cycle * 400 + year) - 1 else if m ≤ 2 then cycle * 400 + (year : Int) + 1
      else cycle * 400 + year) = cycle * 400 + year := by
    split <;> omega
  have cycles : (cycle * 400 + (year : Int)) / 400 = cycle := by omega
  have ofCycle : (cycle * 400 + (year : Int)) % 400 = year := by omega
  unfold toDays ofMarch
  dsimp only
  rw [years, months, cycles, ofCycle, firstOfYear]
  generalize (153 * ((5 * rest + 2) / 153) + 2) / 5 = before at day
  clear months years cycles ofCycle
  omega

theorem toDays_ofDays (n : Int) : (ofDays n).toDays = n := by
  obtain ⟨cycle, day, year, rest, split, same, made⟩ := exists_ofMarch n
  rw [made, toDays_ofMarch split]
  omega

structure InMonth (d : Date) : Prop where
  month_pos : 1 ≤ d.month
  month_le : d.month ≤ 12
  day_pos : 1 ≤ d.day
  day_le : d.day ≤ daysInMonth d.year d.month

theorem isValid_iff {d : Date} :
    d.isValid = true ↔ firstYear ≤ d.year ∧ d.year ≤ lastYear ∧ d.InMonth := by
  simp only [isValid, Bool.and_eq_true, decide_eq_true_eq]
  constructor
  · rintro ⟨⟨⟨⟨⟨first, last⟩, m⟩, m'⟩, d⟩, d'⟩
    exact ⟨first, last, m, m', d, d'⟩
  · rintro ⟨first, last, m, m', d, d'⟩
    exact ⟨⟨⟨⟨⟨first, last⟩, m⟩, m'⟩, d⟩, d'⟩

theorem isLeapYear_iff {year : Int} :
    isLeapYear year = true ↔ year % 4 = 0 ∧ (year % 100 ≠ 0 ∨ year % 400 = 0) := by
  simp [isLeapYear]

theorem inMonth_ofDays (n : Int) : (ofDays n).InMonth := by
  obtain ⟨cycle, day, year, rest, split, -, made⟩ := exists_ofMarch n
  have leap : rest = 365 → isLeapYear (cycle * 400 + year + 1) = true := by
    intro last
    have := split.leap last
    rw [isLeapYear_iff]
    omega
  have bound := split.rest_le
  have month : (5 * rest + 2) / 153 ≤ 11 := by omega
  rw [made, ofMarch]
  clear made split
  generalize fromMarch : (5 * rest + 2) / 153 = m at month
  interval_cases m
  case «11» =>
    -- February is the last month and as long as its year makes it.
    refine ⟨by simp, by simp, by simp, ?_⟩
    show rest - 337 + 1 ≤ if isLeapYear (cycle * 400 + year + 1) = true then 29 else 28
    split
    · omega
    · next common =>
      have : rest ≠ 365 := fun last => common (leap last)
      omega
  all_goals exact ⟨by simp, by simp, by simp, by simp [daysInMonth]; omega⟩

theorem toDays_nextMonth (year : Int) {month : Nat} (first : 1 ≤ month) (last : month < 12) :
    toDays ⟨year, month + 1, 1⟩ = toDays ⟨year, month, 1⟩ + daysInMonth year month := by
  interval_cases month
  case «2» =>
    have leap := @isLeapYear_iff year
    simp only [toDays, daysInMonth]
    cases h : isLeapYear year <;> rw [h] at leap <;> simp at leap ⊢ <;> omega
  all_goals
    simp [toDays, daysInMonth]
  all_goals omega

theorem toDays_nextYear (year : Int) : toDays ⟨year + 1, 1, 1⟩ = toDays ⟨year, 12, 1⟩ + 31 := by
  simp [toDays]
  omega

def monthNumber (d : Date) : Int := 12 * d.year + (d.month - 1)

def firstOfMonth (k : Int) : Int := toDays ⟨k / 12, (k % 12).toNat + 1, 1⟩

def monthLength (k : Int) : Nat := daysInMonth (k / 12) ((k % 12).toNat + 1)

theorem firstOfMonth_succ (k : Int) : firstOfMonth (k + 1) = firstOfMonth k + monthLength k := by
  unfold firstOfMonth monthLength
  rcases lt_or_eq_of_le (show k % 12 ≤ 11 by omega) with within | last
  · have year : (k + 1) / 12 = k / 12 := by omega
    have month : ((k + 1) % 12).toNat = (k % 12).toNat + 1 := by omega
    rw [year, month]
    exact toDays_nextMonth _ (by omega) (by omega)
  · have year : (k + 1) / 12 = k / 12 + 1 := by omega
    have month : ((k + 1) % 12).toNat = 0 := by omega
    rw [year, month, last]
    exact toDays_nextYear _

theorem firstOfMonth_strictMono : StrictMono firstOfMonth := by
  refine strictMono_int_of_lt_succ fun k => ?_
  have some : 0 < monthLength k := by
    unfold monthLength daysInMonth
    split <;> split <;> decide
  rw [firstOfMonth_succ]
  omega

namespace InMonth

variable {d e : Date} (hd : d.InMonth) (he : e.InMonth)

include hd

theorem year_eq : d.monthNumber / 12 = d.year := by
  have := hd.month_pos
  have := hd.month_le
  unfold monthNumber
  omega

theorem month_eq : (d.monthNumber % 12).toNat + 1 = d.month := by
  have := hd.month_pos
  have := hd.month_le
  unfold monthNumber
  omega

theorem toDays_eq : d.toDays = firstOfMonth d.monthNumber + d.day - 1 := by
  rw [firstOfMonth, hd.year_eq, hd.month_eq]
  unfold toDays
  dsimp only
  omega

theorem toDays_lt : d.toDays < firstOfMonth (d.monthNumber + 1) := by
  have := hd.day_le
  rw [firstOfMonth_succ, hd.toDays_eq, monthLength, hd.year_eq, hd.month_eq]
  omega

include he

theorem toDays_lt_of_month (h : d.monthNumber < e.monthNumber) : d.toDays < e.toDays := by
  have months : firstOfMonth (d.monthNumber + 1) ≤ firstOfMonth e.monthNumber :=
    firstOfMonth_strictMono.monotone h
  have first := he.day_pos
  have days := hd.toDays_lt
  have := he.toDays_eq
  omega

end InMonth

theorem lt_of_toDays_lt {d e : Date} (hd : d.InMonth) (he : e.InMonth) (h : d.toDays < e.toDays) :
    d.year < e.year ∨
      d.year = e.year ∧ (d.month < e.month ∨ d.month = e.month ∧ d.day < e.day) := by
  have months : d.monthNumber ≤ e.monthNumber := by
    by_contra later
    exact absurd (he.toDays_lt_of_month hd (by omega)) (by omega)
  have d_pos := hd.month_pos
  have d_le := hd.month_le
  have e_pos := he.month_pos
  have e_le := he.month_le
  have d_eq := hd.toDays_eq
  have e_eq := he.toDays_eq
  rcases lt_or_eq_of_le months with before | same
  · unfold monthNumber at before
    omega
  · rw [same] at d_eq
    unfold monthNumber at same
    omega

end SqlEngine.Calendar.Date
