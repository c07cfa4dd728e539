import Mathlib
import SqlEngine.Proofs.Condition.Comparison
import SqlEngine.Proofs.Number.Whole
import SqlEngine.Proofs.Relation.Distinct

/-! SUM, MIN and MAX of words and nulls. A sum is exact while its partial sums fit a word, which
depends on the order of the rows. MIN and MAX compare the doubles that the words are read as, so the
first of several words that are read as one double stands for all of them. -/

namespace SqlEngine

open Dialect

namespace Value

inductive IsWord : Value → Prop where
  | null : IsWord .null
  | integer (n : Int64) : IsWord (.integer n)

instance : DecidablePred IsWord
  | null => .isTrue .null
  | integer n => .isTrue (.integer n)
  | boolean _ => .isFalse nofun
  | real _ => .isFalse nofun
  | text _ => .isFalse nofun
  | date _ => .isFalse nofun

def word? : Value → Option Int64
  | integer n => some n
  | _ => none

/-- The words among some values. -/
def words (values : List Value) : List Int64 := values.filterMap word?

theorem mem_words {values : List Value} {n : Int64} : n ∈ words values ↔ .integer n ∈ values := by
  rw [words, List.mem_filterMap]
  constructor
  · rintro ⟨v, hv, word⟩
    cases v <;> cases word
    exact hv
  · exact fun listed => ⟨_, listed, rfl⟩

theorem words_concat (values : List Value) (v : Value) :
    words (values ++ [v]) = words values ++ v.word?.toList := by
  rw [words, List.filterMap_append]
  cases v <;> rfl

end Value

theorem firstsBeyond_append {α κ : Type} [BEq κ] (key : α → κ) (seen : List κ) (xs ys : List α) :
    ∃ seen', firstsBeyond key seen (xs ++ ys) =
      firstsBeyond key seen xs ++ firstsBeyond key seen' ys := by
  induction xs generalizing seen with
  | nil => exact ⟨seen, rfl⟩
  | cons x xs ih =>
    rw [List.cons_append, firstsBeyond, firstsBeyond]
    split
    · exact ih seen
    · obtain ⟨seen', split⟩ := ih (key x :: seen)
      exact ⟨seen', by rw [split, List.cons_append]⟩

namespace Value

theorem nodup_distinctValues (values : List Value) : (distinctValues values).Nodup :=
  .of_map json nodup_map_firstsBeyond

theorem mem_distinctValues {values : List Value} (h : ∀ v ∈ values, v.IsWord) {n : Int64} :
    integer n ∈ distinctValues values ↔ integer n ∈ values := by
  refine ⟨fun listed => (List.mem_filter.mp ((firsts_sublist json _).mem listed)).1,
    fun listed => ?_⟩
  have kept : integer n ∈ values.filter fun v => !v.isNull := List.mem_filter.mpr ⟨listed, rfl⟩
  have first : (integer n).json ∈ (distinctValues values).map json :=
    mem_map_firstsBeyond.mpr ⟨List.mem_map_of_mem kept, List.not_mem_nil⟩
  obtain ⟨w, hw, same⟩ := List.mem_map.mp first
  obtain ⟨listed', some⟩ := List.mem_filter.mp ((firsts_sublist json _).mem hw)
  cases h w listed' with
  | null => cases some
  | integer m =>
    have admits (k : Int64) : ColumnType.integer.admits (.integer k) = true := rfl
    rwa [← json_inj (admits m) (admits n) trivial trivial same]

end Value

section

variable {scope : Scope} {column : ColumnName} {distinct : Bool} {rows rows' : List Row}

def wordsUnder (scope : Scope) (column : ColumnName) (distinct : Bool) (rows : List Row) :
    List Int64 :=
  Value.words (argumentValues scope column distinct rows)

def HoldsWords (scope : Scope) (column : ColumnName) (rows : List Row) : Prop :=
  ∀ row ∈ rows, (scope.value row column.text).IsWord

instance : Decidable (HoldsWords scope column rows) :=
  inferInstanceAs (Decidable (∀ row ∈ rows, (scope.value row column.text).IsWord))

theorem HoldsWords.perm (h : HoldsWords scope column rows) (same : rows'.Perm rows) :
    HoldsWords scope column rows' :=
  fun row hrow => h row (same.mem_iff.mp hrow)

theorem HoldsWords.values (h : HoldsWords scope column rows) :
    ∀ v ∈ rows.map (scope.value · column.text), v.IsWord :=
  List.forall_mem_map.mpr h

theorem HoldsWords.arguments (h : HoldsWords scope column rows) (distinct : Bool) :
    ∀ v ∈ argumentValues scope column distinct rows, v.IsWord := by
  cases distinct with
  | false => exact h.values
  | true => exact fun v hv => h.values v (List.mem_filter.mp ((firsts_sublist _ _).mem hv)).1

theorem mem_wordsUnder (h : HoldsWords scope column rows) {n : Int64} :
    n ∈ wordsUnder scope column distinct rows ↔
      ∃ row ∈ rows, scope.value row column.text = .integer n := by
  rw [wordsUnder, Value.mem_words, ← List.mem_map]
  cases distinct with
  | false => rfl
  | true => exact Value.mem_distinctValues h.values

theorem nodup_wordsUnder (rows : List Row) : (wordsUnder scope column true rows).Nodup := by
  refine (Value.nodup_distinctValues _).filterMap ?_
  intro v w n hv hw
  cases v <;> cases hv
  cases w <;> cases hw
  rfl

theorem wordsUnder_perm (distinct : Bool) (h : HoldsWords scope column rows)
    (same : rows'.Perm rows) :
    (wordsUnder scope column distinct rows').Perm (wordsUnder scope column distinct rows) := by
  cases distinct with
  | false => exact (same.map _).filterMap _
  | true =>
    rw [List.perm_ext_iff_of_nodup (nodup_wordsUnder _) (nodup_wordsUnder _)]
    intro n
    rw [mem_wordsUnder (h.perm same), mem_wordsUnder h]
    exact exists_congr fun row => and_congr_left fun _ => same.mem_iff

end

def total (ns : List Int64) : Int := (ns.map Int64.toInt).sum

def FitsWord (i : Int) : Prop := -2 ^ 63 ≤ i ∧ i < 2 ^ 63

instance (i : Int) : Decidable (FitsWord i) := inferInstanceAs (Decidable (_ ∧ _))

/-- The words can be added up one after the other. -/
def AddUp (ns : List Int64) : Prop := ∀ part, part <+: ns → FitsWord (total part)

instance (ns : List Int64) : Decidable (AddUp ns) :=
  decidable_of_iff (∀ part ∈ ns.inits, FitsWord (total part)) (by simp [AddUp, List.mem_inits])

theorem total_append (ms ns : List Int64) : total (ms ++ ns) = total ms + total ns := by
  simp [total]

theorem fitsWord_toInt (n : Int64) : FitsWord n.toInt := ⟨n.le_toInt, n.toInt_lt⟩

theorem addUp_concat {ns : List Int64} {n : Int64} :
    AddUp (ns ++ [n]) ↔ AddUp ns ∧ FitsWord (total (ns ++ [n])) := by
  simp only [AddUp, List.prefix_concat_iff, or_imp, forall_and, forall_eq]
  exact and_comm

namespace RunningSum

theorem exact_add {s : RunningSum} {v : Value} (h : v.IsWord) : (s.add v).exact =
    v.word?.elim s.exact fun n => s.exact.bind (addWords? · n) := by
  cases h <;> rfl

/-- The sum stays exact just while all partial sums fit a word. -/
theorem exact_eq_some {values : List Value} (h : ∀ v ∈ values, v.IsWord) {n : Int64} :
    (values.foldl add start).exact = some n ↔
      AddUp (Value.words values) ∧ n.toInt = total (Value.words values) := by
  induction values using List.reverseRecOn generalizing n with
  | nil =>
    have zero : AddUp [] := by
      intro part hpart
      rw [List.prefix_nil.mp hpart]
      decide
    refine ⟨fun same => ⟨zero, ?_⟩, fun same => ?_⟩
    · cases same
      rfl
    · exact congrArg some (Int64.toInt_inj.mp same.2).symm
  | append_singleton values v ih =>
    rw [List.forall_mem_append, List.forall_mem_singleton] at h
    rw [List.foldl_concat, exact_add h.2, Value.words_concat]
    cases h.2 with
    | null => simpa [Value.word?] using ih h.1
    | integer m =>
      simp only [Value.word?, Option.elim_some, Option.bind_eq_some_iff, ih h.1, addWords?,
        signedWord?_eq_some, Option.toList_some, addUp_concat, total_append]
      have last : total [m] = m.toInt := by simp [total]
      rw [last]
      constructor
      · rintro ⟨k, ⟨fits, sum⟩, next⟩
        have sum' : n.toInt = total (Value.words values) + m.toInt := by omega
        exact ⟨⟨fits, sum' ▸ fitsWord_toInt n⟩, sum'⟩
      · rintro ⟨⟨fits, -⟩, sum⟩
        have whole : FitsWord (total (Value.words values)) := fits _ List.prefix_rfl
        obtain ⟨low, high⟩ := whole
        refine ⟨.ofInt (total (Value.words values)), ⟨fits, ?_⟩, ?_⟩
        · rw [Int64.toInt_ofInt_of_le low high]
        · rw [Int64.toInt_ofInt_of_le low high, sum]

end RunningSum

theorem sumOf_words {values : List Value} (h : ∀ v ∈ values, v.IsWord) :
    (∀ n, sumOf values = .integer n ↔
      AddUp (Value.words values) ∧ n.toInt = total (Value.words values)) ∧
    (¬AddUp (Value.words values) → ∃ x, sumOf values = .real x) := by
  simp only [← RunningSum.exact_eq_some h, sumOf, RunningSum.value]
  cases exact : (values.foldl RunningSum.add .start).exact with
  | none => simp
  | some n =>
    have fits := ((RunningSum.exact_eq_some h).mp exact).1
    exact ⟨fun m => by simp, fun overflow => absurd fits overflow⟩

def gains (ns : List Int64) : List Int64 := ns.filter (0 < ·.toInt)

def losses (ns : List Int64) : List Int64 := ns.filter (·.toInt < 0)

theorem total_perm {ms ns : List Int64} (h : ms.Perm ns) : total ms = total ns :=
  (h.map _).sum_eq

theorem losses_le_total_le_gains (ns : List Int64) :
    total (losses ns) ≤ total ns ∧ total ns ≤ total (gains ns) := by
  induction ns with
  | nil => exact ⟨le_rfl, le_rfl⟩
  | cons n ns ih =>
    have split : total (n :: ns) = n.toInt + total ns := List.sum_cons
    have gain : total (gains (n :: ns)) = max 0 n.toInt + total (gains ns) := by
      by_cases positive : 0 < n.toInt
      · simp [gains, total, positive, max_eq_right positive.le]
      · simp [gains, total, positive, max_eq_left (not_lt.mp positive)]
    have loss : total (losses (n :: ns)) = min 0 n.toInt + total (losses ns) := by
      by_cases negative : n.toInt < 0
      · simp [losses, total, negative, min_eq_right negative.le]
      · simp [losses, total, negative, min_eq_left (not_lt.mp negative)]
    omega

theorem total_gains_nonneg (ns : List Int64) : 0 ≤ total (gains ns) := by
  refine List.sum_nonneg (List.forall_mem_map.mpr fun n hn => ?_)
  exact (of_decide_eq_true (List.mem_filter.mp hn).2).le

theorem total_losses_nonpos (ns : List Int64) : total (losses ns) ≤ 0 := by
  have none : gains (losses ns) = [] := by
    rw [gains, List.filter_eq_nil_iff]
    intro n hn
    have negative := of_decide_eq_true (List.mem_filter.mp hn).2
    simpa using negative.le
  have bound := (losses_le_total_le_gains (losses ns)).2
  rwa [none] at bound

theorem gains_le_of_prefix {part ns : List Int64} (h : part <+: ns) :
    total (gains part) ≤ total (gains ns) ∧ total (losses ns) ≤ total (losses part) := by
  obtain ⟨rest, rfl⟩ := h
  have gain := total_gains_nonneg rest
  have loss := total_losses_nonpos rest
  simp only [gains, losses, List.filter_append, total_append] at *
  omega

theorem addUp_of_gains {ns : List Int64} (gain : FitsWord (total (gains ns)))
    (loss : FitsWord (total (losses ns))) : AddUp ns := by
  intro part hpart
  have inside := losses_le_total_le_gains part
  have whole := gains_le_of_prefix hpart
  unfold FitsWord at *
  omega

section

variable {scope : Scope} {column : ColumnName} {distinct : Bool} {rows : List Row}

theorem wordsUnder_append (front back : List Row) :
    wordsUnder scope column distinct front <+:
      wordsUnder scope column distinct (front ++ back) := by
  cases distinct with
  | false =>
    simp only [wordsUnder, argumentValues, List.map_append, Value.words, Bool.false_eq_true,
      if_false, List.filterMap_append]
    exact List.prefix_append _ _
  | true =>
    simp only [wordsUnder, argumentValues, distinctValues, firsts, List.map_append,
      List.filter_append, Value.words, if_true]
    obtain ⟨seen, split⟩ := firstsBeyond_append Value.json []
      ((front.map (scope.value · column.text)).filter fun v => !v.isNull)
      ((back.map (scope.value · column.text)).filter fun v => !v.isNull)
    rw [split, List.filterMap_append]
    exact List.prefix_append _ _

theorem wordsUnder_filter (h : HoldsWords scope column rows) (p : Int64 → Bool) :
    (wordsUnder scope column distinct
      (rows.filter fun row => (scope.value row column.text).word?.any p)).Perm
        ((wordsUnder scope column distinct rows).filter p) := by
  have kept : HoldsWords scope column
      (rows.filter fun row => (scope.value row column.text).word?.any p) :=
    fun row hrow => h row (List.mem_filter.mp hrow).1
  cases distinct with
  | false =>
    refine .of_eq ?_
    simp only [wordsUnder, argumentValues, Value.words, Bool.false_eq_true, if_false,
      List.filterMap_map, List.filterMap_filter, List.filter_filterMap]
    refine List.filterMap_congr fun row _ => ?_
    simp only [Function.comp_apply]
    cases (scope.value row column.text).word? <;> simp [Option.filter]
  | true =>
    rw [List.perm_ext_iff_of_nodup (nodup_wordsUnder _) ((nodup_wordsUnder _).filter _)]
    intro n
    rw [mem_wordsUnder kept, List.mem_filter, mem_wordsUnder h]
    constructor
    · rintro ⟨row, hrow, word⟩
      obtain ⟨listed, passes⟩ := List.mem_filter.mp hrow
      exact ⟨⟨row, listed, word⟩, by simpa [word, Value.word?] using passes⟩
    · rintro ⟨⟨row, listed, word⟩, passes⟩
      exact ⟨row, List.mem_filter.mpr ⟨listed, by simpa [word, Value.word?] using passes⟩, word⟩

theorem exists_first (distinct : Bool) (h : HoldsWords scope column rows) (p : Int64 → Bool) :
    ∃ rows', rows'.Perm rows ∧ ∃ front, front <+: wordsUnder scope column distinct rows' ∧
      front.Perm ((wordsUnder scope column distinct rows).filter p) :=
  ⟨_, List.filter_append_perm (fun row => (scope.value row column.text).word?.any p) rows, _,
    wordsUnder_append _ _, wordsUnder_filter h p⟩

/-- Every order of the rows lets the words be added up just if the positive words and the negative
ones do so apart. -/
theorem addUp_orders (h : HoldsWords scope column rows) :
    let ns := wordsUnder scope column distinct rows
    (∀ rows', rows'.Perm rows → AddUp (wordsUnder scope column distinct rows')) ↔
      FitsWord (total (gains ns)) ∧ FitsWord (total (losses ns)) := by
  intro ns
  constructor
  · intro all
    -- What comes first in some order has a partial sum for its sum.
    have first (p : Int64 → Bool) : FitsWord (total (ns.filter p)) := by
      obtain ⟨rows', perm, front, leading, kind⟩ := exists_first distinct h p
      rw [← total_perm kind]
      exact all rows' perm front leading
    exact ⟨first _, first _⟩
  · rintro ⟨gain, loss⟩ rows' same
    have perm := wordsUnder_perm distinct h same
    refine addUp_of_gains ?_ ?_
    · rwa [gains, total_perm (perm.filter _)]
    · rwa [losses, total_perm (perm.filter _)]

end

/-- SUM of words and nulls answers a word just if the words can be added up one after the other, and
then it is their exact sum. Else it answers a real. It answers the exact sum in every order of the
rows just if the positive words and the negative ones have sums that fit. -/
theorem Dialect.AggregateCall.sum_words {scope : Scope} {column : ColumnName} {rows : List Row}
    (h : HoldsWords scope column rows) (distinct : Bool) :
    let call : AggregateCall := ⟨.sum, some column, distinct⟩
    let ns := wordsUnder scope column distinct rows
    let exact := fun rows => ∃ n : Int64, n.toInt = total ns ∧
      call.evaluate scope rows = .ok (.integer n)
    (exact rows ↔ AddUp ns) ∧
    (¬AddUp ns → ∃ x, call.evaluate scope rows = .ok (.real x)) ∧
    ((∀ rows', rows'.Perm rows → exact rows') ↔
      FitsWord (total (gains ns)) ∧ FitsWord (total (losses ns))) := by
  intro call ns exact
  have answer (rows : List Row) : call.evaluate scope rows =
      .ok (sumOf (argumentValues scope column distinct rows)) := rfl
  have exact_iff {rows' : List Row} (same : rows'.Perm rows) :
      exact rows' ↔ AddUp (wordsUnder scope column distinct rows') := by
    have sum := (sumOf_words ((h.perm same).arguments distinct)).1
    have equal : total (wordsUnder scope column distinct rows') = total ns :=
      total_perm (wordsUnder_perm distinct h same)
    simp only [exact, answer, Except.ok.injEq]
    constructor
    · rintro ⟨n, -, made⟩
      exact ((sum n).mp made).1
    · intro fits
      obtain ⟨low, high⟩ := fits _ List.prefix_rfl
      rw [equal] at low high
      have value := Int64.toInt_ofInt_of_le low high
      exact ⟨.ofInt (total ns), value, (sum _).mpr ⟨fits, value.trans equal.symm⟩⟩
  refine ⟨exact_iff (.refl _), fun overflow => ?_, ?_⟩
  · obtain ⟨x, real⟩ := (sumOf_words (h.arguments distinct)).2 overflow
    exact ⟨x, (answer rows).trans (congrArg Except.ok real)⟩
  · refine .trans ?_ (addUp_orders h)
    exact forall_congr' fun rows' => forall_congr' exact_iff

def columnRows (values : List Value) : List Row := values.map fun v => .ofEntries [("a", v)]

theorem Dialect.AggregateCall.sum_words_mixed :
    let rows := columnRows [.integer (-5), .null, .integer 9223372036854775807, .integer 3]
    ∃ n : Int64, n.toInt = 9223372036854775805 ∧
      AggregateCall.evaluate ⟨.sum, some (.bare "a"), false⟩ (.ofTable "t" none) rows =
        .ok (.integer n) := by
  intro rows
  have words : HoldsWords (.ofTable "t" none) (.bare "a") rows := by decide
  have fits : AddUp (wordsUnder (.ofTable "t" none) (.bare "a") false rows) := by decide
  obtain ⟨n, sum, answer⟩ := (sum_words words false).1.mpr fits
  have value : total (wordsUnder (.ofTable "t" none) (.bare "a") false rows) =
      9223372036854775805 := by decide
  exact ⟨n, sum.trans value, answer⟩

/-- The sum fits a word, but the first two words do not add up. In another order they do. -/
theorem Dialect.AggregateCall.sum_astray :
    let sum := AggregateCall.evaluate ⟨.sum, some (.bare "a"), false⟩ (.ofTable "t" none)
    let greatest : Value := .integer 9223372036854775807
    total (Value.words [greatest, .integer 1, .integer (-1)]) = 9223372036854775807 ∧
    sum (columnRows [greatest, .integer 1, .integer (-1)]) =
      .ok (.real (.ofNat 9223372036854775808)) ∧
    sum (columnRows [.integer 1, .integer (-1), greatest]) = .ok greatest := by
  decide +kernel

def better (beats : Binary64 → Binary64 → Bool) (best : Option (Value × Binary64)) (v : Value) :
    Option (Value × Binary64) :=
  match v.number?, best with
  | none, _ => best
  | some x, none => some (v, x)
  | some x, some (_, y) => if beats x y then some (v, x) else best

theorem extremeOf_eq (beats : Binary64 → Binary64 → Bool) (values : List Value) :
    extremeOf beats values = (values.foldl (better beats) none).elim .null (·.1) := by
  unfold extremeOf
  generalize best : List.foldl _ none values = found
  change values.foldl (better beats) none = found at best
  rw [best]
  cases found <;> rfl

section

variable {beats : Binary64 → Binary64 → Bool} {number : Int64 → Int}
  (beats_iff : ∀ m n, beats (Value.ofWord m) (Value.ofWord n) = true ↔ number m < number n)
include beats_iff

/-- Where the word of the lesser number beats the other one, the first word of the least number is
the best. -/
theorem foldl_better {values : List Value} (h : ∀ v ∈ values, v.IsWord) :
    values.foldl (better beats) none =
      ((Value.words values).argmin number).map fun n => (.integer n, Value.ofWord n) := by
  induction values using List.reverseRecOn with
  | nil => rfl
  | append_singleton values v ih =>
    rw [List.forall_mem_append, List.forall_mem_singleton] at h
    rw [List.foldl_concat, ih h.1, Value.words_concat]
    cases h.2 with
    | null => simp [better, Value.word?, Value.number?]
    | integer n =>
      simp only [Value.word?, Option.toList_some, List.argmin_concat]
      cases (Value.words values).argmin number with
      | none => rfl
      | some m =>
        simp only [better, Value.number?, Option.map_some, beats_iff]
        split <;> rfl

theorem extremeOf_words {values : List Value} (h : ∀ v ∈ values, v.IsWord) :
    extremeOf beats values = ((Value.words values).argmin number).elim .null .integer := by
  rw [extremeOf_eq, foldl_better beats_iff h]
  cases (Value.words values).argmin number <;> rfl

end

namespace Dialect.Aggregate

/-- The word that MIN or MAX should find among some words. -/
def IsExtreme (f : Aggregate) (ns : List Int64) (m : Int64) : Prop :=
  m ∈ ns ∧ (f = .min ∧ (∀ n ∈ ns, m ≤ n) ∨ f = .max ∧ ∀ n ∈ ns, n ≤ m)

def number (f : Aggregate) (n : Int64) : Int :=
  if f = .max then -(Value.ofWord n).rank else (Value.ofWord n).rank

variable {f : Aggregate} {m n : Int64}

theorem number_inj : f.number m = f.number n ↔ Value.ofWord m = Value.ofWord n := by
  rw [← Value.rank_ofWord_inj]
  unfold number
  split <;> omega

theorem IsExtreme.number_le {ns : List Int64} (h : f.IsExtreme ns m) (listed : n ∈ ns) :
    f.number m ≤ f.number n := by
  rcases h.2 with ⟨rfl, least⟩ | ⟨rfl, greatest⟩
  · exact Binary64.rank_ofInt_mono (Int64.le_iff_toInt_le.mp (least n listed))
  · exact Int.neg_le_neg (Binary64.rank_ofInt_mono (Int64.le_iff_toInt_le.mp (greatest n listed)))

theorem IsExtreme.exists_argmin {ns ns' : List Int64} (h : f.IsExtreme ns m)
    (same : ∀ n, n ∈ ns' ↔ n ∈ ns) :
    ∃ n ∈ ns, Value.ofWord n = Value.ofWord m ∧ ns'.argmin f.number = some n := by
  cases found : ns'.argmin f.number with
  | none =>
    rw [List.argmin_eq_none] at found
    subst found
    exact absurd ((same m).mpr h.1) List.not_mem_nil
  | some n =>
    have listed : n ∈ ns := (same n).mp (List.argmin_mem found)
    have le : f.number n ≤ f.number m := List.le_of_mem_argmin ((same m).mpr h.1) found
    exact ⟨n, listed, number_inj.mp (le_antisymm le (h.number_le listed)), rfl⟩

theorem ofValues_words (hf : f = .min ∨ f = .max) {values : List Value}
    (h : ∀ v ∈ values, v.IsWord) :
    f.ofValues values = ((Value.words values).argmin f.number).elim .null .integer := by
  have lt_iff (m n : Int64) : (Value.ofWord m).lt (Value.ofWord n) = true ↔
      (Value.ofWord m).rank < (Value.ofWord n).rank := by
    rw [Binary64.lt, Value.ofWord, Value.ofWord, Binary64.compare?_ofInt, beq_iff_eq,
      Option.some.injEq, compare_lt_iff_lt]
  rcases hf with rfl | rfl
  · exact extremeOf_words lt_iff h
  · exact extremeOf_words (fun m n => (lt_iff n m).trans neg_lt_neg_iff.symm) h

end Dialect.Aggregate

/-- MIN and MAX of words and nulls answer null just if there is no word. Else they answer a word that
is read as the same double as the extreme word, in every order of the rows and with DISTINCT or
without. They answer the extreme word itself in every order just if no other word is read as its
double. -/
theorem Dialect.AggregateCall.extreme_words {scope : Scope} {column : ColumnName}
    {rows : List Row} (h : HoldsWords scope column rows) {f : Aggregate}
    (hf : f = .min ∨ f = .max) :
    let answer := fun distinct rows => AggregateCall.evaluate ⟨f, some column, distinct⟩ scope rows
    let ns := wordsUnder scope column false rows
    (∀ distinct, answer distinct rows = .ok .null ↔ ns = []) ∧
    ∀ m, f.IsExtreme ns m →
      (∀ distinct, ∀ rows', rows'.Perm rows →
        ∃ n ∈ ns, Value.ofWord n = Value.ofWord m ∧ answer distinct rows' = .ok (.integer n)) ∧
      ((∀ distinct, ∀ rows', rows'.Perm rows → answer distinct rows' = .ok (.integer m)) ↔
        ∀ n ∈ ns, Value.ofWord n = Value.ofWord m → n = m) := by
  intro answer ns
  have answer_eq (distinct : Bool) {rows' : List Row} (perm : rows'.Perm rows) :
      answer distinct rows' =
        .ok (((wordsUnder scope column distinct rows').argmin f.number).elim .null .integer) :=
    congrArg Except.ok (Aggregate.ofValues_words hf ((h.perm perm).arguments distinct))
  have same (distinct : Bool) {rows' : List Row} (perm : rows'.Perm rows) (n : Int64) :
      n ∈ wordsUnder scope column distinct rows' ↔ n ∈ ns := by
    rw [(wordsUnder_perm distinct h perm).mem_iff, mem_wordsUnder h, mem_wordsUnder h]
  refine ⟨fun distinct => ?_, fun m extreme => ⟨fun distinct rows' perm => ?_, ?_, ?_⟩⟩
  · have empty : wordsUnder scope column distinct rows = [] ↔ ns = [] := by
      simp only [List.eq_nil_iff_forall_not_mem, same distinct (.refl _)]
    rw [answer_eq distinct (.refl _), ← empty, ← List.argmin_eq_none (f := f.number)]
    cases (wordsUnder scope column distinct rows).argmin f.number <;> simp
  · obtain ⟨n, listed, double, found⟩ := extreme.exists_argmin (same distinct perm)
    exact ⟨n, listed, double, by rw [answer_eq distinct perm, found]; rfl⟩
  · intro all n listed double
    obtain ⟨rows', perm, front, ⟨rest, made⟩, kind⟩ := exists_first false h (· == n)
    have only : ∀ k ∈ front, k = n := fun k hk =>
      beq_iff_eq.mp (List.mem_filter.mp (kind.mem_iff.mp hk)).2
    have some : n ∈ front := kind.mem_iff.mpr (List.mem_filter.mpr ⟨listed, beq_self_eq_true n⟩)
    obtain ⟨k, front, rfl⟩ := List.exists_cons_of_ne_nil (List.ne_nil_of_mem some)
    obtain rfl := only k List.mem_cons_self
    -- The other word comes first, so it is the one that is found.
    obtain ⟨found, -, -, least⟩ := extreme.exists_argmin (same false perm)
    have answered := all false rows' perm
    rw [answer_eq false perm, least] at answered
    obtain rfl : found = m := Value.integer.inj (Except.ok.inj answered)
    have before := (List.argmin_eq_some_iff.mp least).2.2 k ((same false perm k).mpr listed)
      (Aggregate.number_inj.mpr double).le
    rw [← made, List.cons_append, List.idxOf_cons_self] at before
    by_contra differs
    rw [List.idxOf_cons_ne _ differs] at before
    omega
  · intro apart distinct rows' perm
    obtain ⟨n, listed, double, found⟩ := extreme.exists_argmin (same distinct perm)
    rw [answer_eq distinct perm, found, apart n listed double]
    rfl

/-- Neighbours beyond the digits of a double that are read as different ones. -/
theorem Dialect.AggregateCall.extreme_words_neighbours :
    let rows := columnRows [.integer 9007199254740994, .null, .integer 9007199254740993]
    AggregateCall.evaluate ⟨.min, some (.bare "a"), true⟩ (.ofTable "t" none) rows =
      .ok (.integer 9007199254740993) := by
  intro rows
  have words : HoldsWords (.ofTable "t" none) (.bare "a") rows := by decide
  have listed : wordsUnder (.ofTable "t" none) (.bare "a") false rows =
      [9007199254740994, 9007199254740993] := by decide
  have extreme : Aggregate.min.IsExtreme (wordsUnder (.ofTable "t" none) (.bare "a") false rows)
      9007199254740993 := by
    rw [listed]
    refine ⟨by decide, .inl ⟨rfl, List.forall_mem_cons.mpr ⟨by decide, ?_⟩⟩⟩
    exact List.forall_mem_singleton.mpr (by decide)
  have apart : ∀ n ∈ wordsUnder (.ofTable "t" none) (.bare "a") false rows,
      Value.ofWord n = Value.ofWord 9007199254740993 → n = 9007199254740993 := by
    have differ : Value.ofWord 9007199254740994 ≠ Value.ofWord 9007199254740993 := by
      decide +kernel
    rw [listed]
    exact List.forall_mem_cons.mpr ⟨fun same => absurd same differ,
      List.forall_mem_singleton.mpr fun _ => rfl⟩
  exact ((extreme_words words (.inl rfl)).2 _ extreme).2.mpr apart true rows (.refl rows)

/-- Of two words that are read as one double the first one is found, be it the greater or the
less. -/
theorem Dialect.AggregateCall.extreme_astray :
    let found := fun f rows =>
      AggregateCall.evaluate ⟨f, some (.bare "a"), false⟩ (.ofTable "t" none) rows
    let less : Value := .integer 9007199254740992
    let greater : Value := .integer 9007199254740993
    found .min (columnRows [greater, less]) = .ok greater ∧
      found .max (columnRows [less, greater]) = .ok less := by
  decide +kernel

end SqlEngine
