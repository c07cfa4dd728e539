import SqlEngine.Proofs.Execution.Insertion
import SqlEngine.Proofs.Number.Rounding

/-! The numbers that a column generates: the one after the largest of the rows that are there, and
within a statement the one after the largest so far. The numbers of the rows that are there are read
as doubles, those of the statement are not. -/

namespace SqlEngine

theorem toInt_max (m n : Int64) : (max m n).toInt = max m.toInt n.toInt := by
  show (if m ≤ n then n else m).toInt = _
  simp only [Int64.le_iff_toInt_le]
  split <;> omega

instance lawfulOrderMaxInt64 : Std.LawfulOrderMax Int64 where
  max_eq_or m n := by
    rw [← Int64.toInt_inj, ← Int64.toInt_inj, toInt_max]
    omega
  max_le_iff m n k := by
    simp only [Int64.le_iff_toInt_le, toInt_max]
    omega

namespace Execution

/-- The numbers in a column, in the order of the rows. -/
def numbers (column : String) (rows : List Row) : List Int64 :=
  rows.filterMap fun row =>
    match row.get column with
    | .integer n => some n
    | _ => none

/-- The largest of some numbers, zero if there are none. -/
def Largest (ns : List Int64) (m : Int64) : Prop :=
  ns = [] ∧ m = 0 ∨ m ∈ ns ∧ ∀ n ∈ ns, n ≤ m

theorem exists_largest (ns : List Int64) : ∃ m, Largest ns m := by
  cases found : ns.max? with
  | none => exact ⟨0, .inl ⟨List.max?_eq_none_iff.mp found, rfl⟩⟩
  | some m => exact ⟨m, .inr (List.max?_eq_some_iff.mp found)⟩

theorem Largest.le {ns : List Int64} {m n : Int64} (h : Largest ns m) (hn : n ∈ ns) : n ≤ m := by
  rcases h with ⟨none, -⟩ | ⟨-, upper⟩
  · rw [none] at hn
    cases hn
  · exact upper n hn

theorem mem_numbers {column : String} {rows : List Row} {n : Int64} :
    n ∈ numbers column rows ↔ ∃ row ∈ rows, row.get column = .integer n := by
  simp only [numbers, List.mem_filterMap]
  refine exists_congr fun row => and_congr_right fun _ => ?_
  split
  · next is => simp [is]
  · next other => simpa using other n

theorem numbers_append (column : String) (first second : List Row) :
    numbers column (first ++ second) = numbers column first ++ numbers column second :=
  List.filterMap_append

theorem successor_zero : successor 0 = 1 := rfl

theorem toInt_successor (n : Int64) : (successor n).toInt = min (n.toInt + 1) (2 ^ 63 - 1) := by
  have upper := Int64.toInt_lt n
  have lower := Int64.le_toInt n
  unfold successor
  split
  · next isMax =>
    subst isMax
    decide
  · next below =>
    have notMax : n.toInt ≠ 2 ^ 63 - 1 := fun same => below (Int64.toInt_inj.mp same)
    rw [Int64.toInt_add, Int64.toInt_one, Int.bmod_eq_of_le_mul_two (by omega) (by omega)]
    omega

theorem successor_mono {m n : Int64} (h : m ≤ n) : successor m ≤ successor n := by
  rw [Int64.le_iff_toInt_le] at h ⊢
  rw [toInt_successor, toInt_successor]
  omega

def asRead (n : Int64) : Int64 := (Value.ofWord n).toInt64

variable {column : String} {rows existing staged : List Row} {m : Int64}

def Numeric (column : String) (rows : List Row) : Prop :=
  ∀ row ∈ rows, ColumnType.integer.admits (row.get column) = true

theorem Numeric.scan (h : Numeric column rows) :
    (rows.filterMap fun row => (row.get column).number?.map Binary64.toInt64) =
      (numbers column rows).map asRead := by
  rw [numbers, List.map_filterMap]
  refine List.filterMap_congr fun row hr => ?_
  have admits := h row hr
  cases value : row.get column with
  | null => rfl
  | integer n => rfl
  | _ => rw [value] at admits; cases admits

theorem Numeric.nextNumber_of_none (h : Numeric column rows) (none : numbers column rows = []) :
    nextNumber column rows = 1 := by
  rw [nextNumber, h.scan, none]
  rfl

theorem Numeric.nextNumber_of_mem (h : Numeric column rows) (there : m ∈ numbers column rows)
    (upper : ∀ n ∈ numbers column rows, n ≤ m) : nextNumber column rows = successor (asRead m) := by
  have largest : ((numbers column rows).map asRead).max? = some (asRead m) := by
    rw [List.max?_eq_some_iff]
    refine ⟨List.mem_map_of_mem there, fun n hn => ?_⟩
    obtain ⟨k, hk, rfl⟩ := List.mem_map.mp hn
    exact Value.toInt64_ofWord_mono (upper k hk)
  rw [nextNumber, h.scan, largest]

theorem Numeric.nextNumber_eq (h : Numeric column rows) (largest : Largest (numbers column rows) m)
    (exact : Binary64.Exact m.toInt) : nextNumber column rows = successor m := by
  rcases largest with ⟨none, rfl⟩ | ⟨there, upper⟩
  · rw [h.nextNumber_of_none none, successor_zero]
  · rw [h.nextNumber_of_mem there upper, asRead, Value.toInt64_ofWord exact]

theorem foldl_advance_eq (column : String) (first : Int64) (staged : List Row) :
    staged.foldl (advance column) first =
      ((numbers column staged).map successor).foldl max first := by
  induction staged generalizing first with
  | nil => rfl
  | cons row rest ih =>
    rw [List.foldl_cons, ih, advance, numbers, numbers, List.filterMap_cons]
    cases row.get column <;> rfl

theorem foldl_advance_bounds (column : String) (first : Int64) (staged : List Row) :
    first ≤ staged.foldl (advance column) first ∧
    (∀ n ∈ numbers column staged, successor n ≤ staged.foldl (advance column) first) ∧
    (staged.foldl (advance column) first = first ∨
      ∃ n ∈ numbers column staged, staged.foldl (advance column) first = successor n) := by
  rw [foldl_advance_eq, List.foldl_max]
  have left (m n : Int64) : m ≤ max m n := by
    rw [Int64.le_iff_toInt_le, toInt_max]
    omega
  cases found : ((numbers column staged).map successor).max? with
  | none =>
    rw [List.max?_eq_none_iff, List.map_eq_nil_iff] at found
    have same : max first first = first := Std.IdempotentOp.idempotent first
    rw [found, Option.getD_none, same]
    exact ⟨Int64.le_refl first, nofun, .inl rfl⟩
  | some last =>
    obtain ⟨there, upper⟩ := List.max?_eq_some_iff.mp found
    obtain ⟨n, hn, rfl⟩ := List.mem_map.mp there
    have right (k : Int64) (le : k ≤ successor n) : k ≤ max first (successor n) := by
      rw [Int64.le_iff_toInt_le] at le ⊢
      rw [toInt_max]
      omega
    refine ⟨left _ _, fun k hk => right _ (upper _ (List.mem_map_of_mem hk)), ?_⟩
    rcases Std.MaxEqOr.max_eq_or first (successor n) with same | same
    · exact .inl same
    · exact .inr ⟨n, hn, same⟩

theorem Numeric.exists_nextNumber (h : Numeric column rows) (some : numbers column rows ≠ []) :
    ∃ n ∈ numbers column rows, nextNumber column rows = successor (asRead n) := by
  obtain ⟨n, ⟨none, -⟩ | ⟨there, upper⟩⟩ := exists_largest (numbers column rows)
  · exact absurd none some
  · exact ⟨n, there, h.nextNumber_of_mem there upper⟩

/-- A statement comes to the same number as a scan of the rows that are there with its own, if the
largest of them is the value of a double, and is not below zero where none was there before. -/
theorem foldl_advance_nextNumber (numeric : Numeric column (existing ++ staged))
    (largest : Largest (numbers column (existing ++ staged)) m) (exact : Binary64.Exact m.toInt)
    (started : numbers column existing ≠ [] ∨ 0 ≤ m) :
    staged.foldl (advance column) (nextNumber column existing) =
      nextNumber column (existing ++ staged) := by
  have before : Numeric column existing := fun row hr => numeric row (List.mem_append_left _ hr)
  obtain ⟨lower, each, origin⟩ := foldl_advance_bounds column (nextNumber column existing) staged
  have upper {n : Int64} (hn : n ∈ numbers column existing ∨ n ∈ numbers column staged) :
      n ≤ m := by
    rw [numbers_append] at largest
    exact largest.le (List.mem_append.mpr hn)
  have start_le : nextNumber column existing ≤ successor m := by
    by_cases none : numbers column existing = []
    · rw [before.nextNumber_of_none none, ← successor_zero]
      exact successor_mono (started.resolve_left (not_not_intro none))
    · obtain ⟨n, hn, next⟩ := before.exists_nextNumber none
      have read := Value.toInt64_ofWord_mono (upper (.inl hn))
      rw [Value.toInt64_ofWord exact] at read
      rw [next]
      exact successor_mono read
  have le_last : successor m ≤ staged.foldl (advance column) (nextNumber column existing) := by
    rw [numbers_append] at largest
    rcases largest with ⟨none, rfl⟩ | ⟨there, -⟩
    · rw [before.nextNumber_of_none (List.append_eq_nil_iff.mp none).1] at lower ⊢
      rwa [successor_zero]
    · rcases List.mem_append.mp there with there | there
      · rw [before.nextNumber_of_mem there fun n hn => upper (.inl hn), asRead,
          Value.toInt64_ofWord exact] at lower ⊢
        exact lower
      · exact each m there
  rw [numeric.nextNumber_eq largest exact]
  refine Int64.le_antisymm ?_ le_last
  rcases origin with same | ⟨n, hn, same⟩
  · rwa [same]
  · rw [same]
    exact successor_mono (upper (.inr hn))

structure Generates (t : Table) (auto : Column) : Prop where
  mem : auto ∈ t.columns
  generated : auto.autoIncrement = true
  alone : ∀ c ∈ t.columns, c.autoIncrement = true → c = auto
  integer : auto.type = .integer

theorem Generates.autoIncrement? {t : Table} {auto : Column} (g : Generates t auto) :
    t.autoIncrement? = some auto := by
  cases found : t.autoIncrement? with
  | none =>
    rw [Table.autoIncrement?, List.find?_eq_none] at found
    exact absurd g.generated (found auto g.mem)
  | some c =>
    rw [g.alone c (List.mem_of_find?_eq_some found) (List.find?_some found)]

theorem Generates.upcoming_eq {t : Table} {auto : Column} (g : Generates t auto)
    (existing before : List Row) : upcoming t existing before =
      some (before.foldl (advance auto.name) (nextNumber auto.name existing)) := by
  rw [upcoming, g.autoIncrement?, Option.map_some]

theorem advance_of_taken {column : String} {row : Row} {n : Int64}
    (taken : row.get column = .integer n) : advance column n row = successor n := by
  have upper := Int64.toInt_lt n
  rw [advance, taken, ← Int64.toInt_inj]
  simp only [toInt_max, toInt_successor]
  omega

/-- Rows of values that suit a table, whatever its generated column holds: each gives a value for
every column in `columns`, every other column takes a value, and unique columns take none twice. -/
structure Suits (t : Table) (columns : List Column) (existing : List Row)
    (values : List (List Value)) : Prop where
  lengths : ∀ given ∈ values, given.length = columns.length
  taken : ∀ given ∈ values, ∀ c ∈ t.columns, c.autoIncrement = false →
    ∃ v, Takes columns given none c v
  fresh : ∀ given ∈ values, ∀ c ∈ t.uniqueColumns, c.autoIncrement = false →
    ∀ v, Takes columns given none c v → ∀ other ∈ existing, (other.get c.name).equals v = false
  distinct : values.Pairwise fun given given' => ∀ c ∈ t.uniqueColumns, c.autoIncrement = false →
    ∀ v w, Takes columns given none c v → Takes columns given' none c w → v.equals w = false

section

variable {t : Table} {columns : List Column} {given : List Value} {values : List (List Value)}
  {next : Option Int64} {auto : Column}

theorem Takes.plain {c : Column} {v : Value} {next' : Option Int64}
    (plain : c.autoIncrement = false) (h : Takes columns given next c v) :
    Takes columns given next' c v :=
  h.of_next fun isAuto => absurd plain (by simp [isAuto])

theorem Takes.of_omitted {v : Value} {n : Int64} (generated : auto.autoIncrement = true)
    (omitted : auto ∉ columns) (h : Takes columns given (some n) auto v) : v = .integer n := by
  cases h with
  | converted mem some ok => exact absurd (List.of_mem_zip mem).1 omitted
  | generated missing isAuto number =>
    cases number
    rfl
  | default missing plain declared => simp [generated] at plain
  | null missing plain nullable => simp [generated] at plain

theorem exists_made (names : t.columnNames.Nodup)
    (each : ∀ c ∈ t.columns, ∃ v, Takes columns given next c v) :
    ∃ row, Made t columns given next row := by
  choose! value takes using each
  have keys : (t.columns.map fun c => (c.name, value c)).map (·.1) = t.columnNames := by
    rw [List.map_map]
    rfl
  refine ⟨.ofEntries (t.columns.map fun c => (c.name, value c)), ?_, fun c hc => ?_⟩
  · rw [Row.names_ofEntries (keys ▸ names), keys]
  · have listed : (c.name, value c) ∈ t.columns.map fun c => (c.name, value c) :=
      List.mem_map_of_mem hc
    rw [Row.get_ofEntries (keys ▸ names) listed]
    exact takes c hc

theorem Suits.tail {before : List Row} {row : Row}
    (made : Made t columns given next row) (h : Suits t columns before (given :: values)) :
    Suits t columns (before ++ [row]) values := by
  refine ⟨fun g hg => h.lengths g (List.mem_cons_of_mem _ hg),
    fun g hg => h.taken g (List.mem_cons_of_mem _ hg), fun g hg c hc plain v takes other ho => ?_,
    (List.pairwise_cons.mp h.distinct).2⟩
  rcases List.mem_append.mp ho with ho | ho
  · exact h.fresh g (List.mem_cons_of_mem _ hg) c hc plain v takes other ho
  · rw [List.mem_singleton] at ho
    subst ho
    have first := made.takes c (Table.mem_uniqueColumns.mp hc).1
    exact (List.pairwise_cons.mp h.distinct).1 g hg c hc plain _ v (first.plain plain) takes

theorem Generates.apart {row other : Row} {n : Int64} (g : Generates t auto)
    (made : Made t columns given next row) (value : row.get auto.name = .integer n)
    (admits : ColumnType.integer.admits (other.get auto.name) = true)
    (below : ∀ k, other.get auto.name = .integer k → k < n)
    (fresh : ∀ c ∈ t.uniqueColumns, c.autoIncrement = false →
      ∀ v, Takes columns given none c v → (other.get c.name).equals v = false) :
    t.Apart other row := by
  intro c hc
  have listed := (Table.mem_uniqueColumns.mp hc).1
  cases isAuto : c.autoIncrement with
  | false => exact fresh c hc isAuto _ ((made.takes c listed).plain isAuto)
  | true =>
    obtain rfl := g.alone c listed isAuto
    rw [value]
    cases held : other.get c.name with
    | integer k =>
      have less := below k held
      show (k == n) = false
      rw [beq_eq_false_iff_ne]
      rintro rfl
      exact Int64.lt_irrefl less
    | null => rfl
    | _ => rw [held] at admits; cases admits

theorem Suits.exists_made {existing : List Row} {n : Int64} (g : Generates t auto)
    (names : t.columnNames.Nodup) (omitted : auto ∉ columns)
    (h : Suits t columns existing (given :: values)) :
    ∃ row, Made t columns given (some n) row ∧ row.get auto.name = .integer n := by
  have taken : ∀ c ∈ t.columns, ∃ v, Takes columns given (some n) c v := by
    intro c hc
    cases isAuto : c.autoIncrement with
    | true =>
      obtain rfl := g.alone c hc isAuto
      exact ⟨_, .generated (.inl omitted) isAuto rfl⟩
    | false =>
      obtain ⟨v, takes⟩ := h.taken given List.mem_cons_self c hc isAuto
      exact ⟨v, takes.plain isAuto⟩
  obtain ⟨row, made⟩ := Execution.exists_made names taken
  exact ⟨row, made, (made.takes auto g.mem).of_omitted g.generated omitted⟩

theorem Generates.upcoming_concat {existing before : List Row} {row : Row} {n : Int64}
    (g : Generates t auto) (before_eq : upcoming t existing before = some n)
    (value : row.get auto.name = .integer n) :
    upcoming t existing (before ++ [row]) = some (successor n) := by
  rw [g.upcoming_eq, Option.some.injEq] at before_eq ⊢
  rw [List.foldl_concat, before_eq, advance_of_taken value]

theorem lt_successor_concat {row : Row} {n : Int64} (below : ∀ k ∈ numbers column rows, k < n)
    (value : row.get column = .integer n) (after : (successor n).toInt = n.toInt + 1) :
    ∀ k ∈ numbers column (rows ++ [row]), k < successor n := by
  intro k hk
  rw [Int64.lt_iff_toInt_lt, after]
  rw [numbers_append, List.mem_append] at hk
  rcases hk with hk | hk
  · have := Int64.lt_iff_toInt_lt.mp (below k hk)
    omega
  · obtain ⟨r, hr, held⟩ := mem_numbers.mp hk
    rw [List.mem_singleton.mp hr, value] at held
    cases held
    omega

theorem consecutive_cons {n : Int64} {k : Nat}
    (after : 0 < k → (successor n).toInt = n.toInt + 1) :
    ((List.range (k + 1)).map fun (j : Nat) => Value.integer (Int64.ofInt (n.toInt + j))) =
      .integer n :: (List.range k).map fun (j : Nat) =>
        .integer (Int64.ofInt ((successor n).toInt + j)) := by
  rw [List.range_succ_eq_map, List.map_cons, List.map_map]
  congr 1
  · simp
  · refine List.map_congr_left fun j hj => ?_
    rw [after (Nat.zero_lt_of_lt (List.mem_range.mp hj)), Function.comp]
    congr 2
    omega

/-- Rows without a value for the generated column take consecutive numbers, while all numbers so far
are below the next one. -/
theorem Generates.exists_stages {n : Int64} {existing before : List Row} (g : Generates t auto)
    (names : t.columnNames.Nodup) (omitted : auto ∉ columns)
    (numeric : Numeric auto.name (existing ++ before))
    (upcoming_eq : upcoming t existing before = some n)
    (room : n.toInt + values.length ≤ 2 ^ 63)
    (below : values ≠ [] → ∀ k ∈ numbers auto.name (existing ++ before), k < n)
    (suits : Suits t columns (existing ++ before) values) :
    ∃ rows, Stages t columns existing before values rows ∧
      rows.map (·.get auto.name) =
        (List.range values.length).map fun (j : Nat) => .integer (Int64.ofInt (n.toInt + j)) := by
  induction values generalizing n before with
  | nil => exact ⟨[], .nil, rfl⟩
  | cons given rest ih =>
    have below := below (List.cons_ne_nil _ _)
    obtain ⟨row, made, value⟩ := suits.exists_made (n := n) g names omitted
    have apart : ∀ other ∈ existing ++ before, t.Apart other row := by
      intro other ho
      refine g.apart made value (numeric other ho) (fun k held => ?_) ?_
      · exact below k (mem_numbers.mpr ⟨other, ho, held⟩)
      · intro c hc plain v takes
        exact suits.fresh given List.mem_cons_self c hc plain v takes other ho
    rw [List.length_cons] at room
    -- The last number may be the largest word, which has no successor, but then no row follows.
    have after : 0 < rest.length → (successor n).toInt = n.toInt + 1 := by
      rw [toInt_successor]
      omega
    have room : (successor n).toInt + rest.length ≤ 2 ^ 63 := by
      rw [toInt_successor]
      omega
    have numeric : Numeric auto.name (existing ++ before ++ [row]) := by
      refine List.forall_mem_append.mpr ⟨numeric, List.forall_mem_singleton.mpr ?_⟩
      rw [value]
      rfl
    have below : rest ≠ [] →
        ∀ k ∈ numbers auto.name (existing ++ before ++ [row]), k < successor n := fun more =>
      lt_successor_concat below value (after (List.length_pos_iff.mpr more))
    have others := suits.tail made
    rw [List.append_assoc] at numeric below others
    obtain ⟨rows, stages, held⟩ :=
      ih numeric (g.upcoming_concat upcoming_eq value) room below others
    have staged := Stages.cons (suits.lengths given List.mem_cons_self) (upcoming_eq.symm ▸ made)
      apart stages
    exact ⟨row :: rows, staged, by
      rw [List.map_cons, held, value, List.length_cons, consecutive_cons after]⟩

end

end Execution
end SqlEngine
