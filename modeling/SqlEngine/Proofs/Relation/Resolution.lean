import SqlEngine.Proofs.Relation.Names

/-! The key that a name has in a list of keys, and the key of a row under which its value is read.
Both are there for the same names. They are one key unless several joined tables have a column of
the bare name: the list is searched in its order, and the row for the least of these keys. -/

namespace SqlEngine

open Std

theorem Row.HasKeys.get?_eq_none {row : Row} {names : List String} (h : row.HasKeys names)
    {name : String} : row.get? name = none ↔ name ∉ names := by
  rw [← h name, Row.mem_names_iff, Option.eq_none_iff_forall_ne_some, not_exists]

theorem Row.HasKeys.exists_get? {row : Row} {names : List String} (h : row.HasKeys names)
    {name : String} (listed : name ∈ names) : ∃ v, row.get? name = some v :=
  Row.exists_get?_of_mem_names ((h name).mpr listed)

namespace Scope

variable {s : Scope} {row : Row} {available : List String} {name key : String}

structure Least (available : List String) (name key : String) : Prop where
  listed : key ∈ available
  ends : isQualified name key = true
  first : ∀ other ∈ available, isQualified name other = true → (compare key other).isLE = true

theorem Least.eq {other : String} (h : Least available name key) (o : Least available name other) :
    key = other := by
  have before := h.first other o.listed o.ends
  have after := o.first key h.listed h.ends
  exact LawfulEqOrd.eq_of_compare (OrientedCmp.isLE_antisymm before after)

theorem leastKey?_isLE {entries : List (String × Value)} {v : Value}
    (least : leastKey? entries = some (key, v)) :
    ∀ entry ∈ entries, (compare key entry.1).isLE = true := by
  induction entries generalizing key v with
  | nil => cases least
  | cons head rest ih =>
    unfold leastKey? at least
    rw [List.forall_mem_cons]
    split at least
    · next other found =>
      split at least
      · next less =>
        cases least
        have less : compare key head.1 = .lt := by simpa using less
        exact ⟨by rw [less]; rfl, ih found⟩
      · next notLess =>
        cases least
        have headFirst : (compare key other.1).isLE = true := by
          rw [← OrientedCmp.isGE_iff_isLE, Ordering.isGE_iff_ne_lt]
          simpa using notLess
        exact ⟨by simp, fun entry listed => TransCmp.isLE_trans headFirst (ih found entry listed)⟩
    · next none =>
      cases least
      have single : rest = [] := by
        by_contra more
        simpa [none] using leastKey?_isSome more
      simp [single]

/-- The ways in which a list has a key for a name. -/
inductive Keyed (s : Scope) (available : List String) (name : String) : String → Prop where
  | own (listed : name ∈ available) : Keyed s available name name
  | base {qualifier column : String} (unlisted : name ∉ available)
      (split : splitQualifier name = some (qualifier, column))
      (named : s.namesBase qualifier = true) (listed : column ∈ available) :
      Keyed s available name column
  | joined {key : String} (unlisted : name ∉ available) (bare : splitQualifier name = none)
      (listed : key ∈ available) (ends : isQualified name key = true) :
      Keyed s available name key

theorem keyed_of_key? (found : s.key? available name = some key) : Keyed s available name key := by
  unfold key? at found
  split at found
  · next listed =>
    cases found
    exact .own (by simpa using listed)
  · next unlisted =>
    have unlisted : name ∉ available := by simpa using unlisted
    split at found
    · next qualifier column split =>
      split at found
      · next both =>
        cases found
        rw [Bool.and_eq_true, List.contains_iff_mem] at both
        exact .base unlisted split both.1 both.2
      · cases found
    · next bare =>
      exact .joined unlisted bare (List.mem_of_find?_eq_some found) (List.find?_some found)

theorem key?_eq_none (keys : row.HasKeys available) :
    s.key? available name = none ↔ ¬s.Finds row name := by
  rw [← Option.isNone_iff_eq_none, key?_isNone, finds_iff]
  simp [keys _]

theorem value_of_not_finds (absent : ¬s.Finds row name) : s.value row name = .null := by
  have unmeant : ∀ key, s.Means name key → row.get? key = none := by
    intro key means
    refine Option.eq_none_iff_forall_ne_some.mpr fun v found => absent (finds_iff.mpr ?_)
    exact ⟨key, Row.mem_names_iff.mpr ⟨v, found⟩, means⟩
  unfold value
  rw [unmeant name .exact]
  cases split : splitQualifier name with
  | some parts =>
    obtain ⟨qualifier, column⟩ := parts
    cases named : s.namesBase qualifier with
    | false => simp [named]
    | true => simp [named, Row.get, unmeant column (.base split named)]
  | none =>
    cases least : leastKey? (row.entries.filter fun entry => isQualified name entry.1) with
    | none => rfl
    | some entry =>
      have kept := find?_of_leastKey? least
      have ends := (List.mem_filter.mp (Row.mem_of_find? kept)).2
      have found := find?_filter (isQualified name) kept
      rw [← Row.get?, unmeant _ (.joined split ends)] at found
      cases found

theorem value_of_bare (keys : row.HasKeys available) (bare : splitQualifier name = none)
    (unlisted : name ∉ available) (listed : key ∈ available) (ends : isQualified name key = true) :
    ∃ least, Least available name least ∧ row.get? least = some (s.value row name) := by
  have own : row.get? name = none := keys.get?_eq_none.mpr unlisted
  have nonempty : row.entries.filter (fun entry => isQualified name entry.1) ≠ [] := by
    obtain ⟨v, found⟩ := keys.exists_get? listed
    exact List.ne_nil_of_mem (List.mem_filter.mpr ⟨Row.mem_of_find? found, ends⟩)
  obtain ⟨⟨least, v⟩, isLeast⟩ := Option.isSome_iff_exists.mp (leastKey?_isSome nonempty)
  have kept := find?_of_leastKey? isLeast
  have found : row.get? least = some v := find?_filter (isQualified name) kept
  have read : s.value row name = v := by simp only [value, own, bare, isLeast]
  refine ⟨least, ⟨?_, (List.mem_filter.mp (Row.mem_of_find? kept)).2, ?_⟩, read ▸ found⟩
  · exact (keys least).mp (Row.mem_names_iff.mpr ⟨v, found⟩)
  · intro other hother otherEnds
    obtain ⟨w, there⟩ := keys.exists_get? hother
    exact leastKey?_isLE isLeast (other, w)
      (List.mem_filter.mpr ⟨Row.mem_of_find? there, otherEnds⟩)

/-- A name without a key in the list of a row's keys is not found in the row and reads as null. Any
other is read under the key that it has there, except a bare name that several joined columns end
with: that is read under the least of their keys. -/
theorem value_resolved (s : Scope) (name : String) (keys : row.HasKeys available) :
    (s.key? available name = none ↔ ¬s.Finds row name) ∧
    (s.key? available name = none → s.value row name = .null) ∧
    ∀ key, s.key? available name = some key →
      (key = name ∨ splitQualifier name ≠ none ∨ Least available name key →
        row.get? key = some (s.value row name)) ∧
      (key ≠ name → splitQualifier name = none →
        ∃ least, Least available name least ∧ row.get? least = some (s.value row name)) := by
  refine ⟨key?_eq_none keys, fun none => value_of_not_finds ((key?_eq_none keys).mp none), ?_⟩
  intro key found
  cases keyed_of_key? found with
  | own listed =>
    obtain ⟨v, there⟩ := keys.exists_get? listed
    have read : s.value row name = v := by rw [value, there]
    exact ⟨fun _ => read ▸ there, fun differs => absurd rfl differs⟩
  | base unlisted split named listed =>
    obtain ⟨v, there⟩ := keys.exists_get? listed
    have own : row.get? name = none := keys.get?_eq_none.mpr unlisted
    have read : s.value row name = v := by simp [value, own, split, named, Row.get, there]
    exact ⟨fun _ => read ▸ there, fun _ bare => by simp [split] at bare⟩
  | joined unlisted bare listed ends =>
    obtain ⟨least, isLeast, read⟩ := value_of_bare keys bare unlisted listed ends
    refine ⟨?_, fun _ _ => ⟨least, isLeast, read⟩⟩
    rintro (rfl | qualified | first)
    · exact absurd listed unlisted
    · exact absurd bare qualified
    · rwa [first.eq isLeast]

def twiceJoined : List String := ["id", "z.x", "a.x", "a.total"]

def twiceJoinedRow : Row := .ofEntries [("id", .integer 1), ("z.x", .integer 1),
  ("a.x", .integer 2), ("a.total", .integer 3)]

theorem hasKeys_twiceJoined : twiceJoinedRow.HasKeys twiceJoined :=
  Row.hasKeys_of_names (by decide)

theorem value_resolved_twiceJoined :
    let s := ofTable "t" none
    s.value twiceJoinedRow "y" = .null ∧
      twiceJoinedRow.get? "id" = some (s.value twiceJoinedRow "t.id") ∧
      twiceJoinedRow.get? "a.total" = some (s.value twiceJoinedRow "total") ∧
      ∃ least, Least twiceJoined "x" least ∧
        twiceJoinedRow.get? least = some (s.value twiceJoinedRow "x") := by
  intro s
  have resolved (name : String) := value_resolved s name hasKeys_twiceJoined
  refine ⟨(resolved "y").2.1 (by decide), ?_, ?_, ?_⟩
  · exact ((resolved "t.id").2.2 "id" (by decide)).1 (.inr (.inl (by decide)))
  · have least : Least twiceJoined "total" "a.total" := ⟨by decide, by decide, by decide⟩
    exact ((resolved "total").2.2 "a.total" (by decide)).1 (.inr (.inr least))
  · exact ((resolved "x").2.2 "z.x" (by decide)).2 (by decide) (by decide)

/-- The list has the name under the key of the first join, and the row is read under the key of the
second. -/
theorem keys_astray :
    twiceJoinedRow.HasKeys twiceJoined ∧ (ofTable "t" none).key? twiceJoined "x" = some "z.x" ∧
      twiceJoinedRow.get? "z.x" = some (.integer 1) ∧
      (ofTable "t" none).value twiceJoinedRow "x" = .integer 2 :=
  ⟨hasKeys_twiceJoined, by decide, by decide, by decide⟩

end Scope
end SqlEngine
