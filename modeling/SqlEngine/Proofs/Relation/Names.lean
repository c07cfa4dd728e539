import SqlEngine.Execution.Selection
import SqlEngine.Proofs.Entries

/-! Which keys of a row a name can mean. A query is checked against a list of keys and run on rows,
and both look for a name in the same ways. -/

namespace SqlEngine

open Dialect

/-- The keys of the row are these names. -/
def Row.HasKeys (row : Row) (names : List String) : Prop := ∀ name, name ∈ row.names ↔ name ∈ names

namespace Row

theorem hasKeys_of_names {row : Row} {names : List String} (h : row.names = names) :
    row.HasKeys names := fun _ => h ▸ Iff.rfl

theorem mem_names_iff {row : Row} {name : String} : name ∈ row.names ↔ ∃ v, row.get? name = some v := by
  refine ⟨exists_get?_of_mem_names, fun ⟨v, found⟩ => ?_⟩
  exact List.mem_map_of_mem (f := (·.1)) (mem_of_find? found)

theorem mem_names_putAll {row : Row} {entries : List (String × Value)} {name : String} :
    name ∈ (row.putAll entries).names ↔ name ∈ row.names ∨ name ∈ entries.map (·.1) := by
  have listed : (∃ v, find? name entries.reverse = some v) ↔ name ∈ entries.map (·.1) := by
    rw [← Option.ne_none_iff_exists', Ne, find?_eq_none, not_not]
    simp
  rw [mem_names_iff, mem_names_iff, get?_putAll, ← listed]
  cases find? name entries.reverse <;> simp

theorem HasKeys.putAll {row : Row} {names : List String} (h : row.HasKeys names)
    (entries : List (String × Value)) :
    (row.putAll entries).HasKeys (names ++ entries.map (·.1)) := fun name => by
  rw [mem_names_putAll, h, List.mem_append]

theorem hasKeys_nulls (names : List String) : (nulls names).HasKeys names := fun name => by
  rw [nulls, ofEntries, mem_names_putAll, List.map_map]
  simp [Row.names, empty]

theorem HasKeys.merge {left right : Row} {names columns : List String} (hl : left.HasKeys names)
    (hr : right.HasKeys columns) (binding : String) :
    (mergeRows binding left right).HasKeys (names ++ columns.map (boundName binding)) := fun name => by
  rw [mergeRows, hl.putAll, List.map_map, List.mem_append, List.mem_append]
  refine or_congr_right ?_
  have same : right.entries.map ((·.1) ∘ fun entry => (boundName binding entry.1, entry.2)) =
      right.names.map (boundName binding) := by
    rw [Row.names, List.map_map]
    rfl
  simp only [same, List.mem_map, hr _]

end Row

namespace Scope

variable {s : Scope} {row : Row} {name key : String}

/-- The keys that a name may mean: itself, the base column that it qualifies, or for a bare name
any joined column of that name. -/
inductive Means (s : Scope) (name : String) : String → Prop
  | exact : Means s name name
  | base {qualifier column : String} (split : splitQualifier name = some (qualifier, column))
      (named : s.namesBase qualifier = true) : Means s name column
  | joined {key : String} (bare : splitQualifier name = none)
      (ends : isQualified name key = true) : Means s name key

/-- The value that the name has in the row stands there under a key that the name may mean. -/
def Finds (s : Scope) (row : Row) (name : String) : Prop :=
  ∃ key, s.Means name key ∧ row.get? key = some (s.value row name)

theorem key?_isSome {available : List String} :
    (s.key? available name).isSome = true ↔ ∃ key ∈ available, s.Means name key := by
  constructor
  · intro found
    unfold key? at found
    split at found
    · next listed => exact ⟨name, by simpa using listed, .exact⟩
    · split at found
      · next qualifier column split =>
        split at found
        · next both =>
          rw [Bool.and_eq_true, List.contains_iff_mem] at both
          exact ⟨column, both.2, .base split both.1⟩
        · cases found
      · next bare =>
        obtain ⟨key, listed, ends⟩ := by simpa using found
        exact ⟨key, listed, .joined bare ends⟩
  · rintro ⟨key, listed, means⟩
    unfold key?
    split
    · rfl
    · next unlisted =>
      cases means with
      | exact => simp [listed] at unlisted
      | base split named => simp [split, named, listed]
      | joined bare ends =>
        simp only [bare, List.find?_isSome]
        exact ⟨key, listed, ends⟩

theorem key?_isNone {available : List String} :
    (s.key? available name).isNone = true ↔ ∀ key ∈ available, ¬s.Means name key := by
  rw [← Option.not_isSome, Bool.not_eq_true', ← Bool.not_eq_true, key?_isSome]
  simp

theorem find?_of_leastKey? {entries : List (String × Value)} {v : Value}
    (least : leastKey? entries = some (key, v)) : Row.find? key entries = some v := by
  induction entries with
  | nil => cases least
  | cons entry rest ih =>
    unfold leastKey? at least
    split at least
    · next other found =>
      split at least
      · next less =>
        cases least
        have differs : key ≠ entry.1 := by
          rintro rfl
          simp at less
        rw [Row.find?, if_neg differs]
        exact ih found
      · cases least
        simp [Row.find?]
    · cases least
      simp [Row.find?]

theorem leastKey?_isSome {entries : List (String × Value)} (nonempty : entries ≠ []) :
    (leastKey? entries).isSome = true := by
  cases entries with
  | nil => exact absurd rfl nonempty
  | cons entry rest =>
    unfold leastKey?
    split
    · split <;> rfl
    · rfl

theorem find?_filter (p : String → Bool) {entries : List (String × Value)} {v : Value}
    (found : Row.find? key (entries.filter fun entry => p entry.1) = some v) :
    Row.find? key entries = some v := by
  induction entries with
  | nil => cases found
  | cons entry rest ih =>
    rw [List.filter_cons] at found
    split at found
    · rw [Row.find?] at found ⊢
      split
      · next same => rwa [if_pos same] at found
      · next differs =>
        rw [if_neg differs] at found
        exact ih found
    · next refused =>
      have differs : key ≠ entry.1 := by
        rintro rfl
        have kept := List.mem_filter.mp (Row.mem_of_find? found)
        exact refused kept.2
      rw [Row.find?, if_neg differs]
      exact ih found

/-- A name that may mean some key of the row is found there. -/
theorem finds_iff : s.Finds row name ↔ ∃ key ∈ row.names, s.Means name key := by
  constructor
  · rintro ⟨key, means, found⟩
    exact ⟨key, Row.mem_names_iff.mpr ⟨_, found⟩, means⟩
  · rintro ⟨key, listed, means⟩
    cases own : row.get? name with
    | some v => exact ⟨name, .exact, by rw [own, value, own]⟩
    | none =>
      have unlisted : name ∉ row.names := by
        rw [Row.mem_names_iff, own]
        simp
      cases means with
      | exact => exact absurd listed unlisted
      | base split named =>
        obtain ⟨v, found⟩ := Row.exists_get?_of_mem_names listed
        refine ⟨key, .base split named, ?_⟩
        simp [value, own, split, named, Row.get, found]
      | joined bare ends =>
        obtain ⟨v, found⟩ := Row.exists_get?_of_mem_names listed
        have nonempty : row.entries.filter (fun entry => isQualified name entry.1) ≠ [] :=
          List.ne_nil_of_mem (List.mem_filter.mpr ⟨Row.mem_of_find? found, ends⟩)
        obtain ⟨⟨least, w⟩, isLeast⟩ := Option.isSome_iff_exists.mp (leastKey?_isSome nonempty)
        have kept := find?_of_leastKey? isLeast
        refine ⟨least, .joined bare (List.mem_filter.mp (Row.mem_of_find? kept)).2, ?_⟩
        have read : s.value row name = w := by simp only [value, own, bare, isLeast]
        rw [read]
        exact find?_filter (isQualified name) kept

theorem finds_of_key? {available : List String} (keys : row.HasKeys available)
    (meant : (s.key? available name).isSome = true) : s.Finds row name := by
  obtain ⟨key, listed, means⟩ := key?_isSome.mp meant
  exact finds_iff.mpr ⟨key, (keys key).mpr listed, means⟩

end Scope
end SqlEngine
