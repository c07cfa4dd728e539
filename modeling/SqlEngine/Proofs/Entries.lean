import Mathlib.Data.List.Nodup
import SqlEngine.Row

/-! Rows as lists of entries, of which the last one for a name counts. -/

namespace SqlEngine.Row

theorem find?_append (name : String) (first second : List (String × Value)) :
    find? name (first ++ second) = (find? name first).or (find? name second) := by
  induction first with
  | nil => rfl
  | cons entry rest ih =>
    simp only [List.cons_append, find?]
    split
    · rfl
    · exact ih

theorem mem_of_find? {name : String} {entries : List (String × Value)} {v : Value}
    (h : find? name entries = some v) : (name, v) ∈ entries := by
  induction entries with
  | nil => cases h
  | cons entry rest ih =>
    simp only [find?] at h
    split at h
    · next same =>
      cases h
      rw [same]
      exact List.mem_cons_self
    · exact List.mem_cons_of_mem _ (ih h)

theorem find?_eq_none {name : String} {entries : List (String × Value)} :
    find? name entries = none ↔ name ∉ entries.map (·.1) := by
  induction entries with
  | nil => simp [find?]
  | cons entry rest ih =>
    simp only [find?, List.map_cons, List.mem_cons, not_or]
    split
    · next same => simp [same]
    · next differs => simp [ih, differs]

theorem find?_of_mem {entries : List (String × Value)} (distinct : (entries.map (·.1)).Nodup)
    {name : String} {v : Value} (h : (name, v) ∈ entries) : find? name entries = some v := by
  induction entries with
  | nil => cases h
  | cons entry rest ih =>
    rw [List.map_cons, List.nodup_cons] at distinct
    rcases List.mem_cons.mp h with rfl | h
    · simp [find?]
    · have differs : name ≠ entry.1 := by
        rintro rfl
        exact distinct.1 (List.mem_map_of_mem (f := (·.1)) h)
      simp [find?, differs, ih distinct.2 h]

theorem eq_of_get? {r q : Row} (names : r.names = q.names) (distinct : r.names.Nodup)
    (same : ∀ name, r.get? name = q.get? name) : r = q := by
  obtain ⟨xs⟩ := r
  obtain ⟨ys⟩ := q
  simp only [Row.names, get?, mk.injEq] at names distinct same ⊢
  induction xs generalizing ys with
  | nil => exact (List.map_eq_nil_iff.mp names.symm).symm
  | cons entry rest ih =>
    obtain _ | ⟨other, others⟩ := ys
    · cases names
    obtain ⟨name, v⟩ := entry
    obtain ⟨name', w⟩ := other
    simp only [List.map_cons, List.cons.injEq, List.nodup_cons] at names distinct
    obtain ⟨rfl, names⟩ := names
    have value : v = w := by simpa [find?] using same name
    rw [value, ih distinct.2 others names]
    intro key
    by_cases isHead : key = name
    · -- Further down there is no value for the first name, in neither row.
      subst isHead
      rw [find?_eq_none.mpr distinct.1, find?_eq_none.mpr (names ▸ distinct.1)]
    · simpa [find?, isHead] using same key

theorem get?_putAll (r : Row) (entries : List (String × Value)) (name : String) :
    (r.putAll entries).get? name = (find? name entries.reverse).or (r.get? name) := by
  induction entries generalizing r with
  | nil => rfl
  | cons entry rest ih =>
    have step : r.putAll (entry :: rest) = (r.put entry.1 entry.2).putAll rest := rfl
    rw [step, ih, get?_put, List.reverse_cons, find?_append, Option.or_assoc]
    congr 1
    simp only [find?]
    split <;> rfl

theorem get?_ofEntries (entries : List (String × Value)) (name : String) :
    (ofEntries entries).get? name = find? name entries.reverse := by
  rw [ofEntries, get?_putAll]
  simp

theorem get_ofEntries {entries : List (String × Value)} (distinct : (entries.map (·.1)).Nodup)
    {name : String} {v : Value} (h : (name, v) ∈ entries) : (ofEntries entries).get name = v := by
  have reversed : (entries.reverse.map (·.1)).Nodup := by
    rwa [List.map_reverse, List.nodup_reverse]
  rw [get, get?_ofEntries, find?_of_mem reversed (by simpa using h)]
  rfl

theorem get_putAll_of_not_mem {r : Row} {entries : List (String × Value)} {name : String}
    (h : name ∉ entries.map (·.1)) : (r.putAll entries).get name = r.get name := by
  have absent : find? name entries.reverse = none := by
    rw [find?_eq_none]
    simpa using h
  simp [get, get?_putAll, absent]

theorem exists_get_putAll {entries : List (String × Value)} {name : String}
    (h : name ∈ entries.map (·.1)) :
    ∃ v, (name, v) ∈ entries ∧ ∀ r : Row, (r.putAll entries).get name = v := by
  cases found : find? name entries.reverse with
  | none =>
    rw [find?_eq_none] at found
    simp_all
  | some v =>
    refine ⟨v, by simpa using mem_of_find? found, fun r => ?_⟩
    simp [get, get?_putAll, found]

theorem map_fst_assign_of_mem {name : String} {value : Value} {entries : List (String × Value)}
    (h : name ∈ entries.map (·.1)) : (assign name value entries).map (·.1) = entries.map (·.1) := by
  induction entries with
  | nil => cases h
  | cons entry rest ih =>
    simp only [assign]
    split
    · rfl
    · next differs =>
      rw [List.map_cons, List.mem_cons] at h
      rw [List.map_cons, List.map_cons, ih (h.resolve_left differs)]

theorem map_fst_assign_of_not_mem {name : String} {value : Value} {entries : List (String × Value)}
    (h : name ∉ entries.map (·.1)) :
    (assign name value entries).map (·.1) = entries.map (·.1) ++ [name] := by
  induction entries with
  | nil => rfl
  | cons entry rest ih =>
    rw [List.map_cons, List.mem_cons, not_or] at h
    simp only [assign, if_neg h.1, List.map_cons, ih h.2, List.cons_append]

theorem names_putAll_of_subset {r : Row} {entries : List (String × Value)}
    (h : ∀ entry ∈ entries, entry.1 ∈ r.names) : (r.putAll entries).names = r.names := by
  induction entries generalizing r with
  | nil => rfl
  | cons entry rest ih =>
    rw [List.forall_mem_cons] at h
    have first : (r.put entry.1 entry.2).names = r.names := map_fst_assign_of_mem h.1
    have step : r.putAll (entry :: rest) = (r.put entry.1 entry.2).putAll rest := rfl
    rw [step, ih (first ▸ h.2), first]

theorem names_putAll_of_apart {r : Row} {entries : List (String × Value)}
    (distinct : (entries.map (·.1)).Nodup) (apart : ∀ entry ∈ entries, entry.1 ∉ r.names) :
    (r.putAll entries).names = r.names ++ entries.map (·.1) := by
  induction entries generalizing r with
  | nil => simp [putAll]
  | cons entry rest ih =>
    rw [List.map_cons, List.nodup_cons] at distinct
    rw [List.forall_mem_cons] at apart
    have first : (r.put entry.1 entry.2).names = r.names ++ [entry.1] :=
      map_fst_assign_of_not_mem apart.1
    have step : r.putAll (entry :: rest) = (r.put entry.1 entry.2).putAll rest := rfl
    rw [step, ih distinct.2, first, List.map_cons, List.append_assoc, List.singleton_append]
    intro other hother
    rw [first, List.mem_append, List.mem_singleton, not_or]
    refine ⟨apart.2 other hother, fun same => distinct.1 ?_⟩
    exact same ▸ List.mem_map_of_mem (f := (·.1)) hother

theorem names_ofEntries {entries : List (String × Value)}
    (distinct : (entries.map (·.1)).Nodup) : (ofEntries entries).names = entries.map (·.1) :=
  names_putAll_of_apart distinct (by simp [names, empty])

theorem ofEntries_get {r : Row} (distinct : r.names.Nodup) :
    ofEntries (r.names.map fun name => (name, r.get name)) = r := by
  have names : (r.names.map fun name => (name, r.get name)).map (·.1) = r.names := by
    simp [Function.comp_def]
  have listed := names_ofEntries (names.symm ▸ distinct)
  rw [names] at listed
  refine eq_of_get? listed (by rwa [listed]) fun name => ?_
  rw [get?_ofEntries]
  cases found : r.get? name with
  | none =>
    rw [get?, find?_eq_none] at found
    rw [find?_eq_none, List.map_reverse, List.mem_reverse, names]
    exact found
  | some v =>
    have there : name ∈ r.names := List.mem_map_of_mem (f := (·.1)) (mem_of_find? found)
    refine find?_of_mem (by rwa [List.map_reverse, List.nodup_reverse, names]) ?_
    rw [List.mem_reverse]
    exact List.mem_map.mpr ⟨name, there, by rw [get, found, Option.getD_some]⟩

theorem exists_get?_of_mem_names {r : Row} {name : String} (h : name ∈ r.names) :
    ∃ v, r.get? name = some v := by
  rw [← Option.ne_none_iff_exists', get?, Ne, find?_eq_none, not_not]
  exact h

end SqlEngine.Row
