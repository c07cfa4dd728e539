import Mathlib.Data.List.Nodup
import SqlEngine.Proofs.Success
import SqlEngine.Schema.Settlement

/-! The columns of a table that can be created: where each of them comes from, and that no two have
one name. -/

namespace SqlEngine

theorem repeatedName?_eq_none {seen names : List String} :
    repeatedName? seen names = none ↔ names.Nodup ∧ ∀ name ∈ names, name ∉ seen := by
  induction names generalizing seen with
  | nil => simp [repeatedName?]
  | cons name rest ih =>
    by_cases known : name ∈ seen
    · simp [repeatedName?, known]
    · have step : repeatedName? seen (name :: rest) = repeatedName? (name :: seen) rest := by
        simp [repeatedName?, known]
      rw [step, ih]
      simp only [List.nodup_cons, List.mem_cons, not_or, forall_eq_or_imp]
      constructor
      · rintro ⟨distinct, apart⟩
        exact ⟨⟨fun there => (apart name there).1 rfl, distinct⟩, known,
          fun other there => (apart other there).2⟩
      · rintro ⟨⟨absent, distinct⟩, -, apart⟩
        exact ⟨distinct, fun other there => ⟨fun same => absent (same ▸ there), apart other there⟩⟩

structure Faultless (columns : List Column) : Prop where
  nonempty : columns ≠ []
  names : (columns.map (·.name)).Nodup
  keys : (columns.filter (·.primaryKey)).length ≤ 1
  autoIncrements : (columns.filter (·.autoIncrement)).length ≤ 1
  integers : ∀ c ∈ columns, c.autoIncrement = true → c.type = .integer

theorem faultless_of_columnFault? {columns : List Column} (none : columnFault? columns = none) :
    Faultless columns := by
  simp only [columnFault?] at none
  split at none
  · cases none
  · next nonempty =>
    split at none
    · cases none
    · next distinct =>
      split at none
      · cases none
      · next keys =>
        split at none
        · cases none
        · next autoIncrements =>
          split at none
          · cases none
          · next integers =>
            refine ⟨?_, (repeatedName?_eq_none.mp distinct).1, by omega, by omega, ?_⟩
            · simpa using nonempty
            · simpa using integers

namespace Column

theorem settleDefault_ok {c d : Column} (ok : c.settleDefault = .ok d) :
    d = { c with default? := d.default? } := by
  unfold settleDefault at ok
  split at ok
  · cases ok
    rfl
  · obtain ⟨w, -, rfl⟩ := Success.map_eq_ok.mp ok
    rfl

end Column

/-- The columns that a table receives: the declared ones if one of them is the primary key, else
with a column `id` made the key, or put in front if there is none. -/
inductive Completed : List Column → List Column → Prop where
  | declared {columns : List Column} {key : Column} (listed : key ∈ columns)
      (isKey : key.primaryKey = true) : Completed columns columns
  | promoted (before after : List Column) {id : Column}
      (noKey : ∀ c ∈ before ++ id :: after, c.primaryKey = false)
      (named : id.isNamedId = true) (integer : id.type = .integer)
      (alone : ∀ c ∈ (before ++ id :: after).find? (·.autoIncrement), c.name = id.name) :
      Completed (before ++ id :: after)
        (before ++ { id.asPrimaryKey with autoIncrement := true } :: after)
  | implicit {columns : List Column} (noKey : ∀ c ∈ columns, c.primaryKey = false)
      (noId : ∀ c ∈ columns, c.isNamedId = false)
      (noAutoIncrement : ∀ c ∈ columns, c.autoIncrement = false) :
      Completed columns (.implicitId :: columns)

theorem completed_of_withPrimaryKey {settled columns : List Column}
    (noKey : ∀ c ∈ settled, c.primaryKey = false) (ok : withPrimaryKey settled = .ok columns) :
    Completed settled columns := by
  simp only [withPrimaryKey] at ok
  cases place : settled.findIdx? (·.isNamedId) with
  | none =>
    simp only [place] at ok
    split at ok
    · cases ok
    · next absent =>
      cases ok
      refine .implicit noKey ?_ ?_
      · simpa using List.findIdx?_eq_none_iff.mp place
      · simpa using absent
  | some i =>
    obtain ⟨inside, named, -⟩ := List.findIdx?_eq_some_iff_getElem.mp place
    have found : settled.find? (·.isNamedId) = some settled[i] := by
      rw [List.find?_eq_bind_findIdx?_getElem?, place]
      simp [inside]
    simp only [place, found] at ok
    split at ok
    · cases ok
    · next integer =>
      split at ok
      · cases ok
      · next alone =>
        cases ok
        have split : settled = settled.take i ++ settled[i] :: settled.drop (i + 1) := by simp
        have alone : ∀ c ∈ settled.find? (·.autoIncrement), c.name = settled[i].name := by
          intro c hc
          rw [Option.mem_def] at hc
          simpa [hc, Option.filter] using alone
        rw [List.set_eq_take_append_cons_drop, if_pos inside]
        have completed := Completed.promoted (settled.take i) (settled.drop (i + 1))
          (by rwa [← split]) named (by simpa using integer) (by rwa [← split])
        rwa [← split] at completed

theorem settleColumns_ok {given columns : List Column} (ok : settleColumns given = .ok columns) :
    Faultless given ∧ ∃ settled,
      List.Forall₂ (fun c d => c.settleDefault = .ok d) given settled ∧
      Completed settled columns := by
  unfold settleColumns at ok
  split at ok
  · cases ok
  · next noFault =>
    rw [Success.bind_eq_ok] at ok
    obtain ⟨settled, each, ok⟩ := ok
    refine ⟨faultless_of_columnFault? noFault, settled, Success.mapM_eq_ok.mp each, ?_⟩
    split at ok
    · next key =>
      cases ok
      obtain ⟨c, hc, isKey⟩ := List.any_eq_true.mp key
      exact .declared hc isKey
    · next noKey => exact completed_of_withPrimaryKey (by simpa using noKey) ok

theorem map_settled {α : Type} {f : Column → α}
    (ignores : ∀ c default?, f { c with default? } = f c) {given settled : List Column}
    (each : List.Forall₂ (fun c d => c.settleDefault = .ok d) given settled) :
    settled.map f = given.map f := by
  induction each with
  | nil => rfl
  | cons head _ ih => rw [List.map_cons, List.map_cons, ih, Column.settleDefault_ok head, ignores]

theorem Completed.names {settled columns : List Column} (h : Completed settled columns)
    (distinct : (settled.map (·.name)).Nodup) : (columns.map (·.name)).Nodup := by
  cases h with
  | declared listed isKey => exact distinct
  | promoted before after noKey named integer alone => simpa [Column.asPrimaryKey] using distinct
  | implicit noKey noId noAutoIncrement =>
    rw [List.map_cons, List.nodup_cons]
    refine ⟨fun taken => ?_, distinct⟩
    obtain ⟨c, hc, same⟩ := List.mem_map.mp taken
    have isId : c.isNamedId = true := by
      rw [Column.isNamedId, same]
      decide +kernel
    rw [noId c hc] at isId
    cases isId

theorem settleColumns_names {given columns : List Column} (ok : settleColumns given = .ok columns) :
    (columns.map (·.name)).Nodup := by
  obtain ⟨faultless, settled, each, completed⟩ := settleColumns_ok ok
  refine completed.names ?_
  rw [map_settled (fun _ _ => rfl) each]
  exact faultless.names

theorem settleColumns_forall_name {P : String → Prop} {given columns : List Column}
    (ok : settleColumns given = .ok columns) (id : P "id") (all : ∀ c ∈ given, P c.name) :
    ∀ c ∈ columns, P c.name := by
  obtain ⟨-, settled, each, completed⟩ := settleColumns_ok ok
  have all : ∀ c ∈ settled, P c.name := by
    rw [← List.forall_mem_map, map_settled (fun _ _ => rfl) each]
    exact List.forall_mem_map.mpr all
  cases completed with
  | declared listed isKey => exact all
  | promoted before after noKey named integer alone =>
    simp only [List.forall_mem_append, List.forall_mem_cons] at all ⊢
    exact all
  | implicit noKey noId noAutoIncrement => exact List.forall_mem_cons.mpr ⟨id, all⟩

def Column.KeyMarked (c : Column) : Prop :=
  c.primaryKey = true → c.unique = true ∧ c.notNull = true

theorem Column.asPrimaryKey_keyMarked (c : Column) : c.asPrimaryKey.KeyMarked := fun _ => ⟨rfl, rfl⟩

theorem keyMarked_settled {given settled : List Column}
    (each : List.Forall₂ (fun c d => c.settleDefault = .ok d) given settled)
    (h : ∀ c ∈ given, c.KeyMarked) : ∀ c ∈ settled, c.KeyMarked := by
  induction each with
  | nil => exact h
  | cons head _ ih =>
    rw [List.forall_mem_cons] at h ⊢
    refine ⟨?_, ih h.2⟩
    rw [Column.settleDefault_ok head]
    exact h.1

theorem Completed.keyMarked {settled columns : List Column} (h : Completed settled columns)
    (marked : ∀ c ∈ settled, c.KeyMarked) : ∀ c ∈ columns, c.KeyMarked := by
  cases h with
  | declared listed isKey => exact marked
  | @promoted before after id noKey named integer alone =>
    simp only [List.forall_mem_append, List.forall_mem_cons] at marked ⊢
    exact ⟨marked.1, id.asPrimaryKey_keyMarked, marked.2.2⟩
  | implicit noKey noId noAutoIncrement =>
    exact List.forall_mem_cons.mpr ⟨fun _ => ⟨rfl, rfl⟩, marked⟩

theorem settleColumns_keyMarked {given columns : List Column}
    (ok : settleColumns given = .ok columns) (h : ∀ c ∈ given, c.KeyMarked) :
    ∀ c ∈ columns, c.KeyMarked := by
  obtain ⟨-, settled, each, completed⟩ := settleColumns_ok ok
  exact completed.keyMarked (keyMarked_settled each h)

theorem length_filter_settled {p : Column → Bool}
    (ignores : ∀ c default?, p { c with default? } = p c) {given settled : List Column}
    (each : List.Forall₂ (fun c d => c.settleDefault = .ok d) given settled) :
    (settled.filter p).length = (given.filter p).length := by
  have counted : ∀ columns : List Column,
      (columns.filter p).length = (columns.map p).count true := by
    intro columns
    rw [← List.countP_eq_length_filter, List.count, List.countP_map]
    simp [Function.comp_def]
  rw [counted, counted, map_settled ignores each]

theorem Completed.key {settled columns : List Column} (h : Completed settled columns)
    (one : (settled.filter (·.primaryKey)).length ≤ 1) :
    ∃ key, columns.filter (·.primaryKey) = [key] := by
  cases h with
  | declared listed isKey =>
    rw [← List.length_eq_one_iff]
    have some : 0 < (settled.filter (·.primaryKey)).length :=
      List.length_pos_of_mem (List.mem_filter.mpr ⟨listed, isKey⟩)
    omega
  | @promoted before after id noKey named integer alone =>
    rw [List.forall_mem_append, List.forall_mem_cons] at noKey
    have before : before.filter (·.primaryKey) = [] := by simpa using noKey.1
    have after : after.filter (·.primaryKey) = [] := by simpa using noKey.2.2
    simp [before, after, Column.asPrimaryKey]
  | implicit noKey noId noAutoIncrement =>
    have others : settled.filter (·.primaryKey) = [] := by simpa using noKey
    simp [others, Column.implicitId]

theorem Completed.autoIncrements {settled columns : List Column} (h : Completed settled columns)
    (names : (settled.map (·.name)).Nodup)
    (one : (settled.filter (·.autoIncrement)).length ≤ 1) :
    (columns.filter (·.autoIncrement)).length ≤ 1 := by
  cases h with
  | declared listed isKey => exact one
  | @promoted before after id noKey named integer alone =>
    cases found : (before ++ id :: after).find? (·.autoIncrement) with
    | none =>
      rw [List.find?_eq_none, List.forall_mem_append, List.forall_mem_cons] at found
      have before : before.filter (·.autoIncrement) = [] := by simpa using found.1
      have after : after.filter (·.autoIncrement) = [] := by simpa using found.2.2
      simp [before, after, Column.asPrimaryKey]
    | some c =>
      have same : c = id := List.inj_on_of_nodup_map names (List.mem_of_find?_eq_some found)
        (by simp) (alone c found)
      have marked : id.autoIncrement = true := same ▸ List.find?_some found
      simpa [List.filter_cons, marked, Column.asPrimaryKey] using one
  | implicit noKey noId noAutoIncrement =>
    have others : settled.filter (·.autoIncrement) = [] := by simpa using noAutoIncrement
    simp [others, Column.implicitId]

theorem settleColumns_key {given columns : List Column} (ok : settleColumns given = .ok columns) :
    ∃ key, columns.filter (·.primaryKey) = [key] := by
  obtain ⟨faultless, settled, each, completed⟩ := settleColumns_ok ok
  refine completed.key ?_
  rw [length_filter_settled (fun _ _ => rfl) each]
  exact faultless.keys

theorem settleColumns_autoIncrements {given columns : List Column}
    (ok : settleColumns given = .ok columns) :
    (columns.filter (·.autoIncrement)).length ≤ 1 := by
  obtain ⟨faultless, settled, each, completed⟩ := settleColumns_ok ok
  refine completed.autoIncrements ?_ ?_
  · rw [map_settled (fun _ _ => rfl) each]
    exact faultless.names
  · rw [length_filter_settled (fun _ _ => rfl) each]
    exact faultless.autoIncrements

end SqlEngine
