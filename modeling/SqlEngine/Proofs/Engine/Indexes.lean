import SqlEngine.Proofs.Engine.History
import SqlEngine.Proofs.Index.Catalog

/-! Built indexes and their definitions. The definitions are part of the store and the built indexes
are kept beside it, so the two are written one after the other; they stay in step because the first
of these writes is the one that may fail. A built index is not changed with the rows of its table:
it stays as the statement left it that has built it. -/

namespace SqlEngine.Engine

open Dialect Execution Script Store Index

variable {e after : Engine} {sql : String} {r : Response}

inductive Defined (e : Engine) (sql : String) (r : Response) (after : Engine) : Prop where
  | nothing (tables : after.store.tables = e.store.tables) (indexes : after.indexes = e.indexes)
  | created {id : Nat} {name : String} {columns : List Column}
      (tables : after.store.tables = e.store.tables ++ [⟨id, name, columns, []⟩])
      (indexes : after.indexes = e.indexes)
  | dropped {t : Table} (was : t ∈ e.store.tables)
      (tables : after.store.tables = e.store.tables.filter (·.id != t.id))
      (indexes : after.indexes = e.indexes.evict t.name)
  | indexed {t : Table} {d : IndexDefinition} {tree : RowIndex} (was : t ∈ e.store.tables)
      (spelled : Statement.ofText sql = .ok (.createIndex ⟨d, t.name⟩))
      (succeeded : r.success = true) (fresh : d.name ∉ t.indexes.map (·.name))
      (built : RowIndex.build d (e.store.rowsOf t.id) = .ok tree)
      (tables : after.store.tables = e.store.tables.map fun u =>
        if u.id = t.id then { u with indexes := t.indexes ++ [d] } else u)
      (indexes : after.indexes = e.indexes.put t.name d.name tree)

theorem Executed.defined (h : Executed e sql r after) (hs : e.store.Numbered) :
    Defined e sql r after := by
  cases h with
  | turnedAway _ store indexes => exact .nothing (by rw [store]) indexes
  | failed spelled ran result indexes => exact .nothing (ran.tables_of_error hs) indexes
  | @done st p spelled ran result indexes =>
    have change := ran.change hs
    obtain ⟨settled, store⟩ := ran.settled
    cases settled with
    | nothing => exact .nothing (by rw [store, afterCalls_nil]) indexes
    | createTable absent settled quota =>
      rw [afterCalls_cons, afterCall_of_answer (answer_createTable absent)] at store
      exact .created (congrArg Store.tables store) indexes
    | dropTable named =>
      rw [afterCalls_cons,
        afterCall_of_answer (answer_dropTable (hasTable_of_named named))] at store
      exact .dropped (mem_of_named named) (congrArg Store.tables store) indexes
    | @createIndex c t tree output named allowed built =>
      rw [afterCalls_cons,
        afterCall_of_answer (answer_setIndexes (hasTable_of_named named))] at store
      have isNamed := (mem_of_tableNamed? (named_eq_ok.mp named)).2
      refine .indexed (mem_of_named named) ?_ (by rw [result, Response.success_ofOutput])
        (checkIndex_eq_ok.mp allowed).1 built (congrArg Store.tables store) indexes
      rw [spelled, isNamed]
    | insert | update | delete => exact .nothing (change.tables_eq nofun nofun nofun) indexes

/-- The statement of a history that has built an index of a table. It succeeded while the table had
no index of that name, and it has built the index from the rows of the table as they stood. -/
inductive Created (start : Engine) (t : Table) (d : IndexDefinition) (tree : RowIndex) :
    List Event → Prop where
  | intro {before later : List Event} {outage : Outage} {now : Nat} {caller sql : String}
      {u : Table} (spelled : Statement.ofText sql = .ok (.createIndex ⟨d, t.name⟩))
      (succeeded : ((start.after before).execute outage now caller sql).result.success = true)
      (was : u ∈ (start.after before).store.tables) (id : u.id = t.id) (name : u.name = t.name)
      (fresh : d.name ∉ u.indexes.map (·.name))
      (built : RowIndex.build d ((start.after before).store.rowsOf t.id) = .ok tree) :
      Created start t d tree (before ++ .text outage now caller sql :: later)

namespace Created

variable {start : Engine} {t : Table} {d : IndexDefinition} {tree : RowIndex}
  {events : List Event}

theorem concat (h : Created start t d tree events) (last : Event) :
    Created start t d tree (events ++ [last]) := by
  cases h with
  | intro spelled succeeded was id name fresh built =>
    rw [List.append_assoc, List.cons_append]
    exact .intro spelled succeeded was id name fresh built

theorem reindexed (h : Created start t d tree events) (indexes : List IndexDefinition) :
    Created start { t with indexes } d tree events := by
  cases h with
  | intro spelled succeeded was id name fresh built =>
    exact .intro spelled succeeded was id name fresh built

end Created

/-- The built indexes after a history are those that the tables define, each as it was built. -/
structure InStep (start : Engine) (events : List Event) : Prop where
  listed : ∀ table index tree, (start.after events).indexes.get? table index = some tree →
    ∃ t ∈ (start.after events).store.tables, t.name = table ∧ ∃ d ∈ t.indexes, d.name = index
  built : ∀ t ∈ (start.after events).store.tables, ∀ d ∈ t.indexes, ∃ tree,
    (start.after events).indexes.get? t.name d.name = some tree ∧ Created start t d tree events

namespace InStep

variable {start : Engine} {events : List Event} {last : Event}

section

variable (h : InStep start events)
include h

theorem same
    (tables : ((start.after events).afterEvent last).store.tables =
      (start.after events).store.tables)
    (indexes : ((start.after events).afterEvent last).indexes = (start.after events).indexes) :
    InStep start (events ++ [last]) := by
  constructor
  · rw [after_concat, tables, indexes]
    exact h.listed
  · rw [after_concat, tables, indexes]
    intro t ht d hd
    obtain ⟨tree, found, created⟩ := h.built t ht d hd
    exact ⟨tree, found, created.concat last⟩

theorem created {new : Table} (bare : new.indexes = [])
    (tables : ((start.after events).afterEvent last).store.tables =
      (start.after events).store.tables ++ [new])
    (indexes : ((start.after events).afterEvent last).indexes = (start.after events).indexes) :
    InStep start (events ++ [last]) := by
  constructor
  · rw [after_concat, tables, indexes]
    intro table index tree found
    obtain ⟨t, ht, defined⟩ := h.listed table index tree found
    exact ⟨t, List.mem_append_left _ ht, defined⟩
  · rw [after_concat, tables, indexes]
    intro t ht d hd
    rcases List.mem_append.mp ht with ht | ht
    · obtain ⟨tree, found, created⟩ := h.built t ht d hd
      exact ⟨tree, found, created.concat last⟩
    · rw [List.mem_singleton.mp ht, bare] at hd
      cases hd

variable (hs : (start.after events).store.Numbered)
include hs

theorem dropped {gone : Table} (was : gone ∈ (start.after events).store.tables)
    (tables : ((start.after events).afterEvent last).store.tables =
      (start.after events).store.tables.filter (·.id != gone.id))
    (indexes : ((start.after events).afterEvent last).indexes =
      (start.after events).indexes.evict gone.name) :
    InStep start (events ++ [last]) := by
  constructor
  · rw [after_concat, tables, indexes]
    intro table index tree found
    rw [Catalog.get?_evict] at found
    split at found
    · cases found
    · next differs =>
      obtain ⟨t, ht, rfl, defined⟩ := h.listed table index tree found
      refine ⟨t, List.mem_filter.mpr ⟨ht, ?_⟩, rfl, defined⟩
      rwa [bne_iff_ne, Ne, hs.id_eq_iff ht was]
  · rw [after_concat, tables, indexes]
    intro t ht d hd
    obtain ⟨ht, differs⟩ := List.mem_filter.mp ht
    rw [bne_iff_ne, Ne, hs.id_eq_iff ht was] at differs
    obtain ⟨tree, found, created⟩ := h.built t ht d hd
    rw [Catalog.get?_evict, if_neg differs]
    exact ⟨tree, found, created.concat last⟩

theorem indexed {of : Table} {d : IndexDefinition} {tree : RowIndex}
    (was : of ∈ (start.after events).store.tables) (fresh : d.name ∉ of.indexes.map (·.name))
    (made : Created start of d tree (events ++ [last]))
    (tables : ((start.after events).afterEvent last).store.tables =
      (start.after events).store.tables.map fun u =>
        if u.id = of.id then { u with indexes := of.indexes ++ [d] } else u)
    (indexes : ((start.after events).afterEvent last).indexes =
      (start.after events).indexes.put of.name d.name tree) :
    InStep start (events ++ [last]) := by
  constructor
  · rw [after_concat, tables, indexes]
    intro table index tree' found
    rw [Catalog.get?_put] at found
    split at found
    · next same =>
      exact ⟨_, List.mem_map_of_mem was, by simp [same.1], d, by simp, same.2.symm⟩
    · obtain ⟨t, ht, named, d', hd', indexNamed⟩ := h.listed table index tree' found
      refine ⟨_, List.mem_map_of_mem ht, ?_, d', ?_, indexNamed⟩
      · split <;> exact named
      · split
        · next same =>
          rw [hs.table_ext ht was same] at hd'
          exact List.mem_append_left _ hd'
        · exact hd'
  · rw [after_concat, tables, indexes]
    intro t ht d' hd'
    obtain ⟨u, hu, rfl⟩ := List.mem_map.mp ht
    rw [Catalog.get?_put]
    by_cases same : u.id = of.id
    · have := hs.table_ext hu was same
      subst this
      simp only [if_true, true_and] at hd' ⊢
      rcases List.mem_append.mp hd' with hd' | hd'
      · have differs : d'.name ≠ d.name := fun same => fresh (same ▸ List.mem_map_of_mem hd')
        obtain ⟨tree', found, created⟩ := h.built u hu d' hd'
        rw [if_neg differs]
        exact ⟨tree', found, (created.concat last).reindexed _⟩
      · rw [List.mem_singleton] at hd'
        subst hd'
        exact ⟨tree, if_pos rfl, made.reindexed _⟩
    · obtain ⟨tree', found, created⟩ := h.built u hu d' (by rwa [if_neg same] at hd')
      rw [if_neg same, if_neg fun both => same ((hs.id_eq_iff hu was).mpr both.1)]
      exact ⟨tree', found, created.concat last⟩

end

theorem text (h : InStep start events) (hs : (start.after events).store.Numbered)
    (outage : Outage) (now : Nat) (caller sql : String) :
    InStep start (events ++ [.text outage now caller sql]) := by
  cases (executed _ outage now caller sql hs).defined hs with
  | nothing tables indexes => exact h.same tables indexes
  | created tables indexes => exact h.created rfl tables indexes
  | dropped was tables indexes => exact h.dropped hs was tables indexes
  | indexed was spelled succeeded fresh built tables indexes =>
    exact h.indexed hs was fresh (.intro spelled succeeded was rfl rfl fresh built) tables indexes

end InStep

theorem inStep (c : Configuration) (remote : RemoteLimiter) (events : List Event) :
    InStep (ofConfiguration c remote) events := by
  induction events using List.reverseRecOn with
  | nil => exact ⟨nofun, nofun⟩
  | append_singleton events last ih =>
    cases last with
    | text outage now caller sql =>
      exact ih.text (reachable_iff.mpr ⟨c, remote, events, rfl⟩).numbered outage now caller sql
    | surroundings remote log => exact ih.same rfl rfl

/-- After any history an index is built just if there is a table of that name which defines it, and
what is built is the index of its definition over the rows of the table as they stood when the
index was created. -/
theorem indexes_inStep (c : Configuration) (remote : RemoteLimiter) (events : List Event) :
    let start := ofConfiguration c remote
    let e := start.after events
    (∀ table index, (e.indexes.get? table index).isSome ↔
      ∃ t ∈ e.store.tables, t.name = table ∧ ∃ d ∈ t.indexes, d.name = index) ∧
    ∀ t ∈ e.store.tables, ∀ d ∈ t.indexes, ∃ tree,
      e.indexes.get? t.name d.name = some tree ∧ Created start t d tree events := by
  intro start e
  have kept : InStep start events := inStep c remote events
  refine ⟨fun table index => ⟨fun present => ?_, ?_⟩, kept.built⟩
  · obtain ⟨tree, found⟩ := Option.isSome_iff_exists.mp present
    exact kept.listed table index tree found
  · rintro ⟨t, ht, rfl, d, hd, rfl⟩
    obtain ⟨tree, found, -⟩ := kept.built t ht d hd
    rw [found]
    rfl

example :
    let e := (ofConfiguration .testing noRemoteLimiter).afterTexts [
      "CREATE TABLE a (id INTEGER PRIMARY KEY)", "INSERT INTO a VALUES (1)",
      "CREATE INDEX i ON a (id)", "INSERT INTO a VALUES (2)"]
    e.indexes.lookup "a" "i" [.integer 1] = some [1] ∧
      e.indexes.lookup "a" "i" [.integer 2] = some [] := by
  decide +kernel

end SqlEngine.Engine
