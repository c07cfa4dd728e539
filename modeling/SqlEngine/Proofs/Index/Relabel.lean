import SqlEngine.Proofs.Index.Mapping

/-! Values of a tree exchanged for others one for one, its keys kept. A tree finds its way by the
keys alone, so the exchange can be made before an insertion or after it. -/

namespace SqlEngine.Index

variable {κ ν μ : Type} {f : ν → μ}

def Entry.relabel (f : ν → μ) (e : Entry κ ν) : Entry κ μ := (e.1, e.2.map f)

def Node.relabel (f : ν → μ) : Node κ ν → Node κ μ
  | .leaf entries next => .leaf (entries.map (Entry.relabel f)) next
  | .branch keys children => .branch keys children

namespace Tree

def relabel (f : ν → μ) (t : Tree κ ν) : Tree κ μ :=
  ⟨t.rules, t.nodes.map (Node.relabel f), t.root, t.height, t.counts⟩

theorem relabel_eq_map (t : Tree κ ν) : t.relabel f = t.map id f := by
  have node : (Node.relabel f : Node κ ν → Node κ μ) = Node.map id f := by
    funext n
    cases n with
    | leaf entries next => rfl
    | branch keys children => rw [Node.relabel, Node.map, List.map_id]
  rw [relabel, map, node]

theorem relabel_empty (rules : Rules) :
    (Tree.empty rules : Tree κ ν).relabel f = Tree.empty rules := by
  rw [relabel_eq_map, map_empty]

theorem insert_relabel [BEq ν] [LawfulBEq ν] [BEq μ] [LawfulBEq μ] (t : Tree κ ν)
    (injective : Function.Injective f) (cmp : κ → κ → Ordering) (key : κ) (value : ν) :
    (t.relabel f).insert cmp key (f value) =
      ((t.insert cmp key value).1, (t.insert cmp key value).2.relabel f) := by
  rw [relabel_eq_map, relabel_eq_map]
  exact t.insert_map (fun _ _ => rfl) key injective value

end Tree

theorem exists_perm_map {α : Type} [DecidableEq α] {xs ys : List α} (distinct : xs.Nodup)
    (distinct' : ys.Nodup) (length : xs.length = ys.length) : ∃ σ : Equiv.Perm α, xs.map σ = ys := by
  induction xs generalizing ys with
  | nil => exact ⟨.refl α, (List.length_eq_zero_iff.mp length.symm).symm⟩
  | cons x xs ih =>
    obtain _ | ⟨y, ys⟩ := ys
    · cases length
    rw [List.nodup_cons] at distinct distinct'
    obtain ⟨σ, rfl⟩ := ih distinct.2 distinct'.2 (Nat.succ.inj length)
    -- What `σ` makes of `x` changes places with `y`, and neither is among the others.
    refine ⟨σ.trans (.swap (σ x) y), ?_⟩
    rw [List.map_cons, Equiv.trans_apply, Equiv.swap_apply_left]
    congr 1
    refine List.map_congr_left fun z hz => ?_
    have apart : σ z ≠ σ x := fun same => distinct.1 (σ.injective same ▸ hz)
    have apart' : σ z ≠ y := fun same => distinct'.1 (same ▸ List.mem_map_of_mem hz)
    exact Equiv.swap_apply_of_ne_of_ne apart apart'

namespace RowIndex

theorem addRow_relabel {f : Nat → Nat} (injective : Function.Injective f) (d : IndexDefinition)
    (t : RowIndex) (table : Nat) (row : StoredRow) :
    addRow d (t.relabel f) ⟨f row.id, table, row.data⟩ = (addRow d t row).map (Tree.relabel f) := by
  simp only [addRow]
  split
  · rfl
  · rw [Tree.insert_relabel t injective]
    rcases Tree.insert Key.order t (Key.ofRow d.columns row.data) row.id with ⟨_ | _, grown⟩ <;> rfl

theorem addRows_relabel {f : Nat → Nat} (injective : Function.Injective f) (d : IndexDefinition)
    {rows rows' : List StoredRow} (ids : rows'.map (·.id) = rows.map fun r => f r.id)
    (data : rows'.map (·.data) = rows.map (·.data)) (t : RowIndex) :
    rows'.foldlM (addRow d) (t.relabel f) = (rows.foldlM (addRow d) t).map (Tree.relabel f) := by
  induction rows generalizing rows' t with
  | nil =>
    rw [List.map_eq_nil_iff.mp ids]
    rfl
  | cons row rest ih =>
    obtain _ | ⟨⟨id, table, content⟩, rest'⟩ := rows'
    · cases ids
    simp only [List.map_cons, List.cons.injEq] at ids data
    obtain ⟨rfl, ids⟩ := ids
    obtain ⟨rfl, data⟩ := data
    rw [List.foldlM_cons, List.foldlM_cons, addRow_relabel injective]
    cases addRow d t row with
    | error e => rfl
    | ok grown => exact ih ids data grown

/-- Indexes over the same data differ in the numbers of the rows only. -/
theorem build_alike (d : IndexDefinition) {rows rows' : List StoredRow}
    (distinct : (rows.map (·.id)).Nodup) (distinct' : (rows'.map (·.id)).Nodup)
    (data : rows.map (·.data) = rows'.map (·.data)) :
    ∃ σ : Equiv.Perm Nat, build d rows' = (build d rows).map (Tree.relabel σ) := by
  have length : (rows.map (·.id)).length = (rows'.map (·.id)).length := by
    simpa using congrArg List.length data
  obtain ⟨σ, renamed⟩ := exists_perm_map distinct distinct' length
  have ids : rows'.map (·.id) = rows.map fun r => σ r.id := by
    rw [← renamed, List.map_map, Function.comp_def]
  have built := addRows_relabel σ.injective d ids data.symm (.empty (.default d.unique))
  rw [Tree.relabel_empty] at built
  exact ⟨σ, built⟩

end RowIndex
end SqlEngine.Index
