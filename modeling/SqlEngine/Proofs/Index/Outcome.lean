import SqlEngine.Proofs.Index.Building

/-! What the building of an index comes to, unique or not. It fails just if the index is unique and
two of the rows that enter it have the same key, and else a search finds the rows of one key that
entered it. -/

namespace SqlEngine.Index

open Std (TransCmp OrientedCmp)

namespace Key

def TotallyOrdered (ks : List Key) : Prop :=
  ∀ k ∈ ks, ∀ l ∈ ks, ∀ m ∈ ks,
    (order k l).isLE = true → (order l m).isLE = true → (order k m).isLE = true

instance (ks : List Key) : Decidable (TotallyOrdered ks) :=
  inferInstanceAs (Decidable (∀ k ∈ ks, ∀ l ∈ ks, ∀ m ∈ ks,
    (order k l).isLE = true → (order l m).isLE = true → (order k m).isLE = true))

variable {ks ls : List Key} {k l : Key}

theorem TotallyOrdered.subset (h : TotallyOrdered ls) (sub : ks ⊆ ls) : TotallyOrdered ks :=
  fun k hk l hl m hm => h k (sub hk) l (sub hl) m (sub hm)

theorem TotallyOrdered.transCmp (h : TotallyOrdered ks) : TransCmp (@Among.order ks) where
  eq_swap {k l} := (OrientedCmp.eq_swap : order k l = _)
  isLE_trans {k l m} := h k k.2 l l.2 m m.2

theorem hasNull_eq (same : order k l = .eq) : hasNull k = hasNull l := by
  induction k generalizing l with
  | nil =>
    cases l with
    | nil => rfl
    | cons => cases same
  | cons a as ih =>
    cases l with
    | nil => cases same
    | cons b bs =>
      obtain ⟨first, rest⟩ := Ordering.then_eq_eq.mp same
      have null : a.isNull = b.isNull := by
        cases a <;> cases b <;> first | rfl | cases first
      change (a.isNull || hasNull as) = (b.isNull || hasNull bs)
      rw [null, ih rest]

end Key

section

variable {κ ν : Type} [BEq ν] {cmp : κ → κ → Ordering} {calls : List (κ × ν)} {key : κ} {value : ν}

def Apart (cmp : κ → κ → Ordering) (calls : List (κ × ν)) : Prop :=
  calls.Pairwise fun a b => cmp a.1 b.1 ≠ .eq

theorem Apart.putAll_eq (apart : Apart cmp calls) (unique : Bool) :
    putAll cmp unique calls = calls.map fun call => (call.1, [call.2]) := by
  induction calls using List.reverseRecOn with
  | nil => rfl
  | append_singleton calls call ih =>
    obtain ⟨earlier, -, new⟩ := List.pairwise_append.mp apart
    have absent : ((calls.map fun call => (call.1, [call.2])).find?
        fun e : Entry κ ν => cmp e.1 call.1 == .eq) = none := by
      rw [List.find?_eq_none, List.forall_mem_map]
      intro c hc
      simpa using new c hc call List.mem_cons_self
    rw [putAll_concat, ih earlier, put, absent, List.map_append]
    rfl

theorem Apart.put_unique [LawfulBEq ν] (apart : Apart cmp calls)
    (fresh : ∀ call ∈ calls, call.2 ≠ value) :
    (put cmp true (putAll cmp true calls) key value).1 =
      if calls.any fun call => cmp call.1 key == .eq then .error .duplicate else .ok () := by
  have other : (lookup cmp (calls.map fun call => (call.1, [call.2])) key).any (· == value) =
      false := by
    rw [lookup]
    cases found : (calls.map fun call => (call.1, [call.2])).find?
        fun e : Entry κ ν => cmp e.1 key == .eq with
    | none => rfl
    | some e =>
      obtain ⟨call, listed, rfl⟩ := List.mem_map.mp (List.mem_of_find?_eq_some found)
      simpa using fresh call listed
  rw [apart.putAll_eq, put_answer, other, List.any_map, Bool.true_and, Bool.not_false,
    Bool.and_true]
  rfl

end

namespace RowIndex

variable {d : IndexDefinition} {ks : List Key} {rows : List StoredRow} {key : Key}

abbrev keyOf (d : IndexDefinition) (row : StoredRow) : Key := Key.ofRow d.columns row.data

def admits (d : IndexDefinition) (row : StoredRow) : Bool := !(d.unique && (keyOf d row).hasNull)

def entered (d : IndexDefinition) (rows : List StoredRow) : List StoredRow := rows.filter (admits d)

theorem build_entered (d : IndexDefinition) (rows : List StoredRow) :
    build d (entered d rows) = build d rows := by
  unfold build
  generalize (Tree.empty (.default d.unique) : RowIndex) = t
  induction rows generalizing t with
  | nil => rfl
  | cons r rows ih =>
    cases admitted : admits d r with
    | true =>
      rw [entered, List.filter_cons_of_pos admitted, List.foldlM_cons, List.foldlM_cons]
      exact congrArg _ (funext ih)
    | false =>
      have passed : addRow d t r = .ok t := by
        rw [addRow, if_pos (by simpa [admits] using admitted)]
      rw [entered, List.filter_cons_of_neg (by simp [admitted]), List.foldlM_cons, passed]
      exact ih t

theorem whole_of_entered (unique : d.unique = true) {r : StoredRow} (hr : r ∈ entered d rows) :
    (keyOf d r).hasNull = false := by
  simpa [admits, unique] using (List.mem_filter.mp hr).2

theorem filter_entered (d : IndexDefinition) (rows : List StoredRow) (key : Key) :
    ((entered d rows).filter fun r => Key.order (keyOf d r) key == .eq) =
      if d.unique && key.hasNull then []
      else rows.filter fun r => Key.order (keyOf d r) key == .eq := by
  have same {r : StoredRow} (found : (Key.order (keyOf d r) key == .eq) = true) :
      admits d r = !(d.unique && key.hasNull) := by
    rw [admits, Key.hasNull_eq (beq_iff_eq.mp found)]
  rw [entered, List.filter_filter]
  cases left : d.unique && key.hasNull with
  | true =>
    rw [if_pos rfl, List.filter_eq_nil_iff]
    intro r _ both
    obtain ⟨found, admitted⟩ := Bool.and_eq_true_iff.mp both
    rw [same found, left] at admitted
    cases admitted
  | false =>
    rw [if_neg (by nofun)]
    refine List.filter_congr fun r _ => ?_
    cases found : Key.order (keyOf d r) key == .eq with
    | true => rw [same found, left]; rfl
    | false => rfl

def grown (unique : Bool) (calls : List (Among ks × Nat)) : Tree (Among ks) Nat :=
  Tree.insertAll Among.order (.empty (.default unique)) calls

theorem index_grown_nil (unique : Bool) :
    Among.index (grown unique ([] : List (Among ks × Nat))) = .empty (.default unique) :=
  Tree.map_empty _

section

variable [TransCmp (@Among.order ks)]

theorem addRow_grown {done : List (Among ks × Nat)} (apart : Apart Among.order done)
    {row : StoredRow} {key : Among ks} (keyed : keyOf d row = key) (whole : key.1.hasNull = false)
    (fresh : ∀ call ∈ done, call.2 ≠ row.id) :
    addRow d (Among.index (grown true done)) row =
      if done.any fun call => Among.order call.1 key == .eq
      then .error (.constraint (.uniqueIndex d.name (Key.text key)))
      else .ok (Among.index (grown true (done ++ [(key, row.id)]))) := by
  have holds : Tree.Holds (@Among.order ks) (.default true) (grown true done) _ :=
    Tree.holds_insertAll 64 true done
  have answer := (holds.insert key row.id).1.trans (apart.put_unique fresh)
  have more : grown true (done ++ [(key, row.id)]) =
      ((grown true done).insert Among.order key row.id).2 := List.foldl_append ..
  rw [more]
  simp only [addRow, keyed, whole, Bool.and_false, Bool.false_eq_true, if_false,
    Among.insert_index, answer]
  cases done.any fun call => Among.order call.1 key == .eq <;> rfl

/-- Rows are taken in until one has the key of an earlier one. -/
theorem addRows_grown (done : List (Among ks × Nat)) {rows : List StoredRow}
    {calls : List (Among ks × Nat)}
    (called : rows.map (fun r => (keyOf d r, r.id)) = calls.map fun call => (call.1.1, call.2))
    (whole : ∀ call ∈ calls, call.1.1.hasNull = false)
    (numbered : ((done ++ calls).map (·.2)).Nodup) (apart : Apart Among.order done) :
    (Apart Among.order (done ++ calls) ∧
        rows.foldlM (addRow d) (Among.index (grown true done)) =
          .ok (Among.index (grown true (done ++ calls)))) ∨
      ∃ a ∈ done ++ calls, ∃ b ∈ calls, a.2 ≠ b.2 ∧ Among.order a.1 b.1 = .eq ∧
        rows.foldlM (addRow d) (Among.index (grown true done)) =
          .error (.constraint (.uniqueIndex d.name (Key.text b.1))) := by
  induction calls generalizing rows done with
  | nil =>
    rw [List.map_eq_nil_iff.mp called, List.append_nil]
    exact .inl ⟨apart, rfl⟩
  | cons call calls ih =>
    obtain ⟨key, id⟩ := call
    obtain _ | ⟨row, rows⟩ := rows
    · cases called
    simp only [List.map_cons, List.cons.injEq, Prod.mk.injEq] at called
    obtain ⟨⟨keyed, rfl⟩, called⟩ := called
    have fresh : ∀ call ∈ done, call.2 ≠ row.id := by
      rw [List.map_append, List.nodup_append] at numbered
      exact fun call hc => numbered.2.2 _ (List.mem_map_of_mem hc) _ List.mem_cons_self
    have step := addRow_grown apart keyed (whole _ List.mem_cons_self) fresh
    rw [List.foldlM_cons, step]
    cases found : done.any fun call => Among.order call.1 key == .eq with
    | true =>
      obtain ⟨a, ha, same⟩ := List.any_eq_true.mp found
      exact .inr ⟨a, List.mem_append_left _ ha, _, List.mem_cons_self, fresh a ha,
        beq_iff_eq.mp same, rfl⟩
    | false =>
      have new : Apart Among.order (done ++ [(key, row.id)]) := by
        refine List.pairwise_append.mpr ⟨apart, List.pairwise_singleton _ _, ?_⟩
        intro a ha b hb same
        obtain rfl := List.mem_singleton.mp hb
        exact List.any_eq_false.mp found a ha (beq_iff_eq.mpr same)
      rw [List.append_cons] at numbered ⊢
      have whole' := fun c hc => whole c (List.mem_cons_of_mem _ hc)
      refine (ih _ called whole' numbered new).imp_right ?_
      rintro ⟨a, ha, b, hb, repeats⟩
      exact ⟨a, ha, b, List.mem_cons_of_mem _ hb, repeats⟩

end

theorem mem_calls {call : Among (keysMet d rows key) × Nat} (h : call ∈ calls d rows key) :
    ∃ r ∈ rows, call.1.1 = keyOf d r ∧ call.2 = r.id := by
  obtain ⟨r, -, rfl⟩ := List.mem_map.mp h
  exact ⟨r.1, r.2, rfl, rfl⟩

theorem mem_calls_of_mem {r : StoredRow} (hr : r ∈ rows) (key : Key) :
    ∃ call ∈ calls d rows key, call.1.1 = keyOf d r ∧ call.2 = r.id :=
  ⟨_, List.mem_map_of_mem (List.mem_attach rows ⟨r, hr⟩), rfl, rfl⟩

theorem calls_numbered (h : (rows.map (·.id)).Nodup) (key : Key) :
    ((calls d rows key).map (·.2)).Nodup := by
  have same := congrArg (List.map Prod.snd) (map_calls d rows key)
  simp only [List.map_map] at same
  exact same ▸ h

def Shares (d : IndexDefinition) (r s : StoredRow) : Prop :=
  r.id ≠ s.id ∧ Key.order (keyOf d r) (keyOf d s) = .eq ∧
    (keyOf d r).hasNull = false ∧ (keyOf d s).hasNull = false
deriving Decidable

/-- Either no key comes twice in a unique index, or it is refused because of two rows. -/
theorem build_cases (key : Key) [TransCmp (@Among.order (keysMet d (entered d rows) key))]
    (numbered : (rows.map (·.id)).Nodup) :
    ((d.unique = true → Apart Among.order (calls d (entered d rows) key)) ∧
        build d rows = .ok (Among.index (grown d.unique (calls d (entered d rows) key)))) ∨
      d.unique = true ∧ ∃ r ∈ rows, ∃ s ∈ rows, Shares d r s ∧
        build d rows = .error (.constraint (.uniqueIndex d.name (Key.text (keyOf d s)))) := by
  rw [← build_entered]
  have called := map_calls d (entered d rows) key
  cases unique : d.unique with
  | false =>
    exact .inl ⟨nofun, build_index unique called⟩
  | true =>
    have whole : ∀ call ∈ calls d (entered d rows) key, call.1.1.hasNull = false := by
      intro call hc
      obtain ⟨r, hr, keyed, -⟩ := mem_calls hc
      rw [keyed]
      exact whole_of_entered unique hr
    have numbered' := calls_numbered (d := d)
      (numbered.sublist ((List.filter_sublist (p := admits d)).map _)) key
    rcases addRows_grown [] called whole numbered' .nil with
      ⟨apart, built⟩ | ⟨a, ha, b, hb, others, same, failed⟩
    · rw [index_grown_nil] at built
      exact .inl ⟨fun _ => apart, by rw [build, unique]; exact built⟩
    · obtain ⟨r, hr, keyed, number⟩ := mem_calls ha
      obtain ⟨s, hs, keyed', number'⟩ := mem_calls hb
      rw [index_grown_nil, keyed'] at failed
      have shares : Shares d r s := by
        refine ⟨number ▸ number' ▸ others, ?_, whole_of_entered unique hr,
          whole_of_entered unique hs⟩
        rw [← keyed, ← keyed']
        exact same
      exact .inr ⟨rfl, r, List.mem_of_mem_filter hr, s, List.mem_of_mem_filter hs, shares,
        by rw [build, unique]; exact failed⟩

theorem Shares.not_apart {r s : StoredRow} (h : Shares d r s) (key : Key)
    [TransCmp (@Among.order (keysMet d (entered d rows) key))] (hr : r ∈ rows) (hs : s ∈ rows) :
    ¬Apart Among.order (calls d (entered d rows) key) := by
  intro apart
  obtain ⟨others, same, whole, whole'⟩ := h
  have enters {r : StoredRow} (hr : r ∈ rows) (whole : (keyOf d r).hasNull = false) :
      r ∈ entered d rows := List.mem_filter.mpr ⟨hr, by simp [admits, whole]⟩
  obtain ⟨a, ha, keyed, numbered⟩ := mem_calls_of_mem (d := d) (enters hr whole) key
  obtain ⟨b, hb, keyed', numbered'⟩ := mem_calls_of_mem (d := d) (enters hs whole') key
  have symmetric : Std.Symm fun a b : Among (keysMet d (entered d rows) key) × Nat =>
      Among.order a.1 b.1 ≠ .eq := ⟨fun a b apart same => apart (OrientedCmp.eq_symm same)⟩
  refine apart.forall ha hb ?_ ?_
  · rintro rfl
    exact others (numbered.symm.trans numbered')
  · rw [Among.order, keyed, keyed']
    exact same

theorem search_grown [TransCmp (@Among.order (keysMet d (entered d rows) key))]
    (numbered : (rows.map (·.id)).Nodup)
    (apart : d.unique = true → Apart Among.order (calls d (entered d rows) key)) :
    (Among.index (grown d.unique (calls d (entered d rows) key))).search key =
      if d.unique && key.hasNull then []
      else (rows.filter fun r => Key.order (keyOf d r) key == .eq).map (·.id) := by
  let sought : Among (keysMet d (entered d rows) key) := ⟨key, List.mem_cons_self⟩
  have follows : Tree.Follows Among.order d.unique (grown d.unique _) _ :=
    Tree.insertAll_follows 64 d.unique (calls d (entered d rows) key)
  -- Where no key comes twice, it does not matter whether it might.
  have several : putAll Among.order d.unique (calls d (entered d rows) key) =
      putAll Among.order false (calls d (entered d rows) key) := by
    cases unique : d.unique with
    | false => rfl
    | true => rw [(apart unique).putAll_eq, (apart unique).putAll_eq]
  have search := follows.search sought
  rw [several, lookup_putAll] at search
  have found := filter_calls d (entered d rows) key fun k => Key.order k key == .eq
  have once : (((entered d rows).filter fun r => Key.order (keyOf d r) key == .eq).map
      (·.id)).Nodup :=
    numbered.sublist ((List.filter_sublist.trans List.filter_sublist).map _)
  calc (Among.index (grown d.unique (calls d (entered d rows) key))).search key
      = (((entered d rows).filter fun r => Key.order (keyOf d r) key == .eq).map
          (·.id)).eraseDups :=
        (Among.search_index _ sought).trans (search.trans (congrArg List.eraseDups found))
    _ = ((entered d rows).filter fun r => Key.order (keyOf d r) key == .eq).map (·.id) :=
        Lists.eraseDups_of_nodup once
    _ = _ := by rw [filter_entered, apply_ite (List.map _), List.map_nil]

theorem transCmp_of_ordered (ordered : Key.TotallyOrdered (key :: rows.map (keyOf d))) :
    TransCmp (@Among.order (keysMet d (entered d rows) key)) :=
  (ordered.subset (List.cons_subset_cons _
    (List.map_subset _ (List.filter_subset_self _)))).transCmp

theorem exists_probe (ordered : Key.TotallyOrdered (rows.map (keyOf d))) :
    ∃ key, Key.TotallyOrdered (key :: rows.map (keyOf d)) := by
  cases rows with
  | nil => exact ⟨[], show Key.TotallyOrdered [[]] by decide⟩
  | cons r rows => exact ⟨keyOf d r, ordered.subset (by simp)⟩

/-- The building of an index over rows of different numbers fails just if the index is unique and
two rows share a key in it, and the key of such a row is named then. Else a key that is ordered
together with those of the rows finds the rows that have it, in their order, and a unique index has
no key with a null. -/
theorem build_outcome (numbered : (rows.map (·.id)).Nodup)
    (ordered : Key.TotallyOrdered (rows.map (keyOf d))) :
    ((∃ e, build d rows = .error e) ↔
      d.unique = true ∧ ∃ r ∈ rows, ∃ s ∈ rows, Shares d r s) ∧
    (∀ e, build d rows = .error e → ∃ r ∈ rows, ∃ s ∈ rows, Shares d r s ∧
      e = .constraint (.uniqueIndex d.name (Key.text (keyOf d s)))) ∧
    ∀ tree, build d rows = .ok tree → ∀ key, Key.TotallyOrdered (key :: rows.map (keyOf d)) →
      tree.search key = if d.unique && key.hasNull then []
        else (rows.filter fun r => Key.order (keyOf d r) key == .eq).map (·.id) := by
  obtain ⟨probe, met⟩ := exists_probe ordered
  have trans := transCmp_of_ordered met
  refine ⟨⟨?refused, ?repeats⟩, ?named, ?found⟩
  case refused =>
    rintro ⟨e, failed⟩
    rcases build_cases (d := d) probe numbered with ⟨-, built⟩ | ⟨unique, r, hr, s, hs, shares, -⟩
    · rw [built] at failed
      cases failed
    · exact ⟨unique, r, hr, s, hs, shares⟩
  case repeats =>
    rintro ⟨unique, r, hr, s, hs, shares⟩
    rcases build_cases (d := d) probe numbered with ⟨apart, -⟩ | ⟨_, _, _, _, _, _, failed⟩
    · exact (shares.not_apart probe hr hs (apart unique)).elim
    · exact ⟨_, failed⟩
  case named =>
    intro e failed
    rcases build_cases (d := d) probe numbered with ⟨-, built⟩ | ⟨-, r, hr, s, hs, shares, failed'⟩
    · rw [built] at failed
      cases failed
    · rw [failed'] at failed
      exact ⟨r, hr, s, hs, shares, (Except.error.inj failed).symm⟩
  case found =>
    intro tree built key met
    have trans := transCmp_of_ordered met
    rcases build_cases (d := d) key numbered with ⟨apart, built'⟩ | ⟨_, _, _, _, _, _, failed⟩
    · rw [built'] at built
      obtain rfl := Except.ok.inj built
      exact search_grown numbered apart
    · rw [failed] at built
      cases built

def pairedRows : List StoredRow :=
  [⟨4, 1, .ofEntries [("x", .integer 7), ("y", .text "a")]⟩,
    ⟨5, 1, .ofEntries [("x", .real ⟨0x401C000000000000⟩), ("y", .text "b")]⟩,
    ⟨6, 1, .ofEntries [("x", .integer 7)]⟩,
    ⟨9, 1, .ofEntries [("y", .date "a"), ("x", .real ⟨0x401C000000000000⟩)]⟩]

theorem build_outcome_paired :
    let unique : IndexDefinition := ⟨"i", ["x", "y"], true⟩
    let plain : IndexDefinition := ⟨"i", ["x", "y"], false⟩
    (pairedRows.map (·.id)).Nodup ∧ Key.TotallyOrdered (pairedRows.map (keyOf plain)) ∧
    (∃ e, build unique pairedRows = .error e) ∧
    (∃ tree, build plain pairedRows = .ok tree ∧
      tree.search [.integer 7, .text "a"] = [4, 9] ∧ tree.search [.integer 7, .null] = [6]) ∧
    ∃ tree, build unique (pairedRows.take 3) = .ok tree ∧
      tree.search [.integer 7, .text "a"] = [4] ∧ tree.search [.integer 7, .null] = [] := by
  intro unique plain
  have numbered : (pairedRows.map (·.id)).Nodup := by decide
  have ordered : Key.TotallyOrdered (pairedRows.map (keyOf plain)) := by decide +kernel
  have refused := (@build_outcome unique pairedRows numbered ordered).1.mpr
    ⟨rfl, _, .head _, _, .tail _ (.tail _ (.tail _ (.head _))), by decide +kernel⟩
  refine ⟨numbered, ordered, refused, ?several, ?one⟩
  case several =>
    have outcome := @build_outcome plain pairedRows numbered ordered
    cases built : build plain pairedRows with
    | error e => exact absurd (outcome.1.mp ⟨e, built⟩).1 (by decide)
    | ok tree =>
      refine ⟨tree, rfl, ?_, ?_⟩
      · rw [outcome.2.2 tree built _ (by decide +kernel)]
        decide +kernel
      · rw [outcome.2.2 tree built _ (by decide +kernel)]
        decide +kernel
  case one =>
    have outcome := @build_outcome unique (pairedRows.take 3) (by decide) (by decide +kernel)
    cases built : build unique (pairedRows.take 3) with
    | error e =>
      exact absurd (outcome.1.mp ⟨e, built⟩).2 (by decide +kernel)
    | ok tree =>
      refine ⟨tree, rfl, ?_, ?_⟩
      · rw [outcome.2.2 tree built _ (by decide +kernel)]
        decide +kernel
      · rw [outcome.2.2 tree built _ (by decide +kernel)]
        decide +kernel

/-- The double between two integers that are read as it is equal to the keys of both rows, and it
finds one of them. The keys of the rows are ordered, but not together with it. -/
theorem search_astray :
    let d : IndexDefinition := ⟨"i", ["x"], false⟩
    let rows : List StoredRow := [⟨1, 1, .ofEntries [("x", .integer 9007199254740992)]⟩,
      ⟨2, 1, .ofEntries [("x", .integer 9007199254740993)]⟩]
    let key : Key := [.real ⟨0x4340000000000000⟩]
    (rows.map (·.id)).Nodup ∧ Key.TotallyOrdered (rows.map (keyOf d)) ∧
    (build d rows).toOption.map (·.search key) = some [2] ∧
    (rows.filter fun r => Key.order (keyOf d r) key == .eq).map (·.id) = [1, 2] := by
  decide +kernel

end RowIndex
end SqlEngine.Index
