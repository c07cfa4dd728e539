import SqlEngine.Proofs.Relation.Names
import SqlEngine.Proofs.Relation.Plain
import SqlEngine.Proofs.Success

/-! What it says of the names in a query that its check succeeds. -/

namespace SqlEngine.Query

open Dialect Success

variable {q : Query}

theorem checkNameAmong_eq_ok {available : List String} {name : String} :
    q.checkNameAmong available name = .ok () ↔
      (q.scope.key? available name).isSome = true := by
  unfold checkNameAmong
  split <;> simp_all

theorem checkJoin_eq_ok {before : List (Join × Table)} {j : Join} {t : Table} :
    q.checkJoin before j t = .ok () ↔ (JoinKeys.ofJoin j q.scope).inner ∈ t.columnNames ∧
      (q.scope.key? (q.keysAfter before) (JoinKeys.ofJoin j q.scope).outer.text).isSome = true := by
  rw [← checkNameAmong_eq_ok, ← Table.hasColumn_iff, checkJoin]
  cases t.hasColumn (JoinKeys.ofJoin j q.scope).inner with
  | false => simp [throw, throwThe, MonadExceptOf.throw, Bind.bind, Except.bind]
  | true => simp

theorem checkJoins_eq_ok {before rest : List (Join × Table)} :
    q.checkJoins before rest = .ok () ↔
      ∀ earlier j t later, rest = earlier ++ (j, t) :: later →
        q.checkJoin (before ++ earlier) j t = .ok () := by
  induction rest generalizing before with
  | nil => simp [checkJoins]
  | cons entry rest ih =>
    obtain ⟨k, u⟩ := entry
    simp only [checkJoins, bind_eq_ok, ih]
    constructor
    · rintro ⟨_, first, others⟩ earlier j t later split
      cases earlier with
      | nil =>
        cases split
        simpa using first
      | cons entry earlier =>
        cases split
        simpa using others earlier j t later rfl
    · intro all
      refine ⟨(), by simpa using all [] k u rest rfl, fun earlier j t later split => ?_⟩
      subst split
      simpa using all ((k, u) :: earlier) j t later rfl

def itemName? : SelectItem → Option String
  | .column name _ => some name.text
  | .aggregate call _ => call.argument.map (·.text)

/-- The names that a query reads from its merged rows, those of a HAVING clause aside: in its
condition, its items, its groups and, without groups, its sort keys. -/
def namesRead (q : Query) : List String :=
  conditionNames q.select.condition ++ (q.select.items.getD []).filterMap itemName? ++
    q.select.groupBy.map (·.text) ++ if q.isGrouped then [] else q.plainSortNames.map (·.1)

theorem checkName_eq_ok {name : String} :
    q.checkName name = .ok () ↔ (q.scope.key? q.available name).isSome = true :=
  checkNameAmong_eq_ok

theorem checkName_of_checkItem {item : SelectItem} {name : String}
    (checked : q.checkItem item = .ok ()) (read : itemName? item = some name) :
    q.checkName name = .ok () := by
  cases item with
  | column column alias? =>
    cases read
    exact checked
  | aggregate call alias? =>
    obtain ⟨column, argument, rfl⟩ := Option.map_eq_some_iff.mp read
    simpa [checkItem, argument] using checked

theorem checkName_of_checkItems (checked : q.checkItems = .ok ()) :
    ∀ name ∈ (q.select.items.getD []).filterMap itemName?, q.checkName name = .ok () := by
  unfold checkItems at checked
  split at checked
  · next items listed =>
    rw [listed, Option.getD_some]
    rw [forM_eq_ok] at checked
    intro name hname
    obtain ⟨item, hitem, read⟩ := List.mem_filterMap.mp hname
    exact checkName_of_checkItem (checked item hitem) read
  · next star => simp [star]

/-- Without groups a sort name is an alias, whose column an item reads, or is read as it is. -/
theorem checkName_of_checkOrderName {key : SortKey} (plain : q.isGrouped = false)
    (items : ∀ name ∈ (q.select.items.getD []).filterMap itemName?, q.checkName name = .ok ())
    (checked : q.checkOrderName key.column.text = .ok ()) :
    q.checkName (behindAlias (q.select.items.getD []) key.column.text) = .ok () := by
  have stands := behindAlias_standsFor (q.select.items.getD []) key.column.text
  generalize behindAlias (q.select.items.getD []) key.column.text = name at stands
  cases stands with
  | @aliased before after column listed _ =>
    refine items _ (List.mem_filterMap.mpr ⟨.column column (some key.column.text), ?_, rfl⟩)
    rw [listed]
    exact List.mem_append_right _ List.mem_cons_self
  | itself unlisted =>
    unfold checkOrderName at checked
    split at checked
    · next output =>
      rw [List.contains_iff_mem, Select.outputNames, List.mem_map] at output
      obtain ⟨item, hitem, named⟩ := output
      cases item with
      | column column alias? =>
        cases alias? with
        | some other =>
          cases named
          exact absurd hitem (unlisted column)
        | none => exact items _ (List.mem_filterMap.mpr ⟨_, hitem, congrArg some named⟩)
      | aggregate call alias? =>
        -- An aggregate among the items would make groups.
        have grouped : q.isGrouped = true := by
          have among : (q.select.items.getD []).any (·.isAggregate) = true :=
            List.any_eq_true.mpr ⟨_, hitem, rfl⟩
          simp [isGrouped, Select.isAggregate, among]
        rw [plain] at grouped
        cases grouped
    · simpa [plain] using checked

theorem checkName_of_check (checked : q.check = .ok ()) :
    ∀ name ∈ q.namesRead, q.checkName name = .ok () := by
  simp only [check, bind_eq_ok, forM_eq_ok] at checked
  obtain ⟨_, -, _, items, _, condition, _, groups, _, -, order⟩ := checked
  have items := checkName_of_checkItems items
  intro name hname
  simp only [namesRead, List.mem_append] at hname
  rcases hname with ((hname | hname) | hname) | hname
  · exact condition name hname
  · exact items name hname
  · obtain ⟨column, hcolumn, rfl⟩ := List.mem_map.mp hname
    exact groups column hcolumn
  · cases plain : q.isGrouped with
    | true => simp [plain] at hname
    | false =>
      simp only [plain, Bool.false_eq_true, if_false, plainSortNames, List.map_map] at hname
      obtain ⟨key, hkey, rfl⟩ := List.mem_map.mp hname
      exact checkName_of_checkOrderName plain items (order key hkey)

end SqlEngine.Query
