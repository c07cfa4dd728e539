import SqlEngine.Proofs.Index.Reading
import SqlEngine.Proofs.Lists

/-! Trees as dictionaries. A dictionary lists its entries in the order in which their keys came, and
with each key its values in the order in which they came. -/

namespace SqlEngine.Index

open Std

variable {κ ν : Type} {cmp : κ → κ → Ordering} {unique : Bool}

section

variable [BEq ν]

/-- One pair more. A value that its key has already is not taken a second time. -/
def put (cmp : κ → κ → Ordering) (unique : Bool) (entries : List (Entry κ ν)) (key : κ) (value : ν) :
    Except InsertFault Unit × List (Entry κ ν) :=
  match entries.find? fun e => cmp e.1 key == .eq with
  | none => (.ok (), entries ++ [(key, [value])])
  | some e =>
    if e.2.any (· == value) then (.ok (), entries)
    else if unique then (.error .duplicate, entries)
    else (.ok (), entries.map fun e =>
      if cmp e.1 key == .eq then (e.1, e.2 ++ [value]) else e)

/-- The entries after a sequence of calls, of which some may have been refused. -/
def putAll (cmp : κ → κ → Ordering) (unique : Bool) (calls : List (κ × ν)) : List (Entry κ ν) :=
  calls.foldl (fun entries call => (put cmp unique entries call.1 call.2).2) []

/-- The tree after a sequence of insertions, of which some may have failed. -/
def Tree.insertAll (cmp : κ → κ → Ordering) (t : Tree κ ν) (calls : List (κ × ν)) : Tree κ ν :=
  calls.foldl (fun t call => (t.insert cmp call.1 call.2).2) t

end

def sorted (cmp : κ → κ → Ordering) (entries : List (Entry κ ν)) : List (Entry κ ν) :=
  entries.mergeSort fun a b => (cmp a.1 b.1).isLE

def Distinct (cmp : κ → κ → Ordering) (entries : List (Entry κ ν)) : Prop :=
  entries.Pairwise fun a b => cmp a.1 b.1 ≠ .eq

theorem Distinct.of_ascending {entries : List (Entry κ ν)}
    (ascending : entries.Pairwise fun a b => cmp a.1 b.1 = .lt) :
    Distinct cmp entries :=
  ascending.imp fun less => by rw [less]; nofun

theorem find?_further (entries : List (Entry κ ν)) (key key' : κ) (value : ν) :
    ((entries.map fun e => if cmp e.1 key == .eq then (e.1, e.2 ++ [value]) else e).find?
        fun e => cmp e.1 key' == .eq) =
      (entries.find? fun e => cmp e.1 key' == .eq).map
        fun e => if cmp e.1 key == .eq then (e.1, e.2 ++ [value]) else e := by
  rw [List.find?_map]
  congr 2
  funext e
  dsimp only [Function.comp]
  split <;> rfl

section

variable [TransCmp cmp] {entries entries' : List (Entry κ ν)}

theorem Distinct.perm (h : Distinct cmp entries) (perm : entries.Perm entries') :
    Distinct cmp entries' :=
  (perm.pairwise_iff fun apart same => apart (OrientedCmp.eq_symm same)).mp h

theorem Distinct.find?_eq_some {e : Entry κ ν} {key : κ} (h : Distinct cmp entries) (he : e ∈ entries)
    (same : cmp e.1 key = .eq) : (entries.find? fun e => cmp e.1 key == .eq) = some e := by
  obtain ⟨before, after, rfl⟩ := List.append_of_mem he
  refine List.find?_eq_some_iff_append.mpr ⟨by simpa using same, before, after, rfl, fun x hx => ?_⟩
  have apart := (List.pairwise_append.mp h).2.2 x hx e List.mem_cons_self
  simp only [Bool.not_eq_true', beq_eq_false_iff_ne]
  exact fun equal => apart (TransCmp.eq_trans equal (OrientedCmp.eq_symm same))

theorem Distinct.find?_perm (h : Distinct cmp entries) (perm : entries.Perm entries') (key : κ) :
    (entries.find? fun e => cmp e.1 key == .eq) = entries'.find? fun e => cmp e.1 key == .eq := by
  cases found : entries.find? fun e => cmp e.1 key == .eq with
  | none =>
    rw [List.find?_eq_none] at found
    exact (List.find?_eq_none.mpr fun x hx => found x (perm.mem_iff.mpr hx)).symm
  | some e =>
    have same : cmp e.1 key = .eq := by simpa using List.find?_some found
    have listed := perm.mem_iff.mp (List.mem_of_find?_eq_some found)
    exact ((h.perm perm).find?_eq_some listed same).symm

theorem Distinct.lookup_perm (h : Distinct cmp entries) (perm : entries.Perm entries') (key : κ) :
    lookup cmp entries key = lookup cmp entries' key := by
  rw [lookup, lookup, h.find?_perm perm key]

theorem lookup_congr {key key' : κ} (same : cmp key key' = .eq)
    (entries : List (Entry κ ν)) : lookup cmp entries key = lookup cmp entries key' := by
  simp only [lookup, TransCmp.congr_right same]

theorem sorted_eq (ascending : entries.Pairwise fun a b => cmp a.1 b.1 = .lt)
    (perm : entries.Perm entries') : entries = sorted cmp entries' := by
  have trans (a b c : Entry κ ν) : (cmp a.1 b.1).isLE = true → (cmp b.1 c.1).isLE = true →
      (cmp a.1 c.1).isLE = true := TransCmp.isLE_trans
  have total (a b : Entry κ ν) : ((cmp a.1 b.1).isLE || (cmp b.1 a.1).isLE) = true := by
    rw [(OrientedCmp.eq_swap : cmp b.1 a.1 = _)]
    cases cmp a.1 b.1 <;> rfl
  have distinct := Distinct.of_ascending ascending
  have same (a b : Entry κ ν) (ha : a ∈ entries) (hb : b ∈ sorted cmp entries')
      (ab : (cmp a.1 b.1).isLE = true) (ba : (cmp b.1 a.1).isLE = true) : a = b := by
    have equal : cmp a.1 b.1 = .eq := OrientedCmp.isLE_antisymm ab ba
    have hb : b ∈ entries := perm.mem_iff.mpr ((List.mergeSort_perm entries' _).mem_iff.mp hb)
    have found := distinct.find?_eq_some ha equal
    rw [distinct.find?_eq_some hb ReflCmp.compare_self] at found
    exact (Option.some.inj found).symm
  refine List.Perm.eq_of_pairwise same (ascending.imp fun less => by rw [less]; rfl)
    (List.pairwise_mergeSort trans total entries') ?_
  exact perm.trans (List.mergeSort_perm entries' _).symm

end

section

variable [BEq ν] {t : Tree κ ν} {entries entries' : List (Entry κ ν)} {key : κ} {value : ν}

theorem put_of_find? {e : Entry κ ν}
    (found : (entries.find? fun e => cmp e.1 key == .eq) = some e) :
    put cmp unique entries key value =
      if e.2.any (· == value) then (.ok (), entries)
      else if unique then (.error .duplicate, entries)
      else (.ok (), entries.map fun e =>
        if cmp e.1 key == .eq then (e.1, e.2 ++ [value]) else e) := by
  rw [put, found]

def Filled (entries : List (Entry κ ν)) : Prop :=
  ∀ e ∈ entries, e.2 ≠ [] ∧ e.2.Pairwise fun a b => (a == b) = false

theorem Filled.put [TransCmp cmp] (h : Filled entries) (distinct : Distinct cmp entries) (key : κ)
    (value : ν) : Filled (put cmp unique entries key value).2 := by
  cases found : entries.find? fun e => cmp e.1 key == .eq with
  | none =>
    rw [Index.put, found]
    refine List.forall_mem_append.mpr ⟨h, List.forall_mem_singleton.mpr ⟨nofun, ?_⟩⟩
    exact List.pairwise_singleton _ _
  | some e =>
    rw [put_of_find? found]
    split
    · exact h
    · next absent =>
      split
      · exact h
      · refine List.forall_mem_map.mpr fun x hx => ?_
        split
        · next same =>
          -- No other entry than the one found has this key.
          rw [distinct.find?_eq_some hx (by simpa using same)] at found
          obtain rfl := Option.some.inj found
          refine ⟨List.append_ne_nil_of_right_ne_nil _ nofun, ?_⟩
          refine List.pairwise_append.mpr ⟨(h x hx).2, List.pairwise_singleton _ _, ?_⟩
          simpa using absent
        · exact h x hx

theorem Put.put_perm [TransCmp cmp] {after : List (Entry κ ν)}
    (h : Put cmp unique key value entries after) (distinct : Distinct cmp entries)
    (perm : entries.Perm entries') :
    (put cmp unique entries' key value).1 = .ok () ∧
      after.Perm (put cmp unique entries' key value).2 := by
  cases h with
  | @fresh before after less greater =>
    have none : (entries'.find? fun e => cmp e.1 key == .eq) = none := by
      rw [← distinct.find?_perm perm, List.find?_eq_none, List.forall_mem_append]
      exact ⟨fun x hx => by rw [less x hx]; nofun, fun x hx => by rw [greater x hx]; nofun⟩
    rw [put, none]
    refine ⟨rfl, List.perm_middle.trans ?_⟩
    exact (perm.cons _).trans (List.perm_append_singleton _ _).symm
  | @further before after k values less same greater absent many =>
    have listed : (k, values) ∈ before ++ (k, values) :: after :=
      List.mem_append_right before List.mem_cons_self
    have found := distinct.find?_eq_some listed same
    rw [distinct.find?_perm perm] at found
    rw [put_of_find? found, if_neg (by rw [absent]; nofun), if_neg (by rw [many]; nofun)]
    have left : (before.map fun e => if cmp e.1 key == .eq then (e.1, e.2 ++ [value]) else e) =
        before := List.map_congr_left (fun x hx => by rw [less x hx]; rfl) |>.trans (List.map_id _)
    have right : (after.map fun e => if cmp e.1 key == .eq then (e.1, e.2 ++ [value]) else e) =
        after := List.map_congr_left (fun x hx => by rw [greater x hx]; rfl) |>.trans (List.map_id _)
    have changed := perm.map fun e : Entry κ ν =>
      if cmp e.1 key == .eq then (e.1, e.2 ++ [value]) else e
    rw [List.map_append, List.map_cons, left, right, same] at changed
    exact ⟨rfl, changed⟩

theorem Put.absent {after : List (Entry κ ν)} (h : Put cmp unique key value entries after) :
    (lookup cmp entries key).any (· == value) = false := by
  cases h with
  | fresh less greater =>
    rw [lookup_eq_nil]
    · rfl
    · exact List.forall_mem_append.mpr ⟨fun x hx => by rw [less x hx]; nofun,
        fun x hx => by rw [greater x hx]; nofun⟩
  | further less same greater absent many =>
    rwa [lookup_append_cons (fun x hx => by rw [less x hx]; nofun) same]

theorem put_answer (entries : List (Entry κ ν)) (key : κ) (value : ν) :
    (put cmp unique entries key value).1 =
      if unique && (entries.any fun e => cmp e.1 key == .eq) &&
        !(lookup cmp entries key).any (· == value)
      then .error .duplicate else .ok () := by
  rw [← List.isSome_find?]
  cases found : entries.find? fun e => cmp e.1 key == .eq with
  | none => simp [put, found]
  | some e =>
    rw [put_of_find? found, lookup, found]
    cases e.2.any (· == value) <;> cases unique <;> rfl

theorem lookup_put_of_eq [TransCmp cmp] {key' : κ} (same : cmp key key' = .eq) :
    lookup cmp (put cmp false entries key value).2 key' =
      if (lookup cmp entries key').any (· == value) then lookup cmp entries key'
      else lookup cmp entries key' ++ [value] := by
  rw [← lookup_congr same, ← lookup_congr same]
  cases found : entries.find? fun e => cmp e.1 key == .eq with
  | none => simp [lookup, put, found, List.find?_append, ReflCmp.compare_self]
  | some e =>
    have here : cmp e.1 key = .eq := by simpa using List.find?_some found
    rw [put_of_find? found]
    cases present : e.2.any (· == value) with
    | true => simp [lookup, found, present]
    | false =>
      simp only [lookup, found, present, Bool.false_eq_true, if_false, find?_further]
      simp [here]

theorem lookup_put_of_ne [TransCmp cmp] {key' : κ} (apart : cmp key key' ≠ .eq) :
    lookup cmp (put cmp unique entries key value).2 key' = lookup cmp entries key' := by
  cases found : entries.find? fun e => cmp e.1 key == .eq with
  | none => simp [lookup, put, found, List.find?_append, apart]
  | some e =>
    rw [put_of_find? found]
    split
    · rfl
    · split
      · rfl
      · rw [lookup, lookup, find?_further]
        cases other : entries.find? fun e => cmp e.1 key' == .eq with
        | none => rfl
        | some x =>
          have there : cmp x.1 key' = .eq := by simpa using List.find?_some other
          have away : cmp x.1 key ≠ .eq := fun here =>
            apart (TransCmp.eq_trans (OrientedCmp.eq_symm here) there)
          simp [away]

theorem putAll_concat (calls : List (κ × ν)) (call : κ × ν) :
    putAll cmp unique (calls ++ [call]) =
      (put cmp unique (putAll cmp unique calls) call.1 call.2).2 := by
  rw [putAll, List.foldl_append]
  rfl

/-- Where a key may have several values, it has those of all calls with this key, each once. -/
theorem lookup_putAll [LawfulBEq ν] [TransCmp cmp] (calls : List (κ × ν)) (key : κ) :
    lookup cmp (putAll cmp false calls) key =
      ((calls.filter fun call => cmp call.1 key == .eq).map (·.2)).eraseDups := by
  induction calls using List.reverseRecOn with
  | nil => rfl
  | append_singleton calls call ih =>
    rw [putAll_concat, List.filter_append, List.map_append]
    by_cases same : cmp call.1 key = .eq
    · have last : ([call].filter fun call => cmp call.1 key == .eq) = [call] := by simp [same]
      rw [lookup_put_of_eq same, ih, last, List.map_singleton, Lists.eraseDups_concat]
    · rw [lookup_put_of_ne same, ih]
      simp [same]

namespace Tree

/-- A valid tree that has the entries of a dictionary. -/
structure Holds (cmp : κ → κ → Ordering) (rules : Rules) (t : Tree κ ν) (entries : List (Entry κ ν)) :
    Prop where
  valid : Valid cmp t
  rules : t.rules = rules
  perm : t.contents.Perm entries
  filled : Filled entries

namespace Holds

variable [TransCmp cmp] {rules : Rules}

/-- The tree answers as the dictionary does. -/
theorem insert (h : Holds cmp rules t entries) (key : κ) (value : ν) :
    (t.insert cmp key value).1 = (put cmp rules.unique entries key value).1 ∧
      Holds cmp rules (t.insert cmp key value).2 (put cmp rules.unique entries key value).2 := by
  obtain ⟨valid, rfl, perm, filled⟩ := h
  have distinct := Distinct.of_ascending valid.ordered.ascending
  have filled' : Filled (put cmp t.rules.unique entries key value).2 :=
    filled.put (distinct.perm perm) key value
  have step := valid.insert_step key value
  generalize t.insert cmp key value = answer at step ⊢
  cases step with
  | @repeated e listed same there =>
    have found := distinct.find?_eq_some listed same
    rw [distinct.find?_perm perm] at found
    rw [put_of_find? found, if_pos there]
    exact ⟨rfl, valid, rfl, perm, filled⟩
  | @refused e listed same absent unique =>
    have found := distinct.find?_eq_some listed same
    rw [distinct.find?_perm perm] at found
    rw [put_of_find? found, if_neg (by rw [absent]; nofun), if_pos unique]
    exact ⟨rfl, valid, rfl, perm, filled⟩
  | @taken t' grown same taken =>
    obtain ⟨answer, after⟩ := taken.put_perm distinct perm
    exact ⟨answer.symm, grown, same, after, filled'⟩

end Holds

theorem holds_insertAll [TransCmp cmp] (order : Nat) (unique : Bool) (calls : List (κ × ν)) :
    Holds cmp (.ofOrder order unique) (insertAll cmp (empty (.ofOrder order unique)) calls)
      (putAll cmp unique calls) := by
  have start : Holds cmp (.ofOrder order unique) (empty (.ofOrder order unique) : Tree κ ν) [] :=
    ⟨valid_empty order unique, rfl, .nil, nofun⟩
  unfold insertAll putAll
  generalize empty (.ofOrder order unique) = t at start ⊢
  generalize ([] : List (Entry κ ν)) = entries at start ⊢
  induction calls generalizing t entries with
  | nil => exact start
  | cons call rest ih => exact ih _ _ (start.insert call.1 call.2).2

/-- All that can be read from a tree is read off a dictionary, and insertions are answered by it. -/
structure Follows (cmp : κ → κ → Ordering) (unique : Bool) (t : Tree κ ν)
    (entries : List (Entry κ ν)) : Prop where
  keys : Distinct cmp entries
  values : Filled entries
  search : ∀ key, t.search cmp key = lookup cmp entries key
  contains : ∀ key, t.contains cmp key = entries.any fun e => cmp e.1 key == .eq
  ascending : t.toList.Pairwise fun a b => cmp a.1 b.1 = .lt
  toList : t.toList = sorted cmp entries
  scan : t.scan = pairs (sorted cmp entries)
  range : ∀ low high, t.range cmp low high =
    t.scan.filter fun p => (cmp low p.1).isLE && (cmp p.1 high).isLE
  range_empty : ∀ low high, cmp low high = .gt → t.range cmp low high = []
  minKey? : t.minKey? = (sorted cmp entries).head?.map (·.1)
  size : t.size = entries.length
  isEmpty : t.isEmpty = entries.isEmpty
  answer : ∀ key value, (t.insert cmp key value).1 =
    if unique && (entries.any fun e => cmp e.1 key == .eq) &&
      !(lookup cmp entries key).any (· == value)
    then .error .duplicate else .ok ()
  unchanged : ∀ key value, (t.insert cmp key value).1 ≠ .ok () ∨
    (lookup cmp entries key).any (· == value) = true → (t.insert cmp key value).2 = t

theorem Holds.follows [TransCmp cmp] {rules : Rules} (h : Holds cmp rules t entries) :
    Follows cmp rules.unique t entries := by
  have distinct := Distinct.of_ascending h.valid.ordered.ascending
  have keys := distinct.perm h.perm
  have search (key : κ) : t.search cmp key = lookup cmp entries key := by
    rw [h.valid.search_eq, distinct.lookup_perm h.perm]
  have toList : t.contents = sorted cmp entries := sorted_eq h.valid.ordered.ascending h.perm
  have size : t.size = entries.length := by rw [h.valid.size_eq, h.perm.length_eq]
  constructor
  case keys => exact keys
  case values => exact h.filled
  case search => exact search
  case contains =>
    intro key
    rw [contains, search, ← List.isSome_find?, lookup]
    cases found : entries.find? fun e => cmp e.1 key == .eq with
    | none => rfl
    | some e => simpa using (h.filled e (List.mem_of_find?_eq_some found)).1
  case ascending =>
    rw [h.valid.toList_eq]
    exact h.valid.ordered.ascending
  case toList => rw [h.valid.toList_eq, toList]
  case scan => rw [scan, h.valid.toList_eq, toList]
  case range => exact h.valid.range_eq
  case range_empty =>
    intro low high reversed
    rw [range, if_pos reversed]
  case minKey? => rw [h.valid.minKey?_eq, toList]
  case size => exact size
  case isEmpty =>
    rw [isEmpty, size]
    cases entries <;> rfl
  case answer =>
    intro key value
    rw [(h.insert key value).1, put_answer]
  case unchanged =>
    intro key value unchanged
    have step := h.valid.insert_step key value
    generalize t.insert cmp key value = answer at step unchanged ⊢
    cases step with
    | «repeated» => rfl
    | refused => rfl
    | taken _ _ put =>
      rw [← distinct.lookup_perm h.perm, put.absent] at unchanged
      exact (unchanged.resolve_right (by simp) rfl).elim

/-- Whatever is inserted into a new tree, in whatever order: the tree follows the dictionary of the
same calls. -/
theorem insertAll_follows [TransCmp cmp] (order : Nat) (unique : Bool) (calls : List (κ × ν)) :
    Follows cmp unique (insertAll cmp (empty (.ofOrder order unique)) calls)
      (putAll cmp unique calls) :=
  (holds_insertAll order unique calls).follows

theorem insertAll_follows_descending :
    TransCmp (compare : Nat → Nat → Ordering) ∧
      Follows compare false (insertAll compare (empty (.ofOrder 3 false))
        [(5, 50), (4, 40), (3, 30), (2, 20), (4, 41), (4, 40)])
        (putAll compare false [(5, 50), (4, 40), (3, 30), (2, 20), (4, 41), (4, 40)]) ∧
      putAll compare false [(5, 50), (4, 40), (3, 30), (2, 20), (4, 41), (4, 40)] =
        [(5, [50]), (4, [40, 41]), (3, [30]), (2, [20])] :=
  ⟨inferInstance, insertAll_follows 3 false _, by decide⟩

end Tree

end
end SqlEngine.Index
