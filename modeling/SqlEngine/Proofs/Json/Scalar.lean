import SqlEngine.Json.Scalar
import SqlEngine.Proofs.Json.Real
import SqlEngine.Schema

/-! Which values their JSON texts tell apart. A text ends where a comma or a bracket follows it, so
that of a tuple tells the texts of its values. That of a value tells it from the others of its type,
but for infinities and NaN, which are written like null. -/

namespace SqlEngine

namespace Json

section

variable (rest : List Char)

theorem readUnits?_simple {c e : Char} (simple : simpleEscape? c = some e) (notUnit : c ≠ 'u') :
    readUnits? ('\\' :: c :: rest) =
      (readUnits? rest).map fun (units, after) => (e.toNat :: units, after) := by
  rw [readUnits?, simple]
  · cases readUnits? rest <;> rfl
  · exact fun _ _ _ _ _ unit => absurd unit notUnit

theorem readUnits?_unit {n : Nat} (small : n < 256) :
    readUnits? ('\\' :: 'u' :: '0' :: '0' :: Nat.digitChar (n / 16) :: Nat.digitChar (n % 16) ::
        rest) = (readUnits? rest).map fun (units, after) => (n :: units, after) := by
  have digit : ∀ d < 16, hexDigit? (Nat.digitChar d) = some d := by decide
  have zero : hexDigit? '0' = some 0 := by decide
  have value : ((0 * 16 + 0) * 16 + n / 16) * 16 + n % 16 = n := by omega
  rw [readUnits?, zero, digit _ (by omega), digit _ (by omega)]
  cases readUnits? rest
  · rfl
  · simp only [Option.bind_eq_bind, Option.bind_some, value]
    rfl

theorem readUnits?_plain {c : Char} (quote : c ≠ '"') (backslash : c ≠ '\\')
    (control : ¬c.toNat < 0x20) : readUnits? (c :: rest) =
      (readUnits? rest).map fun (units, after) => (c.toNat :: units, after) := by
  rw [readUnits?, if_neg control]
  · exact quote
  · rintro _ _ _ _ _ rfl
    exact absurd rfl backslash
  · rintro _ _ rfl
    exact absurd rfl backslash

theorem readUnits?_escape (c : Char) : readUnits? (escape c ++ rest) =
    (readUnits? rest).map fun (units, after) => (c.toNat :: units, after) := by
  unfold escape
  split_ifs with quote backslash b f n r t control
  case neg => exact readUnits?_plain rest quote backslash control
  -- The first seven cases name the character.
  all_goals first
    | exact readUnits?_unit rest (Nat.lt_trans control (by decide))
    | subst c
      exact readUnits?_simple rest (by decide) (by decide)

end

theorem readUnits?_quoted (cs rest : List Char) :
    readUnits? (cs.flatMap escape ++ '"' :: rest) = some (cs.map Char.toNat, rest) := by
  induction cs with
  | nil => rw [List.flatMap_nil, List.nil_append, readUnits?, List.map_nil]
  | cons c cs ih =>
    rw [List.flatMap_cons, List.append_assoc, readUnits?_escape, ih]
    rfl

theorem quoteChars_append_inj {cs ds rest rest' : List Char}
    (same : quoteChars cs ++ rest = quoteChars ds ++ rest') : cs = ds ∧ rest = rest' := by
  simp only [quoteChars, List.cons_append, List.append_assoc, List.nil_append, List.cons.injEq,
    true_and] at same
  have read := readUnits?_quoted cs rest
  rw [same, readUnits?_quoted] at read
  obtain ⟨units, after⟩ := Prod.mk.inj (Option.some.inj read)
  have injective : Function.Injective Char.toNat := fun _ _ => Char.toNat_inj.mp
  exact ⟨injective.list_map units.symm, after.symm⟩

def IsBare (c : Char) : Prop := c ≠ ',' ∧ c ≠ ']' ∧ c ≠ '"'

instance (c : Char) : Decidable (IsBare c) := inferInstanceAs (Decidable (_ ∧ _ ∧ _))

theorem IsNumeric.isBare {c : Char} (h : IsNumeric c) : IsBare c := by
  rcases h with digit | rfl | rfl | rfl
  · refine ⟨?_, ?_, ?_⟩
    all_goals
      rintro rfl
      exact absurd digit (by decide)
  all_goals decide

inductive Ends : List Char → Prop
  | comma (rest : List Char) : Ends (',' :: rest)
  | bracket (rest : List Char) : Ends (']' :: rest)

theorem Ends.ne_bare {c : Char} {rest rest' : List Char} (ends : Ends rest) (bare : IsBare c) :
    rest ≠ c :: rest' := by
  cases ends with
  | comma =>
    rintro ⟨⟩
    exact bare.1 rfl
  | bracket =>
    rintro ⟨⟩
    exact bare.2.1 rfl

section

variable {cs ds rest rest' : List Char} (ends : Ends rest) (ends' : Ends rest')
include ends ends'

theorem bare_append_inj (hc : ∀ c ∈ cs, IsBare c) (hd : ∀ d ∈ ds, IsBare d)
    (same : cs ++ rest = ds ++ rest') : cs = ds ∧ rest = rest' := by
  induction cs generalizing ds with
  | nil =>
    cases ds with
    | nil => exact ⟨rfl, same⟩
    | cons d ds => exact absurd same (ends.ne_bare (hd d List.mem_cons_self))
  | cons c cs ih =>
    cases ds with
    | nil => exact absurd same.symm (ends'.ne_bare (hc c List.mem_cons_self))
    | cons d ds =>
      rw [List.forall_mem_cons] at hc hd
      rw [List.cons_append, List.cons_append, List.cons.injEq] at same
      obtain ⟨rfl, same⟩ := same
      obtain ⟨rfl, after⟩ := ih hc.2 hd.2 same
      exact ⟨rfl, after⟩

omit ends in
theorem quoted_ne_bare (hd : ∀ d ∈ ds, IsBare d) : quoteChars cs ++ rest ≠ ds ++ rest' := by
  intro same
  cases ds with
  | nil =>
    rw [List.nil_append] at same
    subst same
    cases ends'
  | cons d ds => exact (hd d List.mem_cons_self).2.2 (List.cons.inj same).1.symm

end

end Json

namespace Value

open Decimal Json

theorem json_quoted_or_bare (v : Value) :
    (∃ cs, v.json.toList = quoteChars cs) ∨ ∀ c ∈ v.json.toList, IsBare c := by
  have null : ∀ c ∈ "null".toList, IsBare c := by simp [IsBare]
  cases v with
  | null => exact .inr null
  | boolean b =>
    right
    cases b <;> simp [json, IsBare]
  | integer n => exact .inr fun c hc => (isNumeric_toString _ c hc).isBare
  | real x =>
    right
    cases finite : x.isFinite with
    | false => simpa [json, realText, finite] using null
    | true =>
      rw [json, toList_realText finite, List.forall_mem_append]
      refine ⟨?_, fun c hc => ((unsigned_magnitudeText _).numeric c hc).isBare⟩
      split <;> simp [IsBare]
  | text s => exact .inl ⟨s.toList, String.toList_ofList⟩
  | date s => exact .inl ⟨s.toList, String.toList_ofList⟩

/-- In a tuple the text of a value tells where it ends. -/
theorem json_append_inj {v w : Value} {rest rest' : List Char} (ends : Ends rest)
    (ends' : Ends rest') (same : v.json.toList ++ rest = w.json.toList ++ rest') :
    v.json = w.json ∧ rest = rest' := by
  rw [← String.toList_inj]
  rcases v.json_quoted_or_bare with ⟨cs, hv⟩ | hv <;>
    rcases w.json_quoted_or_bare with ⟨ds, hw⟩ | hw
  · rw [hv, hw] at same ⊢
    obtain ⟨rfl, after⟩ := quoteChars_append_inj same
    exact ⟨rfl, after⟩
  · rw [hv] at same
    exact absurd same (quoted_ne_bare ends' hw)
  · rw [hw] at same
    exact absurd same.symm (quoted_ne_bare ends hv)
  · exact bare_append_inj ends ends' hv hw same

theorem jsonTuple_inj {α : Type} {xs : List α} {f g : α → Value}
    (same : jsonTuple (xs.map f) = jsonTuple (xs.map g)) : ∀ x ∈ xs, (f x).json = (g x).json := by
  have lists := congrArg String.toList same
  simp only [jsonTuple, String.toList_append, String.toList_intercalate, List.map_map,
    List.append_assoc] at lists
  replace lists := List.append_cancel_left lists
  clear same
  induction xs with
  | nil => nofun
  | cons x xs ih =>
    rw [List.forall_mem_cons]
    cases xs with
    | nil =>
      simp only [List.map_cons, List.map_nil, List.intercalate_singleton] at lists
      exact ⟨(json_append_inj (.bracket []) (.bracket []) lists).1, nofun⟩
    | cons y ys =>
      simp only [List.map_cons, List.intercalate_cons_cons, List.append_assoc] at lists ih
      obtain ⟨first, others⟩ := json_append_inj (.comma _) (.comma _) lists
      exact ⟨first, ih (List.cons.inj others).2⟩

/-- The value is no infinity and no NaN. -/
def IsFinite : Value → Prop
  | real x => x.isFinite = true
  | _ => True

instance : DecidablePred IsFinite
  | real x => inferInstanceAs (Decidable (x.isFinite = true))
  | null | boolean _ | integer _ | text _ | date _ => inferInstanceAs (Decidable True)

theorem json_ne_null {v : Value} (h : v ≠ null) (finite : v.IsFinite) : v.json ≠ "null" := by
  intro same
  have notNumeric : ¬IsNumeric 'n' := by simp [IsNumeric]
  have letter : 'n' ∈ v.json.toList := by
    rw [same]
    decide
  have quoted (s : String) : quote s ≠ "null" := fun same => by
    have lists := congrArg String.toList same
    rw [quote, String.toList_ofList] at lists
    cases lists
  cases v with
  | null => exact h rfl
  | boolean b => cases b <;> exact absurd same (by decide)
  | integer n => exact notNumeric (isNumeric_toString n.toInt 'n' letter)
  | real x =>
    rw [json, toList_realText finite, List.mem_append] at letter
    rcases letter with sign | inside
    · split at sign <;> simp at sign
    · exact notNumeric ((unsigned_magnitudeText _).numeric 'n' inside)
  | text s => exact quoted s same
  | date s => exact quoted s same

theorem quote_inj {s t : String} (same : quote s = quote t) : s = t := by
  have lists := congrArg String.toList same
  rw [quote, quote, String.toList_ofList, String.toList_ofList] at lists
  exact String.toList_inj.mp (quoteChars_append_inj (congrArg (· ++ []) lists)).1

inductive Paired : Value → Value → Prop
  | booleans (a b : Bool) : Paired (boolean a) (boolean b)
  | integers (m n : Int64) : Paired (integer m) (integer n)
  | reals (x y : Binary64) : Paired (real x) (real y)
  | texts (s t : String) : Paired (text s) (text t)
  | dates (s t : String) : Paired (date s) (date t)

theorem paired_of_admits {type : ColumnType} {v w : Value} (hv : type.admits v = true)
    (hw : type.admits w = true) (some : v ≠ null) (some' : w ≠ null) : Paired v w := by
  cases v <;> first | exact absurd rfl some | cases type <;> cases hv
  all_goals cases w <;> first | exact absurd rfl some' | cases hw
  all_goals constructor

/-- Values of one type have different texts, infinities and NaN aside. -/
theorem json_inj {type : ColumnType} {v w : Value} (hv : type.admits v = true)
    (hw : type.admits w = true) (finite : v.IsFinite) (finite' : w.IsFinite)
    (same : v.json = w.json) : v = w := by
  by_cases none : v = null
  · subst none
    by_contra differs
    exact json_ne_null (Ne.symm differs) finite' same.symm
  by_cases none' : w = null
  · subst none'
    exact absurd same (json_ne_null none finite)
  cases paired_of_admits hv hw none none' with
  | booleans a b => cases a <;> cases b <;> first | rfl | exact absurd same (by decide)
  | integers m n =>
    have numbers : wholeOf (toString m.toInt).toList = wholeOf (toString n.toInt).toList :=
      congrArg (wholeOf ·.toList) same
    rw [wholeOf_toString, wholeOf_toString, Int64.toInt_inj] at numbers
    rw [numbers]
  | reals x y => exact congrArg real (realText_injective finite finite' same)
  | texts s t => exact congrArg text (quote_inj same)
  | dates s t => exact congrArg date (quote_inj same)

end Value
end SqlEngine
