import SqlEngine.Value

/-! A row maps column names to values. Its entries keep the order of first assignment, and
assigning a name again replaces the value in place. -/

namespace SqlEngine

structure Row where
  entries : List (String × Value)
deriving DecidableEq, Inhabited

namespace Row

def empty : Row := ⟨[]⟩

def names (r : Row) : List String := r.entries.map (·.1)

def find? (name : String) : List (String × Value) → Option Value
  | [] => none
  | (key, value) :: rest => if name = key then some value else find? name rest

def get? (r : Row) (name : String) : Option Value := find? name r.entries

def get (r : Row) (name : String) : Value := (r.get? name).getD .null

def assign (name : String) (value : Value) : List (String × Value) → List (String × Value)
  | [] => [(name, value)]
  | (key, old) :: rest =>
    if name = key then (key, value) :: rest else (key, old) :: assign name value rest

def put (r : Row) (name : String) (value : Value) : Row := ⟨assign name value r.entries⟩

def putAll (r : Row) (entries : List (String × Value)) : Row :=
  entries.foldl (fun row entry => row.put entry.1 entry.2) r

def ofEntries (entries : List (String × Value)) : Row := empty.putAll entries

def nulls (names : List String) : Row := ofEntries (names.map fun name => (name, .null))

theorem find?_assign (name other : String) (value : Value) (entries : List (String × Value)) :
    find? other (assign name value entries) =
      if other = name then some value else find? other entries := by
  induction entries with
  | nil => rfl
  | cons entry rest ih =>
    obtain ⟨key, old⟩ := entry
    by_cases hk : name = key
    · subst hk
      by_cases h : other = name <;> simp [assign, find?, h]
    · by_cases ho : other = key
      · subst ho
        simp [assign, find?, hk, Ne.symm hk]
      · simp [assign, find?, hk, ho, ih]

@[simp] theorem get?_put (r : Row) (name other : String) (value : Value) :
    (r.put name value).get? other = if other = name then some value else r.get? other :=
  find?_assign name other value r.entries

@[simp] theorem get?_empty (name : String) : empty.get? name = none := rfl

end Row
end SqlEngine
