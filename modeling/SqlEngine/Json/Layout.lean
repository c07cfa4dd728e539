import SqlEngine.Json.Scalar

/-! JSON texts over several lines, with two spaces for each level of nesting. -/

namespace SqlEngine.Json

inductive Layout where
  | scalar (text : String)
  | list (items : List Layout)
  | record (members : List (String × Layout))

namespace Layout

def ofText (s : String) : Layout := scalar (quote s)

def ofNat (n : Nat) : Layout := scalar (toString n)

def ofValue (v : Value) : Layout := scalar v.json

def indentation (level : Nat) : String := String.ofList (List.replicate (2 * level) ' ')

def enclosed (opening closing : String) (level : Nat) (parts : List String) : String :=
  if parts.isEmpty then opening ++ closing
  else
    let inner := "\n" ++ indentation (level + 1)
    opening ++ inner ++ ("," ++ inner).intercalate parts ++ "\n" ++ indentation level ++ closing

mutual

def text (level : Nat) : Layout → String
  | scalar s => s
  | list items => enclosed "[" "]" level (itemTexts (level + 1) items)
  | record members => enclosed "\x7b" "\x7d" level (memberTexts (level + 1) members)

def itemTexts (level : Nat) : List Layout → List String
  | [] => []
  | item :: rest => text level item :: itemTexts level rest

def memberTexts (level : Nat) : List (String × Layout) → List String
  | [] => []
  | (name, value) :: rest => (quote name ++ ": " ++ text level value) :: memberTexts level rest

end

end Layout
end SqlEngine.Json
