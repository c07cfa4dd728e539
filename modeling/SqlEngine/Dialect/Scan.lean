import SqlEngine.Dialect.Lexeme
import SqlEngine.Text.Blank

/-! Cutting a source text into tokens. Between tokens stand blanks, line comments and block
comments; the last token marks the end of the text. -/

namespace SqlEngine.Dialect

inductive LexFault where
  | openComment
  | openString
  | strayCharacter (c : Char)
deriving DecidableEq, Repr

def LexFault.message : LexFault → String
  | openComment => "unterminated block comment"
  | openString => "unterminated string"
  | strayCharacter c => "unexpected character '" ++ c.toString ++ "'"

structure LexError where
  fault : LexFault
  offset : Nat
deriving DecidableEq, Repr

structure Place where
  rest : List Char
  offset : Nat
deriving DecidableEq, Repr

/-- What the text between two tokens is inside of. A block comment remembers where it opened. -/
inductive Gap where
  | blank
  | line
  | block (opened : Nat)

def skipGap : Gap → List Char → Nat → Except LexError Place
  | .block opened, [], _ => .error ⟨.openComment, opened⟩
  | .block _, '*' :: '/' :: rest, n => skipGap .blank rest (n + 2)
  | .block opened, c :: rest, n => skipGap (.block opened) rest (n + c.utf8Size)
  | .line, [], n => .ok ⟨[], n⟩
  | .line, c :: rest, n => skipGap (if c = '\n' then .blank else .line) rest (n + c.utf8Size)
  | .blank, [], n => .ok ⟨[], n⟩
  | .blank, '-' :: '-' :: rest, n => skipGap .line rest (n + 2)
  | .blank, '/' :: '*' :: rest, n => skipGap (.block n) rest (n + 2)
  | .blank, c :: rest, n =>
    if Text.isBlank c then skipGap .blank rest (n + c.utf8Size) else .ok ⟨c :: rest, n⟩

def isWordStart (c : Char) : Bool := c.isAlpha || c == '_'

def isWordPart (c : Char) : Bool := c.isAlphanum || c == '_'

/-- The body of a string after its opening quote and the text after its closing one, with the bytes
passed. A doubled quote stands for one. -/
def readString? (quote : Char) : List Char → Option (List Char × List Char × Nat)
  | [] => none
  | c :: rest =>
    if c = quote then
      match rest with
      | d :: more =>
        if d = quote then
          (readString? quote more).map fun (body, after, n) =>
            (quote :: body, after, n + 2 * quote.utf8Size)
        else some ([], d :: more, quote.utf8Size)
      | [] => some ([], [], quote.utf8Size)
    else (readString? quote rest).map fun (body, after, n) =>
      (c :: body, after, n + c.utf8Size)

def readNumber (cs : List Char) : List Char × List Char :=
  let (whole, rest) := cs.span Char.isDigit
  match rest with
  | '.' :: d :: more =>
    if d.isDigit then
      let (places, after) := (d :: more).span Char.isDigit
      (whole ++ '.' :: places, after)
    else (whole, rest)
  | _ => (whole, rest)

def wordLexeme (word : String) : Lexeme :=
  match Keyword.ofWord? word with
  | some k => .keyword k
  | none => .identifier word

def readSymbol? : List Char → Option (Symbol × Nat)
  | '!' :: '=' :: _ => some (.notEqual, 2)
  | '<' :: '=' :: _ => some (.lessEqual, 2)
  | '<' :: '>' :: _ => some (.notEqual, 2)
  | '>' :: '=' :: _ => some (.greaterEqual, 2)
  | '<' :: _ => some (.less, 1)
  | '>' :: _ => some (.greater, 1)
  | '=' :: _ => some (.equal, 1)
  | '+' :: _ => some (.plus, 1)
  | '-' :: _ => some (.minus, 1)
  | '*' :: _ => some (.star, 1)
  | '(' :: _ => some (.openParen, 1)
  | ')' :: _ => some (.closeParen, 1)
  | ',' :: _ => some (.comma, 1)
  | ';' :: _ => some (.semicolon, 1)
  | '.' :: _ => some (.dot, 1)
  | _ => none

def readToken (c : Char) (rest : List Char) (start : Nat) : Except LexError (Token × Place) :=
  if c = '\'' ∨ c = '"' then
    match readString? c rest with
    | some (body, after, n) =>
      let stop := start + c.utf8Size + n
      .ok (⟨.string (String.ofList body), start, stop⟩, ⟨after, stop⟩)
    | none => .error ⟨.openString, start⟩
  else if c.isDigit then
    let (digits, after) := readNumber (c :: rest)
    let stop := start + digits.length
    .ok (⟨.number (String.ofList digits), start, stop⟩, ⟨after, stop⟩)
  else if isWordStart c then
    let (word, after) := (c :: rest).span isWordPart
    let stop := start + word.length
    .ok (⟨wordLexeme (String.ofList word), start, stop⟩, ⟨after, stop⟩)
  else match readSymbol? (c :: rest) with
    | some (s, n) => .ok (⟨.symbol s, start, start + n⟩, ⟨(c :: rest).drop n, start + n⟩)
    | none => .error ⟨.strayCharacter c, start⟩

/-- The tokens from a place on. Each token but the last takes a character, so that one more than
the length of the text is enough `fuel`. -/
def tokensFrom : (fuel : Nat) → Place → Except LexError (List Token)
  | 0, place => .ok [⟨.finish, place.offset, place.offset⟩]
  | fuel + 1, place => do
    let next ← skipGap .blank place.rest place.offset
    match next.rest with
    | [] => .ok [⟨.finish, next.offset, next.offset⟩]
    | c :: rest =>
      let (token, after) ← readToken c rest next.offset
      return token :: (← tokensFrom fuel after)

def tokens (source : String) : Except LexError (List Token) :=
  let cs := source.toList
  tokensFrom (cs.length + 1) ⟨cs, 0⟩

def sliceChars : (cs : List Char) → (offset start stop : Nat) → List Char
  | [], _, _, _ => []
  | c :: rest, offset, start, stop =>
    if stop ≤ offset then []
    else
      let more := sliceChars rest (offset + c.utf8Size) start stop
      if start ≤ offset then c :: more else more

def slice (source : String) (start stop : Nat) : String :=
  String.ofList (sliceChars source.toList 0 start stop)

def Token.written (t : Token) (source : String) : String := slice source t.start t.stop

end SqlEngine.Dialect
