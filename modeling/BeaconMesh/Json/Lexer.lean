import BeaconMesh.Json.Basic

/-!
# JSON tokens

`tokens?` cuts a text into the tokens of RFC 8259, one character at a time: `Mode` is what the
characters so far leave open. No blank, sign or digit is accepted beyond that grammar.
-/

namespace BeaconMesh.Json

/-- A token. -/
inductive Token where
  | openArray
  | closeArray
  | openObject
  | closeObject
  | comma
  | colon
  | null
  | bool (b : Bool)
  | number (n : Number)
  | string (t : Text)
  deriving DecidableEq, Repr

/-! ### Strings -/

/-- One element of a string: a character, or the UTF-16 unit of a `\u` escape. -/
inductive Piece where
  | char (c : Char)
  | unit (u : Nat)
  deriving DecidableEq, Repr

/-- Whether a unit is the first half of a surrogate pair. -/
def isHighHalf (u : Nat) : Bool := 0xD800 ≤ u ∧ u < 0xDC00

/-- Whether a unit is the second half of a surrogate pair. -/
def isLowHalf (u : Nat) : Bool := 0xDC00 ≤ u ∧ u < 0xE000

/-- The characters of a string; surrogate halves must come in pairs. -/
def joinPieces : List Piece → Option (List Char)
  | [] => some []
  | .char c :: rest => (joinPieces rest).map (c :: ·)
  | .unit u :: .unit v :: rest =>
    if isHighHalf u then
      if isLowHalf v then
        (joinPieces rest).map (Char.ofNat (0x10000 + (u - 0xD800) * 0x400 + (v - 0xDC00)) :: ·)
      else none
    else if isLowHalf u then none
    else (joinPieces (.unit v :: rest)).map (Char.ofNat u :: ·)
  | .unit u :: rest =>
    if isHighHalf u || isLowHalf u then none else (joinPieces rest).map (Char.ofNat u :: ·)

def escapedChar? : Char → Option Char
  | '"' => some '"'
  | '\\' => some '\\'
  | '/' => some '/'
  | 'b' => some '\x08'
  | 'f' => some '\x0c'
  | 'n' => some '\n'
  | 'r' => some '\r'
  | 't' => some '\t'
  | _ => none

/-- The value of a hexadecimal digit of either case. -/
def hexValue? (c : Char) : Option Nat :=
  if '0' ≤ c ∧ c ≤ '9' then some (c.toNat - 48)
  else if 'a' ≤ c ∧ c ≤ 'f' then some (c.toNat - 87)
  else if 'A' ≤ c ∧ c ≤ 'F' then some (c.toNat - 55)
  else none

/-! ### Numbers -/

/-- How far a number literal has come. -/
inductive NumberPart where
  | sign
  | zero
  | whole
  | point
  | fraction
  | mark
  | markSign
  | exponent
  deriving DecidableEq, Repr

def NumberPart.isComplete : NumberPart → Bool
  | .zero | .whole | .fraction | .exponent => true
  | _ => false

/-- Where a character takes a literal, if it belongs to it. -/
def NumberPart.next? (part : NumberPart) (c : Char) : Option NumberPart :=
  match part with
  | .sign => if c = '0' then some .zero else if c.isDigit then some .whole else none
  | .zero => if c = '.' then some .point else if c = 'e' ∨ c = 'E' then some .mark else none
  | .whole =>
    if c.isDigit then some .whole
    else if c = '.' then some .point
    else if c = 'e' ∨ c = 'E' then some .mark
    else none
  | .point => if c.isDigit then some .fraction else none
  | .fraction =>
    if c.isDigit then some .fraction else if c = 'e' ∨ c = 'E' then some .mark else none
  | .mark =>
    if c.isDigit then some .exponent else if c = '+' ∨ c = '-' then some .markSign else none
  | .markSign | .exponent => if c.isDigit then some .exponent else none

def digitsValue (ds : List Char) : Nat := ds.foldl (fun n d => 10 * n + (d.toNat - 48)) 0

def Number.ofLiteral (literal : List Char) : Number :=
  match literal with
  | '-' :: ds => if ds.all Char.isDigit then .integer true (digitsValue ds)
    else .real (String.ofList literal)
  | ds => if ds.all Char.isDigit then .integer false (digitsValue ds)
    else .real (String.ofList literal)

/-! ### The machine -/

/-- What the characters so far leave open. Lists hold the latest element first. -/
inductive Mode where
  | between
  | word (rest : List Char) (token : Token)
  | number (part : NumberPart) (literal : List Char)
  | string (pieces : List Piece)
  | escape (pieces : List Piece)
  | unit (pieces : List Piece) (left value : Nat)
  deriving DecidableEq, Repr

/-- A mode and the tokens before it, the latest first. -/
structure Lexer where
  mode : Mode := .between
  tokens : List Token := []

def isBlank (c : Char) : Bool := c = ' ' ∨ c = '\t' ∨ c = '\n' ∨ c = '\r'

/-- The first character of a token, or a blank. -/
def Lexer.start (ts : List Token) (c : Char) : Option Lexer :=
  match c with
  | '[' => some ⟨.between, .openArray :: ts⟩
  | ']' => some ⟨.between, .closeArray :: ts⟩
  | '\x7b' => some ⟨.between, .openObject :: ts⟩
  | '\x7d' => some ⟨.between, .closeObject :: ts⟩
  | ',' => some ⟨.between, .comma :: ts⟩
  | ':' => some ⟨.between, .colon :: ts⟩
  | '"' => some ⟨.string [], ts⟩
  | 'n' => some ⟨.word ['u', 'l', 'l'] .null, ts⟩
  | 't' => some ⟨.word ['r', 'u', 'e'] (.bool true), ts⟩
  | 'f' => some ⟨.word ['a', 'l', 's', 'e'] (.bool false), ts⟩
  | '-' => some ⟨.number .sign ['-'], ts⟩
  | '0' => some ⟨.number .zero ['0'], ts⟩
  | c =>
    if c.isDigit then some ⟨.number .whole [c], ts⟩
    else if isBlank c then some ⟨.between, ts⟩
    else none

def Lexer.step (l : Lexer) (c : Char) : Option Lexer :=
  match l.mode with
  | .between => Lexer.start l.tokens c
  | .word [] _ => none
  | .word [d] token => if c = d then some ⟨.between, token :: l.tokens⟩ else none
  | .word (d :: rest) token => if c = d then some ⟨.word rest token, l.tokens⟩ else none
  | .number part literal =>
    match part.next? c with
    | some part' => some ⟨.number part' (c :: literal), l.tokens⟩
    | none =>
      if part.isComplete then
        Lexer.start (.number (.ofLiteral literal.reverse) :: l.tokens) c
      else none
  | .string pieces =>
    if c = '"' then
      some ⟨.between, .string ((joinPieces pieces.reverse).map String.ofList) :: l.tokens⟩
    else if c = '\\' then some ⟨.escape pieces, l.tokens⟩
    else if c.toNat < 32 then none
    else some ⟨.string (.char c :: pieces), l.tokens⟩
  | .escape pieces =>
    if c = 'u' then some ⟨.unit pieces 4 0, l.tokens⟩
    else (escapedChar? c).map fun d => ⟨.string (.char d :: pieces), l.tokens⟩
  | .unit pieces left value =>
    (hexValue? c).map fun v =>
      if left ≤ 1 then ⟨.string (.unit (16 * value + v) :: pieces), l.tokens⟩
      else ⟨.unit pieces (left - 1) (16 * value + v), l.tokens⟩

/-- The tokens of a whole text, unless it ends inside one. -/
def Lexer.finish? (l : Lexer) : Option (List Token) :=
  match l.mode with
  | .between => some l.tokens.reverse
  | .number part literal =>
    if part.isComplete then
      some (.number (.ofLiteral literal.reverse) :: l.tokens).reverse
    else none
  | _ => none

def tokens? (cs : List Char) : Option (List Token) := do
  let l ← cs.foldlM Lexer.step {}
  l.finish?

end BeaconMesh.Json
