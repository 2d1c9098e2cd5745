import BeaconMesh.Json.Lexer

/-!
# Written JSON

The grammar of RFC 8259, apart from the machines that read it. A value is a row of tokens, a token
has one spelling or several, and blanks may stand before, between and after the tokens:
`Value.IsText v s` says that `s` is one of the texts of `v`.
-/

namespace BeaconMesh.Json

/-- A row of things, each with what it is written as, one after the other. -/
inductive Row {α : Type} (Written : α → List Char → Prop) : List α → List Char → Prop where
  | nil : Row Written [] []
  | cons {a : α} {as : List α} {cs rest : List Char} :
      Written a cs → Row Written as rest → Row Written (a :: as) (cs ++ rest)

namespace Row

variable {α : Type} {Written : α → List Char → Prop} {as bs : List α} {cs ds : List Char}

theorem single {a : α} (written : Written a cs) : Row Written [a] cs := by
  simpa using cons written nil

theorem append (first : Row Written as cs) (second : Row Written bs ds) :
    Row Written (as ++ bs) (cs ++ ds) := by
  induction first with
  | nil => exact second
  | cons written _ ih =>
    rw [List.append_assoc]
    exact cons written ih

end Row

/-! ### Strings -/

def IsHexDigit (c : Char) (n : Nat) : Prop :=
  n < 16 ∧ (c = Nat.digitChar n ∨ c = (Nat.digitChar n).toUpper)

/-- The letters of the short escapes and the characters they stand for. -/
def shortEscapes : List (Char × Char) :=
  [('"', '"'), ('\\', '\\'), ('/', '/'), ('b', '\x08'), ('f', '\x0c'), ('n', '\n'), ('r', '\r'),
   ('t', '\t')]

/-- What an element of a string is written as. -/
inductive Piece.Spelling : Piece → List Char → Prop where
  | plain {c : Char} : 32 ≤ c.toNat → c ≠ '"' → c ≠ '\\' → Spelling (.char c) [c]
  | short {letter c : Char} : (letter, c) ∈ shortEscapes → Spelling (.char c) ['\\', letter]
  | unit {h₃ h₂ h₁ h₀ : Char} {n₃ n₂ n₁ n₀ : Nat} :
      IsHexDigit h₃ n₃ → IsHexDigit h₂ n₂ → IsHexDigit h₁ n₁ → IsHexDigit h₀ n₀ →
      Spelling (.unit (16 * (16 * (16 * n₃ + n₂) + n₁) + n₀)) ['\\', 'u', h₃, h₂, h₁, h₀]

/-- The UTF-16 units of a character: outside the first plane, the halves of a surrogate pair. -/
def utf16 (c : Char) : List Nat :=
  if c.toNat < 0x10000 then [c.toNat]
  else [0xD800 + (c.toNat - 0x10000) / 0x400, 0xDC00 + (c.toNat - 0x10000) % 0x400]

/-- The characters that the elements of a string stand for. -/
inductive Denotes : List Piece → List Char → Prop where
  | nil : Denotes [] []
  | plain {ps : List Piece} {cs : List Char} (c : Char) : Denotes ps cs →
      Denotes (.char c :: ps) (c :: cs)
  | escaped {ps : List Piece} {cs : List Char} (c : Char) : Denotes ps cs →
      Denotes ((utf16 c).map .unit ++ ps) (c :: cs)

/-- The text of a string; there is none when half of a surrogate pair stands alone in it. -/
def IsTextOf (ps : List Piece) : Text → Prop
  | some s => Denotes ps s.toList
  | none => ∀ cs, ¬ Denotes ps cs

/-! ### Numbers

A fraction and an exponent may be missing.
-/

structure IsDigits (cs : List Char) : Prop where
  nonempty : cs ≠ []
  digits : ∀ c ∈ cs, c.isDigit

def IsFraction (cs : List Char) : Prop := cs = [] ∨ ∃ ds, IsDigits ds ∧ cs = '.' :: ds

def IsExponent (cs : List Char) : Prop :=
  cs = [] ∨ ∃ mark sign ds, (mark = 'e' ∨ mark = 'E') ∧ (sign = [] ∨ sign = ['+'] ∨ sign = ['-']) ∧
    IsDigits ds ∧ cs = mark :: (sign ++ ds)

/-- A whole number in decimal, without leading zeros. -/
def wholeNumber (negative : Bool) (n : Nat) : List Char :=
  (if negative then ['-'] else []) ++ Nat.toDigits 10 n

inductive Number.Spelling : Number → List Char → Prop where
  | integer (negative : Bool) (n : Nat) : Spelling (.integer negative n) (wholeNumber negative n)
  | real (negative : Bool) (n : Nat) {fraction exponent : List Char} : IsFraction fraction →
      IsExponent exponent → fraction ++ exponent ≠ [] →
      Spelling (.real (String.ofList (wholeNumber negative n ++ (fraction ++ exponent))))
        (wholeNumber negative n ++ (fraction ++ exponent))

/-! ### Tokens -/

def Token.symbol? : Token → Option Char
  | .openArray => some '['
  | .closeArray => some ']'
  | .openObject => some '\x7b'
  | .closeObject => some '\x7d'
  | .comma => some ','
  | .colon => some ':'
  | _ => none

inductive Token.Spelling : Token → List Char → Prop where
  | symbol {t : Token} {c : Char} : t.symbol? = some c → Spelling t [c]
  | null : Spelling .null ['n', 'u', 'l', 'l']
  | true : Spelling (.bool true) ['t', 'r', 'u', 'e']
  | false : Spelling (.bool false) ['f', 'a', 'l', 's', 'e']
  | number {n : Number} {cs : List Char} : n.Spelling cs → Spelling (.number n) cs
  | string {ps : List Piece} {t : Text} {cs : List Char} : Row Piece.Spelling ps cs →
      IsTextOf ps t → Spelling (.string t) ('"' :: (cs ++ ['"']))

/-- Any number of spaces, tabs and ends of lines. -/
def Blanks (cs : List Char) : Prop := ∀ c ∈ cs, c = ' ' ∨ c = '\t' ∨ c = '\n' ∨ c = '\r'

instance (cs : List Char) : Decidable (Blanks cs) := List.decidableBAll _ cs

/-- A spelled token after any blanks. -/
def Token.Spaced (t : Token) (cs : List Char) : Prop :=
  ∃ blanks spelling, Blanks blanks ∧ t.Spelling spelling ∧ cs = blanks ++ spelling

theorem Blanks.append {cs ds : List Char} (first : Blanks cs) (second : Blanks ds) :
    Blanks (cs ++ ds) := fun c mem => (List.mem_append.mp mem).elim (first c) (second c)

theorem Token.Spelling.after {t : Token} {cs blanks : List Char} (spelled : t.Spelling cs)
    (blank : Blanks blanks) : t.Spaced (blanks ++ cs) := ⟨blanks, cs, blank, spelled, rfl⟩

theorem Token.Spelling.spaced {t : Token} {cs : List Char} (spelled : t.Spelling cs) :
    t.Spaced cs := ⟨[], cs, by decide, spelled, rfl⟩

/-! ### Values -/

mutual

def Value.tokens : Value → List Token
  | .null => [.null]
  | .bool b => [.bool b]
  | .number n => [.number n]
  | .string t => [.string t]
  | .array [] => [.openArray, .closeArray]
  | .array (v :: rest) => .openArray :: (v.tokens ++ (moreItems rest ++ [.closeArray]))
  | .object [] => [.openObject, .closeObject]
  | .object ((k, v) :: rest) =>
    .openObject :: .string k :: .colon :: (v.tokens ++ (moreMembers rest ++ [.closeObject]))

/-- The tokens of the items after the first. -/
def moreItems : List Value → List Token
  | [] => []
  | v :: rest => .comma :: (v.tokens ++ moreItems rest)

/-- The tokens of the members after the first. -/
def moreMembers : List (Text × Value) → List Token
  | [] => []
  | (k, v) :: rest => .comma :: .string k :: .colon :: (v.tokens ++ moreMembers rest)

end

/-- A text of a value: its tokens, each in any of its spellings, and any blanks around them. -/
def Value.IsText (v : Value) (s : String) : Prop :=
  ∃ cs blanks, Row Token.Spaced v.tokens cs ∧ Blanks blanks ∧ s.toList = cs ++ blanks

theorem Value.tokens_head (v : Value) :
    ∃ t ts, v.tokens = t :: ts ∧ t ≠ .closeArray := by
  match v with
  | .null | .bool _ | .number _ | .string _ => simp [tokens]
  | .array [] | .array (_ :: _) | .object [] | .object ((_, _) :: _) => simp [tokens]

theorem Row.after_blanks {t : Token} {ts : List Token} {cs blanks : List Char}
    (row : Row Token.Spaced (t :: ts) cs) (blank : Blanks blanks) :
    Row Token.Spaced (t :: ts) (blanks ++ cs) := by
  obtain _ | ⟨⟨before, spelling, between, spelled, rfl⟩, rest⟩ := row
  rw [← List.append_assoc, ← List.append_assoc]
  exact .cons ⟨_, _, blank.append between, spelled, rfl⟩ rest

end BeaconMesh.Json
