import BeaconMesh.Addr.Basic
import BeaconMesh.Hex

/-!
# Written addresses

An address is twelve hexadecimal digits; `:` and `-` may stand anywhere and mean nothing.
`Addr.text` writes the canonical form, lowercase pairs between colons, and `parse_text` says
that it is read back.
-/

namespace BeaconMesh.Addr

/-- Why a text is not an address. -/
inductive ParseError where
  | invalidHex (cause : Hex.Error)
  | invalidLength (bytes : Nat)
  deriving DecidableEq, Repr

def isSeparator (c : Char) : Bool := c = ':' ∨ c = '-'

/-- The UTF-8 bytes of a text without its separators. -/
def digits (cs : List Char) : List UInt8 :=
  (cs.filter fun c => ! isSeparator c).flatMap String.utf8EncodeChar

def ofExactly (bytes : List UInt8) : Except ParseError Addr :=
  match read? bytes with
  | some (a, []) => .ok a
  | _ => .error (.invalidLength bytes.length)

/-- Reads the digits of an address, separators already removed. -/
def ofDigits (ds : List UInt8) : Except ParseError Addr :=
  match Hex.decode ds with
  | .ok bytes => ofExactly bytes
  | .error cause => .error (.invalidHex cause)

def parse (s : String) : Except ParseError Addr := ofDigits (digits s.toList)

def chars (a : Addr) : List Char :=
  Hex.encodeByte a.b₀ ++ ':' :: Hex.encodeByte a.b₁ ++ ':' :: Hex.encodeByte a.b₂ ++
    ':' :: Hex.encodeByte a.b₃ ++ ':' :: Hex.encodeByte a.b₄ ++ ':' :: Hex.encodeByte a.b₅

def text (a : Addr) : String := String.ofList a.chars

def describe (a : Addr) : String := "LinkAddr(" ++ a.text ++ ")"

/-! ### Messages -/

/-- The lowercase digits of a number in base sixteen. -/
def lowerHex (n : Nat) : String := String.ofList (Nat.toDigits 16 n)

/-- The Latin-1 character of a byte between quotes; control characters, blanks other than the
space, and the soft hyphen are written as escapes. -/
def quotedByte (b : UInt8) : String :=
  let body :=
    match b.toNat with
    | 0 => "\\0"
    | 9 => "\\t"
    | 10 => "\\n"
    | 13 => "\\r"
    | 39 => "\\'"
    | 92 => "\\\\"
    | n =>
      if n < 32 ∨ (127 ≤ n ∧ n ≤ 160) ∨ n = 173 then "\\u\x7b" ++ lowerHex n ++ "\x7d"
      else String.singleton (Char.ofNat n)
  "'" ++ body ++ "'"

def hexMessage : Hex.Error → String
  | .oddLength => "Odd number of digits"
  | .badDigit byte position =>
    "Invalid character " ++ quotedByte byte ++ " at position " ++ toString position

def ParseError.message : ParseError → String
  | .invalidHex cause => "Invalid hex in link address: " ++ hexMessage cause
  | .invalidLength bytes =>
    "Invalid link address length: expected 6 bytes, got " ++ toString bytes

/-! ### Writing, then reading -/

theorem utf8_encodeByte (b : UInt8) (rest : List Char) :
    digits (Hex.encodeByte b ++ rest) = Hex.asciiBytes (Hex.encodeByte b) ++ digits rest := by
  have key : ∀ n : Fin 16, isSeparator (Nat.digitChar n.val) = false ∧
      String.utf8EncodeChar (Nat.digitChar n.val) = [(Nat.digitChar n.val).toNat.toUInt8] := by
    decide
  have hi := key ⟨b.toNat / 16, by have := b.toNat_lt; omega⟩
  have lo := key ⟨b.toNat % 16, by omega⟩
  simp only [digits, Hex.encodeByte, Hex.asciiBytes, List.cons_append, List.nil_append,
    List.filter_cons, hi.1, lo.1, List.flatMap_cons, hi.2, lo.2, List.map_cons, List.map_nil,
    Bool.not_false, if_true]

theorem digits_separator (rest : List Char) : digits (':' :: rest) = digits rest := rfl

theorem digits_chars (a : Addr) : digits a.chars = Hex.asciiBytes (Hex.encode a.toBytes) := by
  have last := utf8_encodeByte a.b₅ []
  rw [List.append_nil] at last
  simp only [chars, List.append_assoc, List.cons_append, utf8_encodeByte, digits_separator, last]
  simp only [toBytes, Hex.encode, List.flatMap_cons, List.flatMap_nil, Hex.asciiBytes,
    List.map_append, List.map_nil]
  rfl

theorem parse_text (a : Addr) : parse a.text = .ok a := by
  rw [parse, text, String.toList_ofList, digits_chars, ofDigits, Hex.decode_encode]
  rfl

end BeaconMesh.Addr
