/-!
# Hexadecimal text

`Hex.encode` writes bytes as pairs of lowercase digits and `Hex.decode` reads pairs back.
`decode_encode` says that reading undoes writing.
-/

namespace BeaconMesh.Hex

/-- The two digits of a byte, the high one first. -/
def encodeByte (b : UInt8) : List Char :=
  [Nat.digitChar (b.toNat / 16), Nat.digitChar (b.toNat % 16)]

def encode (bytes : List UInt8) : List Char := bytes.flatMap encodeByte

def text (bytes : List UInt8) : String := String.ofList (encode bytes)

/-- The value of an ASCII digit of either case. -/
def value? (b : UInt8) : Option UInt8 :=
  if 48 ≤ b ∧ b ≤ 57 then some (b - 48)
  else if 97 ≤ b ∧ b ≤ 102 then some (b - 87)
  else if 65 ≤ b ∧ b ≤ 70 then some (b - 55)
  else none

/-- Why a text is not a sequence of digit pairs. -/
inductive Error where
  | oddLength
  | badDigit (byte : UInt8) (position : Nat)
  deriving DecidableEq, Repr

def digitAt (position : Nat) (b : UInt8) : Except Error UInt8 :=
  match value? b with
  | some v => .ok v
  | none => .error (.badDigit b position)

/-- Reads pairs from `position` on; the first bad digit is reported. -/
def decodePairs (position : Nat) : List UInt8 → Except Error (List UInt8)
  | hi :: lo :: rest => do
    let h ← digitAt position hi
    let l ← digitAt (position + 1) lo
    let bytes ← decodePairs (position + 2) rest
    return (h * 16 + l) :: bytes
  | _ => .ok []

/-- Reads the ASCII text of digit pairs. An odd length is reported before any bad digit. -/
def decode (digits : List UInt8) : Except Error (List UInt8) :=
  if digits.length % 2 = 1 then .error .oddLength else decodePairs 0 digits

/-! ### Writing, then reading -/

/-- Digits are ASCII, so a digit's code is its one byte. -/
def asciiBytes (cs : List Char) : List UInt8 := cs.map fun c => c.toNat.toUInt8

theorem value?_digitChar (n : Fin 16) :
    value? (Nat.digitChar n.val).toNat.toUInt8 = some n.val.toUInt8 := by
  revert n; decide

theorem joinDigits (b : UInt8) :
    (b.toNat / 16).toUInt8 * 16 + (b.toNat % 16).toUInt8 = b := by
  apply UInt8.toNat_inj.mp
  have := b.toNat_lt
  simp only [UInt8.toNat_add, UInt8.toNat_mul, Nat.toUInt8, UInt8.toNat_ofNat']
  simp
  omega

theorem decodePairs_encode (position : Nat) (bytes : List UInt8) :
    decodePairs position (asciiBytes (encode bytes)) = .ok bytes := by
  induction bytes generalizing position with
  | nil => rfl
  | cons b rest ih =>
    have hi := value?_digitChar ⟨b.toNat / 16, by have := b.toNat_lt; omega⟩
    have lo := value?_digitChar ⟨b.toNat % 16, by omega⟩
    have step : asciiBytes (encode (b :: rest)) =
        (Nat.digitChar (b.toNat / 16)).toNat.toUInt8 ::
          (Nat.digitChar (b.toNat % 16)).toNat.toUInt8 :: asciiBytes (encode rest) := rfl
    rw [step, decodePairs, digitAt, digitAt, hi, lo]
    simp only [bind, Except.bind, pure, Except.pure, ih]
    rw [joinDigits]

theorem length_encode (bytes : List UInt8) : (encode bytes).length = 2 * bytes.length := by
  induction bytes with
  | nil => rfl
  | cons b rest ih =>
    have step : encode (b :: rest) = encodeByte b ++ encode rest := rfl
    rw [step, List.length_append, ih]
    simp only [encodeByte, List.length_cons, List.length_nil]
    omega

theorem decode_encode (bytes : List UInt8) : decode (asciiBytes (encode bytes)) = .ok bytes := by
  rw [decode, if_neg, decodePairs_encode]
  simp only [asciiBytes, List.length_map, length_encode]
  omega

end BeaconMesh.Hex
