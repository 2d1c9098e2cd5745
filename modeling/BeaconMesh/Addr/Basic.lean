/-!
# Link-layer addresses

`Addr` is the six-byte hardware address that names a node, an interface or a bridged host.
Addresses are ordered as six-digit numbers in base 256; `toNat_inj` says that the number
determines the address.
-/

namespace BeaconMesh

/-- A six-byte hardware address. -/
structure Addr where
  b₀ : UInt8
  b₁ : UInt8
  b₂ : UInt8
  b₃ : UInt8
  b₄ : UInt8
  b₅ : UInt8
  deriving DecidableEq, Repr

namespace Addr

def length : Nat := 6

def broadcast : Addr := ⟨255, 255, 255, 255, 255, 255⟩

def zero : Addr := ⟨0, 0, 0, 0, 0, 0⟩

instance : Inhabited Addr := ⟨zero⟩

def toBytes (a : Addr) : List UInt8 := [a.b₀, a.b₁, a.b₂, a.b₃, a.b₄, a.b₅]

/-- The address in the first six bytes, and what follows it. -/
def read? : List UInt8 → Option (Addr × List UInt8)
  | b₀ :: b₁ :: b₂ :: b₃ :: b₄ :: b₅ :: rest => some (⟨b₀, b₁, b₂, b₃, b₄, b₅⟩, rest)
  | _ => none

def ofBytes? (bytes : List UInt8) : Option Addr := (read? bytes).map (·.1)

def toNat (a : Addr) : Nat :=
  ((((a.b₀.toNat * 256 + a.b₁.toNat) * 256 + a.b₂.toNat) * 256 + a.b₃.toNat) * 256
    + a.b₄.toNat) * 256 + a.b₅.toNat

def isMulticast (a : Addr) : Bool :=
  a.b₀ = 1 ∧ a.b₁ = 0 ∧ a.b₂ = 0x5e ∧ a.b₃ < 128

/-- Whether the address can name a single bridged host. -/
def isLearnable (a : Addr) : Bool :=
  a ≠ broadcast ∧ a ≠ zero ∧ ¬ a.isMulticast

theorem isLearnable_iff {a : Addr} :
    a.isLearnable = true ↔ a ≠ broadcast ∧ a ≠ zero ∧ a.isMulticast = false := by
  rw [isLearnable, decide_eq_true_eq, Bool.not_eq_true]

/-! ### Bytes -/

@[simp] theorem length_toBytes (a : Addr) : a.toBytes.length = length := rfl

@[simp] theorem read?_toBytes_append (a : Addr) (rest : List UInt8) :
    read? (a.toBytes ++ rest) = some (a, rest) := rfl

@[simp] theorem ofBytes?_toBytes (a : Addr) : ofBytes? a.toBytes = some a := rfl

theorem eq_of_read? {bytes rest : List UInt8} {a : Addr} (h : read? bytes = some (a, rest)) :
    bytes = a.toBytes ++ rest := by
  unfold read? at h
  split at h
  · cases h; rfl
  · cases h

theorem read?_isSome {bytes : List UInt8} (h : length ≤ bytes.length) :
    ∃ a, read? bytes = some (a, bytes.drop length) := by
  match bytes with
  | _ :: _ :: _ :: _ :: _ :: _ :: _ => exact ⟨_, rfl⟩
  | [] | [_] | [_, _] | [_, _, _] | [_, _, _, _] | [_, _, _, _, _] => simp [length] at h

/-! ### Order -/

theorem toNat_inj {a b : Addr} (h : a.toNat = b.toNat) : a = b := by
  obtain ⟨a₀, a₁, a₂, a₃, a₄, a₅⟩ := a
  obtain ⟨b₀, b₁, b₂, b₃, b₄, b₅⟩ := b
  simp only [toNat] at h
  have := a₀.toNat_lt
  have := a₁.toNat_lt
  have := a₂.toNat_lt
  have := a₃.toNat_lt
  have := a₄.toNat_lt
  have := a₅.toNat_lt
  have := b₀.toNat_lt
  have := b₁.toNat_lt
  have := b₂.toNat_lt
  have := b₃.toNat_lt
  have := b₄.toNat_lt
  have := b₅.toNat_lt
  simp only [mk.injEq, ← UInt8.toNat_inj]
  omega

instance : LT Addr := ⟨fun a b => a.toNat < b.toNat⟩

instance (a b : Addr) : Decidable (a < b) := inferInstanceAs (Decidable (a.toNat < b.toNat))

theorem lt_iff {a b : Addr} : a < b ↔ a.toNat < b.toNat := Iff.rfl

theorem lt_irrefl (a : Addr) : ¬ a < a := Nat.lt_irrefl _

theorem lt_trans {a b c : Addr} (h : a < b) (h' : b < c) : a < c := Nat.lt_trans h h'

theorem ne_of_lt {a b : Addr} (h : a < b) : a ≠ b := by
  intro e
  rw [e] at h
  exact lt_irrefl b h

theorem lt_of_not_lt_of_ne {a b : Addr} (h : ¬ a < b) (hne : a ≠ b) : b < a := by
  have := mt toNat_inj hne
  simp only [lt_iff] at *
  omega

end Addr

end BeaconMesh
