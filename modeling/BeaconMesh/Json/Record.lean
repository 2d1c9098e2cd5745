import BeaconMesh.Json.Parser
import BeaconMesh.Addr.Text

/-!
# Records in JSON

A record with known keys is an object with each key at most once, unknown keys ignored, or an
array of the leading fields in order. `recordFields?` brings both into one form: for each key
its value, if there is one.
-/

namespace BeaconMesh.Json

/-- The one value under a key, if there is one; none at all when the key is repeated. -/
def soleMember? (members : List (Text × Value)) (key : String) : Option (Option Value) :=
  match members.filter fun m => m.1 = some key with
  | [] => some none
  | [m] => some (some m.2)
  | _ => none

/-- The values of the fields of a record. A key that denotes no text is refused. -/
def recordFields? (keys : List String) : Value → Option (List (Option Value))
  | .object members =>
    if members.any fun m => m.1 = none then none else keys.mapM (soleMember? members)
  | .array items =>
    if keys.length < items.length then none
    else some (items.map some ++ List.replicate (keys.length - items.length) none)
  | _ => none

def fieldOr {α : Type} (default : α) (read : Value → Option α) : Option Value → Option α
  | none => some default
  | some v => read v

def required {α : Type} (read : Value → Option α) : Option Value → Option α := (·.bind read)

def nullable {α : Type} (read : Value → Option α) : Value → Option (Option α)
  | .null => some none
  | v => (read v).map some

def natBelow? (bound : Nat) (v : Value) : Option Nat := v.nat?.filter (· < bound)

def uint8? (v : Value) : Option UInt8 := (natBelow? UInt8.size v).map UInt8.ofNat

def uint16? (v : Value) : Option UInt16 := (natBelow? UInt16.size v).map UInt16.ofNat

def uint32? (v : Value) : Option UInt32 := (natBelow? UInt32.size v).map UInt32.ofNat

def uint64? (v : Value) : Option UInt64 := (natBelow? UInt64.size v).map UInt64.ofNat

def addr? (v : Value) : Option Addr := v.text?.bind fun s => (Addr.parse s).toOption

end BeaconMesh.Json
