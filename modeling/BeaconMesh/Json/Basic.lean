/-!
# JSON values

`Value` is a JSON document. Objects keep their members in written order, repeated keys included,
and numbers keep the difference between an integer and a number with a fraction or an exponent.
-/

namespace BeaconMesh.Json

/-- A number: an integer with its sign, or any other literal as it was written. -/
inductive Number where
  | integer (negative : Bool) (magnitude : Nat)
  | real (literal : String)
  deriving DecidableEq, Repr

/-- The text of a string; `none` when an escape names half of a surrogate pair, which stands
for no character. -/
abbrev Text := Option String

/-- A JSON document. -/
inductive Value where
  | null
  | bool (b : Bool)
  | number (n : Number)
  | string (t : Text)
  | array (items : List Value)
  | object (members : List (Text × Value))
  deriving Repr

namespace Value

instance : Inhabited Value := ⟨null⟩

def nat (n : Nat) : Value := number (.integer false n)

def int (i : Int) : Value := number (.integer (i < 0) i.natAbs)

def text (s : String) : Value := string (some s)

def record (members : List (String × Value)) : Value :=
  object (members.map fun m => (some m.1, m.2))

def ofOption {α : Type} (f : α → Value) : Option α → Value
  | some a => f a
  | none => null

def nat? : Value → Option Nat
  | number (.integer false n) => some n
  | _ => none

def int? : Value → Option Int
  | number (.integer negative n) => some (if negative then -(n : Int) else n)
  | _ => none

def bool? : Value → Option Bool
  | bool b => some b
  | _ => none

def text? : Value → Option String
  | string t => t
  | _ => none

def items? : Value → Option (List Value)
  | array items => some items
  | _ => none

/-- The first member of an object under a key. -/
def member? (key : String) : Value → Option Value
  | object members => (members.find? fun m => m.1 = some key).map (·.2)
  | _ => none

end Value

end BeaconMesh.Json
