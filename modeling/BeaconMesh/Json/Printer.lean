import BeaconMesh.Json.Basic

/-!
# Writing JSON

`Value.compact` writes a value without blanks; `Value.pretty` writes a member or an item a line,
two blanks deeper each level. Both escape the same characters.
-/

namespace BeaconMesh.Json

def escapeChar (c : Char) : List Char :=
  match c with
  | '"' => ['\\', '"']
  | '\\' => ['\\', '\\']
  | '\x08' => ['\\', 'b']
  | '\x0c' => ['\\', 'f']
  | '\n' => ['\\', 'n']
  | '\r' => ['\\', 'r']
  | '\t' => ['\\', 't']
  | c =>
    if c.toNat < 32 then
      ['\\', 'u', '0', '0', Nat.digitChar (c.toNat / 16), Nat.digitChar (c.toNat % 16)]
    else [c]

/-- A string between quotes. A text that denotes no characters is written as an empty string. -/
def quote (t : Text) : String :=
  String.ofList ('"' :: (t.getD "").toList.flatMap escapeChar ++ ['"'])

def Number.text : Number → String
  | .integer negative n => if negative then "-" ++ toString n else toString n
  | .real literal => literal

def newLine (depth : Nat) : String := String.ofList ('\n' :: List.replicate (2 * depth) ' ')

namespace Value

mutual

def writeTo (out : String) : Value → String
  | .null => out ++ "null"
  | .bool b => out ++ if b then "true" else "false"
  | .number n => out ++ n.text
  | .string t => out ++ quote t
  | .array items => writeItems (out ++ "[") true items ++ "]"
  | .object members => writeMembers (out ++ "\x7b") true members ++ "\x7d"

/-- Appends items, a comma before each but the first. -/
def writeItems (out : String) (first : Bool) : List Value → String
  | [] => out
  | v :: rest => writeItems (writeTo (if first then out else out ++ ",") v) false rest

/-- Appends members, a comma before each but the first. -/
def writeMembers (out : String) (first : Bool) : List (Text × Value) → String
  | [] => out
  | (k, v) :: rest =>
    writeMembers (writeTo ((if first then out else out ++ ",") ++ quote k ++ ":") v) false rest

end

def compact (v : Value) : String := writeTo "" v

mutual

/-- The indented text of a value whose first line stands at `depth`. -/
def indented (depth : Nat) : Value → String
  | .null => "null"
  | .bool b => if b then "true" else "false"
  | .number n => n.text
  | .string t => quote t
  | .array [] => "[]"
  | .array items => "[" ++ indentedItems (depth + 1) true items ++ newLine depth ++ "]"
  | .object [] => "\x7b\x7d"
  | .object members =>
    "\x7b" ++ indentedMembers (depth + 1) true members ++ newLine depth ++ "\x7d"

/-- Items at `depth`, a comma before each but the first. -/
def indentedItems (depth : Nat) (first : Bool) : List Value → String
  | [] => ""
  | v :: rest =>
    (if first then "" else ",") ++ newLine depth ++ indented depth v ++
      indentedItems depth false rest

/-- Members at `depth`, a comma before each but the first. -/
def indentedMembers (depth : Nat) (first : Bool) : List (Text × Value) → String
  | [] => ""
  | (k, v) :: rest =>
    (if first then "" else ",") ++ newLine depth ++ quote k ++ ": " ++ indented depth v ++
      indentedMembers depth false rest

end

/-- The text of a value, a member or an item a line. -/
def pretty (v : Value) : String := indented 0 v

end Value

end BeaconMesh.Json
