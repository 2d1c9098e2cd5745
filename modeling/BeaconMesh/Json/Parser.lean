import BeaconMesh.Json.Lexer

/-!
# Reading JSON

`parse?` reads a text of the grammar of RFC 8259. The tokens drive a machine with an explicit
stack, so values may be nested to any depth.
-/

namespace BeaconMesh.Json

/-- A value that is still open. Lists hold the latest element first. -/
inductive Frame where
  | array (items : List Value)
  | object (members : List (Text × Value)) (key : Text)

/-- What the tokens so far leave open, innermost frame first. -/
inductive Parser where
  | value (frames : List Frame)
  | firstItem (frames : List Frame)
  | firstKey (frames : List Frame)
  | key (members : List (Text × Value)) (frames : List Frame)
  | colon (members : List (Text × Value)) (key : Text) (frames : List Frame)
  | after (v : Value) (frames : List Frame)

namespace Parser

def begin? (frames : List Frame) : Token → Option Parser
  | .openArray => some (.firstItem frames)
  | .openObject => some (.firstKey frames)
  | .null => some (.after .null frames)
  | .bool b => some (.after (.bool b) frames)
  | .number n => some (.after (.number n) frames)
  | .string t => some (.after (.string t) frames)
  | _ => none

def step : Parser → Token → Option Parser
  | .value frames, t => begin? frames t
  | .firstItem frames, .closeArray => some (.after (.array []) frames)
  | .firstItem frames, t => begin? (.array [] :: frames) t
  | .firstKey frames, .closeObject => some (.after (.object []) frames)
  | .firstKey frames, .string k => some (.colon [] k frames)
  | .key members frames, .string k => some (.colon members k frames)
  | .colon members k frames, .colon => some (.value (.object members k :: frames))
  | .after v (.array items :: frames), .comma => some (.value (.array (v :: items) :: frames))
  | .after v (.array items :: frames), .closeArray =>
    some (.after (.array (v :: items).reverse) frames)
  | .after v (.object members k :: frames), .comma => some (.key ((k, v) :: members) frames)
  | .after v (.object members k :: frames), .closeObject =>
    some (.after (.object ((k, v) :: members).reverse) frames)
  | _, _ => none

end Parser

def ofTokens? (ts : List Token) : Option Value :=
  match ts.foldlM Parser.step (.value []) with
  | some (.after v []) => some v
  | _ => none

def parse? (s : String) : Option Value := (tokens? s.toList).bind ofTokens?

end BeaconMesh.Json
