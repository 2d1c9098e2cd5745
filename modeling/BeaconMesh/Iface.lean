import BeaconMesh.Json.Record
import BeaconMesh.Json.Printer

/-!
# Interfaces

The links a node takes part in. A node numbers them from zero, so that a number is also a
position in its list of interfaces.
-/

namespace BeaconMesh

abbrev IfaceId := Nat

def IfaceId.text (id : IfaceId) : String := "if" ++ toString id

/-- An interface of a node. -/
structure Iface where
  id : IfaceId
  name : String
  addr : Addr
  deriving DecidableEq, Repr

namespace Iface

open Json (Value)

def keys : List String := ["id", "name", "addr"]

def toJson (i : Iface) : Value :=
  .record [("id", .nat i.id), ("name", .text i.name), ("addr", .text i.addr.text)]

/-- The interface that a JSON value describes; no field may be missing. -/
def ofJson? (v : Value) : Option Iface := do
  match ← Json.recordFields? keys v with
  | [id, name, addr] =>
    return {
      id := (← Json.required Json.uint16? id).toNat
      name := ← Json.required Value.text? name
      addr := ← Json.required Json.addr? addr }
  | _ => none

def parse? (text : String) : Option Iface := (Json.parse? text).bind ofJson?

end Iface

/-- The next hop on a path: a neighbour, and the interface it is reached on. -/
structure Hop where
  addr : Addr
  iface : IfaceId
  deriving DecidableEq, Repr

end BeaconMesh
