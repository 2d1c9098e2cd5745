import BeaconMesh.Originator.Route

/-!
# Known originators

`Origins` holds what is known of every node that was heard of, by address.
-/

namespace BeaconMesh

/-- The known nodes, and for how many interfaces echoes are counted. -/
structure Origins where
  entries : AddrMap Originator := .empty
  ifaces : Nat
  deriving DecidableEq

namespace Origins

def get? (t : Origins) (a : Addr) : Option Originator := t.entries.get? a

def contains (t : Origins) (a : Addr) : Bool := t.entries.contains a

def size (t : Origins) : Nat := t.entries.size

/-- What is known of a node, or of a new one. -/
def getOrNew (t : Origins) (a : Addr) (now : Time) : Originator :=
  (t.get? a).getD (.new a t.ifaces now)

def insert (t : Origins) (a : Addr) (o : Originator) : Origins :=
  { t with entries := t.entries.insert a o }

/-- Changes what is known of a node, which becomes known if it is not. -/
def upsert (t : Origins) (a : Addr) (now : Time) (f : Originator → Originator) : Origins :=
  t.insert a (f (t.getOrNew a now))

/-- Changes what is known of a node, if it is known. -/
def modify (t : Origins) (a : Addr) (f : Originator → Originator) : Origins :=
  { t with entries := t.entries.modify a f }

def map (t : Origins) (f : Originator → Originator) : Origins :=
  { t with entries := t.entries.map f }

def erase (t : Origins) (a : Addr) : Origins := { t with entries := t.entries.erase a }

def toList (t : Origins) : List Originator := t.entries.values

def stale (t : Origins) (now timeout : Time) : List Addr :=
  (t.entries.filter fun _ o => o.isStale now timeout).keys

/-! ### Look-ups -/

theorem get?_insert (t : Origins) (a b : Addr) (o : Originator) :
    (t.insert a o).get? b = if a = b then some o else t.get? b :=
  AddrMap.get?_insert t.entries a b o

theorem get?_upsert (t : Origins) (a b : Addr) (now : Time) (f : Originator → Originator) :
    (t.upsert a now f).get? b = if a = b then some (f (t.getOrNew a now)) else t.get? b :=
  get?_insert t a b _

theorem get?_modify (t : Origins) (a b : Addr) (f : Originator → Originator) :
    (t.modify a f).get? b = if a = b then (t.get? b).map f else t.get? b :=
  AddrMap.get?_modify t.entries a b f

theorem get?_map (t : Origins) (f : Originator → Originator) (a : Addr) :
    (t.map f).get? a = (t.get? a).map f :=
  AddrMap.get?_map f t.entries a

theorem get?_erase (t : Origins) (a b : Addr) :
    (t.erase a).get? b = if a = b then none else t.get? b :=
  AddrMap.get?_erase t.entries a b

theorem mem_stale_iff {t : Origins} {now timeout : Time} {a : Addr} :
    a ∈ t.stale now timeout ↔ ∃ o, t.get? a = some o ∧ o.isStale now timeout = true := by
  rw [stale, AddrMap.mem_keys_iff, AddrMap.contains_iff, AddrMap.get?_filter]
  simp only [Option.filter_eq_some_iff, get?]

end Origins

end BeaconMesh
