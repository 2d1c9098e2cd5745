import BeaconMesh.Originator.Route

/-!
# Published routes

The routes as others see them: a table that follows the route changes of a node one by one.
-/

namespace BeaconMesh

/-- The next hop for each destination that has one. -/
abbrev RouteTable := AddrMap Hop

namespace RouteTable

def follow (t : RouteTable) (c : RouteChange) : RouteTable :=
  match c.next with
  | some hop => t.insert c.dest hop
  | none => t.erase c.dest

def followAll (t : RouteTable) (cs : List RouteChange) : RouteTable := cs.foldl follow t

def lookup (t : RouteTable) (dest : Addr) : Option Hop := t.get? dest

theorem lookup_follow (t : RouteTable) (c : RouteChange) (dest : Addr) :
    (t.follow c).lookup dest = if c.dest = dest then c.next else t.lookup dest := by
  unfold follow lookup
  split
  · rename_i hop h
    rw [AddrMap.get?_insert, h]
  · rename_i h
    rw [AddrMap.get?_erase, h]

end RouteTable

end BeaconMesh
