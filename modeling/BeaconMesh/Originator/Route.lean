import BeaconMesh.Originator.Basic

/-!
# Route selection

Packets for a node take the link of the best average quality. Of equally good links the one in
use is kept, and otherwise the oldest is taken; a link whose average is zero is never used.
Every change of a route is described by a `RouteChange`.
-/

namespace BeaconMesh

/-- A route that was installed, moved or removed. -/
structure RouteChange where
  dest : Addr
  previous : Option Hop
  next : Option Hop
  deriving DecidableEq, Repr

namespace Originator

/-- The better of the best link so far and another one; a tie keeps the former. -/
def better (best : Option Link) (l : Link) : Option Link :=
  if l.average = 0 then best
  else
    match best with
    | none => some l
    | some b => if l.average ≤ b.average then best else some l

/-- The first link of the best average, if an average is above zero. -/
def bestLink? (o : Originator) : Option Link := o.links.foldl better none

def choice? (o : Originator) : Option Hop :=
  match o.bestLink?, o.routeLink? with
  | none, _ => none
  | some best, some current =>
    if current.average = best.average then some current.hop else some best.hop
  | some best, none => some best.hop

/-- Installs or removes the route; a hop without a link is refused. -/
def install (o : Originator) (hop : Option Hop) : Originator :=
  match hop with
  | some h => if o.links.any fun l => l.hop = h then { o with route := hop } else o
  | none => { o with route := none }

/-- Selects the route anew after it was `previous`. Nothing happens if that is the choice. -/
def reselect (o : Originator) (previous : Option Hop) : Originator × Option RouteChange :=
  if o.choice? = previous then (o, none)
  else (o.install o.choice?, some { dest := o.addr, previous, next := o.choice? })

def updateRoute (o : Originator) : Originator × Option RouteChange := o.reselect o.route

def removeRoute (o : Originator) : Originator × Option RouteChange :=
  match o.route with
  | some hop =>
    ({ o with route := none }, some { dest := o.addr, previous := some hop, next := none })
  | none => (o, none)

/-- The average quality of the route, if there is one. -/
def routeQuality? (o : Originator) : Option Nat := o.routeLink?.map Link.average

end Originator

end BeaconMesh
