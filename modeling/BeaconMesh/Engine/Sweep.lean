import BeaconMesh.Engine.Basic

/-!
# Sweeps

A sweep forgets whatever was silent for too long: originators, links, hosts and gateways. Routes
that lost their link are selected anew, and the gateway is chosen.
-/

namespace BeaconMesh

/-- Forgets stale links; if there were any, the route is selected anew. -/
def Originator.prune (o : Originator) (now timeout : Time) : Originator × Option RouteChange :=
  if o.hasStaleLink now timeout then (o.dropStaleLinks now timeout).reselect o.route
  else (o.dropStaleLinks now timeout, none)

namespace Engine

/-- Forgets an originator with its route, its hosts and its gateway entry. -/
def forget (now : Time) (e : Engine) (a : Addr) : Engine :=
  match e.origins.get? a with
  | some o =>
    { e with
      origins := e.origins.erase a
      hosts := e.hosts.removeOwner a
      gateways := e.gateways.markDeleted a now }.notify o.removeRoute.2.toList
  | none => e

def forgetStale (e : Engine) (now : Time) : Engine :=
  (e.origins.stale now e.setup.timeout).foldl (forget now) e

def pruneLinks (e : Engine) (now : Time) : Engine :=
  let pruned (o : Originator) := o.prune now e.setup.timeout
  { e with origins := e.origins.map fun o => (pruned o).1 }.notify
    (e.origins.toList.filterMap fun o => (pruned o).2)

def expireHosts (e : Engine) (now : Time) : Engine :=
  let (hosts, origins) := e.hosts.purge e.origins now e.setup.config.hostAge.toNat
  { e with hosts, origins }

/-- Forgets old gateway entries and chooses the gateway, if one is wanted. -/
def chooseGateway (e : Engine) (now : Time) : Engine :=
  let gateways := e.gateways.purge now e.setup.timeout
  let c := e.setup.config
  if c.routingClass = 0 then { e with gateways }
  else
    { e with
      gateways :=
        gateways.setCurrent (gateways.choose e.origins c.routingClass c.preferredGateway) }

/-- Sets the time of the next sweep, unless sweeps are off. -/
def rearm (e : Engine) (now : Time) : Engine :=
  { e with
    nextSweep := e.nextSweep.map fun _ => Clock.later now e.setup.config.sweepInterval.toNat }

def sweep (e : Engine) (now : Time) : Engine :=
  ((((e.forgetStale now).pruneLinks now).expireHosts now).chooseGateway now).rearm now

/-- A time at which everything that is known now is stale. -/
def flushTime (e : Engine) (now : Time) : Time :=
  Clock.later (Clock.later now (Clock.times e.setup.timeout 5)) e.setup.config.interval.toNat

/-- Removes every route by a sweep far ahead, and drops what was to be sent. -/
def shutdown (e : Engine) (now : Time) : Engine :=
  let e := { e with nextSweep := none }.sweep (e.flushTime now)
  { e with scheduler := e.scheduler.clear }

end Engine

end BeaconMesh
