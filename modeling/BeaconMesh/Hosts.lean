import BeaconMesh.Originator.Table
import BeaconMesh.Wire.Codec

/-!
# Bridged hosts

Hosts that do not speak the protocol are reached through the node that bridges them. Those seen
on our own bridge are announced in our beacons; the others follow the announcements of the nodes
that own them. `HostTable.applyRemote` keeps the table and the host sets of the originators in
step.
-/

namespace BeaconMesh

/-- The node that bridges a host. -/
inductive Owner where
  | here
  | node (addr : Addr)
  deriving DecidableEq, Repr

/-- A bridged host. -/
structure HostEntry where
  host : Addr
  owner : Owner
  lastRefresh : Time
  deriving DecidableEq, Repr

/-- The bridged hosts, with the announcement list for our beacons. -/
structure HostTable where
  entries : AddrMap HostEntry := .empty
  /-- Whether the table was changed since the announcement list was made. -/
  changed : Bool := false
  buffer : Bytes := []
  /-- The most hosts that one beacon can announce. -/
  capacity : Nat
  /-- Our own addresses, which are never learned from a frame. -/
  own : AddrSet
  deriving DecidableEq

namespace HostTable

/-- How many hosts fit into a beacon of a size. -/
def capacityOf (maxPacketSize : Nat) : Nat :=
  min ((maxPacketSize - Wire.beaconHeader) / Addr.length) Wire.maxHosts

def new (maxPacketSize : Nat) (own : List Addr) : HostTable :=
  { capacity := capacityOf maxPacketSize, own := .ofList own }

def get? (t : HostTable) (host : Addr) : Option HostEntry := t.entries.get? host

/-- The owner of a host, if it is known. -/
def owner? (t : HostTable) (host : Addr) : Option Owner := (t.get? host).map HostEntry.owner

def size (t : HostTable) : Nat := t.entries.size

def toList (t : HostTable) : List HostEntry := t.entries.values

/-- The hosts that we announce, in ascending address order. -/
def localHosts (t : HostTable) : List Addr :=
  (t.entries.filter fun _ e => e.owner = .here).keys

def put (t : HostTable) (e : HostEntry) : HostTable :=
  { t with entries := t.entries.insert e.host e }

def assign (t : HostTable) (host : Addr) (owner : Owner) (now : Time) : HostTable :=
  { t.put { host, owner, lastRefresh := now } with changed := true }

/-! ### Hosts on our bridge -/

/-- Whether a frame from a host would make the host known. -/
def learns (t : HostTable) (host : Addr) : Bool :=
  host.isLearnable && ! t.own.contains host && ! t.entries.contains host

/-- A frame came from a host on our bridge. A host that another node owns is left to it. -/
def learn (t : HostTable) (host : Addr) (now : Time) : HostTable :=
  if t.learns host then t.assign host .here now
  else if host.isLearnable && ! t.own.contains host then
    { t with entries := t.entries.modify host fun e =>
        if e.owner = .here then { e with lastRefresh := now } else e }
  else t

/-- Makes the announcement list anew if the table has changed. Hosts beyond the capacity are
left out. -/
def refresh (t : HostTable) : HostTable :=
  if t.changed then
    { t with buffer := Wire.hostBytes (t.localHosts.take t.capacity), changed := false }
  else t

/-! ### Hosts of other nodes -/

/-- A node no longer announces a host. A host that it does not own is left alone. -/
def withdraw (orig : Addr) (t : HostTable) (host : Addr) : HostTable :=
  if t.owner? host = some (.node orig) then
    { t with entries := t.entries.erase host, changed := true }
  else t

/-- A node announces a host: it is refreshed if the node owns it already, and else taken from
its owner. -/
def announce (orig : Addr) (now : Time) (tables : HostTable × Origins) (host : Addr) :
    HostTable × Origins :=
  let (t, origins) := tables
  match t.owner? host with
  | some (.node owner) =>
    if owner = orig then
      (t.put { host, owner := .node orig, lastRefresh := now }, origins)
    else
      (t.assign host (.node orig) now,
        origins.modify owner fun o => { o with hosts := o.hosts.erase host })
  | _ => (t.assign host (.node orig) now, origins)

/-- Applies the announcement list of a known node. Addresses that cannot name a host are left
out, and hosts that the list no longer holds are withdrawn. -/
def applyRemote (t : HostTable) (origins : Origins) (orig : Addr) (hosts : List Addr)
    (now : Time) : HostTable × Origins :=
  match origins.get? orig with
  | none => (t, origins)
  | some o =>
    let announced := AddrSet.ofList (hosts.filter Addr.isLearnable)
    let kept := (AddrSet.diff o.hosts announced).keys.foldl (withdraw orig) t
    let (t, origins) := announced.keys.foldl (announce orig now) (kept, origins)
    (t, origins.modify orig fun o => { o with hosts := announced })

def ownedBy (orig : Addr) (e : HostEntry) : Bool := e.owner = .node orig

def countOwned (t : HostTable) (orig : Addr) : Nat := t.toList.countP (ownedBy orig)

def removeOwner (t : HostTable) (orig : Addr) : HostTable :=
  { t with
    entries := t.entries.filter fun _ e => ! ownedBy orig e
    changed := t.changed || t.countOwned orig != 0 }

/-! ### Ageing -/

/-- Whether a host was not refreshed for longer than `age`. Our own addresses do not age. -/
def isExpired (t : HostTable) (now age : Time) (e : HostEntry) : Bool :=
  ! t.own.contains e.host && Clock.overdue e.lastRefresh age now

def expired (t : HostTable) (now age : Time) : List HostEntry :=
  t.toList.filter (t.isExpired now age)

/-- Forgets a host, and takes it off its owner's announcements. -/
def forget (tables : HostTable × Origins) (e : HostEntry) : HostTable × Origins :=
  let (t, origins) := tables
  ({ t with entries := t.entries.erase e.host, changed := true },
    match e.owner with
    | .node owner => origins.modify owner fun o => { o with hosts := o.hosts.erase e.host }
    | .here => origins)

def purge (t : HostTable) (origins : Origins) (now age : Time) : HostTable × Origins :=
  (t.expired now age).foldl forget (t, origins)

end HostTable

end BeaconMesh
