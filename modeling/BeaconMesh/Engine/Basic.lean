import BeaconMesh.Gateways
import BeaconMesh.Hosts
import BeaconMesh.Routes
import BeaconMesh.Scheduler

/-!
# The state of a node

An `Engine` is everything that a node knows, with what it has to send and to publish. It is
built from a `Setup`, a configuration and interfaces that were checked; `Setup.check` says what
can be wrong with them.
-/

namespace BeaconMesh

/-! ### Setup -/

/-- Why no node can be built. -/
inductive SetupError where
  | config (cause : ConfigError)
  | noInterfaces
  | misnumbered (name : String) (id expected : Nat)
  deriving DecidableEq, Repr

def SetupError.message : SetupError → String
  | .config cause => "Invalid configuration: " ++ cause.message
  | .noInterfaces => "No participating interfaces"
  | .misnumbered name id expected =>
    "Interface " ++ name ++ " has id " ++ toString id ++ ", expected " ++ toString expected

/-- A configuration that breaks no rule, and interfaces numbered from zero. -/
structure Setup where
  config : Config
  ifaces : List Iface
  valid : config.IsValid
  nonempty : ifaces ≠ []
  numbered : ∀ (i : Nat) (h : i < ifaces.length), ifaces[i].id = i

namespace Setup

/-- The first interface whose number is not its position, with its position. -/
def misnumbered? (ifaces : List Iface) : Option (Iface × Nat) :=
  ifaces.zipIdx.find? fun x => x.1.id ≠ x.2

theorem numbered_of_misnumbered? {ifaces : List Iface} (h : misnumbered? ifaces = none)
    (i : Nat) (hi : i < ifaces.length) : ifaces[i].id = i := by
  have mem : (ifaces[i], i) ∈ ifaces.zipIdx := by
    rw [List.mem_zipIdx_iff_getElem?]
    exact List.getElem?_eq_getElem hi
  have := List.find?_eq_none.mp h _ mem
  simpa using this

/-- Checks the configuration, that there are interfaces, and their numbers, in this order. -/
def check (config : Config) (ifaces : List Iface) : Except SetupError Setup :=
  match valid : config.problem? with
  | some cause => .error (.config cause)
  | none =>
    if nonempty : ifaces = [] then .error .noInterfaces
    else
      match numbered : misnumbered? ifaces with
      | some (iface, expected) => .error (.misnumbered iface.name iface.id expected)
      | none => .ok { config, ifaces, valid, nonempty, numbered := numbered_of_misnumbered? numbered }

/-- The address in whose name frames are flooded: that of the first interface. -/
def primary (s : Setup) : Addr := (s.ifaces.head s.nonempty).addr

def isMine (s : Setup) (a : Addr) : Bool := s.ifaces.any fun i => i.addr = a

def estimator (s : Setup) : Estimator := .ofConfig s.config

def pacing (s : Setup) : Pacing := .ofConfig s.config

def timeout (s : Setup) : Time := s.config.timeout.toNat

end Setup

/-! ### Work for others -/

/-- What a node has its surroundings do. -/
inductive Action where
  /-- Sends a packet to a neighbour, or to all of them. -/
  | transmit (iface : IfaceId) (dest : Addr) (payload : Bytes)
  /-- Hands a frame to the bridge. -/
  | deliver (frame : Bytes)
  deriving DecidableEq, Repr

/-- Why a packet or a frame goes no further. -/
inductive DropReason where
  | malformed
  | incompatibleVersion
  | unknownInterface
  /-- The sender has one of our addresses. -/
  | ownSender
  /-- The sender has the broadcast address. -/
  | broadcastSender
  /-- A beacon of ours came back. -/
  | ownBeacon
  /-- The beacon is an echo over a one-way link. -/
  | oneWay
  /-- A frame flooded by us came back. -/
  | ownFlood
  | unknownOriginator
  | duplicate
  | ttlExceeded
  | noRoute
  | bridgedHere
  deriving DecidableEq, Repr

/-- What became of a frame. -/
inductive FrameOutcome where
  | sent
  | flooded
  | delivered
  | forwarded
  | dropped (reason : DropReason)
  deriving DecidableEq, Repr

/-- What became of a packet. -/
inductive PacketOutcome where
  | beacon (duplicate twoWay relayed : Bool)
  | late
  | data (outcome : FrameOutcome)
  | dropped (reason : DropReason)
  deriving DecidableEq, Repr

/-! ### State -/

/-- The numbers of our beacons on one interface. -/
structure Counter where
  next : Seqno := 1
  lastSent : Option Seqno := none
  deriving DecidableEq, Repr

/-- Everything that a node knows, has to send and has to publish. -/
structure Engine where
  setup : Setup
  counters : List Counter
  /-- The number of the last frame that we flooded. -/
  floodSeqno : Seqno := 0
  origins : Origins
  hosts : HostTable
  gateways : GatewayList := {}
  scheduler : Scheduler
  /-- When the next sweep is due; none before the start and after the end. -/
  nextSweep : Option Time := none
  /-- Work for others that was not taken yet, the oldest first. -/
  outbox : List Action := []
  /-- Route changes that were not taken yet, the oldest first. -/
  notices : List RouteChange := []

/-- The sizes of the tables of a node. -/
structure Summary where
  originators : Nat
  routed : Nat
  links : Nat
  tasks : Nat
  hosts : Nat
  localHosts : Nat
  gateways : Nat
  deriving DecidableEq, Repr

namespace Engine

/-- A node that knows nothing and has not started. -/
def new (setup : Setup) (jitter : Jitter) : Engine where
  setup
  counters := List.replicate setup.ifaces.length {}
  origins := { ifaces := setup.ifaces.length }
  hosts := .new setup.config.maxPacketSize.toNat (setup.ifaces.map Iface.addr)
  scheduler := { jitter }

/-- Whether an address is that of one of our interfaces. -/
def isMine (e : Engine) (a : Addr) : Bool := e.setup.isMine a

def route? (e : Engine) (dest : Addr) : Option Link :=
  (e.origins.get? dest).bind Originator.routeLink?

def emit (e : Engine) (actions : List Action) : Engine :=
  { e with outbox := e.outbox ++ actions }

def notify (e : Engine) (changes : List RouteChange) : Engine :=
  { e with notices := e.notices ++ changes }

def transmitEverywhere (e : Engine) (payload : Bytes) : Engine :=
  e.emit (e.setup.ifaces.map fun i => .transmit i.id .broadcast payload)

def takeActions (e : Engine) : List Action × Engine := (e.outbox, { e with outbox := [] })

def takeNotices (e : Engine) : List RouteChange × Engine := (e.notices, { e with notices := [] })

def nextDeadline? (e : Engine) : Option Time :=
  match e.scheduler.nextDue?, e.nextSweep with
  | some a, some b => some (min a b)
  | a, b => a.or b

def summary (e : Engine) : Summary where
  originators := e.origins.size
  routed := e.origins.toList.countP fun o => o.route.isSome
  links := e.origins.toList.foldl (fun count o => count + o.links.length) 0
  tasks := e.scheduler.size
  hosts := e.hosts.size
  localHosts := e.hosts.localHosts.length
  gateways := e.gateways.activeCount

end Engine

end BeaconMesh
