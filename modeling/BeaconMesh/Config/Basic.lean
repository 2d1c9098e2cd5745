import BeaconMesh.Addr.Basic
import BeaconMesh.Wire.Codec

/-!
# Configuration

`Config` holds the tunables of a node, with their defaults. `Config.problem?` is the first rule
that a configuration breaks; a node runs only with one that breaks none.
-/

namespace BeaconMesh

/-- The tunables of a node. Durations are in milliseconds. -/
structure Config where
  /-- The period of own beacons. -/
  interval : UInt64 := 1000
  /-- How far a period may be off either way. -/
  jitter : UInt64 := 100
  /-- The hops an own packet may take. -/
  ttl : UInt8 := 50
  /-- Whatever is silent for twice this long is forgotten. -/
  timeout : UInt64 := 200000
  /-- The period of sweeps. -/
  sweepInterval : UInt64 := 1000
  /-- The quality a relay takes off, out of the maximum. -/
  hopPenalty : UInt8 := 10
  /-- The quality of a perfect path. -/
  maxQuality : UInt8 := 255
  /-- The echoes a link needs before it has a quality. -/
  minEchoes : UInt32 := 1
  /-- The receptions a link needs before it has a quality. -/
  minReceived : UInt32 := 1
  /-- The quality from which on a link counts as usable in both directions. -/
  twoWayLimit : UInt8 := 1
  /-- How long a bridged host is remembered without a refresh. -/
  hostAge : UInt64 := 200000
  /-- The gateway class to advertise, zero for none. -/
  gatewayClass : UInt8 := 0
  /-- How a gateway is chosen: 0 never, 1 and 2 by class and quality, 3 by quality. -/
  routingClass : UInt8 := 0
  /-- The gateway to choose whenever it has a route. -/
  preferredGateway : Option Addr := none
  /-- The most bytes of one beacon. -/
  maxPacketSize : UInt64 := 1500
  /-- Where the jitter starts, if it is to be repeatable. -/
  seed : Option UInt64 := none
  deriving DecidableEq, Repr

/-- A duration that must not be too long. -/
inductive LimitedDuration where
  | interval
  | timeout
  | sweepInterval
  | hostAge
  deriving DecidableEq, Repr

namespace LimitedDuration

/-- All of them, in the order of the check. -/
def all : List LimitedDuration := [interval, timeout, sweepInterval, hostAge]

/-- The name used in messages. -/
def label : LimitedDuration → String
  | interval => "originator interval"
  | timeout => "purge timeout"
  | sweepInterval => "sweep interval"
  | hostAge => "announcement age"

/-- Its value in a configuration. -/
def value (c : Config) : LimitedDuration → UInt64
  | interval => c.interval
  | timeout => c.timeout
  | sweepInterval => c.sweepInterval
  | hostAge => c.hostAge

end LimitedDuration

/-- A rule that a configuration breaks. -/
inductive ConfigError where
  | noInterval
  | jitterTooLarge (jitter interval : UInt64)
  | ttlTooSmall (ttl : UInt8)
  | noTimeout
  | noSweepInterval
  | noMaxQuality
  | penaltyTooLarge (penalty max : UInt8)
  | limitOutOfRange (limit max : UInt8)
  | unknownRoutingClass (routingClass : UInt8)
  | packetTooSmall (size : UInt64)
  | durationTooLong (duration : LimitedDuration) (value : UInt64)
  deriving DecidableEq, Repr

namespace Config

/-- The longest accepted duration, about 49 days. -/
def maxDuration : UInt64 := 4294967295

/-- The first duration that is too long. -/
def longDuration? (c : Config) : Option ConfigError :=
  (LimitedDuration.all.find? fun d => maxDuration < d.value c).map fun d =>
    .durationTooLong d (d.value c)

/-- The first rule that a configuration breaks. -/
def problem? (c : Config) : Option ConfigError :=
  if c.interval = 0 then some .noInterval
  else if c.interval ≤ c.jitter then some (.jitterTooLarge c.jitter c.interval)
  else if c.ttl < 2 then some (.ttlTooSmall c.ttl)
  else if c.timeout = 0 then some .noTimeout
  else if c.sweepInterval = 0 then some .noSweepInterval
  else if c.maxQuality = 0 then some .noMaxQuality
  else if c.maxQuality ≤ c.hopPenalty then some (.penaltyTooLarge c.hopPenalty c.maxQuality)
  else if c.twoWayLimit = 0 ∨ c.maxQuality < c.twoWayLimit then
    some (.limitOutOfRange c.twoWayLimit c.maxQuality)
  else if 3 < c.routingClass then some (.unknownRoutingClass c.routingClass)
  else if c.maxPacketSize.toNat < Wire.beaconHeader then some (.packetTooSmall c.maxPacketSize)
  else c.longDuration?

/-- Whether a configuration breaks no rule. -/
def IsValid (c : Config) : Prop := c.problem? = none

instance (c : Config) : Decidable c.IsValid := inferInstanceAs (Decidable (_ = _))

end Config

/-- The wording of a broken rule. -/
def ConfigError.message : ConfigError → String
  | .noInterval => "Invalid originator interval: must be > 0"
  | .jitterTooLarge jitter interval =>
    "Invalid jitter: " ++ toString jitter ++ "ms must be smaller than the interval " ++
      toString interval ++ "ms"
  | .ttlTooSmall ttl => "Invalid initial TTL: must be >= 2, got " ++ toString ttl
  | .noTimeout => "Invalid purge timeout: must be > 0"
  | .noSweepInterval => "Invalid sweep interval: must be > 0"
  | .noMaxQuality => "Invalid quality maximum: must be > 0"
  | .penaltyTooLarge penalty max =>
    "Invalid hop penalty " ++ toString penalty ++ ": must be below the quality maximum " ++
      toString max
  | .limitOutOfRange limit max =>
    "Invalid bidirectional limit " ++ toString limit ++ ": must be 1..=" ++ toString max
  | .unknownRoutingClass routingClass =>
    "Invalid routing class: must be 0-3, got " ++ toString routingClass
  | .packetTooSmall size =>
    "Invalid max packet size: " ++ toString size ++ " bytes cannot hold a routing header"
  | .durationTooLong duration value =>
    "Invalid " ++ duration.label ++ ": " ++ toString value ++ "ms exceeds the " ++
      toString Config.maxDuration ++ "ms limit"

end BeaconMesh
