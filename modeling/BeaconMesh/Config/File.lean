import BeaconMesh.Config.Basic
import BeaconMesh.Json.Printer
import BeaconMesh.Json.Record

/-!
# Configuration files

A configuration is saved as an indented JSON object with a member for each field. Any part of it
can be left out when it is loaded: what is missing takes its default.
-/

namespace BeaconMesh.Config

open Json (Value)

def keys : List String :=
  ["originator_interval_ms", "jitter_ms", "initial_ttl", "purge_timeout_ms", "sweep_interval_ms",
   "hop_penalty", "tq_max", "local_send_minimum", "local_recv_minimum", "bidirectional_limit",
   "announce_age_ms", "gateway_class", "routing_class", "preferred_gateway", "max_packet_size",
   "rng_seed"]

/-- The values of the fields, in the order of their keys. -/
def fieldValues (c : Config) : List Value :=
  [.nat c.interval.toNat, .nat c.jitter.toNat, .nat c.ttl.toNat, .nat c.timeout.toNat,
   .nat c.sweepInterval.toNat, .nat c.hopPenalty.toNat, .nat c.maxQuality.toNat,
   .nat c.minEchoes.toNat, .nat c.minReceived.toNat, .nat c.twoWayLimit.toNat,
   .nat c.hostAge.toNat, .nat c.gatewayClass.toNat, .nat c.routingClass.toNat,
   .ofOption (fun a => .text a.text) c.preferredGateway, .nat c.maxPacketSize.toNat,
   .ofOption (fun s => .nat s.toNat) c.seed]

def toJson (c : Config) : Value := .record (keys.zip c.fieldValues)

/-- The configuration with the given fields, over another one. -/
def ofFields? (base : Config) : List (Option Value) → Option Config
  | [interval, jitter, ttl, timeout, sweepInterval, hopPenalty, maxQuality, minEchoes,
     minReceived, twoWayLimit, hostAge, gatewayClass, routingClass, preferredGateway,
     maxPacketSize, seed] => do
    return {
      interval := ← Json.fieldOr base.interval Json.uint64? interval
      jitter := ← Json.fieldOr base.jitter Json.uint64? jitter
      ttl := ← Json.fieldOr base.ttl Json.uint8? ttl
      timeout := ← Json.fieldOr base.timeout Json.uint64? timeout
      sweepInterval := ← Json.fieldOr base.sweepInterval Json.uint64? sweepInterval
      hopPenalty := ← Json.fieldOr base.hopPenalty Json.uint8? hopPenalty
      maxQuality := ← Json.fieldOr base.maxQuality Json.uint8? maxQuality
      minEchoes := ← Json.fieldOr base.minEchoes Json.uint32? minEchoes
      minReceived := ← Json.fieldOr base.minReceived Json.uint32? minReceived
      twoWayLimit := ← Json.fieldOr base.twoWayLimit Json.uint8? twoWayLimit
      hostAge := ← Json.fieldOr base.hostAge Json.uint64? hostAge
      gatewayClass := ← Json.fieldOr base.gatewayClass Json.uint8? gatewayClass
      routingClass := ← Json.fieldOr base.routingClass Json.uint8? routingClass
      preferredGateway :=
        ← Json.fieldOr base.preferredGateway (Json.nullable Json.addr?) preferredGateway
      maxPacketSize := ← Json.fieldOr base.maxPacketSize Json.uint64? maxPacketSize
      seed := ← Json.fieldOr base.seed (Json.nullable Json.uint64?) seed }
  | _ => none

/-- The configuration that a JSON value describes; missing fields are those of `base`. -/
def ofJson? (base : Config) (v : Value) : Option Config :=
  (Json.recordFields? keys v).bind base.ofFields?

/-- Why a file does not hold a configuration. -/
inductive LoadError where
  | unreadable
  | malformed
  | invalid (cause : ConfigError)
  deriving DecidableEq, Repr

/-- The wording of a load error, without its cause. -/
def LoadError.message : LoadError → String
  | .unreadable => "Failed to read config file"
  | .malformed => "Failed to parse config file"
  | .invalid _ => "Invalid engine configuration"

def checked (c : Config) : Except LoadError Config :=
  match c.problem? with
  | some cause => .error (.invalid cause)
  | none => .ok c

def parse (text : String) : Except LoadError Config :=
  match (Json.parse? text).bind (ofJson? {}) with
  | some c => c.checked
  | none => .error .malformed

/-- Reads the content of a configuration file, which must be UTF-8; `none` is no file. -/
def load (content : Option Bytes) : Except LoadError Config :=
  match content.bind fun bytes => String.fromUTF8? ⟨bytes.toArray⟩ with
  | some text => parse text
  | none => .error .unreadable

def save (c : Config) : String := c.toJson.pretty

end BeaconMesh.Config
