import BeaconMesh.Wire.Packet

/-!
# Packets as bytes

Every packet begins with a byte for its kind and the protocol version. Numbers of two bytes are
sent high byte first.

| bytes | beacon | unicast | flood |
|---|---|---|---|
| 1 | kind 1 | kind 2 | kind 3 |
| 1 | version | version | version |
| then | flags, ttl, gateway class, quality | ttl | originator (6) |
| then | seqno (2), originator (6), previous sender (6) | destination (6) | seqno (2) |
| then | number of hosts, the hosts (6 each) | frame | frame |
-/

namespace BeaconMesh

/-- Why bytes are not a packet, or a packet has no bytes. -/
inductive WireError where
  | tooShort (need got : Nat)
  | badKind (code : UInt8)
  | badVersion (version : UInt8)
  | hostsMismatch (count : UInt8) (need got : Nat)
  | tooManyHosts (count : Nat)
  deriving DecidableEq, Repr

def WireError.message : WireError → String
  | .tooShort need got =>
    "Buffer too short: need " ++ toString need ++ " bytes, got " ++ toString got
  | .badKind code => "Invalid packet type: " ++ toString code
  | .badVersion version => "Incompatible version: " ++ toString version
  | .hostsMismatch count need got =>
    "Announcement length mismatch: " ++ toString count ++ " hosts need " ++ toString need ++
      " bytes, got " ++ toString got
  | .tooManyHosts count => "Too many announced hosts: " ++ toString count

namespace Wire

def version : UInt8 := 1

def beaconHeader : Nat := 21

def unicastHeader : Nat := 9

def floodHeader : Nat := 10

/-- The most hosts one beacon can carry: their number is a byte. -/
def maxHosts : Nat := 255

/-- What a packet is, as its first byte says. -/
inductive Kind where
  | beacon
  | unicast
  | flood
  deriving DecidableEq, Repr

def Kind.code : Kind → UInt8
  | .beacon => 1
  | .unicast => 2
  | .flood => 3

def Kind.ofCode (code : UInt8) : Except WireError Kind :=
  if code = 1 then .ok .beacon
  else if code = 2 then .ok .unicast
  else if code = 3 then .ok .flood
  else .error (.badKind code)

/-! ### Fields -/

def seqnoBytes (s : Seqno) : Bytes := [UInt8.ofNat (s.toNat / 256), UInt8.ofNat (s.toNat % 256)]

def seqnoOf (hi lo : UInt8) : Seqno := UInt16.ofNat (hi.toNat * 256 + lo.toNat)

def hostBytes (hosts : List Addr) : Bytes := hosts.flatMap Addr.toBytes

/-- The hosts in a run of bytes; a rest too short for an address is left out. -/
def hostsOf : Bytes → List Addr
  | b₀ :: b₁ :: b₂ :: b₃ :: b₄ :: b₅ :: rest => ⟨b₀, b₁, b₂, b₃, b₄, b₅⟩ :: hostsOf rest
  | _ => []

/-! ### Writing -/

def beaconLength (b : Beacon) : Nat := beaconHeader + b.hosts.length * Addr.length

/-- The bytes of a beacon. Only the low byte of the number of hosts is sent. -/
def beaconBytes (b : Beacon) : Bytes :=
  Kind.beacon.code :: version :: b.flags :: b.ttl :: b.gatewayClass :: b.quality ::
    (seqnoBytes b.seqno ++ b.orig.toBytes ++ b.prev.toBytes ++
      UInt8.ofNat b.hosts.length :: hostBytes b.hosts)

def unicastBytes (u : Unicast) : Bytes :=
  Kind.unicast.code :: version :: u.ttl :: (u.dest.toBytes ++ u.frame)

def floodBytes (f : Flood) : Bytes :=
  Kind.flood.code :: version :: (f.orig.toBytes ++ seqnoBytes f.seqno ++ f.frame)

/-- The bytes of a beacon, unless its hosts cannot be counted in a byte. -/
def encodeBeacon (b : Beacon) : Except WireError Bytes :=
  if maxHosts < b.hosts.length then .error (.tooManyHosts b.hosts.length)
  else .ok (beaconBytes b)

def encode : Packet → Except WireError Bytes
  | .beacon b => encodeBeacon b
  | .unicast u => .ok (unicastBytes u)
  | .flood f => .ok (floodBytes f)

/-! ### Reading -/

/-- Checks length, kind and version, in this order, and returns what follows them. -/
def checkHeader (kind : Kind) (least : Nat) (bytes : Bytes) : Except WireError Bytes :=
  if bytes.length < least then .error (.tooShort least bytes.length)
  else
    match bytes with
    | code :: v :: rest => do
      let found ← Kind.ofCode code
      if found ≠ kind then .error (.badKind code)
      else if v ≠ version then .error (.badVersion v)
      else .ok rest
    | _ => .error (.tooShort 2 bytes.length)

/-- The error for a packet whose fields end early. -/
def truncated (least : Nat) (bytes : Bytes) : WireError := .tooShort least bytes.length

/-- Reads a beacon; its length must match the number of its hosts. -/
def decodeBeacon (bytes : Bytes) : Except WireError Beacon := do
  let body ← checkHeader .beacon beaconHeader bytes
  match body with
  | flags :: ttl :: gatewayClass :: quality :: hi :: lo :: rest =>
    match Addr.read? rest with
    | some (orig, rest) =>
      match Addr.read? rest with
      | some (prev, count :: rest) =>
        let need := beaconHeader + count.toNat * Addr.length
        if bytes.length ≠ need then .error (.hostsMismatch count need bytes.length)
        else
          .ok { flags, ttl, gatewayClass, quality, seqno := seqnoOf hi lo, orig, prev,
                hosts := hostsOf rest }
      | _ => .error (truncated beaconHeader bytes)
    | none => .error (truncated beaconHeader bytes)
  | _ => .error (truncated beaconHeader bytes)

def decodeUnicast (bytes : Bytes) : Except WireError Unicast := do
  let body ← checkHeader .unicast unicastHeader bytes
  match body with
  | ttl :: rest =>
    match Addr.read? rest with
    | some (dest, frame) => .ok { ttl, dest, frame }
    | none => .error (truncated unicastHeader bytes)
  | _ => .error (truncated unicastHeader bytes)

def decodeFlood (bytes : Bytes) : Except WireError Flood := do
  let body ← checkHeader .flood floodHeader bytes
  match Addr.read? body with
  | some (orig, hi :: lo :: frame) => .ok { orig, seqno := seqnoOf hi lo, frame }
  | _ => .error (truncated floodHeader bytes)

/-- Reads a packet of the kind that its first byte announces. -/
def decode (bytes : Bytes) : Except WireError Packet :=
  match bytes with
  | [] => .error (.tooShort 2 0)
  | code :: _ => do
    match ← Kind.ofCode code with
    | .beacon => return .beacon (← decodeBeacon bytes)
    | .unicast => return .unicast (← decodeUnicast bytes)
    | .flood => return .flood (← decodeFlood bytes)

/-! ### Fields read back -/

@[simp] theorem seqnoOf_seqnoBytes (s : Seqno) :
    seqnoOf (UInt8.ofNat (s.toNat / 256)) (UInt8.ofNat (s.toNat % 256)) = s := by
  have := s.toNat_lt
  apply UInt16.toNat_inj.mp
  simp only [seqnoOf, UInt16.toNat_ofNat', UInt8.toNat_ofNat']
  omega

@[simp] theorem hostsOf_hostBytes (hosts : List Addr) : hostsOf (hostBytes hosts) = hosts := by
  induction hosts with
  | nil => rfl
  | cons a rest ih =>
    have step : hostBytes (a :: rest) = a.toBytes ++ hostBytes rest := rfl
    rw [step]
    simp only [Addr.toBytes, List.cons_append, List.nil_append, hostsOf, ih]

@[simp] theorem length_hostBytes (hosts : List Addr) :
    (hostBytes hosts).length = hosts.length * Addr.length := by
  induction hosts with
  | nil => rfl
  | cons a rest ih =>
    have step : hostBytes (a :: rest) = a.toBytes ++ hostBytes rest := rfl
    rw [step, List.length_append, Addr.length_toBytes, ih, List.length_cons, Nat.add_comm,
      Nat.succ_mul]

theorem length_beaconBytes (b : Beacon) : (beaconBytes b).length = beaconLength b := by
  simp only [beaconBytes, beaconLength, List.length_cons, List.length_append, seqnoBytes,
    List.length_nil, Addr.length_toBytes, length_hostBytes, Addr.length, beaconHeader]
  omega

end Wire

end BeaconMesh
