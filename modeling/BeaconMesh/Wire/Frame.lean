import BeaconMesh.Wire.Codec

/-!
# Bridged frames

The mesh looks at a bridged Ethernet frame only for its addresses.
-/

namespace BeaconMesh

/-- The addresses at the head of a bridged frame. -/
structure FrameHeader where
  dest : Addr
  source : Addr
  deriving DecidableEq, Repr

namespace FrameHeader

/-- The length of an Ethernet header: destination, source and type. -/
def length : Nat := 14

/-- The addresses of a frame that is long enough to hold a header. -/
def ofFrame (frame : Bytes) : Except WireError FrameHeader :=
  if frame.length < length then .error (.tooShort length frame.length)
  else
    match Addr.read? frame with
    | some (dest, rest) =>
      match Addr.read? rest with
      | some (source, _) => .ok { dest, source }
      | none => .error (.tooShort length frame.length)
    | none => .error (.tooShort length frame.length)

/-- Whether the frame is for everyone: its destination is broadcast or multicast. -/
def isFlooded (h : FrameHeader) : Bool := h.dest = .broadcast || h.dest.isMulticast

end FrameHeader

end BeaconMesh
