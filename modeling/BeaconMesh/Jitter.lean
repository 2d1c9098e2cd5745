/-!
# Jitter

Own beacons are put off by a random time, so that nodes do not send in step. The draws are an
arbitrary stream of numbers: nothing depends on which, and `Jitter.offset_le` bounds every offset.
-/

namespace BeaconMesh

/-- A stream of draws, and how many were used. -/
structure Jitter where
  draws : Nat → Nat
  used : Nat := 0

namespace Jitter

instance : Inhabited Jitter := ⟨{ draws := fun _ => 0 }⟩

def offset (j : Jitter) (span : Nat) : Nat := j.draws j.used % (span + 1)

def advance (j : Jitter) : Jitter := { j with used := j.used + 1 }

theorem offset_le (j : Jitter) (span : Nat) : j.offset span ≤ span :=
  Nat.le_of_lt_succ (Nat.mod_lt _ (Nat.succ_pos _))

/-- Spreads the bits of a counter over a word. -/
def mix (x : UInt64) : UInt64 :=
  let x := (x ^^^ (x >>> 30)) * 0xbf58476d1ce4e5b9
  let x := (x ^^^ (x >>> 27)) * 0x94d049bb133111eb
  x ^^^ (x >>> 31)

/-- A stream of evenly spread draws that a seed determines. -/
def ofSeed (seed : UInt64) : Jitter :=
  { draws := fun n => (mix (seed + UInt64.ofNat (n + 1) * 0x9e3779b97f4a7c15)).toNat }

end Jitter

end BeaconMesh
