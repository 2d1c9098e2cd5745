/-!
# Sequence numbers

Broadcasts are numbered modulo 2^16, so numbers have no order, only a signed distance.
`ahead_unique` says that `ahead` is the one value of 16 signed bits that leads from the older
number to the newer.
-/

namespace BeaconMesh

abbrev Seqno := UInt16

namespace Seqno

/-- How many numbers back, modulo 2^16, `older` lies from `newer`. -/
def behind (newer older : Seqno) : Nat := (newer - older).toNat

/-- The signed distance from `older` to `newer`, at least -2^15 and below 2^15. -/
def ahead (newer older : Seqno) : Int :=
  if behind newer older < 32768 then (behind newer older : Int)
  else (behind newer older : Int) - 65536

theorem behind_lt (newer older : Seqno) : behind newer older < 65536 := (newer - older).toNat_lt

theorem behind_eq (newer older : Seqno) :
    (behind newer older : Int) = ((newer.toNat : Int) - older.toNat) % 65536 := by
  have := newer.toNat_lt
  have := older.toNat_lt
  simp only [behind, UInt16.toNat_sub]
  omega

theorem ahead_bounds (newer older : Seqno) :
    -32768 ≤ ahead newer older ∧ ahead newer older < 32768 := by
  have := behind_lt newer older
  unfold ahead
  split <;> omega

theorem ahead_emod (newer older : Seqno) :
    ahead newer older % 65536 = ((newer.toNat : Int) - older.toNat) % 65536 := by
  have := behind_eq newer older
  unfold ahead
  split <;> omega

theorem ahead_unique {newer older : Seqno} {d : Int} (low : -32768 ≤ d) (high : d < 32768)
    (leads : ((older.toNat : Int) + d) % 65536 = newer.toNat) : ahead newer older = d := by
  have := behind_eq newer older
  have := behind_lt newer older
  unfold ahead
  split <;> omega

theorem ahead_eq_zero_iff {newer older : Seqno} : ahead newer older = 0 ↔ newer = older := by
  have leads := ahead_emod newer older
  have bounds := ahead_bounds newer older
  have := newer.toNat_lt
  have := older.toNat_lt
  rw [← UInt16.toNat_inj]
  omega

theorem ahead_eq_neg_behind {newer older : Seqno} (near : behind newer older ≤ 32768) :
    ahead older newer = -(behind newer older : Int) := by
  have := behind_eq newer older
  apply ahead_unique
  · omega
  · omega
  · have := older.toNat_lt
    omega

@[simp] theorem behind_self (s : Seqno) : behind s s = 0 := by
  rw [behind, UInt16.sub_self]
  decide

@[simp] theorem ahead_self (s : Seqno) : ahead s s = 0 := by
  unfold ahead
  rw [behind_self]
  decide

end Seqno

end BeaconMesh
