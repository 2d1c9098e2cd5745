/-!
# Time

Times are milliseconds on a clock whose last reading is `Clock.last`; sums and multiples of
durations stop there.
-/

namespace BeaconMesh

abbrev Time := Nat

namespace Clock

def last : Time := UInt64.size - 1

/-- The reading `duration` after `t`, or the last one. -/
def later (t duration : Time) : Time := min (t + duration) last

/-- A multiple of a duration, up to the last reading. -/
def times (duration : Time) (k : Nat) : Time := min (duration * k) last

/-- Whether nothing happened for longer than `limit` since `since`. -/
def overdue (since limit now : Time) : Bool := later since limit < now

theorem later_le_last (t duration : Time) : later t duration ≤ last := Nat.min_le_right _ _

theorem le_later {t duration : Time} (h : t ≤ last) : t ≤ later t duration :=
  Nat.le_min.mpr ⟨Nat.le_add_right _ _, h⟩

theorem later_eq {t duration : Time} (h : t + duration ≤ last) :
    later t duration = t + duration := Nat.min_eq_left h

end Clock

end BeaconMesh
