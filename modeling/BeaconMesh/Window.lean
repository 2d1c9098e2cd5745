import BeaconMesh.Seqno

/-!
# Reception windows

`Window` remembers which of the last 64 sequence numbers were recorded. Position 0 is the newest
number, position `p` the one `p` older. The `has_…` lemmas say what each operation does to the
set of recorded positions.
-/

namespace BeaconMesh

/-- A set of positions below 64, one bit each. -/
structure Window where
  bits : BitVec 64
  deriving DecidableEq

namespace Window

/-- How many sequence numbers a window reaches back over. -/
def size : Nat := 64

def empty : Window := ⟨0#64⟩

instance : Inhabited Window := ⟨empty⟩

def has (w : Window) (p : Nat) : Bool := w.bits.getLsbD p

def count (w : Window) : Nat := (List.range size).countP w.has

def isEmpty (w : Window) : Bool := w = empty

/-- Records a position; one past the window's reach is ignored. -/
def record (w : Window) (p : Nat) : Window :=
  if p < size then ⟨w.bits ||| BitVec.twoPow 64 p⟩ else w

/-- Whether recording a position would be new to the window. -/
def lacks (w : Window) (p : Nat) : Bool := p < size && ! w.has p

/-- Ages every record by `n` positions; the oldest fall out. -/
def age (w : Window) (n : Nat) : Window := ⟨w.bits <<< n⟩

/-- Moves the newest position ahead by `offset`. A step back, or one of the window's size or
more, forgets everything. -/
def advance (w : Window) (offset : Int) : Window :=
  if 0 ≤ offset ∧ offset < size then w.age offset.toNat else empty

/-- Moves the newest position ahead by `offset`, and records it if it was `heard`. -/
def mark (w : Window) (offset : Int) (heard : Bool) : Window :=
  if heard then (w.advance offset).record 0 else w.advance offset

/-- Whether the newest position after a move by `offset` is not recorded yet. -/
def isNews (w : Window) (offset : Int) : Bool := ! (w.advance offset).has 0

/-- Whether a sequence number is recorded in a window whose newest number is `newest`. -/
def seen (w : Window) (newest candidate : Seqno) : Bool :=
  w.has (Seqno.behind newest candidate)

/-- The bits as sixteen lowercase digits, position 0 last. -/
def text (w : Window) : String := w.bits.toHex

def describe (w : Window) : String :=
  "SlidingWindow(" ++ w.text ++ ", count=" ++ toString w.count ++ ")"

/-! ### Recorded positions -/

theorem ext_has {w w' : Window} (h : ∀ p < size, w.has p = w'.has p) : w = w' := by
  obtain ⟨b⟩ := w
  obtain ⟨b'⟩ := w'
  exact congrArg mk (BitVec.eq_of_getLsbD_eq h)

@[simp] theorem has_of_le {p : Nat} (w : Window) (h : size ≤ p) : w.has p = false :=
  BitVec.getLsbD_of_ge _ _ h

@[simp] theorem has_empty (p : Nat) : empty.has p = false := by simp [has, empty]

theorem has_record (w : Window) (p q : Nat) :
    (w.record p).has q = (w.has q || decide (p = q ∧ q < size)) := by
  unfold record
  split
  · simp only [has, BitVec.getLsbD_or, BitVec.getLsbD_twoPow, size]
    grind
  · grind

theorem has_age (w : Window) (n p : Nat) :
    (w.age n).has p = (decide (n ≤ p ∧ p < size) && w.has (p - n)) := by
  simp only [has, age, BitVec.getLsbD_shiftLeft, size]
  grind

theorem has_advance (w : Window) (offset : Int) (p : Nat) :
    (w.advance offset).has p =
      (decide (0 ≤ offset ∧ offset < size ∧ offset ≤ p ∧ p < size) && w.has (p - offset.toNat)) := by
  unfold advance
  split
  · rename_i h
    rw [has_age]
    congr 1
    simp only [decide_eq_decide]
    omega
  · rename_i h
    have : ¬ (0 ≤ offset ∧ offset < size ∧ offset ≤ p ∧ p < size) := fun k => h ⟨k.1, k.2.1⟩
    simp [this]

theorem has_mark (w : Window) (offset : Int) (heard : Bool) (p : Nat) :
    (w.mark offset heard).has p = ((w.advance offset).has p || (heard && decide (p = 0))) := by
  cases heard
  · simp [mark]
  · simp only [mark, if_true, has_record, size]
    grind

theorem has_mark_zero (w : Window) (offset : Int) : (w.mark offset true).has 0 = true := by
  rw [has_mark, Bool.true_and, decide_eq_true rfl, Bool.or_true]

theorem not_isEmpty {w : Window} {p : Nat} (h : w.has p = true) : w.isEmpty = false := by
  apply Bool.eq_false_iff.mpr
  intro none
  have blank : w = empty := of_decide_eq_true none
  rw [blank, has_empty] at h
  cases h

theorem count_le (w : Window) : w.count ≤ size := by
  have := List.countP_le_length (p := w.has) (l := List.range size)
  simpa [count] using this

theorem count_pos_iff {w : Window} : 0 < w.count ↔ ∃ p < size, w.has p = true := by
  simp only [count, List.countP_pos_iff, List.mem_range]

theorem isEmpty_iff_count {w : Window} : w.isEmpty = true ↔ w.count = 0 := by
  simp only [isEmpty, decide_eq_true_eq, count, List.countP_eq_zero, List.mem_range]
  constructor
  · rintro rfl p _
    simp
  · intro h
    exact ext_has fun p hp => by simpa using h p hp

end Window

end BeaconMesh
