import BeaconMesh.Engine.Basic
import Mathlib.Algebra.Group.Nat.Defs

/-!
# Arithmetic under a valid configuration

The rules for a configuration keep every difference from going below zero and every divisor above
zero but one: the receptions that echoes are divided by. `estimate_ok` says when those are not
needed or not zero. `Fits` and `product_fits` say that no value on the way leaves its word.
-/

namespace BeaconMesh

namespace Config.IsValid

variable {c : Config}

theorem jitter_lt (h : c.IsValid) : c.jitter.toNat < c.interval.toNat := by
  have rule : ¬ c.interval ≤ c.jitter := by
    intro broken
    unfold IsValid problem? at h
    rw [if_pos broken] at h
    split at h <;> cases h
  simpa only [UInt64.le_iff_toNat_le, Nat.not_le] using rule

theorem two_le_ttl (h : c.IsValid) : 2 ≤ c.ttl.toNat := by
  refine Nat.le_of_not_lt fun few => ?_
  have broken : c.ttl < 2 := UInt8.lt_iff_toNat_lt.mpr few
  unfold IsValid problem? at h
  rw [if_pos broken] at h
  repeat (split at h; · cases h)
  cases h

theorem sweepInterval_pos (h : c.IsValid) : 0 < c.sweepInterval.toNat := by
  have rule : c.sweepInterval ≠ 0 := by
    intro broken
    unfold IsValid problem? at h
    rw [if_pos broken] at h
    repeat (split at h; · cases h)
    cases h
  rw [Nat.pos_iff_ne_zero]
  intro zero
  exact rule (UInt64.toNat_inj.mp zero)

theorem hopPenalty_lt (h : c.IsValid) : c.hopPenalty.toNat < c.maxQuality.toNat := by
  have rule : ¬ c.maxQuality ≤ c.hopPenalty := by
    intro broken
    unfold IsValid problem? at h
    rw [if_pos broken] at h
    repeat (split at h; · cases h)
    cases h
  simpa only [UInt8.le_iff_toNat_le, Nat.not_le] using rule

theorem twoWayLimit_pos (h : c.IsValid) : 0 < c.twoWayLimit.toNat := by
  have rule : c.twoWayLimit ≠ 0 := by
    intro zero
    have broken : c.twoWayLimit = 0 ∨ c.maxQuality < c.twoWayLimit := .inl zero
    unfold IsValid problem? at h
    rw [if_pos broken] at h
    repeat (split at h; · cases h)
    cases h
  rw [Nat.pos_iff_ne_zero]
  intro zero
  exact rule (UInt8.toNat_inj.mp zero)

theorem header_le (h : c.IsValid) : Wire.beaconHeader ≤ c.maxPacketSize.toNat := by
  refine Nat.not_lt.mp ?_
  intro broken
  unfold IsValid problem? at h
  rw [if_pos broken] at h
  repeat (split at h; · cases h)
  cases h

end Config.IsValid

/-! ### Judging a link -/

namespace Estimator

variable {est : Estimator}

theorem linkQuality_ok {echoes received : Nat}
    (counted : 0 < received ∨ 0 < est.minEchoes ∨ 0 < est.minReceived) (le : echoes ≤ received) :
    ∃ link, est.linkQuality echoes received = .ok link ∧ link ≤ est.max := by
  unfold linkQuality
  split
  · exact ⟨0, rfl, Nat.zero_le _⟩
  · rename_i enough
    have positive : 0 < received := by omega
    refine ⟨_, Fault.quotient_eq positive, Nat.div_le_of_le_mul ?_⟩
    rw [Nat.mul_comm]
    exact Nat.mul_le_mul_right _ le

theorem estimate_ok (scale : 0 < est.max) {received : Nat}
    (counted : 0 < received ∨ 0 < est.minEchoes ∨ 0 < est.minReceived) (carried echoes : Nat) :
    ∃ x, est.estimate carried echoes received = .ok x ∧ x.link ≤ est.max ∧
      x.symmetry ≤ est.max ∧ x.quality ≤ est.max := by
  have counted : 0 < min received Window.size ∨ 0 < est.minEchoes ∨ 0 < est.minReceived := by
    have : 0 < Window.size := by decide
    omega
  obtain ⟨link, shared, small⟩ := linkQuality_ok counted (Nat.min_le_right echoes _)
  have product := Fault.quotient_eq (a := min carried est.max * link *
    est.symmetry (min received Window.size)) (Nat.mul_pos scale scale)
  unfold estimate
  dsimp only
  rw [shared]
  change ∃ x, (Fault.quotient _ _ >>= _) = _ ∧ _
  rw [product]
  exact ⟨_, rfl, small, Nat.sub_le _ _, Nat.min_le_right _ _⟩

theorem estimate_error_iff (scale : 0 < est.max) (carried echoes : Nat) {received : Nat}
    {cause : Fault} :
    est.estimate carried echoes received = .error cause ↔
      cause = .divisionByZero ∧ received = 0 ∧ est.minEchoes = 0 ∧ est.minReceived = 0 := by
  constructor
  · intro h
    have uncounted : ¬ (0 < received ∨ 0 < est.minEchoes ∨ 0 < est.minReceived) := by
      intro counted
      obtain ⟨x, judged, -⟩ := estimate_ok scale counted carried echoes
      cases h.symm.trans judged
    refine ⟨?_, by omega, by omega, by omega⟩
    rcases Fault.bind_error h with h | ⟨link, _, h⟩
    · unfold linkQuality Fault.quotient at h
      split at h
      · cases h
      · split at h
        · cases h
          rfl
        · cases h
    · rcases Fault.bind_error h with h | ⟨_, _, h⟩
      · rw [Fault.quotient_eq (Nat.mul_pos scale scale)] at h
        cases h
      · cases h
  · rintro ⟨rfl, rfl, echoes, received⟩
    unfold estimate linkQuality
    simp [echoes, received, Fault.quotient]
    rfl

theorem linkQuality_bounds {echoes received link : Nat} (le : echoes ≤ received)
    (h : est.linkQuality echoes received = .ok link) :
    link ≤ est.max ∧ (link ≠ 0 → 0 < echoes ∧ 0 < received) := by
  unfold linkQuality at h
  split at h
  · cases h
    exact ⟨Nat.zero_le _, fun positive => absurd rfl positive⟩
  · unfold Fault.quotient at h
    split at h
    · cases h
    · cases h
      constructor
      · apply Nat.div_le_of_le_mul
        rw [Nat.mul_comm]
        exact Nat.mul_le_mul_right _ le
      · intro positive
        have echoed : echoes ≠ 0 := by
          rintro rfl
          apply positive
          simp
        omega

/-- The quality of a path is no better than what its beacon carried, and it is zero if nothing was
echoed or nothing was heard. -/
theorem estimate_bounds {carried echoes received : Nat} {x : Estimate}
    (h : est.estimate carried echoes received = .ok x) :
    x.quality ≤ min carried est.max ∧ (x.quality ≠ 0 → 0 < echoes ∧ 0 < received) := by
  obtain ⟨link, shared, h⟩ := Fault.bind_ok h
  obtain ⟨product, scaled, h⟩ := Fault.bind_ok h
  cases Fault.pure_ok h
  obtain ⟨most, positive⟩ := linkQuality_bounds (Nat.min_le_right echoes _) shared
  unfold Fault.quotient at scaled
  split at scaled
  · cases scaled
  rename_i scale
  cases scaled
  have part : est.symmetry (min received Window.size) ≤ est.max := Nat.sub_le _ _
  constructor
  · apply Nat.le_trans (Nat.min_le_left _ _)
    apply Nat.div_le_of_le_mul
    rw [Nat.mul_assoc, Nat.mul_comm (est.max * est.max)]
    exact Nat.mul_le_mul_left _ (Nat.mul_le_mul most part)
  · intro usable
    have some : link ≠ 0 := by
      rintro rfl
      apply usable
      simp
    obtain ⟨echoed, heard⟩ := positive some
    omega

theorem cube_le {n : Nat} (h : n ≤ Window.size) : cube n ≤ cube Window.size :=
  Nat.mul_le_mul (Nat.mul_le_mul h h) h

/-- Every value on the way of a judgement fits into a word of 64 bits, every result into a byte, and
nothing is taken from less than itself. -/
structure Fits (est : Estimator) (carried echoes received : Nat) : Prop where
  share : est.max * min echoes (min received Window.size) < UInt64.size
  missed : ∀ k ≤ 3, est.max * (Window.size - min received Window.size) ^ k < UInt64.size
  taken : est.max * cube (Window.size - min received Window.size) / cube Window.size ≤ est.max
  scale : est.max * est.max < UInt64.size
  product : ∀ x, est.estimate carried echoes received = .ok x →
    min carried est.max * x.link * x.symmetry < UInt64.size
  results : ∀ x, est.estimate carried echoes received = .ok x →
    x.link < UInt8.size ∧ x.symmetry < UInt8.size ∧ x.quality < UInt8.size

theorem fits (byte : est.max < UInt8.size) (scale : 0 < est.max)
    (carried echoes received : Nat) : est.Fits carried echoes received := by
  have most : est.max ≤ 255 := Nat.le_of_lt_succ byte
  have window : min received Window.size ≤ 64 := Nat.min_le_right _ _
  have bounded : ∀ x, est.estimate carried echoes received = .ok x →
      x.link ≤ 255 ∧ x.symmetry ≤ 255 ∧ x.quality ≤ 255 := by
    intro x judged
    have counted : 0 < received ∨ 0 < est.minEchoes ∨ 0 < est.minReceived := by
      refine Decidable.byContradiction fun uncounted => ?_
      have failed : est.estimate carried echoes received = .error .divisionByZero :=
        (estimate_error_iff scale carried echoes).mpr ⟨rfl, by omega⟩
      cases failed.symm.trans judged
    obtain ⟨y, found, link, symmetry, quality⟩ := estimate_ok scale counted carried echoes
    cases found.symm.trans judged
    exact ⟨Nat.le_trans link most, Nat.le_trans symmetry most, Nat.le_trans quality most⟩
  refine ⟨?_, fun k few => ?_, Nat.div_le_of_le_mul ?_, ?_, fun x judged => ?_, fun x judged => ?_⟩
  · have echoed : min echoes (min received Window.size) ≤ 64 :=
      Nat.le_trans (Nat.min_le_right _ _) window
    exact Nat.lt_of_le_of_lt (Nat.mul_le_mul most echoed) (by decide)
  · have missing : Window.size - min received Window.size ≤ 64 := Nat.sub_le _ _
    have power : (Window.size - min received Window.size) ^ k ≤ 64 ^ 3 :=
      Nat.le_trans (Nat.pow_le_pow_left missing k) (Nat.pow_le_pow_right (by decide) few)
    exact Nat.lt_of_le_of_lt (Nat.mul_le_mul most power) (by decide)
  · rw [Nat.mul_comm]
    exact Nat.mul_le_mul_right _ (cube_le (Nat.sub_le _ _))
  · exact Nat.lt_of_le_of_lt (Nat.mul_le_mul most most) (by decide)
  · obtain ⟨link, symmetry, -⟩ := bounded x judged
    have part : min carried est.max ≤ 255 := Nat.le_trans (Nat.min_le_right _ _) most
    exact Nat.lt_of_le_of_lt (Nat.mul_le_mul (Nat.mul_le_mul part link) symmetry) (by decide)
  · obtain ⟨link, symmetry, quality⟩ := bounded x judged
    exact ⟨Nat.lt_succ_of_le link, Nat.lt_succ_of_le symmetry, Nat.lt_succ_of_le quality⟩

end Estimator

/-! ### Relaying, and being due -/

namespace Config.IsValid

variable {c : Config}

theorem penalized_ok (h : c.IsValid) (quality : UInt8) :
    ∃ kept, Relay.penalized (.ofConfig c) quality = .ok kept := by
  have below : (Pacing.ofConfig c).hopPenalty ≤ (Pacing.ofConfig c).maxQuality :=
    Nat.le_of_lt h.hopPenalty_lt
  have scale : 0 < (Pacing.ofConfig c).maxQuality :=
    Nat.lt_of_le_of_lt (Nat.zero_le _) h.hopPenalty_lt
  unfold Relay.penalized
  rw [Fault.difference_eq below]
  change ∃ kept, (Fault.quotient _ _ >>= _) = _
  rw [Fault.quotient_eq scale]
  exact ⟨_, rfl⟩

theorem relay_task?_ok (h : c.IsValid) (r : Relay) (now : Time) :
    ∃ task, r.task? (.ofConfig c) now = .ok task := by
  unfold Relay.task?
  split
  · exact ⟨none, rfl⟩
  · obtain ⟨kept, penalized⟩ := h.penalized_ok r.source.1
    rw [penalized]
    exact ⟨_, rfl⟩

theorem ownDue_ok (h : c.IsValid) (q : Scheduler) (now : Time) :
    ∃ due, q.ownDue (.ofConfig c) now = .ok due ∧ (now < Clock.last → now < due) := by
  have early : (Pacing.ofConfig c).jitter < (Pacing.ofConfig c).interval := h.jitter_lt
  unfold Scheduler.ownDue
  rw [Fault.difference_eq (Nat.le_of_lt early)]
  refine ⟨_, rfl, fun goesOn => ?_⟩
  have ahead := Nat.sub_pos_of_lt early
  have first := Nat.lt_min.mpr ⟨Nat.lt_add_of_pos_right ahead, goesOn⟩
  exact Nat.lt_of_lt_of_le first (Clock.le_later (Clock.later_le_last _ _))

end Config.IsValid

namespace Setup

theorem scale_pos (s : Setup) : 0 < s.config.maxQuality.toNat :=
  Nat.lt_of_le_of_lt (Nat.zero_le _) s.valid.hopPenalty_lt

theorem product_fits (s : Setup) (quality : UInt8) :
    quality.toNat * (s.pacing.maxQuality - s.pacing.hopPenalty) < UInt32.size ∧
      quality.toNat * (s.pacing.maxQuality - s.pacing.hopPenalty) / s.pacing.maxQuality <
        UInt8.size := by
  have most : quality.toNat ≤ 255 := Nat.le_of_lt_succ quality.toNat_lt
  have scale : s.pacing.maxQuality ≤ 255 := Nat.le_of_lt_succ s.config.maxQuality.toNat_lt
  have left : s.pacing.maxQuality - s.pacing.hopPenalty ≤ s.pacing.maxQuality := Nat.sub_le _ _
  constructor
  · exact Nat.lt_of_le_of_lt (Nat.mul_le_mul most (Nat.le_trans left scale)) (by decide)
  · refine Nat.lt_of_le_of_lt (Nat.div_le_of_le_mul ?_) quality.toNat_lt
    rw [Nat.mul_comm]
    exact Nat.mul_le_mul_right _ left

theorem relay_task?_ok (s : Setup) (r : Relay) (now : Time) :
    ∃ task, r.task? s.pacing now = .ok task :=
  s.valid.relay_task?_ok r now

theorem ownDue_ok (s : Setup) (q : Scheduler) (now : Time) :
    ∃ due, q.ownDue s.pacing now = .ok due ∧ (now < Clock.last → now < due) :=
  s.valid.ownDue_ok q now

end Setup

end BeaconMesh
