import BeaconMesh.Proofs.Faults.Arithmetic

/-!
# What a judgement depends on

A judgement stays on the scale of quality, and below everything that it is made of. It gets no worse
when a beacon carried more or when more of our beacons were echoed, and a link that missed nothing
takes nothing off: `judgement_bounded_and_monotone`.
-/

namespace BeaconMesh

namespace Estimator

variable {est : Estimator} {carried carried' echoes echoes' received received' : Nat}

/-- The quality of a path from what its beacon carried and from the two factors of the link. -/
def pathQuality (est : Estimator) (carried link symmetry : Nat) : Nat :=
  min (min carried est.max * link * symmetry / (est.max * est.max)) est.max

/-- A judgement is the path quality of the two factors, which the counts of one window give. -/
theorem estimate_eq_ok (scale : 0 < est.max) {x : Estimate} :
    est.estimate carried echoes received = .ok x ↔
      est.linkQuality (min echoes (min received Window.size)) (min received Window.size) =
          .ok x.link ∧
        x.symmetry = est.symmetry (min received Window.size) ∧
        x.quality = est.pathQuality carried x.link x.symmetry ∧
        x.twoWay = decide (est.limit ≤ x.quality) := by
  have product : ∀ a, Fault.quotient a (est.max * est.max) = .ok (a / (est.max * est.max)) :=
    fun a => Fault.quotient_eq (Nat.mul_pos scale scale)
  unfold estimate
  dsimp only
  simp only [product]
  constructor
  · intro h
    obtain ⟨link, shared, h⟩ := Fault.bind_ok h
    cases Fault.pure_ok h
    exact ⟨shared, rfl, rfl, rfl⟩
  · obtain ⟨link, _, _, _⟩ := x
    rintro ⟨shared, symmetry, quality, twoWay⟩
    dsimp only at shared symmetry quality twoWay
    subst symmetry
    subst quality
    rw [shared, twoWay]
    rfl

/-! ### The two factors -/

theorem linkQuality_mono {link link' : Nat} (more : echoes ≤ echoes')
    (h : est.linkQuality echoes received = .ok link)
    (h' : est.linkQuality echoes' received = .ok link') : link ≤ link' := by
  unfold linkQuality at h h'
  split at h
  · cases h
    exact Nat.zero_le _
  · rename_i enough
    have enough' : ¬ (echoes' < est.minEchoes ∨ received < est.minReceived) := by omega
    rw [if_neg enough'] at h'
    unfold Fault.quotient at h h'
    split at h
    · cases h
    · rename_i heard
      rw [if_neg heard] at h'
      cases h
      cases h'
      exact Nat.div_le_div_right (Nat.mul_le_mul_left _ more)

theorem cube_mono {m n : Nat} (h : m ≤ n) : cube m ≤ cube n :=
  Nat.mul_le_mul (Nat.mul_le_mul h h) h

theorem symmetry_le (est : Estimator) (received : Nat) : est.symmetry received ≤ est.max :=
  Nat.sub_le _ _

theorem symmetry_mono (more : received ≤ received') :
    est.symmetry received ≤ est.symmetry received' := by
  have missed : cube (Window.size - received') ≤ cube (Window.size - received) :=
    cube_mono (Nat.sub_le_sub_left more _)
  unfold symmetry
  apply Nat.sub_le_sub_left
  exact Nat.div_le_div_right (Nat.mul_le_mul_left _ missed)

theorem linkQuality_full (few : est.minEchoes ≤ Window.size) (few' : est.minReceived ≤ Window.size) :
    est.linkQuality Window.size Window.size = .ok est.max := by
  unfold linkQuality
  rw [if_neg (by omega), Fault.quotient_eq (by decide), Nat.mul_div_cancel _ (by decide)]

theorem symmetry_full (est : Estimator) : est.symmetry Window.size = est.max := by
  unfold symmetry
  rw [Nat.sub_self, show cube 0 = 0 from rfl, Nat.mul_zero, Nat.zero_div, Nat.sub_zero]

/-! ### The path -/

section Path

variable {link link' symmetry : Nat}

theorem pathQuality_mono (more : carried ≤ carried') (better : link ≤ link') :
    est.pathQuality carried link symmetry ≤ est.pathQuality carried' link' symmetry := by
  have part : min carried est.max ≤ min carried' est.max := by omega
  have product := Nat.mul_le_mul_right symmetry (Nat.mul_le_mul part better)
  have quotient := Nat.div_le_div_right (c := est.max * est.max) product
  unfold pathQuality
  omega

theorem pathQuality_le_carried (best : link ≤ est.max) (even : symmetry ≤ est.max) :
    est.pathQuality carried link symmetry ≤ carried := by
  have quotient :
      min carried est.max * link * symmetry / (est.max * est.max) ≤ min carried est.max := by
    apply Nat.div_le_of_le_mul
    calc min carried est.max * link * symmetry
        = min carried est.max * (link * symmetry) := Nat.mul_assoc _ _ _
      _ ≤ min carried est.max * (est.max * est.max) :=
          Nat.mul_le_mul_left _ (Nat.mul_le_mul best even)
      _ = est.max * est.max * min carried est.max := Nat.mul_comm _ _
  unfold pathQuality
  omega

theorem pathQuality_le_link (even : symmetry ≤ est.max) :
    est.pathQuality carried link symmetry ≤ link := by
  have quotient : min carried est.max * link * symmetry / (est.max * est.max) ≤ link := by
    apply Nat.div_le_of_le_mul
    calc min carried est.max * link * symmetry
        ≤ est.max * link * est.max :=
          Nat.mul_le_mul (Nat.mul_le_mul_right _ (Nat.min_le_right _ _)) even
      _ = est.max * est.max * link := Nat.mul_right_comm _ _ _
  unfold pathQuality
  omega

theorem pathQuality_le_symmetry (best : link ≤ est.max) :
    est.pathQuality carried link symmetry ≤ symmetry := by
  have quotient : min carried est.max * link * symmetry / (est.max * est.max) ≤ symmetry := by
    apply Nat.div_le_of_le_mul
    exact Nat.mul_le_mul_right _ (Nat.mul_le_mul (Nat.min_le_right _ _) best)
  unfold pathQuality
  omega

theorem pathQuality_perfect (scale : 0 < est.max) (carried : Nat) :
    est.pathQuality carried est.max est.max = min carried est.max := by
  unfold pathQuality
  rw [Nat.mul_assoc, Nat.mul_div_cancel _ (Nat.mul_pos scale scale)]
  omega

end Path

/-! ### Whole judgements -/

variable {x x' : Estimate}

theorem estimate_quality_mono (scale : 0 < est.max) (carries : carried ≤ carried')
    (echoed : echoes ≤ echoes') (h : est.estimate carried echoes received = .ok x)
    (h' : est.estimate carried' echoes' received = .ok x') :
    x.quality ≤ x'.quality ∧ (x.twoWay = true → x'.twoWay = true) := by
  obtain ⟨shared, symmetry, quality, twoWay⟩ := (estimate_eq_ok scale).mp h
  obtain ⟨shared', symmetry', quality', twoWay'⟩ := (estimate_eq_ok scale).mp h'
  have counted : min echoes (min received Window.size) ≤ min echoes' (min received Window.size) := by
    omega
  have better : x.quality ≤ x'.quality := by
    rw [quality, quality', symmetry, symmetry']
    exact pathQuality_mono carries (linkQuality_mono counted shared shared')
  refine ⟨better, ?_⟩
  rw [twoWay, twoWay', decide_eq_true_eq, decide_eq_true_eq]
  exact fun reached => Nat.le_trans reached better

theorem estimate_symmetry_mono (scale : 0 < est.max) (heard : received ≤ received')
    (h : est.estimate carried echoes received = .ok x)
    (h' : est.estimate carried' echoes' received' = .ok x') : x.symmetry ≤ x'.symmetry := by
  obtain ⟨-, symmetry, -⟩ := (estimate_eq_ok scale).mp h
  obtain ⟨-, symmetry', -⟩ := (estimate_eq_ok scale).mp h'
  rw [symmetry, symmetry']
  apply symmetry_mono
  omega

theorem exists_estimate (scale : 0 < est.max) (heard : received ≤ received')
    (h : est.estimate carried echoes received = .ok x) :
    ∃ x', est.estimate carried' echoes' received' = .ok x' := by
  cases judged : est.estimate carried' echoes' received' with
  | ok x' => exact ⟨x', rfl⟩
  | error cause =>
    obtain ⟨-, none, minEchoes, minReceived⟩ := (estimate_error_iff scale _ _).mp judged
    have failed : est.estimate carried echoes received = .error .divisionByZero :=
      (estimate_error_iff scale _ _).mpr ⟨rfl, by omega, minEchoes, minReceived⟩
    rw [h] at failed
    cases failed

theorem estimate_full (scale : 0 < est.max) (few : est.minEchoes ≤ Window.size)
    (few' : est.minReceived ≤ Window.size) (heard : Window.size ≤ received)
    (echoed : Window.size ≤ echoes) :
    ∃ x, est.estimate carried echoes received = .ok x ∧ x.quality = min carried est.max := by
  refine ⟨⟨est.max, est.max, min carried est.max, decide (est.limit ≤ min carried est.max)⟩,
    (estimate_eq_ok scale).mpr ⟨?_, ?_, ?_, rfl⟩, rfl⟩
  · rw [Nat.min_eq_right heard, Nat.min_eq_right echoed]
    exact linkQuality_full few few'
  · rw [Nat.min_eq_right heard]
    exact est.symmetry_full.symm
  · exact (pathQuality_perfect scale carried).symm

end Estimator

/-! ### Judging under a configuration -/

namespace Config

variable {c : Config}

/-- The judgement of a link from what a beacon carries and from the two counts. -/
def judge (c : Config) (carried : UInt8) (echoes received : UInt32) : Except Fault Estimate :=
  (Estimator.ofConfig c).estimate carried.toNat echoes.toNat received.toNat

/-- Whether a judgement keeps to the scale of a configuration, and to what it is made of. -/
structure Bounds (c : Config) (carried : UInt8) (x : Estimate) : Prop where
  link : x.link ≤ c.maxQuality.toNat
  symmetry : x.symmetry ≤ c.maxQuality.toNat
  quality : x.quality ≤ c.maxQuality.toNat
  /-- Each of the three is a byte, and is the same when it is kept as one. -/
  bytes : (UInt8.ofNat x.link).toNat = x.link ∧ (UInt8.ofNat x.symmetry).toNat = x.symmetry ∧
    (UInt8.ofNat x.quality).toNat = x.quality
  le_carried : x.quality ≤ carried.toNat
  le_link : x.quality ≤ x.link
  le_symmetry : x.quality ≤ x.symmetry
  twoWay : x.twoWay = true ↔ c.twoWayLimit.toNat ≤ x.quality

theorem toNat_pos (scale : 1 ≤ c.maxQuality) : 0 < (Estimator.ofConfig c).max :=
  UInt8.le_iff_toNat_le.mp scale

theorem toNat_ofNat_of_le {n : Nat} {max : UInt8} (h : n ≤ max.toNat) :
    (UInt8.ofNat n).toNat = n := by
  have byte := max.toNat_lt
  rw [UInt8.toNat_ofNat']
  exact Nat.mod_eq_of_lt (by omega)

theorem judge_bounds (scale : 1 ≤ c.maxQuality) {carried : UInt8} {echoes received : UInt32}
    {x : Estimate} (h : c.judge carried echoes received = .ok x) : c.Bounds carried x := by
  obtain ⟨shared, symmetry, quality, twoWay⟩ := (Estimator.estimate_eq_ok (toNat_pos scale)).mp h
  obtain ⟨best, -⟩ := Estimator.linkQuality_bounds (Nat.min_le_right _ _) shared
  have even : x.symmetry ≤ c.maxQuality.toNat := symmetry ▸ Estimator.symmetry_le _ _
  have most : x.quality ≤ c.maxQuality.toNat := quality ▸ Nat.min_le_right _ _
  exact {
    link := best
    symmetry := even
    quality := most
    bytes := ⟨toNat_ofNat_of_le best, toNat_ofNat_of_le even, toNat_ofNat_of_le most⟩
    le_carried := quality ▸ Estimator.pathQuality_le_carried best even
    le_link := quality ▸ Estimator.pathQuality_le_link even
    le_symmetry := quality ▸ Estimator.pathQuality_le_symmetry best
    twoWay := by rw [twoWay, decide_eq_true_eq]; rfl }

theorem judge_error_iff (scale : 1 ≤ c.maxQuality) {carried : UInt8} {echoes received : UInt32}
    {cause : Fault} : c.judge carried echoes received = .error cause ↔
      cause = .divisionByZero ∧ received = 0 ∧ c.minEchoes = 0 ∧ c.minReceived = 0 := by
  have zero : ∀ n : UInt32, n.toNat = 0 ↔ n = 0 := fun n => UInt32.toNat_inj (b := 0)
  unfold judge
  rw [Estimator.estimate_error_iff (toNat_pos scale), zero]
  exact and_congr_right' (and_congr_right' (and_congr (zero _) (zero _)))

/-- A link can be judged unless nothing was received and nothing need be; a judgement keeps to the
scale, and is no worse for more that is carried or echoed. -/
theorem judgement_bounded_and_monotone {c : Config} (scale : 1 ≤ c.maxQuality) :
    (∀ carried echoes received, (∃ x, c.judge carried echoes received = .ok x) ↔
      ¬ (received = 0 ∧ c.minEchoes = 0 ∧ c.minReceived = 0)) ∧
    (∀ carried echoes received x, c.judge carried echoes received = .ok x →
      c.Bounds carried x) ∧
    (∀ carried carried' echoes received x, carried ≤ carried' →
      c.judge carried echoes received = .ok x →
      ∃ x', c.judge carried' echoes received = .ok x' ∧ x.quality ≤ x'.quality ∧
        (x.twoWay = true → x'.twoWay = true)) ∧
    (∀ carried echoes echoes' received x, echoes ≤ echoes' →
      c.judge carried echoes received = .ok x →
      ∃ x', c.judge carried echoes' received = .ok x' ∧ x.quality ≤ x'.quality ∧
        (x.twoWay = true → x'.twoWay = true)) ∧
    (∀ carried echoes received received' x, received ≤ received' →
      c.judge carried echoes received = .ok x →
      ∃ x', c.judge carried echoes received' = .ok x' ∧ x.symmetry ≤ x'.symmetry) ∧
    ∀ carried echoes received, 64 ≤ received → 64 ≤ echoes → c.minEchoes ≤ 64 →
      c.minReceived ≤ 64 → ∃ x, c.judge carried echoes received = .ok x ∧
        x.quality = min carried.toNat c.maxQuality.toNat := by
  have positive := toNat_pos scale
  refine ⟨?_, fun _ _ _ _ => judge_bounds scale, ?_, ?_, ?_, ?_⟩
  · intro carried echoes received
    constructor
    · rintro ⟨x, judged⟩ blank
      have failed : c.judge carried echoes received = .error .divisionByZero :=
        (judge_error_iff scale).mpr ⟨rfl, blank⟩
      rw [judged] at failed
      cases failed
    · intro counted
      cases judged : c.judge carried echoes received with
      | ok x => exact ⟨x, rfl⟩
      | error cause =>
        obtain ⟨-, blank⟩ := (judge_error_iff scale).mp judged
        exact absurd blank counted
  · intro carried carried' echoes received x more judged
    have carries := UInt8.le_iff_toNat_le.mp more
    obtain ⟨x', judged'⟩ := Estimator.exists_estimate positive (Nat.le_refl _) judged
    exact ⟨x', judged',
      Estimator.estimate_quality_mono positive carries (Nat.le_refl _) judged judged'⟩
  · intro carried echoes echoes' received x more judged
    have echoed := UInt32.le_iff_toNat_le.mp more
    obtain ⟨x', judged'⟩ := Estimator.exists_estimate positive (Nat.le_refl _) judged
    exact ⟨x', judged',
      Estimator.estimate_quality_mono positive (Nat.le_refl _) echoed judged judged'⟩
  · intro carried echoes received received' x more judged
    have heard := UInt32.le_iff_toNat_le.mp more
    obtain ⟨x', judged'⟩ := Estimator.exists_estimate positive heard judged
    exact ⟨x', judged', Estimator.estimate_symmetry_mono positive heard judged judged'⟩
  · intro carried echoes received heard echoed minEchoes minReceived
    exact Estimator.estimate_full positive (UInt32.le_iff_toNat_le.mp minEchoes)
      (UInt32.le_iff_toNat_le.mp minReceived) (UInt32.le_iff_toNat_le.mp heard)
      (UInt32.le_iff_toNat_le.mp echoed)

/-- On a scale of ten, two echoes of three are worth less than three, and a link that missed nothing
takes nothing off. -/
theorem judgement_bounded_and_monotone_sample :
    ∃ x x' full, ({ maxQuality := 10, minEchoes := 0 } : Config).judge 9 2 3 = .ok x ∧
      ({ maxQuality := 10, minEchoes := 0 } : Config).judge 9 3 3 = .ok x' ∧
      ({ maxQuality := 10, minEchoes := 0 } : Config).judge 9 70 64 = .ok full ∧
      x.link = 6 ∧ x'.link = 10 ∧ x.quality ≤ x'.quality ∧ x'.quality ≤ 10 ∧
      full.quality = 9 := by
  obtain ⟨-, bounds, -, echoed, -, whole⟩ :=
    judgement_bounded_and_monotone (c := { maxQuality := 10, minEchoes := 0 }) (by decide)
  have fewer : ({ maxQuality := 10, minEchoes := 0 } : Config).judge 9 2 3 =
      .ok ⟨6, 2, 1, true⟩ := rfl
  have all : ({ maxQuality := 10, minEchoes := 0 } : Config).judge 9 3 3 =
      .ok ⟨10, 2, 1, true⟩ := rfl
  obtain ⟨x', more, better, -⟩ := echoed 9 2 3 3 _ (by decide) fewer
  obtain ⟨full, judged, nothingOff⟩ :=
    whole 9 70 64 (by decide) (by decide) (by decide) (by decide)
  cases more.symm.trans all
  exact ⟨_, _, full, fewer, all, judged, rfl, rfl, better, (bounds _ _ _ _ all).quality,
    nothingOff⟩

end Config

end BeaconMesh
