import BeaconMesh.Proofs.Routes.Optimal
import Mathlib.Algebra.BigOperators.Group.List.Basic
import Mathlib.Algebra.GroupWithZero.Nat
import Mathlib.Data.Finset.Max
import Mathlib.Data.List.Rotate

/-!
# The mean of the last samples

`LinkCall` is all that can be done to a link. Whatever is done, and in whatever order, a link's
average is the mean of its last five samples (`average_is_recent_mean`). A `Ring` has no list that
it cuts: it writes five slots in turn, and its mean is the same.
-/

namespace BeaconMesh

inductive LinkCall where
  | sample (quality : UInt8)
  | hear (offset : Int) (here : Bool)
  | hearLate (position : Nat)
  | touch (now : Time)
  /-- Everything but the samples and the count of receptions is written anew. -/
  | write (hop : Hop) (window : Window) (lastTtl : UInt8) (lastSeen : Time)
  deriving DecidableEq

namespace LinkCall

def apply (l : Link) : LinkCall → Link
  | sample quality => l.addSample quality
  | hear offset here => l.hear offset here
  | hearLate position => l.hearLate position
  | touch now => l.touch now
  | write hop window lastTtl lastSeen => { l with hop, window, lastTtl, lastSeen }

/-- The link after calls, the first of them first. -/
def run (l : Link) (cs : List LinkCall) : Link := cs.foldl apply l

def sample? : LinkCall → Option UInt8
  | sample quality => some quality
  | _ => none

/-- The samples among calls, the oldest first. -/
def samples (cs : List LinkCall) : List UInt8 := cs.filterMap sample?

/-- The last of some samples, as many as a link remembers. -/
def recent (qs : List UInt8) : List UInt8 := qs.drop (qs.length - Link.maxSamples)

variable {l : Link} {c : LinkCall} {cs : List LinkCall} {q : UInt8} {qs rs : List UInt8}

theorem samples_cons (c : LinkCall) (cs : List LinkCall) :
    samples (c :: cs) = c.sample?.toList ++ samples cs := by
  unfold samples
  rw [List.filterMap_cons]
  cases c.sample? <;> rfl

theorem length_recent (qs : List UInt8) :
    (recent qs).length = min qs.length Link.maxSamples := by
  simp only [recent, List.length_drop]
  omega

theorem recent_append (qs : List UInt8) (enough : Link.maxSamples ≤ rs.length) :
    recent (qs ++ rs) = recent rs := by
  unfold recent
  rw [List.length_append, List.drop_append]
  have past : qs.length ≤ qs.length + rs.length - Link.maxSamples := by omega
  rw [List.drop_eq_nil_of_le past, List.nil_append]
  congr 1
  omega

/-! ### What a link remembers -/

theorem samples_apply (l : Link) (c : LinkCall) :
    (c.apply l).samples =
      c.sample?.elim l.samples fun q => (q :: l.samples).take Link.maxSamples := by
  cases c <;> rfl

theorem samples_run (cs : List LinkCall) (few : l.samples.length ≤ Link.maxSamples) :
    (run l cs).samples = ((samples cs).reverse ++ l.samples).take Link.maxSamples := by
  induction cs generalizing l with
  | nil => exact (List.take_of_length_le few).symm
  | cons c cs ih =>
    have step := samples_apply l c
    have still : (c.apply l).samples.length ≤ Link.maxSamples := by
      cases sampled : c.sample? with
      | none => rw [step, sampled]; exact few
      | some q => rw [step, sampled]; exact List.length_take_le _ _
    show (run (c.apply l) cs).samples = _
    rw [ih still, step, samples_cons]
    cases c.sample? with
    | none => rfl
    | some q =>
      -- what the cut at the first sample drops, the cut at the end drops as well
      simp only [Option.elim_some, Option.toList_some, List.singleton_append, List.reverse_cons,
        List.append_assoc, List.take_append, List.take_take, Nat.min_eq_left (Nat.sub_le _ _)]

theorem samples_run_new (hop : Hop) (now : Time) (cs : List LinkCall) :
    (run { hop, lastSeen := now } cs).samples = (recent (samples cs)).reverse := by
  rw [samples_run cs (Nat.zero_le _), List.append_nil, List.take_reverse]
  rfl

end LinkCall

namespace Link

theorem total_eq_sum (qs : List UInt8) : total qs = (qs.map UInt8.toNat).sum := by
  induction qs with
  | nil => rfl
  | cons q rest ih => rw [total, ih, List.map_cons, List.sum_cons]

theorem total_perm {qs rs : List UInt8} (same : qs.Perm rs) : total qs = total rs := by
  rw [total_eq_sum, total_eq_sum]
  exact (same.map UInt8.toNat).sum_nat

end Link

/-! ### Slots written in turn -/

/-- A slot for each quality that is remembered, the next one to write, and the mean as last
counted. -/
structure Ring where
  slots : List UInt8 := List.replicate Link.maxSamples 0
  filled : Nat := 0
  next : Nat := 0
  mean : UInt8 := 0

namespace Ring

def push (r : Ring) (quality : UInt8) : Ring :=
  let slots := r.slots.set r.next quality
  let filled := if r.filled < Link.maxSamples then r.filled + 1 else r.filled
  { slots, filled, next := (r.next + 1) % Link.maxSamples,
    mean := UInt8.ofNat (Link.total (slots.take filled) / filled) }

/-- Whether a ring is what samples leave: each of the last stands in the slot of its number. -/
structure Keeps (r : Ring) (qs : List UInt8) : Prop where
  slots : r.slots.length = Link.maxSamples
  filled : r.filled = min qs.length Link.maxSamples
  next : r.next = qs.length % Link.maxSamples
  kept : ∀ i, i < qs.length → qs.length ≤ i + Link.maxSamples →
    r.slots[i % Link.maxSamples]? = qs[i]?
  mean : r.mean = UInt8.ofNat (Link.total (r.slots.take r.filled) / r.filled)

variable {r : Ring} {q : UInt8} {qs : List UInt8}

theorem keeps_nil : Keeps {} [] where
  slots := rfl
  filled := rfl
  next := rfl
  kept i none := absurd none (Nat.not_lt_zero i)
  mean := rfl

theorem Keeps.push (h : Keeps r qs) (q : UInt8) : Keeps (r.push q) (qs ++ [q]) where
  slots := by
    show (r.slots.set r.next q).length = _
    rw [List.length_set, h.slots]
  filled := by
    have filled := h.filled
    simp only [Ring.push, List.length_append, List.length_singleton]
    split <;> omega
  next := by
    simp only [Ring.push, h.next, List.length_append, List.length_singleton, Nat.mod_add_mod]
  kept i early late := by
    rw [List.length_append, List.length_singleton] at early late
    show (r.slots.set r.next q)[i % Link.maxSamples]? = _
    rw [h.next]
    rcases Nat.lt_or_eq_of_le (Nat.le_of_lt_succ early) with older | rfl
    · -- the slot that is written held a sample that is no longer one of the last
      have other : qs.length % Link.maxSamples ≠ i % Link.maxSamples := by
        unfold Link.maxSamples at late ⊢
        omega
      rw [List.getElem?_set_ne other, h.kept i older (by omega), List.getElem?_append_left older]
    · have inside : qs.length % Link.maxSamples < r.slots.length := by
        rw [h.slots]
        exact Nat.mod_lt _ (by decide)
      rw [List.getElem?_set_self inside, List.getElem?_concat_length]
  mean := rfl

theorem keeps_pushes (qs : List UInt8) : Keeps (qs.foldl Ring.push {}) qs := by
  have onward : ∀ (r : Ring) (before : List UInt8), Keeps r before →
      Keeps (qs.foldl Ring.push r) (before ++ qs) := by
    induction qs with
    | nil =>
      intro r before h
      rwa [List.append_nil]
    | cons q rest ih =>
      intro r before h
      have := ih (r.push q) (before ++ [q]) (h.push q)
      rwa [List.append_assoc] at this
  exact onward {} [] keeps_nil

/-- The filled slots hold the last samples: in their order while slots are free, then turned. -/
theorem Keeps.perm (h : Keeps r qs) :
    (r.slots.take r.filled).Perm (LinkCall.recent qs) := by
  have slots := h.slots
  rcases Nat.lt_or_ge qs.length Link.maxSamples with free | full
  · have same : r.slots.take r.filled = LinkCall.recent qs := by
      have whole : LinkCall.recent qs = qs := by
        unfold LinkCall.recent
        rw [Nat.sub_eq_zero_of_le (Nat.le_of_lt free), List.drop_zero]
      rw [whole, h.filled, Nat.min_eq_left (Nat.le_of_lt free)]
      apply List.ext_getElem?
      intro i
      rw [List.getElem?_take]
      split
      · rename_i inside
        rw [← h.kept i inside (by omega), Nat.mod_eq_of_lt (by omega)]
      · rename_i outside
        rw [List.getElem?_eq_none (Nat.le_of_not_lt outside)]
    rw [same]
  · have turned : r.slots.rotate r.next = LinkCall.recent qs := by
      apply List.ext_getElem?
      intro i
      rcases Nat.lt_or_ge i Link.maxSamples with inside | outside
      · rw [List.getElem?_rotate (by omega), slots, h.next, LinkCall.recent, List.getElem?_drop,
          ← h.kept _ (by omega) (by omega)]
        congr 1
        unfold Link.maxSamples at full ⊢
        omega
      · have length := LinkCall.length_recent qs
        rw [List.getElem?_eq_none (by rw [List.length_rotate]; omega),
          List.getElem?_eq_none (by omega)]
    rw [h.filled, Nat.min_eq_right full, ← slots, List.take_length, ← turned]
    exact (List.rotate_perm r.slots r.next).symm

end Ring

/-! ### The mean -/

namespace LinkCall

variable {cs : List LinkCall}

theorem average_run_new (hop : Hop) (now : Time) (cs : List LinkCall) :
    (run { hop, lastSeen := now } cs).average =
      Link.total (recent (samples cs)) / min (samples cs).length Link.maxSamples := by
  rw [Link.average, samples_run_new, List.length_reverse, length_recent,
    Link.total_perm (List.reverse_perm _)]

theorem average_run_new_bounds (hop : Hop) (now : Time) {low high : Nat} (some : samples cs ≠ [])
    (bounds : ∀ q ∈ recent (samples cs), low ≤ q.toNat ∧ q.toNat ≤ high) :
    low ≤ (run { hop, lastSeen := now } cs).average ∧
      (run { hop, lastSeen := now } cs).average ≤ high := by
  have positive : 0 < min (samples cs).length Link.maxSamples := by
    have := List.length_pos_iff.mpr some
    unfold Link.maxSamples
    omega
  obtain ⟨least, most⟩ := Link.total_bounds bounds
  rw [length_recent] at least most
  rw [average_run_new]
  exact ⟨(Nat.le_div_iff_mul_le positive).mpr least, Nat.div_le_of_le_mul most⟩

theorem mean_of_pushes (hop : Hop) (now : Time) (cs : List LinkCall) :
    ((samples cs).foldl Ring.push {}).mean.toNat = (run { hop, lastSeen := now } cs).average := by
  have keeps := Ring.keeps_pushes (samples cs)
  have bytes : ∀ q ∈ recent (samples cs), 0 ≤ q.toNat ∧ q.toNat ≤ 255 := fun q _ =>
    ⟨Nat.zero_le _, Nat.le_of_lt_succ q.toNat_lt⟩
  have small : (run { hop, lastSeen := now } cs).average ≤ 255 := by
    rw [average_run_new, ← length_recent]
    exact Nat.div_le_of_le_mul (Link.total_bounds bytes).2
  rw [keeps.mean, Link.total_perm keeps.perm, keeps.filled, ← average_run_new hop now,
    UInt8.toNat_ofNat']
  exact Nat.mod_eq_of_lt (by omega)

theorem exists_extremes {qs : List UInt8} (some : qs ≠ []) :
    ∃ least ∈ qs, ∃ most ∈ qs, ∀ q ∈ qs, least ≤ q ∧ q ≤ most := by
  have nonempty : qs.toFinset.Nonempty := List.toFinset_nonempty_iff qs |>.mpr some
  obtain ⟨least, mem, low⟩ := qs.toFinset.exists_min_image UInt8.toNat nonempty
  obtain ⟨most, mem', high⟩ := qs.toFinset.exists_max_image UInt8.toNat nonempty
  refine ⟨least, List.mem_toFinset.mp mem, most, List.mem_toFinset.mp mem', fun q listed => ?_⟩
  have listed := List.mem_toFinset.mpr listed
  exact ⟨UInt8.le_iff_toNat_le.mpr (low q listed), UInt8.le_iff_toNat_le.mpr (high q listed)⟩

/-- The average of a link is the mean of its last five samples, or of all as long as there are
fewer. -/
theorem average_is_recent_mean (hop : Hop) (now : Time) (cs : List LinkCall)
    (some : 1 ≤ (samples cs).length) :
    (run { hop, lastSeen := now } cs).average =
      ((recent (samples cs)).map UInt8.toNat).sum / min (samples cs).length 5 ∧
    (recent (samples cs)).length = min (samples cs).length 5 ∧
    recent (samples cs) <:+ samples cs ∧
    ((samples cs).foldl Ring.push {}).mean.toNat = (run { hop, lastSeen := now } cs).average ∧
    (∃ least ∈ recent (samples cs), ∃ most ∈ recent (samples cs),
      (∀ q ∈ recent (samples cs), least ≤ q ∧ q ≤ most) ∧
      least.toNat ≤ (run { hop, lastSeen := now } cs).average ∧
      (run { hop, lastSeen := now } cs).average ≤ most.toNat) ∧
    ∀ earlier, 5 ≤ (samples cs).length →
      (run { hop, lastSeen := now } (earlier ++ cs)).average =
        (run { hop, lastSeen := now } cs).average := by
  have length := length_recent (samples cs)
  refine ⟨?_, length, List.drop_suffix _ _, mean_of_pushes hop now cs, ?_, ?_⟩
  · rw [average_run_new, Link.total_eq_sum]
    rfl
  · have sampled : recent (samples cs) ≠ [] := by
      rw [← List.length_pos_iff, length]
      unfold Link.maxSamples
      omega
    obtain ⟨least, mem, most, mem', extremes⟩ := exists_extremes sampled
    refine ⟨least, mem, most, mem', extremes, average_run_new_bounds hop now
      (List.length_pos_iff.mp some) fun q listed => ?_⟩
    exact ⟨UInt8.le_iff_toNat_le.mp (extremes q listed).1,
      UInt8.le_iff_toNat_le.mp (extremes q listed).2⟩
  · intro earlier enough
    have enough : Link.maxSamples ≤ (samples cs).length := enough
    have joined : samples (earlier ++ cs) = samples earlier ++ samples cs :=
      List.filterMap_append
    have many : Link.maxSamples ≤ (samples earlier ++ samples cs).length := by
      rw [List.length_append]
      exact Nat.le_trans enough (Nat.le_add_left _ _)
    rw [average_run_new, average_run_new, joined, recent_append _ enough,
      Nat.min_eq_right many, Nat.min_eq_right enough]

/-- Two samples before five others, with other calls among them, no longer count. -/
theorem average_is_recent_mean_sample :
    (run { hop := ⟨.zero, 0⟩, lastSeen := 0 }
        ([.sample 255, .touch 4, .sample 0] ++ [.sample 10, .sample 20, .hear 1 true, .sample 30,
          .sample 41, .hearLate 2, .sample 52])).average =
      (run { hop := ⟨.zero, 0⟩, lastSeen := 0 } [.sample 10, .sample 20, .hear 1 true, .sample 30,
        .sample 41, .hearLate 2, .sample 52]).average ∧
    (run { hop := ⟨.zero, 0⟩, lastSeen := 0 } [.sample 10, .sample 20, .hear 1 true, .sample 30,
      .sample 41, .hearLate 2, .sample 52]).average = (10 + 20 + 30 + 41 + 52) / 5 := by
  obtain ⟨mean, -, -, -, -, forgets⟩ := average_is_recent_mean ⟨.zero, 0⟩ 0
    [.sample 10, .sample 20, .hear 1 true, .sample 30, .sample 41, .hearLate 2, .sample 52]
    (by decide)
  exact ⟨forgets [.sample 255, .touch 4, .sample 0] (by decide), mean⟩

end LinkCall

end BeaconMesh
