import BeaconMesh.Window
import Mathlib.Algebra.BigOperators.Group.List.Basic
import Mathlib.Algebra.GroupWithZero.Nat
import Mathlib.Data.List.GetD

/-!
# Windows kept in words

A row of words of 64 bits is a window that reaches back over all of its bits. It ages in place,
from the last word down: each word takes the bits of the word that moves to its place, and those
that carry over from the word below. `has_age` says that the positions then move as in one piece,
and `has_bits`, `age_bits`, `record_bits` and `count_bits` that a `Window` is the row of a single
word.
-/

namespace BeaconMesh

/-- Recorded positions, 64 to a word, the newest in the first. -/
abbrev Words := List (BitVec 64)

namespace Words

def reach (ws : Words) : Nat := 64 * ws.length

def word (ws : Words) (i : Nat) : BitVec 64 := ws.getD i 0#64

def has (ws : Words) (p : Nat) : Bool :=
  p < ws.reach ∧ ws.word (p / 64) &&& 1#64 <<< (p % 64) ≠ 0#64

def record (ws : Words) (p : Nat) : Words :=
  ws.set (p / 64) (ws.word (p / 64) ||| 1#64 <<< (p % 64))

def clear (ws : Words) : Words := ws.map fun _ => 0#64

def count (ws : Words) : Nat := (ws.map fun w => w.cpop.toNat).sum

/-- What a word becomes when its row ages. -/
def aged (ws : Words) (n i : Nat) : BitVec 64 :=
  if n / 64 ≤ i then
    let source := i - n / 64
    if 0 < n % 64 ∧ 0 < source then
      ws.word source <<< (n % 64) ||| ws.word (source - 1) >>> (64 - n % 64)
    else ws.word source <<< (n % 64)
  else 0#64

/-- Writes the words below a place, the last of them first. -/
def ageBelow (n : Nat) : Nat → Words → Words
  | 0, ws => ws
  | i + 1, ws => ageBelow n i (ws.set i (ws.aged n i))

def age (ws : Words) (n : Nat) : Words :=
  if n = 0 then ws else if ws.reach ≤ n then ws.clear else ageBelow n ws.length ws

variable {ws vs : Words} {w : BitVec 64} {n i j p q b : Nat}

/-! ### One bit of one word -/

theorem mask_ne_zero_iff (inside : b < 64) : w &&& 1#64 <<< b ≠ 0#64 ↔ w.getLsbD b = true := by
  rw [← BitVec.twoPow_eq, BitVec.and_twoPow]
  split
  · rename_i set
    have nonzero : BitVec.twoPow 64 b ≠ 0#64 := by
      intro zero
      have bit := congrArg (fun v => v.getLsbD b) zero
      simp only [BitVec.getLsbD_twoPow, inside, decide_true, BitVec.getLsbD_zero] at bit
      exact absurd bit (by decide)
    simp [nonzero, set]
  · rename_i unset
    simp [unset]

theorem word_of_le (outside : ws.length ≤ i) : ws.word i = 0#64 :=
  List.getD_eq_default _ _ outside

theorem word_set (inside : i < ws.length) (w : BitVec 64) (j : Nat) :
    word (ws.set i w) j = if i = j then w else ws.word j := by
  unfold word
  rw [List.getD_eq_getElem?_getD, List.getElem?_set, List.getD_eq_getElem?_getD, if_pos inside]
  split <;> rfl

theorem has_eq (ws : Words) (p : Nat) : ws.has p = (ws.word (p / 64)).getLsbD (p % 64) := by
  have low : p % 64 < 64 := Nat.mod_lt _ (by decide)
  by_cases inside : p < ws.reach
  · simp only [has, inside, true_and, mask_ne_zero_iff low, Bool.decide_eq_true]
  · have zero : ws.word (p / 64) = 0#64 := word_of_le (by unfold reach at inside; omega)
    simp [has, inside, zero]

theorem has_of_le (outside : ws.reach ≤ p) : ws.has p = false := by
  simp [has, Nat.not_lt.mpr outside]

@[simp] theorem has_clear (ws : Words) (p : Nat) : ws.clear.has p = false := by
  have zero : ∀ i, ws.clear.word i = 0#64 := by
    intro i
    unfold word clear
    rw [List.getD_eq_getElem?_getD, List.getElem?_map]
    cases ws[i]? <;> rfl
  rw [has_eq, zero, BitVec.getLsbD_zero]

theorem has_record (inside : p < ws.reach) (q : Nat) :
    (ws.record p).has q = (ws.has q || decide (p = q)) := by
  have stored : p / 64 < ws.length := by unfold reach at inside; omega
  rw [has_eq, has_eq, record, word_set stored]
  split
  · rename_i together
    rw [← together, BitVec.getLsbD_or, ← BitVec.twoPow_eq, BitVec.getLsbD_twoPow]
    have same : p % 64 = q % 64 ↔ p = q := by omega
    simp [same, Nat.mod_lt]
  · rename_i apart
    have other : p ≠ q := fun same => apart (by rw [same])
    simp [other]

theorem ext_has (length : ws.length = vs.length) (same : ∀ p, ws.has p = vs.has p) : ws = vs := by
  apply List.ext_getElem length
  intro i inside inside'
  apply BitVec.eq_of_getLsbD_eq
  intro b low
  have bit := same (64 * i + b)
  rw [has_eq, has_eq, show (64 * i + b) / 64 = i by omega,
    show (64 * i + b) % 64 = b by omega] at bit
  simpa [word, inside, inside'] using bit

/-! ### Ageing in place -/

theorem aged_congr (same : ∀ k, k ≤ i → ws.word k = vs.word k) : ws.aged n i = vs.aged n i := by
  unfold aged
  dsimp only
  rw [same (i - n / 64) (Nat.sub_le _ _), same (i - n / 64 - 1) (by omega)]

/-- A word that is still to be written is made of words that were not written yet. -/
theorem word_ageBelow (inside : i ≤ ws.length) (j : Nat) :
    (ageBelow n i ws).word j = if j < i then ws.aged n j else ws.word j := by
  induction i generalizing ws with
  | zero => simp [ageBelow]
  | succ i ih =>
    have stored : i < ws.length := inside
    rw [ageBelow, ih (by rw [List.length_set]; omega)]
    rcases Nat.lt_trichotomy j i with below | rfl | above
    · have unwritten : aged (ws.set i (ws.aged n i)) n j = ws.aged n j := by
        apply aged_congr
        intro k le
        rw [word_set stored, if_neg (by omega)]
      rw [if_pos below, if_pos (by omega), unwritten]
    · rw [if_neg (Nat.lt_irrefl _), if_pos (Nat.lt_succ_self _), word_set stored, if_pos rfl]
    · rw [if_neg (by omega), if_neg (by omega), word_set stored, if_neg (by omega)]

theorem length_ageBelow (n i : Nat) (ws : Words) : (ageBelow n i ws).length = ws.length := by
  induction i generalizing ws with
  | zero => rfl
  | succ i ih => rw [ageBelow, ih, List.length_set]

theorem getLsbD_aged (ws : Words) (n i : Nat) (low : b < 64) :
    (ws.aged n i).getLsbD b = (decide (n ≤ 64 * i + b) && ws.has (64 * i + b - n)) := by
  unfold aged
  dsimp only
  rw [has_eq]
  split
  · rename_i reached
    -- a bit comes from the source word, or it carries over from the one below
    rcases Nat.lt_or_ge b (n % 64) with carried | moved
    · by_cases below : 0 < i - n / 64
      · rw [if_pos ⟨by omega, below⟩, show (64 * i + b - n) / 64 = i - n / 64 - 1 by omega,
          show (64 * i + b - n) % 64 = 64 - n % 64 + b by omega]
        simp [carried, low, show n ≤ 64 * i + b by omega]
      · rw [if_neg fun both => below both.2]
        simp [carried, show ¬ n ≤ 64 * i + b by omega]
    · have source : (64 * i + b - n) / 64 = i - n / 64 := by omega
      have bit : (64 * i + b - n) % 64 = b - n % 64 := by omega
      have shifted : (ws.word (i - n / 64) <<< (n % 64)).getLsbD b =
          (ws.word (i - n / 64)).getLsbD (b - n % 64) := by
        rw [BitVec.getLsbD_shiftLeft, decide_eq_true low, decide_eq_false (Nat.not_lt.mpr moved)]
        simp
      rw [source, bit, decide_eq_true (by omega), Bool.true_and]
      split
      · have outside : 64 ≤ 64 - n % 64 + b := by omega
        rw [BitVec.getLsbD_or, shifted, BitVec.getLsbD_ushiftRight,
          BitVec.getLsbD_of_ge _ _ outside, Bool.or_false]
      · exact shifted
  · rename_i early
    simp [show ¬ n ≤ 64 * i + b by omega]

theorem length_age (ws : Words) (n : Nat) : (ws.age n).length = ws.length := by
  unfold age clear
  split
  · rfl
  · split
    · rw [List.length_map]
    · exact length_ageBelow n _ ws

theorem has_age (ws : Words) (n p : Nat) :
    (ws.age n).has p = (decide (n ≤ p ∧ p < ws.reach) && ws.has (p - n)) := by
  rcases Nat.lt_or_ge p ws.reach with inside | outside
  · have stored : p / 64 < ws.length := by unfold reach at inside; omega
    unfold age
    split
    · rename_i still
      simp [still, inside]
    · split
      · rename_i past
        simp [show ¬ n ≤ p by omega]
      · have place : 64 * (p / 64) + p % 64 = p := Nat.div_add_mod p 64
        rw [has_eq, word_ageBelow (Nat.le_refl _), if_pos stored,
          getLsbD_aged _ _ _ (Nat.mod_lt _ (by decide)), place]
        simp [inside]
  · have reach : (ws.age n).reach ≤ p := by
      rw [Words.reach, length_age]
      exact outside
    simp [has_of_le reach, Nat.not_lt.mpr outside]

/-! ### Counting -/

theorem cpopNatRec_eq_countP (w : BitVec 64) (k : Nat) :
    w.cpopNatRec k 0 = (List.range k).countP w.getLsbD := by
  induction k with
  | zero => rfl
  | succ k ih =>
    rw [BitVec.cpopNatRec_succ, BitVec.cpopNatRec_add, ih, List.range_succ, List.countP_append,
      List.countP_singleton]
    cases w.getLsbD k <;> rfl

theorem count_eq (ws : Words) : ws.count = (List.range ws.reach).countP ws.has := by
  induction ws with
  | nil => rfl
  | cons w ws ih =>
    have first : ∀ p ∈ List.range 64, has (w :: ws) p = w.getLsbD p := by
      intro p listed
      have low := List.mem_range.mp listed
      rw [has_eq, Nat.div_eq_of_lt low, Nat.mod_eq_of_lt low]
      rfl
    have rest : ∀ p, has (w :: ws) (64 + p) = has ws p := by
      intro p
      rw [has_eq, has_eq, show (64 + p) / 64 = p / 64 + 1 by omega, Nat.add_mod_left]
      rfl
    have more : reach (w :: ws) = 64 + reach ws := by
      simp only [reach, List.length_cons]
      omega
    have head : (List.range 64).countP (has (w :: ws)) = w.cpop.toNat := by
      rw [BitVec.toNat_cpop, cpopNatRec_eq_countP]
      exact List.countP_congr fun p listed => by rw [first p listed]
    rw [more, List.range_add, List.countP_append, List.countP_map, head,
      show has (w :: ws) ∘ (fun p => 64 + p) = has ws from funext rest, ← ih]
    rfl

/-! ### A window is one word -/

theorem has_bits (w : Window) (p : Nat) : has [w.bits] p = w.has p := by
  rw [has_eq]
  rcases Nat.lt_or_ge p 64 with inside | outside
  · rw [Nat.div_eq_of_lt inside, Nat.mod_eq_of_lt inside]
    rfl
  · have past : word [w.bits] (p / 64) = 0#64 := by
      apply word_of_le
      rw [List.length_singleton]
      omega
    rw [past, w.has_of_le outside, BitVec.getLsbD_zero]

theorem age_bits (w : Window) (n : Nat) : age [w.bits] n = [(w.age n).bits] := by
  refine ext_has (length_age [w.bits] n) fun p => ?_
  rw [has_age, has_bits, has_bits, w.has_age]
  rfl

theorem record_bits (w : Window) (inside : p < Window.size) :
    record [w.bits] p = [(w.record p).bits] := by
  refine ext_has List.length_set fun q => ?_
  have reached : p < reach [w.bits] := inside
  rw [has_record reached, has_bits, has_bits, w.has_record]
  congr 1
  rw [decide_eq_decide]
  omega

theorem count_bits (w : Window) : count [w.bits] = w.count := by
  rw [count_eq]
  exact List.countP_congr fun p _ => by rw [has_bits]

end Words

end BeaconMesh
