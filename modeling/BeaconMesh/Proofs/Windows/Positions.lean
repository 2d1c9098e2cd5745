import BeaconMesh.Proofs.Windows.Words
import Mathlib.Data.Finset.Card

/-!
# A window is a bounded set

`Window.positions` is the set of the positions that a window holds. `WindowCall` is what a window is
called for, and each call is told three times: of the words that are kept (`onWords`), of the window
(`apply`), and of the set (`onSet`), where it reads off the page. The three answer alike, call after
call.
-/

namespace BeaconMesh

namespace Window

def positions (w : Window) : Finset Nat := (Finset.range size).filter fun p => w.has p = true

variable {w : Window} {p : Nat}

@[simp] theorem mem_positions : p ∈ w.positions ↔ w.has p = true := by
  rw [positions, Finset.mem_filter, Finset.mem_range, and_iff_right_iff_imp]
  intro held
  by_contra outside
  rw [w.has_of_le (Nat.le_of_not_lt outside)] at held
  cases held

theorem count_eq_card (w : Window) : w.count = w.positions.card := by
  rw [count, List.countP_eq_length_filter, positions, Finset.card, Finset.filter_val,
    Finset.range_val, Multiset.range, Multiset.filter_coe, Multiset.coe_card]
  simp only [Bool.decide_eq_true]

end Window

/-! ### Calls -/

inductive WindowCall where
  | mark (offset : Int) (heard : Bool)
  | record (position : Nat)
  | status (newest candidate : Seqno)
  | holds (position : Nat)
  | clear
  deriving DecidableEq, Repr

namespace WindowCall

/-- What a call leaves of a window, and its answer: whether what it marks or records is new, or
whether what it asks for is there. -/
def apply (w : Window) : WindowCall → Window × Option Bool
  | mark offset heard => (w.mark offset heard, some (w.isNews offset))
  | record p => (w.record p, some (w.lacks p))
  | status newest candidate => (w, some (w.seen newest candidate))
  | holds p => (w, some (w.has p))
  | clear => (.empty, none)

/-- The positions of a set after a step ahead, those that the reach still covers. -/
def moved (s : Finset Nat) (offset : Int) : Finset Nat :=
  if 0 ≤ offset ∧ offset < Window.size then
    (s.image fun p => p + offset.toNat).filter fun p => p < Window.size
  else ∅

def onSet (s : Finset Nat) : WindowCall → Finset Nat × Option Bool
  | mark offset heard =>
    (if heard then insert 0 (moved s offset) else moved s offset,
      some (decide (¬ (0 ≤ offset ∧ offset < Window.size) ∨ 0 ∉ moved s offset)))
  | record p =>
    (if p < Window.size then insert p s else s, some (decide (p < Window.size ∧ p ∉ s)))
  | status newest candidate =>
    (s, some (decide ((newest.toNat + 65536 - candidate.toNat) % 65536 ∈ s)))
  | holds p => (s, some (decide (p ∈ s)))
  | clear => (∅, none)

def onWords (ws : Words) : WindowCall → Words × Option Bool
  | mark offset heard =>
    if offset < 0 ∨ (ws.reach : Int) ≤ offset then
      (if heard then ws.clear.record 0 else ws.clear, some true)
    else
      let aged := ws.age offset.toNat
      (if heard then aged.record 0 else aged, some (! aged.has 0))
  | record p => if ws.reach ≤ p then (ws, some false) else (ws.record p, some (! ws.has p))
  | status newest candidate =>
    (ws, some (Seqno.behind newest candidate < ws.reach && ws.has (Seqno.behind newest candidate)))
  | holds p => (ws, some (ws.has p))
  | clear => (ws.clear, none)

/-- What is left after calls, the first of them first, and the answers to them. -/
def run {σ : Type} (step : σ → WindowCall → σ × Option Bool) (s : σ) :
    List WindowCall → σ × List (Option Bool)
  | [] => (s, [])
  | c :: cs =>
    ((run step (step s c).1 cs).1, (step s c).2 :: (run step (step s c).1 cs).2)

theorem run_map {σ τ : Type} {step : σ → WindowCall → σ × Option Bool}
    {step' : τ → WindowCall → τ × Option Bool} {f : σ → τ}
    (same : ∀ s c, step' (f s) c = (f (step s c).1, (step s c).2)) (s : σ) (cs : List WindowCall) :
    run step' (f s) cs = (f (run step s cs).1, (run step s cs).2) := by
  induction cs generalizing s with
  | nil => rfl
  | cons c cs ih => simp only [run, same, ih]

variable {w : Window} {s : Finset Nat} {offset : Int} {p : Nat}

/-! ### The window and the set -/

theorem mem_moved : p ∈ moved s offset ↔
    (0 ≤ offset ∧ offset < Window.size ∧ offset ≤ p ∧ p < Window.size) ∧ p - offset.toNat ∈ s := by
  unfold moved
  split
  · rename_i inside
    rw [Finset.mem_filter, Finset.mem_image]
    constructor
    · rintro ⟨⟨q, mem, rfl⟩, near⟩
      rw [Nat.add_sub_cancel]
      exact ⟨by omega, mem⟩
    · rintro ⟨⟨-, -, le, near⟩, mem⟩
      exact ⟨⟨p - offset.toNat, mem, by omega⟩, near⟩
  · rename_i outside
    simp only [Finset.notMem_empty, false_iff]
    rintro ⟨⟨low, high, -⟩, -⟩
    exact outside ⟨low, high⟩

theorem positions_advance (w : Window) (offset : Int) :
    (w.advance offset).positions = moved w.positions offset := by
  ext p
  rw [mem_moved, Window.mem_positions, Window.mem_positions, w.has_advance, Bool.and_eq_true,
    decide_eq_true_eq]

theorem positions_record (w : Window) (p : Nat) :
    (w.record p).positions = if p < Window.size then insert p w.positions else w.positions := by
  split
  · rename_i inside
    ext q
    rw [Window.mem_positions, w.has_record, Bool.or_eq_true, decide_eq_true_eq, Finset.mem_insert,
      Window.mem_positions]
    constructor
    · rintro (held | ⟨rfl, -⟩)
      · exact .inr held
      · exact .inl rfl
    · rintro (rfl | held)
      · exact .inr ⟨rfl, inside⟩
      · exact .inl held
  · rename_i outside
    rw [Window.record, if_neg outside]

theorem positions_mark (w : Window) (offset : Int) (heard : Bool) :
    (w.mark offset heard).positions =
      if heard then insert 0 (moved w.positions offset) else moved w.positions offset := by
  unfold Window.mark
  cases heard with
  | true => rw [if_pos rfl, if_pos rfl, positions_record, positions_advance, if_pos (by decide)]
  | false => rw [if_neg (by decide), if_neg (by decide), positions_advance]

theorem isNews_iff (w : Window) (offset : Int) : w.isNews offset = true ↔
    ¬ (0 ≤ offset ∧ offset < Window.size) ∨ 0 ∉ moved w.positions offset := by
  rw [Window.isNews, Bool.not_eq_true', ← positions_advance, Window.mem_positions, Bool.not_eq_true]
  constructor
  · exact .inr
  · rintro (outside | absent)
    · rw [Window.advance, if_neg outside, Window.has_empty]
    · exact absent

theorem behind_eq_mod (newest candidate : Seqno) :
    Seqno.behind newest candidate = (newest.toNat + 65536 - candidate.toNat) % 65536 := by
  have := Seqno.behind_eq newest candidate
  have := candidate.toNat_lt
  omega

theorem onSet_positions (w : Window) (c : WindowCall) :
    c.onSet w.positions = ((c.apply w).1.positions, (c.apply w).2) := by
  cases c with
  | mark offset heard =>
    have news : w.isNews offset = decide (¬ (0 ≤ offset ∧ offset < Window.size) ∨
        0 ∉ moved w.positions offset) := by
      rw [Bool.eq_iff_iff, isNews_iff, decide_eq_true_eq]
    simp only [onSet, apply, positions_mark, news]
  | record p => simp [onSet, apply, positions_record, Window.lacks]
  | status newest candidate => simp [onSet, apply, Window.seen, behind_eq_mod]
  | holds p => simp [onSet, apply]
  | clear => simp [onSet, apply, Window.positions]

/-! ### The window and its words -/

theorem mark_bits (v : Window) (heard : Bool) :
    (if heard then Words.record [v.bits] 0 else [v.bits]) =
      [(if heard then v.record 0 else v).bits] := by
  cases heard with
  | true => exact Words.record_bits v (by decide)
  | false => rfl

theorem onWords_bits (w : Window) (c : WindowCall) :
    c.onWords [w.bits] = ([(c.apply w).1.bits], (c.apply w).2) := by
  have reach : Words.reach [w.bits] = Window.size := rfl
  cases c with
  | mark offset heard =>
    unfold onWords apply Window.mark Window.isNews
    dsimp only
    rw [reach]
    split
    · rename_i outside
      have forgotten : w.advance offset = .empty := if_neg (by omega)
      have cleared : Words.clear [w.bits] = [Window.empty.bits] := rfl
      rw [forgotten, cleared, mark_bits, Window.has_empty]
      rfl
    · rename_i inside
      have aged : w.advance offset = w.age offset.toNat := if_pos (by omega)
      rw [aged, Words.age_bits, mark_bits, Words.has_bits]
  | record p =>
    unfold onWords apply Window.lacks
    dsimp only
    rw [reach]
    split
    · rename_i outside
      simp [Window.record, Nat.not_lt.mpr outside]
    · rename_i inside
      have inside := Nat.lt_of_not_le inside
      rw [Words.record_bits w inside, Words.has_bits]
      simp [inside]
  | status newest candidate =>
    unfold onWords apply Window.seen
    dsimp only
    rw [reach, Words.has_bits]
    rcases Nat.lt_or_ge (Seqno.behind newest candidate) Window.size with inside | outside
    · simp [inside]
    · simp [Nat.not_lt.mpr outside, w.has_of_le outside]
  | holds p => simp only [onWords, apply, Words.has_bits]
  | clear => rfl

/-! ### Counts -/

/-- Whether a call can add a position. -/
def adds : WindowCall → Bool
  | mark _ heard => heard
  | record _ => true
  | _ => false

theorem card_moved_le (s : Finset Nat) (offset : Int) : (moved s offset).card ≤ s.card := by
  unfold moved
  split
  · exact (Finset.card_filter_le _ _).trans Finset.card_image_le
  · exact Nat.zero_le _

theorem card_onSet_le (s : Finset Nat) (c : WindowCall) :
    (c.onSet s).1.card ≤ s.card + if c.adds then 1 else 0 := by
  cases c with
  | mark offset heard =>
    have le := card_moved_le s offset
    cases heard with
    | true => exact (Finset.card_insert_le _ _).trans (Nat.succ_le_succ le)
    | false => exact le
  | record p =>
    dsimp only [onSet]
    split
    · exact Finset.card_insert_le _ _
    · exact Nat.le_succ _
  | clear => exact Nat.zero_le _
  | _ => exact Nat.le_refl _

theorem card_run_onSet_le (s : Finset Nat) (cs : List WindowCall) :
    (run onSet s cs).1.card ≤ s.card + cs.countP adds := by
  induction cs generalizing s with
  | nil => exact Nat.le_refl _
  | cons c cs ih =>
    have step := card_onSet_le s c
    have rest := ih (c.onSet s).1
    rw [List.countP_cons]
    show (run onSet (c.onSet s).1 cs).1.card ≤ _
    omega

/-- Call after call, a window acts as the set of its positions, and so do the words that keep it. -/
theorem window_is_bounded_set :
    (∀ (w : Window) (c : WindowCall),
      c.onSet w.positions = ((c.apply w).1.positions, (c.apply w).2)) ∧
    (∀ w : Window, w.positions ⊆ Finset.range 64 ∧ w.count = w.positions.card) ∧
    (∀ (w : Window) (cs : List WindowCall),
      run onSet w.positions cs = ((run apply w cs).1.positions, (run apply w cs).2)) ∧
    (∀ (w : Window) (cs : List WindowCall),
      run onWords [w.bits] cs = ([(run apply w cs).1.bits], (run apply w cs).2) ∧
        (run onWords [w.bits] cs).1.count = (run apply w cs).1.count) ∧
    ∀ cs : List WindowCall, (run apply .empty cs).1.count ≤ 64 ∧
      (run apply .empty cs).1.count ≤ cs.countP adds := by
  have sets := run_map onSet_positions
  have words : ∀ (w : Window) (cs : List WindowCall),
      run onWords [w.bits] cs = ([(run apply w cs).1.bits], (run apply w cs).2) :=
    run_map onWords_bits
  refine ⟨onSet_positions, fun w => ⟨Finset.filter_subset _ _, w.count_eq_card⟩, sets,
    fun w cs => ⟨words w cs, ?_⟩, fun cs => ⟨Window.count_le _, ?_⟩⟩
  · rw [words, Words.count_bits]
  · have most := card_run_onSet_le Window.empty.positions cs
    have blank : Window.empty.count = 0 := Window.isEmpty_iff_count.mp (decide_eq_true rfl)
    rw [sets, ← Window.count_eq_card, ← Window.count_eq_card, blank, Nat.zero_add] at most
    exact most

end WindowCall

end BeaconMesh
