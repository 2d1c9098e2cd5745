import BeaconMesh.Originator.Reception

/-!
# Logs of flooded data

A `FloodLog` lists the data of an originator that was flooded since the window was last started
anew, placed on a line without wrap-around. `FloodLog.Agrees` says that a window holds the latest
places of a log: then data is known if and only if its place is taken, and one more number keeps the
two in step.
-/

namespace BeaconMesh

/-! ### Places -/

/-- The data of an originator that was flooded since the window was last started anew, by place. -/
structure FloodLog where
  newest : Int := 0
  /-- The number at the newest place. -/
  seqno : Seqno := 0
  places : List Int := []

namespace FloodLog

/-- The place of data with a number; none if it starts the log anew, because the log is empty or the
number is a window or more away from the newest one. -/
def place? (log : FloodLog) (seqno : Seqno) : Option Int :=
  let offset := Seqno.ahead seqno log.seqno
  if log.places ≠ [] ∧ -Window.size < offset ∧ offset < Window.size then some (log.newest + offset)
  else none

def add (log : FloodLog) (seqno : Seqno) : FloodLog :=
  match log.place? seqno with
  | none => { seqno, places := [0] }
  | some place =>
    { newest := max log.newest place
      seqno := if log.newest ≤ place then seqno else log.seqno
      places := place :: log.places }

/-- Whether a window holds the places of a log that lie less than a window back. -/
structure Agrees (log : FloodLog) (w : Window) (newest : Seqno) : Prop where
  number : log.places ≠ [] → newest = log.seqno
  top : log.places ≠ [] → log.newest ∈ log.places
  bounded : ∀ place ∈ log.places, place ≤ log.newest
  marks : ∀ p < Window.size, w.has p = true ↔ log.newest - p ∈ log.places

variable {log : FloodLog} {w : Window} {newest seqno : Seqno} {place : Int}

theorem place?_eq_some : log.place? seqno = some place ↔
    log.places ≠ [] ∧ -Window.size < Seqno.ahead seqno log.seqno ∧
      Seqno.ahead seqno log.seqno < Window.size ∧
      place = log.newest + Seqno.ahead seqno log.seqno := by
  unfold place?
  rw [Option.ite_none_right_eq_some, Option.some.injEq, and_assoc, and_assoc, eq_comm (b := place)]

theorem agrees_empty (newest : Seqno) : Agrees {} .empty newest := by
  refine ⟨fun some => absurd rfl some, fun some => absurd rfl some, nofun, ?_⟩
  intro p _
  simp

theorem Agrees.isEmpty_iff (h : log.Agrees w newest) : w.isEmpty = true ↔ log.places = [] := by
  constructor
  · intro none
    have blank : w = .empty := of_decide_eq_true none
    refine Decidable.byContradiction fun some => ?_
    have newest := (h.marks 0 (by decide)).mpr (by simpa using h.top some)
    rw [blank, Window.has_empty] at newest
    cases newest
  · intro none
    refine decide_eq_true (Window.ext_has fun p near => ?_)
    have bit := h.marks p near
    rw [none] at bit
    simpa using bit

/-! ### Data that comes in -/

/-- The window knows a number if and only if its place is taken: a recorded number lies less than a
window back, and what lies ahead of the newest number has no place yet. -/
theorem Agrees.known_iff (h : log.Agrees w newest) (seqno : Seqno) :
    (! w.isEmpty && w.seen newest seqno) = true ↔
      ∃ place ∈ log.places, log.place? seqno = some place := by
  by_cases none : log.places = []
  · simp [h.isEmpty_iff.mpr none, none]
  have history : w.isEmpty = false := Bool.eq_false_iff.mpr (none ∘ h.isEmpty_iff.mp)
  rw [history, Bool.not_false, Bool.true_and, h.number none, Window.seen]
  have back := Seqno.behind_eq log.seqno seqno
  have ahead := Seqno.ahead_emod seqno log.seqno
  by_cases near : Seqno.behind log.seqno seqno < Window.size
  · have offset : Seqno.ahead seqno log.seqno = -(Seqno.behind log.seqno seqno : Int) := by
      apply Seqno.ahead_eq_neg_behind
      unfold Window.size at near
      omega
    rw [h.marks _ near]
    constructor
    · intro taken
      refine ⟨_, taken, place?_eq_some.mpr ⟨none, ?_, ?_, ?_⟩⟩
      · omega
      · omega
      · omega
    · rintro ⟨place, taken, placed⟩
      obtain ⟨-, -, -, rfl⟩ := place?_eq_some.mp placed
      rwa [offset] at taken
  · rw [Window.has_of_le _ (Nat.not_lt.mp near)]
    refine iff_of_false nofun ?_
    rintro ⟨place, taken, placed⟩
    obtain ⟨-, low, high, rfl⟩ := place?_eq_some.mp placed
    have := h.bounded _ taken
    unfold Window.size at near low
    omega

theorem agrees_anew {offset : Int} (forgotten : ∀ p, (w.advance offset).has p = false) :
    Agrees { seqno, places := [0] } (w.mark offset true) seqno := by
  refine ⟨fun _ => rfl, fun _ => List.mem_singleton.mpr rfl, ?_, ?_⟩
  · intro place only
    exact Int.le_of_eq (List.mem_singleton.mp only)
  · intro p _
    rw [Window.has_mark, forgotten]
    simp

theorem Agrees.late (h : log.Agrees w newest) (some : log.places ≠ []) {offset : Int}
    (back : offset < 0) :
    Agrees { log with places := (log.newest + offset) :: log.places }
      (w.record (-offset).toNat) newest := by
  refine ⟨fun _ => h.number some, fun _ => List.mem_cons_of_mem _ (h.top some), ?_, ?_⟩
  · refine List.forall_mem_cons.mpr ⟨?_, h.bounded⟩
    dsimp only
    omega
  · intro p here
    have place : log.newest - (p : Int) = log.newest + offset ↔ (-offset).toNat = p := by omega
    simp only [List.mem_cons, Window.has_record, Bool.or_eq_true, decide_eq_true_eq, here, and_true,
      place, h.marks p here, or_comm]

theorem Agrees.onward (h : log.Agrees w newest) {offset : Int} (ahead : 0 ≤ offset)
    (near : offset < Window.size) :
    Agrees { newest := log.newest + offset, seqno, places := (log.newest + offset) :: log.places }
      (w.mark offset true) seqno := by
  refine ⟨fun _ => rfl, fun _ => List.mem_cons_self, ?_, ?_⟩
  · refine List.forall_mem_cons.mpr ⟨Int.le_refl _, fun place old => ?_⟩
    have := h.bounded place old
    dsimp only
    omega
  · intro p here
    have earlier : (w.advance offset).has p = true ↔
        log.newest + offset - (p : Int) ∈ log.places := by
      rw [Window.has_advance, Bool.and_eq_true, decide_eq_true_eq]
      by_cases reach : offset ≤ p
      · have place : log.newest - ((p - offset.toNat : Nat) : Int) =
            log.newest + offset - (p : Int) := by omega
        rw [and_iff_right ⟨ahead, near, reach, here⟩, h.marks _ (by omega), place]
      · refine iff_of_false (fun held => reach held.1.2.2.1) fun old => ?_
        have := h.bounded _ old
        omega
    have first : log.newest + offset - (p : Int) = log.newest + offset ↔ p = 0 := by omega
    simp only [Window.has_mark, Bool.or_eq_true, earlier, Bool.true_and, decide_eq_true_eq,
      List.mem_cons, first, or_comm]

end FloodLog

namespace Originator

/-- What is known of the data that a node flooded. -/
def floods (o : Originator) : Window × Seqno := (o.flooded, o.newestFlood)

theorem floods_hearFlood {log : FloodLog} {o : Originator}
    (h : log.Agrees o.flooded o.newestFlood) (seqno : Seqno) :
    (log.add seqno).Agrees (o.hearFlood seqno).floods.1 (o.hearFlood seqno).floods.2 := by
  unfold hearFlood
  dsimp only
  by_cases none : log.places = []
  · have blank : o.flooded.isEmpty = true := h.isEmpty_iff.mpr none
    have fresh : log.place? seqno = .none := if_neg fun placed => placed.1 none
    rw [latePosition?, if_neg (by simp [blank]), FloodLog.add, fresh]
    refine FloodLog.agrees_anew fun p => ?_
    have same : o.flooded = .empty := of_decide_eq_true blank
    rw [same, Window.has_advance, Window.has_empty, Bool.and_false]
  have history : o.flooded.isEmpty = false := Bool.eq_false_iff.mpr (none ∘ h.isEmpty_iff.mp)
  rw [h.number none]
  by_cases near : -Window.size < Seqno.ahead seqno log.seqno ∧
      Seqno.ahead seqno log.seqno < Window.size
  · have placed : log.place? seqno = some (log.newest + Seqno.ahead seqno log.seqno) :=
      if_pos ⟨none, near⟩
    rw [FloodLog.add, placed]
    by_cases back : Seqno.ahead seqno log.seqno < 0
    · rw [latePosition?, if_pos ⟨by simp [history], back, by omega⟩]
      dsimp only
      rw [if_neg (by omega), Int.max_eq_left (by omega)]
      have held := h.late none back
      rw [h.number none] at held
      exact held
    · rw [latePosition?, if_neg fun late => back late.2.1]
      dsimp only
      rw [if_pos (by omega), Int.max_eq_right (by omega)]
      exact h.onward (Int.not_lt.mp back) near.2
  · have fresh : log.place? seqno = .none := if_neg fun placed => near placed.2
    rw [latePosition?, if_neg (by omega), FloodLog.add, fresh]
    refine FloodLog.agrees_anew fun p => ?_
    rw [Window.has_advance, decide_eq_false (by omega), Bool.false_and]

end Originator

end BeaconMesh
