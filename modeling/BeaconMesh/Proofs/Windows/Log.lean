import BeaconMesh.Proofs.Engine.History

/-!
# Logs of receptions

The `receptionLog` of an originator lists its receptions since its windows were last started anew,
placed on a line without wrap-around. `Log.Marks` says that a window holds those receptions of a log
that pass a test, and `Log.Marks.grows` that one more reception keeps this.
-/

namespace BeaconMesh

/-! ### Placing receptions -/

/-- A reception with the number of calls before it and its place on the line. -/
structure Placed extends Reception where
  time : Nat
  position : Int

/-- The receptions of an originator since its windows were last started anew, the last first. -/
structure Log where
  /-- The place of the newest number. -/
  newest : Int := 0
  receptions : List Placed := []

/-- Whether a reception starts the windows of an originator anew: they have no history, or the
reception is not late and its number lies behind the newest one, or a window or more ahead. -/
def Reception.resets (r : Reception) (o : Originator) : Bool :=
  o.received.isEmpty || ! r.late &&
    (Seqno.ahead r.beacon.seqno o.newest < 0 || Window.size ≤ Seqno.ahead r.beacon.seqno o.newest)

/-- Adds a reception of an originator as it was before. One that starts the windows anew is placed
at zero, and any other as far from the newest number as it is ahead. -/
def Log.add (log : Log) (o : Originator) (r : Reception) (time : Nat) : Log :=
  if r.resets o then { receptions := [{ r with time, position := 0 }] }
  else
    let position := log.newest + Seqno.ahead r.beacon.seqno o.newest
    { newest := if r.late then log.newest else position
      receptions := { r with time, position } :: log.receptions }

/-- The log of an originator after a history; empty while the originator is not known. -/
def receptionLog (a : Addr) : List Event → Log
  | [] => {}
  | x :: past =>
    if (x.after.origins.get? a).isNone then {}
    else
      match x.reception? with
      | some r =>
        if r.beacon.orig = a then
          (receptionLog a past).add (x.before.origins.getOrNew a r.now) r past.length
        else receptionLog a past
      | none => receptionLog a past

/-- Whether an originator is known and has a link through a hop. -/
def Engine.hasLink (e : Engine) (a : Addr) (hop : Hop) : Bool :=
  ((e.origins.get? a).bind fun o => o.link? hop).isSome

/-- The number of calls before the one that made the link of an originator through a hop. -/
def linkedSince (a : Addr) (hop : Hop) : List Event → Nat
  | [] => 0
  | x :: past => if x.before.hasLink a hop then linkedSince a hop past else past.length

theorem linkedSince_le (a : Addr) (hop : Hop) (past : List Event) :
    linkedSince a hop past ≤ past.length := by
  induction past with
  | nil => exact Nat.le_refl 0
  | cons x past ih =>
    unfold linkedSince
    rw [List.length_cons]
    split
    · omega
    · omega

/-! ### How a log grows -/

theorem Originator.arrival_late_iff {o : Originator} {seqno : Seqno} {p : Nat} :
    o.arrival seqno = .late p ↔ o.received.isEmpty = false ∧ Seqno.ahead seqno o.newest < 0 ∧
      -Window.size < Seqno.ahead seqno o.newest ∧ p = (-Seqno.ahead seqno o.newest).toNat := by
  unfold arrival latePosition?
  generalize Seqno.ahead seqno o.newest = offset
  by_cases late : ! o.received.isEmpty ∧ offset < 0 ∧ (-offset).toNat < Window.size
  · rw [if_pos late]
    obtain ⟨history, back, near⟩ := late
    rw [Bool.not_eq_true'] at history
    simp only [Arrival.late.injEq, history, back, true_and, eq_comm]
    omega
  · rw [if_neg late]
    constructor
    · dsimp only
      split <;> nofun
    · rintro ⟨history, back, near, -⟩
      refine absurd ⟨?_, back, ?_⟩ late
      · rw [history]
        rfl
      · omega

/-- A window of an originator, or of a link of it that a reception took or not, after it. -/
def Window.heard (w : Window) (o : Originator) (r : Reception) (here : Bool) : Window :=
  let offset := Seqno.ahead r.beacon.seqno o.newest
  if r.late then if here then w.record (-offset).toNat else w
  else w.mark offset here

namespace Log

/-- How one more reception changes a log. -/
inductive Grows (log : Log) (o : Originator) (r : Reception) (time : Nat) : Log → Prop where
  | restart (inTime : r.late = false)
      (lost : o.received.isEmpty = true ∨ Seqno.ahead r.beacon.seqno o.newest < 0 ∨
        Window.size ≤ Seqno.ahead r.beacon.seqno o.newest) :
      Grows log o r time { receptions := [{ r with time, position := 0 }] }
  | late (late : r.late = true) (back : Seqno.ahead r.beacon.seqno o.newest < 0)
      (near : -Window.size < Seqno.ahead r.beacon.seqno o.newest) :
      Grows log o r time
        { newest := log.newest
          receptions :=
            { r with time, position := log.newest + Seqno.ahead r.beacon.seqno o.newest } ::
              log.receptions }
  | onward (inTime : r.late = false) (ahead : 0 ≤ Seqno.ahead r.beacon.seqno o.newest)
      (near : Seqno.ahead r.beacon.seqno o.newest < Window.size) :
      Grows log o r time
        { newest := log.newest + Seqno.ahead r.beacon.seqno o.newest
          receptions :=
            { r with time, position := log.newest + Seqno.ahead r.beacon.seqno o.newest } ::
              log.receptions }

variable {log log' : Log} {w : Window} {q : Placed → Prop} {o : Originator} {r : Reception}
  {time : Nat}

theorem add_grows
    (agrees : r.late = true ↔ ∃ p, o.arrival r.beacon.seqno = .late p) (log : Log) (time : Nat) :
    Grows log o r time (log.add o r time) := by
  have late_iff : r.late = true ↔ o.received.isEmpty = false ∧
      Seqno.ahead r.beacon.seqno o.newest < 0 ∧
      -Window.size < Seqno.ahead r.beacon.seqno o.newest := by
    rw [agrees]
    simp only [Originator.arrival_late_iff, exists_and_left, exists_eq, and_true]
  unfold Log.add
  cases late : r.late with
  | true =>
    obtain ⟨history, back, near⟩ := late_iff.mp late
    have continues : r.resets o = false := by
      rw [Reception.resets, history, late]
      rfl
    rw [if_neg (Bool.eq_false_iff.mp continues)]
    exact .late late back near
  | false =>
    cases resets : r.resets o with
    | true =>
      rw [if_pos rfl]
      refine .restart late ?_
      simpa only [Reception.resets, late, Bool.or_eq_true, Bool.not_false, Bool.true_and,
        decide_eq_true_eq] using resets
    | false =>
      rw [if_neg nofun]
      simp only [Reception.resets, late, Bool.or_eq_false_iff, Bool.not_false, Bool.true_and,
        decide_eq_false_iff_not] at resets
      exact .onward late (by omega) (by omega)

/-- The receptions lie in the past, and none is placed beyond the newest. -/
def Bounded (log : Log) (time : Nat) : Prop :=
  ∀ x ∈ log.receptions, x.time < time ∧ x.position ≤ log.newest

theorem Bounded.mono (h : log.Bounded time) {time' : Nat} (later : time ≤ time') :
    log.Bounded time' :=
  fun x mem => ⟨Nat.lt_of_lt_of_le (h x mem).1 later, (h x mem).2⟩

theorem Grows.bounded (h : log.Bounded time) (grows : Grows log o r time log') :
    log'.Bounded (time + 1) := by
  have now := Nat.lt_succ_self time
  have old := h.mono (Nat.le_succ time)
  cases grows with
  | restart => exact List.forall_mem_singleton.mpr ⟨now, Int.le_refl 0⟩
  | late _ back =>
    refine List.forall_mem_cons.mpr ⟨⟨now, ?_⟩, old⟩
    dsimp only
    omega
  | onward _ ahead =>
    refine List.forall_mem_cons.mpr ⟨⟨now, Int.le_refl _⟩, fun x mem => ⟨(old x mem).1, ?_⟩⟩
    have := (old x mem).2
    dsimp only
    omega

/-! ### What windows hold -/

/-- Whether a window holds exactly those receptions of a log that pass a test. -/
def Marks (log : Log) (w : Window) (q : Placed → Prop) : Prop :=
  ∀ p < Window.size, w.has p = true ↔ ∃ x ∈ log.receptions, x.position = log.newest - p ∧ q x

theorem Marks.empty (none : ∀ x ∈ log.receptions, ¬ q x) : log.Marks .empty q := by
  intro p _
  rw [Window.has_empty]
  refine iff_of_false nofun ?_
  rintro ⟨x, mem, _, test⟩
  exact none x mem test

theorem Marks.grows (h : log.Marks w q) (grows : Grows log o r time log')
    (bounded : log.Bounded time) (within : o.received.isEmpty = true → w = .empty) {here : Bool}
    (test : ∀ position, here = true ↔ q { r with time, position }) :
    log'.Marks (w.heard o r here) q := by
  intro p hp
  unfold Window.heard
  cases grows with
  | restart inTime lost =>
    have forgotten : (w.advance (Seqno.ahead r.beacon.seqno o.newest)).has p = false := by
      rw [Window.has_advance]
      rcases lost with none | far
      · rw [within none, Window.has_empty, Bool.and_false]
      · rw [decide_eq_false (by omega), Bool.false_and]
    rw [inTime, if_neg nofun, Window.has_mark, forgotten, Bool.false_or, Bool.and_eq_true,
      decide_eq_true_eq, test 0]
    constructor
    · rintro ⟨passes, rfl⟩
      exact ⟨_, List.mem_singleton.mpr rfl, rfl, passes⟩
    · rintro ⟨x, only, place, passes⟩
      cases List.mem_singleton.mp only
      dsimp only at place
      exact ⟨passes, by omega⟩
  | late late back near =>
    simp only [List.mem_cons, exists_eq_or_imp]
    rw [late, if_pos rfl, ← h p hp, ← test]
    cases here with
    | false => simp
    | true =>
      have place : log.newest + Seqno.ahead r.beacon.seqno o.newest = log.newest - (p : Int) ↔
          (-Seqno.ahead r.beacon.seqno o.newest).toNat = p := by omega
      rw [if_pos rfl, Window.has_record, place, Bool.or_eq_true, decide_eq_true_eq,
        and_iff_left hp, and_iff_left rfl, or_comm]
  | onward inTime ahead near =>
    have earlier : (w.advance (Seqno.ahead r.beacon.seqno o.newest)).has p = true ↔
        ∃ x ∈ log.receptions,
          x.position = log.newest + Seqno.ahead r.beacon.seqno o.newest - (p : Int) ∧ q x := by
      rw [Window.has_advance, Bool.and_eq_true, decide_eq_true_eq]
      by_cases reach : Seqno.ahead r.beacon.seqno o.newest ≤ p
      · rw [and_iff_right ⟨ahead, near, reach, hp⟩, h _ (by omega)]
        have place : log.newest - ((p - (Seqno.ahead r.beacon.seqno o.newest).toNat : Nat) : Int) =
            log.newest + Seqno.ahead r.beacon.seqno o.newest - (p : Int) := by omega
        rw [place]
      · refine iff_of_false (fun held => reach held.1.2.2.1) ?_
        rintro ⟨x, mem, place, -⟩
        have := (bounded x mem).2
        omega
    simp only [List.mem_cons, exists_eq_or_imp]
    rw [inTime, if_neg nofun, Window.has_mark, Bool.or_eq_true, earlier, Bool.and_eq_true,
      decide_eq_true_eq, ← test, or_comm, and_comm (a := here = true)]
    refine or_congr_left (and_congr_left fun _ => ?_)
    omega

/-! ### Where windows stand -/

/-- Whether the places of a log are the numbers of its receptions, seen from the newest one. -/
def Anchored (log : Log) (newest : Seqno) : Prop :=
  ∀ x ∈ log.receptions,
    (Seqno.behind newest x.beacon.seqno : Int) = (log.newest - x.position) % 65536

theorem Anchored.grows (h : log.Anchored o.newest) (grows : Grows log o r time log') :
    log'.Anchored (if r.late then o.newest else r.beacon.seqno) := by
  have ahead := Seqno.ahead_emod r.beacon.seqno o.newest
  cases grows with
  | restart inTime =>
    rw [inTime]
    refine List.forall_mem_singleton.mpr ?_
    rw [if_neg nofun, Seqno.behind_self]
    rfl
  | late late =>
    rw [late]
    refine List.forall_mem_cons.mpr ⟨?_, h⟩
    rw [if_pos rfl, Seqno.behind_eq]
    dsimp only
    omega
  | onward inTime =>
    rw [inTime, if_neg nofun]
    refine List.forall_mem_cons.mpr ⟨?_, fun x mem => ?_⟩
    · rw [Seqno.behind_self, Int.sub_self]
      rfl
    · have old := h x mem
      rw [Seqno.behind_eq] at old ⊢
      dsimp only
      omega

theorem Anchored.behind {newest : Seqno} (h : log.Anchored newest) {x : Placed}
    (mem : x ∈ log.receptions) {p : Nat} (near : p < Window.size)
    (place : x.position = log.newest - p) : Seqno.behind newest x.beacon.seqno = p := by
  have := h x mem
  unfold Window.size at near
  omega

end Log

end BeaconMesh
