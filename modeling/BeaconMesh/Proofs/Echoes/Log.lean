import BeaconMesh.Proofs.Echoes.Numbers
import BeaconMesh.Proofs.Engine.Entries

/-!
# Logs of echoes

The `echoLog` of a neighbour on an interface lists the echoes that were taken from it, each with how
far it was behind the last beacon sent and how many beacons left since. `Aligned` says that a window
holds exactly the echoes of a log; a beacon that leaves moves both, because it carries the next
number.
-/

namespace BeaconMesh

theorem Seqno.behind_add (last s : Seqno) (k : Nat) :
    behind (last + UInt16.ofNat k) s = (behind last s + k) % 65536 := by
  have later := behind_eq (last + UInt16.ofNat k) s
  have old := behind_eq last s
  rw [UInt16.toNat_add, UInt16.toNat_ofNat'] at later
  omega

theorem Seqno.eq_of_behind_eq {last s s' : Seqno} (h : behind last s = behind last s') : s = s' := by
  have first := behind_eq last s
  have second := behind_eq last s'
  have := s.toNat_lt
  have := s'.toNat_lt
  refine UInt16.toNat_inj.mp ?_
  omega

/-- A window of echoes once `k` more of our beacons have left. -/
def Window.departed (w : Window) : Nat → Window
  | 0 => w
  | k + 1 => (w.departed k).mark 1 false

theorem Window.has_departed (w : Window) (k : Nat) {p : Nat} (near : p < size) :
    (w.departed k).has p = (decide (k ≤ p) && w.has (p - k)) := by
  induction k generalizing p with
  | zero => simp [departed]
  | succ k ih =>
    have step : (1 : Int) < size := by decide
    rw [departed, has_mark, has_advance, Bool.false_and, Bool.or_false]
    by_cases later : 1 ≤ p
    · have before : p - (1 : Int).toNat = p - 1 := rfl
      rw [before, ih (by omega), Nat.sub_sub, Nat.add_comm 1 k]
      simp only [← Bool.and_assoc, ← Bool.decide_and]
      congr 1
      simp only [decide_eq_decide]
      omega
    · have first : ¬ k + 1 ≤ p := by omega
      have none : ¬ (1 : Int) ≤ p := by omega
      simp [first, none]

theorem Window.departed_empty (k : Nat) : empty.departed k = empty := by
  induction k with
  | zero => rfl
  | succ k ih =>
    rw [departed, ih]
    decide

theorem Window.departed_add (w : Window) (k n : Nat) :
    (w.departed k).departed n = w.departed (k + n) := by
  induction n with
  | zero => rfl
  | succ n ih =>
    rw [departed, ih]
    rfl

/-! ### Logs of echoes -/

/-- A beacon of ours that a neighbour echoed. -/
structure Echo where
  seqno : Seqno
  /-- How far it was behind the last beacon sent when its echo came. -/
  behind : Nat
  /-- How many beacons have left since. -/
  since : Nat := 0

namespace Echo

def aged (k : Nat) (y : Echo) : Echo := { y with since := y.since + k }

def position (y : Echo) : Nat := y.behind + y.since

theorem position_aged (k : Nat) (y : Echo) : (y.aged k).position = y.position + k :=
  (Nat.add_assoc _ _ _).symm

end Echo

namespace Window

/-- A window of echoes after one more, if there is one. -/
def taking (w : Window) (y : Option Echo) : Window := y.elim w fun y => w.record y.behind

/-- Whether a window holds exactly the echoes of a log. -/
def Shows (w : Window) (log : List Echo) : Prop :=
  ∀ p < size, w.has p = true ↔ ∃ y ∈ log, y.position = p

theorem shows_empty : empty.Shows [] := by
  intro p _
  simp

theorem Shows.departed {w : Window} {log : List Echo} (h : w.Shows log) (k : Nat) :
    (w.departed k).Shows (log.map (Echo.aged k)) := by
  intro p near
  rw [has_departed w k near, Bool.and_eq_true, decide_eq_true_eq]
  simp only [List.mem_map, exists_exists_and_eq_and, Echo.position_aged]
  constructor
  · rintro ⟨later, held⟩
    obtain ⟨y, mem, place⟩ := (h (p - k) (by omega)).mp held
    exact ⟨y, mem, by omega⟩
  · rintro ⟨y, mem, place⟩
    exact ⟨by omega, (h (p - k) (by omega)).mpr ⟨y, mem, by omega⟩⟩

theorem Shows.taking {w : Window} {log : List Echo} (h : w.Shows log) {taken : Option Echo}
    (now : ∀ y ∈ taken, y.since = 0) : (w.taking taken).Shows (taken.toList ++ log) := by
  intro p near
  cases taken with
  | none => exact h p near
  | some y =>
    have place : y.position = y.behind := by
      unfold Echo.position
      rw [now y rfl]
      exact Nat.add_zero _
    show (w.record y.behind).has p = true ↔ ∃ z ∈ y :: log, z.position = p
    rw [has_record, Bool.or_eq_true, h p near, decide_eq_true_eq, and_iff_left near]
    simp only [List.mem_cons, exists_eq_or_imp, place]
    exact or_comm

end Window

/-- How many beacons of ours a call sent for an interface. -/
def Event.departures (iface : IfaceId) (x : Event) : Nat :=
  match x.call with
  | .poll now =>
    (x.before.performed now x.before.scheduler.size).countP fun t => t.ownIface? = some iface
  | _ => 0

/-- The echo that a call brought from a neighbour on an interface, if it was taken: a beacon in the
name of that interface, flagged as direct, whose number is less than a window behind the last. -/
def Event.echo? (a : Addr) (here : Iface) (x : Event) : Option Echo :=
  match x.reply, x.call.reception? false with
  | .packet (.dropped .ownBeacon), some r =>
    if r.hop = ⟨a, here.id⟩ ∧ r.beacon.isDirect = true ∧ r.beacon.orig = here.addr then
      (x.before.lastSent? here.id).bind fun last =>
        if Seqno.behind last r.beacon.seqno < Window.size then
          some { seqno := r.beacon.seqno, behind := Seqno.behind last r.beacon.seqno }
        else none
    else none
  | _, _ => none

/-- The echoes that were taken from a neighbour on an interface since the neighbour became known. -/
def echoLog (a : Addr) (here : Iface) : List Event → List Echo
  | [] => []
  | x :: past =>
    if (x.after.origins.get? a).isNone then []
    else (x.echo? a here).toList ++ (echoLog a here past).map (Echo.aged (x.departures here.id))

namespace Originator

def echoWindow (o : Originator) (iface : IfaceId) : Window := (o.echoes? iface).getD .empty

theorem echoWindow_new (a : Addr) (ifaces : Nat) (now : Time) (iface : IfaceId) :
    (Originator.new a ifaces now).echoWindow iface = .empty := by
  unfold echoWindow echoes? Originator.new
  rw [List.getElem?_replicate]
  split <;> rfl

theorem echoWindow_congr {o o' : Originator} (same : o'.echoes = o.echoes) (iface : IfaceId) :
    o'.echoWindow iface = o.echoWindow iface := by
  unfold echoWindow echoes?
  rw [same]

theorem echoWindow_ageEchoes (o : Originator) (leaving iface : IfaceId) :
    (o.ageEchoes leaving).echoWindow iface =
      (o.echoWindow iface).departed (if leaving = iface then 1 else 0) := by
  unfold echoWindow ageEchoes echoes?
  rw [List.getElem?_modify]
  cases o.echoes[iface]? with
  | none => exact (Window.departed_empty _).symm
  | some w => split <;> rfl

theorem echoWindow_recordEcho {o : Originator} {index : IfaceId} (fits : index < o.echoes.length)
    (offset : Nat) (iface : IfaceId) :
    (o.recordEcho index offset).echoWindow iface =
      if index = iface then (o.echoWindow iface).record offset else o.echoWindow iface := by
  unfold echoWindow recordEcho echoes?
  rw [List.getElem?_modify]
  split
  · rename_i same
    rw [← same, List.getElem?_eq_getElem fits]
    rfl
  · cases o.echoes[iface]? <;> rfl

end Originator

namespace Engine

variable {e e' : Engine} {a : Addr} {iface : IfaceId} {log : List Echo} {now : Time}

/-- The window of the echoes of a neighbour on an interface; empty if there is none. -/
def echoWindow (e : Engine) (a : Addr) (iface : IfaceId) : Window :=
  e.origins.field (fun o => o.echoWindow iface) .empty a

/-- The window of a neighbour holds the echoes of a log, and they stand where their numbers are,
seen from the last beacon sent. -/
structure Aligned (iface : IfaceId) (a : Addr) (log : List Echo) (e : Engine) : Prop where
  holds : ∀ p < Window.size, (e.echoWindow a iface).has p = true ↔ ∃ y ∈ log, y.position = p
  -- Echoes stay in the log for good, so one can fall behind by more than there are numbers.
  numbered : ∀ y ∈ log, ∃ last, e.lastSent? iface = some last ∧
    Seqno.behind last y.seqno = y.position % 65536
  near : ∀ y ∈ log, y.behind < Window.size

theorem Aligned.blank (empty : e.echoWindow a iface = .empty) : Aligned iface a [] e := by
  refine ⟨fun p _ => ?_, nofun, nofun⟩
  rw [empty, Window.has_empty]
  simp

/-- A call keeps the window in step with the log if it takes an echo, or has beacons leave, or does
neither. -/
theorem Aligned.step (h : Aligned iface a log e) {taken : Option Echo} {k : Nat}
    (window : e'.echoWindow a iface = ((e.echoWindow a iface).departed k).taking taken)
    (sent : ∀ last, e.lastSent? iface = some last →
      e'.lastSent? iface = some (last + UInt16.ofNat k))
    (echo : ∀ y ∈ taken, k = 0 ∧ y.since = 0 ∧ y.behind < Window.size ∧
      ∃ last, e.lastSent? iface = some last ∧ Seqno.behind last y.seqno = y.behind) :
    Aligned iface a (taken.toList ++ log.map (Echo.aged k)) e' := by
  have shows : (e.echoWindow a iface).Shows log := h.holds
  have others : ∀ y ∈ log.map (Echo.aged k), ∃ last, e'.lastSent? iface = some last ∧
      Seqno.behind last y.seqno = y.position % 65536 := by
    intro _ listed
    obtain ⟨y, mem, rfl⟩ := List.mem_map.mp listed
    obtain ⟨last, departed, place⟩ := h.numbered y mem
    refine ⟨_, sent last departed, ?_⟩
    show Seqno.behind _ y.seqno = _
    rw [Seqno.behind_add, place, Echo.position_aged]
    omega
  refine ⟨?_, ?_, ?_⟩
  · rw [window]
    exact (shows.departed k).taking fun y mem => (echo y mem).2.1
  · intro y mem
    rcases List.mem_append.mp mem with new | old
    · obtain ⟨rfl, now, near, last, departed, place⟩ := echo y (Option.mem_toList.mp new)
      refine ⟨last, by simpa using sent last departed, ?_⟩
      have small := Seqno.behind_lt last y.seqno
      unfold Echo.position
      omega
    · exact others y old
  · intro y mem
    rcases List.mem_append.mp mem with new | old
    · exact (echo y (Option.mem_toList.mp new)).2.2.1
    · obtain ⟨z, listed, rfl⟩ := List.mem_map.mp old
      exact h.near z listed

end Engine

namespace Event

variable {x : Event} {a : Addr} {here : Iface}

theorem echo?_of_ne (other : x.reply ≠ .packet (.dropped .ownBeacon)) : x.echo? a here = none := by
  unfold echo?
  split
  · rename_i reply _
    exact absurd reply other
  · rfl

theorem echo?_of_none (silent : x.call.reception? false = none) : x.echo? a here = none := by
  unfold echo?
  rw [silent]
  split
  · rename_i r brought
    cases brought
  · rfl

theorem departures_of_reception {r : Reception} (brought : x.call.reception? false = some r)
    (iface : IfaceId) : x.departures iface = 0 := by
  unfold departures
  split
  · rename_i now poll
    rw [poll] at brought
    cases brought
  · rfl

theorem echo?_eq {r : Reception} (reply : x.reply = .packet (.dropped .ownBeacon))
    (brought : x.call.reception? false = some r) :
    x.echo? a here = if r.hop = ⟨a, here.id⟩ then
      (x.before.echoOffset? r.beacon here).map fun k => { seqno := r.beacon.seqno, behind := k }
    else none := by
  unfold echo? Engine.echoOffset?
  rw [reply, brought]
  dsimp only
  by_cases same : r.hop = ⟨a, here.id⟩
  · by_cases direct : r.beacon.isDirect = true ∧ r.beacon.orig = here.addr
    · rw [if_pos ⟨same, direct⟩, if_pos same, if_pos (by simpa using direct)]
      change Option.bind (x.before.lastSent? here.id) _ =
        (Option.bind (x.before.lastSent? here.id) _).map _
      cases x.before.lastSent? here.id with
      | none => rfl
      | some last =>
        rw [Option.bind_some, Option.bind_some]
        split <;> rfl
    · rw [if_neg fun both => direct both.2, if_pos same, if_neg (by simpa using direct)]
      rfl
  · rw [if_neg fun both => same both.1, if_neg same]

theorem echo?_eq_some {y : Echo} (h : x.echo? a here = some y) :
    ∃ r last, x.reply = .packet (.dropped .ownBeacon) ∧ x.call.reception? false = some r ∧
      r.hop = ⟨a, here.id⟩ ∧ r.beacon.isDirect = true ∧ r.beacon.orig = here.addr ∧
      x.before.lastSent? here.id = some last ∧
      Seqno.behind last r.beacon.seqno < Window.size ∧
      y = { seqno := r.beacon.seqno, behind := Seqno.behind last r.beacon.seqno } := by
  unfold echo? at h
  split at h
  · rename_i r reply brought
    split at h
    · rename_i direct
      obtain ⟨last, sent, h⟩ := Option.bind_eq_some_iff.mp h
      split at h
      · rename_i near
        cases h
        exact ⟨r, last, reply, brought, direct.1, direct.2.1, direct.2.2, sent, near, rfl⟩
      · cases h
    · cases h
  · cases h

theorem echo?_since {y : Echo} (h : x.echo? a here = some y) : y.since = 0 := by
  obtain ⟨_, _, -, -, -, -, -, -, -, rfl⟩ := echo?_eq_some h
  rfl

end Event

end BeaconMesh
