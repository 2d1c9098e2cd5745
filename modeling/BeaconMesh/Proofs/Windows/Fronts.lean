import BeaconMesh.Proofs.Engine.Fields
import BeaconMesh.Proofs.Windows.Receptions
import Mathlib.Algebra.BigOperators.Group.List.Basic
import Mathlib.Algebra.GroupWithZero.Nat

/-!
# How numbers move on

The `Front` of an originator is what its windows know of its numbers. `Front.Moves` says how a call
moves it, and `History.onward` how far it moved once a fresh beacon came: as long as the windows do
not start anew, by what the calls since then moved it ahead in total.
-/

namespace BeaconMesh

/-! ### Where the windows stand -/

/-- What an originator's windows know of its numbers: the newest one, and which came. -/
structure Front where
  newest : Seqno := 0
  received : Window := .empty

/-- How a call moves a front: not at all, or to the number of a fresh beacon, which lies ahead or a
window or more behind unless there was no history. -/
inductive Front.Moves (f : Front) : Option Seqno → Front → Prop where
  | still {f' : Front} (newest : f'.newest = f.newest)
      (history : f.received.isEmpty = false → f'.received.isEmpty = false) : Moves f none f'
  | fresh {seqno : Seqno} (far : f.received.isEmpty = true ∨ 0 < Seqno.ahead seqno f.newest ∨
        Seqno.ahead seqno f.newest ≤ -Window.size) :
      Moves f (some seqno)
        { newest := seqno, received := f.received.mark (Seqno.ahead seqno f.newest) true }

def Originator.front (o : Originator) : Front := { newest := o.newest, received := o.received }

/-- The front of a node; blank if the node is not known. -/
def Engine.front (e : Engine) (a : Addr) : Front := e.origins.field Originator.front {} a

/-- The number of the beacon of an originator that a call received and answered as no duplicate, if
it did. -/
def Event.fresh? (x : Event) (a : Addr) : Option Seqno :=
  match x.reply with
  | .packet (.beacon false _ _) =>
    (x.reception?.filter fun r => r.beacon.orig = a).map fun r => r.beacon.seqno
  | _ => none

/-- Whether a call received a beacon and answered that it is a duplicate. -/
def Event.isDuplicate (x : Event) : Bool :=
  match x.reply with
  | .packet (.beacon duplicate _ _) => duplicate
  | _ => false

theorem Event.fresh?_of_none {x : Event} (other : x.call.reception? false = none) (a : Addr) :
    x.fresh? a = none := by
  unfold fresh? reception?
  split
  · rename_i reply
    rw [reply]
    show ((x.call.reception? false).filter _).map _ = none
    rw [other]
    rfl
  · rfl

theorem Event.fresh?_of_some {x : Event} {r : Reception} {twoWay relayed : Bool}
    (reply : x.reply = .packet (.beacon false twoWay relayed))
    (brought : x.call.reception? false = some r) (a : Addr) :
    x.fresh? a = if r.beacon.orig = a then some r.beacon.seqno else none := by
  unfold fresh? reception?
  rw [reply]
  show ((x.call.reception? false).filter _).map _ = _
  rw [brought, Option.filter_some]
  by_cases orig : r.beacon.orig = a
  · rw [if_pos orig, if_pos (decide_eq_true orig)]
    rfl
  · rw [if_neg orig, if_neg (by simpa using orig)]
    rfl

namespace Front.Moves

variable {f f' : Front} {fresh? : Option Seqno} {seqno : Seqno}

theorem history (h : f.Moves fresh? f') (begun : f.received.isEmpty = false) :
    f'.received.isEmpty = false := by
  cases h with
  | still _ kept => exact kept begun
  | fresh => exact Window.not_isEmpty (Window.has_mark_zero _ _)

theorem newest (h : f.Moves none f') : f'.newest = f.newest := by
  cases h with
  | still newest => exact newest

theorem front_eq (h : f.Moves (some seqno) f') :
    f' = { newest := seqno, received := f.received.mark (Seqno.ahead seqno f.newest) true } := by
  cases h
  rfl

theorem far (h : f.Moves (some seqno) f') (history : f.received.isEmpty = false) :
    0 < Seqno.ahead seqno f.newest ∨ Seqno.ahead seqno f.newest ≤ -Window.size := by
  cases h with
  | fresh far =>
    rcases far with none | far
    · rw [history] at none
      cases none
    · exact far

theorem onward_or_restarts (h : f.Moves fresh? f') (history : f.received.isEmpty = false) :
    0 ≤ Seqno.ahead f'.newest f.newest ∨
      ∃ seqno, fresh? = some seqno ∧ Seqno.ahead seqno f.newest ≤ -Window.size ∧
        f' = { newest := seqno, received := Window.empty.record 0 } := by
  cases fresh? with
  | none =>
    rw [h.newest, Seqno.ahead_self]
    exact .inl (Int.le_refl 0)
  | some seqno =>
    have far := h.far history
    cases h with
    | fresh =>
      rcases far with ahead | behind
      · exact .inl (Int.le_of_lt ahead)
      · refine .inr ⟨seqno, rfl, behind, ?_⟩
        have back : ¬ (0 ≤ Seqno.ahead seqno f.newest ∧
            Seqno.ahead seqno f.newest < Window.size) := by omega
        rw [Window.mark, if_pos rfl, Window.advance, if_neg back]

end Front.Moves

/-- Whether a call received a beacon of an originator a window or more behind the newest number, so
that the windows started anew with it. -/
def Event.restarts (x : Event) (a : Addr) : Prop :=
  ∃ seqno, x.fresh? a = some seqno ∧
    Seqno.ahead seqno (x.before.front a).newest ≤ -Window.size ∧
    x.after.front a = { newest := seqno, received := Window.empty.record 0 }

/-- How far calls moved the newest number of an originator ahead in total. -/
def advance (a : Addr) (xs : List Event) : Nat :=
  (xs.map fun x => (Seqno.ahead (x.after.front a).newest (x.before.front a).newest).toNat).sum

namespace Originator

variable {o o' : Originator} {seqno : Seqno} {ttl : UInt8} {hop : Hop} {now : Time}

/-- Whether the newest number came, if any did. -/
def HoldsNewest (o : Originator) : Prop := o.received.isEmpty = false → o.received.has 0 = true

theorem hear_front_late {p : Nat} (arrival : o.arrival seqno = .late p) :
    (o.hear seqno ttl hop now).front = { newest := o.newest, received := o.received.record p } := by
  obtain ⟨newest, received⟩ := ensureLink_windows
    { o with received := o.received.record p, lastSeen := now } hop now
  unfold hear
  rw [arrival]
  show Front.mk (ensureLink _ hop now).newest (ensureLink _ hop now).received = _
  rw [newest, received]

theorem hear_front (inTime : ∀ p, o.arrival seqno ≠ .late p) :
    (o.hear seqno ttl hop now).front =
      { newest := seqno, received := o.received.mark (Seqno.ahead seqno o.newest) true } := by
  obtain ⟨newest, received⟩ := ensureLink_windows
    { o with
      received := o.received.mark (Seqno.ahead seqno o.newest) true
      newest := seqno
      lastSeen := now } hop now
  have moved : (o.hearNewest seqno hop now).front =
      { newest := seqno, received := o.received.mark (Seqno.ahead seqno o.newest) true } := by
    show Front.mk (ensureLink _ hop now).newest (ensureLink _ hop now).received = _
    rw [newest, received]
  unfold hear
  split
  · exact absurd ‹_› (inTime _)
  · exact moved
  · exact moved

theorem front_of_keepsWindows (h : o.KeepsWindows o') : o'.front = o.front := by
  unfold front
  rw [h.newest, h.received]

theorem holdsNewest_congr (same : o'.front = o.front) (h : o.HoldsNewest) : o'.HoldsNewest := by
  have received : o'.received = o.received := congrArg Front.received same
  unfold HoldsNewest
  rwa [received]

theorem HoldsNewest.hear (h : o.HoldsNewest) (seqno : Seqno) (ttl : UInt8) (hop : Hop)
    (now : Time) : (o.hear seqno ttl hop now).HoldsNewest := by
  intro _
  show (o.hear seqno ttl hop now).front.received.has 0 = true
  by_cases late : ∃ p, o.arrival seqno = .late p
  · obtain ⟨p, arrival⟩ := late
    obtain ⟨history, -⟩ := arrival_late_iff.mp arrival
    rw [hear_front_late arrival, Window.has_record, h history]
    rfl
  · rw [hear_front fun p arrival => late ⟨p, arrival⟩]
    exact Window.has_mark_zero _ _

theorem holdsNewest_invariant (s : Setup) :
    Engine.EntryInvariant s fun _ o => o.HoldsNewest where
  new _ _ none := by cases none
  hear now _ holds := holds.hear _ _ _ now
  update change := holdsNewest_congr (front_of_keepsWindows change.keepsWindows)
  decay change := holdsNewest_congr (front_of_keepsWindows change.keepsWindows)

/-! ### What a number is to the windows -/

/-- What a number is to the windows, by how far it lies from the newest one. -/
inductive Arrives (o : Originator) (seqno : Seqno) : Arrival → Prop where
  | late {p : Nat} (back : Seqno.ahead seqno o.newest < 0) : Arrives o seqno (.late p)
  | duplicate (history : o.received.isEmpty = false) (again : o.newest = seqno) :
      Arrives o seqno .duplicate
  | fresh (far : o.received.isEmpty = true ∨ 0 < Seqno.ahead seqno o.newest ∨
        Seqno.ahead seqno o.newest ≤ -Window.size) : Arrives o seqno .fresh

theorem arrival_of_inTime (inTime : ∀ p, o.arrival seqno ≠ .late p) :
    o.arrival seqno =
      if ! o.received.isEmpty && o.received.seen o.newest seqno then .duplicate else .fresh := by
  unfold arrival at inTime ⊢
  split
  · rename_i p late
    rw [late] at inTime
    exact absurd rfl (inTime p)
  · rfl

theorem newest_of_seen (history : o.received.isEmpty = false)
    (inTime : ∀ p, o.arrival seqno ≠ .late p) (seen : o.received.seen o.newest seqno = true) :
    o.newest = seqno := by
  -- A recorded number lies less than a window back, so it would be late unless it is the newest.
  have near : Seqno.behind o.newest seqno < Window.size := by
    by_contra far
    unfold Window.seen at seen
    rw [Window.has_of_le _ (Nat.not_lt.mp far)] at seen
    cases seen
  have back : Seqno.ahead seqno o.newest = -(Seqno.behind o.newest seqno : Int) := by
    apply Seqno.ahead_eq_neg_behind
    unfold Window.size at near
    omega
  by_contra other
  have apart : Seqno.ahead seqno o.newest ≠ 0 := by
    intro zero
    exact other (Seqno.ahead_eq_zero_iff.mp zero).symm
  exact inTime _ (arrival_late_iff.mpr ⟨history, by omega, by omega, rfl⟩)

theorem arrives (h : o.HoldsNewest) (seqno : Seqno) : Arrives o seqno (o.arrival seqno) := by
  by_cases late : ∃ p, o.arrival seqno = .late p
  · obtain ⟨p, arrival⟩ := late
    obtain ⟨-, back, -⟩ := arrival_late_iff.mp arrival
    rw [arrival]
    exact .late back
  have inTime : ∀ p, o.arrival seqno ≠ .late p := fun p arrival => late ⟨p, arrival⟩
  rw [arrival_of_inTime inTime]
  cases history : o.received.isEmpty with
  | true => exact .fresh (.inl history)
  | false =>
    by_cases again : o.newest = seqno
    · have seen : o.received.seen o.newest seqno = true := by
        unfold Window.seen
        rw [again, Seqno.behind_self]
        exact h history
      rw [seen]
      exact .duplicate history again
    · have unseen : o.received.seen o.newest seqno = false :=
        Bool.eq_false_iff.mpr fun seen => again (newest_of_seen history inTime seen)
      have apart : Seqno.ahead seqno o.newest ≠ 0 :=
        fun zero => again (Seqno.ahead_eq_zero_iff.mp zero).symm
      have early : ¬ (Seqno.ahead seqno o.newest < 0 ∧
          -Window.size < Seqno.ahead seqno o.newest) :=
        fun back => inTime _ (arrival_late_iff.mpr ⟨history, back.1, back.2, rfl⟩)
      rw [unseen]
      exact .fresh (.inr (by omega))

theorem arrival_duplicate_iff (h : o.HoldsNewest) :
    o.arrival seqno = .duplicate ↔ o.received.isEmpty = false ∧ o.newest = seqno := by
  constructor
  · intro duplicate
    have arrives := arrives h seqno
    rw [duplicate] at arrives
    cases arrives with
    | duplicate history again => exact ⟨history, again⟩
  · rintro ⟨history, rfl⟩
    have inTime : ∀ p, o.arrival o.newest ≠ .late p := by
      intro p late
      obtain ⟨-, back, -⟩ := arrival_late_iff.mp late
      rw [Seqno.ahead_self] at back
      cases back
    have seen : o.received.seen o.newest o.newest = true := by
      unfold Window.seen
      rw [Seqno.behind_self]
      exact h history
    rw [arrival_of_inTime inTime, history, seen]
    rfl

end Originator

namespace Engine

variable {e e' : Engine} {b : Beacon} {hop : Hop} {now : Time} {a : Addr}

theorem front_getOrNew (e : Engine) (a : Addr) (now : Time) :
    (e.origins.getOrNew a now).front = e.front a :=
  Origins.field_getOrNew rfl

theorem hear_front (e : Engine) (b : Beacon) (hop : Hop) (now : Time) (a : Addr) :
    (e.hear b hop now).front a =
      if b.orig = a then ((e.origins.getOrNew b.orig now).hear b.seqno b.ttl hop now).front
      else e.front a :=
  Origins.field_insert _ _ _ _

/-- A beacon that is heard moves the front of its originator, to its number if it is fresh. -/
theorem hear_moves (hop : Hop) (holds : (e.origins.getOrNew b.orig now).HoldsNewest) (a : Addr) :
    Front.Moves (e.front a)
      (if b.orig = a ∧ (e.origins.getOrNew b.orig now).arrival b.seqno = .fresh then some b.seqno
        else none)
      ((e.hear b hop now).front a) := by
  rw [hear_front]
  by_cases orig : b.orig = a
  · have arrives := Originator.arrives holds b.seqno
    rw [if_pos orig, ← orig, ← front_getOrNew e b.orig now]
    generalize e.origins.getOrNew b.orig now = o at holds arrives ⊢
    cases arrival : o.arrival b.seqno with
    | late p =>
      rw [Originator.hear_front_late arrival, if_neg (by simp)]
      refine .still rfl ?_
      intro history
      apply Window.not_isEmpty (p := 0)
      rw [Window.has_record, holds history]
      rfl
    | duplicate =>
      have again := (Originator.arrival_duplicate_iff holds).mp arrival
      rw [Originator.hear_front (by rw [arrival]; nofun), if_neg (by simp)]
      refine .still again.2.symm ?_
      intro _
      exact Window.not_isEmpty (Window.has_mark_zero _ _)
    | fresh =>
      rw [arrival] at arrives
      cases arrives with
      | fresh far =>
        rw [Originator.hear_front (by rw [arrival]; nofun), if_pos ⟨rfl, rfl⟩]
        exact .fresh far
  · rw [if_neg orig, if_neg fun both => orig both.1]
    exact .still rfl id

theorem judge_front {duplicate : Bool} {outcome : PacketOutcome}
    (h : e.judge b hop duplicate now = .ok (e', outcome)) (a : Addr) :
    e'.front a = e.front a := by
  have ranks : ∀ (b : Beacon) (o : Originator), (ranked o b hop).1.front = o.front := by
    intro b o
    obtain ⟨_, frame⟩ := o.ranked_frame b hop
    rw [frame]
    rfl
  exact judge_sameField h rfl (fun _ _ _ => rfl) ranks (fun _ _ _ _ => rfl) a

theorem Takes.moves {c : Call} {r : Reception} {outcome : PacketOutcome}
    (brought : c.reception? false = some r) (taken : e.Takes r.beacon r.hop r.now outcome e')
    (holds : (e.origins.getOrNew r.beacon.orig r.now).HoldsNewest) (a : Addr) :
    Front.Moves (e.front a) (Event.fresh? ⟨e, c, .packet outcome, e'⟩ a) (e'.front a) := by
  cases taken with
  | refused => exact .still rfl id
  | @echo here =>
    have same : (e.hearEcho r.beacon r.hop.addr here r.now).front a = e.front a :=
      hearEcho_sameField e r.beacon r.hop.addr here r.now rfl (fun _ _ _ => rfl) a
    rw [same]
    exact .still rfl id
  | late admitted arrival =>
    have moved := hear_moves r.hop holds a
    rw [arrival, if_neg (by simp)] at moved
    exact moved
  | @judged _ duplicate _ _ admitted arrival work =>
    have moved := hear_moves r.hop holds a
    rw [arrival] at moved
    rw [judge_front work]
    cases duplicate with
    | true =>
      rw [if_neg (by simp)] at moved
      exact moved
    | false =>
      rw [Event.fresh?_of_some rfl brought]
      simpa using moved

theorem Decays.front (h : Decays e e') (live : (e'.origins.get? a).isSome = true) :
    e'.front a = e.front a :=
  h.field live fun change => Originator.front_of_keepsWindows change.keepsWindows

theorem Does.moves {c : Call} {reply : Reply} (h : Does e c reply e')
    (holds : ∀ a now, (e.origins.getOrNew a now).HoldsNewest)
    (live : Event.fresh? ⟨e, c, reply, e'⟩ a = none → (e'.origins.get? a).isSome = true) :
    Front.Moves (e.front a) (Event.fresh? ⟨e, c, reply, e'⟩ a) (e'.front a) := by
  have still : ∀ {mid : Engine}, mid.front a = e.front a → Decays mid e' →
      Event.fresh? ⟨e, c, reply, e'⟩ a = none →
      Front.Moves (e.front a) (Event.fresh? ⟨e, c, reply, e'⟩ a) (e'.front a) := by
    intro mid same decays quiet
    rw [quiet, Decays.front decays (live quiet), same]
    exact .still rfl id
  cases h with
  | start work => exact still (SameField.of_origins (start_same work).origins a) .refl rfl
  | beacon brought taken => exact taken.moves brought (holds _ _) a
  | data other carried =>
    exact still (carried.sameField (fun _ _ _ => rfl) a) .refl (Event.fresh?_of_none other a)
  | frame bridged => exact still (SameField.of_origins bridged.origins a) .refl rfl
  | @poll now settled work =>
    have performed : settled.front a = e.front a := work.sameField (fun _ _ => rfl) a
    apply still performed _ rfl
    split
    · exact sweep_decays settled now
    · exact .refl
  | sweep now => exact still rfl (sweep_decays e now) rfl
  | shutdown now => exact still rfl (shutdown_decays e now) rfl

/-! ### Histories -/

variable {s : Setup} {jitter : Jitter} {past earlier between : List Event} {x : Event}

theorem History.holdsNewest (h : History (.new s jitter) past e) (a : Addr) (now : Time) :
    (e.origins.getOrNew a now).HoldsNewest := by
  have inv := Originator.holdsNewest_invariant s
  exact inv.getOrNew (inv.run (run_of_history h)) a now

theorem History.moves (h : History (.new s jitter) past e) (mem : x ∈ past)
    (live : x.fresh? a = none → (x.after.origins.get? a).isSome = true) :
    Front.Moves (x.before.front a) (x.fresh? a) (x.after.front a) := by
  obtain ⟨_, before, made⟩ := h.cut_of_mem mem
  exact (step_does made).moves before.holdsNewest live

/-- While a node stays known and its windows do not start anew, the newest number moves on from that
of a fresh beacon. -/
theorem History.onward {seqno : Seqno} (h : History (.new s jitter) (between ++ x :: earlier) e)
    (fresh : x.fresh? a = some seqno)
    (live : ∀ y ∈ between, (y.after.origins.get? a).isSome = true)
    (onward : ∀ y ∈ between, ¬ y.restarts a) :
    (e.front a).received.isEmpty = false ∧
      ((seqno.toNat : Int) + advance a between) % 65536 = (e.front a).newest.toNat := by
  -- By induction on the calls since the beacon, the last of them first.
  induction between generalizing e with
  | nil =>
    obtain ⟨-, rfl⟩ := h.last
    have moved := h.moves (a := a) List.mem_cons_self (by rw [fresh]; nofun)
    rw [fresh] at moved
    rw [moved.front_eq]
    refine ⟨Window.not_isEmpty (Window.has_mark_zero _ _), ?_⟩
    have := seqno.toNat_lt
    show ((seqno.toNat : Int) + (0 : Nat)) % 65536 = seqno.toNat
    omega
  | cons y between ih =>
    obtain ⟨before, rfl⟩ := h.last
    have moved := h.moves (a := a) List.mem_cons_self fun _ => live y List.mem_cons_self
    obtain ⟨history, place⟩ := ih before (fun z mem => live z (List.mem_cons_of_mem y mem))
      fun z mem => onward z (List.mem_cons_of_mem y mem)
    refine ⟨moved.history history, ?_⟩
    rcases moved.onward_or_restarts history with ahead | restarts
    · have leads := Seqno.ahead_emod (y.after.front a).newest (y.before.front a).newest
      have total : advance a (y :: between) =
          (Seqno.ahead (y.after.front a).newest (y.before.front a).newest).toNat +
            advance a between := List.sum_cons
      have := (y.after.front a).newest.toNat_lt
      omega
    · exact absurd restarts (onward y List.mem_cons_self)

theorem History.advance_eq_zero (h : History (.new s jitter) past e)
    (listed : ∀ y ∈ between, y ∈ past)
    (live : ∀ y ∈ between, (y.after.origins.get? a).isSome = true)
    (quiet : ∀ y ∈ between, y.fresh? a = none) : advance a between = 0 := by
  unfold advance
  apply List.sum_eq_zero
  intro n mem
  obtain ⟨y, here, rfl⟩ := List.mem_map.mp mem
  have moved := h.moves (listed y here) fun _ => live y here
  rw [quiet y here] at moved
  rw [moved.newest, Seqno.ahead_self]
  rfl

/-! ### Two fresh beacons -/

section Apart

variable {later : List Event} {x₁ x₂ : Event} {s₁ s₂ : Seqno}

theorem History.apart
    (h : History (.new s jitter) (later ++ x₂ :: (between ++ x₁ :: earlier)) e)
    (first : x₁.fresh? a = some s₁) (second : x₂.fresh? a = some s₂)
    (live : ∀ y ∈ between, (y.after.origins.get? a).isSome = true)
    (onward : ∀ y ∈ between, ¬ y.restarts a) :
    ∃ newest : Seqno, ((s₁.toNat : Int) + advance a between) % 65536 = newest.toNat ∧
      (0 < Seqno.ahead s₂ newest ∨ Seqno.ahead s₂ newest ≤ -Window.size) := by
  have moved := h.moves (a := a) (List.mem_append_right later List.mem_cons_self)
    (by rw [second]; nofun)
  rw [second] at moved
  obtain ⟨before, -⟩ := h.cut
  obtain ⟨history, place⟩ := before.onward first live onward
  exact ⟨_, place, moved.far history⟩

/-- A fresh beacon lies ahead of the fresh one before it, or a window or more behind. -/
theorem History.apart_of_quiet
    (h : History (.new s jitter) (later ++ x₂ :: (between ++ x₁ :: earlier)) e)
    (first : x₁.fresh? a = some s₁) (second : x₂.fresh? a = some s₂)
    (live : ∀ y ∈ between, (y.after.origins.get? a).isSome = true)
    (quiet : ∀ y ∈ between, y.fresh? a = none) :
    0 < Seqno.ahead s₂ s₁ ∨ Seqno.ahead s₂ s₁ ≤ -Window.size := by
  have onward : ∀ y ∈ between, ¬ y.restarts a := by
    rintro y mem ⟨_, fresh, -⟩
    rw [quiet y mem] at fresh
    cases fresh
  obtain ⟨newest, place, far⟩ := h.apart first second live onward
  have listed : ∀ y ∈ between, y ∈ between ++ x₁ :: earlier := fun y => List.mem_append_left _
  obtain ⟨before, -⟩ := h.cut
  rw [before.advance_eq_zero listed live quiet] at place
  have same : newest = s₁ := by
    apply UInt16.toNat_inj.mp
    have := s₁.toNat_lt
    omega
  rw [← same]
  exact far

/-- A number is fresh again only after the newest number moved a window ahead, or the windows
started anew. -/
theorem History.advance_of_again {seqno : Seqno}
    (h : History (.new s jitter) (later ++ x₂ :: (between ++ x₁ :: earlier)) e)
    (first : x₁.fresh? a = some seqno) (second : x₂.fresh? a = some seqno)
    (live : ∀ y ∈ between, (y.after.origins.get? a).isSome = true) :
    Window.size ≤ advance a between ∨ ∃ y ∈ between, y.restarts a := by
  by_contra neither
  obtain ⟨short, never⟩ := not_or.mp neither
  have onward : ∀ y ∈ between, ¬ y.restarts a := fun y mem again => never ⟨y, mem, again⟩
  obtain ⟨newest, place, far⟩ := h.apart first second live onward
  -- The number lies less than a window behind the newest one, so it is not fresh.
  have back : Seqno.ahead seqno newest = -(advance a between : Int) := by
    unfold Window.size at short
    apply Seqno.ahead_unique
    · omega
    · omega
    · have := seqno.toNat_lt
      omega
  omega

end Apart

end Engine

end BeaconMesh
