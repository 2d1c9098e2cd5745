import BeaconMesh.Proofs.Routes.Rankings
import BeaconMesh.Proofs.Windows.Fronts

/-!
# Each number counts once

Only a fresh beacon changes the `Standing` of its originator, which is what routing knows of it. A
number is fresh again only after the newest number moved a window ahead, or the windows started
anew: `seqno_drives_once`.
-/

namespace BeaconMesh

/-- What routing knows of an originator: what counts for each hop, the route, the number and the
hops of the last beacons that counted, and what it announces. -/
structure Standing where
  ranking : Hop → Ranking := fun _ => {}
  route : Option Hop := none
  lastRanked : Seqno := 0
  lastTtl : UInt8 := 0
  hosts : AddrSet := .empty
  hostBytes : Bytes := []
  gatewayClass : UInt8 := 0

namespace Originator

variable {o : Originator} {seqno : Seqno} {ttl : UInt8} {hop : Hop} {now : Time}

def standing (o : Originator) : Standing where
  ranking := o.ranking
  route := o.route
  lastRanked := o.lastRanked
  lastTtl := o.lastTtl
  hosts := o.hosts
  hostBytes := o.hostBytes
  gatewayClass := o.gatewayClass

theorem hear_standing (old : o.arrival seqno ≠ .fresh) :
    (o.hear seqno ttl hop now).standing = o.standing := by
  have kept : ∃ received newest lastSeen links,
      o.hear seqno ttl hop now = { o with received, newest, lastSeen, links } := by
    unfold hear hearLate hearNewest
    dsimp only
    split
    · obtain ⟨links, ensured⟩ := ensureLink_frame _ hop now
      rw [ensured]
      exact ⟨_, _, _, _, rfl⟩
    · obtain ⟨links, ensured⟩ := ensureLink_frame _ hop now
      rw [ensured]
      exact ⟨_, _, _, _, rfl⟩
    · exact absurd ‹_› old
  have ranking : (o.hear seqno ttl hop now).ranking = o.ranking := by
    funext other
    exact o.ranking_hear seqno ttl hop now other
  obtain ⟨_, _, _, _, frame⟩ := kept
  unfold standing
  rw [ranking, frame]

end Originator

namespace Engine

variable {e e' : Engine} {b : Beacon} {hop : Hop} {now : Time} {a : Addr}

/-- The standing of a node; blank if the node is not known. -/
def standing (e : Engine) (a : Addr) : Standing := e.origins.field Originator.standing {} a

theorem hear_standing (old : (e.origins.getOrNew b.orig now).arrival b.seqno ≠ .fresh) (a : Addr) :
    (e.hear b hop now).standing a = e.standing a := by
  apply Origins.field_insert_same
  rw [Originator.hear_standing old]
  exact Origins.field_getOrNew rfl

theorem judge_duplicate_standing {outcome : PacketOutcome}
    (h : e.judge b hop true now = .ok (e', outcome)) (a : Addr) :
    e'.standing a = e.standing a ∧ e'.gateways = e.gateways := by
  obtain ⟨assessed, estimate, relayed, judged, considered, -⟩ := judge_eq_ok.mp h
  have first : SameField Originator.standing {} e assessed :=
    assess_sameField judged rfl fun _ _ _ => rfl
  have same := considerRelay_same considered
  refine ⟨(SameField.of_origins same.origins a).trans (first a), same.gateways.trans ?_⟩
  obtain ⟨_, _, judged⟩ := Fault.bind_ok judged
  cases Fault.pure_ok judged
  rfl

/-- Whatever becomes of a beacon, nothing but a fresh one changes a standing or a gateway. -/
theorem Takes.standing {c : Call} {r : Reception} {outcome : PacketOutcome}
    (brought : c.reception? false = some r) (taken : e.Takes r.beacon r.hop r.now outcome e')
    (old : Event.fresh? ⟨e, c, .packet outcome, e'⟩ r.beacon.orig = none) (a : Addr) :
    e'.standing a = e.standing a ∧ e'.gateways = e.gateways := by
  cases taken with
  | refused => exact ⟨rfl, rfl⟩
  | @echo here =>
    refine ⟨hearEcho_sameField e r.beacon r.hop.addr here r.now rfl (fun _ _ _ => rfl) a, ?_⟩
    unfold hearEcho
    split <;> rfl
  | late admitted arrival =>
    exact ⟨hear_standing (by rw [arrival]; nofun) a, rfl⟩
  | @judged _ duplicate _ _ admitted arrival work =>
    cases duplicate with
    | true =>
      obtain ⟨standing, gateways⟩ := judge_duplicate_standing work a
      exact ⟨standing.trans (hear_standing (by rw [arrival]; nofun) a), gateways⟩
    | false =>
      rw [Event.fresh?_of_some rfl brought, if_pos rfl] at old
      cases old

theorem Takes.isDuplicate_iff {c : Call} {r : Reception} {outcome : PacketOutcome}
    (taken : e.Takes r.beacon r.hop r.now outcome e')
    (received : (received? c (.packet outcome)).isSome = true)
    (holds : (e.origins.getOrNew r.beacon.orig r.now).HoldsNewest) :
    Event.isDuplicate ⟨e, c, .packet outcome, e'⟩ = true ↔
      (e.front r.beacon.orig).received.isEmpty = false ∧
        (e.front r.beacon.orig).newest = r.beacon.seqno := by
  rw [← front_getOrNew e r.beacon.orig r.now]
  show _ ↔ (e.origins.getOrNew r.beacon.orig r.now).received.isEmpty = false ∧
    (e.origins.getOrNew r.beacon.orig r.now).newest = r.beacon.seqno
  rw [← Originator.arrival_duplicate_iff holds]
  cases taken with
  | refused => cases received
  | echo => cases received
  | late _ arrival =>
    rw [arrival]
    exact iff_of_false nofun nofun
  | @judged _ duplicate _ _ _ arrival _ =>
    rw [arrival]
    cases duplicate with
    | true => exact iff_of_true rfl rfl
    | false => exact iff_of_false nofun nofun

/-! ### The whole -/

/-- A number is fresh once, until the windows move past it or start anew, and only a fresh beacon
changes what routing knows. -/
theorem seqno_drives_once {s : Setup} {jitter : Jitter} {cs : List Call} {e : Engine}
    (h : (Engine.new s jitter).run cs = .ok e) :
    ∃ past, History (.new s jitter) past e ∧ past.reverse.map Event.call = cs ∧
      (∀ x ∈ past, ∀ r, x.reception? = some r →
        (x.isDuplicate = true ↔ (x.before.front r.beacon.orig).received.isEmpty = false ∧
          (x.before.front r.beacon.orig).newest = r.beacon.seqno)) ∧
      (∀ a later x₂ between x₁ earlier s₁ s₂, past = later ++ x₂ :: (between ++ x₁ :: earlier) →
        x₁.fresh? a = some s₁ → x₂.fresh? a = some s₂ →
        (∀ y ∈ between, (y.after.origins.get? a).isSome = true) →
        ((∀ y ∈ between, y.fresh? a = none) →
          0 < Seqno.ahead s₂ s₁ ∨ Seqno.ahead s₂ s₁ ≤ -Window.size) ∧
        (s₁ = s₂ → Window.size ≤ advance a between ∨ ∃ y ∈ between, y.restarts a)) ∧
      ∀ x ∈ past, ∀ r, x.call.reception? false = some r → x.fresh? r.beacon.orig = none →
        ∀ a, x.after.standing a = x.before.standing a ∧ x.after.gateways = x.before.gateways := by
  obtain ⟨past, history, calls⟩ := run_iff_history.mp h
  refine ⟨past, history, calls, ?_, ?_, ?_⟩
  · intro x mem r received
    obtain ⟨_, before, made⟩ := history.cut_of_mem mem
    obtain ⟨outcome, answered, taken⟩ := (step_does made).takes (brought_of_received received)
    cases x with
    | mk e₁ c _ e₂ =>
      cases answered
      have judged := Option.isSome_iff_exists.mpr ⟨r, received⟩
      exact taken.isDuplicate_iff judged (before.holdsNewest _ _)
  · intro a later x₂ between x₁ earlier s₁ s₂ split first second live
    subst split
    refine ⟨history.apart_of_quiet first second live, ?_⟩
    rintro rfl
    exact history.advance_of_again first second live
  · intro x mem r brought old a
    obtain ⟨_, before, made⟩ := history.cut_of_mem mem
    obtain ⟨outcome, answered, taken⟩ := (step_does made).takes brought
    cases x with
    | mk e₁ c _ e₂ =>
      cases answered
      exact taken.standing brought old a

/-- The node behind the neighbour goes on by a window, then starts over with an old number, which
counts again, and repeats that. -/
def startOver : List Call :=
  Sample.calls ++ [.beacon (Sample.relayed 65 []) Sample.near 0 1006,
    .beacon (Sample.relayed 1 []) Sample.near 0 1007,
    .beacon (Sample.relayed 1 []) Sample.near 1 1008]

theorem seqno_drives_once_sample :
    ∃ e o past, (Engine.new Sample.setup default).run startOver = .ok e ∧
      e.origins.get? Sample.far = some o ∧ o.front = { newest := 1, received := ⟨1#64⟩ } ∧
      o.lastRanked = 1 ∧ History (.new Sample.setup default) past e ∧
      past.reverse.map Event.call = startOver ∧
      ∀ a later x₂ between x₁ earlier s₁, past = later ++ x₂ :: (between ++ x₁ :: earlier) →
        x₁.fresh? a = some s₁ → x₂.fresh? a = some s₁ →
        (∀ y ∈ between, (y.after.origins.get? a).isSome = true) →
        Window.size ≤ advance a between ∨ ∃ y ∈ between, y.restarts a := by
  have reached : ∃ e o, (Engine.new Sample.setup default).run startOver = .ok e ∧
      e.origins.get? Sample.far = some o ∧ o.front = { newest := 1, received := ⟨1#64⟩ } ∧
      o.lastRanked = 1 := ⟨_, _, rfl, rfl, rfl, rfl⟩
  obtain ⟨e, o, run, known, front, ranked⟩ := reached
  obtain ⟨past, history, calls, -, apart, -⟩ := seqno_drives_once run
  refine ⟨e, o, past, run, known, front, ranked, history, calls, ?_⟩
  intro a later x₂ between x₁ earlier s₁ split first second live
  obtain ⟨-, again⟩ := apart a later x₂ between x₁ earlier s₁ s₁ split first second live
  exact again rfl

end Engine

end BeaconMesh
