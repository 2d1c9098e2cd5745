import BeaconMesh.Engine.Call
import Mathlib.Logic.Relation

/-!
# What a call does to the tables

A call hears at most one beacon, then updates what is known, then forgets what is stale.
`step_stages` splits a call into these stages; `Invariant.run` carries a property that every
move of a stage keeps through a run.
-/

namespace BeaconMesh

open Relation (ReflTransGen)

/-! ### Receptions -/

/-- A beacon that moved the reception windows of its originator. -/
structure Reception where
  beacon : Beacon
  hop : Hop
  now : Time
  late : Bool

/-- The beacon that a call brings, as a reception that is late or not. -/
def Call.reception? (late : Bool) : Call → Option Reception
  | .packet payload sender iface now =>
    match Wire.decode payload with
    | .ok (.beacon b) => some { beacon := b, hop := ⟨sender, iface⟩, now, late }
    | _ => none
  | .beacon b sender iface now => some { beacon := b, hop := ⟨sender, iface⟩, now, late }
  | _ => none

/-- The reception that a call made, by what it answered: a beacon that was judged or was late. -/
def received? (c : Call) : Reply → Option Reception
  | .packet (.beacon ..) => c.reception? false
  | .packet .late => c.reception? true
  | _ => none

theorem Call.map_reception? (c : Call) (late late' : Bool) :
    (c.reception? late).map (fun r => { r with late := late' }) = c.reception? late' := by
  unfold Call.reception?
  split
  · split <;> rfl
  · rfl
  · rfl

theorem brought_of_received {c : Call} {reply : Reply} {r : Reception}
    (h : received? c reply = some r) : c.reception? false = some { r with late := false } := by
  unfold received? at h
  split at h
  · rw [← c.map_reception? false false, h]
    rfl
  · rw [← c.map_reception? true false, h]
    rfl
  · cases h

namespace Setup

/-- Whether an address can be that of another node. -/
def IsPeer (s : Setup) (a : Addr) : Prop := s.isMine a = false ∧ a ≠ .broadcast

/-- Whether a beacon gets past the checks: it came from another node on an interface of ours, and
neither is it our own nor the echo over a one-way link. -/
structure Admits (s : Setup) (b : Beacon) (hop : Hop) : Prop where
  iface : hop.iface < s.ifaces.length
  sender : s.IsPeer hop.addr
  orig : s.isMine b.orig = false
  twoWay : b.isOneWay = false

end Setup

namespace Engine

/-- The windows of an originator after a reception, if there was one. -/
def heard (e : Engine) : Option Reception → Engine
  | some r => e.hear r.beacon r.hop r.now
  | none => e

/-! ### Moves -/

/-- The two states differ in the queue, the counters and the outbox at most. -/
structure SameTables (e e' : Engine) : Prop where
  setup : e'.setup = e.setup
  origins : e'.origins = e.origins
  hosts : e'.hosts = e.hosts
  gateways : e'.gateways = e.gateways
  notices : e'.notices = e.notices

/-- A change by a packet, a frame or a beacon that leaves; nothing is forgotten. -/
inductive Update : Engine → Engine → Prop where
  | quiet {e e' : Engine} (same : SameTables e e') : Update e e'
  | echo (e : Engine) {sender : Addr} {iface offset : Nat} (now : Time)
      (peer : e.setup.IsPeer sender) (here : iface < e.setup.ifaces.length)
      (recent : offset < Window.size) :
      Update e
        { e with origins := e.origins.upsert sender now fun o => o.recordEcho iface offset }
  | assess {e e' : Engine} {b : Beacon} {hop : Hop} {now : Time} {estimate : Estimate}
      (peer : e.setup.IsPeer hop.addr) (judged : e.assess b hop now = .ok (e', estimate)) :
      Update e e'
  | rank (e : Engine) {b : Beacon} (hop : Hop) {estimate : Estimate} (usable : estimate.twoWay)
      (quality : b.quality = UInt8.ofNat estimate.quality)
      (judged : ∃ carried echoes received,
        e.setup.estimator.estimate carried echoes received = .ok estimate) :
      Update e (e.rank b hop)
  | heed (e : Engine) {b : Beacon} (now : Time) (foreign : e.isMine b.orig = false) :
      Update e (e.heed b now)
  | learn (e : Engine) (host : Addr) (now : Time) :
      Update e { e with hosts := e.hosts.learn host now }
  | depart (e : Engine) (b : Beacon) (iface : IfaceId) : Update e (e.departOwn b iface).1
  | flood (e : Engine) {o : Originator} {f : Flood} (known : e.origins.get? f.orig = some o) :
      Update e { e with origins := e.origins.insert f.orig (o.hearFlood f.seqno) }

/-- A change by a sweep; nothing becomes known. -/
inductive Decay : Engine → Engine → Prop where
  | quiet {e e' : Engine} (same : SameTables e e') : Decay e e'
  | forget (e : Engine) (a : Addr) (now : Time) : Decay e (e.forget now a)
  | prune (e : Engine) (now : Time) : Decay e (e.pruneLinks now)
  | expire (e : Engine) (now : Time) : Decay e (e.expireHosts now)
  | gateway (e : Engine) (now : Time) : Decay e (e.chooseGateway now)

/-- A sequence of updates. -/
abbrev Updates : Engine → Engine → Prop := ReflTransGen Update

/-- A sequence of changes by sweeps. -/
abbrev Decays : Engine → Engine → Prop := ReflTransGen Decay

/-- How a call that made the reception `x`, if any, came from `e` to `e'`. -/
structure Stages (e : Engine) (x : Option Reception) (e' : Engine) : Prop where
  admitted : ∀ r, x = some r → e.setup.Admits r.beacon r.hop
  late : ∀ r, x = some r →
    (r.late = true ↔ ∃ p, (e.origins.getOrNew r.beacon.orig r.now).arrival r.beacon.seqno = .late p)
  moves : ∃ settled, Updates (e.heard x) settled ∧ Decays settled e'

theorem SameTables.refl (e : Engine) : SameTables e e := ⟨rfl, rfl, rfl, rfl, rfl⟩

theorem SameTables.trans {e₁ e₂ e₃ : Engine} (h : SameTables e₁ e₂) (h' : SameTables e₂ e₃) :
    SameTables e₁ e₃ :=
  ⟨h'.setup.trans h.setup, h'.origins.trans h.origins, h'.hosts.trans h.hosts,
    h'.gateways.trans h.gateways, h'.notices.trans h.notices⟩

theorem Update.updates {e e' : Engine} (h : Update e e') : Updates e e' := .single h

theorem SameTables.updates {e e' : Engine} (h : SameTables e e') : Updates e e' :=
  (Update.quiet h).updates

theorem Stages.of_updates {e e' : Engine} (h : Updates e e') : Stages e none e' :=
  ⟨nofun, nofun, e', h, .refl⟩

/-! ### Beacons that leave -/

theorem scheduleOwn_same {e e' : Engine} {iface : IfaceId} {now : Time}
    (h : e.scheduleOwn iface now = .ok e') : SameTables e e' := by
  unfold scheduleOwn at h
  split at h
  · obtain ⟨_, _, h⟩ := Fault.bind_ok h
    rw [← Fault.pure_ok h]
    exact ⟨rfl, rfl, rfl, rfl, rfl⟩
  · cases h
    exact .refl e

theorem start_same {e e' : Engine} {now : Time} (h : e.start now = .ok e') : SameTables e e' := by
  obtain ⟨started, scheduled, h⟩ := Fault.bind_ok h
  have same : SameTables e started := Fault.foldlM_ok (P := SameTables e)
    (fun step same => same.trans (scheduleOwn_same step)) scheduled (.refl e)
  rw [← Fault.pure_ok h]
  exact same.trans ⟨rfl, rfl, rfl, rfl, rfl⟩

theorem send_same (e : Engine) (b : Beacon) (targets : List (IfaceId × UInt8)) :
    SameTables e (e.send b targets) := ⟨rfl, rfl, rfl, rfl, rfl⟩

theorem perform_updates {e e' : Engine} {t : Task} {now : Time}
    (h : e.perform t now = .ok e') : Updates e e' := by
  unfold perform at h
  dsimp only at h
  split at h
  · rename_i iface _
    exact (Update.depart e t.beacon iface).updates.tail
      (.quiet ((send_same _ _ _).trans (scheduleOwn_same h)))
  · cases h
    exact (send_same _ _ _).updates

theorem drain_updates {now : Time} (limit : Nat) {e e' : Engine} {count : Nat}
    (h : e.drain now limit = .ok (e', count)) : Updates e e' := by
  induction limit generalizing e count with
  | zero =>
    cases h
    exact .refl
  | succ limit ih =>
    unfold drain at h
    split at h
    · rename_i t scheduler _
      obtain ⟨performed, work, h⟩ := Fault.bind_ok h
      obtain ⟨⟨drained, rest⟩, tail, h⟩ := Fault.bind_ok h
      cases Fault.pure_ok h
      have popped : SameTables e { e with scheduler := scheduler } := ⟨rfl, rfl, rfl, rfl, rfl⟩
      exact popped.updates.trans ((perform_updates work).trans (ih tail))
    · cases h
      exact .refl

theorem performDue_updates {e e' : Engine} {now : Time} {count : Nat}
    (h : e.performDue now = .ok (e', count)) : Updates e e' := by
  obtain ⟨⟨drained, _⟩, work, h⟩ := Fault.bind_ok h
  dsimp only at h
  split at h
  · cases h
  · cases Fault.pure_ok h
    exact drain_updates _ work

/-! ### Beacons that come in -/

theorem isPeer_of_refusal? {e : Engine} {a : Addr} (h : e.refusal? a = none) :
    e.setup.IsPeer a := by
  unfold refusal? at h
  split at h
  · cases h
  · rename_i foreign
    split at h
    · cases h
    · rename_i single
      exact ⟨Bool.eq_false_iff.mpr foreign, single⟩

theorem assess_estimate {e e' : Engine} {b : Beacon} {hop : Hop} {now : Time}
    {estimate : Estimate} (h : e.assess b hop now = .ok (e', estimate)) :
    ∃ echoes received,
      e.setup.estimator.estimate b.quality.toNat echoes received = .ok estimate := by
  obtain ⟨_, judged, h⟩ := Fault.bind_ok h
  obtain ⟨_, counted, judged⟩ := Fault.bind_ok judged
  cases Fault.pure_ok judged
  cases Fault.pure_ok h
  exact ⟨_, _, counted⟩

theorem assess_setup {e e' : Engine} {b : Beacon} {hop : Hop} {now : Time} {estimate : Estimate}
    (h : e.assess b hop now = .ok (e', estimate)) : e'.setup = e.setup := by
  obtain ⟨_, _, h⟩ := Fault.bind_ok h
  cases Fault.pure_ok h
  rfl

theorem considerRelay_same {e e' : Engine} {b : Beacon} {hop : Hop}
    {duplicate twoWay relayed : Bool} {now : Time}
    (h : e.considerRelay b hop duplicate twoWay now = .ok (e', relayed)) : SameTables e e' := by
  unfold considerRelay at h
  split at h
  · cases h
    exact .refl e
  · split at h
    · obtain ⟨_, _, h⟩ := Fault.bind_ok h
      cases Fault.pure_ok h
      exact ⟨rfl, rfl, rfl, rfl, rfl⟩
    · cases h
      exact .refl e

theorem rank_setup (e : Engine) (b : Beacon) (hop : Hop) : (e.rank b hop).setup = e.setup := by
  unfold rank
  split <;> rfl

theorem judge_updates {e e' : Engine} {b : Beacon} {hop : Hop} {duplicate : Bool} {now : Time}
    {outcome : PacketOutcome} (admitted : e.setup.Admits b hop)
    (h : e.judge b hop duplicate now = .ok (e', outcome)) :
    Updates e e' ∧ ∃ twoWay relayed, outcome = .beacon duplicate twoWay relayed := by
  obtain ⟨⟨assessed, estimate⟩, judged, h⟩ := Fault.bind_ok h
  obtain ⟨⟨relayed, sent⟩, relay, h⟩ := Fault.bind_ok h
  cases Fault.pure_ok h
  refine ⟨?_, _, _, rfl⟩
  have setup := assess_setup judged
  have foreign : assessed.isMine b.orig = false := by
    simpa only [isMine, setup] using admitted.orig
  have first : Updates e assessed := (Update.assess admitted.sender judged).updates
  refine .tail (first.trans ?_) (.quiet (considerRelay_same relay))
  cases duplicate with
  | true => exact .refl
  | false =>
    cases usable : estimate.twoWay with
    | true =>
      obtain ⟨echoes, received, counted⟩ := assess_estimate judged
      rw [← setup] at counted
      let ranked := { b with quality := UInt8.ofNat estimate.quality }
      have route : Update assessed (assessed.rank ranked hop) :=
        .rank assessed hop usable rfl ⟨_, _, _, counted⟩
      refine .tail route.updates (.heed _ now ?_)
      simpa only [isMine, rank_setup] using foreign
    | false => exact .single (.heed assessed now foreign)

theorem accept_stages {e e' : Engine} {b : Beacon} {hop : Hop} {now : Time}
    {outcome : PacketOutcome} (admitted : e.setup.Admits b hop)
    (h : e.accept b hop now = .ok (e', outcome)) :
    (outcome = .late ∧ Stages e (some ⟨b, hop, now, true⟩) e') ∨
      ((∃ duplicate twoWay relayed, outcome = .beacon duplicate twoWay relayed) ∧
        Stages e (some ⟨b, hop, now, false⟩) e') := by
  unfold accept at h
  split at h
  · rename_i p arrival
    cases h
    refine .inl ⟨rfl, ⟨?_, ?_, _, .refl, .refl⟩⟩
    · rintro r ⟨⟩
      exact admitted
    · rintro r ⟨⟩
      exact ⟨fun _ => ⟨p, arrival⟩, fun _ => rfl⟩
  all_goals
    rename_i arrival
    obtain ⟨updates, twoWay, relayed, rfl⟩ := judge_updates (e := e.hear b hop now) admitted h
    refine .inr ⟨⟨_, _, _, rfl⟩, ⟨?_, ?_, _, updates, .refl⟩⟩
    · rintro r ⟨⟩
      exact admitted
    · rintro r ⟨⟩
      simp [arrival]

theorem echoOffset?_lt {e : Engine} {b : Beacon} {here : Iface} {offset : Nat}
    (h : e.echoOffset? b here = some offset) : offset < Window.size := by
  unfold echoOffset? at h
  split at h
  · obtain ⟨last, _, h⟩ := Option.bind_eq_some_iff.mp h
    split at h
    · rename_i recent
      cases h
      exact recent
    · cases h
  · cases h

theorem hearEcho_updates {e : Engine} {b : Beacon} {sender : Addr} {here : Iface} {now : Time}
    (peer : e.setup.IsPeer sender) (inRange : here.id < e.setup.ifaces.length) :
    Updates e (e.hearEcho b sender here now) := by
  unfold hearEcho
  split
  · rename_i offset echoed
    exact (Update.echo e now peer inRange (echoOffset?_lt echoed)).updates
  · exact .refl

theorem receiveBeacon_stages {e e' : Engine} {b : Beacon} {sender : Addr} {iface : IfaceId}
    {now : Time} {outcome : PacketOutcome}
    (h : e.receiveBeacon b sender iface now = .ok (e', outcome)) :
    Stages e (received? (.beacon b sender iface now) (.packet outcome)) e' := by
  unfold receiveBeacon at h
  split at h
  · cases h
    exact .of_updates .refl
  rename_i here known
  obtain ⟨inRange, eq⟩ := List.getElem?_eq_some_iff.mp known
  have number : here.id = iface := eq ▸ e.setup.numbered iface inRange
  split at h
  · cases h
    exact .of_updates .refl
  rename_i accepted
  have peer := isPeer_of_refusal? accepted
  split at h
  · cases h
    exact .of_updates (hearEcho_updates peer (number.symm ▸ inRange))
  rename_i foreign
  split at h
  · cases h
    exact .of_updates .refl
  rename_i twoWay
  have admitted : e.setup.Admits b ⟨sender, iface⟩ :=
    ⟨inRange, peer, Bool.eq_false_iff.mpr foreign, Bool.eq_false_iff.mpr twoWay⟩
  rcases accept_stages admitted h with ⟨rfl, stages⟩ | ⟨⟨_, _, _, rfl⟩, stages⟩
  · exact stages
  · exact stages

/-! ### Data and frames -/

theorem sendAlong_same (e : Engine) (u : Unicast) (outcome : FrameOutcome) :
    SameTables e (e.sendAlong u outcome).1 := by
  unfold sendAlong
  split
  · exact ⟨rfl, rfl, rfl, rfl, rfl⟩
  · exact .refl e

theorem receiveFrame_updates (e : Engine) (frame : Bytes) (now : Time) :
    Updates e (e.receiveFrame frame now).1 := by
  unfold receiveFrame
  split
  · exact .refl
  · rename_i header _
    refine (Update.learn e header.source now).updates.trans ?_
    dsimp only
    split
    · exact SameTables.updates ⟨rfl, rfl, rfl, rfl, rfl⟩
    · split
      · exact .refl
      · exact (sendAlong_same _ _ _).updates

theorem receiveUnicast_same (e : Engine) (u : Unicast) :
    SameTables e (e.receiveUnicast u).1 := by
  unfold receiveUnicast
  split
  · exact ⟨rfl, rfl, rfl, rfl, rfl⟩
  · split
    · exact .refl e
    · exact sendAlong_same _ _ _

theorem receiveFlood_updates (e : Engine) (f : Flood) : Updates e (e.receiveFlood f).1 := by
  unfold receiveFlood
  split
  · exact .refl
  · split
    · exact .refl
    · rename_i o known
      split
      · exact .refl
      · exact (Update.flood e known).updates.tail (.quiet ⟨rfl, rfl, rfl, rfl, rfl⟩)

theorem receiveData_stages {e : Engine} (c : Call) (sender : Addr)
    (receive : Engine → Engine × FrameOutcome) (updates : Updates e (receive e).1) :
    Stages e (received? c (.packet (e.receiveData sender receive).2))
      (e.receiveData sender receive).1 := by
  unfold receiveData
  split
  · exact .of_updates .refl
  · exact .of_updates updates

theorem receive_stages {e e' : Engine} {payload : Bytes} {sender : Addr} {iface : IfaceId}
    {now : Time} {outcome : PacketOutcome}
    (h : e.receive payload sender iface now = .ok (e', outcome)) :
    Stages e (received? (.packet payload sender iface now) (.packet outcome)) e' := by
  unfold receive at h
  split at h
  · cases h
    exact .of_updates .refl
  split at h
  · cases h
    exact .of_updates .refl
  · rename_i b decoded
    have stages := receiveBeacon_stages h
    have same : received? (.packet payload sender iface now) (.packet outcome) =
        received? (.beacon b sender iface now) (.packet outcome) := by
      cases outcome <;> simp only [received?, Call.reception?, decoded]
    rw [same]
    exact stages
  · rename_i u _
    have data := Except.ok.inj h
    have stages := receiveData_stages (.packet payload sender iface now) sender
      (receiveUnicast · u) (receiveUnicast_same e u).updates
    rw [data] at stages
    exact stages
  · rename_i f _
    have data := Except.ok.inj h
    have stages := receiveData_stages (.packet payload sender iface now) sender
      (receiveFlood · f) (receiveFlood_updates e f)
    rw [data] at stages
    exact stages

/-! ### Sweeps -/

theorem foldl_forget_decays (now : Time) (as : List Addr) (e : Engine) :
    Decays e (as.foldl (forget now) e) := by
  induction as generalizing e with
  | nil => exact .refl
  | cons a as ih => exact .head (.forget e a now) (ih _)

theorem rearm_same (e : Engine) (now : Time) : SameTables e (e.rearm now) :=
  ⟨rfl, rfl, rfl, rfl, rfl⟩

theorem forgetStale_decays (e : Engine) (now : Time) : Decays (e.forgetStale now) (e.sweep now) := by
  unfold sweep
  generalize e.forgetStale now = forgetful
  exact .tail (.tail (.tail (.single (.prune _ now)) (.expire _ now)) (.gateway _ now))
    (.quiet (rearm_same _ now))

theorem sweep_decays (e : Engine) (now : Time) : Decays e (e.sweep now) :=
  (foldl_forget_decays now _ e).trans (forgetStale_decays e now)

theorem shutdown_decays (e : Engine) (now : Time) : Decays e (e.shutdown now) := by
  have off : SameTables e { e with nextSweep := none } := ⟨rfl, rfl, rfl, rfl, rfl⟩
  have swept := sweep_decays { e with nextSweep := none } (e.flushTime now)
  unfold shutdown
  generalize sweep _ _ = flushed at swept
  exact .head (.quiet off) (swept.tail (.quiet ⟨rfl, rfl, rfl, rfl, rfl⟩))

theorem poll_stages {e e' : Engine} {now : Time} {count : Nat}
    (h : e.poll now = .ok (e', count)) : Stages e none e' := by
  obtain ⟨⟨performed, _⟩, work, h⟩ := Fault.bind_ok h
  cases Fault.pure_ok h
  refine ⟨nofun, nofun, performed, performDue_updates work, ?_⟩
  split
  · exact sweep_decays performed now
  · exact .refl

/-! ### Calls and runs -/

/-- A call makes at most one reception, then updates the tables, then forgets. -/
theorem step_stages {e e' : Engine} {c : Call} {r : Reply} (h : e.step c = .ok (e', r)) :
    Stages e (received? c r) e' := by
  cases c with
  | start now =>
    obtain ⟨started, work, h⟩ := Fault.bind_ok h
    cases Fault.pure_ok h
    exact .of_updates (start_same work).updates
  | packet payload sender iface now =>
    obtain ⟨⟨received, outcome⟩, work, h⟩ := Fault.bind_ok h
    cases Fault.pure_ok h
    exact receive_stages work
  | beacon b sender iface now =>
    obtain ⟨⟨received, outcome⟩, work, h⟩ := Fault.bind_ok h
    cases Fault.pure_ok h
    exact receiveBeacon_stages work
  | frame bytes now =>
    cases h
    exact .of_updates (receiveFrame_updates e bytes now)
  | poll now =>
    obtain ⟨⟨polled, tasks⟩, work, h⟩ := Fault.bind_ok h
    cases Fault.pure_ok h
    exact poll_stages work
  | sweep now =>
    obtain ⟨rfl, rfl⟩ := Prod.mk.inj (Except.ok.inj h)
    exact ⟨nofun, nofun, e, .refl, sweep_decays e now⟩
  | shutdown now =>
    obtain ⟨rfl, rfl⟩ := Prod.mk.inj (Except.ok.inj h)
    exact ⟨nofun, nofun, e, .refl, shutdown_decays e now⟩

/-- A property of states that every reception, update and sweep keeps. -/
structure Invariant (P : Engine → Prop) : Prop where
  hear : ∀ {e : Engine} {b : Beacon} {hop : Hop} (now : Time), e.setup.Admits b hop →
    P e → P (e.hear b hop now)
  update : ∀ {e e' : Engine}, Update e e' → P e → P e'
  decay : ∀ {e e' : Engine}, Decay e e' → P e → P e'

namespace Invariant

variable {P : Engine → Prop}

theorem updates (inv : Invariant P) {e e' : Engine} (h : Updates e e') (holds : P e) : P e' := by
  induction h with
  | refl => exact holds
  | tail _ last ih => exact inv.update last ih

theorem decays (inv : Invariant P) {e e' : Engine} (h : Decays e e') (holds : P e) : P e' := by
  induction h with
  | refl => exact holds
  | tail _ last ih => exact inv.decay last ih

theorem step (inv : Invariant P) {e e' : Engine} {c : Call} {r : Reply}
    (h : e.step c = .ok (e', r)) (holds : P e) : P e' := by
  obtain ⟨admitted, -, settled, updates, decays⟩ := step_stages h
  have heard : P (e.heard (received? c r)) := by
    cases made : received? c r with
    | none => exact holds
    | some x => exact inv.hear x.now (admitted x made) holds
  exact inv.decays decays (inv.updates updates heard)

theorem run (inv : Invariant P) {e e' : Engine} {cs : List Call} (h : e.run cs = .ok e')
    (holds : P e) : P e' := by
  induction cs generalizing e with
  | nil =>
    cases h
    exact holds
  | cons c cs ih =>
    obtain ⟨⟨next, r⟩, first, h⟩ := Fault.bind_ok h
    exact ih h (inv.step first holds)

end Invariant

end Engine

end BeaconMesh
