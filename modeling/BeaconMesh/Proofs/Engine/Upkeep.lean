import BeaconMesh.Proofs.Engine.Calls

/-!
# Who touches the gateways and the time of the next sweep

Only a fresh beacon and a sweep change the gateways, and only a start, a sweep and the end of a node
set the time of the next sweep. `SameUpkeep` says that a call left both alone.
-/

namespace BeaconMesh.Engine

variable {e e' : Engine} {b : Beacon} {hop : Hop} {now : Time}

/-- The two states have the same gateways and the same time of the next sweep. -/
structure SameUpkeep (e e' : Engine) : Prop where
  gateways : e'.gateways = e.gateways
  nextSweep : e'.nextSweep = e.nextSweep

theorem SameUpkeep.refl (e : Engine) : SameUpkeep e e := ⟨rfl, rfl⟩

theorem SameUpkeep.trans {e₁ e₂ e₃ : Engine} (h : SameUpkeep e₁ e₂) (h' : SameUpkeep e₂ e₃) :
    SameUpkeep e₁ e₃ :=
  ⟨h'.gateways.trans h.gateways, h'.nextSweep.trans h.nextSweep⟩

/-! ### Beacons that leave -/

theorem scheduleOwn_upkeep {iface : IfaceId} (h : e.scheduleOwn iface now = .ok e') :
    SameUpkeep e e' := by
  rcases scheduleOwn_cases h with ⟨_, _, _, -, -, -, rfl⟩ | ⟨-, rfl⟩
  · exact ⟨rfl, rfl⟩
  · exact .refl e'

theorem start_upkeep (h : e.start now = .ok e') : e'.gateways = e.gateways ∧
    e'.nextSweep = some (Clock.later now e.setup.config.sweepInterval.toNat) := by
  refine ⟨(start_same h).gateways, ?_⟩
  have setup := (start_same h).setup
  obtain ⟨started, _, h⟩ := Fault.bind_ok h
  cases Fault.pure_ok h
  rw [← setup]

theorem Performs.upkeep {ts : List Task} (h : Performs now e ts e') : SameUpkeep e e' := by
  induction h with
  | none e => exact .refl e
  | @task e next e' t ts scheduler popped work _ ih =>
    have first : SameUpkeep e next := by
      rcases perform_cases work with ⟨-, rfl⟩ | ⟨iface, -, scheduled⟩
      · exact ⟨rfl, rfl⟩
      · have sent : SameUpkeep e ({ e with scheduler }.sendOwn t iface) := ⟨rfl, rfl⟩
        exact sent.trans (scheduleOwn_upkeep scheduled)
    exact first.trans ih

/-! ### Beacons that come in -/

theorem hearEcho_upkeep (e : Engine) (b : Beacon) (sender : Addr) (here : Iface) (now : Time) :
    SameUpkeep e (e.hearEcho b sender here now) := by
  unfold hearEcho
  split <;> exact ⟨rfl, rfl⟩

theorem assess_upkeep {estimate : Estimate} (h : e.assess b hop now = .ok (e', estimate)) :
    SameUpkeep e e' := by
  obtain ⟨_, _, h⟩ := Fault.bind_ok h
  cases Fault.pure_ok h
  exact ⟨rfl, rfl⟩

theorem rank_frame (e : Engine) (b : Beacon) (hop : Hop) :
    ∃ origins notices, e.rank b hop = { e with origins, notices } := by
  unfold rank
  split <;> exact ⟨_, _, rfl⟩

theorem rank_upkeep (e : Engine) (b : Beacon) (hop : Hop) : SameUpkeep e (e.rank b hop) := by
  obtain ⟨_, _, ranked⟩ := rank_frame e b hop
  rw [ranked]
  exact ⟨rfl, rfl⟩

theorem adopt_frame (e : Engine) (b : Beacon) (hop : Hop) (duplicate twoWay : Bool) (now : Time) :
    ∃ origins hosts gateways notices, e.adopt b hop duplicate twoWay now =
      { e with origins, hosts, gateways, notices } := by
  unfold adopt
  cases duplicate with
  | true => exact ⟨_, _, _, _, rfl⟩
  | false =>
    cases twoWay with
    | false => exact ⟨_, _, _, _, rfl⟩
    | true =>
      obtain ⟨_, _, ranked⟩ := rank_frame e b hop
      show ∃ _ _ _ _, (e.rank b hop).heed b now = _
      rw [ranked]
      exact ⟨_, _, _, _, rfl⟩

/-- A beacon that comes in sends nothing at once, and leaves the counters and the sweep alone. -/
theorem Takes.frame {outcome : PacketOutcome} (h : e.Takes b hop now outcome e') :
    ∃ origins hosts gateways notices scheduler,
      e' = { e with origins, hosts, gateways, notices, scheduler } := by
  cases h with
  | refused => exact ⟨_, _, _, _, _, rfl⟩
  | echo =>
    unfold hearEcho
    split <;> exact ⟨_, _, _, _, _, rfl⟩
  | late => exact ⟨_, _, _, _, _, rfl⟩
  | @judged _ duplicate _ _ _ _ work =>
    obtain ⟨assessed, estimate, _, judged, considered, -⟩ := judge_eq_ok.mp work
    obtain ⟨_, _, _, _, adopted⟩ :=
      adopt_frame assessed (b.judged estimate) hop duplicate estimate.twoWay now
    rw [adopted] at considered
    obtain ⟨_, _, judged⟩ := Fault.bind_ok judged
    cases Fault.pure_ok judged
    rcases considerRelay_queues considered with ⟨-, rfl⟩ | ⟨-, -, -, _, _, -, -, rfl⟩
    · exact ⟨_, _, _, _, _, rfl⟩
    · exact ⟨_, _, _, _, _, rfl⟩

theorem Takes.nextSweep {outcome : PacketOutcome} (h : e.Takes b hop now outcome e') :
    e'.nextSweep = e.nextSweep := by
  obtain ⟨_, _, _, _, _, rfl⟩ := h.frame
  rfl

theorem Takes.outbox {outcome : PacketOutcome} (h : e.Takes b hop now outcome e') :
    e'.outbox = e.outbox := by
  obtain ⟨_, _, _, _, _, rfl⟩ := h.frame
  rfl

/-! ### Sweeps -/

theorem foldl_forget_nextSweep (now : Time) (as : List Addr) (e : Engine) :
    (as.foldl (forget now) e).nextSweep = e.nextSweep := by
  induction as generalizing e with
  | nil => rfl
  | cons a as ih =>
    refine (ih _).trans ?_
    unfold forget
    split <;> rfl

theorem chooseGateway_nextSweep (e : Engine) (now : Time) :
    (e.chooseGateway now).nextSweep = e.nextSweep := by
  unfold chooseGateway
  dsimp only
  split <;> rfl

theorem sweep_nextSweep (e : Engine) (now : Time) : (e.sweep now).nextSweep =
    e.nextSweep.map fun _ => Clock.later now e.setup.config.sweepInterval.toNat := by
  have setup := (sweep_sweeps e now).queue.setup
  have forgotten : (e.forgetStale now).nextSweep = e.nextSweep := foldl_forget_nextSweep now _ e
  have chosen := chooseGateway_nextSweep (((e.forgetStale now).pruneLinks now).expireHosts now) now
  rw [← forgotten, ← setup]
  exact congrArg (Option.map _) chosen

/-! ### Data and frames -/

theorem sendAlong_upkeep (e : Engine) (u : Unicast) (outcome : FrameOutcome) :
    SameUpkeep e (e.sendAlong u outcome).1 := by
  unfold sendAlong
  split <;> exact ⟨rfl, rfl⟩

theorem receiveUnicast_upkeep (e : Engine) (u : Unicast) : SameUpkeep e (e.receiveUnicast u).1 := by
  unfold receiveUnicast
  split
  · exact ⟨rfl, rfl⟩
  · split
    · exact .refl e
    · exact sendAlong_upkeep e _ _

theorem receiveFlood_upkeep (e : Engine) (f : Flood) : SameUpkeep e (e.receiveFlood f).1 := by
  unfold receiveFlood
  split
  · exact .refl e
  · split
    · exact .refl e
    · split <;> exact ⟨rfl, rfl⟩

theorem receiveData_upkeep (sender : Addr) (receive : Engine → Engine × FrameOutcome)
    (same : SameUpkeep e (receive e).1) : SameUpkeep e (e.receiveData sender receive).1 := by
  unfold receiveData
  split
  · exact .refl e
  · exact same

theorem receiveFrame_upkeep (e : Engine) (frame : Bytes) (now : Time) :
    SameUpkeep e (e.receiveFrame frame now).1 := by
  unfold receiveFrame
  split
  · exact .refl e
  · rename_i header _
    have learned : SameUpkeep e { e with hosts := e.hosts.learn header.source now } := ⟨rfl, rfl⟩
    dsimp only
    split
    · exact ⟨rfl, rfl⟩
    · split
      · exact learned
      · exact learned.trans (sendAlong_upkeep _ _ _)

theorem packet_upkeep {payload : Bytes} {sender : Addr} {iface : IfaceId} {r : Reply}
    (other : (Call.packet payload sender iface now).reception? false = none)
    (h : e.step (.packet payload sender iface now) = .ok (e', r)) : SameUpkeep e e' := by
  obtain ⟨⟨received, outcome⟩, work, h⟩ := Fault.bind_ok h
  cases Fault.pure_ok h
  unfold receive at work
  split at work
  · cases work
    exact .refl e
  split at work
  · cases work
    exact .refl e
  · rename_i decoded
    simp only [Call.reception?, decoded] at other
    cases other
  · rename_i u _
    have same := receiveData_upkeep sender (receiveUnicast · u) (receiveUnicast_upkeep e u)
    rw [Except.ok.inj work] at same
    exact same
  · rename_i f _
    have same := receiveData_upkeep sender (receiveFlood · f) (receiveFlood_upkeep e f)
    rw [Except.ok.inj work] at same
    exact same

theorem frame_upkeep {bytes : Bytes} {r : Reply} (h : e.step (.frame bytes now) = .ok (e', r)) :
    SameUpkeep e e' := by
  cases h
  exact receiveFrame_upkeep e bytes now

end BeaconMesh.Engine
