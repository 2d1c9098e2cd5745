import BeaconMesh.Proofs.Engine.Calls

/-!
# Work of earlier calls

No call reads the outbox or the notices. `Engine.onto` puts earlier work in front of that of a state,
and `run_onto` says that the state then goes on as it does alone. So the work of a node can be
taken from it at any time.
-/

namespace BeaconMesh.Engine

/-- A state with earlier work in front of its own. -/
def onto (sent : List Action) (told : List RouteChange) (e : Engine) : Engine :=
  { e with outbox := sent ++ e.outbox, notices := told ++ e.notices }

/-- A state whose work was taken. -/
def drained (e : Engine) : Engine := { e with outbox := [], notices := [] }

variable {sent : List Action} {told : List RouteChange}

theorem emit_onto (e : Engine) (actions : List Action) :
    (e.onto sent told).emit actions = (e.emit actions).onto sent told := by
  unfold emit onto
  simp only [List.append_assoc]

theorem notify_onto (e : Engine) (changes : List RouteChange) :
    (e.onto sent told).notify changes = (e.notify changes).onto sent told := by
  unfold notify onto
  simp only [List.append_assoc]

theorem onto_origins (e : Engine) : (e.onto sent told).origins = e.origins := rfl

theorem onto_scheduler (e : Engine) : (e.onto sent told).scheduler = e.scheduler := rfl

theorem onto_setup (e : Engine) : (e.onto sent told).setup = e.setup := rfl

theorem route?_onto (e : Engine) (dest : Addr) :
    (e.onto sent told).route? dest = e.route? dest := rfl

theorem isMine_onto (e : Engine) (a : Addr) : (e.onto sent told).isMine a = e.isMine a := rfl

theorem bind_image {α α' β β' : Type} {x : Except Fault α} {y : Except Fault α'} {g : α → α'}
    {h : β → β'} {f : α → Except Fault β} {f' : α' → Except Fault β'} (same : y = x.map g)
    (goesOn : ∀ a, f' (g a) = (f a).map h) : y >>= f' = (x >>= f).map h := by
  subst same
  cases x with
  | error cause => rfl
  | ok a => exact goesOn a

/-! ### Frames and data -/

theorem sendAlong_onto (e : Engine) (u : Unicast) (outcome : FrameOutcome) :
    (e.onto sent told).sendAlong u outcome = (e.sendAlong u outcome).map (onto sent told) id := by
  unfold sendAlong
  rw [route?_onto]
  split
  · rw [emit_onto]
    rfl
  · rfl

theorem flood_onto (e : Engine) (frame : Bytes) :
    (e.onto sent told).flood frame = (e.flood frame).onto sent told :=
  emit_onto { e with floodSeqno := e.floodSeqno + 1 } _

theorem receiveFrame_onto (e : Engine) (frame : Bytes) (now : Time) :
    (e.onto sent told).receiveFrame frame now =
      (e.receiveFrame frame now).map (onto sent told) id := by
  unfold receiveFrame
  split
  · rfl
  · rename_i header _
    have learns : { e.onto sent told with
          hosts := (e.onto sent told).hosts.learn header.source now } =
        { e with hosts := e.hosts.learn header.source now }.onto sent told := rfl
    rw [learns]
    generalize { e with hosts := e.hosts.learn header.source now } = learned
    have destination : ∀ host, (learned.onto sent told).destination? host =
        learned.destination? host := fun _ => rfl
    dsimp only
    rw [flood_onto, destination]
    split
    · rfl
    · split
      · rfl
      · exact sendAlong_onto learned _ _

theorem receiveUnicast_onto (e : Engine) (u : Unicast) :
    (e.onto sent told).receiveUnicast u = (e.receiveUnicast u).map (onto sent told) id := by
  unfold receiveUnicast
  rw [isMine_onto]
  split
  · rw [emit_onto]
    rfl
  · split
    · rfl
    · exact sendAlong_onto e _ _

theorem transmitEverywhere_onto (e : Engine) (payload : Bytes) :
    (e.onto sent told).transmitEverywhere payload =
      (e.transmitEverywhere payload).onto sent told :=
  emit_onto e _

theorem receiveFlood_onto (e : Engine) (f : Flood) :
    (e.onto sent told).receiveFlood f = (e.receiveFlood f).map (onto sent told) id := by
  unfold receiveFlood
  rw [isMine_onto, onto_origins]
  split
  · rfl
  split
  · rfl
  rename_i o _
  split
  · rfl
  · have hears : { e.onto sent told with
          origins := e.origins.insert f.orig (o.hearFlood f.seqno) } =
        { e with origins := e.origins.insert f.orig (o.hearFlood f.seqno) }.onto sent told := rfl
    dsimp only
    rw [hears, emit_onto, transmitEverywhere_onto]
    rfl

theorem refusal?_onto (e : Engine) (sender : Addr) :
    (e.onto sent told).refusal? sender = e.refusal? sender := rfl

theorem receiveData_onto (e : Engine) (sender : Addr) {receive : Engine → Engine × FrameOutcome}
    (same : receive (e.onto sent told) = (receive e).map (onto sent told) id) :
    (e.onto sent told).receiveData sender receive =
      (e.receiveData sender receive).map (onto sent told) id := by
  unfold receiveData
  rw [same, refusal?_onto]
  split <;> rfl

/-! ### Beacons that come in -/

theorem hearEcho_onto (e : Engine) (b : Beacon) (sender : Addr) (here : Iface) (now : Time) :
    (e.onto sent told).hearEcho b sender here now =
      (e.hearEcho b sender here now).onto sent told := by
  have offset : (e.onto sent told).echoOffset? b here = e.echoOffset? b here := rfl
  unfold hearEcho
  rw [offset]
  split <;> rfl

theorem assess_onto (e : Engine) (b : Beacon) (hop : Hop) (now : Time) :
    (e.onto sent told).assess b hop now =
      (e.assess b hop now).map (Prod.map (onto sent told) id) := by
  unfold assess
  rw [onto_origins, onto_setup]
  dsimp only
  cases (e.origins.getOrNew hop.addr now).assess e.setup.estimator hop.iface b.quality <;> rfl

theorem rank_onto (e : Engine) (b : Beacon) (hop : Hop) :
    (e.onto sent told).rank b hop = (e.rank b hop).onto sent told := by
  unfold rank
  rw [onto_origins]
  split
  · exact notify_onto { e with origins := _ } _
  · rfl

theorem considerRelay_onto (e : Engine) (b : Beacon) (hop : Hop) (duplicate twoWay : Bool)
    (now : Time) : (e.onto sent told).considerRelay b hop duplicate twoWay now =
      (e.considerRelay b hop duplicate twoWay now).map (Prod.map (onto sent told) id) := by
  have mode : (e.onto sent told).relayMode? b hop.addr duplicate twoWay =
      e.relayMode? b hop.addr duplicate twoWay := rfl
  have substitute : (e.onto sent told).substitute? b.orig hop.addr =
      e.substitute? b.orig hop.addr := rfl
  unfold considerRelay relay
  rw [isMine_onto, mode, substitute, onto_scheduler, onto_setup]
  split
  · rfl
  · split
    · rename_i mode _
      dsimp only
      generalize e.scheduler.enqueueRelay _ _ now = queued
      cases queued <;> rfl
    · rfl

theorem adopt_onto (e : Engine) (b : Beacon) (hop : Hop) (duplicate twoWay : Bool) (now : Time) :
    (e.onto sent told).adopt b hop duplicate twoWay now =
      (e.adopt b hop duplicate twoWay now).onto sent told := by
  unfold adopt
  rw [rank_onto]
  cases duplicate <;> cases twoWay <;> rfl

theorem judge_onto (e : Engine) (b : Beacon) (hop : Hop) (duplicate : Bool) (now : Time) :
    (e.onto sent told).judge b hop duplicate now =
      (e.judge b hop duplicate now).map (Prod.map (onto sent told) id) := by
  refine bind_image (assess_onto e b hop now) fun ⟨assessed, estimate⟩ => ?_
  refine bind_image (g := Prod.map (onto sent told) id) ?_ fun _ => rfl
  have adopted : (assessed.onto sent told).adopt (b.judged estimate) hop duplicate estimate.twoWay
      now = (assessed.adopt (b.judged estimate) hop duplicate estimate.twoWay now).onto sent told :=
    adopt_onto _ _ _ _ _ _
  unfold adopt at adopted
  exact (congrArg (considerRelay · (b.judged estimate) hop duplicate estimate.twoWay now)
    adopted).trans (considerRelay_onto _ _ _ _ _ _)

theorem accept_onto (e : Engine) (b : Beacon) (hop : Hop) (now : Time) :
    (e.onto sent told).accept b hop now =
      (e.accept b hop now).map (Prod.map (onto sent told) id) := by
  unfold accept
  rw [onto_origins]
  split
  · rfl
  · exact judge_onto (e.hear b hop now) b hop true now
  · exact judge_onto (e.hear b hop now) b hop false now

theorem receiveBeacon_onto (e : Engine) (b : Beacon) (sender : Addr) (iface : IfaceId)
    (now : Time) : (e.onto sent told).receiveBeacon b sender iface now =
      (e.receiveBeacon b sender iface now).map (Prod.map (onto sent told) id) := by
  unfold receiveBeacon
  rw [onto_setup, refusal?_onto, isMine_onto, accept_onto]
  split
  · rfl
  split
  · rfl
  split
  · rw [hearEcho_onto]
    rfl
  split
  · rfl
  · rfl

theorem receive_onto (e : Engine) (payload : Bytes) (sender : Addr) (iface : IfaceId) (now : Time) :
    (e.onto sent told).receive payload sender iface now =
      (e.receive payload sender iface now).map (Prod.map (onto sent told) id) := by
  unfold receive
  rw [onto_setup]
  split
  · rfl
  split
  · rfl
  · exact receiveBeacon_onto e _ sender iface now
  · rename_i u _
    exact congrArg Except.ok (receiveData_onto e sender (receiveUnicast_onto e u))
  · rename_i f _
    exact congrArg Except.ok (receiveData_onto e sender (receiveFlood_onto e f))

/-! ### Beacons that leave -/

theorem scheduleOwn_onto (e : Engine) (iface : IfaceId) (now : Time) :
    (e.onto sent told).scheduleOwn iface now = (e.scheduleOwn iface now).map (onto sent told) := by
  have counters : (e.onto sent told).counters = e.counters := rfl
  unfold scheduleOwn
  rw [onto_setup, counters, onto_scheduler]
  split
  · rename_i here counter _ _
    dsimp only
    cases e.scheduler.enqueueOwn e.setup.pacing (ownBeacon e.setup.config here counter.next) iface
      now <;> rfl
  · rfl

theorem start_onto (e : Engine) (now : Time) :
    (e.onto sent told).start now = (e.start now).map (onto sent told) := by
  have scheduled : ∀ (ifaces : List IfaceId) (e : Engine),
      ifaces.foldlM (fun (e : Engine) iface => e.scheduleOwn iface now) (e.onto sent told) =
        (ifaces.foldlM (fun (e : Engine) iface => e.scheduleOwn iface now) e).map
          (onto sent told) := by
    intro ifaces
    induction ifaces with
    | nil => exact fun _ => rfl
    | cons iface rest ih =>
      intro e
      rw [List.foldlM_cons, List.foldlM_cons]
      exact bind_image (scheduleOwn_onto e iface now) ih
  exact bind_image (g := onto sent told) (scheduled _ e) fun _ => rfl

theorem perform_onto (e : Engine) (t : Task) (now : Time) :
    (e.onto sent told).perform t now = (e.perform t now).map (onto sent told) := by
  have sends : ∀ (e : Engine) (b : Beacon) (targets : List (IfaceId × UInt8)),
      (e.onto sent told).send b targets = (e.send b targets).onto sent told :=
    fun e _ _ => emit_onto e _
  unfold perform
  rw [onto_setup]
  dsimp only
  split
  · rename_i iface _
    have departs : (e.onto sent told).departOwn t.beacon iface =
        (e.departOwn t.beacon iface).map (onto sent told) id := rfl
    rw [departs, ← scheduleOwn_onto, ← sends]
    rfl
  · rw [sends]
    rfl

theorem drain_onto (e : Engine) (now : Time) (limit : Nat) :
    (e.onto sent told).drain now limit =
      (e.drain now limit).map (Prod.map (onto sent told) id) := by
  induction limit generalizing e with
  | zero => rfl
  | succ limit ih =>
    unfold drain
    rw [onto_scheduler]
    split
    · rename_i t scheduler _
      refine bind_image (perform_onto { e with scheduler } t now) fun next => ?_
      exact bind_image (ih next) fun _ => rfl
    · rfl

/-! ### Sweeps -/

theorem foldl_forget_onto (now : Time) (as : List Addr) (e : Engine) :
    as.foldl (forget now) (e.onto sent told) = (as.foldl (forget now) e).onto sent told := by
  induction as generalizing e with
  | nil => rfl
  | cons a as ih =>
    have first : (e.onto sent told).forget now a = (e.forget now a).onto sent told := by
      unfold forget
      rw [onto_origins]
      split
      · exact notify_onto { e with origins := _, hosts := _, gateways := _ } _
      · rfl
    rw [List.foldl_cons, List.foldl_cons, first, ih]

theorem sweep_onto (e : Engine) (now : Time) :
    (e.onto sent told).sweep now = (e.sweep now).onto sent told := by
  have forgets : (e.onto sent told).forgetStale now = (e.forgetStale now).onto sent told :=
    foldl_forget_onto now _ e
  have prunes : ∀ e : Engine, (e.onto sent told).pruneLinks now =
      (e.pruneLinks now).onto sent told := fun e => notify_onto { e with origins := _ } _
  have expires : ∀ e : Engine, (e.onto sent told).expireHosts now =
      (e.expireHosts now).onto sent told := fun _ => rfl
  have chooses : ∀ e : Engine, (e.onto sent told).chooseGateway now =
      (e.chooseGateway now).onto sent told := by
    intro e
    unfold chooseGateway
    rw [onto_setup]
    dsimp only
    split <;> rfl
  unfold sweep
  rw [forgets, prunes, expires, chooses]
  rfl

theorem poll_onto (e : Engine) (now : Time) :
    (e.onto sent told).poll now = (e.poll now).map (Prod.map (onto sent told) id) := by
  have performs : (e.onto sent told).performDue now =
      (e.performDue now).map (Prod.map (onto sent told) id) := by
    refine bind_image (drain_onto e now _) fun r => ?_
    show (if (r.1.scheduler.pop? now).isSome then _ else _) = _
    dsimp only
    split <;> rfl
  refine bind_image performs fun ⟨settled, count⟩ => ?_
  show pure (if settled.sweepDue now then (settled.onto sent told).sweep now else _, _) = _
  rw [sweep_onto]
  dsimp only
  split <;> rfl

theorem shutdown_onto (e : Engine) (now : Time) :
    (e.onto sent told).shutdown now = (e.shutdown now).onto sent told := by
  have swept : ({ e with nextSweep := none }.onto sent told).sweep (e.flushTime now) =
      ({ e with nextSweep := none }.sweep (e.flushTime now)).onto sent told := sweep_onto _ _
  exact congrArg (fun x : Engine => { x with scheduler := x.scheduler.clear }) swept

/-! ### Calls -/

theorem step_onto (e : Engine) (c : Call) :
    (e.onto sent told).step c = (e.step c).map (Prod.map (onto sent told) id) := by
  cases c with
  | start now => exact bind_image (start_onto e now) fun _ => rfl
  | packet payload sender iface now =>
    exact bind_image (receive_onto e payload sender iface now) fun _ => rfl
  | beacon b sender iface now =>
    exact bind_image (receiveBeacon_onto e b sender iface now) fun _ => rfl
  | frame bytes now =>
    exact congrArg (fun r : Engine × FrameOutcome => Except.ok (r.1, Reply.frame r.2))
      (receiveFrame_onto e bytes now)
  | poll now => exact bind_image (poll_onto e now) fun _ => rfl
  | sweep now => exact congrArg (fun x => Except.ok (x, Reply.done)) (sweep_onto e now)
  | shutdown now => exact congrArg (fun x => Except.ok (x, Reply.done)) (shutdown_onto e now)

/-- A run keeps earlier work in front of its own, and does nothing else differently. -/
theorem run_onto (e : Engine) (cs : List Call) :
    (e.onto sent told).run cs = (e.run cs).map (onto sent told) := by
  induction cs generalizing e with
  | nil => rfl
  | cons c cs ih => exact bind_image (step_onto e c) fun r => ih r.1

end BeaconMesh.Engine
