import BeaconMesh.Proofs.Echoes.Log

/-!
# Dropped packets leave no trace

A packet that is dropped leaves the state of a node as it was. The one exception is a beacon of our
own that comes back: it may add a mark to the echoes of the neighbour that sent it.
-/

namespace BeaconMesh

def PacketOutcome.dropReason? : PacketOutcome → Option DropReason
  | .dropped reason => some reason
  | .data (.dropped reason) => some reason
  | _ => none

/-- Whether the echoes on one interface have at most the mark at `p` more than before; everything
else is the same. -/
structure Originator.Marked (iface : IfaceId) (p : Nat) (o o' : Originator) : Prop where
  rest : o' = { o with echoes := o'.echoes }
  length : o'.echoes.length = o.echoes.length
  kept : ∀ i q, (o.echoWindow i).has q = true → (o'.echoWindow i).has q = true
  added : ∀ i q, (o'.echoWindow i).has q = true →
    (o.echoWindow i).has q = true ∨ i = iface ∧ q = p

theorem Originator.recordEcho_marked (o : Originator) (iface : IfaceId) (p : Nat) :
    o.Marked iface p (o.recordEcho iface p) := by
  have windows : ∀ i, (o.recordEcho iface p).echoes[i]? =
      o.echoes[i]?.map fun w => if iface = i then w.record p else w := by
    intro i
    show (o.echoes.modify iface fun w => w.record p)[i]? = _
    rw [List.getElem?_modify]
    rfl
  refine ⟨rfl, List.length_modify _ _ _, ?_, ?_⟩
  · intro i q held
    unfold echoWindow echoes? at held ⊢
    rw [windows]
    cases found : o.echoes[i]? with
    | none => simp [found] at held
    | some w =>
      simp only [found, Option.getD_some, Option.map_some] at held ⊢
      split
      · rw [Window.has_record, held, Bool.true_or]
      · exact held
  · intro i q held
    unfold echoWindow echoes? at held ⊢
    rw [windows] at held
    cases found : o.echoes[i]? with
    | none => simp [found] at held
    | some w =>
      simp only [found, Option.getD_some, Option.map_some] at held ⊢
      split at held
      · rename_i same
        simp only [Window.has_record, Bool.or_eq_true, decide_eq_true_eq] at held
        rcases held with old | ⟨here, -⟩
        · exact .inl old
        · exact .inr ⟨same.symm, here.symm⟩
      · exact .inl held

namespace Engine

variable {e e' : Engine} {b : Beacon} {hop : Hop} {now : Time} {sender : Addr} {iface : IfaceId}
  {outcome : PacketOutcome} {reason : DropReason}

/-- Whether at most a mark was added to the echoes of a neighbour on an interface. The neighbour may
have become known by it. -/
structure Echoed (e : Engine) (sender : Addr) (iface : IfaceId) (now : Time) (e' : Engine) :
    Prop where
  rest : e' = { e with origins := e'.origins }
  ifaces : e'.origins.ifaces = e.origins.ifaces
  others : ∀ a, a ≠ sender → e'.origins.get? a = e.origins.get? a
  entry : e'.origins.get? sender = e.origins.get? sender ∨ ∃ o' p, p < Window.size ∧
    e'.origins.get? sender = some o' ∧ (e.origins.getOrNew sender now).Marked iface p o'

theorem hearEcho_echoed (e : Engine) (b : Beacon) (sender : Addr) (here : Iface) (now : Time) :
    e.Echoed sender here.id now (e.hearEcho b sender here now) := by
  unfold hearEcho
  split
  · rename_i offset echoed
    let marked := (e.origins.getOrNew sender now).recordEcho here.id offset
    have heard : ∀ a, (e.origins.upsert sender now fun o => o.recordEcho here.id offset).get? a =
        if sender = a then some marked else e.origins.get? a := by
      intro a
      rw [Origins.get?_upsert]
    refine ⟨rfl, rfl, ?_, .inr ⟨marked, offset, echoOffset?_lt echoed, ?_, ?_⟩⟩
    · intro a other
      exact (heard a).trans (if_neg (Ne.symm other))
    · exact (heard sender).trans (if_pos rfl)
    · exact Originator.recordEcho_marked _ _ _
  · exact ⟨rfl, rfl, fun _ _ => rfl, .inl rfl⟩

/-! ### Each way out -/

theorem refusal?_ne (h : e.refusal? sender = some reason) : reason ≠ .ownBeacon := by
  unfold refusal? at h
  split at h
  · cases h
    nofun
  · split at h
    · cases h
      nofun
    · cases h

theorem Takes.dropped (h : e.Takes b hop now outcome e')
    (dropped : outcome.dropReason? = some reason) :
    reason ≠ .ownBeacon ∧ e' = e ∨
      reason = .ownBeacon ∧ e.isMine b.orig = true ∧ e.Echoed hop.addr hop.iface now e' := by
  cases h with
  | refused other =>
    cases dropped
    exact .inl ⟨other, rfl⟩
  | @echo here known _ mine =>
    cases dropped
    obtain ⟨inRange, same⟩ := List.getElem?_eq_some_iff.mp known
    have number : here.id = hop.iface := same ▸ e.setup.numbered hop.iface inRange
    refine .inr ⟨rfl, mine, ?_⟩
    rw [← number]
    exact hearEcho_echoed e b hop.addr here now
  | late => cases dropped
  | judged => cases dropped

theorem sendAlong_dropped {u : Unicast} {done : FrameOutcome} (goes : ∀ r, done ≠ .dropped r)
    (h : e.sendAlong u done = (e', .dropped reason)) : reason ≠ .ownBeacon ∧ e' = e := by
  unfold sendAlong at h
  split at h
  · obtain ⟨-, same⟩ := Prod.mk.inj h
    exact absurd same (goes reason)
  · cases h
    exact ⟨nofun, rfl⟩

theorem receiveUnicast_dropped {u : Unicast} (h : e.receiveUnicast u = (e', .dropped reason)) :
    reason ≠ .ownBeacon ∧ e' = e := by
  unfold receiveUnicast at h
  split at h
  · cases h
  · split at h
    · cases h
      exact ⟨nofun, rfl⟩
    · have goes : ∀ r, FrameOutcome.forwarded ≠ .dropped r := nofun
      exact sendAlong_dropped goes h

theorem receiveFlood_dropped {f : Flood} (h : e.receiveFlood f = (e', .dropped reason)) :
    reason ≠ .ownBeacon ∧ e' = e := by
  unfold receiveFlood at h
  split at h
  · cases h
    exact ⟨nofun, rfl⟩
  split at h
  · cases h
    exact ⟨nofun, rfl⟩
  split at h
  · cases h
    exact ⟨nofun, rfl⟩
  · cases h

theorem receiveData_dropped {receive : Engine → Engine × FrameOutcome}
    (drops : ∀ {e' reason}, receive e = (e', .dropped reason) → reason ≠ .ownBeacon ∧ e' = e)
    (h : e.receiveData sender receive = (e', outcome))
    (dropped : outcome.dropReason? = some reason) : reason ≠ .ownBeacon ∧ e' = e := by
  unfold receiveData at h
  split at h
  · rename_i refused
    cases h
    cases dropped
    exact ⟨refusal?_ne refused, rfl⟩
  · obtain ⟨after, answered⟩ := Prod.mk.inj h
    cases received : (receive e).2 with
    | dropped r =>
      rw [received] at answered
      subst answered
      cases dropped
      exact drops (Prod.ext after received)
    | _ =>
      rw [received] at answered
      subst answered
      cases dropped

theorem receive_dropped {payload : Bytes}
    (h : e.receive payload sender iface now = .ok (e', outcome))
    (dropped : outcome.dropReason? = some reason) :
    reason ≠ .ownBeacon ∧ e' = e ∨
    reason = .ownBeacon ∧ ∃ b, Wire.decode payload = .ok (.beacon b) ∧
      e.isMine b.orig = true ∧ e.Echoed sender iface now e' := by
  unfold receive at h
  split at h
  · cases h
    cases dropped
    exact .inl ⟨nofun, rfl⟩
  split at h
  · rename_i cause _
    cases h
    cases dropped
    refine .inl ⟨?_, rfl⟩
    unfold dropReason
    split <;> nofun
  · rename_i b decoded
    have taken : e.Takes b ⟨sender, iface⟩ now outcome e' := receiveBeacon_takes h
    rcases taken.dropped dropped with same | ⟨own, mine, echoed⟩
    · exact .inl same
    · exact .inr ⟨own, b, decoded, mine, echoed⟩
  · exact .inl (receiveData_dropped receiveUnicast_dropped (Except.ok.inj h) dropped)
  · exact .inl (receiveData_dropped receiveFlood_dropped (Except.ok.inj h) dropped)

/-! ### Calls and runs -/

theorem step_dropped {c : Call} (made : e.step c = .ok (e', .packet outcome))
    (dropped : outcome.dropReason? = some reason) :
    reason ≠ .ownBeacon ∧ e' = e ∨ reason = .ownBeacon ∧ ∃ r, c.reception? false = some r ∧
      e.isMine r.beacon.orig = true ∧ e.Echoed r.hop.addr r.hop.iface r.now e' := by
  cases c with
  | packet payload sender iface now =>
    obtain ⟨⟨received, answer⟩, work, made⟩ := Fault.bind_ok made
    cases Fault.pure_ok made
    rcases receive_dropped work dropped with same | ⟨own, b, decoded, mine, echoed⟩
    · exact .inl same
    · refine .inr ⟨own, ⟨b, ⟨sender, iface⟩, now, false⟩, ?_, mine, echoed⟩
      simp only [Call.reception?, decoded]
  | beacon b sender iface now =>
    obtain ⟨⟨received, answer⟩, work, made⟩ := Fault.bind_ok made
    cases Fault.pure_ok made
    have taken : e.Takes b ⟨sender, iface⟩ now outcome e' := receiveBeacon_takes work
    rcases taken.dropped dropped with same | ⟨own, mine, echoed⟩
    · exact .inl same
    · exact .inr ⟨own, _, rfl, mine, echoed⟩
  | start | poll =>
    obtain ⟨_, _, made⟩ := Fault.bind_ok made
    cases Fault.pure_ok made
  | frame | sweep | shutdown => cases made

end Engine

/-- Whether a call brought a packet that was dropped, and that was no beacon of ours. -/
def Event.isDropped (x : Event) : Bool :=
  match x.reply with
  | .packet outcome => (outcome.dropReason?.filter (· ≠ .ownBeacon)).isSome
  | _ => false

namespace Engine

variable {e e' : Engine} {past : List Event}

theorem after_of_isDropped {x : Event} (made : x.before.step x.call = .ok (x.after, x.reply))
    (dropped : x.isDropped = true) : x.after = x.before := by
  unfold Event.isDropped at dropped
  split at dropped
  · rename_i outcome answered
    obtain ⟨reason, found⟩ := Option.isSome_iff_exists.mp dropped
    obtain ⟨given, other⟩ := Option.filter_eq_some_iff.mp found
    rw [answered] at made
    rcases step_dropped made given with ⟨-, same⟩ | ⟨own, -⟩
    · exact same
    · simp [own] at other
  · cases dropped

theorem History.run_without_dropped {start : Engine} (h : History start past e) :
    start.run ((past.filter fun x => ! x.isDropped).reverse.map Event.call) = .ok e := by
  induction h with
  | nil => rfl
  | @call past e e' c r before made ih =>
    cases dropped : Event.isDropped ⟨e, c, r, e'⟩ with
    | true =>
      have same : e' = e := after_of_isDropped (x := ⟨e, c, r, e'⟩) made dropped
      rw [List.filter_cons_of_neg (by simp [dropped]), same]
      exact ih
    | false =>
      have last : e.run [c] = .ok e' := by
        unfold run
        rw [made]
        rfl
      rw [List.filter_cons_of_pos (by simp [dropped]), List.reverse_cons, List.map_append,
        run_append, ih]
      exact last

/-- A dropped packet leaves the state as it was, but for the echo that a beacon of ours is. -/
theorem dropped_leaves_no_trace {s : Setup} {jitter : Jitter} {cs : List Call} {e : Engine}
    (h : (Engine.new s jitter).run cs = .ok e) :
    (∀ c e' outcome reason, e.step c = .ok (e', .packet outcome) →
      outcome.dropReason? = some reason →
      (reason ≠ .ownBeacon → e' = e) ∧
      (reason = .ownBeacon → ∃ r, c.reception? false = some r ∧ e.isMine r.beacon.orig = true ∧
        e.Echoed r.hop.addr r.hop.iface r.now e')) ∧
    ∃ past, History (.new s jitter) past e ∧ past.reverse.map Event.call = cs ∧
      (Engine.new s jitter).run ((past.filter fun x => ! x.isDropped).reverse.map Event.call) =
        .ok e := by
  refine ⟨?_, ?_⟩
  · intro c e' outcome reason made dropped
    rcases step_dropped made dropped with ⟨other, same⟩ | ⟨own, echo⟩
    · exact ⟨fun _ => same, fun own => absurd own other⟩
    · exact ⟨fun other => absurd own other, fun _ => echo⟩
  · obtain ⟨past, history, calls⟩ := run_iff_history.mp h
    exact ⟨past, history, calls, history.run_without_dropped⟩

/-- A frame that the node behind the neighbour floods. -/
def floodedFrame : Flood := { orig := Sample.far, seqno := 5, frame := [1, 2, 3] }

/-- Packets that are dropped after that frame was flooded, one for each reason. -/
def sampleDrops : List (Call × DropReason) :=
  [(.packet [] Sample.near 7 2000, .unknownInterface),
    (.packet [] Sample.near 0 2000, .malformed),
    (.packet (1 :: 9 :: List.replicate 19 0) Sample.near 0 2000, .incompatibleVersion),
    (.beacon (Sample.relayed 2 []) Sample.setup.primary 0 2000, .ownSender),
    (.beacon (Sample.relayed 2 []) .broadcast 0 2000, .broadcastSender),
    (.beacon { Sample.relayed 2 [] with flags := Beacon.oneWayFlag } Sample.near 0 2000, .oneWay),
    (.packet (Wire.floodBytes { floodedFrame with orig := Sample.setup.primary }) Sample.near 0 2000,
      .ownFlood),
    (.packet (Wire.floodBytes { floodedFrame with orig := Sample.host }) Sample.near 0 2000,
      .unknownOriginator),
    (.packet (Wire.floodBytes floodedFrame) Sample.near 1 2000, .duplicate),
    (.packet (Wire.unicastBytes ⟨1, Sample.far, []⟩) Sample.near 0 2000, .ttlExceeded),
    (.packet (Wire.unicastBytes ⟨9, Sample.host, []⟩) Sample.near 0 2000, .noRoute)]

/-- Why a call brings a packet that is dropped, if it does. -/
def dropReason? (e : Engine) (c : Call) : Option DropReason :=
  match e.step c with
  | .ok (_, .packet outcome) => outcome.dropReason?
  | _ => none

theorem dropped_leaves_no_trace_sample :
    ∃ e, (Engine.new Sample.setup default).run
        (Sample.calls ++ [.packet (Wire.floodBytes floodedFrame) Sample.near 0 1999]) = .ok e ∧
      ∀ x ∈ sampleDrops, ∃ outcome, outcome.dropReason? = some x.2 ∧
        e.step x.1 = .ok (e, .packet outcome) := by
  have reached : ∃ e, (Engine.new Sample.setup default).run
        (Sample.calls ++ [.packet (Wire.floodBytes floodedFrame) Sample.near 0 1999]) = .ok e ∧
      ∀ x ∈ sampleDrops, e.dropReason? x.1 = some x.2 ∧ x.2 ≠ .ownBeacon :=
    ⟨_, rfl, by decide⟩
  obtain ⟨e, run, answers⟩ := reached
  refine ⟨e, run, fun x mem => ?_⟩
  obtain ⟨answered, other⟩ := answers x mem
  unfold dropReason? at answered
  split at answered
  · rename_i e' outcome made
    obtain ⟨noTrace, -⟩ := dropped_leaves_no_trace run
    obtain ⟨same, -⟩ := noTrace x.1 e' outcome x.2 made answered
    rw [same other] at made
    exact ⟨outcome, answered, made⟩
  · cases answered

end Engine

end BeaconMesh
