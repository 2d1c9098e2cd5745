import BeaconMesh.Proofs.Engine.Fields
import BeaconMesh.Proofs.Engine.History
import BeaconMesh.Proofs.Floods.Log
import BeaconMesh.Proofs.Wire.Canonical

/-!
# Flooded data goes on once

The `floodLog` of an originator follows from the history alone, and the window of the originator is
in step with it after every call (`History.floods`). So data is flooded if and only if nothing at
its place was.
-/

namespace BeaconMesh

/-! ### Calls that flood -/

/-- The number of the data of an originator that a call flooded, if it flooded any. -/
def Event.flooded? (x : Event) (a : Addr) : Option Seqno :=
  match x.call, x.reply with
  | .packet payload _ _ _, .packet (.data .flooded) =>
    match Wire.decode payload with
    | .ok (.flood f) => if f.orig = a then some f.seqno else none
    | _ => none
  | _, _ => none

/-- The log of an originator after a history; empty while the originator is not known. -/
def floodLog (a : Addr) : List Event → FloodLog
  | [] => {}
  | x :: past =>
    if (x.after.origins.get? a).isNone then {}
    else
      match x.flooded? a with
      | some seqno => (floodLog a past).add seqno
      | none => floodLog a past

/-- Whether a call delivered a frame, and sent the packet that brought it over every interface. -/
structure Event.Floods (x : Event) (payload frame : Bytes) : Prop where
  answered : x.reply = .packet (.data .flooded)
  sent : x.after.outbox = x.before.outbox ++
    .deliver frame :: x.before.setup.ifaces.map fun i => .transmit i.id .broadcast payload

/-- Whether a call dropped the packet that it brought, and changed nothing. -/
structure Event.Drops (x : Event) (outcome : PacketOutcome) : Prop where
  answered : x.reply = .packet outcome
  unchanged : x.after = x.before

namespace Engine

variable {e e' : Engine} {a : Addr} {f : Flood} {payload : Bytes} {sender : Addr} {iface : IfaceId}
  {now : Time} {outcome : PacketOutcome}

def floods (e : Engine) (a : Addr) : Window × Seqno :=
  e.origins.field Originator.floods (.empty, 0) a

/-- What becomes of flooded data from another node, by what is answered. -/
inductive TakesFlood (e : Engine) (f : Flood) : FrameOutcome → Engine → Prop where
  | own (mine : e.isMine f.orig = true) : TakesFlood e f (.dropped .ownFlood) e
  | unknown (other : e.isMine f.orig = false) (absent : e.origins.get? f.orig = none) :
      TakesFlood e f (.dropped .unknownOriginator) e
  | duplicate {o : Originator} (other : e.isMine f.orig = false)
      (known : e.origins.get? f.orig = some o) (again : o.knowsFlood f.seqno = true) :
      TakesFlood e f (.dropped .duplicate) e
  | flooded {o : Originator} (other : e.isMine f.orig = false)
      (known : e.origins.get? f.orig = some o) (news : o.knowsFlood f.seqno = false) :
      TakesFlood e f .flooded
        { e with
          origins := e.origins.insert f.orig (o.hearFlood f.seqno)
          outbox := e.outbox ++ .deliver f.frame ::
            e.setup.ifaces.map fun i => .transmit i.id .broadcast (Wire.floodBytes f) }

theorem receiveFlood_takes (e : Engine) (f : Flood) :
    e.TakesFlood f (e.receiveFlood f).2 (e.receiveFlood f).1 := by
  unfold receiveFlood
  split
  · rename_i mine
    exact .own mine
  rename_i other
  have foreign : e.isMine f.orig = false := Bool.eq_false_iff.mpr other
  split
  · rename_i absent
    exact .unknown foreign absent
  rename_i o known
  split
  · rename_i again
    exact .duplicate foreign known again
  · rename_i news
    have flooded := TakesFlood.flooded foreign known (Bool.eq_false_iff.mpr news)
    rw [← List.singleton_append, ← List.append_assoc] at flooded
    exact flooded

namespace TakesFlood

variable {reached : FrameOutcome}

theorem of_mine (h : e.TakesFlood f reached e') (mine : e.isMine f.orig = true) :
    reached = .dropped .ownFlood ∧ e' = e := by
  cases h with
  | own => exact ⟨rfl, rfl⟩
  | unknown other => simp [mine] at other
  | duplicate other => simp [mine] at other
  | flooded other => simp [mine] at other

theorem of_unknown (h : e.TakesFlood f reached e') (other : e.isMine f.orig = false)
    (absent : e.origins.get? f.orig = none) :
    reached = .dropped .unknownOriginator ∧ e' = e := by
  cases h with
  | own mine => simp [mine] at other
  | unknown => exact ⟨rfl, rfl⟩
  | duplicate _ known => simp [absent] at known
  | flooded _ known => simp [absent] at known

theorem of_known (h : e.TakesFlood f reached e') (other : e.isMine f.orig = false)
    {o : Originator} (known : e.origins.get? f.orig = some o) {log : FloodLog}
    (agrees : log.Agrees o.flooded o.newestFlood) :
    (∃ place ∈ log.places, log.place? f.seqno = some place ∧
        reached = .dropped .duplicate ∧ e' = e) ∨
      (¬ ∃ place ∈ log.places, log.place? f.seqno = some place) ∧ reached = .flooded ∧
        e'.outbox = e.outbox ++ .deliver f.frame ::
          e.setup.ifaces.map fun i => .transmit i.id .broadcast (Wire.floodBytes f) := by
  have taken := agrees.known_iff f.seqno
  cases h with
  | own mine => simp [mine] at other
  | unknown _ absent => simp [absent] at known
  | duplicate _ found again =>
    cases known.symm.trans found
    obtain ⟨place, mem, placed⟩ := taken.mp again
    exact .inl ⟨place, mem, placed, rfl, rfl⟩
  | flooded _ found news =>
    cases known.symm.trans found
    refine .inr ⟨fun again => ?_, rfl, rfl⟩
    cases news.symm.trans (taken.mpr again)

end TakesFlood

theorem receive_flood (read : Wire.decode payload = .ok (.flood f))
    (h : e.receive payload sender iface now = .ok (e', outcome)) :
    (¬ (iface < e.setup.ifaces.length ∧ e.setup.IsPeer sender) ∧
        ∃ reason, outcome = .dropped reason ∧ e' = e) ∨
      (iface < e.setup.ifaces.length ∧ e.setup.IsPeer sender) ∧
        ∃ reached, outcome = .data reached ∧ e.TakesFlood f reached e' := by
  unfold receive at h
  rw [read] at h
  split at h
  · rename_i outside
    cases h
    refine .inl ⟨fun ours => ?_, .unknownInterface, rfl, rfl⟩
    rw [List.getElem?_eq_getElem ours.1] at outside
    cases outside
  rename_i inside
  have ours : iface < e.setup.ifaces.length := by
    simpa [Option.isNone_iff_eq_none] using inside
  dsimp only at h
  unfold receiveData at h
  split at h
  · rename_i reason refused
    cases h
    refine .inl ⟨fun both => ?_, reason, rfl, rfl⟩
    obtain ⟨foreign, single⟩ := both.2
    unfold refusal? isMine at refused
    rw [foreign, if_neg nofun, if_neg single] at refused
    cases refused
  · rename_i accepted
    cases h
    exact .inr ⟨⟨ours, isPeer_of_refusal? accepted⟩, _, rfl, receiveFlood_takes e f⟩

theorem flooded?_of_ne {x : Event} (other : x.reply ≠ .packet (.data .flooded)) (a : Addr) :
    x.flooded? a = none := by
  unfold Event.flooded?
  split
  · rename_i answered
    exact absurd answered other
  · rfl

theorem flooded?_of_other {x : Event} (brought : x.call = .packet payload sender iface now)
    (other : ∀ f, Wire.decode payload ≠ .ok (.flood f)) (a : Addr) : x.flooded? a = none := by
  unfold Event.flooded?
  rw [brought]
  split
  · rename_i same _
    cases same
    split
    · exact absurd ‹_› (other _)
    · rfl
  · rfl

theorem flooded?_of_flood {x : Event} (brought : x.call = .packet payload sender iface now)
    (read : Wire.decode payload = .ok (.flood f)) (answered : x.reply = .packet (.data .flooded))
    (a : Addr) : x.flooded? a = if f.orig = a then some f.seqno else none := by
  simp only [Event.flooded?, brought, answered, read]

/-! ### What a call does to the windows -/

/-- What is known of the data that a node flooded, after a call. -/
def flooded (e : Engine) (a : Addr) : Option Seqno → Window × Seqno
  | some seqno => ((e.origins.getOrNew a 0).hearFlood seqno).floods
  | none => e.floods a

theorem receiveData_origins (e : Engine) (sender : Addr) (u : Unicast) :
    (e.receiveData sender fun e => e.receiveUnicast u).1.origins = e.origins := by
  unfold receiveData
  split
  · rfl
  · exact (receiveUnicast_same e u).origins

theorem receive_floods (other : (Call.packet payload sender iface now).reception? false = none)
    (h : e.receive payload sender iface now = .ok (e', outcome)) (a : Addr) :
    e'.floods a = e.flooded a
      (Event.flooded? ⟨e, .packet payload sender iface now, .packet outcome, e'⟩ a) := by
  have quiet : e'.origins = e.origins →
      Event.flooded? ⟨e, .packet payload sender iface now, .packet outcome, e'⟩ a = none →
      e'.floods a = e.flooded a
        (Event.flooded? ⟨e, .packet payload sender iface now, .packet outcome, e'⟩ a) := by
    intro same none
    rw [none, floods, same]
    rfl
  cases read : Wire.decode payload with
  | error cause =>
    apply quiet
    · unfold receive at h
      rw [read] at h
      split at h <;> cases h <;> rfl
    · exact flooded?_of_other rfl (by simp [read]) a
  | ok packet =>
    cases packet with
    | beacon b =>
      unfold Call.reception? at other
      simp only [read] at other
      cases other
    | unicast u =>
      apply quiet
      · unfold receive at h
        rw [read] at h
        split at h
        · cases h
          rfl
        · have data := receiveData_origins e sender u
          rwa [Except.ok.inj h] at data
      · exact flooded?_of_other rfl (by simp [read]) a
    | flood f =>
      rcases receive_flood read h with ⟨-, reason, rfl, rfl⟩ | ⟨-, reached, rfl, taken⟩
      · exact quiet rfl (flooded?_of_ne (by simp) a)
      cases taken with
      | own => exact quiet rfl (flooded?_of_ne (by simp) a)
      | unknown => exact quiet rfl (flooded?_of_ne (by simp) a)
      | duplicate => exact quiet rfl (flooded?_of_ne (by simp) a)
      | @flooded o _ known =>
        rw [flooded?_of_flood rfl read rfl]
        show (e.origins.insert f.orig (o.hearFlood f.seqno)).field _ _ a = _
        rw [Origins.field_insert]
        by_cases orig : f.orig = a
        · rw [if_pos orig, if_pos orig, flooded, ← orig, Origins.getOrNew_of_get? known]
        · rw [if_neg orig, if_neg orig]
          rfl

theorem Takes.floods {b : Beacon} {hop : Hop} (taken : e.Takes b hop now outcome e') (a : Addr) :
    e'.floods a = e.floods a := by
  have hears : SameField Originator.floods (.empty, 0) e (e.hear b hop now) := by
    refine hear_sameField e b hop now rfl fun o => ?_
    obtain ⟨_, _, _, _, _, heard⟩ := o.hear_frame b.seqno b.ttl hop now
    rw [heard]
    rfl
  cases taken with
  | refused => rfl
  | @echo here => exact hearEcho_sameField e b hop.addr here now rfl (fun _ _ _ => rfl) a
  | late => exact hears a
  | judged _ _ work =>
    have ranks : ∀ (b : Beacon) (o : Originator), (ranked o b hop).1.floods = o.floods := by
      intro b o
      obtain ⟨_, frame⟩ := o.ranked_frame b hop
      rw [frame]
      rfl
    have judged : SameField Originator.floods (.empty, 0) (e.hear b hop now) e' :=
      judge_sameField work rfl (fun _ _ _ => rfl) ranks fun _ _ _ _ => rfl
    exact (hears.trans judged) a

theorem floods_of_decay {s : Setup} {o o' : Originator} (h : Originator.Decay s o o') :
    o'.floods = o.floods := by
  cases h with
  | prune now =>
    obtain ⟨_, frame⟩ := o.prune_frame now s.timeout
    rw [frame]
    rfl
  | _ => rfl

/-- A call that does not forget a node changes what is known of its floods by flooding data. -/
theorem step_floods {c : Call} {r : Reply} (made : e.step c = .ok (e', r))
    (live : (e'.origins.get? a).isSome = true) :
    e'.floods a = e.flooded a (Event.flooded? ⟨e, c, r, e'⟩ a) := by
  have still : ∀ {settled : Engine}, settled.floods a = e.floods a → Decays settled e' →
      r ≠ .packet (.data .flooded) →
      e'.floods a = e.flooded a (Event.flooded? ⟨e, c, r, e'⟩ a) := by
    intro settled same decays other
    rw [flooded?_of_ne other]
    exact (decays.field live floods_of_decay).trans same
  cases step_does made with
  | start work => exact still (SameField.of_origins (start_same work).origins a) .refl nofun
  | beacon brought taken =>
    refine still (taken.floods a) .refl ?_
    rintro ⟨⟩
    cases taken
  | data other carried =>
    obtain ⟨⟨received, _⟩, work, h⟩ := Fault.bind_ok made
    cases Fault.pure_ok h
    exact receive_floods other work a
  | frame bridged => exact still (SameField.of_origins bridged.origins a) .refl nofun
  | @poll now settled work =>
    have performed : settled.floods a = e.floods a := work.sameField (fun _ _ => rfl) a
    refine still performed ?_ nofun
    split
    · exact sweep_decays settled now
    · exact .refl
  | sweep now => exact still rfl (sweep_decays e now) nofun
  | shutdown now => exact still rfl (shutdown_decays e now) nofun

theorem History.floods {s : Setup} {jitter : Jitter} {past : List Event}
    (h : History (.new s jitter) past e) (a : Addr) :
    (floodLog a past).Agrees (e.floods a).1 (e.floods a).2 := by
  induction h with
  | nil => exact FloodLog.agrees_empty 0
  | @call past e e' c r earlier made ih =>
    unfold floodLog
    cases known : e'.origins.get? a with
    | none =>
      rw [Option.isNone_none, if_pos rfl, Engine.floods, Origins.field_of_none known]
      exact FloodLog.agrees_empty 0
    | some o' =>
      rw [Option.isNone_some, if_neg nofun, step_floods made (by rw [known]; rfl)]
      cases Event.flooded? ⟨e, c, r, e'⟩ a with
      | none => exact ih
      | some seqno =>
        have same : (e.origins.getOrNew a 0).floods = e.floods a := Origins.field_getOrNew rfl
        rw [← same] at ih
        exact Originator.floods_hearFlood ih seqno

/-! ### The whole -/

/-- Data of a known node is flooded exactly if nothing at its place was since the window was last
started anew. -/
theorem floods_once {s : Setup} {jitter : Jitter} {cs : List Call} {e : Engine}
    (h : (Engine.new s jitter).run cs = .ok e) :
    ∃ past, History (.new s jitter) past e ∧ past.reverse.map Event.call = cs ∧
      ∀ later x earlier payload sender iface now f, past = later ++ x :: earlier →
        x.call = .packet payload sender iface now → Wire.decode payload = .ok (.flood f) →
        (¬ (iface < s.ifaces.length ∧ s.IsPeer sender) → ∃ reason, x.Drops (.dropped reason)) ∧
        (iface < s.ifaces.length → s.IsPeer sender →
          (s.isMine f.orig = true → x.Drops (.data (.dropped .ownFlood))) ∧
          (s.isMine f.orig = false → x.before.origins.get? f.orig = none →
            x.Drops (.data (.dropped .unknownOriginator))) ∧
          ∀ o, s.isMine f.orig = false → x.before.origins.get? f.orig = some o →
            ((floodLog f.orig earlier).places ≠ [] →
              o.newestFlood = (floodLog f.orig earlier).seqno) ∧
            ((floodLog f.orig earlier).place? f.seqno = none → x.Floods payload f.frame) ∧
            ∀ place, (floodLog f.orig earlier).place? f.seqno = some place →
              (x.Floods payload f.frame ↔ place ∉ (floodLog f.orig earlier).places) ∧
              (place ∈ (floodLog f.orig earlier).places →
                x.Drops (.data (.dropped .duplicate)))) := by
  obtain ⟨past, history, calls⟩ := run_iff_history.mp h
  refine ⟨past, history, calls, ?_⟩
  intro later x earlier payload sender iface now f split brought read
  subst split
  obtain ⟨before, made⟩ := history.cut
  rw [brought] at made
  obtain ⟨⟨received, outcome⟩, work, answer⟩ := Fault.bind_ok made
  obtain ⟨same, answered⟩ := Prod.mk.inj (Fault.pure_ok answer)
  subst same
  have came := receive_flood read work
  rw [← before.setup]
  rcases came with ⟨foreign, reason, rfl, same⟩ | ⟨ours, reached, rfl, taken⟩
  · exact ⟨fun _ => ⟨reason, answered.symm, same⟩, fun here peer => absurd ⟨here, peer⟩ foreign⟩
  refine ⟨fun foreign => absurd ours foreign, fun _ _ => ⟨?_, ?_, ?_⟩⟩
  · intro mine
    obtain ⟨rfl, same⟩ := taken.of_mine mine
    exact ⟨answered.symm, same⟩
  · intro other absent
    obtain ⟨rfl, same⟩ := taken.of_unknown other absent
    exact ⟨answered.symm, same⟩
  · intro o other known
    have agrees := before.floods f.orig
    rw [Engine.floods, Origins.field_of_get? known] at agrees
    refine ⟨fun begun => agrees.number begun, ?_⟩
    have unchanged : Wire.floodBytes f = payload := Except.ok.inj (Wire.encode_of_decode read)
    rcases taken.of_known other known agrees with
      ⟨place, full, placed, rfl, same⟩ | ⟨free, rfl, sent⟩
    · have drops : x.Drops (.data (.dropped .duplicate)) := ⟨answered.symm, same⟩
      have silent : ¬ x.Floods payload f.frame := fun floods => by
        cases answered.trans floods.answered
      rw [placed]
      refine ⟨nofun, ?_⟩
      rintro _ ⟨⟩
      exact ⟨iff_of_false silent (not_not_intro full), fun _ => drops⟩
    · have floods : x.Floods payload f.frame := ⟨answered.symm, unchanged ▸ sent⟩
      refine ⟨fun _ => floods, fun place placed => ?_⟩
      have vacant : place ∉ (floodLog f.orig earlier).places :=
        fun full => free ⟨place, full, placed⟩
      exact ⟨iff_of_true floods vacant, fun full => absurd full vacant⟩

/-- Data that the neighbour floods. -/
def sampleFlood (seqno : Seqno) : Flood := { orig := Sample.near, seqno, frame := [1, 2] }

/-- The neighbour floods data whose numbers wrap around. -/
def floodCalls : List Call :=
  Sample.calls ++ [65535, 1, 0].map fun seqno =>
    .packet (Wire.floodBytes (sampleFlood seqno)) Sample.near 0 1006

/-- The last of the data comes again. -/
def floodAgain : Call := .packet (Wire.floodBytes (sampleFlood 0)) Sample.near 0 1007

theorem floods_once_sample :
    ∃ e past x earlier, (Engine.new Sample.setup default).run (floodCalls ++ [floodAgain]) = .ok e ∧
      e.outbox.count (.deliver [1, 2]) = 3 ∧ History (.new Sample.setup default) past e ∧
      past.reverse.map Event.call = floodCalls ++ [floodAgain] ∧ past = x :: earlier ∧
      x.call = floodAgain ∧
      ∀ o, x.before.origins.get? Sample.near = some o →
        ∀ place, (floodLog Sample.near earlier).place? 0 = some place →
          (x.Floods (Wire.floodBytes (sampleFlood 0)) [1, 2] ↔
            place ∉ (floodLog Sample.near earlier).places) ∧
          (place ∈ (floodLog Sample.near earlier).places →
            x.Drops (.data (.dropped .duplicate))) := by
  have reached : ∃ e, (Engine.new Sample.setup default).run (floodCalls ++ [floodAgain]) = .ok e ∧
      e.outbox.count (.deliver [1, 2]) = 3 := ⟨_, rfl, by decide +kernel⟩
  obtain ⟨e, run, delivered⟩ := reached
  obtain ⟨past, history, calls, verdict⟩ := floods_once run
  obtain ⟨x, earlier, rfl, brought, -⟩ := history.ends calls
  refine ⟨e, _, x, earlier, run, delivered, history, calls, rfl, brought, ?_⟩
  intro o known
  obtain ⟨-, taken⟩ := verdict [] x earlier _ _ _ _ (sampleFlood 0) rfl brought (by rfl)
  obtain ⟨-, -, once⟩ := taken (by decide) ⟨by decide, by decide⟩
  obtain ⟨-, -, placed⟩ := once o (by decide) known
  exact placed

end Engine

end BeaconMesh
