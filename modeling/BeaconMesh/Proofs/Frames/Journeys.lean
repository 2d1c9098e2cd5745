import BeaconMesh.Proofs.Sending.Sendings
import Mathlib.Data.List.Chain

/-!
# The journey of a frame

A node sends a frame as unicast data, and each node that the data comes to delivers it, sends it on
with one hop less, or drops it. So the frame is the same all along its way, whatever the nodes on it
believe about routes, and its hops bound the way (`unicast_survives_journey`).
-/

namespace BeaconMesh

namespace Engine

variable {e e' : Engine} {u : Unicast} {payload : Bytes} {sender : Addr} {iface : IfaceId}
  {now : Time} {r : Reply}

/-- What becomes of unicast data: the answer, and what is added to the outbox. -/
inductive Conveys (e : Engine) (u : Unicast) : PacketOutcome → List Action → Prop where
  | refused (reason : DropReason) : Conveys e u (.dropped reason) []
  | dropped (reason : DropReason) : Conveys e u (.data (.dropped reason)) []
  | delivered (mine : e.isMine u.dest = true) : Conveys e u (.data .delivered) [.deliver u.frame]
  | forwarded (hop : Hop) (left : 2 ≤ u.ttl.toNat) :
      Conveys e u (.data .forwarded)
        [.transmit hop.iface hop.addr (Wire.unicastBytes { u with ttl := u.ttl - 1 })]

theorem receiveUnicast_conveys (e : Engine) (u : Unicast) :
    ∃ sent, (e.receiveUnicast u).1.outbox = e.outbox ++ sent ∧
      e.Conveys u (.data (e.receiveUnicast u).2) sent := by
  unfold receiveUnicast
  split
  · rename_i mine
    exact ⟨_, rfl, .delivered mine⟩
  split
  · exact ⟨[], (List.append_nil _).symm, .dropped _⟩
  · rename_i enough
    have left : 2 ≤ u.ttl.toNat :=
      Nat.le_of_not_lt fun few => enough (UInt8.lt_iff_toNat_lt.mpr few)
    unfold sendAlong
    split
    · rename_i l _
      exact ⟨_, rfl, .forwarded l.hop left⟩
    · exact ⟨[], (List.append_nil _).symm, .dropped _⟩

theorem receive_conveys (e : Engine) (read : Wire.decode payload = .ok (.unicast u))
    (sender : Addr) (iface : IfaceId) (now : Time) :
    ∃ e' outcome sent, e.receive payload sender iface now = .ok (e', outcome) ∧
      e'.outbox = e.outbox ++ sent ∧ e.Conveys u outcome sent := by
  unfold receive
  split
  · exact ⟨e, _, [], rfl, (List.append_nil _).symm, .refused _⟩
  rw [read]
  dsimp only
  unfold receiveData
  split
  · exact ⟨e, _, [], rfl, (List.append_nil _).symm, .refused _⟩
  · obtain ⟨sent, grown, conveys⟩ := e.receiveUnicast_conveys u
    exact ⟨_, _, sent, rfl, grown, conveys⟩

theorem step_conveys (read : Wire.decode payload = .ok (.unicast u))
    (made : e.step (.packet payload sender iface now) = .ok (e', r)) :
    ∃ outcome sent, r = .packet outcome ∧ e'.outbox = e.outbox ++ sent ∧
      e.Conveys u outcome sent := by
  obtain ⟨received, outcome, sent, work, grown, conveys⟩ := e.receive_conveys read sender iface now
  obtain ⟨_, same, made⟩ := Fault.bind_ok made
  cases work.symm.trans same
  cases Fault.pure_ok made
  exact ⟨outcome, sent, rfl, grown, conveys⟩

theorem step_answers (e : Engine) (read : Wire.decode payload = .ok (.unicast u))
    (sender : Addr) (iface : IfaceId) (now : Time) :
    ∃ e' r, e.step (.packet payload sender iface now) = .ok (e', r) := by
  obtain ⟨e', outcome, -, work, -⟩ := e.receive_conveys read sender iface now
  refine ⟨e', .packet outcome, ?_⟩
  show (e.receive payload sender iface now >>= _) = _
  rw [work]
  rfl

theorem receiveFrame_sent {frame : Bytes} (h : e.receiveFrame frame now = (e', .sent)) :
    ∃ (dest : Addr) (hop : Hop), e'.outbox = e.outbox ++ [.transmit hop.iface hop.addr
      (Wire.unicastBytes { ttl := e.setup.config.ttl, dest, frame })] := by
  unfold receiveFrame at h
  split at h
  · cases h
  dsimp only at h
  split at h
  · cases h
  split at h
  · cases h
  · rename_i dest _
    unfold sendAlong at h
    split at h
    · rename_i l _
      cases h
      exact ⟨dest, l.hop, rfl⟩
    · cases h

end Engine

/-! ### Journeys -/

/-- The packets among some actions. -/
def Action.payload? : Action → Option Bytes
  | .transmit _ _ payload => some payload
  | .deliver _ => none

namespace Event

/-- The packets that a call sent. -/
def payloads (x : Event) : List Bytes := x.sent.filterMap Action.payload?

/-- Whether a call is made in its state, and brings there a packet that the call before it sent. -/
def Follows (y x : Event) : Prop :=
  y.before.step y.call = .ok (y.after, y.reply) ∧
    ∃ payload ∈ x.payloads, ∃ sender iface now, y.call = .packet payload sender iface now

def forwards (x : Event) : Bool := x.reply = .packet (.data .forwarded)

end Event

/-- A packet on its way from node to node, each in any state: every node is brought what the one
before it sent. -/
def Journey (first : Event) (later : List Event) : Prop :=
  (first :: later).IsChain fun x y => y.Follows x

/-- What holds of a packet where it comes to, and of what it leaves there as. -/
structure Event.Bears (y : Event) (u : Unicast) : Prop where
  brought : ∃ payload sender iface now, y.call = .packet payload sender iface now ∧
    Wire.decode payload = .ok (.unicast u)
  passed : ∀ payload ∈ y.payloads, ∃ ttl : UInt8, ttl.toNat + 1 = u.ttl.toNat ∧
    Wire.decode payload = .ok (.unicast { u with ttl })
  delivered : y.reply = .packet (.data .delivered) →
    y.after.outbox = y.before.outbox ++ [.deliver u.frame] ∧ y.before.isMine u.dest = true

variable {x y : Event} {ys : List Event} {u : Unicast}

theorem decode_unicast (u : Unicast) : Wire.decode (Wire.unicastBytes u) = .ok (.unicast u) :=
  Wire.decode_of_encode (p := .unicast u) rfl

/-- Where unicast data comes to it is borne, and either it goes no further, or it was sent on with
one hop less. -/
theorem Event.Follows.bears (h : y.Follows x)
    (carries : ∀ payload ∈ x.payloads, Wire.decode payload = .ok (.unicast u)) :
    y.Bears u ∧ (y.forwards = false ∧ y.payloads = [] ∨
      2 ≤ u.ttl.toNat ∧ (u.ttl - 1).toNat + 1 = u.ttl.toNat ∧
        ∀ payload ∈ y.payloads,
          Wire.decode payload = .ok (.unicast { u with ttl := u.ttl - 1 })) := by
  obtain ⟨made, payload, mem, sender, iface, now, call⟩ := h
  have read := carries payload mem
  rw [call] at made
  obtain ⟨outcome, sent, reply, grown, conveys⟩ := Engine.step_conveys read made
  have brought : ∃ payload sender iface now, y.call = .packet payload sender iface now ∧
      Wire.decode payload = .ok (.unicast u) := ⟨payload, sender, iface, now, call, read⟩
  have payloads : y.payloads = sent.filterMap Action.payload? := by
    rw [Event.payloads, Event.sent_eq grown]
  have silent : y.payloads = [] → ∀ payload ∈ y.payloads, ∃ ttl : UInt8,
      ttl.toNat + 1 = u.ttl.toNat ∧ Wire.decode payload = .ok (.unicast { u with ttl }) := by
    intro none payload mem
    rw [none] at mem
    cases mem
  have ends : y.reply ≠ .packet (.data .forwarded) → y.forwards = false := decide_eq_false
  cases conveys with
  | refused reason | dropped reason =>
    refine ⟨⟨brought, silent payloads, ?_⟩, .inl ⟨ends ?_, payloads⟩⟩
    all_goals
      rw [reply]
      nofun
  | delivered mine =>
    refine ⟨⟨brought, silent payloads, fun _ => ⟨grown, mine⟩⟩, .inl ⟨ends ?_, payloads⟩⟩
    rw [reply]
    nofun
  | forwarded hop left =>
    have one : (1 : UInt8) ≤ u.ttl := UInt8.le_iff_toNat_le.mpr (Nat.le_of_lt left)
    have less : (u.ttl - 1).toNat + 1 = u.ttl.toNat := by
      rw [UInt8.toNat_sub_of_le _ _ one]
      exact Nat.sub_add_cancel (Nat.le_of_lt left)
    have passed : ∀ payload ∈ y.payloads,
        Wire.decode payload = .ok (.unicast { u with ttl := u.ttl - 1 }) := by
      intro payload mem
      rw [payloads] at mem
      rw [List.mem_singleton.mp mem]
      exact decode_unicast _
    refine ⟨⟨brought, fun payload mem => ⟨u.ttl - 1, less, passed payload mem⟩, ?_⟩,
      .inr ⟨left, less, passed⟩⟩
    rw [reply]
    nofun

theorem Journey.ends (h : Journey x ys) (none : x.payloads = []) : ys = [] := by
  cases ys with
  | nil => rfl
  | cons y ys =>
    obtain ⟨⟨-, payload, mem, -⟩, -⟩ := List.isChain_cons_cons.mp h
    rw [none] at mem
    cases mem

/-- Along a journey every node is brought the same frame, with one hop less each time. Those that
send it on, and all of them, are no more than it has hops. -/
theorem Journey.bears (h : Journey x ys)
    (carries : ∀ payload ∈ x.payloads, Wire.decode payload = .ok (.unicast u)) :
    (∀ k y, ys[k]? = some y →
      ∃ ttl : UInt8, ttl.toNat + k = u.ttl.toNat ∧ y.Bears { u with ttl }) ∧
    ys.countP Event.forwards ≤ u.ttl.toNat - 1 ∧ ys.length ≤ u.ttl.toNat + 1 := by
  induction ys generalizing x u with
  | nil =>
    refine ⟨fun k y found => ?_, Nat.zero_le _, Nat.zero_le _⟩
    rw [List.getElem?_nil] at found
    cases found
  | cons y ys ih =>
    obtain ⟨follows, rest⟩ := List.isChain_cons_cons.mp h
    obtain ⟨bears, onward⟩ := follows.bears carries
    have first : ∀ z, (y :: ys)[0]? = some z →
        ∃ ttl : UInt8, ttl.toNat + 0 = u.ttl.toNat ∧ z.Bears { u with ttl } := by
      rintro z ⟨⟩
      exact ⟨u.ttl, rfl, bears⟩
    rcases onward with ⟨stays, none⟩ | ⟨left, less, passed⟩
    · obtain rfl := Journey.ends rest none
      refine ⟨fun k z found => ?_, ?_, Nat.le_add_left _ _⟩
      · cases k with
        | zero => exact first z found
        | succ k =>
          rw [List.getElem?_cons_succ, List.getElem?_nil] at found
          cases found
      · rw [List.countP_singleton, stays]
        exact Nat.zero_le _
    · obtain ⟨others, few, short⟩ := ih (u := { u with ttl := u.ttl - 1 }) rest passed
      dsimp only at others few short
      refine ⟨fun k z found => ?_, ?_, ?_⟩
      · cases k with
        | zero => exact first z found
        | succ k =>
          obtain ⟨ttl, spent, borne⟩ := others k z found
          exact ⟨ttl, by omega, borne⟩
      · rw [List.countP_cons]
        split <;> omega
      · rw [List.length_cons]
        omega

theorem journey_of_path {path : Nat → Event} (goesOn : ∀ k, (path (k + 1)).Follows (path k))
    (n k : Nat) : Journey (path k) ((List.range' (k + 1) n).map path) := by
  induction n generalizing k with
  | zero => exact List.isChain_singleton _
  | succ n ih => exact List.isChain_cons_cons.mpr ⟨goesOn k, ih (k + 1)⟩

/-- A frame crosses any nodes unchanged, with one hop less at each, so every journey ends. -/
theorem unicast_survives_journey {x : Event} {frame : Bytes} {now : Time}
    (made : x.before.step x.call = .ok (x.after, x.reply)) (call : x.call = .frame frame now)
    (sent : x.reply = .frame .sent) :
    ∃ dest payload, x.payloads = [payload] ∧
      Wire.decode payload = .ok (.unicast { ttl := x.before.setup.config.ttl, dest, frame }) ∧
      (∀ later, Journey x later →
        (∀ k y, later[k]? = some y → ∃ payload sender iface time ttl,
          y.call = .packet payload sender iface time ∧
          Wire.decode payload = .ok (.unicast { ttl, dest, frame }) ∧
          ttl.toNat + k = x.before.setup.config.ttl.toNat ∧
          (∀ onward ∈ y.payloads, ∃ lower : UInt8, lower.toNat + 1 = ttl.toNat ∧
            Wire.decode onward = .ok (.unicast { ttl := lower, dest, frame })) ∧
          (y.reply = .packet (.data .delivered) →
            y.after.outbox = y.before.outbox ++ [.deliver frame] ∧
              y.before.isMine dest = true)) ∧
        (∀ y ∈ x :: later, ∀ onward ∈ y.payloads,
          ∀ (node : Engine) (sender : Addr) (iface : IfaceId) (time : Time),
            ∃ node' reply, node.step (.packet onward sender iface time) = .ok (node', reply)) ∧
        later.countP (fun y => y.reply = .packet (.data .forwarded)) ≤
          x.before.setup.config.ttl.toNat - 1) ∧
      ¬ ∃ path : Nat → Event, path 0 = x ∧ ∀ k, (path (k + 1)).Follows (path k) := by
  rw [call, sent] at made
  obtain ⟨after, outcome⟩ := Prod.mk.inj (Except.ok.inj made)
  obtain ⟨dest, hop, grown⟩ :=
    Engine.receiveFrame_sent (Prod.ext after (Reply.frame.inj outcome))
  let u : Unicast := { ttl := x.before.setup.config.ttl, dest, frame }
  have payloads : x.payloads = [Wire.unicastBytes u] := by
    rw [Event.payloads, Event.sent_eq grown]
    rfl
  have carries : ∀ payload ∈ x.payloads, Wire.decode payload = .ok (.unicast u) := by
    intro payload mem
    rw [payloads] at mem
    rw [List.mem_singleton.mp mem]
    exact decode_unicast u
  refine ⟨dest, _, payloads, decode_unicast u, fun later journey => ?_, ?_⟩
  · obtain ⟨borne, few, -⟩ := journey.bears carries
    refine ⟨fun k y found => ?_, fun y mem onward passed node => ?_, few⟩
    · obtain ⟨ttl, spent, ⟨payload, sender, iface, time, brought, read⟩, passed, delivered⟩ :=
        borne k y found
      exact ⟨payload, sender, iface, time, ttl, brought, read, spent, passed, delivered⟩
    · rcases List.mem_cons.mp mem with rfl | mem
      · exact node.step_answers (carries onward passed)
      · obtain ⟨k, found⟩ := List.mem_iff_getElem?.mp mem
        obtain ⟨ttl, -, bears⟩ := borne k y found
        obtain ⟨lower, -, read⟩ := bears.passed onward passed
        exact node.step_answers read
  · rintro ⟨path, rfl, goesOn⟩
    have journey := journey_of_path goesOn (u.ttl.toNat + 2) 0
    obtain ⟨-, -, short⟩ := journey.bears carries
    rw [List.length_map, List.length_range'] at short
    omega

/-- A node that has one interface. -/
def Sample.stationAt (addr : Addr) : Setup where
  config := {}
  ifaces := [⟨0, "mesh0", addr⟩]
  valid := Config.isValid_default
  nonempty := nofun
  numbered := by simp

/-- The neighbour finds its route to the node behind it. -/
def findRoute : List Call :=
  [.start 0, .poll 1000,
    .beacon { flags := Beacon.directFlag, orig := Sample.near, seqno := 1 } Sample.far 0 1001,
    .beacon { ttl := 50, quality := 255, seqno := 7, orig := Sample.far } Sample.far 0 1002]

/-- The frame on its way, with the hops that it has left. -/
def Sample.greetingWith (ttl : UInt8) : Bytes :=
  Wire.unicastBytes { ttl, dest := Sample.far, frame := Sample.greeting }

theorem unicast_survives_journey_sample :
    ∃ x y z, x.reply = .frame .sent ∧ Journey x [y, z] ∧ y.forwards = true ∧
      z.reply = .packet (.data .delivered) ∧ ∃ dest, z.before.isMine dest = true ∧
        z.after.outbox = z.before.outbox ++ [.deliver Sample.greeting] := by
  have sends : ∃ e e', (Engine.new Sample.setup default).run Sample.calls = .ok e ∧
      e.step (.frame Sample.greeting 1010) = .ok (e', .frame .sent) ∧
      Event.payloads ⟨e, .frame Sample.greeting 1010, .frame .sent, e'⟩ = [Sample.greetingWith 50] :=
    ⟨_, _, rfl, rfl, rfl⟩
  have forwards : ∃ e c e', (Engine.new (Sample.stationAt Sample.near) default).run findRoute = .ok e ∧
      c = .packet (Sample.greetingWith 50) Sample.setup.primary 0 1011 ∧
      e.step c = .ok (e', .packet (.data .forwarded)) ∧
      Event.payloads ⟨e, c, .packet (.data .forwarded), e'⟩ = [Sample.greetingWith (50 - 1)] :=
    ⟨_, _, _, rfl, rfl, rfl, rfl⟩
  have delivers : ∃ c e', c = .packet (Sample.greetingWith (50 - 1)) Sample.near 0 1012 ∧
      (Engine.new (Sample.stationAt Sample.far) default).step c =
        .ok (e', .packet (.data .delivered)) := ⟨_, _, rfl, rfl⟩
  obtain ⟨e, e', -, sent, first⟩ := sends
  obtain ⟨m, c, m', -, brought, forwarded, second⟩ := forwards
  obtain ⟨d, l, brought', delivered⟩ := delivers
  let x : Event := ⟨e, .frame Sample.greeting 1010, .frame .sent, e'⟩
  let y : Event := ⟨m, c, .packet (.data .forwarded), m'⟩
  let target := Engine.new (Sample.stationAt Sample.far) default
  let z : Event := ⟨target, d, .packet (.data .delivered), l⟩
  have follows : y.Follows x :=
    ⟨forwarded, _, first ▸ List.mem_singleton_self _, _, _, _, brought⟩
  have follows' : z.Follows y :=
    ⟨delivered, _, second ▸ List.mem_singleton_self _, _, _, _, brought'⟩
  have journey : Journey x [y, z] :=
    List.isChain_cons_cons.mpr ⟨follows, List.isChain_pair.mpr follows'⟩
  obtain ⟨dest, -, -, -, along, -⟩ := unicast_survives_journey (x := x) sent rfl rfl
  obtain ⟨-, -, -, -, -, -, -, -, -, arrived⟩ := (along [y, z] journey).1 1 z rfl
  obtain ⟨handed, mine⟩ := arrived rfl
  exact ⟨x, y, z, rfl, journey, rfl, rfl, dest, mine, handed⟩

end BeaconMesh
