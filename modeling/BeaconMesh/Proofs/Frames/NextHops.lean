import BeaconMesh.Proofs.Frames.Journeys
import BeaconMesh.Proofs.Routes.Published

/-!
# Next hops

A node sends data along the routes that it knows, and those outside follow the routes that it has
published. `route?_published` says that the two are the same, link and hop. So what becomes of a
frame or of unicast data can be told from the hosts and from the published routes.
-/

namespace BeaconMesh

theorem FrameHeader.ofFrame_eq_ok {frame : Bytes} (long : length ≤ frame.length) :
    ∃ dest source rest, frame = dest.toBytes ++ source.toBytes ++ rest ∧
      ofFrame frame = .ok { dest, source } := by
  have room : Addr.length ≤ frame.length ∧ Addr.length ≤ (frame.drop Addr.length).length := by
    rw [List.length_drop]
    unfold length at long
    unfold Addr.length
    omega
  obtain ⟨dest, first⟩ := Addr.read?_isSome room.1
  obtain ⟨source, second⟩ := Addr.read?_isSome room.2
  refine ⟨dest, source, (frame.drop Addr.length).drop Addr.length, ?_, ?_⟩
  · rw [List.append_assoc, ← Addr.eq_of_read? second]
    exact Addr.eq_of_read? first
  · unfold ofFrame
    rw [if_neg (Nat.not_lt.mpr long), first]
    dsimp only
    rw [second]

/-- Whether frames for an address go to everyone. -/
def Addr.IsForAll (a : Addr) : Prop := a = .broadcast ∨ a.isMulticast = true

instance (a : Addr) : Decidable a.IsForAll := inferInstanceAs (Decidable (_ ∨ _))

theorem FrameHeader.isFlooded_iff {header : FrameHeader} :
    header.isFlooded = true ↔ header.dest.IsForAll := by
  unfold isFlooded Addr.IsForAll
  rw [Bool.or_eq_true, decide_eq_true_eq]

/-- Whether frames for a host go to a node: its owner, or the host itself if it has none. -/
def HostTable.Resolves (t : HostTable) (host dest : Addr) : Prop :=
  t.owner? host = some (.node dest) ∨ t.owner? host = none ∧ dest = host

namespace HostTable.Resolves

variable {t : HostTable} {host dest d : Addr}

theorem unique (h : t.Resolves host dest) (h' : t.Resolves host d) : d = dest := by
  rcases h with owned | ⟨unknown, rfl⟩
  · rcases h' with owned' | ⟨unknown, -⟩
    · cases owned.symm.trans owned'
      rfl
    · cases owned.symm.trans unknown
  · rcases h' with owned | ⟨-, rfl⟩
    · cases unknown.symm.trans owned
    · rfl

theorem away (h : t.Resolves host dest) : t.owner? host ≠ some .here := by
  intro here
  rcases h with owned | ⟨unknown, -⟩
  · cases here.symm.trans owned
  · cases here.symm.trans unknown

end HostTable.Resolves

namespace Engine

variable {e e' : Engine} {s : Setup} {u : Unicast} {dest host : Addr} {outcome : FrameOutcome}
  {frame : Bytes} {header : FrameHeader} {payload : Bytes} {sender : Addr} {iface : IfaceId}
  {now : Time}

/-- The route that data takes is the published one: its hop has a link. -/
theorem Mirrored.route? (mirrored : e.Mirrored) (sound : Sound s e) (d : Addr) :
    (e.route? d).map Link.hop = e.published.lookup d := by
  rw [mirrored.agrees, Origins.hop?_eq, Engine.route?]
  cases known : e.origins.get? d with
  | none => rfl
  | some o =>
    show o.routeLink?.map Link.hop = o.route
    unfold Originator.routeLink?
    cases used : o.route with
    | none => rfl
    | some hop =>
      obtain ⟨l, linked, -⟩ := (sound.each known).route_link used
      show (o.link? hop).map Link.hop = some hop
      rw [linked, Option.map_some, Originator.hop_of_link? linked]

theorem sendAlong_none (none : (e.route? u.dest).map Link.hop = none) (outcome : FrameOutcome) :
    e.sendAlong u outcome = (e, .dropped .noRoute) := by
  unfold sendAlong
  rw [Option.map_eq_none_iff.mp none]

theorem sendAlong_some {hop : Hop} (some : (e.route? u.dest).map Link.hop = some hop)
    (outcome : FrameOutcome) : e.sendAlong u outcome =
      (e.emit [.transmit hop.iface hop.addr (Wire.unicastBytes u)], outcome) := by
  obtain ⟨l, routed, rfl⟩ := Option.map_eq_some_iff.mp some
  unfold sendAlong
  rw [routed]

/-! ### Frames from the bridge -/

theorem destination?_eq_none :
    e.destination? host = none ↔ e.hosts.owner? host = some .here := by
  unfold destination?
  cases e.hosts.owner? host with
  | none => simp
  | some owner => cases owner <;> simp

theorem destination?_eq_some :
    e.destination? host = some dest ↔ e.hosts.Resolves host dest := by
  unfold destination? HostTable.Resolves
  cases e.hosts.owner? host with
  | none => simp [eq_comm]
  | some owner => cases owner <;> simp

/-- What becomes of a frame from the bridge, told from the hosts that are known once its source is,
and from the published routes. -/
structure Directs (e : Engine) (frame : Bytes) (dest : Addr) (hosts : HostTable)
    (outcome : FrameOutcome) (e' : Engine) : Prop where
  flooded : dest.IsForAll → outcome = .flooded ∧ ∃ payload,
    Wire.decode payload =
      .ok (.flood { orig := e.setup.primary, seqno := e.floodSeqno + 1, frame }) ∧
    e' = { e with
      hosts
      floodSeqno := e.floodSeqno + 1
      outbox := e.outbox ++ e.setup.ifaces.map fun i => .transmit i.id .broadcast payload }
  bridgedHere : ¬ dest.IsForAll →
    (outcome = .dropped .bridgedHere ↔ hosts.owner? dest = some .here)
  noRoute : ¬ dest.IsForAll → ∀ d, hosts.Resolves dest d →
    (outcome = .dropped .noRoute ↔ e.published.lookup d = none)
  sent : ¬ dest.IsForAll → ∀ d hop, hosts.Resolves dest d → e.published.lookup d = some hop →
    outcome = .sent ∧ ∃ payload,
      Wire.decode payload = .ok (.unicast { ttl := e.setup.config.ttl, dest := d, frame }) ∧
      e' = { e with hosts, outbox := e.outbox ++ [.transmit hop.iface hop.addr payload] }
  dropped : ∀ reason, outcome = .dropped reason → e' = { e with hosts }

theorem Directs.here {hosts : HostTable} (single : ¬ dest.IsForAll)
    (here : hosts.owner? dest = some .here) :
    e.Directs frame dest hosts (.dropped .bridgedHere) { e with hosts } where
  flooded all := absurd all single
  bridgedHere _ := iff_of_true rfl here
  noRoute _ _ goes := absurd here goes.away
  sent _ _ _ goes := absurd here goes.away
  dropped _ _ := rfl

theorem Directs.lost {hosts : HostTable} {d : Addr} (single : ¬ dest.IsForAll)
    (goes : hosts.Resolves dest d) (none : e.published.lookup d = none) :
    e.Directs frame dest hosts (.dropped .noRoute) { e with hosts } where
  flooded all := absurd all single
  bridgedHere _ := iff_of_false nofun goes.away
  noRoute _ _ goes' := iff_of_true rfl (goes.unique goes' ▸ none)
  sent _ _ _ goes' some := by
    rw [goes.unique goes', none] at some
    cases some
  dropped _ _ := rfl

theorem Directs.along {hosts : HostTable} {d : Addr} {hop : Hop} (single : ¬ dest.IsForAll)
    (goes : hosts.Resolves dest d) (some : e.published.lookup d = some hop)
    (read : Wire.decode payload = .ok (.unicast { ttl := e.setup.config.ttl, dest := d, frame })) :
    e.Directs frame dest hosts .sent
      { e with hosts, outbox := e.outbox ++ [.transmit hop.iface hop.addr payload] } where
  flooded all := absurd all single
  bridgedHere _ := iff_of_false nofun goes.away
  noRoute _ _ goes' := by
    rw [goes.unique goes', some]
    exact iff_of_false nofun nofun
  sent _ _ _ goes' some' := by
    obtain rfl := goes.unique goes'
    cases some.symm.trans some'
    exact ⟨rfl, payload, read, rfl⟩
  dropped := nofun

theorem receiveFrame_directs (routes : ∀ d, (e.route? d).map Link.hop = e.published.lookup d)
    (read : FrameHeader.ofFrame frame = .ok header) :
    e.Directs frame header.dest (e.hosts.learn header.source now) (e.receiveFrame frame now).2
      (e.receiveFrame frame now).1 := by
  unfold receiveFrame
  rw [read]
  dsimp only
  split
  · rename_i all
    have all := FrameHeader.isFlooded_iff.mp all
    refine ⟨fun _ => ⟨rfl, _, Wire.decode_of_encode rfl, rfl⟩, ?_, ?_, ?_, nofun⟩ <;>
      exact fun single => absurd all single
  rename_i single
  rw [FrameHeader.isFlooded_iff] at single
  split
  · rename_i here
    exact .here single (destination?_eq_none.mp here)
  · rename_i d goes
    have goes := destination?_eq_some.mp goes
    cases hop : e.published.lookup d with
    | none =>
      rw [sendAlong_none ((routes d).trans hop)]
      exact .lost single goes hop
    | some =>
      rw [sendAlong_some ((routes d).trans hop)]
      exact .along single goes hop (decode_unicast _)

/-! ### Unicast data -/

theorem receiveUnicast_forwarded (h : e.receiveUnicast u = (e', .forwarded)) :
    ∃ l, e.route? u.dest = some l ∧ e' = e.emit
      [.transmit l.hop.iface l.hop.addr (Wire.unicastBytes { u with ttl := u.ttl - 1 })] := by
  unfold receiveUnicast at h
  split at h
  · cases h
  split at h
  · cases h
  unfold sendAlong at h
  split at h
  · rename_i l routed
    cases h
    exact ⟨l, routed, rfl⟩
  · cases h

theorem receiveUnicast_noRoute (h : e.receiveUnicast u = (e', .dropped .noRoute)) :
    e.route? u.dest = none ∧ e' = e := by
  unfold receiveUnicast at h
  split at h
  · cases h
  split at h
  · cases h
  unfold sendAlong at h
  split at h
  · cases h
  · rename_i unrouted
    cases h
    exact ⟨unrouted, rfl⟩

theorem receiveData_data {receive : Engine → Engine × FrameOutcome}
    (h : e.receiveData sender receive = (e', .data outcome)) : receive e = (e', outcome) := by
  unfold receiveData at h
  split at h
  · cases h
  · cases h
    rfl

theorem step_carries
    (made : e.step (.packet payload sender iface now) = .ok (e', .packet (.data outcome))) :
    (∃ u, Wire.decode payload = .ok (.unicast u) ∧ e.receiveUnicast u = (e', outcome)) ∨
      ∃ f, Wire.decode payload = .ok (.flood f) ∧ e.receiveFlood f = (e', outcome) := by
  obtain ⟨⟨received, answer⟩, work, made⟩ := Fault.bind_ok made
  cases Fault.pure_ok made
  unfold receive at work
  split at work
  · cases work
  split at work
  · cases work
  · have taken : e.Takes _ ⟨sender, iface⟩ now (.data outcome) e' := receiveBeacon_takes work
    cases taken
  · rename_i u read
    exact .inl ⟨u, read, receiveData_data (Except.ok.inj work)⟩
  · rename_i f read
    exact .inr ⟨f, read, receiveData_data (Except.ok.inj work)⟩

theorem receiveFlood_unrouted {f : Flood} (h : e.receiveFlood f = (e', outcome)) :
    outcome ≠ .forwarded ∧ outcome ≠ .dropped .noRoute := by
  unfold receiveFlood at h
  split at h
  · cases h
    exact ⟨nofun, nofun⟩
  split at h
  · cases h
    exact ⟨nofun, nofun⟩
  dsimp only at h
  split at h
  · cases h
    exact ⟨nofun, nofun⟩
  · cases h
    exact ⟨nofun, nofun⟩

/-- Data leaves through the hop that the route changes, followed one by one, give its destination,
and is dropped for want of a route only if they give none. -/
theorem data_takes_published_routes {jitter : Jitter} {cs : List Call}
    (h : (Engine.new s jitter).run cs = .ok e) :
    (∀ (frame : Bytes) (now : Time), FrameHeader.length ≤ frame.length →
      ∃ dest source rest, frame = dest.toBytes ++ source.toBytes ++ rest ∧
        ∃ e' outcome, e.step (.frame frame now) = .ok (e', .frame outcome) ∧
          e.Directs frame dest (e.hosts.learn source now) outcome e') ∧
    ∀ (payload : Bytes) (sender : Addr) (iface : IfaceId) (now : Time) (e' : Engine),
      (e.step (.packet payload sender iface now) = .ok (e', .packet (.data .forwarded)) →
        ∃ u hop onward, Wire.decode payload = .ok (.unicast u) ∧
          e.published.lookup u.dest = some hop ∧
          Wire.decode onward = .ok (.unicast { u with ttl := u.ttl - 1 }) ∧
          e' = { e with outbox := e.outbox ++ [.transmit hop.iface hop.addr onward] }) ∧
      (e.step (.packet payload sender iface now) =
          .ok (e', .packet (.data (.dropped .noRoute))) →
        ∃ u, Wire.decode payload = .ok (.unicast u) ∧ e.published.lookup u.dest = none ∧
          e' = e) := by
  obtain ⟨sound, mirrored⟩ := run_mirrored h
  have routes := mirrored.route? sound
  refine ⟨fun frame now long => ?_, fun payload sender iface now e' => ⟨?_, ?_⟩⟩
  · obtain ⟨dest, source, rest, bytes, read⟩ := FrameHeader.ofFrame_eq_ok long
    exact ⟨dest, source, rest, bytes, _, _, rfl, receiveFrame_directs routes read⟩
  · intro made
    rcases step_carries made with ⟨u, read, work⟩ | ⟨f, -, work⟩
    · obtain ⟨l, routed, rfl⟩ := receiveUnicast_forwarded work
      have published := routes u.dest
      rw [routed] at published
      exact ⟨u, l.hop, _, read, published.symm, decode_unicast _, rfl⟩
    · exact absurd rfl (receiveFlood_unrouted work).1
  · intro made
    rcases step_carries made with ⟨u, read, work⟩ | ⟨f, -, work⟩
    · obtain ⟨unrouted, rfl⟩ := receiveUnicast_noRoute work
      have published := routes u.dest
      rw [unrouted] at published
      exact ⟨u, read, published.symm, rfl⟩
    · exact absurd rfl (receiveFlood_unrouted work).2

theorem data_takes_published_routes_sample :
    ∃ e, (Engine.new Sample.setup default).run Sample.calls = .ok e ∧
      e.published.lookup Sample.far = some ⟨Sample.near, 0⟩ ∧
      (∃ e' payload, e.step (.frame Sample.greeting 1010) = .ok (e', .frame .sent) ∧
        Wire.decode payload =
          .ok (.unicast { ttl := 50, dest := Sample.far, frame := Sample.greeting }) ∧
        e'.outbox = e.outbox ++ [.transmit 0 Sample.near payload]) ∧
      ∃ e' hop onward, e.step (.packet (Sample.greetingWith 9) Sample.near 0 1010) =
          .ok (e', .packet (.data .forwarded)) ∧
        e.published.lookup Sample.far = some hop ∧
        e'.outbox = e.outbox ++ [.transmit hop.iface hop.addr onward] := by
  have reached : ∃ e, (Engine.new Sample.setup default).run Sample.calls = .ok e ∧
      e.setup.config.ttl = 50 ∧
      e.published.lookup Sample.far = some ⟨Sample.near, 0⟩ ∧
      (e.hosts.learn ⟨6, 0, 0, 0, 0, 1⟩ 1010).owner? Sample.host = some (.node Sample.far) ∧
      ∃ e', e.step (.packet (Sample.greetingWith 9) Sample.near 0 1010) =
        .ok (e', .packet (.data .forwarded)) := ⟨_, rfl, rfl, rfl, rfl, _, rfl⟩
  obtain ⟨e, run, ttl, route, owner, e', forwarded⟩ := reached
  obtain ⟨frames, packets⟩ := data_takes_published_routes run
  refine ⟨e, run, route, ?_, ?_⟩
  · obtain ⟨dest, source, rest, bytes, e', outcome, made, directs⟩ :=
      frames Sample.greeting 1010 (by decide)
    obtain ⟨_, _, _, _, _, _⟩ := dest
    obtain ⟨_, _, _, _, _, _⟩ := source
    cases bytes
    obtain ⟨rfl, payload, read, rfl⟩ := directs.sent (by decide) _ _ (.inl owner) route
    rw [ttl] at read
    exact ⟨_, payload, made, read, rfl⟩
  · obtain ⟨u, hop, onward, read, published, -, rfl⟩ := (packets _ _ _ _ _).1 forwarded
    cases (decode_unicast _).symm.trans read
    exact ⟨_, hop, onward, forwarded, published, rfl⟩

end Engine

end BeaconMesh
