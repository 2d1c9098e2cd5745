import BeaconMesh.Proofs.Faults.Bounds
import BeaconMesh.Proofs.Routes.Selection
import BeaconMesh.Proofs.Sending.Origins
import BeaconMesh.Proofs.Windows.Receptions

/-!
# Nothing is sent to ourselves

What a node knows comes from packets that anyone may have sent, and what it sends along a route is
not checked again. `never_through_itself` says that this is not needed: every node that becomes known
is another one, every link leads to another one over an interface of ours, and so does every route.
-/

namespace BeaconMesh

variable {s : Setup}

theorem Setup.iface_of_lt {iface : IfaceId} (inRange : iface < s.ifaces.length) :
    ∃ here ∈ s.ifaces, here.id = iface :=
  ⟨s.ifaces[iface], List.getElem_mem inRange, s.numbered iface inRange⟩

/-- Whether a hop leads to another node over an interface of ours. -/
def Setup.Reaches (s : Setup) (hop : Hop) : Prop :=
  s.IsPeer hop.addr ∧ ∃ here ∈ s.ifaces, here.id = hop.iface

theorem Setup.Admits.reaches {b : Beacon} {hop : Hop} (h : s.Admits b hop) : s.Reaches hop :=
  ⟨h.sender, Setup.iface_of_lt h.iface⟩

/-! ### Links -/

namespace Originator

variable {o : Originator}

theorem hop_of_hear {b : Beacon} {hop : Hop} {now : Time} {l : Link}
    (mem : l ∈ (o.hear b.seqno b.ttl hop now).links) :
    l.hop = hop ∨ ∃ k ∈ o.links, l.hop = k.hop := by
  classical
  let r : Reception := ⟨b, hop, now, decide (∃ p, o.arrival b.seqno = .late p)⟩
  have hears : Hears o r (o.hear b.seqno b.ttl hop now) := hear_hears decide_eq_true_iff
  obtain ⟨k, listed, same, -⟩ := hears.links l mem
  rcases mem_ensureLink listed with old | ⟨-, rfl⟩
  · exact .inr ⟨k, old, same⟩
  · exact .inl same

theorem reaching_invariant (s : Setup) :
    Engine.EntryInvariant s fun _ o => ∀ l ∈ o.links, s.Reaches l.hop where
  new _ _ := nofun
  hear {a o b hop} now admitted reaching l mem := by
    rcases hop_of_hear mem with same | ⟨k, old, same⟩
    · rw [same]
      exact admitted.reaches
    · rw [same]
      exact reaching k old
  update move reaching l mem := by
    obtain ⟨k, old, same, -⟩ := move.keepsWindows.links l mem
    rw [same]
    exact reaching k old
  decay move reaching l mem := by
    obtain ⟨k, old, same, -⟩ := move.keepsWindows.links l mem
    rw [same]
    exact reaching k old

end Originator

namespace Engine

variable {e e' : Engine}

/-! ### Nodes -/

theorem Update.newcomer (h : Update e e') {a : Addr} (known : (e'.origins.get? a).isSome = true) :
    (e.origins.get? a).isSome = true ∨ e.setup.isMine a = false := by
  have inserted : ∀ {b : Addr} {o : Originator}, e.setup.isMine b = false →
      ((e.origins.insert b o).get? a).isSome = true →
        (e.origins.get? a).isSome = true ∨ e.setup.isMine a = false := by
    intro b o foreign known
    rw [Origins.get?_insert] at known
    split at known
    · rename_i same
      exact .inr (same ▸ foreign)
    · exact .inl known
  have replaced : ∀ {b : Addr} {o o' : Originator}, e.origins.get? b = some o →
      ((e.origins.insert b o').get? a).isSome = true → (e.origins.get? a).isSome = true := by
    intro b o o' old known
    rw [Origins.get?_insert] at known
    split at known
    · rename_i same
      rw [← same, old]
      rfl
    · exact known
  cases h with
  | quiet same => exact .inl (same.origins ▸ known)
  | echo now peer => exact inserted peer.1 known
  | assess peer judged =>
    obtain ⟨_, _, judged⟩ := Fault.bind_ok judged
    cases Fault.pure_ok judged
    exact inserted peer.1 known
  | rank =>
    unfold Engine.rank at known
    split at known
    · rename_i o old
      exact .inl (replaced old known)
    · exact .inl known
  | @heed b now =>
    have announced := HostTable.applyRemote_sameButHosts e.hosts e.origins b.orig b.hosts now
    unfold Engine.heed at known
    dsimp only at known
    rw [Origins.get?_modify] at known
    split at known
    · rw [Option.isSome_map, announced.known] at known
      exact .inl known
    · rw [announced.known] at known
      exact .inl known
  | learn => exact .inl known
  | depart b iface =>
    change ((e.origins.map fun o => o.ageEchoes iface).get? a).isSome = true at known
    rw [Origins.get?_map, Option.isSome_map] at known
    exact .inl known
  | flood old => exact .inl (replaced old known)

/-- Whether every known node is another one. -/
def KnowsOthers (s : Setup) (e : Engine) : Prop :=
  e.setup = s ∧ ∀ a, (e.origins.get? a).isSome = true → s.isMine a = false

theorem knowsOthers_invariant (s : Setup) : Invariant (KnowsOthers s) where
  hear {e b hop} now admitted others := by
    refine ⟨others.1, fun a known => ?_⟩
    change ((e.origins.upsert b.orig now fun o => o.hear b.seqno b.ttl hop now).get? a).isSome = true
      at known
    rw [Origins.get?_upsert] at known
    split at known
    · rename_i same
      rw [← same, ← others.1]
      exact admitted.orig
    · exact others.2 a known
  update {e e'} move others := by
    refine ⟨move.setup.trans others.1, fun a known => ?_⟩
    rcases move.newcomer known with old | foreign
    · exact others.2 a old
    · rwa [others.1] at foreign
  decay {e e'} move others := by
    refine ⟨move.setup.trans others.1, fun a known => ?_⟩
    obtain ⟨o', found⟩ := Option.isSome_iff_exists.mp known
    obtain ⟨o, old, -⟩ := move.entry found
    exact others.2 a (Option.isSome_iff_exists.mpr ⟨o, old⟩)

theorem History.admitted {jitter : Jitter} {past : List Event}
    (h : History (.new s jitter) past e) : ∀ r ∈ receptions past, s.Admits r.beacon r.hop := by
  induction h with
  | nil => nofun
  | @call past e e' c r before made ih =>
    intro x mem
    rw [receptions_cons] at mem
    rcases List.mem_append.mp mem with new | old
    · rw [← before.setup]
      exact (step_stages made).admitted x (Option.mem_toList.mp new)
    · exact ih x old

end Engine

/-! ### What is sent -/

/-- Whether an action uses an interface of ours, and sends unicast data to another node. -/
def Action.Addressed (s : Setup) : Action → Prop
  | .transmit iface dest payload => (∃ here ∈ s.ifaces, here.id = iface) ∧
      ∀ u, Wire.decode payload = .ok (.unicast u) → s.IsPeer dest
  | .deliver _ => True

theorem Action.addressed_of_encode {iface : IfaceId} {dest : Addr} {payload : Bytes} {p : Packet}
    (known : ∃ here ∈ s.ifaces, here.id = iface) (written : Wire.encode p = .ok payload)
    (other : ∀ u, p ≠ .unicast u) : (Action.transmit iface dest payload).Addressed s := by
  refine ⟨known, fun u read => ?_⟩
  rw [Wire.decode_of_encode written] at read
  exact absurd (Except.ok.inj read) (other u)

theorem Task.iface_of_target {t : Task} {ifaces : List Iface} {target : IfaceId × UInt8}
    (mem : target ∈ t.targets ifaces) :
    t.out = some target.1 ∨ ∃ here ∈ ifaces, here.id = target.1 := by
  unfold Task.targets at mem
  split at mem
  · obtain ⟨iface, out, rfl⟩ := List.mem_map.mp mem
    exact .inl (Option.mem_toList.mp out)
  split at mem
  · obtain ⟨iface, out, rfl⟩ := List.mem_map.mp mem
    exact .inl (Option.mem_toList.mp out)
  split at mem
  · cases mem
  · obtain ⟨here, listed, rfl⟩ := List.mem_map.mp mem
    exact .inr ⟨here, listed, rfl⟩

theorem Sending.Stems.addressed {past : List Reception} {y : Sending} (h : y.Stems s past)
    (admitted : ∀ r ∈ past, s.Admits r.beacon r.hop) : ∀ action ∈ y.sent, action.Addressed s := by
  intro action mem
  obtain ⟨hosts, -, sent⟩ := h.sent
  rw [sent] at mem
  obtain ⟨target, listed, few, rfl⟩ := Beacon.mem_transmissions.mp mem
  have written : Wire.encode (.beacon { y.task.beacon with hosts, flags := target.2 }) = .ok _ :=
    Wire.encodeBeacon_eq_ok.mpr ⟨few, rfl⟩
  refine Action.addressed_of_encode ?_ written nofun
  rcases Task.iface_of_target listed with here | known
  · cases h.task with
    | @own _ iface _ known out =>
      obtain ⟨inRange, -⟩ := List.getElem?_eq_some_iff.mp known
      rw [Option.some.inj (here.symm.trans out)]
      exact Setup.iface_of_lt inRange
    | @relay r _ _ heard _ _ _ out =>
      rw [Option.some.inj (here.symm.trans out)]
      exact (admitted r heard).reaches.2
  · exact known

namespace Engine

variable {e e' : Engine}

theorem traffic_addressed
    (h : EntryInvariant.Holds s (fun _ o => ∀ l ∈ o.links, s.Reaches l.hop) e) :
    e.Traffic (Action.Addressed s) where
  deliver _ := trivial
  along {u l} route := by
    obtain ⟨o, known, used⟩ := Option.bind_eq_some_iff.mp route
    obtain ⟨peer, iface⟩ := h.each known l (Originator.routeLink?_mem used).1
    exact ⟨iface, fun _ _ => peer⟩
  flood here listed f :=
    Action.addressed_of_encode (p := .flood f) ⟨here, h.setup ▸ listed, rfl⟩ rfl nofun

theorem History.addressed {jitter : Jitter} {past : List Event}
    (h : History (.new s jitter) past e) : ∀ action ∈ e.outbox, action.Addressed s := by
  induction h with
  | nil => nofun
  | @call past e e' c r before made ih =>
    have reaching := (Originator.reaching_invariant s).run (run_of_history before)
    obtain ⟨grown, sent⟩ := (traffic_addressed reaching).sent (x := ⟨e, c, r, e'⟩) made
    have grown : e'.outbox = e.outbox ++ Event.sent ⟨e, c, r, e'⟩ := grown
    rw [grown]
    refine List.forall_mem_append.mpr ⟨ih, ?_⟩
    rcases sent with sent | ⟨-, holds⟩
    · rw [sent]
      refine List.forall_mem_flatMap.mpr fun y mem => ?_
      have stem := before.sendings_stem (x := ⟨e, c, r, e'⟩) made y mem
      exact stem.addressed before.admitted
    · exact holds

/-- Nothing that a node knows or sends leads to the node itself or over a foreign interface. -/
theorem never_through_itself {s : Setup} {jitter : Jitter} {cs : List Call} {e : Engine}
    (h : (Engine.new s jitter).run cs = .ok e) :
    (∀ a o, e.origins.get? a = some o → s.isMine a = false ∧
      (∀ l ∈ o.links, s.isMine l.hop.addr = false ∧ l.hop.addr ≠ .broadcast ∧
        ∃ here ∈ s.ifaces, here.id = l.hop.iface) ∧
      o.echoes.length = s.ifaces.length) ∧
    ∀ iface dest payload, .transmit iface dest payload ∈ e.outbox →
      (∃ here ∈ s.ifaces, here.id = iface) ∧
      ∀ u, Wire.decode payload = .ok (.unicast u) →
        s.isMine dest = false ∧ dest ≠ .broadcast := by
  have others : KnowsOthers s e := (knowsOthers_invariant s).run h ⟨rfl, nofun⟩
  have reaching := (Originator.reaching_invariant s).run h
  have sized := (Originator.sized_invariant s).run h
  obtain ⟨past, history, -⟩ := run_iff_history.mp h
  refine ⟨fun a o known => ⟨?_, fun l mem => ?_, (sized.each known).echoes⟩,
    fun iface dest payload mem => history.addressed _ mem⟩
  · exact others.2 a (Option.isSome_iff_exists.mpr ⟨o, known⟩)
  · obtain ⟨⟨foreign, single⟩, here⟩ := reaching.each known l mem
    exact ⟨foreign, single, here⟩

theorem never_through_itself_sample :
    ∃ e payload u, (Engine.new Sample.setup default).run
        (Sample.calls ++ [.frame Sample.greeting 1010]) = .ok e ∧
      .transmit 0 Sample.near payload ∈ e.outbox ∧ Wire.decode payload = .ok (.unicast u) ∧
      (∃ here ∈ Sample.setup.ifaces, here.id = 0) ∧ Sample.setup.isMine Sample.near = false ∧
      ∃ o, e.origins.get? Sample.far = some o ∧ o.echoes.length = 2 ∧
        ∀ l ∈ o.links, Sample.setup.isMine l.hop.addr = false := by
  have reached : ∃ e o, (Engine.new Sample.setup default).run
      (Sample.calls ++ [.frame Sample.greeting 1010]) = .ok e ∧
      e.origins.get? Sample.far = some o ∧ e.outbox.getLast? =
        some (.transmit 0 Sample.near (Wire.unicastBytes
          { ttl := 50, dest := Sample.far, frame := Sample.greeting })) := ⟨_, _, rfl, rfl, rfl⟩
  obtain ⟨e, o, run, known, last⟩ := reached
  have mem := List.mem_of_getLast? last
  have read := Wire.decode_of_encode
    (p := .unicast { ttl := 50, dest := Sample.far, frame := Sample.greeting }) rfl
  obtain ⟨nodes, sent⟩ := never_through_itself run
  obtain ⟨iface, peer⟩ := sent _ _ _ mem
  obtain ⟨-, links, echoes⟩ := nodes Sample.far o known
  exact ⟨e, _, _, run, mem, read, iface, (peer _ read).1, o, known, echoes,
    fun l listed => (links l listed).1⟩

end Engine

end BeaconMesh
