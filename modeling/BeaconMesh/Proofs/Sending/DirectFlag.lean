import BeaconMesh.Proofs.Sending.Origins

/-!
# The flag of direct echoes tells the truth

A neighbour counts a beacon with the direct flag as proof that the link works both ways. Every task
stems from a reception, or is our own (`History.stems`), and only the interface of a task gets its
flag. So the flag is seen on a link only after the originator was heard on that link.
-/

namespace BeaconMesh

namespace Task

variable {t : Task} {ifaces : List Iface} {iface : IfaceId} {flags : UInt8}

/-- The flags of a target, and what they say of the task. -/
inductive Flags (t : Task) (ifaces : List Iface) (iface : IfaceId) : UInt8 → Prop where
  | none : Flags t ifaces iface 0
  | direct (echo : t.direct = true) (here : t.out = some iface) :
      Flags t ifaces iface Beacon.directFlag
  | oneWay (echo : t.oneWay = true) (here : t.out = some iface)
      (only : t.targets ifaces = [(iface, Beacon.oneWayFlag ||| Beacon.directFlag)]) :
      Flags t ifaces iface (Beacon.oneWayFlag ||| Beacon.directFlag)

theorem flags_of_target (mem : (iface, flags) ∈ t.targets ifaces) : t.Flags ifaces iface flags := by
  by_cases echo : t.oneWay = true
  · have targets : t.targets ifaces =
        t.out.toList.map fun i => (i, Beacon.oneWayFlag ||| Beacon.directFlag) := if_pos echo
    rw [targets] at mem
    obtain ⟨i, out, same⟩ := List.mem_map.mp mem
    cases same
    have here : t.out = some iface := Option.mem_toList.mp out
    rw [here] at targets
    exact .oneWay echo here targets
  rw [Task.targets, if_neg echo] at mem
  split at mem
  · rename_i last
    obtain ⟨i, out, same⟩ := List.mem_map.mp mem
    cases same
    exact .direct (Bool.and_eq_true_iff.mp last).1 (Option.mem_toList.mp out)
  split at mem
  · cases mem
  · obtain ⟨here, -, same⟩ := List.mem_map.mp mem
    cases same
    unfold flagsOn
    split
    · rename_i both
      obtain ⟨echo, out⟩ := Bool.and_eq_true_iff.mp both
      exact .direct echo (of_decide_eq_true out)
    · exact .none

namespace Flags

variable {b : Beacon}

theorem echo (h : t.Flags ifaces iface b.flags) (flag : b.isDirect = true) :
    (t.direct = true ∨ t.oneWay = true) ∧ t.out = some iface := by
  unfold Beacon.isDirect at flag
  generalize b.flags = flags at h flag
  cases h with
  | none => exact absurd flag (by decide)
  | direct echo here => exact ⟨.inl echo, here⟩
  | oneWay echo here => exact ⟨.inr echo, here⟩

theorem only (h : t.Flags ifaces iface b.flags) (flag : b.isOneWay = true) :
    b.isDirect = true ∧ t.targets ifaces = [(iface, b.flags)] := by
  unfold Beacon.isOneWay at flag
  unfold Beacon.isDirect
  generalize b.flags = flags at h flag ⊢
  cases h with
  | none => exact absurd flag (by decide)
  | direct => exact absurd flag (by decide)
  | oneWay _ _ only => exact ⟨by decide, only⟩

end Flags

end Task

/-! ### What is sent -/

namespace Sending.Stems

variable {s : Setup} {past : List Reception} {y : Sending} {action : Action} {iface : IfaceId}
  {b : Beacon}

theorem reads (h : y.Stems s past) (mem : action ∈ y.sent)
    (read : action.beacon? = some (iface, b)) : y.task.Flags s.ifaces iface b.flags := by
  obtain ⟨hosts, -, sent⟩ := h.sent
  rw [sent] at mem
  obtain ⟨i, flags, target, carried⟩ := Beacon.beacon?_of_transmission mem
  rw [read] at carried
  cases carried
  exact Task.flags_of_target target

theorem beacon_eq (h : y.Stems s past) (mem : action ∈ y.sent)
    (read : action.beacon? = some (iface, b)) :
    b = { y.task.beacon with hosts := b.hosts, flags := b.flags } := by
  obtain ⟨hosts, -, sent⟩ := h.sent
  rw [sent] at mem
  obtain ⟨i, flags, target, carried⟩ := Beacon.beacon?_of_transmission mem
  rw [read] at carried
  cases carried
  rfl

theorem direct (h : y.Stems s past) (mem : action ∈ y.sent)
    (read : action.beacon? = some (iface, b)) (flag : b.isDirect = true) :
    b.prev = b.orig ∧ ∃ r ∈ past, r.hop = ⟨b.orig, iface⟩ ∧ r.beacon.orig = b.orig ∧
      r.beacon.seqno = b.seqno := by
  obtain ⟨echo, here⟩ := (h.reads mem read).echo flag
  rw [h.beacon_eq mem read]
  cases h.task with
  | own _ _ _ plain => simp [plain] at echo
  | @relay r _ _ heard orig seqno prev out straight both =>
    have sender := straight (echo.elim id both)
    have came : r.hop = ⟨y.task.beacon.orig, iface⟩ := by
      rw [orig, sender, Option.some.inj (here.symm.trans out)]
    refine ⟨?_, r, heard, came, orig.symm, seqno.symm⟩
    show y.task.beacon.prev = y.task.beacon.orig
    rw [prev, orig, sender]

theorem oneWay (h : y.Stems s past) (mem : action ∈ y.sent)
    (read : action.beacon? = some (iface, b)) (flag : b.isOneWay = true) :
    b.isDirect = true ∧ y.sent = [action] := by
  obtain ⟨both, only⟩ := (h.reads mem read).only flag
  refine ⟨both, ?_⟩
  obtain ⟨hosts, -, sent⟩ := h.sent
  rw [sent, only] at mem ⊢
  obtain ⟨target, -, few, rfl⟩ := Beacon.mem_transmissions.mp mem
  rw [Beacon.transmissions_eq few, List.map_singleton] at mem ⊢
  rw [List.mem_singleton.mp mem]

theorem mine (h : y.Stems s past) (mem : action ∈ y.sent)
    (read : action.beacon? = some (iface, b)) (mine : s.isMine b.orig = true) :
    b.flags = 0 ∧
      y.sent = s.ifaces.map fun here => .transmit here.id .broadcast (Wire.beaconBytes b) := by
  obtain ⟨hosts, few, sent⟩ := h.sent
  rw [sent] at mem
  obtain ⟨i, flags, target, carried⟩ := Beacon.beacon?_of_transmission mem
  rw [read] at carried
  cases carried
  cases h.task with
  | own own _ _ plain =>
    rw [Task.targets_plain plain] at target sent
    obtain ⟨_, -, same⟩ := List.mem_map.mp target
    cases same
    rw [sent, Beacon.transmissions_eq (few own), List.map_map]
    exact ⟨rfl, rfl⟩
  | relay _ foreign => cases foreign.symm.trans mine

end Sending.Stems

/-! ### The whole -/

namespace Engine

/-- A beacon has the direct flag only on an interface where its originator itself sent it to us. -/
theorem direct_flag_truthful {s : Setup} {jitter : Jitter} {cs : List Call} {e : Engine}
    (h : (Engine.new s jitter).run cs = .ok e) :
    ∃ past, History (.new s jitter) past e ∧ past.reverse.map Event.call = cs ∧
      ∀ later x earlier, past = later ++ x :: earlier →
        x.after.outbox = x.before.outbox ++ x.sent ∧
        ∀ action ∈ x.sent, ∀ iface b, action.beacon? = some (iface, b) →
          (b.isDirect = true → b.prev = b.orig ∧ ∃ r ∈ receptions earlier,
            r.hop = ⟨b.orig, iface⟩ ∧ r.beacon.orig = b.orig ∧ r.beacon.seqno = b.seqno) ∧
          (b.isOneWay = true → b.isDirect = true) ∧
          (s.isMine b.orig = true → b.flags = 0) ∧
          (∃ y ∈ x.sendings, action ∈ y.sent) ∧
          ∀ y ∈ x.sendings, action ∈ y.sent →
            (b.isOneWay = true → y.sent = [action]) ∧
            (s.isMine b.orig = true → y.sent =
              s.ifaces.map fun here => .transmit here.id .broadcast (Wire.beaconBytes b)) := by
  obtain ⟨past, history, calls⟩ := run_iff_history.mp h
  refine ⟨past, history, calls, ?_⟩
  intro later x earlier split
  subst split
  obtain ⟨before, made⟩ := history.cut
  obtain ⟨grown, sent⟩ := step_sent made
  refine ⟨grown, fun action mem iface b read => ?_⟩
  have stems := before.sendings_stem made
  have carried : ∃ y ∈ x.sendings, action ∈ y.sent := by
    rcases sent with sent | ⟨-, none⟩
    · rw [sent] at mem
      exact List.mem_flatMap.mp mem
    · rw [none action mem] at read
      cases read
  obtain ⟨y, performed, here⟩ := carried
  have stem := stems y performed
  refine ⟨stem.direct here read, fun flag => (stem.oneWay here read flag).1,
    fun mine => (stem.mine here read mine).1, ⟨y, performed, here⟩, fun z listed there => ?_⟩
  have other := stems z listed
  exact ⟨fun flag => (other.oneWay there read flag).2, fun mine => (other.mine there read mine).2⟩

/-- The echo of the beacon that the neighbour sent. -/
def sampleEcho : Beacon :=
  { flags := Beacon.directFlag, ttl := 49, quality := 11, seqno := 7, orig := Sample.near,
    prev := Sample.near }

theorem direct_flag_truthful_sample :
    ∃ e past x earlier,
      (Engine.new Sample.setup default).run (Sample.calls ++ [.poll 1006]) = .ok e ∧
      History (.new Sample.setup default) past e ∧
      past.reverse.map Event.call = Sample.calls ++ [.poll 1006] ∧ past = x :: earlier ∧
      .transmit 0 .broadcast (Wire.beaconBytes sampleEcho) ∈ x.sent ∧
      ∃ r ∈ receptions earlier, r.hop = ⟨Sample.near, 0⟩ ∧ r.beacon.orig = Sample.near ∧
        r.beacon.seqno = 7 := by
  have reached : ∃ e₀ e, (Engine.new Sample.setup default).run Sample.calls = .ok e₀ ∧
      (Engine.new Sample.setup default).run (Sample.calls ++ [.poll 1006]) = .ok e ∧
      e₀.outbox.length = 4 ∧
      e.outbox[4]? = some (.transmit 0 .broadcast (Wire.beaconBytes sampleEcho)) :=
    ⟨_, _, rfl, rfl, rfl, rfl⟩
  obtain ⟨e₀, e, earlierRun, run, few, echo⟩ := reached
  obtain ⟨past, history, calls, truthful⟩ := direct_flag_truthful run
  obtain ⟨x, earlier, rfl, -, rfl, before, firsts⟩ := history.ends calls
  have start := run_of_history before
  rw [firsts, earlierRun] at start
  cases start
  have sent : .transmit 0 .broadcast (Wire.beaconBytes sampleEcho) ∈ x.sent := by
    unfold Event.sent
    rw [few]
    apply List.mem_of_getElem? (i := 0)
    rwa [List.getElem?_drop]
  refine ⟨_, _, x, earlier, run, history, calls, rfl, sent, ?_⟩
  obtain ⟨-, flags⟩ := truthful [] x earlier rfl
  obtain ⟨direct, -⟩ := flags _ sent 0 sampleEcho (by rfl)
  exact (direct (by decide)).2

end Engine

end BeaconMesh
