import BeaconMesh.Proofs.Engine.History
import BeaconMesh.Proofs.Faults.Bounds
import BeaconMesh.Proofs.Faults.Polls
import BeaconMesh.Proofs.Routes.Optimal

/-!
# Runs without faults

`step_fails` says when a call has no result: a link has to be judged of which nothing was heard and
of which no threshold asks anything, or a poll comes at the last reading of the clock. With a
threshold only the latter is left, and all numbers stay within their words.
-/

namespace BeaconMesh

/-- Whether a link is judged even if nothing was ever received over it. -/
def Config.NoThreshold (c : Config) : Prop := c.minEchoes = 0 ∧ c.minReceived = 0

instance (c : Config) : Decidable c.NoThreshold := inferInstanceAs (Decidable (_ ∧ _))

theorem Config.noThreshold_iff {c : Config} :
    c.NoThreshold ↔ (Estimator.ofConfig c).minEchoes = 0 ∧ (Estimator.ofConfig c).minReceived = 0 :=
  and_congr UInt32.toNat_inj.symm UInt32.toNat_inj.symm

/-! ### What was heard of a neighbour -/

namespace Originator

/-- How many of the last beacons came directly from the node over an interface. -/
def directCount (o : Originator) (iface : IfaceId) : Nat :=
  ((o.link? ⟨o.addr, iface⟩).map Link.received).getD 0

variable {o o' : Originator} {seqno : Seqno} {ttl : UInt8} {hop : Hop} {now : Time}

theorem received_hearNewest (o : Originator) (seqno : Seqno) (hop : Hop) (now : Time) :
    ∃ l, (o.hearNewest seqno hop now).link? hop = some l ∧ 0 < l.received := by
  let offset := Seqno.ahead seqno o.newest
  let moved : Originator :=
    { o with received := o.received.mark offset true, newest := seqno, lastSeen := now }
  let known := (moved.ensureLink hop now).modifyLink hop fun l => l.touch now
  have heard : (o.hearNewest seqno hop now).link? hop =
      (known.link? hop).map fun l => l.hear offset (l.hop = hop) :=
    link?_of_map (f := fun l => l.hear offset (l.hop = hop)) (fun _ => rfl) rfl hop
  have touched : known.link? hop = ((moved.ensureLink hop now).link? hop).map fun l =>
      if l.hop = hop then l.touch now else l := by
    refine link?_of_map (fun l => ?_) rfl hop
    split <;> rfl
  rw [Originator.link?_ensureLink] at touched
  refine ⟨_, heard.trans (congrArg _ touched), ?_⟩
  refine Window.count_pos_iff.mpr ⟨0, by decide, ?_⟩
  rw [Window.has_mark, decide_eq_true (hop_of_link? touched)]
  exact Bool.or_true _

theorem directCount_hear (key : o.addr = hop.addr) (inTime : ∀ p, o.arrival seqno ≠ .late p) :
    0 < (o.hear seqno ttl hop now).directCount hop.iface := by
  obtain ⟨_, _, _, _, _, frame⟩ := o.hear_frame seqno ttl hop now
  have addr : (o.hear seqno ttl hop now).addr = hop.addr := by
    rw [frame]
    exact key
  obtain ⟨l, present, positive⟩ := o.received_hearNewest seqno hop now
  have found : (o.hear seqno ttl hop now).link? hop = some l := by
    unfold hear
    split
    · rename_i p arrival
      exact absurd arrival (inTime p)
    · exact present
    · exact present
  unfold directCount
  rw [addr, found]
  exact positive

end Originator

/-! ### Beacons whose link cannot be judged -/

namespace Origins

/-- Whether every node is stored under its own address. -/
def Keyed (t : Origins) : Prop := ∀ a o, t.get? a = some o → o.addr = a

theorem Keyed.getOrNew {t : Origins} (h : t.Keyed) (a : Addr) (now : Time) :
    (t.getOrNew a now).addr = a := by
  unfold Origins.getOrNew
  cases known : t.get? a with
  | none => rfl
  | some o => exact h a o known

end Origins

namespace Engine

variable {e e' : Engine} {b : Beacon} {hop : Hop} {now : Time} {cause : Fault}

/-- How many of the last beacons of a neighbour came directly over a hop. -/
def directCount (e : Engine) (hop : Hop) : Nat :=
  e.origins.field (fun o => o.directCount hop.iface) 0 hop.addr

theorem directCount_getOrNew (e : Engine) (hop : Hop) (now : Time) :
    (e.origins.getOrNew hop.addr now).directCount hop.iface = e.directCount hop :=
  Origins.field_getOrNew (g := fun o => o.directCount hop.iface) rfl

theorem assess_error_iff : e.assess b hop now = .error cause ↔
    cause = .divisionByZero ∧ e.directCount hop = 0 ∧ e.setup.config.NoThreshold := by
  have scale : 0 < e.setup.estimator.max := e.setup.scale_pos
  rw [Config.noThreshold_iff, ← directCount_getOrNew e hop now]
  constructor
  · intro h
    rcases Fault.bind_error h with h | ⟨_, _, h⟩
    · rcases Fault.bind_error h with h | ⟨_, _, h⟩
      · exact (Estimator.estimate_error_iff scale _ _).mp h
      · cases h
    · cases h
  · intro unjudged
    unfold assess Originator.assess
    dsimp only
    have failed := (Estimator.estimate_error_iff scale b.quality.toNat
      ((e.origins.getOrNew hop.addr now).echoCount hop.iface)).mpr unjudged
    unfold Originator.directCount at failed
    rw [failed]
    rfl

theorem relay_ok (e : Engine) (b : Beacon) (hop : Hop) (mode : RelayMode) (now : Time) :
    ∃ r, e.relay b hop mode now = .ok r := by
  unfold relay Scheduler.enqueueRelay
  obtain ⟨task, made⟩ := e.setup.relay_task?_ok
    { beacon := b, sender := hop.addr, iface := hop.iface,
      substitute := e.substitute? b.orig hop.addr, direct := mode.direct, oneWay := mode.oneWay } now
  dsimp only
  rw [made]
  cases task with
  | none => exact ⟨_, rfl⟩
  | some t => exact ⟨_, rfl⟩

theorem considerRelay_ok (e : Engine) (b : Beacon) (hop : Hop) (duplicate twoWay : Bool)
    (now : Time) : ∃ r, e.considerRelay b hop duplicate twoWay now = .ok r := by
  unfold considerRelay
  split
  · exact ⟨_, rfl⟩
  · split
    · exact relay_ok e b hop _ now
    · exact ⟨_, rfl⟩

theorem judge_error_iff {duplicate : Bool} : e.judge b hop duplicate now = .error cause ↔
    cause = .divisionByZero ∧ e.directCount hop = 0 ∧ e.setup.config.NoThreshold := by
  rw [← @assess_error_iff e b hop now cause]
  constructor
  · intro h
    rcases Fault.bind_error h with h | ⟨⟨assessed, estimate⟩, _, h⟩
    · exact h
    · rcases Fault.bind_error h with h | ⟨_, _, h⟩
      · obtain ⟨_, considered⟩ := (assessed.adopt (b.judged estimate) hop duplicate estimate.twoWay
          now).considerRelay_ok (b.judged estimate) hop duplicate estimate.twoWay now
        cases considered.symm.trans h
      · cases h
  · intro h
    unfold judge
    rw [h]
    rfl

theorem directCount_hear_of_ne (other : b.orig ≠ hop.addr) :
    (e.hear b hop now).directCount hop = e.directCount hop := by
  unfold directCount
  refine (Origins.field_insert _ _ _ _).trans ?_
  rw [if_neg other]

theorem directCount_hear_pos (keyed : e.origins.Keyed) (straight : b.orig = hop.addr)
    (inTime : ∀ p, (e.origins.getOrNew b.orig now).arrival b.seqno ≠ .late p) :
    0 < (e.hear b hop now).directCount hop := by
  unfold directCount
  refine Nat.lt_of_lt_of_eq ?_ (Origins.field_insert _ _ _ _).symm
  rw [if_pos straight]
  exact Originator.directCount_hear ((keyed.getOrNew _ now).trans straight) inTime

/-- A beacon that another node relayed comes from a neighbour of which nothing was heard directly,
and no threshold asks for that. -/
structure Unjudged (e : Engine) (b : Beacon) (hop : Hop) (now : Time) : Prop where
  admitted : e.setup.Admits b hop
  inTime : ∀ p, (e.origins.getOrNew b.orig now).arrival b.seqno ≠ .late p
  relayed : b.orig ≠ hop.addr
  unheard : e.directCount hop = 0
  noThreshold : e.setup.config.NoThreshold

theorem accept_error_iff (keyed : e.origins.Keyed) (admitted : e.setup.Admits b hop) :
    e.accept b hop now = .error cause ↔ cause = .divisionByZero ∧ e.Unjudged b hop now := by
  have judged : (∀ p, (e.origins.getOrNew b.orig now).arrival b.seqno ≠ .late p) →
      ∀ duplicate, (e.hear b hop now).judge b hop duplicate now = .error cause ↔
        cause = .divisionByZero ∧ e.Unjudged b hop now := by
    intro inTime duplicate
    rw [judge_error_iff]
    refine and_congr_right fun _ => ⟨?_, fun x => ⟨?_, x.noThreshold⟩⟩
    · rintro ⟨unheard, noThreshold⟩
      -- Hearing has counted a straight beacon already.
      have relayed : b.orig ≠ hop.addr := fun straight =>
        Nat.ne_of_gt (directCount_hear_pos keyed straight inTime) unheard
      rw [directCount_hear_of_ne relayed] at unheard
      exact ⟨admitted, inTime, relayed, unheard, noThreshold⟩
    · rw [directCount_hear_of_ne x.relayed]
      exact x.unheard
  unfold accept
  split
  · rename_i p arrival
    exact iff_of_false nofun fun x => x.2.inTime p arrival
  · rename_i arrival
    exact judged (fun p late => by cases arrival.symm.trans late) true
  · rename_i arrival
    exact judged (fun p late => by cases arrival.symm.trans late) false

theorem receiveBeacon_error_iff (keyed : e.origins.Keyed) :
    e.receiveBeacon b hop.addr hop.iface now = .error cause ↔
      cause = .divisionByZero ∧ e.Unjudged b hop now := by
  by_cases admitted : e.setup.Admits b hop
  · rw [receiveBeacon_of_admits admitted, accept_error_iff keyed admitted]
  · refine iff_of_false (fun h => ?_) fun x => admitted x.2.admitted
    unfold receiveBeacon at h
    split at h
    · cases h
    rename_i here known
    split at h
    · cases h
    rename_i accepted
    split at h
    · cases h
    rename_i foreign
    split at h
    · cases h
    rename_i twoWay
    obtain ⟨inRange, _⟩ := List.getElem?_eq_some_iff.mp known
    exact admitted ⟨inRange, isPeer_of_refusal? accepted, Bool.eq_false_iff.mpr foreign,
      Bool.eq_false_iff.mpr twoWay⟩

/-! ### Runs -/

/-- Why a call has no result. -/
inductive Fails (e : Engine) : Call → Fault → Prop where
  | beacon {c : Call} {x : Reception} (brought : c.reception? false = some x)
      (unjudged : e.Unjudged x.beacon x.hop x.now) : Fails e c .divisionByZero
  | poll {now : Time} (ended : Clock.last ≤ now) : Fails e (.poll now) .endless

theorem step_fails (keyed : e.origins.Keyed) {c : Call} (h : e.step c = .error cause) :
    e.Fails c cause := by
  cases c with
  | start now =>
    obtain ⟨started, work⟩ := e.start_ok now
    rcases Fault.bind_error h with h | ⟨_, _, h⟩
    · cases work.symm.trans h
    · cases h
  | packet payload sender iface now =>
    rcases Fault.bind_error h with h | ⟨_, _, h⟩
    · unfold receive at h
      split at h
      · cases h
      split at h
      · cases h
      · rename_i b decoded
        let hop : Hop := ⟨sender, iface⟩
        have failed : e.receiveBeacon b hop.addr hop.iface now = .error cause := h
        obtain ⟨rfl, unjudged⟩ := (receiveBeacon_error_iff keyed).mp failed
        refine .beacon (x := ⟨b, ⟨sender, iface⟩, now, false⟩) ?_ unjudged
        unfold Call.reception?
        simp only [decoded]
      · cases h
      · cases h
    · cases h
  | beacon b sender iface now =>
    rcases Fault.bind_error h with h | ⟨_, _, h⟩
    · let hop : Hop := ⟨sender, iface⟩
      have failed : e.receiveBeacon b hop.addr hop.iface now = .error cause := h
      obtain ⟨rfl, unjudged⟩ := (receiveBeacon_error_iff keyed).mp failed
      exact .beacon (x := ⟨b, ⟨sender, iface⟩, now, false⟩) rfl unjudged
    · cases h
  | poll now =>
    rcases Fault.bind_error h with h | ⟨_, _, h⟩
    · obtain ⟨rfl, ended⟩ := poll_fault h
      exact .poll ended
    · cases h
  | frame => cases h
  | sweep => cases h
  | shutdown => cases h

theorem run_error {cs : List Call} (h : e.run cs = .error cause) :
    ∃ before c rest last, cs = before ++ c :: rest ∧ e.run before = .ok last ∧
      last.step c = .error cause := by
  induction cs generalizing e with
  | nil => cases h
  | cons c cs ih =>
    rcases Fault.bind_error h with h | ⟨⟨next, r⟩, first, h⟩
    · exact ⟨[], c, cs, e, rfl, rfl, h⟩
    · obtain ⟨before, d, rest, last, rfl, run, failed⟩ := ih h
      refine ⟨c :: before, d, rest, last, rfl, ?_, failed⟩
      unfold Engine.run
      rw [first]
      exact run

theorem run_keyed {s : Setup} {jitter : Jitter} {cs : List Call}
    (h : (Engine.new s jitter).run cs = .ok e) : e.origins.Keyed :=
  fun _ _ known => (((Originator.sound_invariant s).run h).each known).key

theorem run_fails {s : Setup} {jitter : Jitter} {cs : List Call}
    (h : (Engine.new s jitter).run cs = .error cause) :
    ∃ before c rest last, cs = before ++ c :: rest ∧
      (Engine.new s jitter).run before = .ok last ∧ last.setup = s ∧ last.Fails c cause := by
  obtain ⟨before, c, rest, last, split, run, failed⟩ := run_error h
  have setup := ((Originator.sound_invariant s).run run).setup
  exact ⟨before, c, rest, last, split, run, setup, step_fails (run_keyed run) failed⟩

/-- With a threshold above zero, a run fails only by a poll at the last reading of the clock, which
does not end. -/
theorem runs_without_faults {s : Setup} (jitter : Jitter) (cs : List Call)
    (threshold : ¬ s.config.NoThreshold) :
    (∀ cause, (Engine.new s jitter).run cs = .error cause →
      cause = .endless ∧ ∃ now, .poll now ∈ cs ∧ Clock.last ≤ now) ∧
    ((∀ now, .poll now ∈ cs → now < Clock.last) → ∃ e, (Engine.new s jitter).run cs = .ok e) ∧
    ∀ e, (Engine.new s jitter).run cs = .ok e → e.Bounded := by
  have ends : ∀ cause, (Engine.new s jitter).run cs = .error cause →
      cause = .endless ∧ ∃ now, .poll now ∈ cs ∧ Clock.last ≤ now := by
    intro cause h
    obtain ⟨before, c, rest, last, rfl, -, setup, fails⟩ := run_fails h
    cases fails with
    | beacon _ unjudged => exact absurd (setup ▸ unjudged.noThreshold) threshold
    | @poll now ended =>
      exact ⟨rfl, now, List.mem_append_right before (List.mem_cons_self), ended⟩
  refine ⟨ends, fun goesOn => ?_, fun e => run_bounded⟩
  cases ran : (Engine.new s jitter).run cs with
  | ok e => exact ⟨e, rfl⟩
  | error cause =>
    obtain ⟨-, now, polled, ended⟩ := ends cause ran
    exact absurd (goesOn now polled) (Nat.not_lt.mpr ended)

theorem runs_without_faults_sample : ¬ Sample.setup.config.NoThreshold ∧
    ∃ e, (Engine.new Sample.setup default).run Sample.calls = .ok e ∧ e.Bounded := by
  have threshold : ¬ Sample.setup.config.NoThreshold := by decide
  obtain ⟨-, ends, bounded⟩ := runs_without_faults default Sample.calls threshold
  have goesOn : ∀ now, Call.poll now ∈ Sample.calls → now < Clock.last := by
    intro now polled
    simp only [Sample.calls, List.mem_cons, Call.poll.injEq, reduceCtorEq, List.not_mem_nil,
      false_or, or_false] at polled
    rw [polled]
    decide
  obtain ⟨e, run⟩ := ends goesOn
  exact ⟨threshold, e, run, bounded e run⟩

/-- A valid configuration without thresholds, and a beacon that a neighbour relays of which nothing
was heard. -/
theorem run_divides_by_zero :
    (Engine.new { Sample.setup with
        config := { minEchoes := 0, minReceived := 0 }, valid := by decide } default).run
      [.beacon (Sample.relayed 1 []) Sample.near 0 5] = .error .divisionByZero := by
  rfl

end Engine

end BeaconMesh
