import BeaconMesh.Proofs.Echoes.Log
import BeaconMesh.Proofs.Engine.Fields
import BeaconMesh.Proofs.Faults.Bounds

/-!
# Echo windows stay in step with what was sent

`Does.echoWindow` says how a call moves the window of a neighbour's echoes: an echo that is taken
enters it, beacons of ours that leave age it, and everything else leaves it alone. So the window
shows the log of echoes, and `echo_windows_aligned` adds which of our beacons those were.
-/

namespace BeaconMesh

theorem Setup.iface_of_mem {s : Setup} {here : Iface} (mem : here ∈ s.ifaces) :
    s.ifaces[here.id]? = some here := by
  obtain ⟨i, inRange, rfl⟩ := List.getElem_of_mem mem
  rw [s.numbered i inRange]
  exact List.getElem?_eq_getElem inRange

theorem Setup.id_of_iface {s : Setup} {i : IfaceId} {here : Iface} (h : s.ifaces[i]? = some here) :
    here.id = i := by
  obtain ⟨inRange, rfl⟩ := List.getElem?_eq_some_iff.mp h
  exact s.numbered i inRange

namespace Engine

variable {e e' : Engine} {a : Addr} {iface : IfaceId} {log : List Echo} {now : Time}

/-! ### What leaves the windows alone -/

/-- Every echo window is as it was. -/
def SameEchoes (e e' : Engine) : Prop := ∀ a iface, e'.echoWindow a iface = e.echoWindow a iface

theorem SameEchoes.of_origins (origins : e'.origins = e.origins) : SameEchoes e e' := by
  intro a iface
  unfold echoWindow
  rw [origins]

theorem SameEchoes.trans {e₁ e₂ e₃ : Engine} (h : SameEchoes e₁ e₂) (h' : SameEchoes e₂ e₃) :
    SameEchoes e₁ e₃ := fun a iface => (h' a iface).trans (h a iface)

theorem hear_sameEchoes (e : Engine) (b : Beacon) (hop : Hop) (now : Time) :
    SameEchoes e (e.hear b hop now) := by
  intro a iface
  refine hear_sameField e b hop now (Originator.echoWindow_new _ _ _ _) ?_ a
  intro o
  obtain ⟨_, _, _, _, _, heard⟩ := o.hear_frame b.seqno b.ttl hop now
  exact Originator.echoWindow_congr (by rw [heard]) iface

theorem assess_sameEchoes {b : Beacon} {hop : Hop} {estimate : Estimate}
    (h : e.assess b hop now = .ok (e', estimate)) : SameEchoes e e' := by
  intro a iface
  exact assess_sameField h (Originator.echoWindow_new _ _ _ _) (fun _ _ _ => rfl) a

theorem adopt_sameEchoes (e : Engine) (b : Beacon) (hop : Hop) (duplicate twoWay : Bool)
    (now : Time) : SameEchoes e (e.adopt b hop duplicate twoWay now) := by
  intro a iface
  refine adopt_sameField e b hop duplicate twoWay now ?_ (fun _ _ _ _ => rfl) a
  intro o
  obtain ⟨_, frame⟩ := o.ranked_frame b hop
  exact Originator.echoWindow_congr (by rw [frame]; rfl) iface

theorem judge_sameEchoes {b : Beacon} {hop : Hop} {duplicate : Bool} {outcome : PacketOutcome}
    (h : e.judge b hop duplicate now = .ok (e', outcome)) : SameEchoes e e' := by
  obtain ⟨assessed, estimate, relayed, judged, considered, -⟩ := judge_eq_ok.mp h
  have adopted := adopt_sameEchoes assessed (b.judged estimate) hop duplicate estimate.twoWay now
  have settled : SameEchoes e e' :=
    ((assess_sameEchoes judged).trans adopted).trans
      (.of_origins (considerRelay_same considered).origins)
  exact settled

theorem Carries.sameEchoes (h : Carries e e') : SameEchoes e e' := by
  intro a iface
  exact h.sameField (fun _ _ _ => rfl) a

theorem echoes_of_decay {s : Setup} {o o' : Originator} (h : Originator.Decay s o o') :
    o'.echoes = o.echoes := by
  cases h with
  | prune now =>
    obtain ⟨_, frame⟩ := o.prune_frame now s.timeout
    rw [frame]
  | _ => rfl

theorem Decays.echoWindow (h : Decays e e') (live : (e'.origins.get? a).isSome = true)
    (iface : IfaceId) : e'.echoWindow a iface = e.echoWindow a iface :=
  h.field live fun change => Originator.echoWindow_congr (echoes_of_decay change) iface

/-! ### What moves the windows -/

theorem echoWindow_sendOwn (e : Engine) (t : Task) (leaving : IfaceId) (a : Addr)
    (iface : IfaceId) : (e.sendOwn t leaving).echoWindow a iface =
      (e.echoWindow a iface).departed (if leaving = iface then 1 else 0) := by
  unfold echoWindow Origins.field
  rw [sendOwn_origins, Origins.get?_map]
  cases e.origins.get? a with
  | none => exact (Window.departed_empty _).symm
  | some o => exact o.echoWindow_ageEchoes leaving iface

theorem echoWindow_recordEcho {sender : Addr} {index : IfaceId}
    (fits : index < (e.origins.getOrNew sender now).echoes.length) (offset : Nat) (a : Addr)
    (iface : IfaceId) :
    { e with origins := e.origins.upsert sender now fun o => o.recordEcho index offset }.echoWindow
        a iface =
      if sender = a ∧ index = iface then (e.echoWindow a iface).record offset
      else e.echoWindow a iface := by
  have before : (e.origins.getOrNew sender now).echoWindow iface =
      e.origins.field (fun o => o.echoWindow iface) .empty sender :=
    Origins.field_getOrNew (g := fun o => o.echoWindow iface) (Originator.echoWindow_new _ _ _ _)
  unfold echoWindow
  refine (Origins.field_insert _ _ _ _).trans ?_
  rw [Originator.echoWindow_recordEcho fits, before]
  by_cases same : sender = a
  · rw [if_pos same, same]
    simp only [true_and]
  · rw [if_neg same, if_neg fun both => same both.1]

/-! ### What a call does to the windows -/

theorem perform_echoWindow {t : Task} {scheduler : Scheduler}
    (work : { e with scheduler }.perform t now = .ok e') (a : Addr) (iface : IfaceId) :
    e'.echoWindow a iface =
      (e.echoWindow a iface).departed (if t.ownIface? = some iface then 1 else 0) := by
  rcases perform_cases work with ⟨other, rfl⟩ | ⟨leaving, own, scheduled⟩
  · rw [other, if_neg nofun]
    rfl
  · have kept := SameEchoes.of_origins (scheduleOwn_same scheduled).origins a iface
    rw [kept, echoWindow_sendOwn, own]
    simp only [Option.some.injEq]
    rfl

theorem Performs.echoWindow {ts : List Task} (h : Performs now e ts e') (a : Addr)
    (iface : IfaceId) : e'.echoWindow a iface =
      (e.echoWindow a iface).departed (ts.countP fun t => t.ownIface? = some iface) := by
  induction h with
  | none => rfl
  | task popped work _ ih =>
    rw [ih, perform_echoWindow work, Window.departed_add, List.countP_cons, Nat.add_comm]
    simp only [decide_eq_true_eq]

theorem Takes.echoWindow {here : Iface} {c : Call} {x : Reception} {outcome : PacketOutcome}
    (listed : here ∈ e.setup.ifaces)
    (sized : ∀ sender now, (e.origins.getOrNew sender now).echoes.length = e.setup.ifaces.length)
    (brought : c.reception? false = some x) (taken : e.Takes x.beacon x.hop x.now outcome e')
    (a : Addr) : e'.echoWindow a here.id =
      (e.echoWindow a here.id).taking (Event.echo? a here ⟨e, c, .packet outcome, e'⟩) := by
  have quiet : outcome ≠ .dropped .ownBeacon →
      Event.echo? a here ⟨e, c, .packet outcome, e'⟩ = none := by
    intro other
    apply Event.echo?_of_ne
    intro reply
    exact other (Reply.packet.inj reply)
  cases taken with
  | refused other =>
    rw [quiet fun dropped => other (PacketOutcome.dropped.inj dropped)]
    rfl
  | late =>
    rw [quiet nofun]
    exact hear_sameEchoes _ _ _ _ _ _
  | judged _ _ work =>
    rw [quiet nofun]
    exact (hear_sameEchoes e x.beacon x.hop x.now).trans (judge_sameEchoes work) a here.id
  | @echo there known peer mine =>
    have number : there.id = x.hop.iface := Setup.id_of_iface known
    rw [Event.echo?_eq (r := x) rfl brought]
    by_cases same : x.hop = ⟨a, here.id⟩
    · have here_eq : there = here := by
        rw [same, Setup.iface_of_mem listed] at known
        exact (Option.some.inj known).symm
      subst here_eq
      rw [if_pos same]
      unfold hearEcho
      cases echoed : e.echoOffset? x.beacon there with
      | none => rfl
      | some k =>
        obtain ⟨inRange, _⟩ := List.getElem?_eq_some_iff.mp (Setup.iface_of_mem listed)
        rw [← sized x.hop.addr x.now] at inRange
        refine (echoWindow_recordEcho inRange _ _ _).trans ?_
        rw [same, if_pos ⟨rfl, rfl⟩]
        rfl
    -- The echo enters the window of another neighbour or interface.
    · rw [if_neg same]
      show (e.hearEcho x.beacon x.hop.addr there x.now).echoWindow a here.id = e.echoWindow a here.id
      unfold hearEcho
      split
      · rename_i k _
        obtain ⟨inRange, _⟩ := List.getElem?_eq_some_iff.mp known
        rw [← sized x.hop.addr x.now, ← number] at inRange
        refine (echoWindow_recordEcho inRange _ _ _).trans (if_neg ?_)
        rintro ⟨sender, index⟩
        apply same
        rw [← sender, ← index, number]
      · rfl

theorem Does.echoWindow {here : Iface} {c : Call} {r : Reply} (listed : here ∈ e.setup.ifaces)
    (sized : ∀ sender now, (e.origins.getOrNew sender now).echoes.length = e.setup.ifaces.length)
    (does : Does e c r e') (live : (e'.origins.get? a).isSome = true) :
    e'.echoWindow a here.id =
      ((e.echoWindow a here.id).departed (Event.departures here.id ⟨e, c, r, e'⟩)).taking
        (Event.echo? a here ⟨e, c, r, e'⟩) := by
  have quiet : r ≠ .packet (.dropped .ownBeacon) → Event.echo? a here ⟨e, c, r, e'⟩ = none :=
    fun other => Event.echo?_of_ne other
  cases does with
  | start work =>
    rw [quiet nofun]
    exact SameEchoes.of_origins (start_same work).origins a here.id
  | beacon brought taken =>
    rw [Event.departures_of_reception brought]
    exact taken.echoWindow listed sized brought a
  | data silent carried =>
    rw [Event.echo?_of_none silent]
    exact carried.sameEchoes a here.id
  | frame bridged =>
    rw [quiet nofun]
    exact SameEchoes.of_origins bridged.origins a here.id
  | @poll now settled work =>
    rw [quiet nofun]
    have performed := work.echoWindow a here.id
    split at live
    · rename_i due
      rw [if_pos due]
      exact (Decays.echoWindow (sweep_decays _ _) live _).trans performed
    · rename_i later
      rw [if_neg later]
      exact performed
  | sweep now =>
    rw [quiet nofun]
    exact Decays.echoWindow (sweep_decays _ _) live _
  | shutdown now =>
    rw [quiet nofun]
    exact Decays.echoWindow (shutdown_decays _ _) live _

/-! ### What a call does to the last number sent -/

theorem SameQueue.sent (queue : SameQueue e e') (iface : IfaceId) (last : Seqno)
    (sent : e.lastSent? iface = some last) : e'.lastSent? iface = some last :=
  (lastSent?_congr queue.counters iface).trans sent

theorem Performs.lastSent? {ts : List Task} (h : Performs now e ts e') (inLine : e.InLine)
    {last : Seqno} (sent : e.lastSent? iface = some last) : e'.lastSent? iface =
      some (last + UInt16.ofNat (ts.countP fun t => t.ownIface? = some iface)) := by
  induction h generalizing last with
  | none => simpa using sent
  | task popped work _ ih =>
    have first := perform_lastSent? inLine popped work sent
    rw [ih (perform_inLine inLine popped work) first, List.countP_cons]
    simp only [decide_eq_true_eq]
    split <;> simp [UInt16.ofNat_add, UInt16.add_assoc, UInt16.add_comm 1]

theorem Takes.sent {b : Beacon} {hop : Hop} {outcome : PacketOutcome}
    (taken : e.Takes b hop now outcome e') (last : Seqno) (sent : e.lastSent? iface = some last) :
    e'.lastSent? iface = some last := by
  obtain ⟨settled, queue, rfl | ⟨_, -, rfl⟩⟩ := taken.queue
  · exact queue.sent iface last sent
  · exact queue.sent iface last sent

theorem Does.lastSent? {c : Call} {r : Reply} (does : Does e c r e') (inLine : e.InLine)
    {last : Seqno} (sent : e.lastSent? iface = some last) : e'.lastSent? iface =
      some (last + UInt16.ofNat (Event.departures iface ⟨e, c, r, e'⟩)) := by
  have still : ∀ k, k = 0 → some last = some (last + UInt16.ofNat k) := by
    rintro k rfl
    simp
  cases does with
  | start work =>
    rw [start_lastSent? work, sent]
    exact still _ rfl
  | beacon brought taken =>
    rw [taken.sent last sent]
    exact still _ (Event.departures_of_reception brought _)
  | data _ carried =>
    rw [carried.queue.sent iface last sent]
    exact still _ rfl
  | frame bridged =>
    rw [bridged.queue.sent iface last sent]
    exact still _ rfl
  | @poll now settled work =>
    have performed := work.lastSent? inLine sent
    split
    · exact (sweep_sweeps _ _).queue.sent iface _ performed
    · exact performed
  | sweep now =>
    rw [(sweep_sweeps _ _).queue.sent iface last sent]
    exact still _ rfl
  | shutdown now =>
    obtain ⟨swept, kept, cleared⟩ := e.shutdown_queue now
    rw [cleared.sent iface last (kept.sent iface last sent)]
    exact still _ rfl

/-! ### Histories -/

theorem History.sized {s : Setup} {jitter : Jitter} {past : List Event}
    (h : History (.new s jitter) past e) (sender : Addr) (now : Time) :
    (e.origins.getOrNew sender now).echoes.length = e.setup.ifaces.length := by
  have holds := (Originator.sized_invariant s).run (run_of_history h)
  rw [holds.setup]
  exact ((Originator.sized_invariant s).getOrNew holds sender now).echoes

theorem History.shows {s : Setup} {jitter : Jitter} {past : List Event} {here : Iface}
    (h : History (.new s jitter) past e) (listed : here ∈ s.ifaces) (a : Addr) :
    (e.echoWindow a here.id).Shows (echoLog a here past) := by
  induction h with
  | nil => exact Window.shows_empty
  | @call past e e' c r earlier made ih =>
    unfold echoLog
    cases found : e'.origins.get? a with
    | none =>
      have blank : e'.echoWindow a here.id = .empty := Origins.field_of_none found
      rw [blank]
      exact Window.shows_empty
    | some o =>
      have live : (e'.origins.get? a).isSome = true := by simp [found]
      rw [(step_does made).echoWindow (earlier.setup ▸ listed) earlier.sized live]
      exact (ih.departed _).taking fun y taken => Event.echo?_since taken

theorem History.aligned {s : Setup} {jitter : Jitter} {past : List Event} {here : Iface}
    (h : History (.new s jitter) past e) (once : starts past ≤ 1) (listed : here ∈ s.ifaces)
    (a : Addr) : Aligned here.id a (echoLog a here past) e := by
  induction h with
  | nil => exact .blank rfl
  | @call past e e' c r earlier made ih =>
    have once : starts past ≤ 1 := by
      unfold starts at once ⊢
      rw [List.countP_cons] at once
      omega
    have does := step_does made
    unfold echoLog
    cases found : e'.origins.get? a with
    | none => exact .blank (Origins.field_of_none found)
    | some o =>
      have live : (e'.origins.get? a).isSome = true := by simp [found]
      have window := does.echoWindow (earlier.setup ▸ listed) earlier.sized live
      refine (ih once).step window (fun last => does.lastSent? (earlier.inLine once).1) ?_
      intro y taken
      obtain ⟨r, last, -, brought, -, -, -, sent, near, rfl⟩ := Event.echo?_eq_some taken
      exact ⟨Event.departures_of_reception brought _, rfl, near, last, sent, rfl⟩

/-- A window of echoes holds exactly the beacons of ours that came back, each at its distance from
the last one sent. -/
theorem echo_windows_aligned {s : Setup} {jitter : Jitter} {cs : List Call} {e : Engine}
    (h : (Engine.new s jitter).run cs = .ok e) (once : cs.countP Call.isStart ≤ 1) :
    ∃ past, History (.new s jitter) past e ∧ past.reverse.map Event.call = cs ∧
      ∀ here ∈ s.ifaces, ∀ a o, e.origins.get? a = some o →
        ∃ w, o.echoes? here.id = some w ∧
          (∀ p < Window.size, w.has p = true ↔
            ∃ y ∈ echoLog a here past, y.behind ≤ p ∧ y.since = p - y.behind) ∧
          ∀ last seqno, e.lastSent? here.id = some last →
            Seqno.behind last seqno < Window.size →
            (w.has (Seqno.behind last seqno) = true ↔
              ∃ y ∈ echoLog a here past, y.seqno = seqno ∧ y.since < Window.size) := by
  obtain ⟨past, history, calls⟩ := run_iff_history.mp h
  have begun : starts past ≤ 1 := by
    rw [← calls, List.countP_map, List.countP_reverse] at once
    exact once
  refine ⟨past, history, calls, fun here listed a o known => ?_⟩
  obtain ⟨holds, numbered, near⟩ := history.aligned begun listed a
  have sized := ((Originator.sized_invariant s).run h).each known
  obtain ⟨inRange, _⟩ := List.getElem?_eq_some_iff.mp (Setup.iface_of_mem listed)
  rw [← sized.echoes] at inRange
  have found : o.echoes? here.id = some o.echoes[here.id] := List.getElem?_eq_getElem inRange
  have window : e.echoWindow a here.id = o.echoes[here.id] := by
    unfold echoWindow Originator.echoWindow
    rw [Origins.field_of_get? known, found, Option.getD_some]
  rw [window] at holds
  refine ⟨_, found, fun p close => ?_, fun last seqno departed close => ?_⟩
  · rw [holds p close]
    refine exists_congr fun y => and_congr_right fun _ => ?_
    unfold Echo.position
    omega
  · rw [holds _ close]
    refine exists_congr fun y => and_congr_right fun mem => ?_
    obtain ⟨last', departed', place⟩ := numbered y mem
    cases departed.symm.trans departed'
    have recent := near y mem
    constructor
    · intro same
      have within : y.position < 65536 := same ▸ Seqno.behind_lt last seqno
      rw [Nat.mod_eq_of_lt within, same] at place
      refine ⟨Seqno.eq_of_behind_eq place, ?_⟩
      unfold Echo.position at same
      omega
    · rintro ⟨rfl, young⟩
      rw [place]
      unfold Echo.position Window.size at *
      omega

/-- The beacon that the neighbour echoed is the last but one when the next has left. -/
theorem echo_windows_aligned_sample :
    ∃ e o past, (Engine.new Sample.setup default).run (Sample.calls ++ [.poll 2000]) = .ok e ∧
      (Sample.calls ++ [Call.poll 2000]).countP Call.isStart ≤ 1 ∧
      e.origins.get? Sample.near = some o ∧ (o.echoes.map Window.bits) = [0b10#64, 0#64] ∧
      History (.new Sample.setup default) past e ∧
      past.reverse.map Event.call = Sample.calls ++ [.poll 2000] ∧
      ∀ here ∈ Sample.setup.ifaces, ∃ w, o.echoes? here.id = some w ∧
        (∀ p < Window.size, w.has p = true ↔
          ∃ y ∈ echoLog Sample.near here past, y.behind ≤ p ∧ y.since = p - y.behind) ∧
        ∀ last seqno, e.lastSent? here.id = some last → Seqno.behind last seqno < Window.size →
          (w.has (Seqno.behind last seqno) = true ↔
            ∃ y ∈ echoLog Sample.near here past, y.seqno = seqno ∧ y.since < Window.size) := by
  have reached : ∃ e o, (Engine.new Sample.setup default).run (Sample.calls ++ [.poll 2000]) = .ok e ∧
      e.origins.get? Sample.near = some o ∧ (o.echoes.map Window.bits) = [0b10#64, 0#64] :=
    ⟨_, _, rfl, rfl, rfl⟩
  have once : (Sample.calls ++ [Call.poll 2000]).countP Call.isStart ≤ 1 := by decide
  obtain ⟨e, o, run, known, windows⟩ := reached
  obtain ⟨past, history, calls, aligned⟩ := echo_windows_aligned run once
  exact ⟨e, o, past, run, once, known, windows, history, calls,
    fun here listed => aligned here listed Sample.near o known⟩

end Engine

end BeaconMesh