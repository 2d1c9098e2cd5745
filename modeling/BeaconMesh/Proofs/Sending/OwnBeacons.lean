import BeaconMesh.Proofs.Echoes.Numbers
import BeaconMesh.Proofs.Sending.Origins

/-!
# A node never stops to send

After its start, exactly one beacon of ours waits for each interface. `Engine.line` is that beacon
with the counter of the interface, and only performing the beacon moves the line: the beacon is
sent on every interface, and its successor takes its place.
-/

namespace BeaconMesh

/-! ### The queue of one interface -/

namespace Scheduler

variable {p : Task → Bool} {t : Task} {ts : List Task}

theorem filter_insertTask_of_not (other : p t = false) :
    (insertTask t ts).filter p = ts.filter p := by
  induction ts with
  | nil => simp [insertTask, other]
  | cons u rest ih =>
    unfold insertTask
    split
    · rw [List.filter_cons, ih, List.filter_cons]
    · simp [other]

theorem filter_insertTask_of_nil (chosen : p t = true) (none : ts.filter p = []) :
    (insertTask t ts).filter p = [t] := by
  have perm := (insertTask_perm t ts).filter p
  rw [List.filter_cons_of_pos chosen, none] at perm
  exact List.perm_singleton.mp perm

end Scheduler

namespace Engine

variable {e e' : Engine} {iface other : IfaceId} {here : Iface} {now : Time} {t : Task}

/-- The beacons of ours that wait for an interface. -/
def waiting (e : Engine) (iface : IfaceId) : List Task :=
  e.scheduler.tasks.filter fun t => t.ownIface? = some iface

/-- The beacons of ours that wait for an interface, with its counter. -/
def line (e : Engine) (iface : IfaceId) : List Task × Option Counter :=
  (e.waiting iface, e.counters[iface]?)

theorem ownIface?_of_relay (relay : t.own = false) (iface : IfaceId) :
    t.ownIface? ≠ some iface := by
  unfold Task.ownIface?
  rw [relay]
  nofun

theorem SameQueue.line (h : SameQueue e e') (iface : IfaceId) : e'.line iface = e.line iface := by
  unfold Engine.line waiting
  rw [h.scheduler, h.counters]

theorem line_enqueue (foreign : t.ownIface? ≠ some iface) :
    { e with scheduler := e.scheduler.enqueue t }.line iface = e.line iface := by
  unfold line waiting
  congr 1
  exact Scheduler.filter_insertTask_of_not (decide_eq_false foreign)

theorem scheduleOwn_line_of_ne (h : e.scheduleOwn other now = .ok e') (different : other ≠ iface) :
    e'.line iface = e.line iface := by
  rcases scheduleOwn_cases h with ⟨there, counter, due, -, -, -, rfl⟩ | ⟨-, rfl⟩
  · unfold line waiting
    have foreign : (some other : Option IfaceId) ≠ some iface := by simpa using different
    dsimp only
    rw [List.getElem?_set_ne different]
    congr 1
    exact Scheduler.filter_insertTask_of_not (decide_eq_false foreign)
  · rfl

/-- The shortest time between two beacons of ours. -/
def gap (s : Setup) : Time := s.config.interval.toNat - s.config.jitter.toNat

/-- Whether a beacon of ours that is queued at a time can be due at another. -/
def Paced (s : Setup) (now due : Time) : Prop :=
  ∃ q : Scheduler, q.ownDue s.pacing now = .ok due

theorem Paced.later_gap_le {s : Setup} {due : Time} (h : Paced s now due) :
    Clock.later now (gap s) ≤ due := by
  obtain ⟨q, h⟩ := h
  obtain ⟨early, difference, h⟩ := Fault.bind_ok h
  cases Fault.pure_ok h
  have shortest : early = gap s := by
    unfold Fault.difference at difference
    split at difference
    · cases difference
    · cases difference
      rfl
  rw [shortest]
  exact Clock.le_later (Clock.later_le_last _ _)

theorem scheduleOwn_line {c : Counter} (known : e.setup.ifaces[iface]? = some here)
    (empty : e.line iface = ([], some c)) (h : e.scheduleOwn iface now = .ok e') :
    ∃ due, Paced e.setup now due ∧
      e'.line iface =
        ([{ due, own := true, out := some iface, beacon := ownBeacon e.setup.config here c.next }],
          some { c with next := c.next + 1 }) := by
  obtain ⟨none, counted⟩ := Prod.mk.inj empty
  rcases scheduleOwn_cases h with ⟨there, counter, due, found, same, timed, rfl⟩ | ⟨missing, -⟩
  · cases known.symm.trans found
    cases counted.symm.trans same
    obtain ⟨inRange, -⟩ := List.getElem?_eq_some_iff.mp counted
    refine ⟨due, ⟨_, timed⟩, Prod.ext ?_ ?_⟩
    · exact Scheduler.filter_insertTask_of_nil (decide_eq_true rfl) none
    · exact List.getElem?_set_self inRange
  · simp [known, counted] at missing

/-! ### Starting -/

theorem foldlM_line_of_not_mem {ifaces : List IfaceId} (absent : iface ∉ ifaces)
    (h : ifaces.foldlM (fun e iface => e.scheduleOwn iface now) e = .ok e') :
    e'.line iface = e.line iface := by
  induction ifaces generalizing e with
  | nil =>
    rw [List.foldlM_nil] at h
    rw [← Fault.pure_ok h]
  | cons other rest ih =>
    rw [List.foldlM_cons] at h
    obtain ⟨next, first, h⟩ := Fault.bind_ok h
    rw [List.mem_cons, not_or] at absent
    rw [ih absent.2 h, scheduleOwn_line_of_ne first (Ne.symm absent.1)]

theorem foldlM_line {ifaces : List IfaceId} (distinct : ifaces.Nodup) (listed : iface ∈ ifaces)
    (known : e.setup.ifaces[iface]? = some here) {c : Counter}
    (empty : e.line iface = ([], some c))
    (h : ifaces.foldlM (fun e iface => e.scheduleOwn iface now) e = .ok e') :
    ∃ due, Paced e.setup now due ∧ e'.line iface =
      ([{ due, own := true, out := some iface, beacon := ownBeacon e.setup.config here c.next }],
        some { c with next := c.next + 1 }) := by
  induction ifaces generalizing e with
  | nil => cases listed
  | cons other rest ih =>
    rw [List.foldlM_cons] at h
    obtain ⟨next, first, h⟩ := Fault.bind_ok h
    obtain ⟨fresh, distinct⟩ := List.nodup_cons.mp distinct
    have setup := (scheduleOwn_same first).setup
    by_cases same : other = iface
    · subst same
      obtain ⟨due, paced, line⟩ := scheduleOwn_line known empty first
      exact ⟨due, paced, (foldlM_line_of_not_mem fresh h).trans line⟩
    · have later := List.mem_of_ne_of_mem (Ne.symm same) listed
      rw [← setup] at known ⊢
      exact ih distinct later known ((scheduleOwn_line_of_ne first same).trans empty) h

theorem start_line (known : e.setup.ifaces[iface]? = some here) {c : Counter}
    (empty : e.line iface = ([], some c)) (h : e.start now = .ok e') :
    ∃ due, Paced e.setup now due ∧ e'.line iface =
      ([{ due, own := true, out := some iface, beacon := ownBeacon e.setup.config here c.next }],
        some { c with next := c.next + 1 }) := by
  obtain ⟨started, scheduled, queue⟩ := start_cases h
  obtain ⟨inRange, -⟩ := List.getElem?_eq_some_iff.mp known
  rw [queue.line]
  exact foldlM_line List.nodup_range (List.mem_range.mpr inRange) known empty scheduled

/-! ### Performing -/

variable {scheduler : Scheduler}

theorem pop_waiting (popped : e.scheduler.pop? now = some (t, scheduler)) (iface : IfaceId) :
    e.waiting iface = (if t.ownIface? = some iface then [t] else []) ++
      { e with scheduler }.waiting iface := by
  obtain ⟨tasks, -⟩ := Scheduler.tasks_of_pop? popped
  unfold waiting
  rw [tasks, List.filter_cons]
  split
  · rename_i own
    rw [if_pos (of_decide_eq_true own)]
    rfl
  · rename_i other
    rw [if_neg fun own => other (decide_eq_true own)]
    rfl

theorem perform_line_of_ne (popped : e.scheduler.pop? now = some (t, scheduler))
    (work : { e with scheduler }.perform t now = .ok e') (foreign : t.ownIface? ≠ some iface) :
    e'.line iface = e.line iface := by
  have left := pop_waiting popped iface
  rw [if_neg foreign, List.nil_append] at left
  have rest : { e with scheduler }.line iface = e.line iface := Prod.ext left.symm rfl
  rw [← rest]
  rcases perform_cases work with ⟨-, rfl⟩ | ⟨leaving, own, scheduled⟩
  · rfl
  · have different : leaving ≠ iface := by
      rintro rfl
      exact foreign own
    rw [scheduleOwn_line_of_ne scheduled different]
    refine Prod.ext rfl ?_
    show (sendOwn _ t leaving).counters[iface]? = e.counters[iface]?
    rw [sendOwn_counter]
    simp [different]

/-- A beacon of ours that is performed leaves its place to its successor. -/
theorem perform_line {c : Counter} {u : Task} (known : e.setup.ifaces[iface]? = some here)
    (line : e.line iface = ([u], some c))
    (popped : e.scheduler.pop? now = some (t, scheduler))
    (work : { e with scheduler }.perform t now = .ok e') (own : t.ownIface? = some iface) :
    u = t ∧ ∃ due, Paced e.setup now due ∧
      e'.line iface =
        ([{ due, own := true, out := some iface, beacon := ownBeacon e.setup.config here c.next }],
          some { next := c.next + 1, lastSent := some t.beacon.seqno }) := by
  obtain ⟨single, counted⟩ := Prod.mk.inj line
  have left := pop_waiting popped iface
  rw [single, if_pos own] at left
  obtain ⟨first, none⟩ := List.cons.inj left
  rcases perform_cases work with ⟨other, -⟩ | ⟨leaving, same, scheduled⟩
  · cases own.symm.trans other
  cases own.symm.trans same
  have empty : (sendOwn { e with scheduler } t iface).line iface =
      ([], some { c with lastSent := some t.beacon.seqno }) := by
    refine Prod.ext none.symm ?_
    show (sendOwn _ t iface).counters[iface]? = _
    rw [sendOwn_counter]
    show e.counters[iface]?.map _ = _
    rw [counted, Option.map_some, if_pos rfl]
  exact ⟨first, scheduleOwn_line (e := sendOwn { e with scheduler } t iface) known empty scheduled⟩

end Engine

/-! ### What was sent -/

/-- Those among some sendings that sent our beacon for an interface. -/
def sentFor (iface : IfaceId) (ys : List Sending) : List Sending :=
  ys.filter fun y => y.task.ownIface? = some iface

theorem sentFor_append (iface : IfaceId) (ys : List Sending) (y : Sending) :
    sentFor iface (ys ++ [y]) =
      sentFor iface ys ++ if y.task.ownIface? = some iface then [y] else [] := by
  simp only [sentFor, List.filter_append, List.filter_cons, List.filter_nil, decide_eq_true_eq]

/-- Whether a sending is that of our beacon with a number, which left once on every interface. -/
structure Sending.IsOwn (y : Sending) (s : Setup) (here : Iface) (seqno : Seqno) : Prop where
  beacon : y.task.beacon = Engine.ownBeacon s.config here seqno
  sent : ∃ hosts, y.sent = s.ifaces.map fun there => .transmit there.id .broadcast
    (Wire.beaconBytes { Engine.ownBeacon s.config here seqno with hosts })

/-- Whether our beacons of an interface were sent in order, with the shortest time between them. -/
structure Regular (s : Setup) (here : Iface) (sent : List Sending) : Prop where
  each : ∀ (k : Nat) (y : Sending), sent[k]? = some y → y.IsOwn s here (UInt16.ofNat (k + 1))
  apart : sent.IsChain fun y y' => Clock.later y.time (Engine.gap s) ≤ y'.time

theorem regular_nil (s : Setup) (here : Iface) : Regular s here [] := ⟨nofun, .nil⟩

theorem getElem?_append_singleton_cases {α : Type} {xs : List α} {x y : α} {k : Nat}
    (found : (xs ++ [x])[k]? = some y) : xs[k]? = some y ∨ k = xs.length ∧ x = y := by
  rw [List.getElem?_append] at found
  split at found
  · exact .inl found
  · rename_i late
    obtain ⟨first, same⟩ := List.getElem?_eq_some_iff.mp found
    have last : k - xs.length = 0 := Nat.lt_one_iff.mp first
    refine .inr ⟨Nat.le_antisymm (Nat.le_of_sub_eq_zero last) (Nat.le_of_not_lt late), ?_⟩
    simpa using same

theorem Regular.append {s : Setup} {here : Iface} {sent : List Sending} {y : Sending}
    (h : Regular s here sent) (next : y.IsOwn s here (UInt16.ofNat (sent.length + 1)))
    (later : ∀ last ∈ sent.getLast?, Clock.later last.time (Engine.gap s) ≤ y.time) :
    Regular s here (sent ++ [y]) := by
  refine ⟨fun k z found => ?_, ?_⟩
  · rcases getElem?_append_singleton_cases found with before | ⟨rfl, rfl⟩
    · exact h.each k z before
    · exact next
  · refine List.isChain_append.mpr ⟨h.apart, List.isChain_singleton y, fun last mem z head => ?_⟩
    cases head
    exact later last mem

namespace Engine

variable {s : Setup} {e e' : Engine} {iface : IfaceId} {here : Iface} {now : Time} {t : Task}
  {scheduler : Scheduler} {sent : List Sending}

/-- Whether the beacons of an interface go on: those sent were regular, the next one waits alone,
and the counter goes on after it. -/
structure Beats (s : Setup) (iface : IfaceId) (here : Iface) (sent : List Sending) (e : Engine) :
    Prop where
  setup : e.setup = s
  regular : Regular s here sent
  line : ∃ due, (∀ y ∈ sent.getLast?, Clock.later y.time (gap s) ≤ due) ∧ e.line iface =
    ([{ due, own := true, out := some iface,
        beacon := ownBeacon s.config here (UInt16.ofNat (sent.length + 1)) }],
      some { next := UInt16.ofNat (sent.length + 2)
             lastSent := sent.getLast?.map fun y => y.task.beacon.seqno })

theorem Beats.congr (h : Beats s iface here sent e) (setup : e'.setup = e.setup)
    (line : e'.line iface = e.line iface) : Beats s iface here sent e' := by
  refine ⟨setup.trans h.setup, h.regular, ?_⟩
  rw [line]
  exact h.line

theorem perform_isOwn {seqno : Seqno} (own : t.ownIface?.isSome = true)
    (plain : t.direct = false ∧ t.oneWay = false)
    (beacon : t.beacon = ownBeacon e.setup.config here seqno) (fits : e.hosts.Fits)
    (work : e.perform t now = .ok e') :
    Sending.IsOwn ⟨now, t, e'.outbox.drop e.outbox.length⟩ e.setup here seqno := by
  refine ⟨beacon, ?_⟩
  obtain ⟨hosts, leaves, few⟩ := leaving_hosts e t
  refine ⟨hosts, ?_⟩
  show e'.outbox.drop e.outbox.length = _
  rw [perform_outbox work, List.drop_left, leaves, Task.targets_plain plain,
    Beacon.transmissions_eq (few own fits), List.map_map, beacon]
  rfl

theorem Beats.perform (h : Beats s iface here sent e) (known : s.ifaces[iface]? = some here)
    (popped : e.scheduler.pop? now = some (t, scheduler))
    (work : { e with scheduler }.perform t now = .ok e') (fits : e.hosts.Fits)
    (own : t.ownIface? = some iface) :
    Beats s iface here (sent ++ [⟨now, t, e'.outbox.drop e.outbox.length⟩]) e' := by
  obtain ⟨due, late, line⟩ := h.line
  have setup := h.setup
  subst setup
  obtain ⟨rfl, due', next, line'⟩ := perform_line known line popped work own
  obtain ⟨-, ripe⟩ := Scheduler.tasks_of_pop? popped
  have isOwn := perform_isOwn (e := { e with scheduler }) rfl ⟨rfl, rfl⟩ rfl fits work
  refine ⟨perform_setup (e := { e with scheduler }) work, h.regular.append isOwn ?_, due', ?_, ?_⟩
  · intro last mem
    exact Nat.le_trans (late last mem) ripe
  · intro last mem
    rw [List.getLast?_concat] at mem
    cases mem
    exact next.later_gap_le
  · have number : UInt16.ofNat (sent.length + 2) + 1 = UInt16.ofNat (sent.length + 3) :=
      (UInt16.ofNat_add _ 1).symm
    rw [line', List.getLast?_concat, List.length_append]
    dsimp only
    rw [number]
    rfl

theorem beats_invariant (known : s.ifaces[iface]? = some here) :
    SendingInvariant fun done e => Beats s iface here (sentFor iface done) e where
  same queue beats := beats.congr queue.setup (queue.line iface)
  relay relay beats := beats.congr rfl (line_enqueue (ownIface?_of_relay relay iface))
  perform {done e e' t scheduler now} popped work fits beats := by
    rw [sentFor_append]
    by_cases own : t.ownIface? = some iface
    · rw [if_pos own]
      exact beats.perform known popped work fits own
    · rw [if_neg own, List.append_nil]
      have setup : e'.setup = e.setup := perform_setup (e := { e with scheduler }) work
      exact beats.congr setup (perform_line_of_ne popped work own)

/-- Whether nothing waits for an interface, and nothing was sent for it. -/
structure Silent (s : Setup) (iface : IfaceId) (done : List Sending) (e : Engine) : Prop where
  setup : e.setup = s
  line : e.line iface = ([], some {})
  unsent : sentFor iface done = []

theorem silent_invariant (s : Setup) (iface : IfaceId) : SendingInvariant (Silent s iface) where
  same queue silent :=
    ⟨queue.setup.trans silent.setup, (queue.line iface).trans silent.line, silent.unsent⟩
  relay relay silent :=
    ⟨silent.setup, (line_enqueue (ownIface?_of_relay relay iface)).trans silent.line, silent.unsent⟩
  perform {done e e' t scheduler now} popped work _ silent := by
    have foreign : t.ownIface? ≠ some iface := by
      intro own
      have left := pop_waiting popped iface
      rw [(Prod.mk.inj silent.line).1, if_pos own] at left
      cases left
    have setup : e'.setup = e.setup := perform_setup (e := { e with scheduler }) work
    have kept : e'.line iface = e.line iface := perform_line_of_ne popped work foreign
    refine ⟨setup.trans silent.setup, kept.trans silent.line, ?_⟩
    rw [sentFor_append, silent.unsent, if_neg foreign]
    rfl

theorem silent_new (jitter : Jitter) (known : s.ifaces[iface]? = some here) :
    Silent s iface [] (.new s jitter) := by
  obtain ⟨inRange, -⟩ := List.getElem?_eq_some_iff.mp known
  refine ⟨rfl, Prod.ext rfl ?_, rfl⟩
  show (List.replicate s.ifaces.length ({} : Counter))[iface]? = some {}
  rw [List.getElem?_replicate, if_pos inRange]

theorem start_beats {done : List Sending} (known : s.ifaces[iface]? = some here)
    (silent : Silent s iface done e) (h : e.start now = .ok e') :
    Beats s iface here (sentFor iface done) e' := by
  obtain ⟨setup, line, unsent⟩ := silent
  subst setup
  obtain ⟨due, -, line⟩ := start_line known line h
  rw [unsent]
  exact ⟨(start_same h).setup, regular_nil _ _, due, nofun, line⟩

theorem History.beats {jitter : Jitter} {past : List Event}
    (h : History (.new s jitter) past e) (known : s.ifaces[iface]? = some here)
    (once : starts past ≤ 1) (up : ∀ x ∈ past, ∀ now, x.call ≠ .shutdown now) :
    (starts past = 0 → Silent s iface (allSendings past) e) ∧
      (starts past = 1 → Beats s iface here (sentFor iface (allSendings past)) e) := by
  induction h with
  | nil => exact ⟨fun _ => silent_new jitter known, nofun⟩
  | @call past e e' c r before made ih =>
    obtain ⟨stays, up⟩ := List.forall_mem_cons.mp up
    unfold starts at once ⊢
    rw [List.countP_cons] at once ⊢
    obtain ⟨silent, beats⟩ := ih (Nat.le_trans (Nat.le_add_right _ _) once) up
    rw [allSendings_cons]
    -- Before the start nothing waits, the start sets the beat, and no later call is a start.
    by_cases begins : ∃ now, c = .start now
    · obtain ⟨now, rfl⟩ := begins
      have first : starts past = 0 := Nat.le_zero.mp (Nat.le_of_succ_le_succ once)
      obtain ⟨started, work, answer⟩ := Fault.bind_ok made
      cases Fault.pure_ok answer
      refine ⟨fun none => absurd none (Nat.succ_ne_zero _), fun _ => ?_⟩
      have quiet : Event.sendings ⟨e, .start now, .done, e'⟩ = [] := rfl
      rw [quiet, List.append_nil]
      exact start_beats known (silent first) work
    · have goesOn : ∀ now, c ≠ .start now ∧ c ≠ .shutdown now :=
        fun now => ⟨fun same => begins ⟨now, same⟩, stays now⟩
      have more : c.isStart = false := by
        cases c with
        | start now => exact absurd ⟨now, rfl⟩ begins
        | _ => rfl
      rw [more]
      exact ⟨fun none => (silent_invariant s iface).step made goesOn before.fits (silent none),
        fun one => (beats_invariant known).step made goesOn before.fits (beats one)⟩

/-! ### The whole -/

theorem starts_eq {past : List Event} {cs : List Call} (calls : past.reverse.map Event.call = cs) :
    starts past = cs.countP Call.isStart := by
  rw [← calls, List.countP_map, List.countP_reverse]
  rfl

/-- The beacons of an interface are numbered without a gap, each leaves once on every interface, and
the next one waits. -/
theorem own_beacons_never_stop {s : Setup} {jitter : Jitter} {cs : List Call} {e : Engine}
    (h : (Engine.new s jitter).run cs = .ok e) (once : cs.countP Call.isStart = 1)
    (up : ∀ now, Call.shutdown now ∉ cs) :
    ∃ past, History (.new s jitter) past e ∧ past.reverse.map Event.call = cs ∧
      e.outbox.filterMap Action.beacon? =
        ((allSendings past).flatMap Sending.sent).filterMap Action.beacon? ∧
      (∀ y ∈ allSendings past, s.isMine y.task.beacon.orig = true →
        ∃ iface here, s.ifaces[iface]? = some here ∧ y.task.ownIface? = some iface) ∧
      ∀ iface here, s.ifaces[iface]? = some here →
        (∃ t c, e.waiting iface = [t] ∧ e.counters[iface]? = some c ∧
          c.next = t.beacon.seqno + 1 ∧
          ∀ last, c.lastSent = some last → t.beacon.seqno = last + 1) ∧
        (∀ k y, (sentFor iface (allSendings past))[k]? = some y →
          y.task.beacon = ownBeacon s.config here (UInt16.ofNat (k + 1)) ∧
          ∃ hosts, y.sent = s.ifaces.map fun there => .transmit there.id .broadcast
            (Wire.beaconBytes { ownBeacon s.config here (UInt16.ofNat (k + 1)) with hosts })) ∧
        (sentFor iface (allSendings past)).IsChain fun y y' =>
          y.time + (s.config.interval.toNat - s.config.jitter.toNat) ≤ Clock.last →
            y.time + (s.config.interval.toNat - s.config.jitter.toNat) ≤ y'.time := by
  obtain ⟨past, history, calls⟩ := run_iff_history.mp h
  refine ⟨past, history, calls, history.beacons, fun y mem mine => ?_, ?_⟩
  · exact (history.allSendings_stem y mem).task.ownIface? mine
  intro iface here known
  have begun : starts past = 1 := (starts_eq calls).trans once
  have stays : ∀ x ∈ past, ∀ now, x.call ≠ .shutdown now := by
    intro x mem now same
    apply up now
    rw [← calls, ← same]
    exact List.mem_map_of_mem (List.mem_reverse.mpr mem)
  obtain ⟨-, beats⟩ := history.beats known (Nat.le_of_eq begun) stays
  obtain ⟨-, regular, due, -, line⟩ := beats begun
  generalize sentFor iface (allSendings past) = sent at regular line ⊢
  obtain ⟨single, counted⟩ := Prod.mk.inj line
  refine ⟨⟨_, _, single, counted, ?_, ?_⟩, ?_, ?_⟩
  · exact UInt16.ofNat_add (sent.length + 1) 1
  · intro last departed
    obtain ⟨y, final, rfl⟩ := Option.map_eq_some_iff.mp departed
    rw [List.getLast?_eq_getElem?] at final
    obtain ⟨inRange, -⟩ := List.getElem?_eq_some_iff.mp final
    have last := (regular.each _ y final).beacon
    rw [Nat.sub_add_cancel (by omega)] at last
    rw [last]
    exact UInt16.ofNat_add sent.length 1
  · intro k y found
    obtain ⟨beacon, everywhere⟩ := regular.each k y found
    exact ⟨beacon, everywhere⟩
  · refine regular.apart.imp fun y y' later inTime => ?_
    have unsaturated : Clock.later y.time (gap s) = y.time + gap s := Clock.later_eq inTime
    rwa [unsaturated] at later

/-- The node goes on for three periods. -/
def goOn : List Call := Sample.calls ++ [.poll 2000, .poll 3000, .sweep 3001]

theorem own_beacons_never_stop_sample :
    ∃ e past, (Engine.new Sample.setup default).run goOn = .ok e ∧ e.lastSent? 1 = some 3 ∧
      History (.new Sample.setup default) past e ∧ past.reverse.map Event.call = goOn ∧
      (∃ t, e.waiting 1 = [t] ∧ t.beacon.seqno = 4) ∧
      ∀ k y, (sentFor 1 (allSendings past))[k]? = some y →
        y.task.beacon.seqno = UInt16.ofNat (k + 1) ∧ y.sent.length = 2 := by
  have reached : ∃ e, (Engine.new Sample.setup default).run goOn = .ok e ∧
      e.lastSent? 1 = some 3 := ⟨_, rfl, rfl⟩
  obtain ⟨e, run, sent⟩ := reached
  obtain ⟨past, history, calls, -, -, beats⟩ :=
    own_beacons_never_stop run (by decide) (by simp [goOn, Sample.calls])
  obtain ⟨⟨t, c, single, counted, -, follows⟩, numbered, -⟩ := beats 1 _ rfl
  refine ⟨e, past, run, sent, history, calls, ⟨t, single, ?_⟩, ?_⟩
  · have departed : c.lastSent = some 3 := by
      rw [lastSent?, counted] at sent
      exact sent
    rw [follows 3 departed]
    rfl
  · intro k y found
    obtain ⟨beacon, hosts, everywhere⟩ := numbered k y found
    rw [beacon, everywhere]
    exact ⟨rfl, rfl⟩

end Engine

end BeaconMesh
