import BeaconMesh.Proofs.Engine.Entries
import BeaconMesh.Proofs.Windows.Log

/-!
# Reception windows record what was received

`Records` says that the windows of an originator and of its links hold exactly the receptions of a
log. A reception keeps it, as do the changes of everything else, and `windows_record_receptions`
says it of every run.
-/

namespace BeaconMesh

namespace Originator

/-! ### What a reception does to the windows -/

theorem mem_ensureLink {o : Originator} {hop : Hop} {now : Time} {l : Link}
    (mem : l ∈ (o.ensureLink hop now).links) :
    l ∈ o.links ∨ (o.link? hop).isSome = false ∧ l = { hop, lastSeen := now } := by
  unfold ensureLink at mem
  split at mem
  · exact .inl mem
  · rename_i unknown
    rcases List.mem_append.mp mem with old | new
    · exact .inl old
    · refine .inr ⟨?_, List.mem_singleton.mp new⟩
      exact Bool.eq_false_iff.mpr fun known =>
        unknown (List.any_eq_true.mpr (List.find?_isSome.mp known))

/-- How the windows of an originator move with a reception. -/
structure Hears (o : Originator) (r : Reception) (o' : Originator) : Prop where
  newest : o'.newest = if r.late then o.newest else r.beacon.seqno
  received : o'.received = o.received.heard o r true
  links : ∀ l' ∈ o'.links, ∃ l ∈ (o.ensureLink r.hop r.now).links, l'.hop = l.hop ∧
    l'.window = l.window.heard o r (l.hop = r.hop) ∧
    (l.received = l.window.count → l'.received = l'.window.count)

variable {o o' : Originator} {r : Reception}

theorem mem_ensureLink_congr {hop : Hop} {now : Time} {l : Link}
    (mem : l ∈ (o'.ensureLink hop now).links) (same : o'.links = o.links) :
    l ∈ (o.ensureLink hop now).links := by
  unfold ensureLink at mem ⊢
  rw [same] at mem
  split at mem
  · rename_i known
    rw [if_pos known]
    rwa [same] at mem
  · rename_i unknown
    rwa [if_neg unknown]

theorem ensureLink_windows (o : Originator) (hop : Hop) (now : Time) :
    (o.ensureLink hop now).newest = o.newest ∧ (o.ensureLink hop now).received = o.received := by
  obtain ⟨_, ensured⟩ := o.ensureLink_frame hop now
  rw [ensured]
  exact ⟨rfl, rfl⟩

theorem hearLate_hears (late : r.late = true) {p : Nat}
    (place : p = (-Seqno.ahead r.beacon.seqno o.newest).toNat) :
    Hears o r (o.hearLate p r.hop r.now) := by
  obtain ⟨newest, received⟩ := ensureLink_windows
    { o with received := o.received.record p, lastSeen := r.now } r.hop r.now
  have moved : ∀ (w : Window) (here : Bool), w.heard o r here = if here then w.record p else w := by
    intro w here
    unfold Window.heard
    rw [if_pos late, place]
  refine ⟨?_, ?_, fun l' listed => ?_⟩
  · rw [if_pos late]
    exact newest
  · rw [moved]
    exact received
  · obtain ⟨l, mem, rfl⟩ := List.mem_map.mp listed
    refine ⟨l, mem_ensureLink_congr mem rfl, ?_⟩
    rw [moved]
    by_cases here : l.hop = r.hop
    · rw [if_pos here, if_pos (decide_eq_true here)]
      exact ⟨rfl, rfl, fun _ => rfl⟩
    · rw [if_neg here, if_neg (by simpa using here)]
      exact ⟨rfl, rfl, id⟩

theorem hearNewest_hears (inTime : r.late = false) :
    Hears o r (o.hearNewest r.beacon.seqno r.hop r.now) := by
  let offset := Seqno.ahead r.beacon.seqno o.newest
  obtain ⟨newest, received⟩ := ensureLink_windows
    { o with received := o.received.mark offset true, newest := r.beacon.seqno, lastSeen := r.now }
    r.hop r.now
  have moved : ∀ (w : Window) (here : Bool), w.heard o r here = w.mark offset here := by
    intro w here
    unfold Window.heard
    rw [if_neg (Bool.eq_false_iff.mp inTime)]
  refine ⟨?_, ?_, fun l' listed => ?_⟩
  · rw [if_neg (Bool.eq_false_iff.mp inTime)]
    exact newest
  · rw [moved]
    exact received
  · obtain ⟨_, touched, rfl⟩ := List.mem_map.mp listed
    obtain ⟨l, mem, rfl⟩ := List.mem_map.mp touched
    refine ⟨l, mem_ensureLink_congr mem rfl, ?_⟩
    rw [moved]
    split
    · exact ⟨rfl, rfl, fun _ => rfl⟩
    · exact ⟨rfl, rfl, fun _ => rfl⟩

theorem hear_hears (agrees : r.late = true ↔ ∃ p, o.arrival r.beacon.seqno = .late p) :
    Hears o r (o.hear r.beacon.seqno r.beacon.ttl r.hop r.now) := by
  unfold hear
  split
  · rename_i p arrival
    obtain ⟨-, -, -, place⟩ := arrival_late_iff.mp arrival
    exact hearLate_hears (agrees.mpr ⟨p, arrival⟩) place
  all_goals
    rename_i arrival
    have inTime : r.late = false := by
      refine Bool.eq_false_iff.mpr fun late => ?_
      obtain ⟨p, other⟩ := agrees.mp late
      cases arrival.symm.trans other
    have heard := hearNewest_hears (o := o) inTime
    exact ⟨heard.newest, heard.received, heard.links⟩

/-! ### What other changes do to the windows -/

/-- The windows of an originator and of the links that are left are as they were. -/
structure KeepsWindows (o o' : Originator) : Prop where
  newest : o'.newest = o.newest
  received : o'.received = o.received
  links : ∀ l' ∈ o'.links, ∃ l ∈ o.links,
    l'.hop = l.hop ∧ l'.window = l.window ∧ l'.received = l.received

theorem KeepsWindows.refl (o : Originator) : KeepsWindows o o :=
  ⟨rfl, rfl, fun l mem => ⟨l, mem, rfl, rfl, rfl⟩⟩

theorem KeepsWindows.trans {o₁ o₂ o₃ : Originator} (h : KeepsWindows o₁ o₂)
    (h' : KeepsWindows o₂ o₃) : KeepsWindows o₁ o₃ := by
  refine ⟨h'.newest.trans h.newest, h'.received.trans h.received, fun l₃ mem => ?_⟩
  obtain ⟨l₂, mem, hop', window', received'⟩ := h'.links l₃ mem
  obtain ⟨l₁, mem, hop, window, received⟩ := h.links l₂ mem
  exact ⟨l₁, mem, hop'.trans hop, window'.trans window, received'.trans received⟩

theorem KeepsWindows.congr (newest : o'.newest = o.newest) (received : o'.received = o.received)
    (links : o'.links = o.links) : KeepsWindows o o' :=
  ⟨newest, received, fun l mem => ⟨l, links ▸ mem, rfl, rfl, rfl⟩⟩

theorem Update.keepsWindows {s : Setup} (h : Update s o o') : KeepsWindows o o' := by
  cases h with
  | assess judged =>
    obtain ⟨_, _, rfl⟩ := assess_frame judged
    exact .congr rfl rfl rfl
  | @rank b hop =>
    obtain ⟨_, frame⟩ := o.ranked_frame b hop
    rw [frame]
    refine ⟨rfl, rfl, fun l' listed => ?_⟩
    obtain ⟨l, mem, rfl⟩ := List.mem_map.mp listed
    refine ⟨l, mem, ?_⟩
    split <;> exact ⟨rfl, rfl, rfl⟩
  | flood seqno =>
    obtain ⟨_, _, heard⟩ := o.hearFlood_frame seqno
    rw [heard]
    exact .congr rfl rfl rfl
  | _ => exact .congr rfl rfl rfl

theorem Decay.keepsWindows {s : Setup} (h : Decay s o o') : KeepsWindows o o' := by
  cases h with
  | prune now =>
    obtain ⟨_, frame⟩ := o.prune_frame now s.timeout
    rw [frame]
    exact ⟨rfl, rfl, fun l mem => ⟨l, (List.mem_filter.mp mem).1, rfl, rfl, rfl⟩⟩
  | _ => exact .congr rfl rfl rfl

end Originator

/-! ### Windows that record a log -/

/-- The windows of an originator hold the receptions of a log, and those of a link the ones that
came over it since it was made. -/
structure Records (log : Log) (since : Hop → Nat) (time : Nat) (o : Originator) : Prop where
  bounded : log.Bounded time
  anchored : log.Anchored o.newest
  received : log.Marks o.received fun _ => True
  links : ∀ l ∈ o.links, log.Marks l.window fun x => x.hop = l.hop ∧ since l.hop ≤ x.time
  counted : ∀ l ∈ o.links, l.received = l.window.count

namespace Records

variable {log : Log} {since since' : Hop → Nat} {time : Nat} {o o' : Originator} {r : Reception}

theorem blank (since : Hop → Nat) (time : Nat) (a : Addr) (ifaces : Nat) (now : Time) :
    Records {} since time (.new a ifaces now) where
  bounded := nofun
  anchored := nofun
  received := Log.Marks.empty nofun
  links := nofun
  counted := nofun

/-- A link has received nothing that the originator has not. -/
theorem within (h : Records log since time o) {l : Link} (mem : l ∈ o.links) {p : Nat}
    (held : l.window.has p = true) : o.received.has p = true := by
  by_cases near : p < Window.size
  · obtain ⟨x, listed, place, -⟩ := (h.links l mem p near).mp held
    exact (h.received p near).mpr ⟨x, listed, place, trivial⟩
  · rw [Window.has_of_le _ (Nat.le_of_not_lt near)] at held
    cases held

theorem links_empty (h : Records log since time o) (none : o.received.isEmpty = true) {l : Link}
    (mem : l ∈ o.links) : l.window = .empty := by
  have received : o.received = .empty := of_decide_eq_true none
  refine Window.ext_has fun p _ => ?_
  rw [Window.has_empty]
  refine Bool.eq_false_iff.mpr fun held => ?_
  have := h.within mem held
  rw [received, Window.has_empty] at this
  cases this

theorem keep (h : Records log since time o) (keeps : o.KeepsWindows o') :
    Records log since time o' := by
  refine ⟨h.bounded, keeps.newest ▸ h.anchored, keeps.received ▸ h.received, fun l' mem => ?_,
    fun l' mem => ?_⟩
  · obtain ⟨l, mem, hop, window, -⟩ := keeps.links l' mem
    rw [hop, window]
    exact h.links l mem
  · obtain ⟨l, mem, -, window, received⟩ := keeps.links l' mem
    rw [received, window]
    exact h.counted l mem

theorem later (h : Records log since time o)
    (same : ∀ l ∈ o.links, since' l.hop = since l.hop) : Records log since' (time + 1) o := by
  refine ⟨h.bounded.mono (Nat.le_succ time), h.anchored, h.received, fun l mem => ?_, h.counted⟩
  rw [same l mem]
  exact h.links l mem

theorem hear (h : Records log since time o)
    (agrees : r.late = true ↔ ∃ p, o.arrival r.beacon.seqno = .late p)
    (early : ∀ hop, since hop ≤ time)
    (same : ∀ hop, since' hop = if (o.link? hop).isSome then since hop else time) :
    Records (log.add o r time) since' (time + 1)
      (o.hear r.beacon.seqno r.beacon.ttl r.hop r.now) := by
  have hears := Originator.hear_hears agrees
  have grows := Log.add_grows agrees log time
  generalize log.add o r time = log' at grows ⊢
  generalize o.hear r.beacon.seqno r.beacon.ttl r.hop r.now = o' at hears ⊢
  -- A link that is new holds nothing, and nothing came over it since it was made.
  have before : ∀ l ∈ (o.ensureLink r.hop r.now).links,
      since' l.hop ≤ time ∧ (o.received.isEmpty = true → l.window = .empty) ∧
        l.received = l.window.count ∧
        log.Marks l.window fun x => x.hop = l.hop ∧ since' l.hop ≤ x.time := by
    intro l mem
    rcases Originator.mem_ensureLink mem with old | ⟨unknown, rfl⟩
    · have known : (o.link? l.hop).isSome = true :=
        List.find?_isSome.mpr ⟨l, old, decide_eq_true rfl⟩
      rw [same, if_pos known]
      exact ⟨early l.hop, fun none => h.links_empty none old, h.counted l old, h.links l old⟩
    · rw [same, if_neg (Bool.eq_false_iff.mp unknown)]
      have counted : 0 = Window.empty.count :=
        (Window.isEmpty_iff_count.mp (decide_eq_true rfl)).symm
      refine ⟨Nat.le_refl time, fun _ => rfl, counted, Log.Marks.empty ?_⟩
      rintro x listed ⟨-, recent⟩
      exact absurd (h.bounded x listed).1 (Nat.not_lt.mpr recent)
  refine ⟨grows.bounded h.bounded, ?_, ?_, fun l' mem => ?_, fun l' mem => ?_⟩
  · rw [hears.newest]
    exact h.anchored.grows grows
  · rw [hears.received]
    exact h.received.grows grows h.bounded of_decide_eq_true fun _ => iff_of_true rfl trivial
  · obtain ⟨l, mem, hop, window, -⟩ := hears.links l' mem
    obtain ⟨made, within, -, marks⟩ := before l mem
    rw [hop, window]
    refine marks.grows grows h.bounded within fun position => ?_
    rw [decide_eq_true_eq, and_iff_left made, eq_comm]
  · obtain ⟨l, mem, -, -, counted⟩ := hears.links l' mem
    exact counted (before l mem).2.2.1

end Records

/-! ### Histories -/

namespace Engine

theorem Updates.keepsWindows {e e' : Engine} (h : Updates e e') {a : Addr} {o' : Originator}
    (found : e'.origins.get? a = some o') :
    ∃ now, (e.origins.getOrNew a now).KeepsWindows o' := by
  induction h generalizing o' with
  | refl =>
    refine ⟨0, ?_⟩
    rw [Origins.getOrNew_of_get? found]
    exact .refl o'
  | @tail e₁ _ first last ih =>
    obtain ⟨now, change⟩ := last.entry found
    have kept := change.keepsWindows
    cases known : e₁.origins.get? a with
    | some o₁ =>
      obtain ⟨now₁, earlier⟩ := ih known
      rw [Origins.getOrNew_of_get? known] at kept
      exact ⟨now₁, earlier.trans kept⟩
    | none =>
      -- It became known by this update, so both sides are blank before it.
      have unknown : e.origins.get? a = none := by
        refine Option.not_isSome_iff_eq_none.mp fun present => ?_
        have := Updates.known first present
        rw [known] at this
        cases this
      have fresh : (e.origins.getOrNew a now).KeepsWindows (e₁.origins.getOrNew a now) := by
        unfold Origins.getOrNew
        rw [known, unknown]
        exact .congr rfl rfl rfl
      exact ⟨now, fresh.trans kept⟩

theorem Decays.keepsWindows {e e' : Engine} (h : Decays e e') {a : Addr} {o' : Originator}
    (found : e'.origins.get? a = some o') :
    ∃ o, e.origins.get? a = some o ∧ o.KeepsWindows o' := by
  induction h generalizing o' with
  | refl => exact ⟨o', found, .refl o'⟩
  | tail _ last ih =>
    obtain ⟨o₁, known, change⟩ := last.entry found
    obtain ⟨o, present, earlier⟩ := ih known
    exact ⟨o, present, earlier.trans change.keepsWindows⟩

theorem hasLink_getOrNew (e : Engine) (a : Addr) (now : Time) (hop : Hop) :
    ((e.origins.getOrNew a now).link? hop).isSome = e.hasLink a hop := by
  unfold hasLink Origins.getOrNew
  cases e.origins.get? a <;> rfl

/-- The windows of an originator before what follows a reception hold its log after it. -/
theorem records_heard {past : List Event} {x : Event} {a : Addr}
    (records : ∀ now, Records (receptionLog a past) (linkedSince a · past) past.length
      (x.before.origins.getOrNew a now))
    (late : ∀ r, x.reception? = some r → (r.late = true ↔
      ∃ p, (x.before.origins.getOrNew r.beacon.orig r.now).arrival r.beacon.seqno = .late p))
    (live : (x.after.origins.get? a).isNone = false) (now : Time) :
    Records (receptionLog a (x :: past)) (linkedSince a · (x :: past)) (past.length + 1)
      ((x.before.heard x.reception?).origins.getOrNew a now) := by
  have since : ∀ hop now', linkedSince a hop (x :: past) =
      if ((x.before.origins.getOrNew a now').link? hop).isSome then linkedSince a hop past
      else past.length := by
    intro hop now'
    rw [hasLink_getOrNew]
    rfl
  have quiet : ∀ now', Records (receptionLog a past) (linkedSince a · (x :: past)) (past.length + 1)
      (x.before.origins.getOrNew a now') := by
    intro now'
    refine (records now').later fun l mem => ?_
    have known : ((x.before.origins.getOrNew a now').link? l.hop).isSome = true :=
      List.find?_isSome.mpr ⟨l, mem, decide_eq_true rfl⟩
    rw [since l.hop now', if_pos known]
  unfold receptionLog
  rw [live, if_neg nofun]
  cases made : x.reception? with
  | none => exact quiet now
  | some r =>
    dsimp only
    split
    · rename_i same
      have heard : (x.before.heard (some r)).origins.getOrNew a now =
          (x.before.origins.getOrNew a r.now).hear r.beacon.seqno r.beacon.ttl r.hop r.now := by
        refine Origins.getOrNew_of_get? ?_ now
        refine (Origins.get?_upsert _ _ _ _ _).trans ?_
        rw [if_pos same, same]
      rw [heard]
      exact (records r.now).hear (same ▸ late r made) (fun hop => linkedSince_le a hop past)
        fun hop => since hop r.now
    · rename_i other
      have unheard : (x.before.heard (some r)).origins.getOrNew a now =
          x.before.origins.getOrNew a now := by
        have kept : (x.before.heard (some r)).origins.get? a = x.before.origins.get? a :=
          (Origins.get?_upsert _ _ _ _ _).trans (if_neg other)
        unfold Origins.getOrNew
        rw [kept]
        rfl
      rw [unheard]
      exact quiet now

theorem History.records {s : Setup} {jitter : Jitter} {past : List Event} {e : Engine}
    (h : History (.new s jitter) past e) (a : Addr) (now : Time) :
    Records (receptionLog a past) (linkedSince a · past) past.length
      (e.origins.getOrNew a now) := by
  induction h generalizing now with
  | nil => exact .blank _ _ a _ now
  | @call past e e' c r earlier made ih =>
    obtain ⟨-, late, settled, updates, decays⟩ := step_stages made
    cases found : e'.origins.get? a with
    | none =>
      have gone : (e'.origins.get? a).isNone = true := Option.isNone_iff_eq_none.mpr found
      unfold receptionLog Origins.getOrNew
      rw [if_pos gone, found]
      exact .blank _ _ a _ now
    | some o' =>
      obtain ⟨o₁, known, decayed⟩ := decays.keepsWindows found
      obtain ⟨now', updated⟩ := updates.keepsWindows known
      rw [Origins.getOrNew_of_get? found]
      have live : (e'.origins.get? a).isNone = false := by
        rw [found]
        rfl
      exact (records_heard (x := ⟨e, c, r, e'⟩) ih late live now').keep (updated.trans decayed)

/-- The windows hold exactly the receptions less than a window behind the newest, and a place means
the same number in all of them. -/
theorem windows_record_receptions {s : Setup} {jitter : Jitter} {cs : List Call} {e : Engine}
    (h : (Engine.new s jitter).run cs = .ok e) :
    ∃ past, History (.new s jitter) past e ∧ past.reverse.map Event.call = cs ∧
      ∀ a o, e.origins.get? a = some o →
        (∀ p < Window.size, o.received.has p = true ↔
          ∃ r ∈ (receptionLog a past).receptions, r.position = (receptionLog a past).newest - p) ∧
        (∀ l ∈ o.links, ∀ p < Window.size, l.window.has p = true ↔
          ∃ r ∈ (receptionLog a past).receptions, r.position = (receptionLog a past).newest - p ∧
            r.hop = l.hop ∧ linkedSince a l.hop past ≤ r.time) ∧
        (∀ l ∈ o.links, ∀ p, l.window.has p = true → o.received.has p = true) ∧
        (∀ r ∈ (receptionLog a past).receptions, ∀ p < Window.size,
          r.position = (receptionLog a past).newest - p →
            Seqno.behind o.newest r.beacon.seqno = p) ∧
        ∀ l ∈ o.links, l.received = l.window.count := by
  obtain ⟨past, history, calls⟩ := run_iff_history.mp h
  refine ⟨past, history, calls, fun a o known => ?_⟩
  have records := history.records a 0
  rw [Origins.getOrNew_of_get? known] at records
  refine ⟨fun p near => ?_, records.links, fun l mem p held => records.within mem held,
    fun r mem p near place => records.anchored.behind mem near place, records.counted⟩
  rw [records.received p near]
  simp only [and_true]

theorem windows_record_receptions_sample :
    ∃ e o past, (Engine.new Sample.setup default).run Sample.calls = .ok e ∧
      e.origins.get? Sample.far = some o ∧
      o.received.bits = 0b111#64 ∧ (o.links.map fun l => l.window.bits) = [0b100#64, 0b011#64] ∧
      History (.new Sample.setup default) past e ∧ past.reverse.map Event.call = Sample.calls ∧
      (∀ p < Window.size, o.received.has p = true ↔
        ∃ r ∈ (receptionLog Sample.far past).receptions,
          r.position = (receptionLog Sample.far past).newest - p) ∧
      (∀ l ∈ o.links, ∀ p < Window.size, l.window.has p = true ↔
        ∃ r ∈ (receptionLog Sample.far past).receptions,
          r.position = (receptionLog Sample.far past).newest - p ∧
            r.hop = l.hop ∧ linkedSince Sample.far l.hop past ≤ r.time) ∧
      (∀ l ∈ o.links, ∀ p, l.window.has p = true → o.received.has p = true) ∧
      (∀ r ∈ (receptionLog Sample.far past).receptions, ∀ p < Window.size,
        r.position = (receptionLog Sample.far past).newest - p →
          Seqno.behind o.newest r.beacon.seqno = p) ∧
      ∀ l ∈ o.links, l.received = l.window.count := by
  have reached : ∃ e o, (Engine.new Sample.setup default).run Sample.calls = .ok e ∧
      e.origins.get? Sample.far = some o ∧ o.received.bits = 0b111#64 ∧
      (o.links.map fun l => l.window.bits) = [0b100#64, 0b011#64] :=
    ⟨_, _, rfl, rfl, rfl, rfl⟩
  obtain ⟨e, o, run, known, received, links⟩ := reached
  obtain ⟨past, history, calls, records⟩ := windows_record_receptions run
  exact ⟨e, o, past, run, known, received, links, history, calls, records Sample.far o known⟩

end Engine

end BeaconMesh
