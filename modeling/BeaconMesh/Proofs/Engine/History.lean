import BeaconMesh.Proofs.Engine.Entries

/-!
# Histories

A `History` is a run with the states it passed through, the last call first, so that a statement
can speak of what happened before. `run_iff_history` says that every run has one.
-/

namespace BeaconMesh

/-- A call that was made, with its answer and the states before and after it. -/
structure Event where
  before : Engine
  call : Call
  reply : Reply
  after : Engine

/-- The reception that a call made, if it made one. -/
def Event.reception? (x : Event) : Option Reception := received? x.call x.reply

namespace Engine

/-- The calls that led from one state to another, the last first. -/
inductive History (start : Engine) : List Event → Engine → Prop where
  | nil : History start [] start
  | call {past : List Event} {e e' : Engine} {c : Call} {r : Reply}
      (earlier : History start past e) (made : e.step c = .ok (e', r)) :
      History start ({ before := e, call := c, reply := r, after := e' } :: past) e'

theorem run_of_history {start e : Engine} {past : List Event} (h : History start past e) :
    start.run (past.reverse.map Event.call) = .ok e := by
  induction h with
  | nil => rfl
  | @call past e e' c r earlier made ih =>
    have last : e.run [c] = .ok e' := by
      unfold run
      rw [made]
      rfl
    rw [List.reverse_cons, List.map_append, run_append, ih]
    exact last

theorem History.extend {start e e' : Engine} {past : List Event} {cs : List Call}
    (h : History start past e) (later : e.run cs = .ok e') :
    ∃ past', History start past' e' ∧
      past'.reverse.map Event.call = past.reverse.map Event.call ++ cs := by
  induction cs generalizing e past with
  | nil =>
    cases later
    exact ⟨past, h, (List.append_nil _).symm⟩
  | cons c cs ih =>
    obtain ⟨⟨next, r⟩, made, later⟩ := Fault.bind_ok later
    obtain ⟨past', history, calls⟩ := ih (h.call made) later
    refine ⟨past', history, ?_⟩
    rw [calls, List.reverse_cons, List.map_append, List.append_assoc]
    rfl

theorem History.last {start e : Engine} {past : List Event} {x : Event}
    (h : History start (x :: past) e) : History start past x.before ∧ e = x.after := by
  cases h with
  | call before _ => exact ⟨before, rfl⟩

theorem History.ends {start e : Engine} {past : List Event} {cs : List Call} {c : Call}
    (h : History start past e) (calls : past.reverse.map Event.call = cs ++ [c]) :
    ∃ x earlier, past = x :: earlier ∧ x.call = c ∧ x.after = e ∧
      History start earlier x.before ∧ earlier.reverse.map Event.call = cs := by
  cases past with
  | nil => simp at calls
  | cons x earlier =>
    rw [List.reverse_cons, List.map_append] at calls
    obtain ⟨before, last⟩ := List.append_inj' calls rfl
    obtain ⟨history, after⟩ := h.last
    exact ⟨x, earlier, rfl, List.singleton_inj.mp last, after.symm, history, before⟩

theorem History.cut {start e : Engine} {later earlier : List Event} {x : Event}
    (h : History start (later ++ x :: earlier) e) :
    History start earlier x.before ∧ x.before.step x.call = .ok (x.after, x.reply) := by
  induction later generalizing e with
  | nil =>
    cases h with
    | call before made => exact ⟨before, made⟩
  | cons y later ih =>
    cases h with
    | call before _ => exact ih before

theorem History.cut_of_mem {start e : Engine} {past : List Event} {x : Event}
    (h : History start past e) (mem : x ∈ past) :
    ∃ earlier, History start earlier x.before ∧ x.before.step x.call = .ok (x.after, x.reply) := by
  obtain ⟨later, earlier, split⟩ := List.append_of_mem mem
  subst split
  exact ⟨earlier, h.cut⟩

theorem run_of_step {P : Engine → Prop}
    (step : ∀ {e e' : Engine} {c : Call} {r : Reply}, e.step c = .ok (e', r) → P e → P e')
    {e e' : Engine} {cs : List Call} (h : e.run cs = .ok e') (holds : P e) : P e' := by
  induction cs generalizing e with
  | nil =>
    cases h
    exact holds
  | cons c cs ih =>
    obtain ⟨⟨next, r⟩, first, h⟩ := Fault.bind_ok h
    exact ih h (step first holds)

theorem setup_invariant (s : Setup) : Invariant fun e => e.setup = s :=
  ⟨fun _ _ kept => kept, fun move kept => move.setup.trans kept,
    fun move kept => move.setup.trans kept⟩

theorem History.setup {s : Setup} {jitter : Jitter} {past : List Event} {e : Engine}
    (h : History (.new s jitter) past e) : e.setup = s :=
  (setup_invariant s).run (run_of_history h) rfl

theorem run_iff_history {start e : Engine} {cs : List Call} :
    start.run cs = .ok e ↔ ∃ past, History start past e ∧ past.reverse.map Event.call = cs := by
  constructor
  · exact History.nil.extend
  · rintro ⟨past, history, rfl⟩
    exact run_of_history history

end Engine

/-! ### A run that reaches every table -/

theorem Config.isValid_default : ({} : Config).IsValid := by decide

namespace Sample

/-- A node with two interfaces and the default configuration. -/
def setup : Setup where
  config := {}
  ifaces := [⟨0, "mesh0", ⟨2, 0, 0, 0, 0, 1⟩⟩, ⟨1, "mesh1", ⟨2, 0, 0, 0, 1, 1⟩⟩]
  valid := Config.isValid_default
  nonempty := by decide
  numbered := by decide

/-- A neighbour. -/
def near : Addr := ⟨2, 0, 0, 0, 0, 2⟩

/-- A node behind the neighbour. -/
def far : Addr := ⟨2, 0, 0, 0, 0, 9⟩

/-- A host that the node behind the neighbour bridges. -/
def host : Addr := ⟨4, 0, 0, 0, 0, 7⟩

/-- A frame for the host, from a host on our bridge. -/
def greeting : Bytes := host.toBytes ++ [6, 0, 0, 0, 0, 1, 8, 0, 72, 105]

/-- A beacon that the node behind the neighbour sent. -/
def relayed (seqno : Seqno) (hosts : List Addr) : Beacon :=
  { ttl := 49, quality := 100, seqno, orig := far, prev := far, hosts }

/-- The neighbour echoes our beacon and sends its own. Then it relays three beacons over the two
interfaces, whose numbers wrap around and the last of which is late. -/
def calls : List Call :=
  [.start 0, .poll 1000,
    .beacon { flags := Beacon.directFlag, orig := setup.primary, seqno := 1 } near 0 1001,
    .beacon { ttl := 50, quality := 255, seqno := 7, orig := near } near 0 1002,
    .beacon (relayed 65535 [host]) near 0 1003, .beacon (relayed 1 [host]) near 1 1004,
    .beacon (relayed 0 []) near 1 1005]

end Sample

end BeaconMesh
