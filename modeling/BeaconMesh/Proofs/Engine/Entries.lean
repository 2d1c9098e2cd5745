import BeaconMesh.Proofs.Engine.Moves

/-!
# What a move does to an originator

A move of the tables changes each originator on its own: `Update.entry` and `Decay.entry` say how.
A property of single originators that `Originator.Update` and `Originator.Decay` keep thus holds
for all of them, by `EntryInvariant.each`.
-/

namespace BeaconMesh

namespace Originator

/-- A change of one originator by an update of the tables. -/
inductive Update (s : Setup) : Originator → Originator → Prop where
  | same (o : Originator) : Update s o o
  | echo (o : Originator) {iface offset : Nat} (here : iface < s.ifaces.length)
      (recent : offset < Window.size) : Update s o (o.recordEcho iface offset)
  | assess {o o' : Originator} {iface : IfaceId} {carried : UInt8} {estimate : Estimate}
      (judged : o.assess s.estimator iface carried = .ok (o', estimate)) : Update s o o'
  | rank (o : Originator) {b : Beacon} (hop : Hop) {estimate : Estimate} (usable : estimate.twoWay)
      (quality : b.quality = UInt8.ofNat estimate.quality)
      (judged : ∃ carried echoes received,
        s.estimator.estimate carried echoes received = .ok estimate) :
      Update s o (Engine.ranked o b hop).1
  | host (o : Originator) (hosts : AddrSet) : Update s o { o with hosts }
  | heed (o : Originator) (hosts : AddrSet) (hostBytes : Bytes) (gatewayClass : UInt8) :
      Update s o { o with hosts, hostBytes, gatewayClass }
  | age (o : Originator) (iface : IfaceId) : Update s o (o.ageEchoes iface)
  | flood (o : Originator) (seqno : Seqno) : Update s o (o.hearFlood seqno)

/-- A change of one originator by a sweep. -/
inductive Decay (s : Setup) : Originator → Originator → Prop where
  | same (o : Originator) : Decay s o o
  | prune (o : Originator) (now : Time) : Decay s o (o.prune now s.timeout).1
  | expire (o : Originator) (hosts : AddrSet) : Decay s o { o with hosts }

/-! ### Links -/

theorem link?_of_map {o o' : Originator} {f : Link → Link} (keeps : ∀ l, (f l).hop = l.hop)
    (links : o'.links = o.links.map f) (hop : Hop) : o'.link? hop = (o.link? hop).map f := by
  unfold link?
  rw [links, List.find?_map]
  have same : (fun l : Link => decide (l.hop = hop)) ∘ f = fun l => decide (l.hop = hop) := by
    funext l
    rw [Function.comp, keeps]
  rw [same]

theorem hop_of_link? {o : Originator} {hop : Hop} {l : Link} (h : o.link? hop = some l) :
    l.hop = hop := by
  have matched := List.find?_some h
  exact of_decide_eq_true matched

/-! ### What a change leaves alone -/

theorem ensureLink_frame (o : Originator) (hop : Hop) (now : Time) :
    ∃ links, o.ensureLink hop now = { o with links } := by
  unfold ensureLink
  split
  · exact ⟨o.links, rfl⟩
  · exact ⟨_, rfl⟩

theorem hear_frame (o : Originator) (seqno : Seqno) (ttl : UInt8) (hop : Hop) (now : Time) :
    ∃ received newest lastSeen links lastTtl,
      o.hear seqno ttl hop now = { o with received, newest, lastSeen, links, lastTtl } := by
  unfold hear hearLate hearNewest
  dsimp only
  split
  all_goals
    obtain ⟨links, ensured⟩ := ensureLink_frame _ hop now
    rw [ensured]
    exact ⟨_, _, _, _, _, rfl⟩

theorem hearFlood_frame (o : Originator) (seqno : Seqno) :
    ∃ flooded newestFlood, o.hearFlood seqno = { o with flooded, newestFlood } := by
  unfold hearFlood
  dsimp only
  split <;> exact ⟨_, _, rfl⟩

theorem assess_frame {o o' : Originator} {est : Estimator} {iface : IfaceId} {carried : UInt8}
    {x : Estimate} (h : o.assess est iface carried = .ok (o', x)) :
    ∃ linkQuality symmetry, o' = { o with linkQuality, symmetry } := by
  obtain ⟨_, _, h⟩ := Fault.bind_ok h
  cases Fault.pure_ok h
  exact ⟨_, _, rfl⟩

theorem reselect_frame (o : Originator) (previous : Option Hop) :
    ∃ route, (o.reselect previous).1 = { o with route } := by
  unfold reselect install
  split
  · exact ⟨o.route, rfl⟩
  · dsimp only
    split
    · split
      · exact ⟨_, rfl⟩
      · exact ⟨o.route, rfl⟩
    · exact ⟨_, rfl⟩

theorem ranked_frame (o : Originator) (b : Beacon) (hop : Hop) :
    ∃ route, (Engine.ranked o b hop).1 =
      { o.modifyLink hop fun l => { l with lastTtl := b.ttl }.addSample b.quality with
        lastRanked := b.seqno, route } :=
  reselect_frame _ _

theorem prune_frame (o : Originator) (now timeout : Time) :
    ∃ route, (o.prune now timeout).1 =
      { o with links := o.links.filter fun l => ! l.isStale now timeout, route } := by
  unfold prune
  split
  · exact reselect_frame _ _
  · exact ⟨_, rfl⟩

end Originator

/-! ### Host sets -/

namespace Origins

/-- The two tables know the same nodes, and differ in their host sets at most. -/
def SameButHosts (t t' : Origins) : Prop :=
  t'.ifaces = t.ifaces ∧
    ∀ a, ∃ hosts : Originator → AddrSet,
      t'.get? a = (t.get? a).map fun o => { o with hosts := hosts o }

theorem SameButHosts.refl (t : Origins) : SameButHosts t t :=
  ⟨rfl, fun a => ⟨Originator.hosts, by simp⟩⟩

theorem SameButHosts.trans {t₁ t₂ t₃ : Origins} (h : SameButHosts t₁ t₂)
    (h' : SameButHosts t₂ t₃) : SameButHosts t₁ t₃ := by
  refine ⟨h'.1.trans h.1, fun a => ?_⟩
  obtain ⟨hosts, first⟩ := h.2 a
  obtain ⟨hosts', second⟩ := h'.2 a
  refine ⟨fun o => hosts' { o with hosts := hosts o }, ?_⟩
  rw [second, first, Option.map_map]
  rfl

theorem sameButHosts_modify (t : Origins) (a : Addr) (hosts : Originator → AddrSet) :
    SameButHosts t (t.modify a fun o => { o with hosts := hosts o }) := by
  refine ⟨rfl, fun b => ?_⟩
  rw [get?_modify]
  split
  · exact ⟨hosts, rfl⟩
  · exact ⟨Originator.hosts, by simp⟩

end Origins

namespace HostTable

theorem announce_sameButHosts (orig : Addr) (now : Time) (tables : HostTable × Origins)
    (host : Addr) : Origins.SameButHosts tables.2 (announce orig now tables host).2 := by
  unfold announce
  dsimp only
  split
  · split
    · exact .refl _
    · exact Origins.sameButHosts_modify _ _ _
  · exact .refl _

theorem foldl_announce_sameButHosts (orig : Addr) (now : Time) (hosts : List Addr)
    (tables : HostTable × Origins) :
    Origins.SameButHosts tables.2 (hosts.foldl (announce orig now) tables).2 := by
  induction hosts generalizing tables with
  | nil => exact .refl _
  | cons host rest ih => exact (announce_sameButHosts orig now tables host).trans (ih _)

theorem applyRemote_sameButHosts (t : HostTable) (origins : Origins) (orig : Addr)
    (hosts : List Addr) (now : Time) :
    Origins.SameButHosts origins (t.applyRemote origins orig hosts now).2 := by
  unfold applyRemote
  split
  · exact .refl _
  · exact (foldl_announce_sameButHosts orig now _ _).trans (Origins.sameButHosts_modify _ _ _)

theorem forget_sameButHosts (tables : HostTable × Origins) (e : HostEntry) :
    Origins.SameButHosts tables.2 (forget tables e).2 := by
  unfold forget
  dsimp only
  split
  · exact Origins.sameButHosts_modify _ _ _
  · exact .refl _

theorem purge_sameButHosts (t : HostTable) (origins : Origins) (now age : Time) :
    Origins.SameButHosts origins (t.purge origins now age).2 :=
  List.foldlRecOn
    (motive := fun tables : HostTable × Origins => Origins.SameButHosts origins tables.2) _ _
    (.refl _) fun tables same x _ => same.trans (forget_sameButHosts tables x)

end HostTable

/-! ### Moves, entry by entry -/

namespace Origins

theorem getOrNew_of_get? {t : Origins} {a : Addr} {o : Originator} (h : t.get? a = some o)
    (now : Time) : t.getOrNew a now = o := by
  rw [getOrNew, h, Option.getD_some]

theorem SameButHosts.entry {t t' : Origins} (h : SameButHosts t t') {a : Addr} {o' : Originator}
    (found : t'.get? a = some o') :
    ∃ o hosts, t.get? a = some o ∧ o' = { o with hosts } := by
  obtain ⟨hosts, same⟩ := h.2 a
  rw [same] at found
  obtain ⟨o, known, rfl⟩ := Option.map_eq_some_iff.mp found
  exact ⟨o, hosts o, known, rfl⟩

theorem SameButHosts.known {t t' : Origins} (h : SameButHosts t t') (a : Addr) :
    (t'.get? a).isSome = (t.get? a).isSome := by
  obtain ⟨hosts, same⟩ := h.2 a
  rw [same, Option.isSome_map]

/-! ### One field of every originator -/

variable {β : Type} {g : Originator → β} {blank : β}

/-- One field of what is known of a node, or its blank if the node is not known. -/
def field (t : Origins) (g : Originator → β) (blank : β) (a : Addr) : β := (t.get? a).elim blank g

theorem field_of_get? {t : Origins} {a : Addr} {o : Originator} (h : t.get? a = some o) :
    t.field g blank a = g o := by
  rw [field, h, Option.elim_some]

theorem field_of_none {t : Origins} {a : Addr} (h : t.get? a = none) :
    t.field g blank a = blank := by
  rw [field, h, Option.elim_none]

theorem field_getOrNew {t : Origins} {a : Addr} {now : Time}
    (new : g (.new a t.ifaces now) = blank) : g (t.getOrNew a now) = t.field g blank a := by
  unfold getOrNew field
  cases t.get? a with
  | none => exact new
  | some o => rfl

theorem field_insert (t : Origins) (a d : Addr) (o : Originator) :
    (t.insert a o).field g blank d = if a = d then g o else t.field g blank d := by
  unfold field
  rw [get?_insert]
  split <;> rfl

theorem field_insert_same {t : Origins} {a : Addr} {o : Originator}
    (same : g o = t.field g blank a) (d : Addr) :
    (t.insert a o).field g blank d = t.field g blank d := by
  rw [field_insert]
  split
  · rename_i here
    rw [same, here]
  · rfl

theorem field_upsert {t : Origins} {f : Originator → Originator} {a : Addr} {now : Time}
    (new : g (.new a t.ifaces now) = blank) (keeps : ∀ o, g (f o) = g o) (d : Addr) :
    (t.upsert a now f).field g blank d = t.field g blank d :=
  field_insert_same ((keeps _).trans (field_getOrNew new)) d

theorem field_map {t : Origins} {f : Originator → Originator}
    (keeps : ∀ {a o}, t.get? a = some o → g (f o) = g o) (d : Addr) :
    (t.map f).field g blank d = t.field g blank d := by
  unfold field
  rw [get?_map]
  cases known : t.get? d with
  | none => rfl
  | some o => exact keeps known

theorem field_modify {t : Origins} {a : Addr} {f : Originator → Originator}
    (keeps : ∀ o, g (f o) = g o) (d : Addr) :
    (t.modify a f).field g blank d = t.field g blank d := by
  unfold field
  rw [get?_modify]
  split
  · cases t.get? d with
    | none => rfl
    | some o => exact keeps o
  · rfl

theorem field_erase (t : Origins) (a d : Addr) :
    (t.erase a).field g blank d = if a = d then blank else t.field g blank d := by
  unfold field
  rw [get?_erase]
  split <;> rfl

theorem SameButHosts.field {t t' : Origins} (h : SameButHosts t t')
    (keeps : ∀ (o : Originator) (hosts : AddrSet), g { o with hosts } = g o) (d : Addr) :
    t'.field g blank d = t.field g blank d := by
  obtain ⟨hosts, same⟩ := h.2 d
  unfold Origins.field
  rw [same]
  cases t.get? d with
  | none => rfl
  | some o => exact keeps o (hosts o)

end Origins

namespace Engine

theorem Update.setup {e e' : Engine} (h : Update e e') : e'.setup = e.setup := by
  cases h with
  | quiet same => exact same.setup
  | assess _ judged => exact assess_setup judged
  | rank => exact rank_setup _ _ _
  | _ => rfl

theorem forget_setup (e : Engine) (a : Addr) (now : Time) : (e.forget now a).setup = e.setup := by
  unfold forget
  split <;> rfl

theorem chooseGateway_tables (e : Engine) (now : Time) :
    (e.chooseGateway now).setup = e.setup ∧ (e.chooseGateway now).origins = e.origins ∧
      (e.chooseGateway now).hosts = e.hosts ∧ (e.chooseGateway now).notices = e.notices := by
  unfold chooseGateway
  dsimp only
  split <;> exact ⟨rfl, rfl, rfl, rfl⟩

theorem Decay.setup {e e' : Engine} (h : Decay e e') : e'.setup = e.setup := by
  cases h with
  | quiet same => exact same.setup
  | forget a now => exact forget_setup e a now
  | gateway now => exact (chooseGateway_tables e now).1
  | _ => rfl

theorem Update.ifaces {e e' : Engine} (h : Update e e') :
    e'.origins.ifaces = e.origins.ifaces := by
  cases h with
  | quiet same => rw [same.origins]
  | assess _ judged =>
    obtain ⟨_, _, judged⟩ := Fault.bind_ok judged
    cases Fault.pure_ok judged
    rfl
  | rank =>
    unfold Engine.rank
    split <;> rfl
  | heed => exact (HostTable.applyRemote_sameButHosts _ _ _ _ _).1
  | _ => rfl

theorem Decay.ifaces {e e' : Engine} (h : Decay e e') :
    e'.origins.ifaces = e.origins.ifaces := by
  cases h with
  | quiet same => rw [same.origins]
  | forget a now =>
    unfold Engine.forget
    split <;> rfl
  | prune => rfl
  | expire => exact (HostTable.purge_sameButHosts _ _ _ _).1
  | gateway now => rw [(chooseGateway_tables e now).2.1]

theorem Update.known {e e' : Engine} (h : Update e e') {a : Addr}
    (known : (e.origins.get? a).isSome = true) : (e'.origins.get? a).isSome = true := by
  have inserted : ∀ (b : Addr) (o : Originator),
      ((e.origins.insert b o).get? a).isSome = true := by
    intro b o
    rw [Origins.get?_insert]
    split
    · rfl
    · exact known
  cases h with
  | quiet same => rwa [same.origins]
  | echo => exact inserted _ _
  | assess _ judged =>
    obtain ⟨_, _, judged⟩ := Fault.bind_ok judged
    cases Fault.pure_ok judged
    exact inserted _ _
  | rank =>
    unfold Engine.rank
    split
    · exact inserted _ _
    · exact known
  | @heed b now =>
    have hosts := HostTable.applyRemote_sameButHosts e.hosts e.origins b.orig b.hosts now
    unfold Engine.heed
    dsimp only
    rw [Origins.get?_modify]
    split
    · rw [Option.isSome_map, hosts.known, known]
    · rw [hosts.known, known]
  | learn => exact known
  | depart b iface =>
    change ((e.origins.map fun o => o.ageEchoes iface).get? a).isSome = true
    rw [Origins.get?_map, Option.isSome_map, known]
  | flood => exact inserted _ _

theorem Updates.known {e e' : Engine} (h : Updates e e') {a : Addr}
    (known : (e.origins.get? a).isSome = true) : (e'.origins.get? a).isSome = true := by
  induction h with
  | refl => exact known
  | tail _ last ih => exact last.known ih

theorem Update.entry {e e' : Engine} (h : Update e e') {a : Addr} {o' : Originator}
    (found : e'.origins.get? a = some o') :
    ∃ now, Originator.Update e.setup (e.origins.getOrNew a now) o' := by
  have kept : e.origins.get? a = some o' →
      ∃ now, Originator.Update e.setup (e.origins.getOrNew a now) o' := by
    intro known
    refine ⟨0, ?_⟩
    rw [Origins.getOrNew_of_get? known]
    exact .same o'
  cases h with
  | quiet same => exact kept (same.origins ▸ found)
  | echo now peer here recent =>
    rw [Origins.get?_upsert] at found
    split at found
    · rename_i same
      cases found
      exact ⟨now, same ▸ .echo _ here recent⟩
    · exact kept found
  | @assess _ b hop now estimate peer judged =>
    obtain ⟨⟨neighbour, _⟩, counted, judged⟩ := Fault.bind_ok judged
    cases Fault.pure_ok judged
    rw [Origins.get?_insert] at found
    split at found
    · rename_i same
      cases found
      exact ⟨now, same ▸ .assess counted⟩
    · exact kept found
  | @rank b hop estimate usable quality judged =>
    unfold Engine.rank at found
    split at found
    · rename_i o known
      change (e.origins.insert b.orig (ranked o b hop).1).get? a = some o' at found
      rw [Origins.get?_insert] at found
      split at found
      · rename_i same
        cases found
        refine ⟨0, ?_⟩
        rw [← same, Origins.getOrNew_of_get? known]
        exact .rank o hop usable quality judged
      · exact kept found
    · exact kept found
  | @heed b now foreign =>
    have hosts := HostTable.applyRemote_sameButHosts e.hosts e.origins b.orig b.hosts now
    unfold Engine.heed at found
    dsimp only at found
    rw [Origins.get?_modify] at found
    refine ⟨0, ?_⟩
    split at found
    · obtain ⟨heard, present, rfl⟩ := Option.map_eq_some_iff.mp found
      obtain ⟨o, announced, known, rfl⟩ := hosts.entry present
      rw [Origins.getOrNew_of_get? known]
      exact .heed o announced _ _
    · obtain ⟨o, announced, known, rfl⟩ := hosts.entry found
      rw [Origins.getOrNew_of_get? known]
      exact .host o announced
  | learn => exact kept found
  | depart b iface =>
    change (e.origins.map fun o => o.ageEchoes iface).get? a = some o' at found
    rw [Origins.get?_map] at found
    obtain ⟨o, known, rfl⟩ := Option.map_eq_some_iff.mp found
    refine ⟨0, ?_⟩
    rw [Origins.getOrNew_of_get? known]
    exact .age o iface
  | @flood o f known =>
    rw [Origins.get?_insert] at found
    split at found
    · rename_i same
      cases found
      refine ⟨0, ?_⟩
      rw [← same, Origins.getOrNew_of_get? known]
      exact .flood o f.seqno
    · exact kept found

theorem Decay.entry {e e' : Engine} (h : Decay e e') {a : Addr} {o' : Originator}
    (found : e'.origins.get? a = some o') :
    ∃ o, e.origins.get? a = some o ∧ Originator.Decay e.setup o o' := by
  cases h with
  | quiet same => exact ⟨o', same.origins ▸ found, .same o'⟩
  | forget b now =>
    unfold Engine.forget at found
    split at found
    · change (e.origins.erase b).get? a = some o' at found
      rw [Origins.get?_erase] at found
      split at found
      · cases found
      · exact ⟨o', found, .same o'⟩
    · exact ⟨o', found, .same o'⟩
  | prune now =>
    change (e.origins.map fun o => (o.prune now e.setup.timeout).1).get? a = some o' at found
    rw [Origins.get?_map] at found
    obtain ⟨o, known, rfl⟩ := Option.map_eq_some_iff.mp found
    exact ⟨o, known, .prune o now⟩
  | expire now =>
    have hosts := HostTable.purge_sameButHosts e.hosts e.origins now e.setup.config.hostAge.toNat
    obtain ⟨o, left, known, rfl⟩ := hosts.entry found
    exact ⟨o, known, .expire o left⟩
  | gateway now =>
    rw [(chooseGateway_tables e now).2.1] at found
    exact ⟨o', found, .same o'⟩

/-- A property of an originator that holds of new ones and that every move keeps. -/
structure EntryInvariant (s : Setup) (Q : Addr → Originator → Prop) : Prop where
  new : ∀ (a : Addr) (now : Time), Q a (.new a s.ifaces.length now)
  hear : ∀ {a : Addr} {o : Originator} {b : Beacon} {hop : Hop} (now : Time), s.Admits b hop →
    Q a o → Q a (o.hear b.seqno b.ttl hop now)
  update : ∀ {a : Addr} {o o' : Originator}, Originator.Update s o o' → Q a o → Q a o'
  decay : ∀ {a : Addr} {o o' : Originator}, Originator.Decay s o o' → Q a o → Q a o'

namespace EntryInvariant

variable {s : Setup} {Q : Addr → Originator → Prop}

/-- The property holds of every originator. -/
structure Holds (s : Setup) (Q : Addr → Originator → Prop) (e : Engine) : Prop where
  setup : e.setup = s
  ifaces : e.origins.ifaces = s.ifaces.length
  each : ∀ {a : Addr} {o : Originator}, e.origins.get? a = some o → Q a o

theorem getOrNew (inv : EntryInvariant s Q) {e : Engine} (holds : Holds s Q e) (a : Addr)
    (now : Time) : Q a (e.origins.getOrNew a now) := by
  unfold Origins.getOrNew
  cases known : e.origins.get? a with
  | none =>
    rw [Option.getD_none, holds.ifaces]
    exact inv.new a now
  | some o => exact holds.each known

theorem invariant (inv : EntryInvariant s Q) : Invariant (Holds s Q) where
  hear {e b hop} now admitted holds := by
    refine ⟨holds.setup, holds.ifaces, fun {a o} found => ?_⟩
    change (e.origins.upsert b.orig now fun o => o.hear b.seqno b.ttl hop now).get? a = _ at found
    rw [Origins.get?_upsert] at found
    split at found
    · rename_i same
      cases found
      exact same ▸ inv.hear now (holds.setup ▸ admitted) (inv.getOrNew holds _ now)
    · exact holds.each found
  update {e e'} move holds := by
    refine ⟨move.setup.trans holds.setup, move.ifaces.trans holds.ifaces, fun {a o} found => ?_⟩
    obtain ⟨now, change⟩ := move.entry found
    rw [holds.setup] at change
    exact inv.update change (inv.getOrNew holds a now)
  decay {e e'} move holds := by
    refine ⟨move.setup.trans holds.setup, move.ifaces.trans holds.ifaces, fun {a o} found => ?_⟩
    obtain ⟨before, known, change⟩ := move.entry found
    rw [holds.setup] at change
    exact inv.decay change (holds.each known)

theorem run (inv : EntryInvariant s Q) {jitter : Jitter} {cs : List Call} {e : Engine}
    (h : (Engine.new s jitter).run cs = .ok e) : Holds s Q e :=
  inv.invariant.run h ⟨rfl, rfl, nofun⟩

end EntryInvariant

end Engine

end BeaconMesh
