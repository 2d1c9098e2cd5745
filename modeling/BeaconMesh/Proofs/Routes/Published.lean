import BeaconMesh.Proofs.Routes.Optimal

/-!
# Published routes

A table that follows the route changes of a node one by one has the routes of the node, and every
change is news to it. `RouteTable.Leads` says what the changes of one move are, and
`published_routes` is the result.
-/

namespace BeaconMesh

/-! ### Following changes -/

namespace RouteTable

/-- Whether each change of a list starts from what the table had that followed those before it, and
moves the route. -/
def Faithful (t : RouteTable) : List RouteChange → Prop
  | [] => True
  | c :: cs => (t.lookup c.dest = c.previous ∧ c.next ≠ c.previous) ∧ Faithful (t.follow c) cs

theorem followAll_append (t : RouteTable) (cs ds : List RouteChange) :
    t.followAll (cs ++ ds) = (t.followAll cs).followAll ds := List.foldl_append

theorem Faithful.append {t : RouteTable} {cs ds : List RouteChange} (h : t.Faithful cs)
    (h' : (t.followAll cs).Faithful ds) : t.Faithful (cs ++ ds) := by
  induction cs generalizing t with
  | nil => exact h'
  | cons c cs ih => exact ⟨h.1, ih h.2 h'⟩

theorem Faithful.at {t : RouteTable} {before after : List RouteChange} {c : RouteChange}
    (h : t.Faithful (before ++ c :: after)) :
    (t.followAll before).lookup c.dest = c.previous ∧ c.next ≠ c.previous := by
  induction before generalizing t with
  | nil => exact h.1
  | cons b before ih => exact ih h.2

/-- The changes that lead from the old routes to the new ones: at most one for each destination,
and none for a destination whose route stays. -/
structure Leads (cs : List RouteChange) (old new : Addr → Option Hop) : Prop where
  distinct : (cs.map RouteChange.dest).Nodup
  moved : ∀ c ∈ cs, old c.dest = c.previous ∧ new c.dest = c.next ∧ c.next ≠ c.previous
  kept : ∀ d, d ∉ cs.map RouteChange.dest → new d = old d

theorem Leads.followed {t : RouteTable} {cs : List RouteChange} {new : Addr → Option Hop}
    (h : Leads cs t.lookup new) : t.Faithful cs ∧ ∀ d, (t.followAll cs).lookup d = new d := by
  induction cs generalizing t with
  | nil => exact ⟨trivial, fun d => (h.kept d List.not_mem_nil).symm⟩
  | cons c cs ih =>
    obtain ⟨first, distinct⟩ := List.nodup_cons.mp h.distinct
    obtain ⟨start, goal, news⟩ := h.moved c List.mem_cons_self
    -- The destinations differ, so the first change leaves the start of the others alone.
    have rest : Leads cs (t.follow c).lookup new := by
      refine ⟨distinct, fun c' later => ?_, fun d absent => ?_⟩
      · have other : c.dest ≠ c'.dest := fun same =>
          first (same ▸ List.mem_map_of_mem (f := RouteChange.dest) later)
        rw [lookup_follow, if_neg other]
        exact h.moved c' (List.mem_cons_of_mem c later)
      · rw [lookup_follow]
        split
        · rename_i same
          rw [← same, goal]
        · rename_i other
          refine h.kept d fun present => ?_
          rcases List.mem_cons.mp present with same | later
          · exact other same.symm
          · exact absent later
    obtain ⟨faithful, reached⟩ := ih rest
    exact ⟨⟨⟨start, news⟩, faithful⟩, reached⟩

theorem leads_nil {old new : Addr → Option Hop} (h : ∀ d, new d = old d) : Leads [] old new where
  distinct := List.nodup_nil
  moved := nofun
  kept d _ := h d

/-- Two moves in a row, if no destination moves in both. -/
theorem Leads.append {cs ds : List RouteChange} {old mid new : Addr → Option Hop}
    (h : Leads cs old mid) (h' : Leads ds mid new) (once : ∀ d, mid d = old d ∨ new d = mid d) :
    Leads (cs ++ ds) old new := by
  have first : ∀ c ∈ cs, new c.dest = mid c.dest := by
    intro c mem
    obtain ⟨start, goal, news⟩ := h.moved c mem
    refine (once c.dest).resolve_left fun stays => news ?_
    rw [← start, ← goal, stays]
  have second : ∀ c ∈ ds, mid c.dest = old c.dest := by
    intro c mem
    obtain ⟨start, goal, news⟩ := h'.moved c mem
    refine (once c.dest).resolve_right fun stays => news ?_
    rw [← start, ← goal, stays]
  refine ⟨?_, fun c mem => ?_, fun d absent => ?_⟩
  · rw [List.map_append]
    refine List.nodup_append.mpr ⟨h.distinct, h'.distinct, ?_⟩
    rintro _ left _ right same
    obtain ⟨c, mem, rfl⟩ := List.mem_map.mp left
    obtain ⟨c', mem', rfl⟩ := List.mem_map.mp right
    obtain ⟨start, goal, news⟩ := h.moved c mem
    refine news ?_
    rw [← start, ← goal, same, second c' mem']
  · rcases List.mem_append.mp mem with left | right
    · obtain ⟨start, goal, news⟩ := h.moved c left
      exact ⟨start, (first c left).trans goal, news⟩
    · obtain ⟨start, goal, news⟩ := h'.moved c right
      exact ⟨(second c right).symm.trans start, goal, news⟩
  · rw [List.map_append, List.mem_append, not_or] at absent
    exact (h'.kept d absent.2).trans (h.kept d absent.1)

theorem leads_report {a : Addr} {old new : Addr → Option Hop} (h : ∀ d, a ≠ d → new d = old d) :
    Leads (Originator.routeReport a (old a) (new a)).toList old new := by
  unfold Originator.routeReport
  split
  · rename_i same
    refine leads_nil fun d => ?_
    by_cases here : a = d
    · rw [← here, same]
    · exact h d here
  · rename_i news
    refine ⟨List.pairwise_singleton _ _, ?_, fun d absent => h d fun same => ?_⟩
    · rintro c only
      cases List.mem_singleton.mp only
      exact ⟨rfl, rfl, news⟩
    · exact absent (List.mem_singleton.mpr same.symm)

end RouteTable

/-! ### The routes of a table -/

namespace Origins

/-- The next hop for a destination. -/
def hop? (t : Origins) : Addr → Option Hop := t.field Originator.route none

theorem hop?_eq (t : Origins) (d : Addr) : t.hop? d = (t.get? d).bind Originator.route := by
  unfold hop? field
  cases t.get? d <;> rfl

theorem hop?_of_get? {t : Origins} {a : Addr} {o : Originator} (h : t.get? a = some o) :
    t.hop? a = o.route := field_of_get? h

theorem hop?_insert (t : Origins) (a d : Addr) (o : Originator) :
    (t.insert a o).hop? d = if a = d then o.route else t.hop? d := field_insert t a d o

theorem hop?_erase (t : Origins) (a d : Addr) :
    (t.erase a).hop? d = if a = d then none else t.hop? d := field_erase t a d

theorem toList_addr {t : Origins} (keyed : ∀ {a o}, t.get? a = some o → o.addr = a) :
    (t.toList.map Originator.addr).Nodup ∧
      ∀ o, o ∈ t.toList ↔ t.get? o.addr = some o := by
  have addrs : t.toList.map Originator.addr = t.entries.keys := by
    refine List.map_map.trans (List.map_congr_left fun x hx => ?_)
    exact keyed (AddrMap.mem_toList_iff.mp hx)
  have strict : t.entries.keys.Pairwise (· < ·) := List.pairwise_map.mpr t.entries.ascending
  refine ⟨addrs ▸ strict.imp Addr.ne_of_lt, fun o => ⟨fun listed => ?_, fun known => ?_⟩⟩
  · obtain ⟨⟨a, _⟩, stored, rfl⟩ := List.mem_map.mp listed
    have known : t.get? a = some _ := AddrMap.mem_toList_iff.mp stored
    rwa [keyed known]
  · exact List.mem_map.mpr ⟨(o.addr, o), AddrMap.mem_toList_iff.mpr known, rfl⟩

end Origins

/-! ### The changes of a move -/

namespace Originator

theorem hear_route (o : Originator) (seqno : Seqno) (ttl : UInt8) (hop : Hop) (now : Time) :
    (o.hear seqno ttl hop now).route = o.route := by
  obtain ⟨_, _, _, _, _, heard⟩ := o.hear_frame seqno ttl hop now
  rw [heard]

theorem assess_route {o o' : Originator} {est : Estimator} {iface : IfaceId} {carried : UInt8}
    {x : Estimate} (h : o.assess est iface carried = .ok (o', x)) : o'.route = o.route := by
  obtain ⟨_, _, rfl⟩ := assess_frame h
  rfl

theorem hearFlood_route (o : Originator) (seqno : Seqno) : (o.hearFlood seqno).route = o.route := by
  obtain ⟨_, _, heard⟩ := o.hearFlood_frame seqno
  rw [heard]

end Originator

namespace Engine

open RouteTable (Leads leads_nil leads_report)

/-- Whether a move publishes the route changes that lead from the routes before to those after. -/
def Publishes (e e' : Engine) : Prop :=
  ∃ cs, e'.notices = e.notices ++ cs ∧ Leads cs e.origins.hop? e'.origins.hop?

theorem publishes_nothing {e e' : Engine} (notices : e'.notices = e.notices)
    (routes : ∀ d, e'.origins.hop? d = e.origins.hop? d) : Publishes e e' :=
  ⟨[], by rw [notices, List.append_nil], leads_nil routes⟩

theorem hear_publishes (e : Engine) (b : Beacon) (hop : Hop) (now : Time) :
    Publishes e (e.hear b hop now) :=
  publishes_nothing rfl (Origins.field_upsert rfl fun o => o.hear_route _ _ _ _)

theorem rank_publishes {s : Setup} {e : Engine} (sound : Sound s e) (b : Beacon) (hop : Hop) :
    Publishes e (e.rank b hop) := by
  unfold rank
  split
  · rename_i o known
    have key : o.addr = b.orig := (sound.each known).key
    refine ⟨(ranked o b hop).2.toList, rfl, ?_⟩
    change Leads _ _ (e.origins.insert b.orig (ranked o b hop).1).hop?
    have route := e.origins.hop?_insert b.orig b.orig (ranked o b hop).1
    rw [if_pos rfl] at route
    have report : (ranked o b hop).2 = Originator.routeReport b.orig (e.origins.hop? b.orig)
        ((e.origins.insert b.orig (ranked o b hop).1).hop? b.orig) := by
      rw [route, Origins.hop?_of_get? known, ← key, Originator.ranked_eq]
    rw [report]
    refine leads_report fun d other => ?_
    rw [Origins.hop?_insert, if_neg other]
  · exact publishes_nothing rfl fun _ => rfl

theorem forget_publishes {s : Setup} {e : Engine} (sound : Sound s e) (a : Addr) (now : Time) :
    Publishes e (e.forget now a) := by
  unfold forget
  split
  · rename_i o known
    have key : o.addr = a := (sound.each known).key
    refine ⟨o.removeRoute.2.toList, rfl, ?_⟩
    change Leads _ _ (e.origins.erase a).hop?
    have report : o.removeRoute.2 =
        Originator.routeReport a (e.origins.hop? a) ((e.origins.erase a).hop? a) := by
      rw [Origins.hop?_erase, if_pos rfl, Origins.hop?_of_get? known, ← key,
        Originator.removeRoute_report]
    rw [report]
    refine leads_report fun d other => ?_
    rw [Origins.hop?_erase, if_neg other]
  · exact publishes_nothing rfl fun _ => rfl

theorem pruneLinks_publishes {s : Setup} {e : Engine} (sound : Sound s e) (now : Time) :
    Publishes e (e.pruneLinks now) := by
  let pruned (o : Originator) := o.prune now e.setup.timeout
  obtain ⟨distinct, listed⟩ := Origins.toList_addr fun known => (sound.each known).key
  have report : ∀ o ∈ e.origins.toList,
      (pruned o).2 = Originator.routeReport o.addr o.route (pruned o).1.route := fun o mem =>
    Originator.prune_report now _ (sound.each ((listed o).mp mem)).routed
  have dest : ∀ o ∈ e.origins.toList, ∀ c, (pruned o).2 = some c → c.dest = o.addr := by
    intro o mem c reported
    rw [report o mem] at reported
    rw [(Originator.routeReport_eq_some reported).2]
  have hop : ∀ {d o}, e.origins.get? d = some o →
      (e.pruneLinks now).origins.hop? d = (pruned o).1.route := by
    intro d o known
    refine Origins.hop?_of_get? ((Origins.get?_map _ _ _).trans ?_)
    rw [known]
    rfl
  refine ⟨e.origins.toList.filterMap fun o => (pruned o).2, rfl, ?_, fun c reported => ?_,
    fun d absent => ?_⟩
  · refine List.pairwise_map.mpr (List.pairwise_filterMap.mpr ?_)
    refine (List.pairwise_map.mp distinct).imp_of_mem fun left right other => ?_
    intro c reported c' reported' same
    rw [dest _ left c reported, dest _ right c' reported'] at same
    exact other same
  · obtain ⟨o, mem, reported⟩ := List.mem_filterMap.mp reported
    have known := (listed o).mp mem
    rw [report o mem] at reported
    obtain ⟨news, rfl⟩ := Originator.routeReport_eq_some reported
    exact ⟨Origins.hop?_of_get? known, hop known, news⟩
  · cases known : e.origins.get? d with
    | none =>
      have gone : (e.pruneLinks now).origins.get? d = none := by
        refine (Origins.get?_map _ _ _).trans ?_
        rw [known]
        rfl
      exact (Origins.field_of_none gone).trans (Origins.field_of_none known).symm
    | some o =>
      have key : o.addr = d := (sound.each known).key
      have mem : o ∈ e.origins.toList := (listed o).mpr (key.symm ▸ known)
      rw [hop known, Origins.hop?_of_get? known]
      cases reported : (pruned o).2 with
      | none =>
        rw [report o mem] at reported
        exact Originator.routeReport_eq_none reported
      | some c =>
        refine absurd (List.mem_map.mpr ⟨c, List.mem_filterMap.mpr ⟨o, mem, reported⟩, ?_⟩) absent
        rw [dest o mem c reported, key]

theorem Update.publishes {s : Setup} {e e' : Engine} (h : Update e e') (sound : Sound s e) :
    Publishes e e' := by
  cases h with
  | quiet same => exact publishes_nothing same.notices fun _ => by rw [same.origins]
  | echo now =>
    exact publishes_nothing rfl (Origins.field_upsert rfl fun _ => rfl)
  | @assess _ b hop now _ _ judged =>
    obtain ⟨⟨neighbour, _⟩, counted, judged⟩ := Fault.bind_ok judged
    cases Fault.pure_ok judged
    exact publishes_nothing rfl (Origins.field_insert_same
      ((Originator.assess_route counted).trans (Origins.field_getOrNew rfl)))
  | @rank b hop => exact rank_publishes sound b hop
  | @heed b now =>
    have announced := HostTable.applyRemote_sameButHosts e.hosts e.origins b.orig b.hosts now
    refine publishes_nothing rfl fun d => ?_
    refine Eq.trans (Origins.field_modify ?_ d) (announced.field (fun _ _ => rfl) d)
    exact fun _ => rfl
  | learn => exact publishes_nothing rfl fun _ => rfl
  | depart => exact publishes_nothing rfl (Origins.field_map fun _ => rfl)
  | @flood o f known =>
    exact publishes_nothing rfl (Origins.field_insert_same
      ((o.hearFlood_route f.seqno).trans (Origins.hop?_of_get? known).symm))

theorem Decay.publishes {s : Setup} {e e' : Engine} (h : Decay e e') (sound : Sound s e) :
    Publishes e e' := by
  cases h with
  | quiet same => exact publishes_nothing same.notices fun _ => by rw [same.origins]
  | forget a now => exact forget_publishes sound a now
  | prune now => exact pruneLinks_publishes sound now
  | expire now =>
    have left := HostTable.purge_sameButHosts e.hosts e.origins now e.setup.config.hostAge.toNat
    exact publishes_nothing rfl (left.field fun _ _ => rfl)
  | gateway now =>
    obtain ⟨-, origins, -, notices⟩ := chooseGateway_tables e now
    exact publishes_nothing notices fun _ => by rw [origins]

/-! ### The table of the observers -/

/-- The routes as they are for those who followed every change. -/
def published (e : Engine) : RouteTable := RouteTable.followAll .empty e.notices

/-- Those who followed every change have the routes of the node, and each change was news. -/
structure Mirrored (e : Engine) : Prop where
  faithful : RouteTable.Faithful .empty e.notices
  agrees : ∀ d, e.published.lookup d = e.origins.hop? d

theorem Mirrored.publish {e e' : Engine} (h : Mirrored e) (publishes : Publishes e e') :
    Mirrored e' := by
  obtain ⟨cs, notices, leads⟩ := publishes
  rw [← funext h.agrees] at leads
  obtain ⟨faithful, reached⟩ := leads.followed
  refine ⟨?_, fun d => ?_⟩
  · rw [notices]
    exact h.faithful.append faithful
  · rw [published, notices, RouteTable.followAll_append]
    exact reached d

theorem mirrored_invariant (s : Setup) : Invariant fun e => Sound s e ∧ Mirrored e where
  hear now admitted holds :=
    ⟨(Originator.sound_invariant s).invariant.hear now admitted holds.1,
      holds.2.publish (hear_publishes _ _ _ now)⟩
  update move holds :=
    ⟨(Originator.sound_invariant s).invariant.update move holds.1,
      holds.2.publish (move.publishes holds.1)⟩
  decay move holds :=
    ⟨(Originator.sound_invariant s).invariant.decay move holds.1,
      holds.2.publish (move.publishes holds.1)⟩

theorem run_mirrored {s : Setup} {jitter : Jitter} {cs : List Call} {e : Engine}
    (h : (Engine.new s jitter).run cs = .ok e) : Sound s e ∧ Mirrored e :=
  (mirrored_invariant s).run h ⟨⟨rfl, rfl, nofun⟩, trivial, fun _ => rfl⟩

/-- A table that starts empty and follows every route change has the routes of the node. -/
theorem published_routes {s : Setup} {jitter : Jitter} {cs : List Call} {e : Engine}
    (h : (Engine.new s jitter).run cs = .ok e) :
    (∀ d, (RouteTable.followAll .empty e.notices).lookup d =
      (e.origins.get? d).bind Originator.route) ∧
    ∀ before c after, e.notices = before ++ c :: after →
      (RouteTable.followAll .empty before).lookup c.dest = c.previous ∧
        (RouteTable.followAll .empty before).lookup c.dest ≠ c.next := by
  obtain ⟨-, mirrored⟩ := run_mirrored h
  refine ⟨fun d => (mirrored.agrees d).trans (e.origins.hop?_eq d), fun before c after cut => ?_⟩
  have faithful := mirrored.faithful
  rw [cut] at faithful
  obtain ⟨held, news⟩ := faithful.at
  refine ⟨held, ?_⟩
  rw [held]
  exact news.symm

theorem published_routes_sample :
    ∃ e, (Engine.new Sample.setup default).run (Sample.calls ++ [.shutdown 2000]) = .ok e ∧
      e.notices.map (fun c => (c.dest, c.next)) =
        [(Sample.near, some ⟨Sample.near, 0⟩), (Sample.far, some ⟨Sample.near, 0⟩),
          (Sample.near, none), (Sample.far, none)] ∧
      (∀ d, (RouteTable.followAll .empty e.notices).lookup d =
        (e.origins.get? d).bind Originator.route) ∧
      ∀ before c after, e.notices = before ++ c :: after →
        (RouteTable.followAll .empty before).lookup c.dest = c.previous ∧
          (RouteTable.followAll .empty before).lookup c.dest ≠ c.next := by
  have reached : ∃ e, (Engine.new Sample.setup default).run
      (Sample.calls ++ [.shutdown 2000]) = .ok e ∧
      e.notices.map (fun c => (c.dest, c.next)) =
        [(Sample.near, some ⟨Sample.near, 0⟩), (Sample.far, some ⟨Sample.near, 0⟩),
          (Sample.near, none), (Sample.far, none)] :=
    ⟨_, rfl, rfl⟩
  obtain ⟨e, run, notices⟩ := reached
  exact ⟨e, run, notices, published_routes run⟩

end Engine

end BeaconMesh
