import BeaconMesh.Proofs.Engine.Fields
import BeaconMesh.Proofs.Engine.History
import BeaconMesh.Proofs.Routes.Optimal

/-!
# What counts for a route

A hop counts by its `Ranking`: the qualities that its link remembers, and the hops that the last of
their beacons had left. `Does.reranks` says that only a fresh beacon over a usable link adds to one,
that of its originator through the hop it came over. Sweeps forget rankings as a whole, and
everything else leaves them alone.
-/

namespace BeaconMesh

/-- The qualities that a link remembers, and the hops that the last of their beacons had left. -/
structure Ranking where
  samples : List UInt8 := []
  lastTtl : UInt8 := 0

/-- A ranking after one more beacon. -/
def Ranking.add (k : Ranking) (b : Beacon) : Ranking where
  samples := (b.quality :: k.samples).take Link.maxSamples
  lastTtl := b.ttl

def Link.ranking (l : Link) : Ranking := { samples := l.samples, lastTtl := l.lastTtl }

/-- A link of an originator after a beacon that came over a hop was ranked. -/
def Link.rankedAt (hop : Hop) (b : Beacon) (l : Link) : Link :=
  if l.hop = hop then { l with lastTtl := b.ttl }.addSample b.quality else l

/-! ### One originator -/

namespace Originator

variable {o o' : Originator} {hop other : Hop} {now : Time}

/-- The ranking of a hop; blank if there is no link through it. -/
def ranking (o : Originator) (hop : Hop) : Ranking := (o.link? hop).elim {} Link.ranking

theorem ranking_of_link? {l : Link} (h : o.link? hop = some l) : o.ranking hop = l.ranking := by
  rw [ranking, h, Option.elim_some]

theorem ranking_relink {f : Link → Link} (hops : ∀ l, (f l).hop = l.hop)
    (rankings : ∀ l, (f l).ranking = l.ranking) (links : o'.links = o.links.map f) (hop : Hop) :
    o'.ranking hop = o.ranking hop := by
  unfold ranking
  rw [link?_of_map hops links]
  cases o.link? hop with
  | none => rfl
  | some l => exact rankings l

theorem ranking_congr (links : o'.links = o.links) (hop : Hop) : o'.ranking hop = o.ranking hop :=
  ranking_relink (f := id) (fun _ => rfl) (fun _ => rfl) (by rw [links, List.map_id]) hop

theorem ranking_ensureLink (o : Originator) (hop : Hop) (now : Time) (other : Hop) :
    (o.ensureLink hop now).ranking other = o.ranking other := by
  unfold ranking
  by_cases same : hop = other
  · subst same
    rw [link?_ensureLink]
    cases o.link? hop <;> rfl
  · rw [link?_ensureLink_of_ne o now same]

theorem ranking_modifyLink (o : Originator) (hop : Hop) {f : Link → Link}
    (hops : ∀ l, (f l).hop = l.hop) (rankings : ∀ l, (f l).ranking = l.ranking) (other : Hop) :
    (o.modifyLink hop f).ranking other = o.ranking other := by
  apply ranking_relink (f := fun l => if l.hop = hop then f l else l) _ _ rfl
  · intro l
    split
    · exact hops l
    · rfl
  · intro l
    split
    · exact rankings l
    · rfl

theorem ranking_hear (o : Originator) (seqno : Seqno) (ttl : UInt8) (hop : Hop) (now : Time)
    (other : Hop) : (o.hear seqno ttl hop now).ranking other = o.ranking other := by
  have newest : (o.hearNewest seqno hop now).ranking other = o.ranking other := by
    let offset := Seqno.ahead seqno o.newest
    let moved : Originator :=
      { o with received := o.received.mark offset true, newest := seqno, lastSeen := now }
    have heard : (o.hearNewest seqno hop now).ranking other =
        ((moved.ensureLink hop now).modifyLink hop fun l => l.touch now).ranking other :=
      ranking_relink (f := fun l => l.hear offset (l.hop = hop)) (fun _ => rfl) (fun _ => rfl) rfl
        other
    rw [heard, ranking_modifyLink (f := fun l => l.touch now) _ hop (fun _ => rfl) fun _ => rfl,
      ranking_ensureLink]
    exact ranking_congr rfl other
  unfold hear
  split
  · rename_i p _
    unfold hearLate
    dsimp only
    rw [ranking_modifyLink (f := fun l => (l.hearLate p).touch now) _ hop (fun _ => rfl)
      fun _ => rfl, ranking_ensureLink]
    exact ranking_congr rfl other
  · exact newest
  · exact (ranking_congr rfl other).trans newest

theorem link?_ranked (o : Originator) (b : Beacon) (hop other : Hop) :
    (Engine.ranked o b hop).1.link? other = (o.link? other).map (Link.rankedAt hop b) := by
  obtain ⟨route, frame⟩ := o.ranked_frame b hop
  rw [frame]
  apply link?_of_map _ rfl
  intro l
  unfold Link.rankedAt
  split <;> rfl

theorem ranking_ranked (o : Originator) (b : Beacon) (hop other : Hop) :
    (Engine.ranked o b hop).1.ranking other = o.ranking other ∨
      other = hop ∧ (Engine.ranked o b hop).1.ranking other = (o.ranking other).add b := by
  unfold ranking
  rw [link?_ranked]
  cases linked : o.link? other with
  | none => exact .inl rfl
  | some l =>
    have here : l.hop = other := hop_of_link? linked
    simp only [Option.map_some, Option.elim_some, Link.rankedAt]
    by_cases same : l.hop = hop
    · rw [if_pos same]
      exact .inr ⟨here.symm.trans same, rfl⟩
    · rw [if_neg same]
      exact .inl rfl

theorem ranking_prune (distinct : (o.links.map Link.hop).Nodup) (now timeout : Time) (hop : Hop) :
    (o.prune now timeout).1.ranking hop = o.ranking hop ∨
      (o.prune now timeout).1.ranking hop = {} := by
  cases left : (o.prune now timeout).1.link? hop with
  | none =>
    unfold ranking
    rw [left]
    exact .inr rfl
  | some l =>
    have mem : l ∈ o.links := by
      obtain ⟨_, frame⟩ := o.prune_frame now timeout
      rw [frame] at left
      have kept := List.mem_of_find?_eq_some left
      exact (List.mem_filter.mp kept).1
    have before := link?_of_mem distinct mem
    rw [hop_of_link? left] at before
    rw [ranking_of_link? left, ranking_of_link? before]
    exact .inl rfl

end Originator

/-! ### All of them -/

/-- The reception that was ranked, if one was: a fresh one over a usable link. -/
def Event.ranked? (x : Event) : Option Reception :=
  match x.reply with
  | .packet (.beacon false true _) => x.reception?
  | _ => none

theorem Event.reception?_of_ranked? {x : Event} {r : Reception} (h : x.ranked? = some r) :
    x.reception? = some r := by
  unfold ranked? at h
  split at h
  · exact h
  · cases h

namespace Engine

variable {e e' : Engine} {b : Beacon} {hop other : Hop} {now : Time} {a : Addr}

/-- The ranking of a hop to a node; blank if the node is not known or has no link through it. -/
def ranking (e : Engine) (a : Addr) (hop : Hop) : Ranking :=
  e.origins.field (fun o => o.ranking hop) {} a

/-- How the link that a beacon came over is judged, once the windows moved. -/
def Judges (e : Engine) (r : Reception) (assessed : Engine) (x : Estimate) : Prop :=
  (e.hear r.beacon r.hop r.now).assess r.beacon r.hop r.now = .ok (assessed, x)

theorem ranking_congr (origins : e'.origins = e.origins) (a : Addr) (hop : Hop) :
    e'.ranking a hop = e.ranking a hop :=
  SameField.of_origins origins a

theorem ranking_of_route? {l : Link} (used : e.route? a = some l) :
    e.ranking a l.hop = l.ranking := by
  obtain ⟨o, known, linked⟩ := Option.bind_eq_some_iff.mp used
  obtain ⟨hop, -, found⟩ := Option.bind_eq_some_iff.mp linked
  have here : l.hop = hop := Originator.hop_of_link? found
  unfold ranking
  rw [Origins.field_of_get? known, here, Originator.ranking_of_link? found]

theorem assessed_ranking {r : Reception} {assessed : Engine} {estimate : Estimate}
    (h : e.Judges r assessed estimate) (a : Addr) (other : Hop) :
    assessed.ranking a other = e.ranking a other := by
  have heard : (e.hear r.beacon r.hop r.now).ranking a other = e.ranking a other :=
    hear_sameField e r.beacon r.hop r.now rfl (fun o => o.ranking_hear _ _ _ _ other) a
  rw [← heard]
  exact assess_sameField h rfl (fun _ _ _ => rfl) a

theorem rank_ranking (e : Engine) (b : Beacon) (hop : Hop) (a : Addr) (other : Hop) :
    (e.rank b hop).ranking a other = e.ranking a other ∨
      a = b.orig ∧ other = hop ∧
        (e.rank b hop).ranking a other = (e.ranking a other).add b := by
  unfold rank
  split
  · rename_i o known
    have moved : (e.origins.insert b.orig (ranked o b hop).1).field (·.ranking other) {} a =
        if b.orig = a then (ranked o b hop).1.ranking other else e.ranking a other :=
      Origins.field_insert _ _ _ _
    by_cases same : b.orig = a
    · subst same
      have before : e.ranking b.orig other = o.ranking other := Origins.field_of_get? known
      rw [if_pos rfl] at moved
      rw [before]
      rcases o.ranking_ranked b hop other with kept | ⟨here, added⟩
      · exact .inl (moved.trans kept)
      · exact .inr ⟨rfl, here, moved.trans added⟩
    · rw [if_neg same] at moved
      exact .inl moved
  · exact .inl rfl

theorem heed_ranking (e : Engine) (b : Beacon) (now : Time) (a : Addr) (hop : Hop) :
    (e.heed b now).ranking a hop = e.ranking a hop :=
  heed_sameField (g := fun o => o.ranking hop) e b now (fun _ _ _ _ => rfl) a

theorem adopt_ranking (e : Engine) (b : Beacon) (hop : Hop) (duplicate twoWay : Bool) (now : Time)
    (a : Addr) (other : Hop) :
    (e.adopt b hop duplicate twoWay now).ranking a other = e.ranking a other ∨
      duplicate = false ∧ twoWay = true ∧ a = b.orig ∧ other = hop ∧
        (e.adopt b hop duplicate twoWay now).ranking a other = (e.ranking a other).add b := by
  unfold adopt
  cases duplicate with
  | true => exact .inl rfl
  | false =>
    cases twoWay with
    | false => exact .inl (heed_ranking e b now a other)
    | true =>
      show ((e.rank b hop).heed b now).ranking a other = _ ∨ _ ∧ _ ∧ _ ∧ _ ∧
        ((e.rank b hop).heed b now).ranking a other = _
      rw [heed_ranking]
      rcases e.rank_ranking b hop a other with kept | ⟨orig, here, added⟩
      · exact .inl kept
      · exact .inr ⟨rfl, rfl, orig, here, added⟩

/-- How a call changes the ranking of a hop. -/
inductive Reranks (x : Event) (a : Addr) (hop : Hop) : Prop where
  | same (kept : x.after.ranking a hop = x.before.ranking a hop)
  | forgotten (blank : x.after.ranking a hop = {})
  | added {r : Reception} {assessed : Engine} {estimate : Estimate} (ranked : x.ranked? = some r)
      (judged : x.before.Judges r assessed estimate) (orig : a = r.beacon.orig) (here : hop = r.hop)
      (more : x.after.ranking a hop = (x.before.ranking a hop).add (r.beacon.judged estimate))

theorem Takes.reranks {c : Call} {r : Reception} {outcome : PacketOutcome}
    (brought : c.reception? false = some r) (taken : e.Takes r.beacon r.hop r.now outcome e')
    (a : Addr) (hop : Hop) : Reranks ⟨e, c, .packet outcome, e'⟩ a hop := by
  cases taken with
  | refused => exact .same rfl
  | @echo here =>
    apply Reranks.same
    exact hearEcho_sameField (g := fun o => o.ranking hop) e r.beacon r.hop.addr here r.now rfl
      (fun _ _ _ => rfl) a
  | late =>
    apply Reranks.same
    exact hear_sameField (g := fun o => o.ranking hop) e r.beacon r.hop r.now rfl
      (fun o => o.ranking_hear _ _ _ _ hop) a
  | @judged _ duplicate _ _ admitted arrival work =>
    obtain ⟨assessed, estimate, relayed, judged, considered, answered⟩ := judge_eq_ok.mp work
    have settled := ranking_congr (considerRelay_same considered).origins a hop
    have before := assessed_ranking judged a hop
    rcases adopt_ranking assessed (r.beacon.judged estimate) r.hop duplicate estimate.twoWay r.now a
      hop with kept | ⟨rfl, usable, orig, here, added⟩
    · exact .same (settled.trans (kept.trans before))
    · rw [usable] at answered
      refine .added (r := r) ?_ judged orig here ?_
      · rw [answered]
        exact brought
      · rw [before] at added
        exact settled.trans added

theorem Decay.ranking (h : Decay e e')
    (distinct : ∀ {a o}, e.origins.get? a = some o → (o.links.map Link.hop).Nodup) (a : Addr)
    (hop : Hop) : e'.ranking a hop = e.ranking a hop ∨ e'.ranking a hop = {} := by
  cases found : e'.origins.get? a with
  | none => exact .inr (Origins.field_of_none found)
  | some o' =>
    obtain ⟨o, known, change⟩ := h.entry found
    unfold Engine.ranking
    rw [Origins.field_of_get? found, Origins.field_of_get? known]
    cases change with
    | same => exact .inl rfl
    | prune now => exact Originator.ranking_prune (distinct known) now _ hop
    | expire => exact .inl rfl

theorem Decays.ranking {s : Setup} (h : Decays e e') (sound : Sound s e) (a : Addr) (hop : Hop) :
    e'.ranking a hop = e.ranking a hop ∨ e'.ranking a hop = {} := by
  induction h with
  | refl => exact .inl rfl
  | tail first last ih =>
    have between := (Originator.sound_invariant s).invariant.decays first sound
    rcases last.ranking (fun known => (between.each known).distinct) a hop with kept | gone
    · rw [kept]
      exact ih
    · exact .inr gone

theorem Does.reranks {s : Setup} {c : Call} {r : Reply} (h : Does e c r e')
    (sound : Sound s e) (a : Addr) (hop : Hop) : Reranks ⟨e, c, r, e'⟩ a hop := by
  have decayed : ∀ {mid : Engine}, Decays mid e' → Sound s mid →
      mid.ranking a hop = e.ranking a hop → Reranks ⟨e, c, r, e'⟩ a hop := by
    intro mid decays sound before
    rcases Decays.ranking decays sound a hop with kept | gone
    · exact .same (kept.trans before)
    · exact .forgotten gone
  cases h with
  | start work => exact .same (ranking_congr (start_same work).origins a hop)
  | beacon brought taken => exact taken.reranks brought a hop
  | data _ carried =>
    exact .same (carried.sameField (g := fun o => o.ranking hop) (fun _ _ _ => rfl) a)
  | frame bridged => exact .same (ranking_congr bridged.origins a hop)
  | @poll now settled work =>
    have performed : settled.ranking a hop = e.ranking a hop :=
      work.sameField (fun _ _ => rfl) a
    have still := (Originator.sound_invariant s).invariant.updates work.updates sound
    refine decayed ?_ still performed
    split
    · exact sweep_decays settled now
    · exact .refl
  | sweep now => exact decayed (sweep_decays e now) sound rfl
  | shutdown now => exact decayed (shutdown_decays e now) sound rfl

theorem History.sound {s : Setup} {jitter : Jitter} {past : List Event}
    (h : History (.new s jitter) past e) : Sound s e :=
  (Originator.sound_invariant s).run (run_of_history h)

theorem History.reranks {s : Setup} {jitter : Jitter} {past : List Event} {x : Event}
    (h : History (.new s jitter) past e) (mem : x ∈ past) (a : Addr) (hop : Hop) :
    Reranks x a hop := by
  obtain ⟨_, before, made⟩ := h.cut_of_mem mem
  exact (step_does made).reranks before.sound a hop

end Engine

end BeaconMesh
