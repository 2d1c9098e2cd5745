import BeaconMesh.Proofs.Ageing.Sweeps
import BeaconMesh.Proofs.Routes.Published
import BeaconMesh.Proofs.Routes.Rankings

/-!
# Routes that stay

A route moves to another link only if its own is gone or the other one is better: a tie keeps it.
`HoldsRoutes` says so of a call, and by induction of every run that leaves the link tied for the
greatest average.
-/

namespace BeaconMesh

/-- Usable qualities are not zero, so only a link without any has the average zero. -/
theorem Link.average_ne_zero {low high : Nat} {l : Link} (h : l.IsUsable low high)
    (positive : 0 < low) (sampled : l.samples ≠ []) : l.average ≠ 0 := by
  obtain ⟨least, -⟩ := total_bounds h
  have count : 0 < l.samples.length := List.length_pos_iff.mpr sampled
  have enough : l.samples.length ≤ total l.samples :=
    Nat.le_trans (Nat.le_mul_of_pos_left _ positive) least
  exact Nat.ne_of_gt (Nat.div_pos enough count)

/-! ### One originator -/

namespace Originator

variable {o o' : Originator} {hop : Hop} {low high : Nat} {a : Addr}

/-- Whether the link through a hop is there and no other has a greater average. -/
def Ties (o : Originator) (hop : Hop) : Prop :=
  ∃ l, o.link? hop = some l ∧ ∀ m ∈ o.links, m.average ≤ l.average

theorem Ties.congr (links : o'.links = o.links) : o'.Ties hop ↔ o.Ties hop := by
  unfold Ties link?
  rw [links]

theorem choice?_of_top {l : Link} (used : o.route = some hop) (found : o.link? hop = some l)
    (positive : l.average ≠ 0) (top : ∀ m ∈ o.links, m.average ≤ l.average) :
    o.choice? = some hop := by
  have here : l.hop = hop := hop_of_link? found
  have linked : o.routeLink? = some l := by rw [routeLink?, used, Option.bind_some, found]
  rw [← here]
  exact choice?_of_isBest linked ⟨List.mem_of_find?_eq_some found, positive, top⟩

/-- A route whose link has an average is kept by a selection if that is the greatest one. -/
theorem updateRoute_of_top {l : Link} (used : o.route = some hop) (found : o.link? hop = some l)
    (positive : l.average ≠ 0) (top : ∀ m ∈ o.links, m.average ≤ l.average) :
    o.updateRoute = (o, none) := by
  have chosen := choice?_of_top used found positive top
  rw [updateRoute_eq, chosen, ← used, routeReport, if_pos rfl]

theorem choice?_of_zero (zero : ∀ l ∈ o.links, l.average = 0) : o.choice? = none := by
  have best := o.bestLink?_isBest
  unfold choice?
  cases found : o.bestLink? with
  | none => rfl
  | some b =>
    rw [found] at best
    exact absurd (zero b best.1) best.2.1

theorem choice?_of_none (nothing : o.bestLink? = none) : o.choice? = none := by
  unfold choice?
  rw [nothing]

theorem choice?_of_some {b current : Link} (best : o.bestLink? = some b)
    (used : o.routeLink? = some current) :
    o.choice? = if current.average = b.average then some current.hop else some b.hop := by
  unfold choice?
  rw [best, used]

theorem choice?_again (o : Originator) : { o with route := o.choice? }.choice? = o.choice? := by
  cases best : o.bestLink? with
  | none => exact (choice?_of_none (o := { o with route := o.choice? }) best).trans (choice?_of_none best).symm
  | some b =>
    -- either way the installed link has the hop of a best one, or is as good
    have listed : b ∈ o.links := by
      have isBest := o.bestLink?_isBest
      rw [best] at isBest
      exact isBest.1
    obtain ⟨l, found⟩ : ∃ l, o.link? b.hop = some l :=
      Option.isSome_iff_exists.mp
        (List.find?_isSome.mpr ⟨b, listed, decide_eq_true rfl⟩)
    have moved : { o with route := some b.hop }.choice? = some b.hop := by
      rw [choice?_of_some (o := { o with route := some b.hop }) best found, hop_of_link? found,
        ite_self]
    cases used : o.routeLink? with
    | none =>
      have chosen : o.choice? = some b.hop := by
        unfold choice?
        rw [best, used]
      rw [chosen, moved]
    | some current =>
      rw [choice?_of_some best used]
      split
      · rename_i tie
        obtain ⟨hop, route, linked⟩ := Option.bind_eq_some_iff.mp used
        have here : current.hop = hop := hop_of_link? linked
        subst here
        rw [choice?_of_some (o := { o with route := some current.hop }) best linked, if_pos tie]
      · exact moved

theorem updateRoute_again (o : Originator) :
    o.updateRoute.1.updateRoute = (o.updateRoute.1, none) := by
  have again := o.choice?_again
  rw [updateRoute_eq o]
  dsimp only
  rw [updateRoute_eq, again, routeReport, if_pos rfl]

theorem Sound.updateRoute (h : Sound low high a o) : o.updateRoute = (o, none) := by
  cases used : o.route with
  | none =>
    obtain ⟨best, isBest, route⟩ := h.routed
    rw [used] at route
    have blank : best = none := Option.map_eq_none_iff.mp route.symm
    subst blank
    rw [updateRoute_eq, choice?_of_zero isBest, ← used, routeReport, if_pos rfl]
  | some hop =>
    obtain ⟨best, isBest, route⟩ := h.routed
    rw [used] at route
    obtain ⟨b, rfl, rfl⟩ := Option.map_eq_some_iff.mp route.symm
    exact updateRoute_of_top used (link?_of_mem h.distinct isBest.1) isBest.2.1 isBest.2.2

/-- A selection does not switch from a link that is tied; without any average it removes the route. -/
theorem Ties.updateRoute (tied : o.Ties hop) (used : o.route = some hop) :
    o.updateRoute = (o, none) ∨
      (∀ l ∈ o.links, l.average = 0) ∧ o.updateRoute.1.route = none := by
  obtain ⟨l, found, top⟩ := tied
  by_cases zero : l.average = 0
  · have blank : ∀ m ∈ o.links, m.average = 0 := fun m mem =>
      Nat.le_zero.mp (zero ▸ top m mem)
    refine .inr ⟨blank, ?_⟩
    rw [updateRoute_eq]
    exact choice?_of_zero blank
  · exact .inl (updateRoute_of_top used found zero top)

/-! ### Qualities that are added without a selection -/

def sampleLink (o : Originator) (sample : Hop × UInt8) : Originator :=
  o.modifyLink sample.1 fun l => l.addSample sample.2

def sampleAll (o : Originator) (samples : List (Hop × UInt8)) : Originator :=
  samples.foldl sampleLink o

/-- Whether no link remembers the quality zero, and the links through a hop remember some. -/
def Counted (hop : Hop) (o : Originator) : Prop :=
  ∀ l ∈ o.links, l.IsUsable 1 255 ∧ (l.hop = hop → l.samples ≠ [])

theorem Counted.sampleLink (h : Counted hop o) {sample : Hop × UInt8} (positive : sample.2 ≠ 0) :
    Counted hop (o.sampleLink sample) := by
  have usable : 1 ≤ sample.2.toNat ∧ sample.2.toNat ≤ 255 := by
    have nonzero : sample.2.toNat ≠ 0 := fun zero => positive (UInt8.toNat_inj.mp zero)
    have := sample.2.toNat_lt
    omega
  refine List.forall_mem_map.mpr fun l mem => ?_
  obtain ⟨before, counted⟩ := h l mem
  split
  · refine ⟨Link.addSample_isUsable before usable, fun _ => ?_⟩
    simp [Link.samples_addSample, Link.maxSamples]
  · exact ⟨before, counted⟩

theorem Counted.sampleAll (h : Counted hop o) {samples : List (Hop × UInt8)}
    (positive : ∀ x ∈ samples, x.2 ≠ 0) : Counted hop (o.sampleAll samples) := by
  unfold Originator.sampleAll
  induction samples generalizing o with
  | nil => exact h
  | cons x rest ih =>
    obtain ⟨first, others⟩ := List.forall_mem_cons.mp positive
    exact ih (h.sampleLink first) others

theorem sampleAll_route (o : Originator) (samples : List (Hop × UInt8)) :
    (o.sampleAll samples).route = o.route := by
  unfold sampleAll
  induction samples generalizing o with
  | nil => rfl
  | cons x rest ih => exact ih (o.sampleLink x)

theorem Sound.counted (h : Sound low high a o) (positive : 0 < low) (most : high ≤ 255)
    (used : o.route = some hop) : Counted hop o := by
  intro l mem
  refine ⟨fun q listed => ?_, ?_⟩
  · have := h.usable l mem q listed
    omega
  · rintro rfl blank
    obtain ⟨l', found, counted⟩ := h.route_link used
    rw [link?_of_mem h.distinct mem] at found
    cases found
    exact counted (by rw [Link.average, blank]; rfl)

/-- However qualities are added, a route whose link is tied then is not switched; and it is removed
only if a quality was zero. -/
theorem Sound.sampled_keeps (h : Sound low high a o) (positive : 0 < low) (most : high ≤ 255)
    (used : o.route = some hop) {samples : List (Hop × UInt8)}
    (tied : (o.sampleAll samples).Ties hop) :
    (o.sampleAll samples).updateRoute = (o.sampleAll samples, none) ∨
      (∃ x ∈ samples, x.2 = 0) ∧ (o.sampleAll samples).updateRoute.1.route = none := by
  have still := (o.sampleAll_route samples).trans used
  refine (tied.updateRoute still).imp_right fun ⟨blank, removed⟩ => ⟨?_, removed⟩
  refine Classical.byContradiction fun never => ?_
  have counted := (h.counted positive most used).sampleAll
    fun x mem zero => never ⟨x, mem, zero⟩
  obtain ⟨l, found, -⟩ := tied
  have linked : l ∈ (o.sampleAll samples).links := List.mem_of_find?_eq_some found
  obtain ⟨usable, remembered⟩ := counted l linked
  exact Link.average_ne_zero usable Nat.one_pos (remembered (hop_of_link? found)) (blank l linked)

theorem Sound.ranked_keeps (h : Sound low high a o) (positive : 0 < low) {b : Beacon} {via : Hop}
    (usable : low ≤ b.quality.toNat ∧ b.quality.toNat ≤ high) (used : o.route = some hop)
    (tied : (Engine.ranked o b via).1.Ties hop) : (Engine.ranked o b via).1.route = some hop := by
  obtain ⟨l, found, top⟩ := tied
  obtain ⟨before, linked, counted⟩ := h.route_link used
  have ranked : l = before.rankedAt via b := by
    rw [link?_ranked, linked] at found
    exact (Option.some.inj found).symm
  have average : l.average ≠ 0 := by
    rw [ranked, Link.rankedAt]
    split
    · have sampled := Link.addSample_isUsable (h.usable before (List.mem_of_find?_eq_some linked))
        usable
      refine Link.average_ne_zero (l := { before with lastTtl := b.ttl }.addSample b.quality)
        sampled positive ?_
      simp [Link.samples_addSample, Link.maxSamples]
    · exact counted
  rw [ranked_eq] at found top ⊢
  exact choice?_of_top (o := o.sampled b via) used found average top

end Originator

/-! ### Calls -/

namespace Engine

variable {e e₁ e₂ e' : Engine} {b : Beacon} {via : Hop} {now : Time} {s : Setup}

/-- Whether every route is kept whose link is tied afterwards. -/
def HoldsRoutes (e e' : Engine) : Prop :=
  ∀ a o o' hop, e.origins.get? a = some o → e'.origins.get? a = some o' → o.route = some hop →
    o'.Ties hop → o'.route = some hop

theorem HoldsRoutes.after (h : HoldsRoutes e₁ e₂) (same : SameField Originator.route none e e₁) :
    HoldsRoutes e e₂ := by
  intro a o o' hop known left used tied
  have routes := same a
  rw [Origins.field_of_get? known, used] at routes
  cases between : e₁.origins.get? a with
  | none =>
    rw [Origins.field_of_none between] at routes
    cases routes
  | some p =>
    rw [Origins.field_of_get? between] at routes
    exact h a p o' hop between left routes tied

/-- A change that keeps tied routes, and then the routes and links are the same. -/
theorem HoldsRoutes.before (h : HoldsRoutes e e₁)
    (same : SameField (fun o => (o.route, o.links)) (none, []) e₁ e₂) : HoldsRoutes e e₂ := by
  intro a o o' hop known left used tied
  have routes := same a
  rw [Origins.field_of_get? left] at routes
  cases between : e₁.origins.get? a with
  | none =>
    rw [Origins.field_of_none between] at routes
    obtain ⟨l, found, -⟩ := tied
    have linked : l ∈ o'.links := List.mem_of_find?_eq_some found
    have unlinked : o'.links = [] := congrArg Prod.snd routes
    rw [unlinked] at linked
    cases linked
  | some p =>
    rw [Origins.field_of_get? between] at routes
    have links : o'.links = p.links := congrArg Prod.snd routes
    have route : o'.route = p.route := congrArg Prod.fst routes
    rw [route]
    exact h a o p hop known between used ((Originator.Ties.congr links).mp tied)

theorem HoldsRoutes.of_same (same : SameField Originator.route none e e') : HoldsRoutes e e' := by
  intro a o o' hop known left used _
  have routes := same a
  rw [Origins.field_of_get? known, Origins.field_of_get? left] at routes
  exact routes.trans used

theorem rank_holdsRoutes (sound : Sound s e)
    (usable : s.config.twoWayLimit.toNat ≤ b.quality.toNat ∧
      b.quality.toNat ≤ s.config.maxQuality.toNat) : HoldsRoutes e (e.rank b via) := by
  intro a o o' hop known left used tied
  unfold rank at left
  split at left
  · rename_i p heard
    change (e.origins.insert b.orig (ranked p b via).1).get? a = some o' at left
    rw [Origins.get?_insert] at left
    split at left
    · rename_i here
      subst here
      cases heard.symm.trans known
      cases left
      exact (sound.each known).ranked_keeps s.valid.twoWayLimit_pos usable used tied
    · cases known.symm.trans left
      exact used
  · cases known.symm.trans left
    exact used

theorem adopt_holdsRoutes (sound : Sound s e) (duplicate twoWay : Bool)
    (usable : twoWay = true → s.config.twoWayLimit.toNat ≤ b.quality.toNat ∧
      b.quality.toNat ≤ s.config.maxQuality.toNat) :
    HoldsRoutes e (e.adopt b via duplicate twoWay now) := by
  have heeds : ∀ e : Engine,
      SameField (fun o => (o.route, o.links)) (none, []) e (e.heed b now) :=
    fun e => heed_sameField e b now fun _ _ _ _ => rfl
  unfold adopt
  cases duplicate with
  | true => exact .of_same (.refl e)
  | false =>
    cases twoWay with
    | false => exact HoldsRoutes.before (.of_same (.refl e)) (heeds e)
    | true => exact (rank_holdsRoutes sound (usable rfl)).before (heeds _)

theorem Takes.holdsRoutes {r : Reception} {outcome : PacketOutcome} (sound : Sound s e)
    (taken : e.Takes r.beacon r.hop r.now outcome e') : HoldsRoutes e e' := by
  have heard : SameField Originator.route none e (e.hear r.beacon r.hop r.now) := by
    refine hear_sameField e r.beacon r.hop r.now rfl fun o => ?_
    obtain ⟨_, _, _, _, _, frame⟩ := o.hear_frame r.beacon.seqno r.beacon.ttl r.hop r.now
    rw [frame]
  cases taken with
  | refused => exact .of_same (.refl e)
  | @echo here => exact .of_same (hearEcho_sameField e r.beacon r.hop.addr here r.now rfl
      fun _ _ _ => rfl)
  | late => exact .of_same heard
  | @judged _ duplicate _ _ admitted arrival work =>
    obtain ⟨assessed, estimate, _, judged, considered, -⟩ := judge_eq_ok.mp work
    have routes : SameField Originator.route none (e.hear r.beacon r.hop r.now) assessed :=
      assess_sameField judged rfl fun _ _ _ => rfl
    have inv := (Originator.sound_invariant s).invariant
    have before := inv.hear r.now admitted sound
    have peer : (e.hear r.beacon r.hop r.now).setup.IsPeer r.hop.addr := admitted.sender
    have counted := inv.update (.assess peer judged) before
    have usable : estimate.twoWay = true →
        s.config.twoWayLimit.toNat ≤ (r.beacon.judged estimate).quality.toNat ∧
          (r.beacon.judged estimate).quality.toNat ≤ s.config.maxQuality.toNat := by
      obtain ⟨_, _, quality⟩ := assess_estimate judged
      rw [before.setup] at quality
      exact s.usable_quality quality
    have adopted : HoldsRoutes _
        (assessed.adopt (r.beacon.judged estimate) r.hop duplicate estimate.twoWay r.now) :=
      adopt_holdsRoutes counted duplicate estimate.twoWay usable
    exact (adopted.after (heard.trans routes)).before
      (.of_origins (considerRelay_same considered).origins)

theorem sweep_holdsRoutes (sound : Sound s e) (now : Time) : HoldsRoutes e (e.sweep now) := by
  intro a o o' hop known left used tied
  obtain ⟨_, hosts, before, rfl⟩ := sweep_entry left
  cases before.symm.trans known
  obtain ⟨l, found, -⟩ := tied
  have pruned := (sound.each known).pruned now e.setup.timeout
  exact pruned.kept hop used (Option.isSome_iff_exists.mpr ⟨l, found⟩)

theorem Does.holdsRoutes {c : Call} {r : Reply} (h : Does e c r e') (sound : Sound s e) :
    HoldsRoutes e e' := by
  cases h with
  | start work => exact .of_same (.of_origins (start_same work).origins)
  | beacon _ taken => exact taken.holdsRoutes sound
  | data _ carried => exact .of_same (carried.sameField fun _ _ _ => rfl)
  | frame bridged => exact .of_same (.of_origins bridged.origins)
  | @poll now settled work =>
    have routes : SameField Originator.route none e settled := work.sameField fun _ _ => rfl
    have still := (Originator.sound_invariant s).invariant.updates work.updates sound
    split
    · exact (sweep_holdsRoutes still now).after routes
    · exact .of_same routes
  | sweep now => exact sweep_holdsRoutes sound now
  | shutdown now =>
    have stopped : Sound s { e with nextSweep := none } := ⟨sound.setup, sound.ifaces, sound.each⟩
    exact sweep_holdsRoutes stopped (e.flushTime now)

theorem HoldsRoutes.moved (h : HoldsRoutes e e') (before : Sound s e) (after : Sound s e')
    {a : Addr} {o o' : Originator} {hop hop' : Hop} (known : e.origins.get? a = some o)
    (left : e'.origins.get? a = some o') (used : o.route = some hop) (next : o'.route = some hop')
    (other : hop' ≠ hop) :
    ((o.link? hop).isSome = true ∧ o'.link? hop = none) ∨
      ∃ l l', o'.link? hop = some l ∧ o'.link? hop' = some l' ∧ l.average < l'.average := by
  cases found : o'.link? hop with
  | none =>
    obtain ⟨l, linked, -⟩ := (before.each known).route_link used
    exact .inl ⟨Option.isSome_iff_exists.mpr ⟨l, linked⟩, rfl⟩
  | some l =>
    obtain ⟨best, isBest, route⟩ := (after.each left).routed
    rw [next] at route
    obtain ⟨b, rfl, rfl⟩ := Option.map_eq_some_iff.mp route.symm
    refine .inr ⟨l, b, rfl, Originator.link?_of_mem (after.each left).distinct isBest.1, ?_⟩
    refine Nat.lt_of_not_le fun top => other ?_
    -- otherwise the former link would be tied, and the route would have stayed
    have tied : o'.Ties hop := ⟨l, found, fun m mem => Nat.le_trans (isBest.2.2 m mem) top⟩
    have stays := h a o o' hop known left used tied
    rw [next] at stays
    exact Option.some.inj stays

/-- Whether the link through a hop to a node is there and no other one has a greater average. -/
def Ties (e : Engine) (a : Addr) (hop : Hop) : Prop :=
  ∃ o, e.origins.get? a = some o ∧ o.Ties hop

theorem History.keeps_route {past : List Event} {a : Addr} {hop : Hop} (h : History e past e')
    (sound : Sound s e) (used : e.origins.hop? a = some hop)
    (tied : ∀ x ∈ past, x.after.Ties a hop) : e'.origins.hop? a = some hop := by
  have run : Sound s e' ∧ e'.origins.hop? a = some hop := by
    induction h with
    | nil => exact ⟨sound, used⟩
    | @call past e₁ e₂ c r _ made ih =>
      obtain ⟨last, others⟩ := List.forall_mem_cons.mp tied
      obtain ⟨before, still⟩ := ih others
      refine ⟨(Originator.sound_invariant s).invariant.step made before, ?_⟩
      obtain ⟨o', left, ties⟩ := last
      cases known : e₁.origins.get? a with
      | none =>
        have unrouted : e₁.origins.hop? a = none := Origins.field_of_none known
        rw [unrouted] at still
        cases still
      | some o =>
        rw [Origins.hop?_of_get? known] at still
        rw [Origins.hop?_of_get? left]
        exact (step_does made).holdsRoutes before a o o' hop known left still ties
  exact run.2

/-- A route moves only from a link that is gone, or to one with a greater average. -/
theorem route_stability {s : Setup} {jitter : Jitter} {cs : List Call} {e : Engine}
    (h : (Engine.new s jitter).run cs = .ok e) :
    (∀ c r e' a o o' hop hop', e.step c = .ok (e', r) → e.origins.get? a = some o →
      e'.origins.get? a = some o' → o.route = some hop → o'.route = some hop' → hop' ≠ hop →
      ((o.link? hop).isSome = true ∧ o'.link? hop = none) ∨
        ∃ l l', o'.link? hop = some l ∧ o'.link? hop' = some l' ∧ l.average < l'.average) ∧
    (∀ past e' a hop, History e past e' → e.origins.hop? a = some hop →
      (∀ x ∈ past, x.after.Ties a hop) → e'.origins.hop? a = some hop) ∧
    ∀ a o, e.origins.get? a = some o → o.updateRoute = (o, none) ∧
      ∀ samples,
        (o.sampleAll samples).updateRoute.1.updateRoute =
          ((o.sampleAll samples).updateRoute.1, none) ∧
        ∀ hop, o.route = some hop → (o.sampleAll samples).Ties hop →
          (o.sampleAll samples).updateRoute = (o.sampleAll samples, none) ∨
            (∃ x ∈ samples, x.2 = 0) ∧ (o.sampleAll samples).updateRoute.1.route = none := by
  have sound : Sound s e := (Originator.sound_invariant s).run h
  refine ⟨?_, ?_, ?_⟩
  · intro c r e' a o o' hop hop' made known left used next other
    have after := (Originator.sound_invariant s).invariant.step made sound
    exact ((step_does made).holdsRoutes sound).moved sound after known left used next other
  · intro past e' a hop later used tied
    exact later.keeps_route sound used tied
  · intro a o known
    have entry := sound.each known
    refine ⟨entry.updateRoute, fun samples => ⟨?_, fun hop used tied => ?_⟩⟩
    · exact Originator.updateRoute_again _
    · exact entry.sampled_keeps s.valid.twoWayLimit_pos (Nat.le_of_lt_succ (UInt8.toNat_lt _)) used
        tied

/-- After the sample run, the neighbour echoes and sends beacons on the second interface too. -/
def secondLink : List Call :=
  Sample.calls ++
    [.beacon { flags := Beacon.directFlag, orig := ⟨2, 0, 0, 0, 1, 1⟩, seqno := 1 } Sample.near 1
      1006,
    .beacon { ttl := 50, quality := 255, seqno := 7, orig := Sample.near } Sample.near 1 1007]

/-- The node behind the neighbour is heard there with a better quality. -/
def improvement : Call :=
  .beacon { Sample.relayed 2 [] with quality := 200 } Sample.near 1 1008

theorem route_stability_sample :
    ∃ e e' r o o', (Engine.new Sample.setup default).run secondLink = .ok e ∧
      e.step improvement = .ok (e', r) ∧ e.origins.get? Sample.far = some o ∧
      e'.origins.get? Sample.far = some o' ∧ o.route = some ⟨Sample.near, 0⟩ ∧
      o'.route = some ⟨Sample.near, 1⟩ ∧
      (((o.link? ⟨Sample.near, 0⟩).isSome = true ∧ o'.link? ⟨Sample.near, 0⟩ = none) ∨
        ∃ l l', o'.link? ⟨Sample.near, 0⟩ = some l ∧ o'.link? ⟨Sample.near, 1⟩ = some l' ∧
          l.average < l'.average) ∧
      o.updateRoute = (o, none) := by
  have reached : ∃ e e' r o o', (Engine.new Sample.setup default).run secondLink = .ok e ∧
      e.step improvement = .ok (e', r) ∧ e.origins.get? Sample.far = some o ∧
      e'.origins.get? Sample.far = some o' ∧ o.route = some ⟨Sample.near, 0⟩ ∧
      o'.route = some ⟨Sample.near, 1⟩ :=
    ⟨_, _, _, _, _, rfl, rfl, rfl, rfl, rfl, rfl⟩
  obtain ⟨e, e', r, o, o', run, made, known, left, used, next⟩ := reached
  obtain ⟨moves, -, selected⟩ := route_stability run
  exact ⟨e, e', r, o, o', run, made, known, left, used, next,
    moves _ _ _ _ _ _ _ _ made known left used next (by decide), (selected _ o known).1⟩

end Engine

end BeaconMesh
