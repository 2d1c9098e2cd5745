import BeaconMesh.Proofs.Engine.Calls
import BeaconMesh.Proofs.Engine.Entries
import BeaconMesh.Proofs.Faults.Arithmetic

/-!
# Numbers within their words

`Bounded` collects what the state and the configuration of a node must satisfy so that every list is
long enough for its indices, and every number fits into the word that holds it. `run_bounded` says
that it is true after every run.
-/

namespace BeaconMesh

/-! ### Originators -/

namespace Originator

/-- The lists of an originator have the lengths that they are made for. -/
structure Sized (ifaces : Nat) (o : Originator) : Prop where
  echoes : o.echoes.length = ifaces
  samples : ∀ l ∈ o.links, l.samples.length ≤ Link.maxSamples

variable {ifaces : Nat} {o o' : Originator}

theorem Sized.relink (h : Sized ifaces o) {f : Link → Link}
    (keeps : ∀ l, l.samples.length ≤ Link.maxSamples → (f l).samples.length ≤ Link.maxSamples)
    (echoes : o'.echoes.length = o.echoes.length) (links : o'.links = o.links.map f) :
    Sized ifaces o' := by
  refine ⟨echoes.trans h.echoes, ?_⟩
  rw [links]
  exact List.forall_mem_map.mpr fun l mem => keeps l (h.samples l mem)

theorem Sized.congr (h : Sized ifaces o) (echoes : o'.echoes.length = o.echoes.length)
    (links : o'.links = o.links) : Sized ifaces o' :=
  h.relink (f := id) (fun _ few => few) echoes (by rw [links, List.map_id])

theorem Sized.ensureLink (h : Sized ifaces o) (hop : Hop) (now : Time) :
    Sized ifaces (o.ensureLink hop now) := by
  unfold Originator.ensureLink
  split
  · exact h
  · refine ⟨h.echoes, List.forall_mem_append.mpr ⟨h.samples, ?_⟩⟩
    exact List.forall_mem_singleton.mpr (Nat.zero_le _)

theorem Sized.modifyLink (h : Sized ifaces o) (hop : Hop) {f : Link → Link}
    (keeps : ∀ l, l.samples.length ≤ Link.maxSamples → (f l).samples.length ≤ Link.maxSamples) :
    Sized ifaces (o.modifyLink hop f) := by
  refine h.relink (f := fun l => if l.hop = hop then f l else l) (fun l few => ?_) rfl rfl
  split
  · exact keeps l few
  · exact few

theorem Sized.hear (h : Sized ifaces o) (seqno : Seqno) (ttl : UInt8) (hop : Hop) (now : Time) :
    Sized ifaces (o.hear seqno ttl hop now) := by
  have newest : Sized ifaces (o.hearNewest seqno hop now) := by
    let offset := Seqno.ahead seqno o.newest
    have moved : Sized ifaces
        { o with received := o.received.mark offset true, newest := seqno, lastSeen := now } :=
      h.congr rfl rfl
    have touched := (moved.ensureLink hop now).modifyLink hop (f := fun l => l.touch now)
      fun _ few => few
    exact touched.relink (f := fun l => l.hear offset (l.hop = hop)) (fun _ few => few) rfl rfl
  unfold Originator.hear
  split
  · rename_i position _
    have marked : Sized ifaces
        { o with received := o.received.record position, lastSeen := now } := h.congr rfl rfl
    exact (marked.ensureLink hop now).modifyLink hop fun _ few => few
  · exact newest
  · exact newest.congr rfl rfl

theorem sized_invariant (s : Setup) :
    Engine.EntryInvariant s fun _ o => o.Sized s.ifaces.length where
  new a now := ⟨List.length_replicate, nofun⟩
  hear now _ h := h.hear _ _ _ now
  update {a o o'} move h := by
    cases move with
    | echo | age => exact h.congr (List.length_modify _ _ _) rfl
    | assess judged =>
      obtain ⟨_, _, rfl⟩ := assess_frame judged
      exact h.congr rfl rfl
    | @rank b hop =>
      obtain ⟨_, frame⟩ := o.ranked_frame b hop
      rw [frame]
      exact (h.modifyLink hop fun l _ => Link.length_addSample_le _ _).congr rfl rfl
    | flood seqno =>
      obtain ⟨_, _, heard⟩ := o.hearFlood_frame seqno
      rw [heard]
      exact h.congr rfl rfl
    | _ => exact h.congr rfl rfl
  decay {a o o'} move h := by
    cases move with
    | same => exact h
    | prune now =>
      obtain ⟨_, frame⟩ := o.prune_frame now s.timeout
      rw [frame]
      exact ⟨h.echoes, fun l mem => h.samples l (List.mem_filter.mp mem).1⟩
    | expire hosts => exact h.congr rfl rfl

end Originator

namespace Link

theorem total_le (qs : List UInt8) : total qs ≤ 255 * qs.length := by
  induction qs with
  | nil => exact Nat.le_refl 0
  | cons q rest ih =>
    have := q.toNat_lt
    rw [total, List.length_cons]
    omega

theorem total_lt {l : Link} (few : l.samples.length ≤ maxSamples) :
    total l.samples < UInt32.size := by
  have most := total_le l.samples
  have some : 255 * l.samples.length ≤ 255 * 5 := Nat.mul_le_mul_left 255 few
  have fits : 255 * 5 < UInt32.size := by decide
  omega

theorem average_lt (l : Link) : l.average < UInt8.size := by
  have most : l.average ≤ 255 := by
    refine Nat.div_le_of_le_mul ?_
    rw [Nat.mul_comm]
    exact total_le l.samples
  exact Nat.lt_succ_of_le most

end Link

theorem GatewayList.score_lt (routingClass : UInt8) (g : Gateway) {quality : Nat}
    (byte : quality < UInt8.size) : score routingClass g quality < UInt32.size := by
  have most : quality ≤ 255 := Nat.le_of_lt_succ byte
  have level : g.level.toNat ≤ 255 := Nat.le_of_lt_succ g.level.toNat_lt
  unfold score
  split
  · exact Nat.lt_of_le_of_lt (Nat.mul_le_mul level most) (by decide)
  · exact Nat.lt_of_le_of_lt most (by decide)

theorem Relay.ttl_of_task? {r : Relay} {p : Pacing} {now : Time} {t : Task}
    (h : r.task? p now = .ok (some t)) :
    0 < t.beacon.ttl.toNat ∧ t.beacon.ttl.toNat + 1 = r.source.2.toNat := by
  unfold task? at h
  split at h
  · cases h
  · rename_i hops
    obtain ⟨quality, _, h⟩ := Fault.bind_ok h
    cases Fault.pure_ok h
    have more : 1 < r.source.2.toNat :=
      Nat.lt_of_not_le fun few => hops (.inr (UInt8.le_iff_toNat_le.mpr few))
    have one : (1 : UInt8) ≤ r.source.2 := UInt8.le_iff_toNat_le.mpr (Nat.le_of_lt more)
    have taken : (r.source.2 - 1).toNat = r.source.2.toNat - 1 := UInt8.toNat_sub_of_le _ _ one
    dsimp only
    omega

/-! ### The state of a node -/

namespace Engine

theorem receiveUnicast_ttl {e e' : Engine} {u : Unicast}
    (h : e.receiveUnicast u = (e', .forwarded)) : 2 ≤ u.ttl.toNat := by
  unfold receiveUnicast at h
  split at h
  · cases h
  · split at h
    · cases h
    · rename_i enough
      exact Nat.le_of_not_lt fun few => enough (UInt8.lt_iff_toNat_lt.mpr few)

/-- Every interface has a counter. -/
def Counted (e : Engine) : Prop := e.counters.length = e.setup.ifaces.length

theorem scheduleOwn_counted {e e' : Engine} {iface : IfaceId} {now : Time}
    (h : e.scheduleOwn iface now = .ok e') (counted : e.Counted) : e'.Counted := by
  rcases scheduleOwn_cases h with ⟨_, _, _, _, _, _, rfl⟩ | ⟨-, rfl⟩
  · exact List.length_set.trans counted
  · exact counted

theorem counted_invariant : QueueInvariant Counted where
  same {e e'} queue counted := by
    unfold Counted
    rw [queue.counters, queue.setup]
    exact counted
  relay _ counted := counted
  perform {e e' t scheduler now} _ work counted := by
    rcases perform_cases work with ⟨-, rfl⟩ | ⟨iface, -, scheduled⟩
    · exact counted
    · exact scheduleOwn_counted scheduled ((List.length_modify _ _ _).trans counted)
  clear counted := counted

/-- Lists are long enough for their indices, and every number fits into its word. -/
structure Bounded (e : Engine) : Prop where
  counters : e.counters.length = e.setup.ifaces.length
  echoes : ∀ a o, e.origins.get? a = some o → o.echoes.length = e.setup.ifaces.length
  samples : ∀ a o, e.origins.get? a = some o → ∀ l ∈ o.links,
    l.samples.length ≤ Link.maxSamples ∧ Link.total l.samples < UInt32.size ∧
      l.average < UInt8.size
  judged : ∀ carried echoes received, e.setup.estimator.Fits carried echoes received
  penalized : ∀ quality : UInt8,
    quality.toNat * (e.setup.pacing.maxQuality - e.setup.pacing.hopPenalty) < UInt32.size ∧
      quality.toNat * (e.setup.pacing.maxQuality - e.setup.pacing.hopPenalty) /
        e.setup.pacing.maxQuality < UInt8.size
  relayed : ∀ (r : Relay) (now : Time) (t : Task), r.task? e.setup.pacing now = .ok (some t) →
    0 < t.beacon.ttl.toNat ∧ t.beacon.ttl.toNat + 1 = r.source.2.toNat
  forwarded : ∀ u e', e.receiveUnicast u = (e', .forwarded) → 2 ≤ u.ttl.toNat
  scored : ∀ g a quality, GatewayList.routedQuality? e.origins a = some quality →
    GatewayList.score e.setup.config.routingClass g quality < UInt32.size

theorem run_bounded {s : Setup} {jitter : Jitter} {cs : List Call} {e : Engine}
    (h : (Engine.new s jitter).run cs = .ok e) : e.Bounded := by
  have sized := (Originator.sized_invariant s).run h
  have counters : e.Counted :=
    counted_invariant.run (counted_invariant.start scheduleOwn_counted) h List.length_replicate
  refine ⟨counters, fun a o known => ?_, fun a o known l mem => ?_, fun carried echoes received => ?_,
    e.setup.product_fits, fun r now t => Relay.ttl_of_task?, fun u e' => receiveUnicast_ttl,
    fun g a quality routed => ?_⟩
  · rw [sized.setup]
    exact (sized.each known).echoes
  · have few := (sized.each known).samples l mem
    exact ⟨few, Link.total_lt few, l.average_lt⟩
  · exact Estimator.fits e.setup.config.maxQuality.toNat_lt e.setup.scale_pos carried echoes received
  · obtain ⟨found, -⟩ := Option.filter_eq_some_iff.mp routed
    obtain ⟨o, -, found⟩ := Option.bind_eq_some_iff.mp found
    obtain ⟨l, -, rfl⟩ := Option.map_eq_some_iff.mp found
    exact GatewayList.score_lt _ g l.average_lt

end Engine

end BeaconMesh
