import BeaconMesh.Proofs.Engine.Fields
import BeaconMesh.Proofs.Engine.History
import BeaconMesh.Proofs.Engine.Upkeep

/-!
# Gateways and originators agree

The gateway class of a node is kept with what is known of the node, and again in the list of
gateways, which also holds deleted entries for a while. `Lists` says when the two agree. Each change
of the list keeps it for the classes that belong to the change, so every call does.
-/

namespace BeaconMesh

namespace GatewayList

/-- Whether a list has at most one entry for a node, and its active ones are those of the nodes with
a class. -/
structure Lists (t : GatewayList) (level : Addr → UInt8) : Prop where
  unique : (t.entries.map Gateway.orig).Nodup
  active : ∀ g ∈ t.entries, g.isActive = true → g.level ≠ 0 ∧ level g.orig = g.level
  listed : ∀ a, level a ≠ 0 → ∃ g ∈ t.entries, g.orig = a ∧ g.isActive = true

variable {t : GatewayList} {level : Addr → UInt8} {orig : Addr} {c : UInt8} {f : Gateway → Gateway}

theorem Lists.iff (h : t.Lists level) (a : Addr) (c : UInt8) :
    (∃ g ∈ t.entries, g.orig = a ∧ g.isActive = true ∧ g.level = c) ↔ c ≠ 0 ∧ level a = c := by
  constructor
  · rintro ⟨g, mem, rfl, live, rfl⟩
    exact h.active g mem live
  · rintro ⟨some, rfl⟩
    obtain ⟨g, mem, rfl, live⟩ := h.listed a some
    exact ⟨g, mem, rfl, live, (h.active g mem live).2.symm⟩

theorem Lists.of_entries {t' : GatewayList} (h : t.Lists level) (same : t'.entries = t.entries) :
    t'.Lists level :=
  ⟨same ▸ h.unique, same ▸ h.active, same ▸ h.listed⟩

theorem get?_isSome_iff : (t.get? orig).isSome = true ↔ ∃ g ∈ t.entries, g.orig = orig := by
  unfold get?
  rw [List.find?_isSome]
  simp only [decide_eq_true_eq]

theorem mem_modify {g' : Gateway} :
    g' ∈ (t.modify orig f).entries ↔ ∃ g ∈ t.entries, (if g.orig = orig then f g else g) = g' :=
  List.mem_map

theorem map_orig_modify (keeps : ∀ g, (f g).orig = g.orig) :
    (t.modify orig f).entries.map Gateway.orig = t.entries.map Gateway.orig := by
  unfold modify
  rw [List.map_map]
  apply List.map_congr_left
  intro g _
  show (if g.orig = orig then f g else g).orig = g.orig
  split
  · exact keeps g
  · rfl

/-- Entries of one node are changed to fit the class that it has from now on. -/
theorem Lists.modify (h : t.Lists level) (keeps : ∀ g, (f g).orig = g.orig)
    (active : ∀ g, (f g).isActive = true → c ≠ 0 ∧ (f g).level = c)
    (listed : c ≠ 0 → ∃ g ∈ t.entries, g.orig = orig ∧ (f g).isActive = true) :
    (t.modify orig f).Lists fun a => if orig = a then c else level a := by
  refine ⟨?_, ?_, ?_⟩
  · rw [map_orig_modify keeps]
    exact h.unique
  · intro g' mem live
    obtain ⟨g, known, rfl⟩ := mem_modify.mp mem
    split at live
    · rename_i here
      obtain ⟨some, same⟩ := active g live
      rw [if_pos here, if_pos ((keeps g).trans here).symm, same]
      exact ⟨some, rfl⟩
    · rename_i other
      rw [if_neg other, if_neg (Ne.symm other)]
      exact h.active g known live
  · intro a some
    split at some
    · rename_i here
      obtain ⟨g, known, same, live⟩ := listed some
      refine ⟨f g, mem_modify.mpr ⟨g, known, if_pos same⟩, ?_, live⟩
      rw [keeps, same, here]
    · rename_i other
      obtain ⟨g, known, rfl, live⟩ := h.listed a some
      exact ⟨g, mem_modify.mpr ⟨g, known, if_neg (Ne.symm other)⟩, rfl, live⟩

theorem retire_orig (now : Time) (g : Gateway) : (retire now g).orig = g.orig := by
  unfold retire
  split <;> rfl

theorem isActive_retire (now : Time) (g : Gateway) : (retire now g).isActive = false := by
  unfold retire
  split
  · rfl
  · rename_i gone
    exact Bool.eq_false_iff.mpr gone

theorem Lists.retire (h : t.Lists level) (orig : Addr) (now : Time) :
    (t.modify orig (retire now)).Lists fun a => if orig = a then 0 else level a := by
  refine h.modify (retire_orig now) ?_ (absurd rfl)
  intro g live
  rw [isActive_retire] at live
  cases live

theorem Lists.append (h : t.Lists level) (new : (t.get? orig).isSome = false) (some : c ≠ 0) :
    GatewayList.Lists { t with entries := t.entries ++ [{ orig, level := c }] }
      fun a => if orig = a then c else level a := by
  have other : ∀ g ∈ t.entries, orig ≠ g.orig := by
    intro g mem same
    rw [get?_isSome_iff.mpr ⟨g, mem, same.symm⟩] at new
    cases new
  refine ⟨?_, ?_, ?_⟩
  · rw [List.map_append, List.nodup_append]
    refine ⟨h.unique, List.pairwise_singleton _ _, ?_⟩
    intro a mem b last
    obtain ⟨g, known, rfl⟩ := List.mem_map.mp mem
    rw [List.mem_singleton.mp last]
    exact (other g known).symm
  · intro g mem live
    rcases List.mem_append.mp mem with known | last
    · rw [if_neg (other g known)]
      exact h.active g known live
    · rw [List.mem_singleton.mp last, if_pos rfl]
      exact ⟨some, rfl⟩
  · intro a advertised
    split at advertised
    · rename_i here
      exact ⟨_, List.mem_append_right _ (List.mem_singleton_self _), here, rfl⟩
    · obtain ⟨g, known, same, live⟩ := h.listed a advertised
      exact ⟨g, List.mem_append_left _ known, same, live⟩

theorem Lists.update (h : t.Lists level) (orig : Addr) (c : UInt8) (now : Time) :
    (t.update orig c now).Lists fun a => if orig = a then c else level a := by
  unfold GatewayList.update
  split
  · rename_i none
    subst none
    exact h.retire orig now
  rename_i some
  split
  · rename_i known
    obtain ⟨g, mem, same⟩ := get?_isSome_iff.mp known
    refine h.modify ?_ ?_ ?_
    · exact fun _ => rfl
    · exact fun _ _ => ⟨some, rfl⟩
    · exact fun _ => ⟨g, mem, same, rfl⟩
  · rename_i new
    exact h.append (Bool.eq_false_iff.mpr new) some

theorem Lists.markDeleted (h : t.Lists level) (orig : Addr) (now : Time) :
    (t.markDeleted orig now).Lists fun a => if orig = a then 0 else level a :=
  (h.retire orig now).of_entries rfl

theorem isOld_of_isActive {g : Gateway} (live : g.isActive = true) (now timeout : Time) :
    isOld now timeout g = false := by
  unfold isOld
  rw [Option.isNone_iff_eq_none.mp live]

theorem Lists.purge (h : t.Lists level) (now timeout : Time) :
    (t.purge now timeout).Lists level := by
  refine ⟨?_, ?_, ?_⟩
  · exact h.unique.sublist (List.filter_sublist.map _)
  · intro g mem live
    exact h.active g (List.mem_filter.mp mem).1 live
  · intro a some
    obtain ⟨g, mem, same, live⟩ := h.listed a some
    refine ⟨g, List.mem_filter.mpr ⟨mem, ?_⟩, same, live⟩
    rw [isOld_of_isActive live, Bool.not_false]

end GatewayList

namespace Engine

variable {e e' : Engine} {b : Beacon} {hop : Hop} {now : Time}

/-- Whether the list of gateways agrees with what is known of every node. -/
def GatewaysAgree (e : Engine) : Prop :=
  e.gateways.Lists (e.origins.field Originator.gatewayClass 0)

theorem GatewaysAgree.same (h : e.GatewaysAgree) (gateways : e'.gateways = e.gateways)
    (same : SameField Originator.gatewayClass 0 e e') : e'.GatewaysAgree := by
  unfold GatewaysAgree
  rw [gateways, funext same]
  exact h

/-! ### Beacons that come in -/

theorem hear_gateways (e : Engine) (b : Beacon) (hop : Hop) (now : Time) :
    SameField Originator.gatewayClass 0 e (e.hear b hop now) := by
  apply hear_sameField
  · rfl
  · intro o
    obtain ⟨_, _, _, _, _, frame⟩ := o.hear_frame b.seqno b.ttl hop now
    rw [frame]

theorem field_heed (e : Engine) (b : Beacon) (now : Time)
    (known : (e.origins.get? b.orig).isSome = true) (a : Addr) :
    (e.heed b now).origins.field Originator.gatewayClass 0 a =
      if b.orig = a then b.gatewayClass else e.origins.field Originator.gatewayClass 0 a := by
  have announced := HostTable.applyRemote_sameButHosts e.hosts e.origins b.orig b.hosts now
  have others : (e.hosts.applyRemote e.origins b.orig b.hosts now).2.field
      Originator.gatewayClass 0 a = e.origins.field Originator.gatewayClass 0 a :=
    announced.field (fun _ _ => rfl) a
  unfold heed
  dsimp only
  unfold Origins.field at others ⊢
  rw [Origins.get?_modify]
  split
  · rename_i here
    obtain ⟨o, found⟩ := Option.isSome_iff_exists.mp ((announced.known b.orig).trans known)
    rw [← here, found]
    rfl
  · exact others

theorem GatewaysAgree.heed (h : e.GatewaysAgree) (b : Beacon) (now : Time)
    (known : (e.origins.get? b.orig).isSome = true) : (e.heed b now).GatewaysAgree := by
  unfold GatewaysAgree
  rw [funext (field_heed e b now known)]
  exact GatewayList.Lists.update h b.orig b.gatewayClass now

theorem rank_known (e : Engine) (b : Beacon) (hop : Hop) {a : Addr}
    (known : (e.origins.get? a).isSome = true) : ((e.rank b hop).origins.get? a).isSome = true := by
  unfold rank
  split
  · rename_i o _
    change ((e.origins.insert b.orig (ranked o b hop).1).get? a).isSome = true
    rw [Origins.get?_insert]
    split
    · rfl
    · exact known
  · exact known

theorem assess_known {assessed : Engine} {estimate : Estimate} (admitted : e.setup.Admits b hop)
    (judged : (e.hear b hop now).assess b hop now = .ok (assessed, estimate)) :
    (assessed.origins.get? b.orig).isSome = true := by
  have heard : ((e.hear b hop now).origins.get? b.orig).isSome = true := by
    change ((e.origins.upsert b.orig now fun o => o.hear b.seqno b.ttl hop now).get? _).isSome = _
    rw [Origins.get?_upsert, if_pos rfl]
    rfl
  have peer : (e.hear b hop now).setup.IsPeer hop.addr := admitted.sender
  exact (Update.assess peer judged).known heard

theorem field_adopt (e : Engine) (b : Beacon) (hop : Hop) (twoWay : Bool) (now : Time)
    (known : (e.origins.get? b.orig).isSome = true) :
    (e.adopt b hop false twoWay now).origins.field Originator.gatewayClass 0 b.orig =
      b.gatewayClass := by
  cases twoWay with
  | false => exact (field_heed e b now known b.orig).trans (if_pos rfl)
  | true => exact (field_heed _ b now (rank_known e b hop known) b.orig).trans (if_pos rfl)

theorem GatewaysAgree.adopt (h : e.GatewaysAgree) (b : Beacon) (hop : Hop)
    (duplicate twoWay : Bool) (now : Time) (known : (e.origins.get? b.orig).isSome = true) :
    (e.adopt b hop duplicate twoWay now).GatewaysAgree := by
  unfold Engine.adopt
  cases duplicate with
  | true => exact h
  | false =>
    cases twoWay with
    | false => exact h.heed b now known
    | true =>
      have keeps : ∀ o : Originator, (ranked o b hop).1.gatewayClass = o.gatewayClass := by
        intro o
        obtain ⟨_, frame⟩ := o.ranked_frame b hop
        rw [frame]
        rfl
      have ranks := h.same (rank_upkeep e b hop).gateways (rank_sameField e b hop keeps)
      exact ranks.heed b now (rank_known e b hop known)

theorem Takes.gatewaysAgree {outcome : PacketOutcome} (h : e.Takes b hop now outcome e')
    (agree : e.GatewaysAgree) : e'.GatewaysAgree := by
  cases h with
  | refused => exact agree
  | echo =>
    refine agree.same (hearEcho_upkeep _ _ _ _ _).gateways (hearEcho_sameField _ _ _ _ _ rfl ?_)
    exact fun _ _ _ => rfl
  | late => exact agree.same rfl (hear_gateways e b hop now)
  | @judged _ duplicate _ _ admitted _ work =>
    obtain ⟨assessed, estimate, _, judged, considered, -⟩ := judge_eq_ok.mp work
    have known := assess_known admitted judged
    have first : (e.hear b hop now).GatewaysAgree := agree.same rfl (hear_gateways e b hop now)
    have second : assessed.GatewaysAgree := by
      apply first.same (assess_upkeep judged).gateways
      apply assess_sameField judged
      · rfl
      · exact fun _ _ _ => rfl
    have adopted := second.adopt (b.judged estimate) hop duplicate estimate.twoWay now known
    exact adopted.same (considerRelay_same considered).gateways
      (.of_origins (considerRelay_same considered).origins)

/-- What is known of the originator of a fresh beacon is the class that the beacon advertises. -/
theorem Takes.field {twoWay relayed : Bool}
    (h : e.Takes b hop now (.beacon false twoWay relayed) e') :
    e'.origins.field Originator.gatewayClass 0 b.orig = b.gatewayClass := by
  cases h with
  | judged admitted _ work =>
    obtain ⟨assessed, estimate, _, judged, considered, -⟩ := judge_eq_ok.mp work
    have known := assess_known admitted judged
    rw [(considerRelay_same considered).origins]
    exact field_adopt assessed (b.judged estimate) hop estimate.twoWay now known

/-! ### Sweeps -/

theorem Decay.gatewaysAgree (h : Decay e e') (agree : e.GatewaysAgree) : e'.GatewaysAgree := by
  cases h with
  | quiet same => exact agree.same same.gateways (.of_origins same.origins)
  | forget a now =>
    unfold Engine.forget
    split
    · show GatewayList.Lists (e.gateways.markDeleted a now)
        ((e.origins.erase a).field Originator.gatewayClass 0)
      rw [funext (Origins.field_erase e.origins a)]
      exact GatewayList.Lists.markDeleted agree a now
    · exact agree
  | prune now =>
    refine agree.same rfl (Origins.field_map ?_)
    intro _ o _
    obtain ⟨_, frame⟩ := o.prune_frame now e.setup.timeout
    rw [frame]
  | expire now =>
    have left := HostTable.purge_sameButHosts e.hosts e.origins now e.setup.config.hostAge.toNat
    exact agree.same rfl (left.field fun _ _ => rfl)
  | gateway now =>
    have purged := GatewayList.Lists.purge agree now e.setup.timeout
    unfold GatewaysAgree
    rw [(chooseGateway_tables e now).2.1]
    unfold chooseGateway
    dsimp only
    split
    · exact purged
    · exact purged.of_entries rfl

theorem Decays.gatewaysAgree (h : Decays e e') (agree : e.GatewaysAgree) : e'.GatewaysAgree := by
  induction h with
  | refl => exact agree
  | tail _ last ih => exact last.gatewaysAgree ih

/-! ### Calls and runs -/

theorem step_gatewaysAgree {c : Call} {r : Reply} (made : e.step c = .ok (e', r))
    (agree : e.GatewaysAgree) : e'.GatewaysAgree := by
  cases step_does made with
  | start work =>
    exact agree.same (start_same work).gateways (.of_origins (start_same work).origins)
  | beacon _ taken => exact taken.gatewaysAgree agree
  | data other carried =>
    refine agree.same (packet_upkeep other made).gateways (carried.sameField ?_)
    exact fun _ _ _ => rfl
  | frame bridged =>
    exact agree.same (frame_upkeep made).gateways (.of_origins bridged.origins)
  | poll work =>
    have settled := agree.same work.upkeep.gateways (work.sameField fun _ _ => rfl)
    split
    · exact (sweep_decays _ _).gatewaysAgree settled
    · exact settled
  | sweep now => exact (sweep_decays e now).gatewaysAgree agree
  | shutdown now => exact (shutdown_decays e now).gatewaysAgree agree

theorem run_gatewaysAgree {s : Setup} {jitter : Jitter} {cs : List Call} {e : Engine}
    (h : (Engine.new s jitter).run cs = .ok e) : e.GatewaysAgree :=
  run_of_step step_gatewaysAgree h ⟨.nil, nofun, fun _ some => absurd rfl some⟩

/-- The active gateways are those that originators advertise, each listed once with its class. -/
theorem gateways_agree {s : Setup} {jitter : Jitter} {cs : List Call} {e : Engine}
    (h : (Engine.new s jitter).run cs = .ok e) :
    (e.gateways.entries.map Gateway.orig).Nodup ∧
      (∀ (a : Addr) (level : UInt8),
        (∃ g ∈ e.gateways.entries, g.orig = a ∧ g.isActive = true ∧ g.level = level) ↔
          level ≠ 0 ∧ ∃ o, e.origins.get? a = some o ∧ o.gatewayClass = level) ∧
      ∀ (c : Call) (x : Reception) (e' : Engine) (twoWay relayed : Bool) (level : UInt8),
        c.reception? false = some x → e.step c = .ok (e', .packet (.beacon false twoWay relayed)) →
        ((∃ g ∈ e'.gateways.entries, g.orig = x.beacon.orig ∧ g.isActive = true ∧ g.level = level) ↔
          level ≠ 0 ∧ x.beacon.gatewayClass = level) := by
  have agree : e.GatewaysAgree := run_gatewaysAgree h
  refine ⟨agree.unique, ?_, ?_⟩
  · intro a level
    rw [agree.iff a level]
    refine and_congr_right fun some => ?_
    unfold Origins.field
    cases e.origins.get? a with
    | none => simp [Ne.symm some]
    | some o => simp
  · intro c x e' twoWay relayed level brought made
    have agree' : e'.GatewaysAgree := step_gatewaysAgree made agree
    obtain ⟨_, ⟨⟩, taken⟩ := (step_does made).takes brought
    rw [agree'.iff x.beacon.orig level, taken.field]

/-- The neighbour and the node behind it become gateways and stop, and the neighbour returns. -/
def returningGateway : List Call :=
  [.start 0, .beacon { orig := Sample.near, seqno := 1, gatewayClass := 5 } Sample.near 0 10,
    .beacon { Sample.relayed 1 [] with gatewayClass := 3 } Sample.near 0 20,
    .beacon { orig := Sample.near, seqno := 2 } Sample.near 0 30,
    .beacon (Sample.relayed 2 []) Sample.near 0 40,
    .beacon { orig := Sample.near, seqno := 3, gatewayClass := 7 } Sample.near 0 50]

theorem gateways_agree_sample :
    ∃ e, (Engine.new Sample.setup default).run returningGateway = .ok e ∧
      e.gateways.entries.map Gateway.orig = [Sample.near, Sample.far] ∧
      (e.gateways.entries.map Gateway.orig).Nodup ∧
      (∃ g ∈ e.gateways.entries, g.orig = Sample.near ∧ g.isActive = true ∧ g.level = 7) ∧
      ∀ g ∈ e.gateways.entries, g.orig = Sample.far → g.isActive = false := by
  have reached : ∃ e, (Engine.new Sample.setup default).run returningGateway = .ok e ∧
      e.gateways.entries.map Gateway.orig = [Sample.near, Sample.far] ∧
      (e.origins.get? Sample.near).map Originator.gatewayClass = some 7 ∧
      (e.origins.get? Sample.far).map Originator.gatewayClass = some 0 := ⟨_, rfl, rfl, rfl, rfl⟩
  obtain ⟨e, run, entries, near, far⟩ := reached
  obtain ⟨unique, same, -⟩ := gateways_agree run
  refine ⟨e, run, entries, unique, ?_, ?_⟩
  · exact (same Sample.near 7).mpr ⟨by decide, Option.map_eq_some_iff.mp near⟩
  · intro g mem orig
    cases live : g.isActive with
    | false => rfl
    | true =>
      obtain ⟨some, o, known, level⟩ := (same Sample.far g.level).mp ⟨g, mem, orig, live, rfl⟩
      obtain ⟨o', found, zero⟩ := Option.map_eq_some_iff.mp far
      cases known.symm.trans found
      exact absurd (level.symm.trans zero) some

end Engine

end BeaconMesh
