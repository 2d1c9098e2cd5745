import BeaconMesh.Proofs.Hosts.Current

/-!
# What is forgotten

A sweep forgets nodes that are stale, then drops old links, then hosts that expired. Nodes and hosts
go one at a time; here is what is left in the end.
-/

namespace BeaconMesh

theorem Origins.contains_iff {t : Origins} {a : Addr} :
    t.contains a = true ↔ ∃ o, t.get? a = some o := AddrMap.contains_iff

/-! ### Hosts -/

namespace HostTable

variable {t : HostTable} {origins : Origins} {now age : Time} {a host : Addr} {x : HostEntry}

theorem isExpired_congr {t' : HostTable} (own : t'.own = t.own) (now age : Time)
    (x : HostEntry) : t'.isExpired now age x = t.isExpired now age x := by
  unfold isExpired
  rw [own]

theorem mem_expired_iff (named : t.Named) :
    x ∈ t.expired now age ↔ t.get? x.host = some x ∧ t.isExpired now age x = true := by
  unfold expired toList
  rw [List.mem_filter, and_congr_left_iff]
  rintro -
  constructor
  · intro listed
    obtain ⟨⟨host, _⟩, stored, rfl⟩ := List.mem_map.mp listed
    have found := AddrMap.mem_toList_iff.mp stored
    rw [(named host _ found).1]
    exact found
  · intro found
    exact List.mem_map.mpr ⟨(x.host, x), AddrMap.mem_toList_iff.mpr found, rfl⟩

theorem get?_foldl_forget (xs : List HostEntry) (tables : HostTable × Origins) (host : Addr) :
    (xs.foldl forget tables).1.get? host =
      if ∃ x ∈ xs, x.host = host then none else tables.1.get? host := by
  induction xs generalizing tables with
  | nil => rfl
  | cons x rest ih =>
    have first : (forget tables x).1.get? host =
        if x.host = host then none else tables.1.get? host := AddrMap.get?_erase _ _ _
    rw [List.foldl_cons, ih, first]
    by_cases here : x.host = host <;> simp [here]

theorem get?_purge (named : t.Named) (origins : Origins) (now age : Time) (host : Addr) :
    (t.purge origins now age).1.get? host =
      (t.get? host).filter fun x => ! t.isExpired now age x := by
  unfold purge
  rw [get?_foldl_forget]
  split
  · rename_i gone
    obtain ⟨x, expired, rfl⟩ := gone
    obtain ⟨found, late⟩ := (mem_expired_iff named).mp expired
    rw [found, Option.filter_some, late]
    rfl
  · rename_i stays
    cases found : t.get? host with
    | none => rfl
    | some x =>
      have key := (named host x found).1
      have fresh : t.isExpired now age x = false := by
        refine Bool.eq_false_iff.mpr fun late => stays ⟨x, ?_, key⟩
        exact (mem_expired_iff named).mpr ⟨key ▸ found, late⟩
      rw [Option.filter_some, fresh]
      rfl

theorem announces_foldl_forget (xs : List HostEntry) (tables : HostTable × Origins)
    (a host : Addr) :
    (xs.foldl forget tables).2.Announces a host ↔
      tables.2.Announces a host ∧ ∀ x ∈ xs, ¬ (x.owner = .node a ∧ host = x.host) := by
  induction xs generalizing tables with
  | nil => simp
  | cons x rest ih =>
    rw [List.foldl_cons, ih, announces_forget, and_assoc, List.forall_mem_cons]

theorem announces_purge (coherent : Coherent t origins) :
    (t.purge origins now age).2.Announces a host ↔
      origins.Announces a host ∧ ∀ x, t.get? host = some x → t.isExpired now age x = false := by
  unfold purge
  rw [announces_foldl_forget, and_congr_right_iff]
  intro announced
  constructor
  · intro kept x found
    refine Bool.eq_false_iff.mpr fun late => ?_
    have key := (coherent.named host x found).1
    have listed := (mem_expired_iff coherent.named).mpr ⟨key.symm ▸ found, late⟩
    have owned := (coherent.owned a host).mpr announced
    rw [owner?_eq_some found] at owned
    exact kept x listed ⟨Option.some.inj owned, key.symm⟩
  · rintro fresh x expired ⟨-, rfl⟩
    obtain ⟨found, late⟩ := (mem_expired_iff coherent.named).mp expired
    rw [fresh x found] at late
    cases late

theorem foldl_forget_frame (xs : List HostEntry) (tables : HostTable × Origins) :
    ∃ entries changed, (xs.foldl forget tables).1 = { tables.1 with entries, changed } := by
  induction xs generalizing tables with
  | nil => exact ⟨_, _, rfl⟩
  | cons x rest ih =>
    obtain ⟨entries, changed, eq⟩ := ih (forget tables x)
    exact ⟨entries, changed, eq⟩

end HostTable

namespace Engine

variable {e e' : Engine} {now : Time} {a : Addr}

/-! ### Nodes that are forgotten -/

theorem get?_forget (e : Engine) (now : Time) (a b : Addr) :
    (e.forget now a).origins.get? b = if a = b then none else e.origins.get? b := by
  unfold forget
  split
  · exact Origins.get?_erase e.origins a b
  · rename_i unknown
    split
    · rename_i same
      exact same ▸ unknown
    · rfl

theorem get?_foldl_forget (now : Time) (as : List Addr) (e : Engine) (b : Addr) :
    (as.foldl (forget now) e).origins.get? b = if b ∈ as then none else e.origins.get? b := by
  induction as generalizing e with
  | nil => rfl
  | cons a as ih =>
    rw [List.foldl_cons, ih, get?_forget]
    by_cases here : a = b
    · simp [here]
    · simp [here, Ne.symm here]

theorem get?_forgetStale (e : Engine) (now : Time) (a : Addr) :
    (e.forgetStale now).origins.get? a =
      (e.origins.get? a).filter fun o => ! o.isStale now e.setup.timeout := by
  refine (get?_foldl_forget now _ e a).trans ?_
  cases found : e.origins.get? a with
  | none => exact ite_self _
  | some o =>
    have stale : a ∈ e.origins.stale now e.setup.timeout ↔ o.isStale now e.setup.timeout = true := by
      simp [Origins.mem_stale_iff, found]
    simp only [stale, Option.filter_some]
    cases o.isStale now e.setup.timeout <;> rfl

theorem forgetStale_setup (e : Engine) (now : Time) : (e.forgetStale now).setup = e.setup :=
  (foldl_forget_sweeps now _ e).queue.setup

/-- What goes with some nodes that are forgotten: their hosts do, and their gateways are retired. -/
structure Forgets (now : Time) (as : List Addr) (e e' : Engine) : Prop where
  hosts : ∀ host, e'.hosts.get? host =
    (e.hosts.get? host).filter fun x => decide (∀ a ∈ as, x.owner ≠ .node a)
  gateways : e'.gateways.entries =
    e.gateways.entries.map fun g => if g.orig ∈ as then GatewayList.retire now g else g

theorem forgets_nil (now : Time) (e : Engine) : Forgets now [] e e where
  hosts host := by
    cases e.hosts.get? host with
    | none => rfl
    | some x =>
      have kept : ∀ a ∈ ([] : List Addr), x.owner ≠ .node a := List.forall_mem_nil _
      rw [Option.filter_some, if_pos (decide_eq_true kept)]
  gateways := by simp

theorem get?_removeOwner (t : HostTable) (orig host : Addr) :
    (t.removeOwner orig).get? host =
      (t.get? host).filter fun x => decide (x.owner ≠ .node orig) := by
  unfold HostTable.get? HostTable.removeOwner
  rw [AddrMap.get?_filter]
  congr 1
  funext x
  simp [HostTable.ownedBy]

theorem retire_orig (now : Time) (g : Gateway) : (GatewayList.retire now g).orig = g.orig := by
  unfold GatewayList.retire
  split <;> rfl

theorem Forgets.cons {as : List Addr} (known : e.origins.contains a = true) (fresh : a ∉ as)
    (h : Forgets now as (e.forget now a) e') : Forgets now (a :: as) e e' := by
  obtain ⟨o, found⟩ := AddrMap.contains_iff.mp known
  have first : e.forget now a = { e with
      origins := e.origins.erase a
      hosts := e.hosts.removeOwner a
      gateways := e.gateways.markDeleted a now }.notify o.removeRoute.2.toList := by
    unfold forget Origins.get?
    rw [found]
  rw [first] at h
  refine ⟨fun host => ?_, ?_⟩
  · refine (h.hosts host).trans ?_
    change ((e.hosts.removeOwner a).get? host).filter _ = _
    rw [get?_removeOwner, Option.filter_filter]
    congr 1
    funext x
    simp
  · refine h.gateways.trans ?_
    change ((e.gateways.entries.map _).map _) = _
    rw [List.map_map]
    apply List.map_congr_left
    intro g _
    dsimp only [Function.comp]
    by_cases here : g.orig = a
    · simp [here, retire_orig, fresh]
    · simp [here]

theorem foldl_forget_forgets (now : Time) {as : List Addr} (distinct : as.Nodup)
    (known : ∀ a ∈ as, e.origins.contains a = true) :
    Forgets now as e (as.foldl (forget now) e) := by
  induction as generalizing e with
  | nil => exact forgets_nil now e
  | cons a as ih =>
    obtain ⟨fresh, distinct⟩ := List.nodup_cons.mp distinct
    obtain ⟨here, others⟩ := List.forall_mem_cons.mp known
    refine .cons here fresh (ih distinct fun b mem => ?_)
    -- a node that is not among the forgotten ones so far is still there
    obtain ⟨o, found⟩ := Origins.contains_iff.mp (others b mem)
    have other : a ≠ b := fun same => fresh (same ▸ mem)
    exact Origins.contains_iff.mpr ⟨o, by rw [get?_forget, if_neg other, found]⟩

theorem forgetStale_forgets (e : Engine) (now : Time) :
    Forgets now (e.origins.stale now e.setup.timeout) e (e.forgetStale now) := by
  apply foldl_forget_forgets
  · exact (AddrMap.keys_ascending _).imp fun less => Addr.ne_of_lt less
  · intro a stale
    obtain ⟨o, known, -⟩ := Origins.mem_stale_iff.mp stale
    exact AddrMap.contains_iff.mpr ⟨o, known⟩

/-! ### Sweeps -/

/-- The state between the purge of links and that of hosts. -/
def pruned (e : Engine) (now : Time) : Engine := (e.forgetStale now).pruneLinks now

theorem pruned_setup (e : Engine) (now : Time) : (e.pruned now).setup = e.setup :=
  forgetStale_setup e now

theorem pruned_get? (e : Engine) (now : Time) (a : Addr) :
    (e.pruned now).origins.get? a =
      if a ∈ e.origins.stale now e.setup.timeout then none
      else (e.origins.get? a).map fun o => (o.prune now e.setup.timeout).1 := by
  show ((e.forgetStale now).origins.map fun o =>
    (o.prune now (e.forgetStale now).setup.timeout).1).get? a = _
  rw [Origins.get?_map, forgetStale, get?_foldl_forget, ← forgetStale, forgetStale_setup]
  split <;> rfl

theorem expireHosts_sameButHosts (e : Engine) (now : Time) :
    Origins.SameButHosts e.origins (e.expireHosts now).origins :=
  HostTable.purge_sameButHosts _ _ _ _

theorem sweep_origins (e : Engine) (now : Time) :
    (e.sweep now).origins = ((e.pruned now).expireHosts now).origins :=
  (rearm_same _ now).origins.trans (chooseGateway_tables _ now).2.1

theorem sweep_hosts (e : Engine) (now : Time) :
    (e.sweep now).hosts = ((e.pruned now).expireHosts now).hosts :=
  (rearm_same _ now).hosts.trans (chooseGateway_tables _ now).2.2.1

end Engine

end BeaconMesh
