import BeaconMesh.Proofs.Hosts.Changes

/-!
# Our own addresses in the host table

A frame never makes an address of ours known as a host, but the announcement list of another node
can. `Guarded` says that nothing else does, and `own_addresses_only_announced` says it of every run.
-/

namespace BeaconMesh

namespace HostTable

/-- Whoever owns one of our addresses is a node that announced it. -/
structure Guarded (ours : AddrSet) (announced : Addr → Addr → Prop) (t : HostTable) : Prop where
  own : t.own = ours
  foreign : ∀ host owner, AddrMap.contains ours host = true → t.owner? host = some owner →
    ∃ a, owner = .node a ∧ announced a host

variable {ours : AddrSet} {announced : Addr → Addr → Prop} {t t' : HostTable} {orig host : Addr}

theorem Guarded.sub (h : t.Guarded ours announced) (same : t'.own = t.own)
    (kept : ∀ host owner, t'.owner? host = some owner → t.owner? host = some owner) :
    t'.Guarded ours announced :=
  ⟨same.trans h.own, fun host owner mine found => h.foreign host owner mine (kept host owner found)⟩

theorem Guarded.congr (h : t.Guarded ours announced) (same : t'.own = t.own)
    (entries : t'.entries = t.entries) : t'.Guarded ours announced :=
  h.sub same fun host _ found => (owner?_congr entries host).symm.trans found

/-! ### Announcement lists -/

theorem Guarded.withdraw (h : t.Guarded ours announced) (orig host : Addr) :
    (withdraw orig t host).Guarded ours announced := by
  unfold HostTable.withdraw
  split
  · refine h.sub rfl fun other owner found => ?_
    change (t.without host).owner? other = some owner at found
    rw [owner?_without] at found
    split at found
    · cases found
    · exact found
  · exact h

theorem Guarded.withdrawAll (h : t.Guarded ours announced) (orig : Addr) (hosts : List Addr) :
    (hosts.foldl (HostTable.withdraw orig) t).Guarded ours announced := by
  induction hosts generalizing t with
  | nil => exact h
  | cons host rest ih => exact ih (h.withdraw orig host)

theorem Guarded.take (h : t.Guarded ours announced) (listed : announced orig host) (now : Time) :
    (t.put { host, owner := .node orig, lastRefresh := now }).Guarded ours announced := by
  refine ⟨h.own, fun other owner mine found => ?_⟩
  rw [owner?_put] at found
  split at found
  · rename_i same
    cases found
    exact ⟨orig, rfl, same ▸ listed⟩
  · exact h.foreign other owner mine found

theorem Guarded.announce (h : t.Guarded ours announced) (listed : announced orig host) (now : Time)
    (origins : Origins) :
    (HostTable.announce orig now (t, origins) host).1.Guarded ours announced := by
  have taken := h.take listed now
  have assigned : (t.assign host (.node orig) now).Guarded ours announced := taken.congr rfl rfl
  unfold HostTable.announce
  dsimp only
  split
  · split
    · exact taken
    · exact assigned
  · exact assigned

theorem Guarded.announceAll {hosts : List Addr} (listed : ∀ host ∈ hosts, announced orig host)
    (now : Time) (h : t.Guarded ours announced) (origins : Origins) :
    (hosts.foldl (HostTable.announce orig now) (t, origins)).1.Guarded ours announced := by
  induction hosts generalizing t origins with
  | nil => exact h
  | cons host rest ih =>
    obtain ⟨first, others⟩ := List.forall_mem_cons.mp listed
    exact ih others (h.announce first now origins) _

/-- A list is taken over as it is, own addresses included. -/
theorem Guarded.applyRemote {hosts : List Addr} (listed : ∀ host ∈ hosts, announced orig host)
    (h : t.Guarded ours announced) (origins : Origins) (now : Time) :
    (t.applyRemote origins orig hosts now).1.Guarded ours announced := by
  unfold HostTable.applyRemote
  split
  · exact h
  · rename_i o _
    refine (h.withdrawAll orig _).announceAll (fun host mem => listed host ?_) now origins
    have known := AddrSet.contains_ofList.mp (AddrMap.mem_keys_iff.mp mem)
    exact (List.mem_filter.mp known).1

/-! ### Everything else -/

theorem Guarded.learn (h : t.Guarded ours announced) (host : Addr) (now : Time) :
    (t.learn host now).Guarded ours announced := by
  unfold HostTable.learn
  split
  · rename_i fresh
    simp only [HostTable.learns, Bool.and_eq_true, Bool.not_eq_true'] at fresh
    obtain ⟨⟨-, other⟩, -⟩ := fresh
    refine ⟨h.own, fun known owner mine found => ?_⟩
    let entry : HostEntry := { host, owner := .here, lastRefresh := now }
    have put : (t.put entry).owner? known = some owner := found
    rw [owner?_put] at put
    split at put
    · rename_i same
      rw [h.own, show host = known from same, mine] at other
      cases other
    · exact h.foreign known owner mine put
  · split
    · refine h.sub rfl fun known owner found => ?_
      unfold owner? get? at found ⊢
      rw [AddrMap.get?_modify] at found
      split at found
      · rw [Option.map_map] at found
        rw [← found]
        refine congrArg (Option.map · _) (funext fun x => ?_)
        dsimp only [Function.comp]
        split <;> rfl
      · exact found
    · exact h

theorem Guarded.removeOwner (h : t.Guarded ours announced) (orig : Addr) :
    (t.removeOwner orig).Guarded ours announced := by
  refine h.sub rfl fun host owner found => ?_
  rw [owner?_removeOwner] at found
  split at found
  · cases found
  · exact found

theorem Guarded.refresh (h : t.Guarded ours announced) : t.refresh.Guarded ours announced := by
  unfold HostTable.refresh
  split
  · exact h.congr rfl rfl
  · exact h

theorem Guarded.purge (h : t.Guarded ours announced) (origins : Origins) (now age : Time) :
    (t.purge origins now age).1.Guarded ours announced := by
  refine List.foldlRecOn
    (motive := fun tables : HostTable × Origins => tables.1.Guarded ours announced) _ _ h
    fun tables guarded x _ => guarded.sub rfl fun host owner found => ?_
  change (tables.1.without x.host).owner? host = some owner at found
  rw [owner?_without] at found
  split at found
  · cases found
  · exact found

end HostTable

namespace Engine

open HostTable (Guarded)

variable {ours : AddrSet} {announced : Addr → Addr → Prop} {e e' : Engine} {now : Time}

theorem Decay.guarded (h : Decay e e') (guarded : e.hosts.Guarded ours announced) :
    e'.hosts.Guarded ours announced := by
  cases h with
  | quiet same => exact same.hosts ▸ guarded
  | forget a now =>
    unfold Engine.forget
    split
    · exact guarded.removeOwner a
    · exact guarded
  | prune => exact guarded
  | expire now => exact guarded.purge _ now _
  | gateway now =>
    obtain ⟨-, -, hosts, -⟩ := chooseGateway_tables e now
    exact hosts ▸ guarded

theorem Decays.guarded (h : Decays e e') (guarded : e.hosts.Guarded ours announced) :
    e'.hosts.Guarded ours announced := by
  induction h with
  | refl => exact guarded
  | tail _ last ih => exact last.guarded ih

theorem perform_guarded {t : Task} (h : e.perform t now = .ok e')
    (guarded : e.hosts.Guarded ours announced) : e'.hosts.Guarded ours announced := by
  rcases perform_cases h with ⟨-, rfl⟩ | ⟨iface, -, scheduled⟩
  · exact guarded
  · rw [(scheduleOwn_same scheduled).hosts]
    exact guarded.refresh

theorem Performs.guarded {ts : List Task} (h : Performs now e ts e')
    (guarded : e.hosts.Guarded ours announced) : e'.hosts.Guarded ours announced := by
  induction h with
  | none => exact guarded
  | task _ work _ ih => exact ih (perform_guarded work guarded)

theorem adopt_guarded {b : Beacon} (listed : ∀ host ∈ b.hosts, announced b.orig host) (hop : Hop)
    (duplicate twoWay : Bool) (guarded : e.hosts.Guarded ours announced) :
    (e.adopt b hop duplicate twoWay now).hosts.Guarded ours announced := by
  have heeded : ∀ x : Engine, x.hosts = e.hosts →
      (x.heed b now).hosts.Guarded ours announced := by
    intro x same
    refine Guarded.applyRemote listed ?_ x.origins now
    exact same ▸ guarded
  unfold adopt
  cases duplicate with
  | true => exact guarded
  | false =>
    refine heeded _ ?_
    cases twoWay with
    | true => exact rank_hosts e b hop
    | false => rfl

theorem Takes.guarded {b : Beacon} {hop : Hop} {outcome : PacketOutcome}
    (h : e.Takes b hop now outcome e') (listed : ∀ host ∈ b.hosts, announced b.orig host)
    (guarded : e.hosts.Guarded ours announced) : e'.hosts.Guarded ours announced := by
  cases h with
  | refused => exact guarded
  | echo =>
    unfold hearEcho
    split <;> exact guarded
  | late => exact guarded
  | judged _ _ work =>
    obtain ⟨assessed, estimate, relayed, judged, considered, -⟩ := judge_eq_ok.mp work
    have assessed_guarded : assessed.hosts.Guarded ours announced := by
      rw [assess_hosts judged]
      exact guarded
    rw [(considerRelay_same considered).hosts]
    exact adopt_guarded (b := b.judged estimate) listed hop _ estimate.twoWay assessed_guarded

/-- A call makes an address of ours known only by an announcement list that names it. -/
theorem Does.guarded {c : Call} {r : Reply} (h : Does e c r e')
    (listed : ∀ x, c.reception? false = some x → ∀ host ∈ x.beacon.hosts,
      announced x.beacon.orig host)
    (guarded : e.hosts.Guarded ours announced) : e'.hosts.Guarded ours announced := by
  cases h with
  | start work => exact (start_same work).hosts ▸ guarded
  | beacon brought taken => exact taken.guarded (listed _ brought) guarded
  | data _ carried => exact carried.hosts ▸ guarded
  | frame bridged =>
    rcases bridged.hosts with same | ⟨host, learned⟩
    · exact same ▸ guarded
    · rw [learned]
      exact guarded.learn host _
  | poll work =>
    have settled := work.guarded guarded
    split
    · exact Decays.guarded (sweep_decays _ _) settled
    · exact settled
  | sweep now => exact Decays.guarded (sweep_decays e now) guarded
  | shutdown now => exact Decays.guarded (shutdown_decays e now) guarded

theorem run_guarded {cs : List Call} (h : e.run cs = .ok e')
    (listed : ∀ c ∈ cs, ∀ x, c.reception? false = some x → ∀ host ∈ x.beacon.hosts,
      announced x.beacon.orig host)
    (guarded : e.hosts.Guarded ours announced) : e'.hosts.Guarded ours announced := by
  induction cs generalizing e with
  | nil =>
    cases h
    exact guarded
  | cons c cs ih =>
    obtain ⟨⟨next, r⟩, first, h⟩ := Fault.bind_ok h
    obtain ⟨here, later⟩ := List.forall_mem_cons.mp listed
    exact ih h later ((step_does first).guarded here guarded)

/-- Nobody owns one of our own addresses but a node whose beacon announced it to us. -/
theorem own_addresses_only_announced {s : Setup} {jitter : Jitter} {cs : List Call} {e : Engine}
    (h : (Engine.new s jitter).run cs = .ok e) {host : Addr} (mine : s.isMine host = true)
    {owner : Owner} (found : e.hosts.owner? host = some owner) :
    ∃ c ∈ cs, ∃ x, c.reception? false = some x ∧ owner = .node x.beacon.orig ∧
      host ∈ x.beacon.hosts := by
  let ours : AddrSet := .ofList (s.ifaces.map Iface.addr)
  let announced (a host : Addr) : Prop :=
    ∃ c ∈ cs, ∃ x, c.reception? false = some x ∧ x.beacon.orig = a ∧ host ∈ x.beacon.hosts
  have start : (Engine.new s jitter).hosts.Guarded ours announced := ⟨rfl, nofun⟩
  have guarded := run_guarded h (fun c mem x brought host listed =>
    ⟨c, mem, x, brought, rfl, listed⟩) start
  have kept : AddrMap.contains ours host = true := by
    obtain ⟨i, listed, same⟩ := List.any_eq_true.mp mine
    exact AddrSet.contains_ofList.mpr (List.mem_map.mpr ⟨i, listed, of_decide_eq_true same⟩)
  obtain ⟨a, rfl, c, mem, x, brought, rfl, listed⟩ := guarded.foreign host owner kept found
  exact ⟨c, mem, x, brought, rfl, listed⟩

/-- A neighbour announces the address of our first interface. -/
def claimsOurs : List Call :=
  [.beacon { orig := Sample.near, seqno := 1, hosts := [Sample.setup.primary] } Sample.near 0 5]

theorem own_addresses_only_announced_sample :
    ∃ e, (Engine.new Sample.setup default).run claimsOurs = .ok e ∧
      Sample.setup.isMine Sample.setup.primary = true ∧
      e.hosts.owner? Sample.setup.primary = some (.node Sample.near) ∧
      ∃ c ∈ claimsOurs, ∃ x, c.reception? false = some x ∧ .node Sample.near = Owner.node x.beacon.orig ∧
        Sample.setup.primary ∈ x.beacon.hosts := by
  have reached : ∃ e, (Engine.new Sample.setup default).run claimsOurs = .ok e ∧
      e.hosts.owner? Sample.setup.primary = some (.node Sample.near) := ⟨_, rfl, rfl⟩
  obtain ⟨e, run, owned⟩ := reached
  exact ⟨e, run, rfl, owned, own_addresses_only_announced run rfl owned⟩

/-- Not even an address of our own is safe from the lists of others. -/
theorem own_address_learned :
    ∃ e, (Engine.new Sample.setup default).run claimsOurs = .ok e ∧
      Sample.setup.isMine Sample.setup.primary = true ∧
      e.hosts.owner? Sample.setup.primary = some (.node Sample.near) :=
  ⟨_, rfl, rfl, rfl⟩

end Engine

end BeaconMesh
