import BeaconMesh.Proofs.Hosts.Ownership

/-!
# Applying an announcement list

An announcement list is applied host by host, first those that are no longer on it and then those
that are. Here is what the tables hold in the end, whatever the list is: `get?_applyRemote` for the
hosts, `announces_applyRemote_ne` for the sets of the other nodes. If the tables agreed before, that
is exactly what the list says (`remote_list_applied_exactly`).
-/

namespace BeaconMesh

theorem AddrSet.ext {s s' : AddrSet} (h : ∀ a, s.contains a = true ↔ s'.contains a = true) :
    s = s' := by
  apply AddrMap.ext
  intro a
  have members := h a
  unfold AddrMap.contains at members
  cases here : AddrMap.get? s a <;> cases there : AddrMap.get? s' a <;> simp_all

namespace HostTable

variable {t : HostTable} {origins : Origins} {orig a : Addr} {hosts : List Addr}

/-! ### Withdrawals -/

theorem get?_withdraw (orig : Addr) (t : HostTable) (host other : Addr) :
    (withdraw orig t host).get? other =
      if other = host ∧ t.owner? other = some (.node orig) then none else t.get? other := by
  have erased : (t.without host).get? other = if host = other then none else t.get? other :=
    AddrMap.get?_erase t.entries host other
  unfold withdraw
  split
  · rename_i owns
    refine erased.trans ?_
    by_cases here : host = other
    · subst here
      rw [if_pos rfl, if_pos ⟨rfl, owns⟩]
    · rw [if_neg here, if_neg fun both => here both.1.symm]
  · rename_i free
    refine (if_neg ?_).symm
    rintro ⟨rfl, owns⟩
    exact free owns

theorem get?_withdrawAll (orig : Addr) (hosts : List Addr) (t : HostTable) (host : Addr) :
    (hosts.foldl (withdraw orig) t).get? host =
      if host ∈ hosts ∧ t.owner? host = some (.node orig) then none else t.get? host := by
  induction hosts generalizing t with
  | nil => simp
  | cons first rest ih =>
    -- a host that was withdrawn has no owner, so the rest of the list leaves it alone
    have owner : (withdraw orig t first).owner? host =
        if host = first ∧ t.owner? host = some (.node orig) then none else t.owner? host := by
      rw [owner?, get?_withdraw]
      split <;> rfl
    rw [List.foldl_cons, ih, owner, get?_withdraw]
    by_cases here : host = first ∧ t.owner? host = some (.node orig)
    · simp [here]
    · grind

theorem changed_withdrawAll :
    (hosts.foldl (withdraw orig) t).changed = true ↔
      t.changed = true ∨ ∃ host ∈ hosts, t.owner? host = some (.node orig) := by
  induction hosts generalizing t with
  | nil => simp
  | cons first rest ih =>
    rw [List.foldl_cons, ih]
    unfold withdraw
    split
    · rename_i owns
      exact iff_of_true (.inl rfl) (.inr ⟨first, List.mem_cons_self, owns⟩)
    · rename_i free
      simp [free]

theorem withdrawAll_frame (orig : Addr) (hosts : List Addr) (t : HostTable) :
    ∃ entries changed, hosts.foldl (withdraw orig) t = { t with entries, changed } := by
  induction hosts generalizing t with
  | nil => exact ⟨_, _, rfl⟩
  | cons first rest ih =>
    obtain ⟨entries, changed, later⟩ := ih (withdraw orig t first)
    rw [List.foldl_cons, later]
    unfold withdraw
    split <;> exact ⟨_, _, rfl⟩

/-! ### Announcements -/

/-- A host as a node has just announced it. -/
def entry (orig host : Addr) (now : Time) : HostEntry :=
  { host, owner := .node orig, lastRefresh := now }

theorem announce_fst (orig : Addr) (now : Time) (tables : HostTable × Origins) (host : Addr) :
    (announce orig now tables host).1 = { tables.1.put (entry orig host now) with
      changed := tables.1.changed || decide (tables.1.owner? host ≠ some (.node orig)) } := by
  unfold announce
  dsimp only
  split
  · rename_i owner owned
    by_cases same : owner = orig
    · rw [if_pos same, owned, same]
      simp [put, entry]
    · rw [if_neg same, owned]
      simp [assign, entry, same]
  · rename_i unowned
    have other : tables.1.owner? host ≠ some (.node orig) := unowned orig
    simp [assign, entry, other]

theorem get?_announceAll (orig : Addr) (now : Time) (hosts : List Addr)
    (tables : HostTable × Origins) (host : Addr) :
    (hosts.foldl (announce orig now) tables).1.get? host =
      if host ∈ hosts then some (entry orig host now) else tables.1.get? host := by
  induction hosts generalizing tables with
  | nil => simp
  | cons first rest ih =>
    have stored : (announce orig now tables first).1.get? host =
        if first = host then some (entry orig first now) else tables.1.get? host := by
      rw [announce_fst]
      exact AddrMap.get?_insert tables.1.entries first host _
    rw [List.foldl_cons, ih, stored]
    grind

theorem changed_announceAll {now : Time} {tables : HostTable × Origins} :
    (hosts.foldl (announce orig now) tables).1.changed = true ↔
      tables.1.changed = true ∨ ∃ host ∈ hosts, tables.1.owner? host ≠ some (.node orig) := by
  induction hosts generalizing tables with
  | nil => simp
  | cons first rest ih =>
    have owner : ∀ host, (announce orig now tables first).1.owner? host =
        if first = host then some (.node orig) else tables.1.owner? host := by
      intro host
      rw [announce_fst]
      exact owner?_put tables.1 (entry orig first now) host
    have changed : (announce orig now tables first).1.changed =
        (tables.1.changed || decide (tables.1.owner? first ≠ some (.node orig))) := by
      rw [announce_fst]
    rw [List.foldl_cons, ih, changed]
    simp only [owner, Bool.or_eq_true, decide_eq_true_eq, List.mem_cons, exists_eq_or_imp]
    grind

theorem announceAll_frame (orig : Addr) (now : Time) (hosts : List Addr)
    (tables : HostTable × Origins) :
    ∃ entries changed,
      (hosts.foldl (announce orig now) tables).1 = { tables.1 with entries, changed } := by
  induction hosts generalizing tables with
  | nil => exact ⟨_, _, rfl⟩
  | cons first rest ih =>
    obtain ⟨entries, changed, later⟩ := ih (announce orig now tables first)
    rw [List.foldl_cons, later, announce_fst]
    exact ⟨_, _, rfl⟩

theorem announces_announce_ne (foreign : a ≠ orig) (now : Time) (tables : HostTable × Origins)
    (host other : Addr) :
    (announce orig now tables host).2.Announces a other ↔
      tables.2.Announces a other ∧ ¬ (other = host ∧ tables.1.owner? host = some (.node a)) := by
  unfold announce
  dsimp only
  split
  · rename_i owner owned
    rw [owned, Option.some.injEq, Owner.node.injEq]
    by_cases same : owner = orig
    · rw [if_pos same, and_iff_left fun both => foreign (both.2.symm.trans same)]
    · rw [if_neg same, announces_modify_erase, and_comm (a := owner = a)]
  · rename_i unowned
    rw [and_iff_left fun both => unowned a both.2]

theorem announces_announceAll_ne (foreign : a ≠ orig) (now : Time) (hosts : List Addr)
    (tables : HostTable × Origins) (host : Addr) :
    (hosts.foldl (announce orig now) tables).2.Announces a host ↔
      tables.2.Announces a host ∧
        ¬ (host ∈ hosts ∧ tables.1.owner? host = some (.node a)) := by
  induction hosts generalizing tables with
  | nil => simp
  | cons first rest ih =>
    -- a host that is announced twice is taken from its former owner once
    have owner : (announce orig now tables first).1.owner? host =
        if first = host then some (.node orig) else tables.1.owner? host := by
      rw [announce_fst]
      exact owner?_put tables.1 (entry orig first now) host
    rw [List.foldl_cons, ih, announces_announce_ne foreign, owner, List.mem_cons]
    grind

/-! ### Whole lists -/

/-- Whether a list names a host: it holds the address, and the address can be that of a host. -/
def Listed (hosts : List Addr) (host : Addr) : Prop := host ∈ hosts ∧ host.isLearnable = true

instance (hosts : List Addr) (host : Addr) : Decidable (Listed hosts host) :=
  inferInstanceAs (Decidable (_ ∧ _))

theorem contains_listed {host : Addr} :
    (AddrSet.ofList (hosts.filter Addr.isLearnable)).contains host = true ↔ Listed hosts host := by
  rw [AddrSet.contains_ofList, List.mem_filter]
  rfl

variable {o : Originator} {now : Time} {host : Addr}

/-- The hosts that a list no longer names. -/
def dropped (o : Originator) (hosts : List Addr) : List Addr :=
  (AddrSet.diff o.hosts (.ofList (hosts.filter Addr.isLearnable))).keys

theorem mem_dropped : host ∈ dropped o hosts ↔ o.hosts.contains host = true ∧ ¬ Listed hosts host := by
  unfold dropped
  rw [AddrMap.mem_keys_iff, AddrSet.contains_diff, contains_listed]

theorem applyRemote_eq (known : origins.get? orig = some o) :
    t.applyRemote origins orig hosts now =
      let announced := AddrSet.ofList (hosts.filter Addr.isLearnable)
      let tables := announced.keys.foldl (announce orig now)
        ((dropped o hosts).foldl (withdraw orig) t, origins)
      (tables.1, tables.2.modify orig fun o => { o with hosts := announced }) := by
  unfold applyRemote
  rw [known]
  rfl

theorem mem_listed : host ∈ (AddrSet.ofList (hosts.filter Addr.isLearnable)).keys ↔
    Listed hosts host := by
  rw [AddrMap.mem_keys_iff, contains_listed]

theorem owner?_withdrawAll (orig : Addr) (hosts : List Addr) (t : HostTable) (host : Addr) :
    (hosts.foldl (withdraw orig) t).owner? host =
      if host ∈ hosts ∧ t.owner? host = some (.node orig) then none else t.owner? host := by
  rw [owner?, get?_withdrawAll]
  split <;> rfl

theorem get?_applyRemote (known : origins.get? orig = some o) (host : Addr) :
    (t.applyRemote origins orig hosts now).1.get? host =
      if Listed hosts host then some (entry orig host now)
      else if o.hosts.contains host = true ∧ t.owner? host = some (.node orig) then none
      else t.get? host := by
  rw [applyRemote_eq known]
  dsimp only
  rw [get?_announceAll, get?_withdrawAll]
  simp only [mem_listed, mem_dropped]
  grind

theorem changed_applyRemote (known : origins.get? orig = some o) :
    (t.applyRemote origins orig hosts now).1.changed = true ↔
      t.changed = true ∨
      (∃ host, o.hosts.contains host = true ∧ ¬ Listed hosts host ∧
        t.owner? host = some (.node orig)) ∨
      ∃ host, Listed hosts host ∧ t.owner? host ≠ some (.node orig) := by
  rw [applyRemote_eq known]
  dsimp only
  rw [changed_announceAll, changed_withdrawAll]
  simp only [mem_listed, mem_dropped, owner?_withdrawAll]
  grind

theorem applyRemote_frame (t : HostTable) (origins : Origins) (orig : Addr) (hosts : List Addr)
    (now : Time) : ∃ entries changed,
      (t.applyRemote origins orig hosts now).1 = { t with entries, changed } := by
  unfold applyRemote
  split
  · exact ⟨_, _, rfl⟩
  · dsimp only
    obtain ⟨_, _, later⟩ := announceAll_frame orig now _ (_, origins)
    obtain ⟨_, _, first⟩ := withdrawAll_frame orig _ t
    rw [later, first]
    exact ⟨_, _, rfl⟩

theorem announces_applyRemote (known : origins.get? orig = some o) (host : Addr) :
    (t.applyRemote origins orig hosts now).2.Announces orig host ↔ Listed hosts host := by
  have present := (foldl_announce_sameButHosts orig now
    (AddrSet.ofList (hosts.filter Addr.isLearnable)).keys
    ((dropped o hosts).foldl (withdraw orig) t, origins)).known orig
  rw [known] at present
  rw [applyRemote_eq known, announces_modify_hosts present, contains_listed]

theorem announces_applyRemote_ne (known : origins.get? orig = some o) (foreign : a ≠ orig)
    (host : Addr) :
    (t.applyRemote origins orig hosts now).2.Announces a host ↔
      origins.Announces a host ∧ ¬ (Listed hosts host ∧ t.owner? host = some (.node a)) := by
  have other : Owner.node a ≠ .node orig := fun same => foreign (Owner.node.inj same)
  rw [applyRemote_eq known, announces_modify_ne foreign, announces_announceAll_ne foreign,
    owner?_withdrawAll, mem_listed]
  grind

/-- Two lists that hold the same addresses, however often and in whatever order, do the same. -/
theorem applyRemote_congr {hosts' : List Addr} (same : ∀ host, host ∈ hosts' ↔ host ∈ hosts)
    (t : HostTable) (origins : Origins) (orig : Addr) (now : Time) :
    t.applyRemote origins orig hosts' now = t.applyRemote origins orig hosts now := by
  have sets : AddrSet.ofList (hosts'.filter Addr.isLearnable) =
      AddrSet.ofList (hosts.filter Addr.isLearnable) := by
    apply AddrSet.ext
    intro host
    rw [contains_listed, contains_listed, Listed, Listed, same]
  unfold applyRemote
  rw [sets]

/-! ### Tables that agree -/

/-- Whether the tables agree: a node owns exactly the hosts that it announces. -/
def Agree (t : HostTable) (origins : Origins) : Prop :=
  ∀ a host, t.owner? host = some (.node a) ↔
    ∃ o, origins.get? a = some o ∧ o.hosts.contains host = true

/-- What a table and the originators hold after the list of a node. -/
structure Applied (orig : Addr) (hosts : List Addr) (now : Time)
    (before after : HostTable × Origins) : Prop where
  listed : ∀ host, Listed hosts host →
    after.1.get? host = some { host, owner := .node orig, lastRefresh := now }
  withdrawn : ∀ host, ¬ Listed hosts host → before.1.owner? host = some (.node orig) →
    after.1.get? host = none
  untouched : ∀ host, ¬ Listed hosts host → before.1.owner? host ≠ some (.node orig) →
    after.1.get? host = before.1.get? host
  changed : after.1.changed = true ↔
    before.1.changed = true ∨ ∃ host, after.1.owner? host ≠ before.1.owner? host
  rest : after.1 = { before.1 with entries := after.1.entries, changed := after.1.changed }
  /-- Of what is known of a node, at most the hosts that it announces are new. -/
  originators : ∀ a, Option.Rel (fun o o' => o' = { o with hosts := o'.hosts })
    (before.2.get? a) (after.2.get? a)
  mine : ∀ o, after.2.get? orig = some o → ∀ host,
    o.hosts.contains host = true ↔ Listed hosts host
  others : ∀ a o o', a ≠ orig → before.2.get? a = some o → after.2.get? a = some o' → ∀ host,
    o'.hosts.contains host = true ↔ o.hosts.contains host = true ∧ ¬ Listed hosts host
  agree : Agree after.1 after.2

theorem Coherent.agree (h : Coherent t origins) : Agree t origins := by
  intro a host
  rw [h.owned, Origins.announces_iff]

theorem Agree.contains_iff (agree : Agree t origins) (known : origins.get? a = some o)
    (host : Addr) : o.hosts.contains host = true ↔ t.owner? host = some (.node a) := by
  rw [agree a host]
  constructor
  · exact fun announced => ⟨o, known, announced⟩
  · rintro ⟨other, found, announced⟩
    cases known.symm.trans found
    exact announced

theorem Agree.owner?_applyRemote (agree : Agree t origins) (known : origins.get? orig = some o)
    (hosts : List Addr) (now : Time) (host : Addr) :
    (t.applyRemote origins orig hosts now).1.owner? host =
      if Listed hosts host then some (.node orig)
      else if t.owner? host = some (.node orig) then none else t.owner? host := by
  rw [owner?, get?_applyRemote known]
  simp only [agree.contains_iff known, and_self]
  split
  · rfl
  · split <;> rfl

theorem Agree.applyRemote (agree : Agree t origins) (known : origins.get? orig = some o)
    (hosts : List Addr) (now : Time) :
    Agree (t.applyRemote origins orig hosts now).1 (t.applyRemote origins orig hosts now).2 := by
  intro a host
  rw [← Origins.announces_iff, agree.owner?_applyRemote known]
  by_cases mine : a = orig
  · subst mine
    rw [announces_applyRemote known]
    grind
  · have before := agree a host
    rw [← Origins.announces_iff] at before
    have other : Owner.node orig ≠ .node a := fun same => mine (Owner.node.inj same).symm
    rw [announces_applyRemote_ne known mine, ← before]
    grind

theorem applyRemote_applied (agree : Agree t origins) (known : origins.get? orig = some o)
    (hosts : List Addr) (now : Time) :
    Applied orig hosts now (t, origins) (t.applyRemote origins orig hosts now) where
  listed host named := by
    rw [get?_applyRemote known, if_pos named]
    rfl
  withdrawn host unnamed owned := by
    rw [get?_applyRemote known, if_neg unnamed,
      if_pos ⟨(agree.contains_iff known host).mpr owned, owned⟩]
  untouched host unnamed foreign := by
    rw [get?_applyRemote known, if_neg unnamed, if_neg fun both => foreign both.2]
  changed := by
    rw [changed_applyRemote known]
    simp only [agree.owner?_applyRemote known, agree.contains_iff known]
    grind
  rest := by
    obtain ⟨entries, changed, frame⟩ := t.applyRemote_frame origins orig hosts now
    rw [frame]
  originators a := by
    obtain ⟨sets, same⟩ := (t.applyRemote_sameButHosts origins orig hosts now).2 a
    rw [same]
    cases origins.get? a with
    | none => exact .none
    | some before => exact .some rfl
  mine after found host := by
    have announces : (t.applyRemote origins orig hosts now).2.Announces orig host ↔ _ :=
      announces_applyRemote known host
    rw [Origins.Announces, Origins.field_of_get? found] at announces
    exact announces
  others a before after foreign found found' host := by
    have announces : (t.applyRemote origins orig hosts now).2.Announces a host ↔ _ :=
      announces_applyRemote_ne known foreign host
    rw [Origins.Announces, Origins.field_of_get? found', Origins.Announces,
      Origins.field_of_get? found] at announces
    rw [announces, and_congr_right_iff]
    intro announced
    rw [and_iff_left ((agree.contains_iff found host).mp announced)]
  agree := agree.applyRemote known hosts now

/-- The list of a known node is applied exactly: the node owns the hosts that it names and no other
one, and every other host is as it was. -/
theorem remote_list_applied_exactly {t : HostTable} {origins : Origins} {orig : Addr}
    {o : Originator} (agree : Agree t origins) (known : origins.get? orig = some o)
    (hosts : List Addr) (now : Time) :
    Applied orig hosts now (t, origins) (t.applyRemote origins orig hosts now) ∧
    (∀ hosts', (∀ host, host ∈ hosts' ↔ host ∈ hosts) →
      t.applyRemote origins orig hosts' now = t.applyRemote origins orig hosts now) ∧
    ∀ former hosts' later host, former ≠ orig → Listed hosts host → host ∉ hosts' →
      let after := t.applyRemote origins orig hosts now
      (after.1.applyRemote after.2 former hosts' later).1.get? host =
        some { host, owner := .node orig, lastRefresh := now } := by
  have applied := applyRemote_applied agree known hosts now
  refine ⟨applied, fun hosts' same => applyRemote_congr same t origins orig now, ?_⟩
  intro former hosts' later host foreign named unnamed after
  have stored : after.1.get? host = some { host, owner := .node orig, lastRefresh := now } :=
    applied.listed host named
  cases live : after.2.get? former with
  | none =>
    unfold HostTable.applyRemote
    rw [live]
    exact stored
  | some p =>
    have kept := (applyRemote_applied applied.agree live hosts' later).untouched host
      fun both => unnamed both.1
    rw [kept ?_, stored]
    rw [owner?_eq_some stored]
    exact fun same => foreign (Owner.node.inj (Option.some.inj same)).symm

/-- The neighbour takes a host over from the node behind it, which then withdraws the host. -/
theorem remote_list_applied_exactly_sample :
    ∃ e, (Engine.new Sample.setup default).run Sample.calls = .ok e ∧
      e.hosts.owner? Sample.host = some (.node Sample.far) ∧
      Applied Sample.near [Sample.host, Sample.host, .broadcast] 2000 (e.hosts, e.origins)
        (e.hosts.applyRemote e.origins Sample.near [Sample.host, Sample.host, .broadcast] 2000) ∧
      e.hosts.applyRemote e.origins Sample.near [.broadcast, Sample.host] 2000 =
        e.hosts.applyRemote e.origins Sample.near [Sample.host, Sample.host, .broadcast] 2000 ∧
      let after :=
        e.hosts.applyRemote e.origins Sample.near [Sample.host, Sample.host, .broadcast] 2000
      (after.1.applyRemote after.2 Sample.far [] 3000).1.get? Sample.host =
        some { host := Sample.host, owner := .node Sample.near, lastRefresh := 2000 } := by
  have reached : ∃ e o, (Engine.new Sample.setup default).run Sample.calls = .ok e ∧
      e.hosts.owner? Sample.host = some (.node Sample.far) ∧
      e.origins.get? Sample.near = some o :=
    ⟨_, _, rfl, rfl, rfl⟩
  obtain ⟨e, o, run, owned, known⟩ := reached
  obtain ⟨applied, sameSet, former⟩ :=
    remote_list_applied_exactly (Engine.run_coherent run).agree known
      [Sample.host, Sample.host, .broadcast] 2000
  refine ⟨e, run, owned, applied, sameSet _ fun host => ?_,
    former Sample.far [] 3000 Sample.host (by decide) (by decide) List.not_mem_nil⟩
  simp only [List.mem_cons]
  grind

end HostTable

end BeaconMesh
