import BeaconMesh.Proofs.Engine.Entries
import BeaconMesh.Proofs.Engine.History

/-!
# Who owns a host

The host table and the host sets of the originators say the same: a node owns exactly the hosts
that it announces. `Coherent` is the invariant, `Split` what holds of it while the announcement
list of one node is applied, and `host_ownership_coherent` the result.
-/

namespace BeaconMesh

namespace AddrSet

theorem contains_erase (s : AddrSet) (a b : Addr) :
    AddrMap.contains (AddrMap.erase s a) b = true ↔ AddrMap.contains s b = true ∧ b ≠ a := by
  rw [AddrMap.contains, AddrMap.contains, AddrMap.get?_erase]
  split
  · rename_i same
    simp [same]
  · rename_i other
    simp [Ne.symm other]

theorem contains_diff (s t : AddrSet) (a : Addr) :
    (s.diff t).contains a = true ↔ s.contains a = true ∧ ¬ t.contains a = true := by
  unfold diff AddrMap.contains
  rw [AddrMap.get?_filter]
  cases AddrMap.get? s a <;> simp

end AddrSet

/-- Whether a node announces a host. -/
def Origins.Announces (t : Origins) (a host : Addr) : Prop :=
  (t.field Originator.hosts .empty a).contains host = true

theorem Origins.announces_iff {t : Origins} {a host : Addr} :
    t.Announces a host ↔ ∃ o, t.get? a = some o ∧ o.hosts.contains host = true := by
  unfold Announces field
  cases t.get? a with
  | none => simp [AddrMap.contains]
  | some o => simp

namespace HostTable

/-! ### Owners -/

theorem owner?_eq_some {t : HostTable} {host : Addr} {x : HostEntry} (h : t.get? host = some x) :
    t.owner? host = some x.owner := by
  rw [owner?, h, Option.map_some]

theorem owner?_congr {t t' : HostTable} (same : t'.entries = t.entries) (host : Addr) :
    t'.owner? host = t.owner? host := by
  rw [owner?, owner?, get?, get?, same]

theorem owner?_put (t : HostTable) (x : HostEntry) (host : Addr) :
    (t.put x).owner? host = if x.host = host then some x.owner else t.owner? host := by
  unfold owner? get? put
  rw [AddrMap.get?_insert]
  split <;> rfl

/-- The table without a host. -/
def without (t : HostTable) (host : Addr) : HostTable :=
  { t with entries := t.entries.erase host, changed := true }

theorem owner?_without (t : HostTable) (host other : Addr) :
    (t.without host).owner? other = if host = other then none else t.owner? other := by
  unfold owner? get? without
  rw [AddrMap.get?_erase]
  split <;> rfl

theorem owner?_removeOwner (t : HostTable) (orig host : Addr) :
    (t.removeOwner orig).owner? host =
      if t.owner? host = some (.node orig) then none else t.owner? host := by
  unfold owner? get? removeOwner
  rw [AddrMap.get?_filter]
  cases t.entries.get? host with
  | none => rfl
  | some x =>
    by_cases owns : x.owner = .node orig
    · simp [ownedBy, owns]
    · rw [Option.filter_some, if_pos (by simp [ownedBy, owns]), if_neg (by simpa using owns)]

/-- Whether every entry is stored under its host, an address that can be learned. -/
def Named (t : HostTable) : Prop :=
  ∀ host x, t.get? host = some x → x.host = host ∧ host.isLearnable = true

theorem Named.put {t : HostTable} (h : t.Named) {x : HostEntry}
    (learnable : x.host.isLearnable = true) : (t.put x).Named := by
  intro host y found
  unfold get? HostTable.put at found
  rw [AddrMap.get?_insert] at found
  split at found
  · rename_i same
    cases found
    exact ⟨same, same ▸ learnable⟩
  · exact h host y found

theorem Named.sub {t t' : HostTable} (h : t.Named)
    (kept : ∀ host x, t'.get? host = some x → t.get? host = some x) : t'.Named :=
  fun host x found => h host x (kept host x found)

theorem Named.without {t : HostTable} (h : t.Named) (host : Addr) : (t.without host).Named := by
  refine h.sub fun other x found => ?_
  unfold get? HostTable.without at found
  rw [AddrMap.get?_erase] at found
  split at found
  · cases found
  · exact found

theorem Named.removeOwner {t : HostTable} (h : t.Named) (orig : Addr) :
    (t.removeOwner orig).Named := by
  refine h.sub fun other x found => ?_
  unfold get? HostTable.removeOwner at found
  rw [AddrMap.get?_filter] at found
  exact (Option.filter_eq_some_iff.mp found).1

/-! ### Coherence -/

/-- A node owns exactly the hosts that it announces. -/
structure Coherent (t : HostTable) (origins : Origins) : Prop where
  named : t.Named
  owned : ∀ a host, t.owner? host = some (.node a) ↔ origins.Announces a host

/-- One node owns the hosts in `mine`, and every other node those that it announces. -/
structure Split (orig : Addr) (mine : Addr → Prop) (t : HostTable) (origins : Origins) : Prop where
  named : t.Named
  mine : ∀ host, t.owner? host = some (.node orig) ↔ mine host
  others : ∀ a, a ≠ orig → ∀ host, t.owner? host = some (.node a) ↔ origins.Announces a host

variable {t t' : HostTable} {origins origins' : Origins} {orig host : Addr} {mine : Addr → Prop}

theorem Coherent.split (h : Coherent t origins) (orig : Addr) :
    Split orig (origins.Announces orig) t origins :=
  ⟨h.named, h.owned orig, fun a _ => h.owned a⟩

theorem Split.join (h : Split orig mine t origins)
    (agreed : ∀ host, mine host ↔ origins'.Announces orig host)
    (kept : ∀ a, a ≠ orig → ∀ host, origins'.Announces a host ↔ origins.Announces a host) :
    Coherent t origins' := by
  refine ⟨h.named, fun a host => ?_⟩
  by_cases same : a = orig
  · rw [same, h.mine, agreed]
  · rw [h.others a same, kept a same]

theorem Coherent.congr (h : Coherent t origins) (entries : t'.entries = t.entries)
    (sets : ∀ a,
      origins'.field Originator.hosts .empty a = origins.field Originator.hosts .empty a) :
    Coherent t' origins' := by
  refine ⟨fun host x found => h.named host x ?_, fun a host => ?_⟩
  · rwa [get?, entries] at found
  · rw [owner?_congr entries, Origins.Announces, sets]
    exact h.owned a host

/-- A host has one owner, so nobody else announces it. -/
theorem Coherent.not_announces (h : Coherent t origins) {a : Addr}
    (other : t.owner? host ≠ some (.node a)) : ¬ origins.Announces a host :=
  fun announced => other ((h.owned a host).mpr announced)

theorem Split.not_announces (h : Split orig mine t origins) {a : Addr} (foreign : a ≠ orig)
    (other : t.owner? host ≠ some (.node a)) : ¬ origins.Announces a host :=
  fun announced => other ((h.others a foreign host).mpr announced)

/-! ### Announcement lists

Withdrawing and announcing change the hosts of one node in the table only, so the sets agree with
the table for every other node, and for that one again when its own set is stored at the end. -/

theorem Split.withdraw (h : Split orig mine t origins) (host : Addr) :
    Split orig (fun other => mine other ∧ other ≠ host) (withdraw orig t host) origins := by
  unfold HostTable.withdraw
  split
  · rename_i owns
    change Split orig _ (t.without host) origins
    refine ⟨h.named.without host, fun other => ?_, fun a foreign other => ?_⟩
    · rw [owner?_without]
      split
      · rename_i same
        simp [same]
      · rename_i different
        rw [h.mine, and_iff_left (Ne.symm different)]
    · rw [owner?_without]
      split
      · rename_i same
        have nobody : ¬ origins.Announces a other := by
          refine h.not_announces foreign fun owned => foreign ?_
          rw [← same, owns] at owned
          cases owned
          rfl
        exact iff_of_false nofun nobody
      · exact h.others a foreign other
  · rename_i free
    refine ⟨h.named, fun other => ?_, h.others⟩
    rw [h.mine, and_comm, iff_and_self]
    rintro owned rfl
    exact free ((h.mine other).mpr owned)

theorem Split.withdrawAll (h : Split orig mine t origins) (hosts : List Addr) :
    Split orig (fun other => mine other ∧ other ∉ hosts) (hosts.foldl (HostTable.withdraw orig) t)
      origins := by
  induction hosts generalizing t mine with
  | nil =>
    refine ⟨h.named, fun other => ?_, h.others⟩
    rw [List.foldl_nil, h.mine, and_iff_left List.not_mem_nil]
  | cons host rest ih =>
    have left := ih (h.withdraw host)
    refine ⟨left.named, fun other => ?_, left.others⟩
    rw [List.foldl_cons, left.mine, and_assoc, List.mem_cons, not_or]

theorem Split.take (h : Split orig mine t origins) (named : t'.Named)
    (owner : ∀ other, t'.owner? other = if host = other then some (.node orig) else t.owner? other)
    (taken : ∀ a, a ≠ orig → ∀ other,
      origins'.Announces a other ↔ origins.Announces a other ∧ other ≠ host) :
    Split orig (fun other => mine other ∨ other = host) t' origins' := by
  refine ⟨named, fun other => ?_, fun a foreign other => ?_⟩
  · rw [owner]
    split
    · rename_i same
      exact iff_of_true rfl (.inr same.symm)
    · rename_i different
      rw [h.mine, or_iff_left (Ne.symm different)]
  · rw [owner, taken a foreign]
    split
    · rename_i same
      refine iff_of_false (fun owned => foreign ?_) fun announced => announced.2 same.symm
      cases owned
      rfl
    · rename_i different
      rw [h.others a foreign, and_iff_left (Ne.symm different)]

theorem announces_modify_erase (origins : Origins) (owner host a other : Addr) :
    (origins.modify owner fun o => { o with hosts := o.hosts.erase host }).Announces a other ↔
      origins.Announces a other ∧ ¬ (owner = a ∧ other = host) := by
  unfold Origins.Announces Origins.field
  rw [Origins.get?_modify]
  split
  · rename_i same
    rw [and_congr_right_iff.mpr fun _ => not_congr (and_iff_right same)]
    cases origins.get? a with
    | none => simp [AddrMap.contains]
    | some o => exact AddrSet.contains_erase o.hosts host other
  · rename_i different
    rw [and_iff_left fun both => different both.1]

theorem announces_modify_hosts {origins : Origins} {orig : Addr}
    (known : (origins.get? orig).isSome = true) (hosts : AddrSet) (host : Addr) :
    (origins.modify orig fun o => { o with hosts }).Announces orig host ↔
      hosts.contains host = true := by
  obtain ⟨o, found⟩ := Option.isSome_iff_exists.mp known
  unfold Origins.Announces Origins.field
  rw [Origins.get?_modify, if_pos rfl, found]
  rfl

theorem announces_modify_ne {origins : Origins} {orig a : Addr} (foreign : a ≠ orig)
    (f : Originator → Originator) (host : Addr) :
    (origins.modify orig f).Announces a host ↔ origins.Announces a host := by
  unfold Origins.Announces Origins.field
  rw [Origins.get?_modify, if_neg (Ne.symm foreign)]

theorem Split.announce (h : Split orig mine t origins) (learnable : host.isLearnable = true)
    (now : Time) :
    Split orig (fun other => mine other ∨ other = host)
      (HostTable.announce orig now (t, origins) host).1
      (HostTable.announce orig now (t, origins) host).2 := by
  let entry : HostEntry := { host, owner := .node orig, lastRefresh := now }
  have named : (t.put entry).Named := h.named.put learnable
  have free : ∀ a, a ≠ orig → t.owner? host ≠ some (.node a) → ∀ other,
      origins.Announces a other ↔ origins.Announces a other ∧ other ≠ host := by
    intro a foreign unowned other
    rw [and_comm, iff_and_self]
    rintro announced rfl
    exact h.not_announces foreign unowned announced
  unfold HostTable.announce
  dsimp only
  split
  · rename_i owner owned
    split
    · rename_i same
      refine h.take named (t.owner?_put entry) fun a foreign => free a foreign fun owns => ?_
      rw [owned, same] at owns
      cases owns
      exact foreign rfl
    · refine h.take named (t.owner?_put entry) fun a foreign other => ?_
      rw [announces_modify_erase]
      by_cases former : owner = a
      · rw [and_iff_right former]
      · rw [← free a foreign fun owns => ?_]
        · exact and_iff_left fun both => former both.1
        · rw [owned] at owns
          cases owns
          exact former rfl
  · rename_i unowned
    exact h.take named (t.owner?_put entry) fun a foreign => free a foreign (unowned a)

theorem Split.announceAll {hosts : List Addr} (learnable : ∀ host ∈ hosts, host.isLearnable = true)
    (now : Time) (h : Split orig mine t origins) :
    Split orig (fun other => mine other ∨ other ∈ hosts)
      (hosts.foldl (HostTable.announce orig now) (t, origins)).1
      (hosts.foldl (HostTable.announce orig now) (t, origins)).2 := by
  induction hosts generalizing t origins mine with
  | nil =>
    refine ⟨h.named, fun other => ?_, h.others⟩
    rw [List.foldl_nil, h.mine, or_iff_left List.not_mem_nil]
  | cons host rest ih =>
    obtain ⟨first, others⟩ := List.forall_mem_cons.mp learnable
    have after := ih others (h.announce first now)
    refine ⟨after.named, fun other => ?_, after.others⟩
    rw [List.foldl_cons, after.mine, or_assoc, List.mem_cons]

theorem Coherent.applyRemote (h : Coherent t origins) (orig : Addr) (hosts : List Addr)
    (now : Time) :
    Coherent (t.applyRemote origins orig hosts now).1 (t.applyRemote origins orig hosts now).2 := by
  unfold HostTable.applyRemote
  split
  · exact h
  · rename_i o known
    let announced := AddrSet.ofList (hosts.filter Addr.isLearnable)
    have learnable : ∀ host ∈ announced.keys, host.isLearnable = true := by
      intro host listed
      have mem := AddrSet.contains_ofList.mp (AddrMap.mem_keys_iff.mp listed)
      exact (List.mem_filter.mp mem).2
    have withdrawn := (h.split orig).withdrawAll (AddrSet.diff o.hosts announced).keys
    have applied := withdrawn.announceAll learnable now
    have present := (foldl_announce_sameButHosts orig now announced.keys
      ((AddrSet.diff o.hosts announced).keys.foldl (withdraw orig) t, origins)).known orig
    rw [known] at present
    refine applied.join (fun host => ?_) fun a foreign => announces_modify_ne foreign _
    rw [announces_modify_hosts present, AddrMap.mem_keys_iff, AddrMap.mem_keys_iff,
      AddrSet.contains_diff, Origins.Announces, Origins.field_of_get? known]
    constructor
    · rintro (⟨before, stays⟩ | listed)
      · exact Classical.not_not.mp fun left => stays ⟨before, left⟩
      · exact listed
    · exact .inr

/-! ### Other changes -/

/-- Changes of an entry that leave its host and its owner alone do not matter. -/
theorem Coherent.touch (h : Coherent t origins) (host : Addr) {f : HostEntry → HostEntry}
    (keeps : ∀ x, (f x).host = x.host ∧ (f x).owner = x.owner) :
    Coherent { t with entries := t.entries.modify host f } origins := by
  have entry : ∀ other, ({ t with entries := t.entries.modify host f } : HostTable).get? other =
      if host = other then (t.get? other).map f else t.get? other := fun other =>
    AddrMap.get?_modify t.entries host other f
  refine ⟨fun other x found => ?_, fun a other => ?_⟩
  · rw [entry] at found
    split at found
    · obtain ⟨y, known, rfl⟩ := Option.map_eq_some_iff.mp found
      rw [(keeps y).1]
      exact h.named other y known
    · exact h.named other x found
  · rw [← h.owned a other, owner?, owner?, entry]
    split
    · rw [Option.map_map]
      have owner : HostEntry.owner ∘ f = HostEntry.owner := funext fun x => (keeps x).2
      rw [owner]
    · exact Iff.rfl

theorem Coherent.learn (h : Coherent t origins) (host : Addr) (now : Time) :
    Coherent (t.learn host now) origins := by
  unfold HostTable.learn
  split
  · rename_i fresh
    simp only [HostTable.learns, Bool.and_eq_true, Bool.not_eq_true'] at fresh
    obtain ⟨⟨learnable, -⟩, unknown⟩ := fresh
    let entry : HostEntry := { host, owner := .here, lastRefresh := now }
    have unowned : t.owner? host = none := by
      have absent := Option.not_isSome_iff_eq_none.mp (Bool.eq_false_iff.mp unknown)
      rw [owner?, get?, absent, Option.map_none]
    refine ⟨h.named.put (x := entry) learnable, fun a other => ?_⟩
    refine (iff_of_eq (congrArg (· = some (.node a)) (t.owner?_put entry other))).trans ?_
    split
    · rename_i same
      refine iff_of_false nofun (h.not_announces ?_)
      rw [← same, unowned]
      nofun
    · exact h.owned a other
  · split
    · exact h.touch host fun x => by split <;> exact ⟨rfl, rfl⟩
    · exact h

theorem Coherent.removeOwner (h : Coherent t origins) (orig : Addr) :
    Coherent (t.removeOwner orig) (origins.erase orig) := by
  refine ⟨h.named.removeOwner orig, fun a host => ?_⟩
  rw [owner?_removeOwner, Origins.Announces, Origins.field_erase]
  by_cases same : orig = a
  · rw [if_pos same, ← same]
    refine iff_of_false ?_ nofun
    split
    · nofun
    · rename_i other
      exact other
  · rw [if_neg same]
    split
    · rename_i owned
      refine iff_of_false nofun (h.not_announces ?_)
      rw [owned]
      rintro ⟨⟩
      exact same rfl
    · exact h.owned a host

theorem announces_forget (t : HostTable) (origins : Origins) (x : HostEntry) (a host : Addr) :
    (HostTable.forget (t, origins) x).2.Announces a host ↔
      origins.Announces a host ∧ ¬ (x.owner = .node a ∧ host = x.host) := by
  unfold HostTable.forget
  cases x.owner with
  | node owner =>
    rw [Owner.node.injEq]
    exact announces_modify_erase origins owner x.host a host
  | here => exact (and_iff_left fun both => nomatch both.1).symm

theorem Coherent.forget (h : Coherent t origins) {x : HostEntry}
    (current : ∀ a, t.owner? x.host = some (.node a) → x.owner = .node a) :
    Coherent (forget (t, origins) x).1 (forget (t, origins) x).2 := by
  refine ⟨h.named.without x.host, fun a host => ?_⟩
  change (t.without x.host).owner? host = _ ↔ _
  rw [owner?_without, announces_forget]
  split
  · rename_i same
    refine iff_of_false nofun ?_
    rintro ⟨announced, kept⟩
    rw [← same] at announced
    exact kept ⟨current a ((h.owned a x.host).mpr announced), same.symm⟩
  · rename_i different
    rw [and_iff_left fun both => different both.2.symm]
    exact h.owned a host

theorem Coherent.purge (h : Coherent t origins) (now age : Time) :
    Coherent (t.purge origins now age).1 (t.purge origins now age).2 := by
  -- a host that is still stored is stored under the owner that it had at first
  refine (List.foldlRecOn (motive := fun tables : HostTable × Origins => Coherent tables.1 tables.2 ∧
    ∀ host owner, tables.1.owner? host = some owner → t.owner? host = some owner) _ _
    ⟨h, fun _ _ owned => owned⟩ ?_).1
  rintro tables ⟨coherent, before⟩ x expired
  refine ⟨coherent.forget fun a owned => ?_, fun host owner owned => ?_⟩
  · obtain ⟨⟨host, _⟩, stored, rfl⟩ := List.mem_map.mp (List.mem_filter.mp expired).1
    have found := AddrMap.mem_toList_iff.mp stored
    have owned := before _ _ owned
    rw [(h.named host _ found).1, owner?_eq_some found] at owned
    exact Option.some.inj owned
  · change (tables.1.without x.host).owner? host = some owner at owned
    rw [owner?_without] at owned
    split at owned
    · cases owned
    · exact before host owner owned

end HostTable

/-! ### The invariant -/

namespace Engine

open HostTable (Coherent)

variable {e e' : Engine}

theorem coherent_hear (h : Coherent e.hosts e.origins) (b : Beacon) (hop : Hop) (now : Time) :
    Coherent (e.hear b hop now).hosts (e.hear b hop now).origins := by
  refine h.congr rfl (Origins.field_upsert rfl fun o => ?_)
  obtain ⟨_, _, _, _, _, heard⟩ := o.hear_frame b.seqno b.ttl hop now
  rw [heard]

theorem Update.coherent (move : Update e e') (h : Coherent e.hosts e.origins) :
    Coherent e'.hosts e'.origins := by
  cases move with
  | quiet same =>
    rw [same.hosts, same.origins]
    exact h
  | echo now => exact h.congr rfl (Origins.field_upsert rfl fun _ => rfl)
  | assess _ judged =>
    obtain ⟨⟨neighbour, _⟩, counted, judged⟩ := Fault.bind_ok judged
    cases Fault.pure_ok judged
    obtain ⟨_, _, rfl⟩ := Originator.assess_frame counted
    refine h.congr rfl (Origins.field_insert_same ?_)
    exact Origins.field_getOrNew (g := Originator.hosts) rfl
  | @rank b hop =>
    unfold Engine.rank
    split
    · rename_i o known
      obtain ⟨_, frame⟩ := o.ranked_frame b hop
      have kept : (ranked o b hop).1.hosts =
          e.origins.field Originator.hosts .empty b.orig := by
        rw [frame, Origins.field_of_get? known]
        rfl
      exact h.congr rfl (Origins.field_insert_same kept)
    · exact h
  | @heed b now =>
    refine (h.applyRemote b.orig b.hosts now).congr rfl (Origins.field_modify ?_)
    exact fun _ => rfl
  | learn host now => exact h.learn host now
  | depart b iface =>
    refine h.congr ?_ (Origins.field_map fun _ => rfl)
    unfold departOwn HostTable.refresh
    dsimp only
    split <;> rfl
  | @flood o f known =>
    refine h.congr rfl (Origins.field_insert_same ?_)
    obtain ⟨_, _, heard⟩ := o.hearFlood_frame f.seqno
    rw [heard, Origins.field_of_get? known]

theorem Decay.coherent (move : Decay e e') (h : Coherent e.hosts e.origins) :
    Coherent e'.hosts e'.origins := by
  cases move with
  | quiet same =>
    rw [same.hosts, same.origins]
    exact h
  | forget a now =>
    unfold Engine.forget
    split
    · exact h.removeOwner a
    · exact h
  | prune now =>
    refine h.congr rfl (Origins.field_map fun {_ o} _ => ?_)
    obtain ⟨_, frame⟩ := o.prune_frame now e.setup.timeout
    rw [frame]
  | expire now => exact h.purge now _
  | gateway now =>
    obtain ⟨-, origins, hosts, -⟩ := chooseGateway_tables e now
    rw [hosts, origins]
    exact h

theorem coherent_invariant : Invariant fun e => Coherent e.hosts e.origins where
  hear now _ h := coherent_hear h _ _ now
  update move h := move.coherent h
  decay move h := move.coherent h

theorem run_coherent {s : Setup} {jitter : Jitter} {cs : List Call} {e : Engine}
    (h : (Engine.new s jitter).run cs = .ok e) : Coherent e.hosts e.origins :=
  coherent_invariant.run h ⟨nofun, fun _ _ => iff_of_false nofun nofun⟩

/-- Another node owns a host if and only if it is known and announces the host. -/
theorem host_ownership_coherent {s : Setup} {jitter : Jitter} {cs : List Call} {e : Engine}
    (h : (Engine.new s jitter).run cs = .ok e) :
    (∀ host a, e.hosts.owner? host = some (.node a) ↔
      ∃ o, e.origins.get? a = some o ∧ o.hosts.contains host = true) ∧
    (∀ host a b o p, e.origins.get? a = some o → e.origins.get? b = some p →
      o.hosts.contains host = true → p.hosts.contains host = true → a = b) ∧
    (∀ host a o, e.hosts.owner? host = some .here → e.origins.get? a = some o →
      o.hosts.contains host = false) ∧
    ∀ host x, e.hosts.get? host = some x → x.host = host ∧
      host ≠ .broadcast ∧ host ≠ .zero ∧ host.isMulticast = false := by
  have coherent := run_coherent h
  have owned : ∀ {host a o}, e.origins.get? a = some o → o.hosts.contains host = true →
      e.hosts.owner? host = some (.node a) := fun known announced =>
    (coherent.owned _ _).mpr (Origins.announces_iff.mpr ⟨_, known, announced⟩)
  refine ⟨fun host a => ?_, fun host a b o p left right first second => ?_,
    fun host a o here known => ?_, fun host x found => ?_⟩
  · rw [coherent.owned, Origins.announces_iff]
  · have same := (owned left first).symm.trans (owned right second)
    cases same
    rfl
  · refine Bool.eq_false_iff.mpr fun announced => ?_
    have other := here.symm.trans (owned known announced)
    cases other
  · obtain ⟨key, learnable⟩ := coherent.named host x found
    exact ⟨key, Addr.isLearnable_iff.mp learnable⟩

theorem host_ownership_coherent_sample :
    ∃ e, (Engine.new Sample.setup default).run Sample.calls = .ok e ∧
      e.hosts.owner? Sample.host = some (.node Sample.far) ∧
      (∀ host a, e.hosts.owner? host = some (.node a) ↔
        ∃ o, e.origins.get? a = some o ∧ o.hosts.contains host = true) ∧
      (∀ host a b o p, e.origins.get? a = some o → e.origins.get? b = some p →
        o.hosts.contains host = true → p.hosts.contains host = true → a = b) ∧
      (∀ host a o, e.hosts.owner? host = some .here → e.origins.get? a = some o →
        o.hosts.contains host = false) ∧
      ∀ host x, e.hosts.get? host = some x → x.host = host ∧
        host ≠ .broadcast ∧ host ≠ .zero ∧ host.isMulticast = false := by
  have reached : ∃ e, (Engine.new Sample.setup default).run Sample.calls = .ok e ∧
      e.hosts.owner? Sample.host = some (.node Sample.far) :=
    ⟨_, rfl, rfl⟩
  obtain ⟨e, run, owner⟩ := reached
  exact ⟨e, run, owner, host_ownership_coherent run⟩

end Engine

end BeaconMesh
