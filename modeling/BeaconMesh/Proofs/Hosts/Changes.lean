import BeaconMesh.Proofs.Engine.Calls
import BeaconMesh.Proofs.Engine.History
import BeaconMesh.Proofs.Hosts.Ownership

/-!
# How the host table changes

Whatever a call does to the host table is a sequence of a few small changes, all at the time of the
call: `step_hosts` says so. A property of the table that each of them keeps thus holds in every
state, and in the middle of a poll too.
-/

namespace BeaconMesh

open Relation (ReflTransGen)

namespace HostTable

/-- A small change of the host table at a time. -/
inductive Change (now : Time) : HostTable → HostTable → Prop where
  | drop (t : HostTable) (host : Addr) : Change now t (t.without host)
  | assign (t : HostTable) (host : Addr) (owner : Owner) : Change now t (t.assign host owner now)
  | renew {t : HostTable} {host orig : Addr} (owned : t.owner? host = some (.node orig)) :
      Change now t (t.put { host, owner := .node orig, lastRefresh := now })
  | touch (t : HostTable) (host : Addr) :
      Change now t { t with
        entries := t.entries.modify host fun e =>
          if e.owner = .here then { e with lastRefresh := now } else e }
  | leave (t : HostTable) (orig : Addr) : Change now t (t.removeOwner orig)
  | list (t : HostTable) : Change now t t.refresh

/-- A sequence of changes at a time. -/
abbrev Changes (now : Time) : HostTable → HostTable → Prop := ReflTransGen (Change now)

theorem withdraw_changes (now : Time) (orig : Addr) (t : HostTable) (host : Addr) :
    Changes now t (withdraw orig t host) := by
  unfold withdraw
  split
  · exact .single (.drop t host)
  · exact .refl

theorem withdrawAll_changes (now : Time) (orig : Addr) (hosts : List Addr) (t : HostTable) :
    Changes now t (hosts.foldl (withdraw orig) t) := by
  induction hosts generalizing t with
  | nil => exact .refl
  | cons host rest ih => exact (withdraw_changes now orig t host).trans (ih _)

theorem announce_changes (now : Time) (orig : Addr) (tables : HostTable × Origins) (host : Addr) :
    Changes now tables.1 (announce orig now tables host).1 := by
  unfold announce
  dsimp only
  split
  · rename_i owner owned
    split
    · rename_i same
      exact .single (.renew (same ▸ owned))
    · exact .single (.assign _ host _)
  · exact .single (.assign _ host _)

theorem announceAll_changes (now : Time) (orig : Addr) (hosts : List Addr)
    (tables : HostTable × Origins) :
    Changes now tables.1 (hosts.foldl (announce orig now) tables).1 := by
  induction hosts generalizing tables with
  | nil => exact .refl
  | cons host rest ih => exact (announce_changes now orig tables host).trans (ih _)

theorem applyRemote_changes (t : HostTable) (origins : Origins) (orig : Addr) (hosts : List Addr)
    (now : Time) : Changes now t (t.applyRemote origins orig hosts now).1 := by
  unfold applyRemote
  split
  · exact .refl
  · exact (withdrawAll_changes now orig _ t).trans (announceAll_changes now orig _ (_, origins))

theorem learn_changes (t : HostTable) (host : Addr) (now : Time) :
    Changes now t (t.learn host now) := by
  unfold learn
  split
  · exact .single (.assign t host .here)
  · split
    · exact .single (.touch t host)
    · exact .refl

theorem purge_changes (now : Time) (t : HostTable) (origins : Origins) (time age : Time) :
    Changes now t (t.purge origins time age).1 :=
  List.foldlRecOn (motive := fun tables : HostTable × Origins => Changes now t tables.1) _ _ .refl
    fun tables before x _ => .tail before (.drop tables.1 x.host)

theorem Changes.own {now : Time} {t t' : HostTable} (h : Changes now t t') : t'.own = t.own := by
  induction h with
  | refl => rfl
  | tail _ last ih =>
    rw [← ih]
    cases last with
    | list =>
      unfold HostTable.refresh
      split <;> rfl
    | _ => rfl

end HostTable

namespace Engine

open HostTable (Changes)

variable {e e' : Engine} {b : Beacon} {hop : Hop} {now : Time}

theorem rank_hosts (e : Engine) (b : Beacon) (hop : Hop) : (e.rank b hop).hosts = e.hosts := by
  unfold rank
  split <;> rfl

theorem assess_hosts {estimate : Estimate} (h : e.assess b hop now = .ok (e', estimate)) :
    e'.hosts = e.hosts := by
  obtain ⟨_, _, h⟩ := Fault.bind_ok h
  cases Fault.pure_ok h
  rfl

theorem adopt_hosts (e : Engine) (b : Beacon) (hop : Hop) (duplicate twoWay : Bool) (now : Time) :
    Changes now e.hosts (e.adopt b hop duplicate twoWay now).hosts := by
  unfold adopt
  cases duplicate with
  | true => exact .refl
  | false =>
    cases twoWay with
    | false => exact HostTable.applyRemote_changes e.hosts e.origins b.orig b.hosts now
    | true =>
      have heeded : Changes now (e.rank b hop).hosts ((e.rank b hop).heed b now).hosts :=
        HostTable.applyRemote_changes _ _ _ _ _
      rw [rank_hosts] at heeded
      exact heeded

theorem Takes.hosts {outcome : PacketOutcome} (h : e.Takes b hop now outcome e') :
    Changes now e.hosts e'.hosts := by
  cases h with
  | refused => exact .refl
  | echo =>
    unfold hearEcho
    split <;> exact .refl
  | late => exact .refl
  | @judged _ duplicate _ _ _ _ work =>
    obtain ⟨assessed, estimate, _, judged, considered, -⟩ := judge_eq_ok.mp work
    have adopted :=
      adopt_hosts assessed (b.judged estimate) hop duplicate estimate.twoWay now
    rw [assess_hosts judged] at adopted
    rw [(considerRelay_same considered).hosts]
    exact adopted

theorem perform_hosts {t : Task} (h : e.perform t now = .ok e') :
    Changes now e.hosts e'.hosts := by
  rcases perform_cases h with ⟨-, rfl⟩ | ⟨iface, -, scheduled⟩
  · exact .refl
  · rw [(scheduleOwn_same scheduled).hosts]
    exact .single (.list e.hosts)

theorem Performs.hosts {ts : List Task} (h : Performs now e ts e') :
    Changes now e.hosts e'.hosts := by
  induction h with
  | none => exact .refl
  | task _ work _ ih => exact (perform_hosts work).trans ih

theorem Decay.hosts (h : Decay e e') (now : Time) : Changes now e.hosts e'.hosts := by
  -- a sweep only drops hosts, so any time will do
  cases h with
  | quiet same =>
    rw [same.hosts]
  | forget a _ =>
    unfold Engine.forget
    split
    · exact .single (.leave e.hosts a)
    · exact .refl
  | prune => exact .refl
  | expire _ => exact HostTable.purge_changes now _ _ _ _
  | gateway time =>
    obtain ⟨-, -, same, -⟩ := chooseGateway_tables e time
    rw [same]

theorem Decays.hosts (h : Decays e e') (now : Time) : Changes now e.hosts e'.hosts := by
  induction h with
  | refl => exact .refl
  | tail _ last ih => exact ih.trans (last.hosts now)

theorem step_hosts {c : Call} {r : Reply} (made : e.step c = .ok (e', r)) :
    Changes c.time e.hosts e'.hosts := by
  cases step_does made with
  | start work => rw [(start_same work).hosts]
  | beacon brought taken => exact Call.time_of_reception? brought ▸ taken.hosts
  | data _ carried => rw [carried.hosts]
  | frame bridged =>
    rcases bridged.hosts with same | ⟨host, learned⟩
    · rw [same]
    · rw [learned]
      exact HostTable.learn_changes e.hosts host _
  | @poll now settled work =>
    split
    · exact work.hosts.trans (Decays.hosts (sweep_decays settled now) now)
    · exact work.hosts
  | sweep now => exact Decays.hosts (sweep_decays e now) now
  | shutdown now => exact Decays.hosts (shutdown_decays e now) now

end Engine

end BeaconMesh
