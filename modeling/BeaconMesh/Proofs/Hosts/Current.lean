import BeaconMesh.Proofs.Hosts.Changes

/-!
# The announcement list is current

The hosts on our bridge are announced in address order, as many as fit. The list is kept as bytes
until the table says that it has changed; `Current` says that those bytes are then still the right
ones. Every small change of the table keeps this: it either says that the table has changed, or
leaves the hosts on our bridge as they were.
-/

namespace BeaconMesh

namespace AddrMap

variable {α β : Type}

theorem keys_ascending (m : AddrMap α) : m.keys.Pairwise (· < ·) := by
  unfold keys
  rw [List.pairwise_map]
  exact m.ascending

/-- The keys are determined by which addresses have a value. -/
theorem keys_congr {m : AddrMap α} {m' : AddrMap β} (h : ∀ a, m.contains a = m'.contains a) :
    m.keys = m'.keys := by
  have bare : ∀ {γ : Type} (x : AddrMap γ), (x.map fun _ => ()).keys = x.keys := by
    intro γ x
    unfold keys map
    rw [List.map_map]
    rfl
  have same : m.map (fun _ => ()) = m'.map fun _ => () := by
    ext1 a
    have known := h a
    unfold contains at known
    rw [get?_map, get?_map]
    cases left : m.get? a <;> cases right : m'.get? a <;> simp_all
  rw [← bare m, ← bare m', same]

end AddrMap

namespace HostTable

variable {t t' : HostTable} {room : Nat} {now : Time}

theorem mem_localHosts {host : Addr} : host ∈ t.localHosts ↔ t.owner? host = some .here := by
  unfold localHosts owner? get?
  rw [AddrMap.mem_keys_iff, AddrMap.contains, AddrMap.get?_filter]
  cases t.entries.get? host with
  | none => simp
  | some x => simp [Option.filter_some]

theorem localHosts_congr
    (same : ∀ host, t'.owner? host = some .here ↔ t.owner? host = some .here) :
    t'.localHosts = t.localHosts := by
  apply AddrMap.keys_congr
  intro host
  rw [Bool.eq_iff_iff, ← AddrMap.mem_keys_iff, ← AddrMap.mem_keys_iff]
  exact mem_localHosts.trans ((same host).trans mem_localHosts.symm)

/-- Whether these are the hosts on our bridge, in ascending order and as many as there is room
for. -/
def Announces (room : Nat) (t : HostTable) (hosts : List Addr) : Prop :=
  ∃ all : List Addr, all.Pairwise (· < ·) ∧ (∀ host, host ∈ all ↔ t.owner? host = some .here) ∧
    hosts = all.take room

theorem announces_localHosts (room : Nat) (t : HostTable) :
    t.Announces room (t.localHosts.take room) :=
  ⟨t.localHosts, AddrMap.keys_ascending _, fun _ => mem_localHosts, rfl⟩

/-- Whether the announcement list is right, or is going to be made anew. -/
structure Current (room : Nat) (t : HostTable) : Prop where
  capacity : t.capacity = room
  buffer : t.changed = false → t.buffer = Wire.hostBytes (t.localHosts.take room)

theorem Current.congr (h : t.Current room) (capacity : t'.capacity = t.capacity)
    (buffer : t'.buffer = t.buffer) (changed : t'.changed = false → t.changed = false)
    (same : ∀ host, t'.owner? host = some .here ↔ t.owner? host = some .here) :
    t'.Current room := by
  refine ⟨capacity.trans h.capacity, fun unchanged => ?_⟩
  rw [buffer, localHosts_congr same]
  exact h.buffer (changed unchanged)

theorem Current.refreshed (h : t.Current room) :
    t.refresh.buffer = Wire.hostBytes (t.localHosts.take room) := by
  unfold HostTable.refresh
  split
  · rw [← h.capacity]
  · rename_i unchanged
    exact h.buffer (Bool.eq_false_iff.mpr unchanged)

theorem Change.current (h : Change now t t') (current : t.Current room) : t'.Current room := by
  cases h with
  | drop => exact ⟨current.capacity, nofun⟩
  | assign => exact ⟨current.capacity, nofun⟩
  | @renew host orig owned =>
    refine current.congr rfl rfl id fun other => ?_
    rw [owner?_put]
    split
    · rename_i same
      rw [← same, owned]
    · exact Iff.rfl
  | touch host =>
    refine current.congr rfl rfl id fun other => ?_
    unfold owner? get?
    rw [AddrMap.get?_modify]
    split
    · rw [Option.map_map]
      have owner : HostEntry.owner ∘ (fun x : HostEntry =>
          if x.owner = .here then { x with lastRefresh := now } else x) = HostEntry.owner := by
        funext x
        dsimp only [Function.comp]
        split <;> rfl
      rw [owner]
    · exact Iff.rfl
  | leave orig =>
    -- The hosts that go are those of another node, so the list is right as it is.
    refine current.congr rfl rfl (fun unchanged => (Bool.or_eq_false_iff.mp unchanged).1) ?_
    intro host
    rw [owner?_removeOwner]
    split
    · rename_i owned
      rw [owned]
      exact iff_of_false nofun nofun
    · exact Iff.rfl
  | list =>
    have list := current.refreshed
    unfold HostTable.refresh at list ⊢
    split
    · rename_i changed
      rw [if_pos changed] at list
      exact ⟨current.capacity, fun _ => list⟩
    · exact current

theorem Changes.current (h : Changes now t t') (current : t.Current room) : t'.Current room := by
  induction h with
  | refl => exact current
  | tail _ last ih => exact last.current ih

end HostTable

end BeaconMesh
