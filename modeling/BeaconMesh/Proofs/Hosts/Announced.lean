import BeaconMesh.Proofs.Hosts.Changes

/-!
# Announcement lists can be counted

A beacon of ours always fits into a packet: the announcement list that it carries is cut at the
capacity of the table, and nothing but `HostTable.refresh` changes the list.
-/

namespace BeaconMesh

namespace HostTable

/-- The announcement list, with the most hosts that it may hold. -/
def list (t : HostTable) : Nat × Bytes := (t.capacity, t.buffer)

/-- Whether the hosts of the announcement list can be counted in a byte. -/
structure Fits (t : HostTable) : Prop where
  capacity : t.list.1 ≤ Wire.maxHosts
  buffer : (Wire.hostsOf t.list.2).length ≤ Wire.maxHosts

variable {t t' : HostTable}

theorem fits_new (maxPacketSize : Nat) (own : List Addr) : (new maxPacketSize own).Fits :=
  ⟨Nat.min_le_right _ _, Nat.zero_le _⟩

theorem Fits.refresh (h : t.Fits) : t.refresh.Fits := by
  unfold HostTable.refresh
  split
  · refine ⟨h.capacity, ?_⟩
    show (Wire.hostsOf (Wire.hostBytes (t.localHosts.take t.capacity))).length ≤ _
    rw [Wire.hostsOf_hostBytes, List.length_take]
    exact Nat.le_trans (Nat.min_le_left _ _) h.capacity
  · exact h

theorem Change.fits {now : Time} (h : Change now t t') (fits : t.Fits) : t'.Fits := by
  cases h with
  | list => exact fits.refresh
  | _ => exact ⟨fits.capacity, fits.buffer⟩

theorem Changes.fits {now : Time} (h : Changes now t t') (fits : t.Fits) : t'.Fits := by
  induction h with
  | refl => exact fits
  | tail _ last ih => exact last.fits ih

end HostTable

namespace Engine

theorem History.fits {s : Setup} {jitter : Jitter} {past : List Event} {e : Engine}
    (h : History (.new s jitter) past e) : e.hosts.Fits :=
  run_of_step (P := fun e => e.hosts.Fits) (fun made fits => (step_hosts made).fits fits)
    (run_of_history h) (HostTable.fits_new _ _)

end Engine

end BeaconMesh
