import BeaconMesh.Proofs.Engine.Calls
import BeaconMesh.Proofs.Engine.Entries

/-!
# One field of every originator, call by call

`SameField` says that a field of what is known of every node is as it was. Each lemma asks only that
the field be left alone by what its function does to one originator.
-/

namespace BeaconMesh.Engine

variable {β : Type} {g : Originator → β} {blank : β} {e e' : Engine} {b : Beacon} {hop : Hop}
  {now : Time}

/-- One field of what is known of every node, or its blank, is as it was. -/
def SameField (g : Originator → β) (blank : β) (e e' : Engine) : Prop :=
  ∀ a, e'.origins.field g blank a = e.origins.field g blank a

theorem SameField.of_origins (origins : e'.origins = e.origins) : SameField g blank e e' := by
  intro a
  rw [origins]

theorem SameField.refl (e : Engine) : SameField g blank e e := .of_origins rfl

theorem SameField.trans {e₁ e₂ e₃ : Engine} (h : SameField g blank e₁ e₂)
    (h' : SameField g blank e₂ e₃) : SameField g blank e₁ e₃ := by
  intro a
  exact (h' a).trans (h a)

/-! ### Beacons that come in -/

theorem hear_sameField (e : Engine) (b : Beacon) (hop : Hop) (now : Time)
    (new : g (.new b.orig e.origins.ifaces now) = blank)
    (keeps : ∀ o : Originator, g (o.hear b.seqno b.ttl hop now) = g o) :
    SameField g blank e (e.hear b hop now) :=
  Origins.field_upsert new keeps

theorem hearEcho_sameField (e : Engine) (b : Beacon) (sender : Addr) (here : Iface) (now : Time)
    (new : g (.new sender e.origins.ifaces now) = blank)
    (keeps : ∀ (o : Originator) (iface offset : Nat), g (o.recordEcho iface offset) = g o) :
    SameField g blank e (e.hearEcho b sender here now) := by
  unfold hearEcho
  split
  · apply Origins.field_upsert new
    intro o
    exact keeps o _ _
  · exact .refl e

theorem assess_sameField {estimate : Estimate} (h : e.assess b hop now = .ok (e', estimate))
    (new : g (.new hop.addr e.origins.ifaces now) = blank)
    (keeps : ∀ (o : Originator) (linkQuality symmetry : Nat),
      g { o with linkQuality, symmetry } = g o) : SameField g blank e e' := by
  obtain ⟨⟨neighbour, _⟩, judged, h⟩ := Fault.bind_ok h
  cases Fault.pure_ok h
  obtain ⟨_, _, rfl⟩ := Originator.assess_frame judged
  apply Origins.field_insert_same
  rw [keeps]
  exact Origins.field_getOrNew new

theorem rank_sameField (e : Engine) (b : Beacon) (hop : Hop)
    (keeps : ∀ o : Originator, g (ranked o b hop).1 = g o) :
    SameField g blank e (e.rank b hop) := by
  unfold rank
  split
  · rename_i o known
    have same : g (ranked o b hop).1 = e.origins.field g blank b.orig := by
      rw [keeps, Origins.field_of_get? known]
    exact Origins.field_insert_same same
  · exact .refl e

theorem heed_sameField (e : Engine) (b : Beacon) (now : Time)
    (keeps : ∀ (o : Originator) (hosts : AddrSet) (hostBytes : Bytes) (gatewayClass : UInt8),
      g { o with hosts, hostBytes, gatewayClass } = g o) :
    SameField g blank e (e.heed b now) := by
  intro a
  have announced := HostTable.applyRemote_sameButHosts e.hosts e.origins b.orig b.hosts now
  have noted : (e.heed b now).origins.field g blank a =
      (e.hosts.applyRemote e.origins b.orig b.hosts now).2.field g blank a :=
    Origins.field_modify (fun o => keeps o o.hosts _ _) a
  exact noted.trans (announced.field (fun o hosts => keeps o hosts o.hostBytes o.gatewayClass) a)

theorem adopt_sameField (e : Engine) (b : Beacon) (hop : Hop) (duplicate twoWay : Bool) (now : Time)
    (ranks : ∀ o : Originator, g (ranked o b hop).1 = g o)
    (heeds : ∀ (o : Originator) (hosts : AddrSet) (hostBytes : Bytes) (gatewayClass : UInt8),
      g { o with hosts, hostBytes, gatewayClass } = g o) :
    SameField g blank e (e.adopt b hop duplicate twoWay now) := by
  unfold adopt
  cases duplicate with
  | true => exact .refl e
  | false =>
    cases twoWay with
    | true => exact (rank_sameField e b hop ranks).trans (heed_sameField _ b now heeds)
    | false => exact heed_sameField e b now heeds

theorem judge_sameField {duplicate : Bool} {outcome : PacketOutcome}
    (h : e.judge b hop duplicate now = .ok (e', outcome))
    (new : g (.new hop.addr e.origins.ifaces now) = blank)
    (assesses : ∀ (o : Originator) (linkQuality symmetry : Nat),
      g { o with linkQuality, symmetry } = g o)
    (ranks : ∀ (b : Beacon) (o : Originator), g (ranked o b hop).1 = g o)
    (heeds : ∀ (o : Originator) (hosts : AddrSet) (hostBytes : Bytes) (gatewayClass : UInt8),
      g { o with hosts, hostBytes, gatewayClass } = g o) : SameField g blank e e' := by
  obtain ⟨assessed, estimate, relayed, judged, considered, -⟩ := judge_eq_ok.mp h
  have first : SameField g blank e assessed := assess_sameField judged new assesses
  have adopted : SameField g blank assessed
      (assessed.adopt (b.judged estimate) hop duplicate estimate.twoWay now) :=
    adopt_sameField assessed (b.judged estimate) hop duplicate estimate.twoWay now (ranks _) heeds
  exact (first.trans adopted).trans (.of_origins (considerRelay_same considered).origins)

/-! ### Other calls -/

theorem Carries.sameField (h : Carries e e')
    (keeps : ∀ (o : Originator) (flooded : Window) (newestFlood : Seqno),
      g { o with flooded, newestFlood } = g o) : SameField g blank e e' := by
  rcases h.origins with same | ⟨o, f, known, heard⟩
  · exact .of_origins same
  · intro a
    obtain ⟨_, _, frame⟩ := o.hearFlood_frame f.seqno
    rw [heard, frame]
    apply Origins.field_insert_same
    rw [keeps, Origins.field_of_get? known]

theorem Performs.sameField {ts : List Task} (h : Performs now e ts e')
    (keeps : ∀ (o : Originator) (iface : IfaceId), g (o.ageEchoes iface) = g o) :
    SameField g blank e e' := by
  induction h with
  | none e => exact .refl e
  | @task e next e' t ts scheduler popped work _ ih =>
    have first : SameField g blank e next := by
      rcases perform_cases work with ⟨-, rfl⟩ | ⟨iface, -, scheduled⟩
      · exact .of_origins rfl
      · intro a
        rw [(scheduleOwn_same scheduled).origins, sendOwn_origins]
        apply Origins.field_map
        intro _ o _
        exact keeps o iface
    exact first.trans ih

theorem Decays.field {a : Addr} (h : Decays e e') (live : (e'.origins.get? a).isSome = true)
    (keeps : ∀ {s : Setup} {o o' : Originator}, Originator.Decay s o o' → g o' = g o) :
    e'.origins.field g blank a = e.origins.field g blank a := by
  induction h with
  | refl => rfl
  | tail _ last ih =>
    obtain ⟨o', found⟩ := Option.isSome_iff_exists.mp live
    obtain ⟨o, known, change⟩ := last.entry found
    rw [← ih (Option.isSome_iff_exists.mpr ⟨o, known⟩), Origins.field_of_get? found,
      Origins.field_of_get? known, keeps change]

end BeaconMesh.Engine
