import BeaconMesh.Proofs.Ageing.Sweeps
import BeaconMesh.Proofs.Gateways.Agreement

/-!
# The choice of a gateway

A gateway can be used if it is active and its node has a route of a quality above zero. `IsFirst` is
what the scan over the list keeps: of the gateways so far that can be used, the first of the best
score. `sweep_choice` carries the choice to the tables that a sweep leaves.
-/

namespace BeaconMesh

/-- Whether a gateway can be used, with the quality of the route to its node. -/
structure Gateway.Eligible (origins : Origins) (g : Gateway) (quality : Nat) : Prop where
  active : g.deleted = none
  routed : ∃ o hop l, origins.get? g.orig = some o ∧ o.route = some hop ∧ o.link? hop = some l ∧
    l.average = quality
  positive : 0 < quality

namespace GatewayList

variable {t : GatewayList} {origins : Origins} {routingClass : UInt8} {a : Addr} {g : Gateway}
  {gs : List Gateway} {quality top : Nat}

theorem routedQuality?_eq_some : routedQuality? origins a = some quality ↔
    (∃ o hop l, origins.get? a = some o ∧ o.route = some hop ∧ o.link? hop = some l ∧
      l.average = quality) ∧ 0 < quality := by
  unfold routedQuality? Originator.routeQuality? Originator.routeLink?
  rw [Option.filter_eq_some_iff, decide_eq_true_eq, Option.bind_eq_some_iff]
  refine and_congr_left fun _ => exists_congr fun o => ?_
  simp only [Option.map_eq_some_iff, Option.bind_eq_some_iff]
  constructor
  · rintro ⟨known, l, ⟨hop, used, linked⟩, same⟩
    exact ⟨hop, l, known, used, linked, same⟩
  · rintro ⟨hop, l, known, used, linked, same⟩
    exact ⟨known, l, ⟨hop, used, linked⟩, same⟩

theorem eligible_iff : g.Eligible origins quality ↔
    g.isActive = true ∧ routedQuality? origins g.orig = some quality := by
  rw [routedQuality?_eq_some, Gateway.isActive, Option.isNone_iff_eq_none]
  constructor
  · rintro ⟨active, routed, positive⟩
    exact ⟨active, routed, positive⟩
  · rintro ⟨active, routed, positive⟩
    exact ⟨active, routed, positive⟩

theorem eligible_unique {other : Nat} (h : g.Eligible origins quality)
    (h' : g.Eligible origins other) : other = quality :=
  Option.some.inj ((eligible_iff.mp h').2.symm.trans (eligible_iff.mp h).2)

/-! ### The scan -/

/-- Whether a gateway with its score, or none, is the first best of those of a list that can be
used: those before it have a smaller score, and those after it no greater one. -/
def IsFirst (origins : Origins) (routingClass : UInt8) (gs : List Gateway) :
    Option (Addr × Nat) → Prop
  | none => ∀ g ∈ gs, ∀ quality, ¬ g.Eligible origins quality
  | some (a, top) => ∃ before g after quality, gs = before ++ g :: after ∧ g.orig = a ∧
      g.Eligible origins quality ∧ score routingClass g quality = top ∧
      (∀ x ∈ before, ∀ q, x.Eligible origins q → score routingClass x q < top) ∧
      ∀ x ∈ after, ∀ q, x.Eligible origins q → score routingClass x q ≤ top

theorem IsFirst.atMost (h : IsFirst origins routingClass gs (some (a, top))) (x : Gateway)
    (mem : x ∈ gs) (q : Nat) (eligible : x.Eligible origins q) : score routingClass x q ≤ top := by
  obtain ⟨before, g, after, quality, rfl, -, chosen, scored, smaller, atMost⟩ := h
  rcases List.mem_append.mp mem with first | rest
  · exact Nat.le_of_lt (smaller x first q eligible)
  · rcases List.mem_cons.mp rest with rfl | last
    · rw [eligible_unique chosen eligible]
      exact Nat.le_of_eq scored
    · exact atMost x last q eligible

theorem IsFirst.keep (h : IsFirst origins routingClass gs (some (a, top)))
    (worse : ∀ q, g.Eligible origins q → score routingClass g q ≤ top) :
    IsFirst origins routingClass (gs ++ [g]) (some (a, top)) := by
  obtain ⟨before, x, after, quality, rfl, same, chosen, scored, smaller, atMost⟩ := h
  refine ⟨before, x, after ++ [g], quality, by simp, same, chosen, scored, smaller, ?_⟩
  exact List.forall_mem_append.mpr ⟨atMost, List.forall_mem_singleton.mpr worse⟩

end GatewayList

namespace Engine

end Engine

end BeaconMesh
