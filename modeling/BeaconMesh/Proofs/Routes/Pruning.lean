import BeaconMesh.Proofs.Routes.Optimal

/-!
# Links that go

What a sweep does to the links and to the route of one originator. A route keeps its link as long as
the link is there; one that lost it is the first of the best links that stay.
-/

namespace BeaconMesh

namespace Link

/-- Whether a link, or none, is the first best of a list: those before it have a smaller average,
and those after it no greater one. -/
def IsFirst (ls : List Link) : Option Link → Prop
  | none => ∀ l ∈ ls, l.average = 0
  | some b => ∃ before after, ls = before ++ b :: after ∧ b.average ≠ 0 ∧
      (∀ l ∈ before, l.average < b.average) ∧ ∀ l ∈ after, l.average ≤ b.average

theorem IsFirst.isBest {ls : List Link} {best : Option Link} (h : IsFirst ls best) :
    IsBest ls best := by
  cases best with
  | none => exact h
  | some b =>
    obtain ⟨before, after, rfl, positive, smaller, atMost⟩ := h
    refine ⟨by simp, positive, List.forall_mem_append.mpr ⟨?_, ?_⟩⟩
    · exact fun l mem => Nat.le_of_lt (smaller l mem)
    · exact List.forall_mem_cons.mpr ⟨Nat.le_refl _, atMost⟩

theorem isFirst_better {ls : List Link} {best : Option Link} (h : IsFirst ls best) (l : Link) :
    IsFirst (ls ++ [l]) (Originator.better best l) := by
  have appended : ∀ {b : Link}, IsFirst ls (some b) → l.average ≤ b.average →
      IsFirst (ls ++ [l]) (some b) := by
    rintro b ⟨before, after, rfl, positive, smaller, atMost⟩ worse
    refine ⟨before, after ++ [l], by simp, positive, smaller, ?_⟩
    exact List.forall_mem_append.mpr ⟨atMost, List.forall_mem_singleton.mpr worse⟩
  unfold Originator.better
  split
  · rename_i zero
    cases best with
    | none => exact List.forall_mem_append.mpr ⟨h, List.forall_mem_singleton.mpr zero⟩
    | some b => exact appended h (zero ▸ Nat.zero_le _)
  · rename_i positive
    cases best with
    | none =>
      refine ⟨ls, [], rfl, positive, fun m mem => ?_, nofun⟩
      rw [h m mem]
      exact Nat.pos_of_ne_zero positive
    | some b =>
      dsimp only
      split
      · rename_i worse
        exact appended h worse
      · rename_i better
        -- every link so far is at most the former best
        refine ⟨ls, [], rfl, positive, fun m mem => ?_, nofun⟩
        have := h.isBest.2.2 m mem
        omega

theorem isFirst_foldl {seen : List Link} {best : Option Link} (h : IsFirst seen best)
    (rest : List Link) : IsFirst (seen ++ rest) (rest.foldl Originator.better best) := by
  induction rest generalizing seen best with
  | nil => rwa [List.append_nil]
  | cons l rest ih =>
    have next := ih (isFirst_better h l)
    rwa [List.append_assoc] at next

end Link

namespace Originator

variable {o : Originator} {low high : Nat} {a : Addr} {now timeout : Time}

theorem bestLink?_isFirst (o : Originator) : Link.IsFirst o.links o.bestLink? := by
  have start : Link.IsFirst [] none := by rintro l ⟨⟩
  exact Link.isFirst_foldl start o.links

/-- The link of the route stays chosen as long as no other one is better. -/
theorem choice?_of_isBest {l : Link} (used : o.routeLink? = some l)
    (best : Link.IsBest o.links (some l)) : o.choice? = some l.hop := by
  have chosen := o.bestLink?_isBest
  unfold choice?
  rw [used]
  cases found : o.bestLink? with
  | none =>
    rw [found] at chosen
    exact absurd (chosen l best.1) best.2.1
  | some b =>
    rw [found] at chosen
    exact if_pos (Nat.le_antisymm (chosen.2.2 l best.1) (best.2.2 b chosen.1))

theorem choice?_of_unrouted (unrouted : o.route = none) :
    o.choice? = o.bestLink?.map Link.hop := by
  have unused : o.routeLink? = none := by rw [routeLink?, unrouted, Option.bind_none]
  unfold choice?
  rw [unused]
  cases o.bestLink? <;> rfl

/-! ### Stale links -/

/-- What a sweep leaves of the links and the route of a node that it does not forget. -/
structure Pruned (now timeout : Time) (o o' : Originator) : Prop where
  links : o'.links =
    o.links.filter fun l => decide (now ≤ Clock.later l.lastSeen (Clock.times timeout 2))
  kept : ∀ hop, o.route = some hop → (o'.link? hop).isSome = true → o'.route = some hop
  chosen : (∀ hop, o.route = some hop → o'.link? hop = none) →
    ∃ best, Link.IsFirst o'.links best ∧ o'.route = best.map Link.hop

theorem Pruned.congr {o' other : Originator} (h : Pruned now timeout o o')
    (links : other.links = o'.links) (route : other.route = o'.route) :
    Pruned now timeout o other where
  links := links.trans h.links
  kept := by
    unfold link?
    rw [links, route]
    exact h.kept
  chosen := by
    unfold link?
    rw [links, route]
    exact h.chosen

theorem not_isStale_eq (now timeout : Time) :
    (fun l : Link => ! l.isStale now timeout) =
      fun l => decide (now ≤ Clock.later l.lastSeen (Clock.times timeout 2)) := by
  funext l
  rw [Link.isStale, Clock.overdue, ← decide_not]
  exact decide_eq_decide.mpr Nat.not_lt

theorem dropStaleLinks_links (o : Originator) (now timeout : Time) :
    (o.dropStaleLinks now timeout).links =
      o.links.filter fun l => decide (now ≤ Clock.later l.lastSeen (Clock.times timeout 2)) :=
  congrArg (List.filter · o.links) (not_isStale_eq now timeout)

theorem dropStaleLinks_route {hop : Hop} (used : o.route = some hop)
    (stays : ((o.dropStaleLinks now timeout).link? hop).isSome = true) :
    (o.dropStaleLinks now timeout).route = some hop := by
  rw [link?, List.find?_isSome] at stays
  unfold dropStaleLinks at stays ⊢
  dsimp only at stays ⊢
  rw [used, Option.filter_some]
  exact if_pos (List.any_eq_true.mpr stays)

theorem dropStaleLinks_unrouted
    (lost : ∀ hop, o.route = some hop → (o.dropStaleLinks now timeout).link? hop = none) :
    (o.dropStaleLinks now timeout).route = none := by
  unfold dropStaleLinks
  dsimp only
  rw [Option.filter_eq_none_iff]
  intro hop used there
  have absent := List.find?_eq_none.mp (lost hop used)
  obtain ⟨l, mem, same⟩ := List.any_eq_true.mp there
  exact absent l mem same

/-- The link of a route is a best one, so it is still one among those that stay. -/
theorem Sound.choice?_dropStaleLinks (h : Sound low high a o) {hop : Hop}
    (used : o.route = some hop)
    (stays : ((o.dropStaleLinks now timeout).link? hop).isSome = true) :
    (o.dropStaleLinks now timeout).choice? = some hop := by
  obtain ⟨best, isBest, route⟩ := h.routed
  rw [used] at route
  obtain ⟨b, rfl, rfl⟩ := Option.map_eq_some_iff.mp route.symm
  have kept := List.filter_sublist (l := o.links) (p := fun l => ! l.isStale now timeout)
  obtain ⟨l, found⟩ := Option.isSome_iff_exists.mp stays
  have left : l ∈ (o.dropStaleLinks now timeout).links := List.mem_of_find?_eq_some found
  have same : l = b :=
    List.inj_on_of_nodup_map h.distinct (kept.subset left) isBest.1 (hop_of_link? found)
  subst same
  apply choice?_of_isBest
  · rw [routeLink?, dropStaleLinks_route used stays]
    exact found
  · exact ⟨left, isBest.2.1, fun m mem => isBest.2.2 m (kept.subset mem)⟩

theorem Sound.pruned (h : Sound low high a o) (now timeout : Time) :
    Pruned now timeout o (o.prune now timeout).1 := by
  cases stale : o.hasStaleLink now timeout with
  | true =>
    rw [prune_of_stale stale]
    refine ⟨o.dropStaleLinks_links now timeout, fun hop used stays => ?_, fun lost => ?_⟩
    · exact h.choice?_dropStaleLinks used stays
    · exact ⟨_, bestLink?_isFirst _, choice?_of_unrouted (dropStaleLinks_unrouted lost)⟩
  | false =>
    rw [prune_of_fresh h.routed stale]
    refine ⟨?_, fun hop used _ => used, fun lost => ?_⟩
    · rw [← dropStaleLinks_links, dropStaleLinks_eq_self h.routed stale]
    · obtain ⟨best, isBest, route⟩ := h.routed
      cases best with
      | none => exact ⟨none, isBest, route⟩
      | some b =>
        obtain ⟨l, found, -⟩ := h.route_link route
        rw [lost b.hop route] at found
        cases found

end Originator

end BeaconMesh
