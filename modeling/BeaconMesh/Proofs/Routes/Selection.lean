import BeaconMesh.Engine.Beacons
import BeaconMesh.Engine.Sweep

/-!
# The route of one originator

`IsBest` says what a best link is. `WellRouted` says that the route is the hop of one;
`reselect_eq` says what selecting anew does, and `ranked_eq` and `prune_eq` say it for the two
places that select.
-/

namespace BeaconMesh

namespace Link

/-- Whether a link, or none, is the best of a list: its average is a maximum above zero, and
without one every average is zero. -/
def IsBest (ls : List Link) : Option Link → Prop
  | none => ∀ l ∈ ls, l.average = 0
  | some b => b ∈ ls ∧ b.average ≠ 0 ∧ ∀ l ∈ ls, l.average ≤ b.average

theorem isBest_nil : IsBest [] none := by
  rintro l ⟨⟩

theorem isBest_better {ls : List Link} {best : Option Link} (h : IsBest ls best) (l : Link) :
    IsBest (ls ++ [l]) (Originator.better best l) := by
  have extend : ∀ {p : Link → Prop}, (∀ m ∈ ls, p m) → p l → ∀ m ∈ ls ++ [l], p m :=
    fun old new => List.forall_mem_append.mpr ⟨old, List.forall_mem_singleton.mpr new⟩
  unfold Originator.better
  split
  · rename_i zero
    cases best with
    | none => exact extend h zero
    | some b => exact ⟨List.mem_append_left _ h.1, h.2.1, extend h.2.2 (zero ▸ Nat.zero_le _)⟩
  · rename_i positive
    have last : l ∈ ls ++ [l] := List.mem_append_right _ (List.mem_singleton.mpr rfl)
    cases best with
    | none =>
      refine ⟨last, positive, extend (fun m hm => ?_) (Nat.le_refl _)⟩
      rw [h m hm]
      exact Nat.zero_le _
    | some b =>
      dsimp only
      split
      · rename_i worse
        exact ⟨List.mem_append_left _ h.1, h.2.1, extend h.2.2 worse⟩
      · rename_i better
        refine ⟨last, positive, extend (fun m hm => ?_) (Nat.le_refl _)⟩
        have := h.2.2 m hm
        omega

theorem isBest_foldl {seen : List Link} {best : Option Link} (h : IsBest seen best)
    (rest : List Link) : IsBest (seen ++ rest) (rest.foldl Originator.better best) := by
  induction rest generalizing seen best with
  | nil => rwa [List.append_nil]
  | cons l rest ih =>
    have next := ih (isBest_better h l)
    rwa [List.append_assoc] at next

theorem IsBest.tie {ls : List Link} {b l : Link} (h : IsBest ls (some b)) (mem : l ∈ ls)
    (same : l.average = b.average) : IsBest ls (some l) := by
  refine ⟨mem, ?_, ?_⟩
  · rw [same]
    exact h.2.1
  · rw [same]
    exact h.2.2

end Link

namespace Originator

/-! ### Selecting -/

/-- Whether a hop, or none, is that of a best link. -/
def IsRoute (ls : List Link) (hop : Option Hop) : Prop :=
  ∃ best, Link.IsBest ls best ∧ hop = best.map Link.hop

/-- The route of an originator is the hop of a best link, or there is none to use. -/
def WellRouted (o : Originator) : Prop := IsRoute o.links o.route

theorem bestLink?_isBest (o : Originator) : Link.IsBest o.links o.bestLink? :=
  Link.isBest_foldl Link.isBest_nil o.links

theorem routeLink?_mem {o : Originator} {l : Link} (h : o.routeLink? = some l) :
    l ∈ o.links ∧ o.route = some l.hop := by
  obtain ⟨hop, route, found⟩ := Option.bind_eq_some_iff.mp h
  have same := List.find?_some found
  simp only [decide_eq_true_eq] at same
  exact ⟨List.mem_of_find?_eq_some found, by rw [route, same]⟩

theorem choice?_isRoute (o : Originator) : IsRoute o.links o.choice? := by
  have best := o.bestLink?_isBest
  unfold choice?
  split
  · rename_i none
    rw [none] at best
    exact ⟨_, best, rfl⟩
  · rename_i b current found used
    rw [found] at best
    split
    · rename_i tie
      exact ⟨_, best.tie (routeLink?_mem used).1 tie, rfl⟩
    · exact ⟨_, best, rfl⟩
  · rename_i b found _
    rw [found] at best
    exact ⟨_, best, rfl⟩

theorem IsRoute.mem {ls : List Link} {hop : Hop} (h : IsRoute ls (some hop)) :
    ls.any (fun l => l.hop = hop) = true := by
  obtain ⟨best, isBest, same⟩ := h
  cases best with
  | none => cases same
  | some b =>
    cases same
    exact List.any_eq_true.mpr ⟨b, isBest.1, decide_eq_true rfl⟩

theorem install_isRoute {o : Originator} {hop : Option Hop} (h : IsRoute o.links hop) :
    o.install hop = { o with route := hop } := by
  unfold install
  split
  · rw [if_pos h.mem]
  · rfl

/-- The report on a route that was `previous` and is `next`; none if it is the same. -/
def routeReport (dest : Addr) (previous next : Option Hop) : Option RouteChange :=
  if next = previous then none else some { dest, previous, next }

theorem routeReport_eq_some {dest : Addr} {previous next : Option Hop} {c : RouteChange}
    (h : routeReport dest previous next = some c) :
    next ≠ previous ∧ c = { dest, previous, next } := by
  unfold routeReport at h
  split at h
  · cases h
  · rename_i news
    cases h
    exact ⟨news, rfl⟩

theorem routeReport_eq_none {dest : Addr} {previous next : Option Hop}
    (h : routeReport dest previous next = none) : next = previous := by
  unfold routeReport at h
  split at h
  · rename_i same
    exact same
  · cases h

/-- Selecting anew installs the choice and reports it if it differs from `previous`, provided
that `previous` is still installed when it is the choice. -/
theorem reselect_eq {o : Originator} {previous : Option Hop}
    (kept : o.choice? = previous → o.route = previous) :
    o.reselect previous =
      ({ o with route := o.choice? }, routeReport o.addr previous o.choice?) := by
  unfold reselect routeReport
  split
  · rename_i same
    rw [same, ← kept same]
  · rw [install_isRoute o.choice?_isRoute]

theorem updateRoute_eq (o : Originator) :
    o.updateRoute = ({ o with route := o.choice? }, routeReport o.addr o.route o.choice?) :=
  reselect_eq fun _ => rfl

theorem removeRoute_report (o : Originator) :
    o.removeRoute.2 = routeReport o.addr o.route none := by
  unfold removeRoute routeReport
  split
  · rename_i hop route
    rw [route]
    rfl
  · rename_i route
    rw [route]
    rfl

/-! ### Where routes are selected -/

/-- An originator with the quality of a beacon counted in, before its route is selected. -/
def sampled (o : Originator) (b : Beacon) (hop : Hop) : Originator :=
  { o.modifyLink hop fun l => { l with lastTtl := b.ttl }.addSample b.quality with
    lastRanked := b.seqno }

theorem ranked_eq (o : Originator) (b : Beacon) (hop : Hop) :
    Engine.ranked o b hop =
      ({ o.sampled b hop with route := (o.sampled b hop).choice? },
        routeReport o.addr o.route (o.sampled b hop).choice?) :=
  updateRoute_eq (o.sampled b hop)

theorem dropStaleLinks_eq_self {o : Originator} {now timeout : Time} (routed : o.WellRouted)
    (fresh : o.hasStaleLink now timeout = false) : o.dropStaleLinks now timeout = o := by
  have links : (o.links.filter fun l => ! l.isStale now timeout) = o.links := by
    refine List.filter_eq_self.mpr fun l hl => ?_
    have := List.any_eq_false.mp fresh l hl
    simpa using this
  have route : (o.route.filter fun hop => o.links.any fun l => l.hop = hop) = o.route := by
    cases used : o.route with
    | none => rfl
    | some hop =>
      unfold WellRouted at routed
      rw [used] at routed
      rw [Option.filter_some, if_pos routed.mem]
  unfold dropStaleLinks
  simp only [links, route]

/-- The route goes with its link, so what is chosen among the links that stay is a change unless it
is still installed. -/
theorem prune_of_stale {o : Originator} {now timeout : Time}
    (stale : o.hasStaleLink now timeout = true) :
    o.prune now timeout =
      ({ o.dropStaleLinks now timeout with route := (o.dropStaleLinks now timeout).choice? },
        routeReport o.addr o.route (o.dropStaleLinks now timeout).choice?) := by
  unfold prune
  rw [if_pos stale]
  apply reselect_eq
  intro chosen
  have isRoute := (o.dropStaleLinks now timeout).choice?_isRoute
  rw [chosen] at isRoute
  unfold dropStaleLinks at isRoute ⊢
  dsimp only at isRoute ⊢
  cases used : o.route with
  | none => rfl
  | some hop =>
    rw [used] at isRoute
    rw [Option.filter_some, if_pos isRoute.mem]

theorem prune_of_fresh {o : Originator} {now timeout : Time} (routed : o.WellRouted)
    (fresh : o.hasStaleLink now timeout = false) : o.prune now timeout = (o, none) := by
  unfold prune
  rw [if_neg (Bool.eq_false_iff.mp fresh), dropStaleLinks_eq_self routed fresh]

theorem prune_eq {o : Originator} (now timeout : Time) (routed : o.WellRouted) :
    ∃ route, IsRoute (o.links.filter fun l => ! l.isStale now timeout) route ∧
      o.prune now timeout =
        ({ o with links := o.links.filter fun l => ! l.isStale now timeout, route },
          routeReport o.addr o.route route) := by
  cases stale : o.hasStaleLink now timeout with
  | true => exact ⟨_, (o.dropStaleLinks now timeout).choice?_isRoute, prune_of_stale stale⟩
  | false =>
    have links : (o.links.filter fun l => ! l.isStale now timeout) = o.links :=
      congrArg Originator.links (dropStaleLinks_eq_self routed stale)
    refine ⟨o.route, ?_, ?_⟩
    · rw [links]
      exact routed
    · rw [prune_of_fresh routed stale, links, routeReport, if_pos rfl]

theorem prune_report {o : Originator} (now timeout : Time) (routed : o.WellRouted) :
    (o.prune now timeout).2 = routeReport o.addr o.route (o.prune now timeout).1.route := by
  obtain ⟨route, _, eq⟩ := prune_eq now timeout routed
  rw [eq]

end Originator

end BeaconMesh
