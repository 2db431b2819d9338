import Portail.Kubernetes.Reconciler

/-!
# One pass over the routes of a kind

The pass as the list of what it decided: for each route, in order of precedence, the
ports that older routes held, the verdict of each parentRef and the route's own. Config
and status are read off that list, and the facts about them are facts about one element
and those before it.
-/

namespace Portail.Kubernetes

open Lib Http Routing Config List

section

/-- What a pass decided of one route; `claimed` are the ports that older routes held. -/
structure Judged (R : Type) where
  route : R
  claimed : List Int32
  parents : List ParentVerdict
  verdict : Verdict

namespace Judged

variable {R : Type}

def served (j : Judged R) : Bool := !j.parents.all ParentVerdict.isError && j.verdict.isOk

def names (j : Judged R) : List Str := attachedListeners j.parents

end Judged

variable {R C : Type} (K : GatewayRoute R C) (cx : RouteCollectCtx)

/-- The ports the route takes, where a port carries one route. -/
def Judged.ports (j : Judged R) : List Int32 :=
  if j.served && K.oneRoutePerListener then j.names.filterMap cx.portOf else []

def Judged.status (j : Judged R) : List RouteAcceptance :=
  j.parents.map (parentStatus K j.route j.verdict (refFailures K cx j.route (K.convert j.route).1))

def Judged.config (j : Judged R) : Option C :=
  if j.served then some (attachedConfig K cx j.route j.names) else none

def judgeRoute (claimed : List Int32) (checks : Checks) (route : R) : Judged R × Checks :=
  let parents := judgeParents K cx claimed route
  if parents.all ParentVerdict.isError then (⟨route, claimed, parents, .ok ()⟩, checks)
  else (⟨route, claimed, parents, (routeVerdict K checks route).1⟩, (routeVerdict K checks route).2)

def judgeRoutes : List Int32 → Checks → List R → List (Judged R) × Checks
  | _, checks, [] => ([], checks)
  | claimed, checks, route :: rest =>
    let (j, checks) := judgeRoute K cx claimed checks route
    let (js, checks) := judgeRoutes (claimed ++ j.ports K cx) checks rest
    (j :: js, checks)

end

section

variable {R C : Type} (K : GatewayRoute R C) (cx : RouteCollectCtx)

/-- A parentRef that no listener admits has its status whatever else the route's is. -/
theorem parentStatus_of_isError (route : R) {v : ParentVerdict} (h : v.isError = true)
    (verdict verdict' : Verdict) (failures failures' : List (RefsReason × Message)) :
    parentStatus K route verdict failures v = parentStatus K route verdict' failures' v := by
  unfold ParentVerdict.isError at h
  unfold parentStatus
  cases hv : v.result with
  | error reason => rfl
  | ok names =>
    rw [hv] at h
    cases h

theorem collectRoute_eq (st : Collected C) (route : R) :
    collectRoute K cx st route =
      { claimed := st.claimed ++ (judgeRoute K cx st.claimed st.checks route).1.ports K cx
        checks := (judgeRoute K cx st.claimed st.checks route).2
        status := st.status ++ (judgeRoute K cx st.claimed st.checks route).1.status K cx
        configs := st.configs ++
          ((judgeRoute K cx st.claimed st.checks route).1.config K cx).toList } := by
  unfold collectRoute judgeRoute
  cases herror : (judgeParents K cx st.claimed route).all ParentVerdict.isError with
  | true =>
    have hstatus : (judgeParents K cx st.claimed route).map (parentStatus K route (.ok ()) []) =
        (judgeParents K cx st.claimed route).map (parentStatus K route (.ok ())
          (refFailures K cx route (K.convert route).1)) := by
      refine map_congr_left fun v hv => ?_
      exact parentStatus_of_isError K route (all_eq_true.mp herror v hv) _ _ _ _
    simp only [Judged.ports, Judged.config, Judged.served, Judged.status, herror, hstatus, if_true,
      Bool.not_true, Bool.false_and, Bool.false_eq_true, if_false, append_nil,
      Option.toList_none]
  | false =>
    simp only [Judged.ports, Judged.config, Judged.served, Judged.status, Judged.names, herror,
      Bool.false_eq_true, if_false, Bool.not_false, Bool.true_and]
    cases hverdict : (routeVerdict K st.checks route).1 with
    | error e => simp [Except.isOk, Except.toBool]
    | ok u => cases hone : K.oneRoutePerListener <;> simp [Except.isOk, Except.toBool]

theorem foldl_collectRoute (st : Collected C) (routes : List R) :
    let result := routes.foldl (collectRoute K cx) st
    let judged := judgeRoutes K cx st.claimed st.checks routes
    result.status = st.status ++ judged.1.flatMap (Judged.status K cx) ∧
      result.configs = st.configs ++ judged.1.filterMap (Judged.config K cx) ∧
      result.checks = judged.2 := by
  induction routes generalizing st with
  | nil => simp [judgeRoutes]
  | cons route rest ih =>
    obtain ⟨hstatus, hconfigs, hchecks⟩ := ih (collectRoute K cx st route)
    rw [collectRoute_eq] at hstatus hconfigs hchecks
    simp only [foldl_cons, judgeRoutes, collectRoute_eq, hstatus, hconfigs, hchecks]
    refine ⟨?_, ?_, trivial⟩
    · rw [flatMap_cons, append_assoc]
    · rw [filterMap_cons]
      cases (judgeRoute K cx st.claimed st.checks route).1.config K cx with
      | none => simp
      | some config => simp

theorem judgeRoute_route (claimed : List Int32) (checks : Checks) (route : R) :
    (judgeRoute K cx claimed checks route).1.route = route := by
  simp only [judgeRoute]
  split_ifs
  · rfl
  · rfl

theorem judgeRoutes_routes (claimed : List Int32) (checks : Checks) (routes : List R) :
    (judgeRoutes K cx claimed checks routes).1.map Judged.route = routes := by
  induction routes generalizing claimed checks with
  | nil => rfl
  | cons route rest ih =>
    simp only [judgeRoutes, map_cons, judgeRoute_route, ih]

theorem mem_configs {routes : List R} {checks : Checks} {status : List RouteAcceptance} {config : C}
    (h : config ∈ (collectRoutes K cx routes checks status).configs) :
    ∃ route ∈ routes, ∃ names, config = attachedConfig K cx route names := by
  have hpass := (foldl_collectRoute K cx ⟨[], checks, status, []⟩ (orderedRoutes K cx routes)).2.1
  rw [collectRoutes, hpass, nil_append] at h
  obtain ⟨j, hj, hconfig⟩ := mem_filterMap.mp h
  unfold Judged.config at hconfig
  split_ifs at hconfig
  refine ⟨j.route, ?_, j.names, (Option.some.inj hconfig).symm⟩
  have hroute := mem_map_of_mem (f := Judged.route) hj
  rw [judgeRoutes_routes] at hroute
  exact (mem_filter.mp ((mem_insertionSort _).mp hroute)).1

end
end Portail.Kubernetes
