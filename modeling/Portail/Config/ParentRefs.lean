import Portail.Config.Validation
import Portail.Config.Isolation

/-!
# What a validated parentRef attaches to

A route of each kind is served on listeners of some protocols, those its parentRefs select.
`validate` makes sure that a parentRef selects a listener, but not that the route is served
there, that the port is one, nor that names are distinct: the route is attached as its
parentRefs read exactly where those hold too (`attachedListeners_exact_iff`).
-/

namespace Portail.Config

open Lib Routing List

inductive RouteKind
  | http
  | tcp
  | tls
  | udp
  deriving DecidableEq

/-- The listeners that routes of a kind are served on. -/
def RouteKind.serves : RouteKind → ListenerConfig → Bool
  | http, l => takesHttpRoutes l
  | tcp, l => l.protocol == .tcp || l.protocol == .tls
  | tls, l => l.isTlsPassthrough
  | udp, l => l.protocol == .udp

def attachedListeners (kind : RouteKind) (parentRefs : List ParentRef) (gateway : GatewayConfig) :
    List ListenerConfig :=
  (findListenersForRoute parentRefs gateway).filter kind.serves

/-- The routes of a config, by their kind and parentRefs. -/
def PortailConfig.routeRefs (config : PortailConfig) : List (RouteKind × List ParentRef) :=
  config.httpRoutes.map (fun r => (.http, r.parentRefs)) ++
    config.tcpRoutes.map (fun r => (.tcp, r.parentRefs)) ++
    config.tlsRoutes.map (fun r => (.tls, r.parentRefs)) ++
    config.udpRoutes.map (fun r => (.udp, r.parentRefs))

/-- The listener has the name and the port of the parentRef, where they are set. -/
def ParentRef.Names (pr : ParentRef) (l : ListenerConfig) : Prop :=
  (∀ s ∈ pr.sectionName, l.name = s) ∧ ∀ p ∈ pr.port, (l.port.toNat : ℤ) = p.toInt

theorem toUInt16_of_range {p : Int32} (hlow : 0 ≤ p.toInt) (hhigh : p.toInt < 2 ^ 16) :
    (p.toUInt32.toUInt16.toNat : ℤ) = p.toInt := by
  have hint : p.toInt = p.toBitVec.toInt := rfl
  have hnat : p.toUInt32.toNat = p.toBitVec.toNat := rfl
  have hlt := p.toBitVec.isLt
  rw [hint, BitVec.toInt_eq_toNat_cond] at hlow hhigh ⊢
  rw [UInt32.toNat_toUInt16, hnat]
  split_ifs at hlow hhigh ⊢ <;> omega

/-- A port in range is compared as the integer it is. -/
theorem selects_iff_names {pr : ParentRef}
    (hport : ∀ p ∈ pr.port, 0 ≤ p.toInt ∧ p.toInt < 2 ^ 16) (l : ListenerConfig) :
    pr.selects l = true ↔ pr.Names l := by
  rw [ParentRef.selects, Bool.and_eq_true, ParentRef.Names]
  refine and_congr ?_ ?_
  · cases pr.sectionName <;> simp
  · cases hp : pr.port with
    | none => simp
    | some p =>
      obtain ⟨hlow, hhigh⟩ := hport p hp
      rw [Option.all_some, beq_iff_eq, ← UInt16.toNat_inj, ← Int.natCast_inj,
        toUInt16_of_range hlow hhigh]
      simp

section

variable {R : Type} [RegexEngine R] {config : PortailConfig} {performance : PerformanceConfig}
  {kind : RouteKind} {parentRefs : List ParentRef}

/-- What `validate` makes sure of: a listener that is selected, and for an HTTP route one that
takes it. -/
theorem selects_of_validate (hvalid : config.validate R performance = .ok ())
    (hroute : (kind, parentRefs) ∈ config.routeRefs) {pr : ParentRef} (hpr : pr ∈ parentRefs) :
    ∃ l ∈ config.gateway.listeners, pr.selects l = true ∧
      (kind = .http → kind.serves l = true) := by
  obtain ⟨-, -, -, -, -, -, -, hresolve, -⟩ := validate_eq_ok.mp hvalid
  obtain ⟨hhttp, htcp, htls, hudp⟩ := validateParentRefsResolve_eq_ok.mp hresolve
  simp only [PortailConfig.routeRefs, mem_append, mem_map, Prod.mk.injEq] at hroute
  rcases hroute with ((⟨r, hr, rfl, rfl⟩ | ⟨r, hr, rfl, rfl⟩) | ⟨r, hr, rfl, rfl⟩) |
    ⟨r, hr, rfl, rfl⟩
  · obtain ⟨l, hl, hselects⟩ := hhttp r hr pr hpr
    obtain ⟨hl, htakes⟩ := mem_filter.mp hl
    exact ⟨l, hl, hselects, fun _ => htakes⟩
  · obtain ⟨l, hl, hselects⟩ := htcp r hr pr hpr
    exact ⟨l, hl, hselects, nofun⟩
  · obtain ⟨l, hl, hselects⟩ := htls r hr pr hpr
    exact ⟨l, hl, hselects, nofun⟩
  · obtain ⟨l, hl, hselects⟩ := hudp r hr pr hpr
    exact ⟨l, hl, hselects, nofun⟩

/-- A route of a valid config is attached to exactly the listeners it is served on that one of
its parentRefs names, each naming one, exactly when every port is one a listener may have, every
parentRef names a listener that serves the kind of route (of an HTTP route each does), and no
listener to attach to is met after another of its name. -/
theorem attachedListeners_exact_iff (hvalid : config.validate R performance = .ok ())
    (hroute : (kind, parentRefs) ∈ config.routeRefs) :
    ((∀ l, l ∈ attachedListeners kind parentRefs config.gateway ↔
        l ∈ config.gateway.listeners ∧ kind.serves l = true ∧ ∃ pr ∈ parentRefs, pr.Names l) ∧
      ∀ pr ∈ parentRefs, ∃ l ∈ config.gateway.listeners, kind.serves l = true ∧ pr.Names l) ↔
    (∀ pr ∈ parentRefs, ∀ p ∈ pr.port, 0 ≤ p.toInt ∧ p.toInt < 2 ^ 16) ∧
      (kind = .http ∨
        ∀ pr ∈ parentRefs, ∃ l ∈ config.gateway.listeners, kind.serves l = true ∧ pr.Names l) ∧
      ∀ l ∈ selectedListeners parentRefs config.gateway, kind.serves l = true →
        (selectedListeners parentRefs config.gateway).find? (fun m => m.name == l.name) =
          some l := by
  have hattached (l : ListenerConfig) : l ∈ attachedListeners kind parentRefs config.gateway ↔
      kind.serves l = true ∧
        (selectedListeners parentRefs config.gateway).find? (fun m => m.name == l.name) =
          some l := by
    rw [attachedListeners, mem_filter, mem_findListenersForRoute_first, and_comm]
  constructor
  · rintro ⟨hexact, hsome⟩
    have hports : ∀ pr ∈ parentRefs, ∀ p ∈ pr.port, 0 ≤ p.toInt ∧ p.toInt < 2 ^ 16 := by
      intro pr hpr p hp
      obtain ⟨l, -, -, -, hport⟩ := hsome pr hpr
      have hlt := l.port.toNat_lt
      rw [← hport p hp]
      omega
    refine ⟨hports, .inr hsome, fun l hl hserves => ?_⟩
    obtain ⟨hl, pr, hpr, hselects⟩ := mem_selectedListeners.mp hl
    have hnames := (selects_iff_names (hports pr hpr) l).mp hselects
    exact ((hattached l).mp ((hexact l).mpr ⟨hl, hserves, pr, hpr, hnames⟩)).2
  · rintro ⟨hports, hkind, hfirst⟩
    constructor
    · intro l
      rw [hattached]
      constructor
      · rintro ⟨hserves, hfind⟩
        obtain ⟨hl, pr, hpr, hselects⟩ :=
          mem_selectedListeners.mp (mem_of_find?_eq_some hfind)
        exact ⟨hl, hserves, pr, hpr, (selects_iff_names (hports pr hpr) l).mp hselects⟩
      · rintro ⟨hl, hserves, pr, hpr, hnames⟩
        have hselects := (selects_iff_names (hports pr hpr) l).mpr hnames
        exact ⟨hserves, hfirst l (mem_selectedListeners.mpr ⟨hl, pr, hpr, hselects⟩) hserves⟩
    · rcases hkind with hhttp | hsome
      · intro pr hpr
        obtain ⟨l, hl, hselects, hserves⟩ := selects_of_validate hvalid hroute hpr
        exact ⟨l, hl, hserves hhttp, (selects_iff_names (hports pr hpr) l).mp hselects⟩
      · exact hsome

def httpOn (port : UInt16) : ListenerConfig :=
  ⟨.lit "web", .http, port, none, none, none, none, none, none⟩

/-- A config file of listeners and one route of a kind. -/
def fileConfig (listeners : List ListenerConfig) (httpRefs tcpRefs : List (List ParentRef)) :
    PortailConfig where
  gateway := ⟨.lit "portail-gateway", listeners, []⟩
  httpRoutes := httpRefs.map fun refs =>
    ⟨refs, [.lit "a.b"], [⟨[], [], [serviceRef (.lit "vip") 1]⟩]⟩
  tcpRoutes := tcpRefs.map fun refs => ⟨refs, [⟨[serviceRef (.lit "vip") 1]⟩]⟩
  tlsRoutes := []
  udpRoutes := []
  endpointOverrides _ := none
  appProtocolOverrides _ := none
  headlessTargetPorts _ := none

def defaultPerformance : PerformanceConfig := ⟨30000000000, none⟩

/-- A parentRef to a port of the Gateway. -/
def portRef (port : Int32) : ParentRef := ⟨.lit "portail-gateway", none, some port⟩

theorem attachedListeners_exact_port :
    (fileConfig [httpOn 80, httpOn 81] [[portRef 81]] []).validate Empty
      defaultPerformance = .ok () ∧
    ∀ l, l ∈ attachedListeners .http [portRef 81]
        (fileConfig [httpOn 80, httpOn 81] [[portRef 81]] []).gateway ↔
      l ∈ [httpOn 80, httpOn 81] ∧ takesHttpRoutes l = true ∧ ∃ pr ∈ [portRef 81], pr.Names l := by
  have hvalid : (fileConfig [httpOn 80, httpOn 81] [[portRef 81]] []).validate Empty
      defaultPerformance = .ok () := rfl
  have hroute : (RouteKind.http, [portRef 81]) ∈
      (fileConfig [httpOn 80, httpOn 81] [[portRef 81]] []).routeRefs :=
    mem_cons_self
  have hports : ∀ pr ∈ [portRef 81], ∀ p ∈ pr.port, 0 ≤ p.toInt ∧ p.toInt < 2 ^ 16 := by
    intro pr hpr p hp
    obtain rfl := mem_singleton.mp hpr
    cases hp
    decide
  exact ⟨hvalid, ((attachedListeners_exact_iff hvalid hroute).mpr ⟨hports, .inl rfl, by decide⟩).1⟩

/-- Three configs that pass: a port too large for one wraps around to a listener's, a TCP route
names an HTTP listener only, and of two listeners of one name the second gets no route. -/
theorem validated_not_attached :
    ((fileConfig [httpOn 80] [[portRef 65616]] []).validate Empty defaultPerformance = .ok () ∧
      attachedListeners .http [portRef 65616]
        (fileConfig [httpOn 80] [[portRef 65616]] []).gateway = [httpOn 80] ∧
      ¬ (portRef 65616).Names (httpOn 80)) ∧
    ((fileConfig [httpOn 80] [] [[portRef 80]]).validate Empty defaultPerformance = .ok () ∧
      attachedListeners .tcp [portRef 80] (fileConfig [httpOn 80] [] [[portRef 80]]).gateway = []) ∧
    (fileConfig [httpOn 80, httpOn 81] [[portRef 80, portRef 81]] []).validate Empty
        defaultPerformance = .ok () ∧
      attachedListeners .http [portRef 80, portRef 81]
        (fileConfig [httpOn 80, httpOn 81] [[portRef 80, portRef 81]] []).gateway = [httpOn 80] ∧
      (portRef 81).Names (httpOn 81) := by
  have hwrapped : ¬ (portRef 65616).Names (httpOn 80) := fun h =>
    absurd (h.2 65616 rfl) (by decide)
  have hsecond : (portRef 81).Names (httpOn 81) :=
    ⟨nofun, fun p hp => by obtain rfl := Option.some.inj hp; decide⟩
  exact ⟨⟨rfl, by decide, hwrapped⟩, ⟨rfl, by decide⟩, rfl, by decide, hsecond⟩

end
end Portail.Config
