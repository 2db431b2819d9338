import Portail.Config.Resolve
import Portail.Routing.Table

/-!
# The table build

`build_route_table`: every route compiled and resolved, its rules inserted for each
listener it attaches to under each hostname the two share. The rate limiters and
request counters that ride on a rule are left out.
-/

namespace Portail.Config

open Lib Http Routing

/-- HTTP routes are served on HTTP and HTTPS listeners only. -/
def takesHttpRoutes (l : ListenerConfig) : Bool := l.protocol == .http || l.protocol == .https

/-- The listener joins those matched, unless one of its name is there. -/
def addListener (matched : List ListenerConfig) (l : ListenerConfig) : List ListenerConfig :=
  if matched.any fun m => m.name == l.name then matched else matched ++ [l]

/-- The listeners a route's parentRefs select. -/
def findListenersForRoute (parentRefs : List ParentRef) (gateway : GatewayConfig) :
    List ListenerConfig :=
  parentRefs.foldl (fun matched pr => (gateway.listeners.filter pr.selects).foldl addListener
    matched) []

def hostnameMatches (listenerHostname routeHostname : Bytes) : Bool :=
  hostnamesIntersect (lowercase listenerHostname) (lowercase routeHostname)

/-- The more specific of a listener's and a route's hostname, both lowercase. -/
def narrower (lh rh : Bytes) : Bytes :=
  if (stripStar rh).isSome ∧ (stripStar lh).isNone then lh
  else if (stripStar lh).isSome ∧ (stripStar rh).isNone then rh
  else if rh.length ≥ lh.length then rh
  else lh

def intersectHostnames (listenerHostname : Option Bytes) (routeHostnames : List Bytes) :
    List Bytes :=
  match listenerHostname with
  | none => routeHostnames
  | some lh => (routeHostnames.filter (hostnameMatches lh)).map fun rh =>
      narrower (lowercase lh) (lowercase rh)

/-- The hostnames a route is served under on a listener. -/
def effectiveHostnames (listenerHostname : Option Bytes) (routeHostnames : List Bytes) :
    List Bytes :=
  if routeHostnames.isEmpty then [listenerHostname.getD (bytes "*")]
  else intersectHostnames listenerHostname routeHostnames

/-- The ports and listener hostnames an HTTP route attaches to. -/
def httpScopes (gateway : GatewayConfig) (parentRefs : List ParentRef) :
    List (UInt16 × Option Bytes) :=
  if parentRefs.isEmpty then [(0, none)]
  else ((findListenersForRoute parentRefs gateway).filter takesHttpRoutes).map fun l =>
    (l.port, l.hostname.map Str.octets)

section

/-- The place of an address in the order of `SocketAddr`. -/
def socketAddrKey (a : SocketAddr) : List ℕ :=
  (match a.ip with
    | .v4 ip => 0 :: ip.octets.map UInt8.toNat
    | .v6 ip => 1 :: ip.segments.map UInt16.toNat) ++ [a.port.toNat]

def minAddr (a b : SocketAddr) : SocketAddr := if socketAddrKey b < socketAddrKey a then b else a

def smallestAddr : List SocketAddr → Option SocketAddr
  | [] => none
  | a :: rest => some (rest.foldl minAddr a)

/-- A compiled filter in the table; a mirror that is refused or has no address is left out. -/
def ruleFilter (r : Resolver) : CompiledFilter → Result (List HttpFilter)
  | .ready filter => .ok [filter]
  | .mirror backend fraction =>
    if backend.invalid then .ok []
    else do
      let found ← r.endpoints backend.name backend.port "RequestMirror"
      return ((smallestAddr (found.map Prod.fst)).map fun addr =>
        HttpFilter.requestMirror addr fraction).toList

def ruleFilters (r : Resolver) (filters : List CompiledFilter) : Result (List HttpFilter) :=
  do return (← collect (fun _ e => e) (ruleFilter r) filters).flatten

/-- The table's form of a filter that needs no address. -/
def HttpRouteFilter.ready? (f : HttpRouteFilter) : Option HttpFilter :=
  match tableFilter f with
  | .ok (.ready filter) => some filter
  | _ => none

theorem ready?_mirror (backendRef : BackendRef) (percent : Option UInt32)
    (fraction : Option MirrorFraction) :
    (HttpRouteFilter.requestMirror backendRef percent fraction).ready? = none := by
  simp only [HttpRouteFilter.ready?, tableFilter]
  cases mirrorFraction percent fraction <;> rfl

variable {r : Resolver} {found : List HttpFilter} {f : HttpRouteFilter}

theorem findSome?_ruleFilter {β : Type*} {g : HttpFilter → Option β}
    (hmirror : ∀ addr fraction, g (.requestMirror addr fraction) = none)
    {c : CompiledFilter} (hcompile : compileFilter f = .ok c)
    (hfound : ruleFilter r c = .ok found) :
    found.findSome? g = f.ready?.bind g := by
  rw [compileFilter, seq_eq_ok, seq_eq_ok] at hcompile
  obtain ⟨-, -, htable⟩ := hcompile
  rw [HttpRouteFilter.ready?, htable]
  cases c with
  | ready filter =>
    cases hfound
    simp
  | mirror backend fraction =>
    rw [ruleFilter] at hfound
    split_ifs at hfound
    · cases hfound
      rfl
    · obtain ⟨ends, -, hends⟩ := bind_eq_ok.mp hfound
      cases hends
      cases smallestAddr (ends.map Prod.fst) with
      | none => rfl
      | some addr => simp [hmirror]

/-- What is looked for among the table's filters, mirrors apart, is found in the rule's own. -/
theorem findSome?_ruleFilters {β : Type*} {g : HttpFilter → Option β}
    (hmirror : ∀ addr fraction, g (.requestMirror addr fraction) = none)
    {filters : List HttpRouteFilter} {compiled : List CompiledFilter}
    (hcompile : List.Forall₂ (fun f c => compileFilter f = .ok c) filters compiled)
    (hfound : ruleFilters r compiled = .ok found) :
    found.findSome? g = filters.findSome? fun f => f.ready?.bind g := by
  obtain ⟨parts, hparts, hflat⟩ := bind_eq_ok.mp hfound
  obtain rfl := Except.ok.inj hflat
  rw [collect_eq_ok] at hparts
  clear hfound hflat
  induction hcompile generalizing parts with
  | nil =>
    cases hparts
    rfl
  | cons hf _ ih =>
    cases hparts with
    | cons hpart hparts =>
      rw [List.flatten_cons, List.findSome?_append, findSome?_ruleFilter hmirror hf hpart,
        ih _ hparts, List.findSome?_cons]
      cases Option.bind _ g <;> rfl

theorem findSome?_compiled {R β : Type} [RegexEngine R] {g : HttpFilter → Option β}
    (hmirror : ∀ addr fraction, g (.requestMirror addr fraction) = none) {rule : HttpRouteRule}
    {compiled : CompiledRule R} (hcompiled : compileRule rule = .ok compiled)
    (hfound : ruleFilters r compiled.filters = .ok found)
    (hf : f ∈ rule.filters) (hkind : f.filterType ≠ .requestMirror)
    (hg : ∀ f' : HttpRouteFilter, (f'.ready?.bind g).isSome = true → f'.filterType = f.filterType)
    (hsome : (f.ready?.bind g).isSome = true) : found.findSome? g = f.ready?.bind g := by
  obtain ⟨hcomb, -, -, -, -, hfilters⟩ := compileRule_eq_ok.mp hcompiled
  rw [checkFilterCombination, seq_eq_ok] at hcomb
  rw [findSome?_ruleFilters hmirror hfilters hfound]
  exact (findSome?_of_noRepeats hcomb.1 hf hkind hg hsome).2

end

section

variable {R : Type}

/-- The table's rules of a compiled rule, one for each match; the index of the route is kept in
32 bits. -/
def tableRules (config : PortailConfig) (r : Resolver) (routeIdx : ℕ) (rule : CompiledRule R) :
    Result (List (Routing.HttpRouteRule R)) := do
  let backends ← ruleBackends config r rule
  let filters ← ruleFilters r rule.filters
  return rule.routeMatches.map fun m =>
    { m.toRule filters backends with routeIndex := routeIdx % 2 ^ 32 }

variable [RegexEngine R]

/-- The table's rules of a route; a route that fails its check has none when the policy is
lenient. -/
def routeRules (config : PortailConfig) (r : Resolver) (routeIdx : ℕ) (route : HttpRouteConfig) :
    Result (List (Routing.HttpRouteRule R)) :=
  match compileHttpRoute route with
  | .error e =>
    if r.policy = .strict then
      .error ([.text "HTTP route ", .num routeIdx, .text ": "] ++ e.message)
    else .ok []
  | .ok compiled => do
    return (← collect (fun _ e => e) (tableRules config r routeIdx) compiled).flatten

/-- Where a route's rules go: for each scope and each of its hostnames, all of them in order. -/
def routeInsertions (gateway : GatewayConfig) (route : HttpRouteConfig)
    (rules : List (Routing.HttpRouteRule R)) : List (Insertion R) :=
  (httpScopes gateway route.parentRefs).flatMap fun (port, listenerHostname) =>
    (effectiveHostnames listenerHostname (route.hostnames.map Str.octets)).flatMap fun hostname =>
      rules.map fun rule => ⟨port, listenerHostname, hostname, rule⟩

/-- The insertions of the routes in order, the first of them the `i`-th. -/
def httpInsertions (config : PortailConfig) (r : Resolver) :
    ℕ → List HttpRouteConfig → Result (List (Insertion R))
  | _, [] => .ok []
  | i, route :: rest => do
    let rules ← routeRules config r i route
    let insertions ← httpInsertions config r (i + 1) rest
    return routeInsertions config.gateway route rules ++ insertions

end

section

variable {R : Type}

/-- A listener carries the first rule of the first TCP or UDP route attached to it. -/
def convertL4Route (config : PortailConfig) (r : Resolver) (isUdp : Bool) (t : RouteTable R)
    (route : TcpRouteConfig) : Result (RouteTable R) :=
  match route.rules with
  | [] => .ok t
  | rule :: _ =>
    let listeners := (findListenersForRoute route.parentRefs config.gateway).filter fun l =>
      if isUdp then l.protocol == .udp else l.protocol == .tcp || l.protocol == .tls
    if listeners.isEmpty then .ok t
    else do
      let backends ← r.backends rule.backendRefs (if isUdp then "UDP" else "TCP")
      return listeners.foldl (fun t l =>
        if isUdp then t.addUdpRoute l.port backends else t.addTcpRoute l.port backends) t

def convertL4Routes (config : PortailConfig) (r : Resolver) (isUdp : Bool)
    (routes : List TcpRouteConfig) (t : RouteTable R) : Result (RouteTable R) :=
  routes.foldlM (convertL4Route config r isUdp) t

/-- The order of scopes: by port, then no hostname, then hostnames by octets. -/
def scopeKey (s : UInt16 × Option Bytes) : List ℕ :=
  s.1.toNat :: (s.2.map fun h => 1 :: h.map UInt8.toNat).getD [0]

/-- The passthrough listeners a TLS route attaches to, sorted and without repeats, with the
hostnames it is served under there. -/
def tlsRouteScopes (gateway : GatewayConfig) (route : TlsRouteConfig) :
    List (UInt16 × Option Bytes × List Bytes) :=
  let scopes := if route.parentRefs.isEmpty then [(0, none)]
    else ((findListenersForRoute route.parentRefs gateway).filter
      ListenerConfig.isTlsPassthrough).map fun l => (l.port, l.hostname.map Str.octets)
  let scopes := (scopes.insertionSort fun a b => scopeKey a ≤ scopeKey b).dedup
  (scopes.map fun (port, lh) =>
    (port, lh, effectiveHostnames lh (route.hostnames.map Str.octets))).filter fun s =>
      !s.2.2.isEmpty

def convertTlsRule (r : Resolver) (scopes : List (UInt16 × Option Bytes × List Bytes))
    (t : RouteTable R) (rule : L4RouteRule) : Result (RouteTable R) := do
  let backends ← r.backends rule.backendRefs "TLS"
  return scopes.foldl (fun t s => s.2.2.foldl (fun t hostname =>
    t.addTlsRouteForListener s.1 s.2.1 hostname backends) t) t

def convertTlsRoute (config : PortailConfig) (r : Resolver) (t : RouteTable R)
    (route : TlsRouteConfig) : Result (RouteTable R) :=
  let scopes := tlsRouteScopes config.gateway route
  if scopes.isEmpty then .ok t else route.rules.foldlM (convertTlsRule r scopes) t

end

section

variable {R : Type} [RegexEngine R]

/-- The ports that serve the routes without parentRefs. -/
def httpPorts (gateway : GatewayConfig) : List UInt16 :=
  (gateway.listeners.filter takesHttpRoutes).map ListenerConfig.port

def httpTable (gateway : GatewayConfig) (insertions : List (Insertion R)) : RouteTable R :=
  (insertions.foldl RouteTable.pushHttpRouteForListener (RouteTable.new R)).sortHttpRoutes
    |>.shareAnyPortScopesOn (httpPorts gateway)

def resolverOf (config : PortailConfig) (policy : BuildPolicy) (lookup : Lookup)
    (hashOne : SocketAddr → UInt64) : Resolver where
  policy := policy
  lookup := lookup
  hashOne := hashOne
  endpointOverrides := config.endpointOverrides
  headlessTargetPorts := config.headlessTargetPorts

def buildRouteTable (config : PortailConfig) (policy : BuildPolicy) (lookup : Lookup)
    (hashOne : SocketAddr → UInt64) : Result (RouteTable R) := do
  let r := resolverOf config policy lookup hashOne
  let insertions ← httpInsertions config r 0 config.httpRoutes
  let t := httpTable config.gateway insertions
  let t ← convertL4Routes config r false config.tcpRoutes t
  let t ← convertL4Routes config r true config.udpRoutes t
  config.tlsRoutes.foldlM (convertTlsRoute config r) t

end

/-- The backendRefs and mirrors of a rule that a build resolves. -/
def HttpRouteRule.dialed (rule : HttpRouteRule) : List BackendRef :=
  (if rule.redirects then [] else rule.backendRefs) ++
    rule.filters.filterMap HttpRouteFilter.mirrored

def l4Dialed (gateway : GatewayConfig) (isUdp : Bool) (route : TcpRouteConfig) : List BackendRef :=
  if ((findListenersForRoute route.parentRefs gateway).filter fun l =>
      if isUdp then l.protocol == .udp else l.protocol == .tcp || l.protocol == .tls).isEmpty then
    []
  else (route.rules.take 1).flatMap L4RouteRule.backendRefs

def tlsDialed (gateway : GatewayConfig) (route : TlsRouteConfig) : List BackendRef :=
  if (tlsRouteScopes gateway route).isEmpty then []
  else route.rules.flatMap L4RouteRule.backendRefs

/-- The backendRefs of a config's TCP, UDP and TLS routes that a build resolves. -/
def PortailConfig.l4References (config : PortailConfig) : List BackendRef :=
  config.tcpRoutes.flatMap (l4Dialed config.gateway false) ++
    (config.udpRoutes.flatMap (l4Dialed config.gateway true) ++
      config.tlsRoutes.flatMap (tlsDialed config.gateway))

def HttpRouteConfig.compiles (R : Type) [RegexEngine R] (route : HttpRouteConfig) : Bool :=
  (compileHttpRoute route : Except RouteError (List (CompiledRule R))).isOk

end Portail.Config
