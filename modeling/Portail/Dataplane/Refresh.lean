import Portail.Config.Reordered
import Portail.Lib.Runs

/-!
# Refreshing the table from DNS

The live table and the published pair of a config and its table are two cells with two
writers. The Applier stores a table and then publishes its pair; the DNS task reads the
pair, resolves its config again and exchanges first the table and then the pair, each
only when it is still the one it read (`dataplane/dns_refresh.rs`).
-/

namespace Portail.Dataplane

open Lib Http Routing Config

section

/-- A shared pointer. Two are the same when their addresses are. -/
structure Arc (α : Type) where
  addr : ℕ
  val : α

structure Published (C T : Type) where
  config : C
  table : Arc T

/-- The two cells, and the address the next allocation gets. -/
structure Cells (C T : Type) where
  routes : Arc T
  published : Option (Arc (Published C T))
  next : ℕ

inductive SwapOutcome
  | unchanged
  | swapped
  | superseded
  deriving DecidableEq

variable {C T : Type}

namespace Cells

def alloc {α : Type} (cells : Cells C T) (val : α) : Arc α × Cells C T :=
  (⟨cells.next, val⟩, { cells with next := cells.next + 1 })

/-- The table exchanged, if it is still the pair's. -/
def swapTable (cells : Cells C T) (pair : Arc (Published C T)) (table : Arc T) : Cells C T :=
  { cells with routes := if cells.routes.addr = pair.val.table.addr then table else cells.routes }

/-- The pair exchanged, if it is still the one read. -/
def swapPair (cells : Cells C T) (pair new : Arc (Published C T)) : Cells C T :=
  { cells with
    published := if cells.published.any (·.addr == pair.addr) then some new else cells.published }

end Cells

/-- A table built again from the pair's config takes the place of the pair's. -/
def applyRefresh (signature : T → UInt64) (cells : Cells C T) (pair : Arc (Published C T))
    (built : T) : SwapOutcome × Cells C T :=
  if signature built = signature pair.val.table.val then (.unchanged, cells)
  else
    let (table, cells) := cells.alloc built
    let prev := cells.routes
    let cells := cells.swapTable pair table
    if prev.addr ≠ pair.val.table.addr then (.superseded, cells)
    else
      let (new, cells) := cells.alloc (⟨pair.val.config, table⟩ : Published C T)
      (.swapped, cells.swapPair pair new)

/-- Without another writer the table built is installed, unless its signature is the old one. -/
theorem applyRefresh_live (signature : T → UInt64) {cells : Cells C T}
    (pair : Arc (Published C T)) (hlive : cells.routes = pair.val.table) (built : T) :
    ((applyRefresh signature cells pair built).1 = .unchanged ↔
      signature built = signature pair.val.table.val) ∧
    (signature built ≠ signature pair.val.table.val →
      (applyRefresh signature cells pair built).1 = .swapped ∧
        (applyRefresh signature cells pair built).2.routes.val = built) := by
  unfold applyRefresh
  by_cases hsig : signature built = signature pair.val.table.val
  · simp [hsig]
  · simp [hsig, Cells.alloc, Cells.swapTable, Cells.swapPair, hlive]

end

section

variable {R : Type} [RegexEngine R]

/-- A refresh notices every change of a rule's or route's addresses exactly when the change shows
in the addresses of the whole table. -/
theorem refresh_notices_iff {config : PortailConfig} {policy : BuildPolicy}
    {lookup₁ lookup₂ : Lookup} {hashOne addrHash : SocketAddr → UInt64} {t₁ t₂ : RouteTable R}
    (h₁ : buildRouteTable config policy lookup₁ hashOne = .ok t₁)
    (h₂ : buildRouteTable config policy lookup₂ hashOne = .ok t₂)
    (hsums : t₁.dnsSignature addrHash = t₂.dnsSignature addrHash → t₁.dnsAddrs.Perm t₂.dnsAddrs)
    {cells : Cells PortailConfig (RouteTable R)} {addr : ℕ} {table : Arc (RouteTable R)}
    (htable : table.val = t₁) (hlive : cells.routes = table) :
    t₁.shape = t₂.shape ∧
    (((¬t₁.KeepsAddrs t₂ →
        (applyRefresh (RouteTable.dnsSignature addrHash) cells ⟨addr, config, table⟩
          t₂).2.routes.val = t₂) ∧
      ((applyRefresh (RouteTable.dnsSignature addrHash) cells ⟨addr, config, table⟩ t₂).1 =
        .unchanged → t₁.KeepsAddrs t₂)) ↔
      (t₁.KeepsAddrs t₂ ∨ ¬t₁.dnsAddrs.Perm t₂.dnsAddrs)) := by
  refine ⟨buildRouteTable_shape h₁ h₂, ?_⟩
  obtain ⟨hunchanged, hswapped⟩ := applyRefresh_live (RouteTable.dnsSignature addrHash)
    ⟨addr, config, table⟩ hlive t₂
  rw [htable] at hunchanged hswapped
  have hperm : t₂.dnsSignature addrHash = t₁.dnsSignature addrHash ↔
      t₁.dnsAddrs.Perm t₂.dnsAddrs :=
    ⟨fun h => hsums h.symm, fun h => (dnsSignature_perm addrHash h).symm⟩
  rw [hperm] at hunchanged
  constructor
  · rintro ⟨_, hkeeps⟩
    by_cases h : t₁.dnsAddrs.Perm t₂.dnsAddrs
    · exact .inl (hkeeps (hunchanged.mpr h))
    · exact .inr h
  · rintro (hkeeps | hnot)
    · exact ⟨fun h => absurd hkeeps h, fun _ => hkeeps⟩
    · exact ⟨fun _ => (hswapped fun h => hnot (hperm.mp h)).2,
        fun h => absurd (hunchanged.mp h) hnot⟩

/-- Two TCP routes, to one name each. -/
def blueGreenConfig : PortailConfig :=
  { plainConfig with
    gateway := ⟨Str.lit "portail-gateway",
      [⟨Str.lit "blue", .tcp, 7000, none, none, none, none, none, none⟩,
        ⟨Str.lit "green", .tcp, 7001, none, none, none, none, none, none⟩], []⟩
    tcpRoutes :=
      [⟨[⟨Str.lit "portail-gateway", some (Str.lit "blue"), none⟩],
          [⟨[serviceRef (Str.lit "blue") 1]⟩]⟩,
        ⟨[⟨Str.lit "portail-gateway", some (Str.lit "green"), none⟩],
          [⟨[serviceRef (Str.lit "green") 1]⟩]⟩] }

def podAddr (host : UInt8) : SocketAddr := ⟨.v4 ⟨[10, 0, 0, host], rfl⟩, 80⟩

/-- A resolver that answers one address for each of the two names. -/
def blueGreenLookup (blue green : UInt8) : Lookup :=
  fun name _ => .ok [podAddr (if name = Str.lit "blue" then blue else green)]

def blueGreenTable (blue green : UInt8) : RouteTable Empty :=
  ((RouteTable.new Empty).shareAnyPortScopesOn []
    |>.addTcpRoute 7000 [backendAt (podAddr blue) 1 (Str.lit "blue")])
    |>.addTcpRoute 7001 [backendAt (podAddr green) 1 (Str.lit "green")]

theorem blueGreen_build (blue green : UInt8) :
    buildRouteTable blueGreenConfig .lenient (blueGreenLookup blue green) (fun _ => 0) =
      .ok (blueGreenTable blue green) := rfl

def blueGreenCells : Cells PortailConfig (RouteTable Empty) :=
  ⟨⟨0, blueGreenTable 1 2⟩, some ⟨1, blueGreenConfig, 0, blueGreenTable 1 2⟩, 2⟩

theorem blueGreen_addrs (blue green : UInt8) :
    (blueGreenTable blue green).dnsAddrs = [podAddr green, podAddr blue] := rfl

/-- A hash of an IPv4 address by its last octet. -/
def lastOctet (a : SocketAddr) : UInt64 :=
  match a.ip with
  | .v4 ip => (ip.octets.getLastD 0).toUInt64
  | .v6 _ => 0

theorem refresh_notices_iff_blueGreen :
    (blueGreenTable 1 2).shape = (blueGreenTable 1 3).shape ∧
    (((¬(blueGreenTable 1 2).KeepsAddrs (blueGreenTable 1 3) →
        (applyRefresh (RouteTable.dnsSignature lastOctet) blueGreenCells
          ⟨1, blueGreenConfig, 0, blueGreenTable 1 2⟩ (blueGreenTable 1 3)).2.routes.val =
            blueGreenTable 1 3) ∧
      ((applyRefresh (RouteTable.dnsSignature lastOctet) blueGreenCells
          ⟨1, blueGreenConfig, 0, blueGreenTable 1 2⟩ (blueGreenTable 1 3)).1 = .unchanged →
        (blueGreenTable 1 2).KeepsAddrs (blueGreenTable 1 3))) ↔
      ((blueGreenTable 1 2).KeepsAddrs (blueGreenTable 1 3) ∨
        ¬(blueGreenTable 1 2).dnsAddrs.Perm (blueGreenTable 1 3).dnsAddrs)) :=
  refresh_notices_iff (blueGreen_build 1 2) (blueGreen_build 1 3) (by decide) rfl rfl

/-- Two names that exchange their addresses leave the signature as it was. -/
theorem exchange_goes_unnoticed :
    buildRouteTable blueGreenConfig .lenient (blueGreenLookup 1 2) (fun _ => 0) =
      .ok (blueGreenTable 1 2) ∧
    buildRouteTable blueGreenConfig .lenient (blueGreenLookup 2 1) (fun _ => 0) =
      .ok (blueGreenTable 2 1) ∧
    (∀ addrHash : SocketAddr → UInt64, applyRefresh (RouteTable.dnsSignature addrHash)
      blueGreenCells ⟨1, blueGreenConfig, 0, blueGreenTable 1 2⟩ (blueGreenTable 2 1) =
        (.unchanged, blueGreenCells)) ∧
    ¬(blueGreenTable 1 2).KeepsAddrs (blueGreenTable 2 1) := by
  have hsig (addrHash : SocketAddr → UInt64) : (blueGreenTable 2 1).dnsSignature addrHash =
      (blueGreenTable 1 2).dnsSignature addrHash := by
    refine dnsSignature_perm addrHash ?_
    rw [blueGreen_addrs, blueGreen_addrs]
    exact List.Perm.swap _ _ _
  refine ⟨blueGreen_build 1 2, blueGreen_build 2 1, fun addrHash => if_pos (hsig addrHash),
    fun hkeeps => ?_⟩
  have hport := hkeeps (.tcp 7000)
  exact absurd hport (by decide)

end

section

variable {R : Type} [RegexEngine R]

def mirrors (rule : Routing.HttpRouteRule R) : List SocketAddr :=
  rule.filters.filterMap HttpFilter.mirrorAddr

omit [RegexEngine R] in
theorem unordered_tables {t u : RouteTable R} (h : t.map (orderMap R) = u.map (orderMap R)) :
    (∀ addrHash, t.dnsSignature addrHash = u.dnsSignature addrHash) ∧
    (∀ home listener kind pos, (t.ruleAt home listener kind pos).map mirrors =
      (u.ruleAt home listener kind pos).map mirrors) ∧
    ∀ ref, (t.backendsAt ref).map Multiset.ofList = (u.backendsAt ref).map Multiset.ofList := by
  refine ⟨fun addrHash => dnsSignature_perm addrHash
    ((dnsAddrs_orderMap t).symm.trans (h ▸ dnsAddrs_orderMap u)), ?_, ?_⟩
  · intro home listener kind pos
    have hrule := congrArg (fun t : RouteTable R =>
      (t.ruleAt home listener kind pos).map mirrors) h
    simp only [ruleAt_map, Option.map_map] at hrule
    exact hrule
  · intro ref
    have hset (backends : List Backend) :
        Multiset.ofList (unordered backends) = Multiset.ofList backends :=
      Multiset.coe_eq_coe.mpr (unordered_perm backends)
    have hbackends := congrArg (fun t : RouteTable R =>
      (t.backendsAt ref).map Multiset.ofList) h
    simp only [backendsAt_map (orderMap R) _ fun _ => rfl, Option.map_map,
      Function.comp_def] at hbackends
    simpa only [orderMap, hset] using hbackends

/-- No order of the records shows, in the tables or in a refresh, where every ExternalName endpoint
a build looks up has one address of the largest hash. Where one has several, the address it
resolves to follows the order. -/
theorem order_hidden (config : PortailConfig) (lookup : Lookup)
    (hashOne addrHash : SocketAddr → UInt64) :
    ((∀ endpoint ∈ config.externalEndpoints R, ∀ addrs,
        lookup endpoint.1 endpoint.2 = .ok addrs → OneLargest hashOne addrs) →
      ∀ lookup', Reordered lookup lookup' → ∀ policy policy', ∀ t u : RouteTable R,
        buildRouteTable config policy lookup hashOne = .ok t →
        buildRouteTable config policy' lookup' hashOne = .ok u →
        t.dnsSignature addrHash = u.dnsSignature addrHash ∧
        (∀ home listener kind pos, (t.ruleAt home listener kind pos).map mirrors =
          (u.ruleAt home listener kind pos).map mirrors) ∧
        (∀ ref, (t.backendsAt ref).map Multiset.ofList = (u.backendsAt ref).map Multiset.ofList) ∧
        ∀ (cells : Cells PortailConfig (RouteTable R)) (pair : Arc (Published _ _)),
          pair.val.table.val = t →
            applyRefresh (RouteTable.dnsSignature addrHash) cells pair u = (.unchanged, cells)) ∧
    ∀ endpoint ∈ config.externalEndpoints R, ∀ addrs, lookup endpoint.1 endpoint.2 = .ok addrs →
      ¬OneLargest hashOne addrs → ∃ lookup', Reordered lookup lookup' ∧ ∀ policy,
        (resolverOf config policy lookup hashOne).pick endpoint ≠
          (resolverOf config policy lookup' hashOne).pick endpoint := by
  constructor
  · intro hone lookup' hre policy policy' t u ht hu
    have hsame : SamePicks R config (resolverOf config policy lookup hashOne)
        (resolverOf config policy' lookup' hashOne) :=
      ⟨rfl, rfl, rfl, hre, fun endpoint hendpoint => pick_reordered hre (hone endpoint hendpoint)⟩
    obtain ⟨hsignature, hmirrors, hbackends⟩ :=
      unordered_tables (buildRouteTable_map (blurs_orderMap hsame) t u ht hu)
    refine ⟨hsignature addrHash, hmirrors, hbackends, fun cells pair hpair => if_pos ?_⟩
    rw [hpair, hsignature addrHash]
  · intro endpoint _ addrs haddrs htie
    obtain ⟨addrs', hperm, hpick⟩ := exists_other_pick
      (r := resolverOf config .lenient lookup hashOne) htie
    refine ⟨_, reordered_answering haddrs hperm, fun policy hsame => hpick ?_⟩
    simp only [Resolver.pick, resolverOf, haddrs, answering, if_true] at hsame
    exact hsame

/-- A TCP route to an ExternalName Service. -/
def externalConfig : PortailConfig :=
  { plainConfig with
    gateway := ⟨Str.lit "portail-gateway",
      [⟨Str.lit "db", .tcp, 7000, none, none, none, none, none, none⟩], []⟩
    tcpRoutes :=
      [⟨[⟨Str.lit "portail-gateway", some (Str.lit "db"), none⟩],
        [⟨[serviceRef (Str.lit "db") 1]⟩]⟩]
    endpointOverrides := fun _ => some [(Str.lit "db.example.com", 5432)] }

def externalTable (addr : SocketAddr) : RouteTable Empty :=
  (RouteTable.new Empty).shareAnyPortScopesOn []
    |>.addTcpRoute 7000 [backendAt addr 1 (Str.lit "db.example.com")]

/-- A resolver that answers two addresses, at the port asked. -/
def pairLookup (a b : IpAddr) : Lookup := fun _ port => .ok [⟨a, port⟩, ⟨b, port⟩]

theorem pairLookup_reordered (a b : IpAddr) : Reordered (pairLookup a b) (pairLookup b a) :=
  fun _ _ => .swap _ _ _

theorem external_build {a b : IpAddr} {addr : SocketAddr} {hashOne : SocketAddr → UInt64}
    (h : (resolverOf externalConfig .lenient (pairLookup a b) hashOne).oneTarget
      [⟨a, 5432⟩, ⟨b, 5432⟩] = some addr) :
    buildRouteTable externalConfig .lenient (pairLookup a b) hashOne =
      .ok (externalTable addr) := by
  have hbuild : buildRouteTable externalConfig .lenient (pairLookup a b) hashOne =
      .ok ((RouteTable.new Empty).shareAnyPortScopesOn []
        |>.addTcpRoute 7000 [[(((resolverOf externalConfig .lenient (pairLookup a b)
          hashOne).oneTarget [⟨a, 5432⟩, ⟨b, 5432⟩]).map fun addr =>
            (addr, Str.lit "db.example.com")).toList].flatten.map fun found =>
              backendAt found.1 1 found.2].flatten) := rfl
  rw [hbuild, h]
  rfl

def externalAddr (host : UInt8) : IpAddr := .v4 ⟨[10, 0, 0, host], rfl⟩

theorem order_hidden_pair :
    let t := externalTable ⟨externalAddr 2, 5432⟩
    buildRouteTable externalConfig .lenient (pairLookup (externalAddr 1) (externalAddr 2))
      lastOctet = .ok t ∧
    buildRouteTable externalConfig .lenient (pairLookup (externalAddr 2) (externalAddr 1))
      lastOctet = .ok t ∧
    applyRefresh (RouteTable.dnsSignature lastOctet) ⟨⟨0, t⟩, none, 1⟩ ⟨0, externalConfig, 0, t⟩ t =
      (.unchanged, ⟨⟨0, t⟩, none, 1⟩) := by
  intro t
  have hone : ∀ endpoint ∈ externalConfig.externalEndpoints Empty, ∀ addrs,
      pairLookup (externalAddr 1) (externalAddr 2) endpoint.1 endpoint.2 = .ok addrs →
        OneLargest lastOctet addrs := by
    intro endpoint hendpoint addrs haddrs
    obtain rfl : endpoint = (Str.lit "db.example.com", 5432) := List.mem_singleton.mp hendpoint
    cases haddrs
    unfold OneLargest
    decide
  have ht : buildRouteTable externalConfig .lenient
      (pairLookup (externalAddr 1) (externalAddr 2)) lastOctet = .ok t :=
    external_build (by decide)
  have hu : buildRouteTable externalConfig .lenient
      (pairLookup (externalAddr 2) (externalAddr 1)) lastOctet = .ok t :=
    external_build (by decide)
  exact ⟨ht, hu, ((order_hidden externalConfig _ lastOctet lastOctet).1 hone _
    (pairLookup_reordered _ _) _ _ t t ht hu).2.2.2 _ _ rfl⟩

/-- Whatever the hash, some two addresses are picked by their order. -/
theorem tied_pick_follows_order :
    ¬∃ hashOne : SocketAddr → UInt64, ∀ lookup lookup' : Lookup,
      (∀ name port addrs, lookup name port = .ok addrs → ∀ a ∈ addrs, a.port = port) →
      Reordered lookup lookup' →
      ∀ t u : RouteTable Empty, buildRouteTable externalConfig .lenient lookup hashOne = .ok t →
        buildRouteTable externalConfig .lenient lookup' hashOne = .ok u →
          t.backendsAt (.tcp 7000) = u.backendsAt (.tcp 7000) := by
  rintro ⟨hashOne, h⟩
  obtain ⟨a, b, hne, hhash⟩ := exists_hash_tie hashOne 5432
  have hlast {x y : IpAddr} (hxy : hashOne ⟨x, 5432⟩ = hashOne ⟨y, 5432⟩) :
      (resolverOf externalConfig .lenient (pairLookup x y) hashOne).oneTarget
        [⟨x, 5432⟩, ⟨y, 5432⟩] = some ⟨y, 5432⟩ := by
    simp [Resolver.oneTarget, resolverOf, hxy]
  have hport : ∀ name port addrs, pairLookup a b name port = .ok addrs →
      ∀ a ∈ addrs, a.port = port := by
    rintro name port addrs ⟨⟩
    simp
  have hsame := h _ _ hport (pairLookup_reordered a b) _ _ (external_build (hlast hhash))
    (external_build (hlast hhash.symm))
  have haddr := congrArg Backend.socketAddr (List.singleton_inj.mp (Option.some.inj hsame))
  exact hne (congrArg SocketAddr.ip haddr).symm

end
end Portail.Dataplane
