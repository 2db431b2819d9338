import Portail.Http.Grammar
import Portail.Lib.Checks
import Portail.Routing.Table

/-!
# The case of the Host header

A host is searched for in lowercase (`find_http_route`). The copy that is lowercased is
cut to 256 octets, so a longer host in mixed case is searched for by its beginning.
The hosts in question are those `extract_routing_info` returns, flagged or not.
-/

namespace Portail.Routing

open Lib Http List

/-- What the header loop has read as the host is a host. -/
def HostRead (st : HeadState) : Prop := ∀ host, st.host = some host → IsUriHost host

theorem take_splitHost {value : Bytes} {n : ℕ} (h : splitHost value = some n) :
    IsUriHost (value.take n) := by
  obtain ⟨host, port, rfl, rfl, hhost, -⟩ := splitHost_eq_some_iff.mp h
  rwa [take_left]

variable {st : HeadState} {host : Bytes}

theorem HostRead.readField (h : HostRead st) (http10 : Bool)
    (name value : Bytes) : HostRead (st.readField http10 name value).1 := by
  intro host hread
  unfold HeadState.readField at hread
  cases hname : fieldName name with simp only [hname] at hread
  | host =>
    cases hsplit : splitHost (trimOws value) with simp only [hsplit] at hread
    | none => exact h host hread
    | some n =>
      split_ifs at hread
      · cases hread
        exact take_splitHost hsplit
      · exact h host hread
  | contentLength =>
    cases hdigits : parseDigits (trimOws value) with simp only [hdigits] at hread
    | none => exact h host hread
    | some n => split_ifs at hread <;> exact h host hread
  | connection =>
    rw [HeadState.readConnectionTokens_eq] at hread
    exact h host hread
  | transferEncoding | upgrade | expect => split_ifs at hread <;> exact h host hread
  | _ => exact h host hread

theorem HostRead.readLine (h : HostRead st) (http10 : Bool)
    (name value : Bytes) (stop : ℕ) : HostRead (st.readLine http10 name value stop) := by
  have hmoved : HostRead { st with pos := stop } := h
  have hfield := hmoved.readField http10 name value
  unfold HeadState.readLine
  dsimp only
  split_ifs
  · exact hfield
  · intro host hread
    apply hfield host
    rw [← hread]
    unfold HeadState.recordLine
    split <;> rfl

theorem HostRead.headTurn {data : Bytes} {http10 : Bool} (h : HostRead st) :
    (∀ next, headTurn data http10 st = .inl next → HostRead next) ∧
      ∀ last, headTurn data http10 st = .inr last → HostRead last := by
  unfold Http.headTurn
  constructor
  · intro next hturn
    split_ifs at hturn
    split at hturn
    · cases hturn
    · simp only at hturn
      split_ifs at hturn
      cases hturn
      exact h.readLine _ _ _ _
  · intro last hturn
    split_ifs at hturn
    · cases hturn
      exact h
    · split at hturn
      · cases hturn
        exact h
      · simp only at hturn
        split_ifs at hturn <;> cases hturn
        · exact h
        · exact h
        · exact h
        · exact h.readLine _ _ _ _

theorem hostRead_readHeaders (data : Bytes) (line : RequestLine) (target : TargetReading) :
    HostRead (readHeaders data line target) := by
  apply (headLoop data line.isHttp10).run_invariant (P := HostRead)
  · intro s s' hs hturn
    exact hs.headTurn.1 s' hturn
  · intro s r hs hturn
    exact hs.headTurn.2 r hturn
  · intro host hhost
    cases hhost

theorem isUriHost_targetHost {method target : Bytes} {start : ℕ}
    (h : (readTarget method target start).targetHost = some host) : IsUriHost host := by
  unfold readTarget at h
  by_cases hconnect : method = bytes "CONNECT"
  · simp [hconnect] at h
  · by_cases hslash : target.head? = some slash
    · simp [hconnect, hslash] at h
    · simp only [hconnect, hslash, if_false, ne_eq, not_false_eq_true, if_true] at h
      by_cases hstar : target = bytes "*"
      · simp only [hstar, if_true] at h
        cases h
      · simp only [hstar, if_false] at h
        cases hscheme : absoluteSchemeLen target with
        | none => simp [hscheme] at h
        | some n =>
          simp only [hscheme] at h
          generalize (target.drop n).take _ = authority at h
          cases hsplit : splitHost authority with simp only [hsplit] at h
          | none => split_ifs at h
          | some k =>
            by_cases hk : 0 < k
            · simp only [hk, if_true] at h
              split_ifs at h <;>
              · cases h
                exact take_splitHost hsplit
            · simp only [hk, if_false] at h
              split_ifs at h

theorem isUriHost_requestHost {http10 violation : Bool} {host targetHost : Option Bytes}
    {routed : Bytes} (hhost : ∀ h, host = some h → IsUriHost h)
    (htarget : ∀ h, targetHost = some h → IsUriHost h)
    (h : requestHost http10 violation host targetHost = .ok routed) : IsUriHost routed := by
  have hempty : IsUriHost [] := .inl (by simp)
  unfold requestHost at h
  cases host with
  | some host =>
    cases h
    exact hhost _ rfl
  | none =>
    simp only at h
    split_ifs at h
    · cases h
      cases targetHost with
      | none => exact hempty
      | some host => exact htarget host rfl
    · cases h
      exact hempty

/-- Every host the parser returns is a host of the grammar, if only the empty one. -/
theorem isUriHost_of_extract {data : Bytes} {info : HttpRequestInfo}
    (h : extractRoutingInfo data = .ok info) : IsUriHost info.host := by
  unfold extractRoutingInfo at h
  obtain ⟨line, -, h⟩ := bind_eq_ok.mp h
  simp only [finishHead] at h
  obtain ⟨host, hhost, h⟩ := bind_eq_ok.mp h
  split_ifs at h
  cases h
  exact isUriHost_requestHost (hostRead_readHeaders _ _ _) (fun _ => isUriHost_targetHost) hhost

theorem isAsciiUppercase_toAsciiLowercase :
    ∀ b : UInt8, isAsciiUppercase (toAsciiLowercase b) = false :=
  forall_octet (by decide +kernel)

theorem hostKey_lowercase (host : Bytes) : hostKey (lowercase host) = lowercase host := by
  have hlower : (lowercase host).any isAsciiUppercase = false := by
    simp [lowercase, isAsciiUppercase_toAsciiLowercase]
  rw [hostKey, hlower]
  rfl

theorem lowercase_of_lower (h : host.any isAsciiUppercase = false) : lowercase host = host := by
  have hbyte : ∀ b ∈ host, toAsciiLowercase b = b := by
    intro b hb
    have hb' : isAsciiUppercase b = false := by simpa using any_eq_false.mp h b hb
    simp [toAsciiLowercase, hb']
  rw [lowercase, map_congr_left hbyte, map_id']

/-- The copy of the host that is lowercased is whole. -/
def SearchedWhole (host : Bytes) : Prop :=
  host.length ≤ 256 ∨ ∀ b ∈ host, isAsciiUppercase b = false

theorem hostKey_whole (hutf8 : isUtf8 host = true) (hwhole : SearchedWhole host) :
    hostKey host = lowercase host := by
  cases hmixed : host.any isAsciiUppercase with
  | false =>
    rw [lowercase_of_lower hmixed, hostKey, hmixed]
    rfl
  | true =>
    rcases hwhole with hshort | hlower
    · have hlowered : isUtf8 (lowercase host) = true := by
        rwa [isUtf8, lowercase, run_toAsciiLowercase, ← isUtf8]
      simp only [hostKey, hmixed, if_true, take_of_length_le hshort, hlowered]
    · obtain ⟨b, hb, hupper⟩ := any_eq_true.mp hmixed
      rw [hlower b hb] at hupper
      cases hupper

/-- Of an ASCII host in mixed case the first 256 octets are lowered. -/
theorem hostKey_mixed (hascii : ∀ b ∈ host, b < 0x80)
    (hmixed : host.any isAsciiUppercase = true) : hostKey host = lowercase (host.take 256) := by
  have hutf8 : isUtf8 (lowercase (host.take 256)) = true := by
    rw [isUtf8, lowercase, run_toAsciiLowercase, ← isUtf8]
    apply isUtf8_of_ascii
    intro b hb
    exact hascii b (mem_of_mem_take hb)
  simp only [hostKey, hmixed, hutf8, if_true]

section

variable {R : Type} [RegexEngine R]

variable (R) in
/-- A rule that takes every request. -/
def takesAll : HttpRouteRule R where
  pathMatchType := .pathPrefix
  path := Str.lit ""
  pathRegex := none
  methodMatch := none
  headerMatches := []
  queryParamMatches := []
  filters := []
  backends := []
  hasFilters := false
  routeIndex := 0

theorem findBest_takesAll (req : RouteRequest) :
    findBestRuleMatch [takesAll R] req = some (takesAll R) := by
  have haccepts : (takesAll R).accepts req = true := by
    have hempty : (bytes "").isEmpty = true := rfl
    simp [takesAll, HttpRouteRule.accepts, prefixMatches, Str.lit, hempty]
  simp [findBestRuleMatch, haccepts]

variable (R) in
def scopeForHost (host : Bytes) : ListenerScope R :=
  ⟨none, (∅ : Map Bytes (HostEntry R)).insert host [takesAll R], ∅, none⟩

variable (R) in
def tableForHost (host : Bytes) (port : UInt16) : RouteTable R :=
  { RouteTable.new R with
    listenerScopes := (∅ : Map UInt16 (PortScopes R)).insert port ⟨[scopeForHost R host], false⟩ }

theorem lookup_scopeForHost (host key : Bytes) (req : RouteRequest) :
    (scopeForHost R key).lookupHttpRoute host req =
      if host = key then some (u32Max, takesAll R) else none := by
  have hparents : (parentDomains host).findSome? (fun parent =>
      (((∅ : Map Bytes (HostEntry R)).lookup parent).bind (findBestRuleMatch · req)).map
        fun rule => (wildcardRank parent, rule)) = none := by
    simp
  have hexact : ((∅ : Map Bytes (HostEntry R)).insert key [takesAll R]).lookup host =
      if host = key then some [takesAll R] else none := by
    by_cases hkey : host = key
    · rw [hkey, AList.lookup_insert, if_pos rfl]
    · rw [AList.lookup_insert_ne hkey, if_neg hkey]
      rfl
  unfold ListenerScope.lookupHttpRoute scopeForHost
  simp only [hparents, hexact]
  by_cases hkey : host = key <;> simp [hkey, findBest_takesAll]

theorem find_tableForHost (host key : Bytes) (req : RouteRequest) (port : UInt16) :
    (tableForHost R key port).findHttpRoute host req port =
      if hostKey host = key then some (takesAll R) else none := by
  have hport : (tableForHost R key port).listenerScopes.lookup port =
      some ⟨[scopeForHost R key], false⟩ := AList.lookup_insert _
  have hshared (p : Option (PortScopes R)) : (tableForHost R key port).sharedScopesOf p = [] := rfl
  have hpriority : (scopeForHost R key).listenerHostname = none := rfl
  have hhighest : RouteTable.highestPriority (hostKey host) [scopeForHost R key] = some 0 := rfl
  unfold RouteTable.findHttpRoute
  simp only [hport, hshared, Option.map_some, Option.getD_some, append_nil, hhighest]
  simp only [RouteTable.searchScopes, hpriority, hostnameMatchPriority, lookup_scopeForHost]
  by_cases hkey : hostKey host = key <;> simp [hkey]

/-- Only a host in mixed case that is longer than 256 octets is told from its lowercase form. -/
theorem find_ignores_case_iff {data : Bytes} {info : HttpRequestInfo}
    (h : extractRoutingInfo data = .ok info) :
    (∀ (t : RouteTable R) (req : RouteRequest) (port : UInt16),
      t.findHttpRoute info.host req port = t.findHttpRoute (lowercase info.host) req port) ↔
    info.host.length ≤ 256 ∨ ∀ b ∈ info.host, isAsciiUppercase b = false := by
  have hascii := isUriHost_ascii (isUriHost_of_extract h)
  generalize info.host = host at hascii
  constructor
  · intro hsame
    by_contra hnot
    obtain ⟨hlong, hupper⟩ := not_or.mp hnot
    have hmixed : host.any isAsciiUppercase = true := by
      simpa using hupper
    have hkey := hostKey_mixed hascii hmixed
    have hne : hostKey host ≠ lowercase host := by
      intro heq
      have hlen := congrArg List.length (hkey.symm.trans heq)
      simp only [lowercase, length_map, length_take] at hlen
      omega
    have hfind := hsame (tableForHost R (lowercase host) 80) ⟨[], [], [], []⟩ 80
    rw [find_tableForHost, find_tableForHost, hostKey_lowercase, if_neg hne, if_pos rfl] at hfind
    cases hfind
  · intro hcase t req port
    have hkey := hostKey_whole (isUtf8_of_ascii hascii) hcase
    simp only [RouteTable.findHttpRoute, hostKey_lowercase, hkey]

end

def longHost : Bytes := bytes "A" ++ List.replicate 256 0x61 ++ bytes ".com"

def longHead : Bytes := bytes "GET / HTTP/1.1\r\nHost: " ++ longHost ++ bytes "\r\n\r\n"

def comTable : RouteTable Empty :=
  (RouteTable.new Empty).pushHttpRouteForListener ⟨80, none, bytes "*.com", takesAll Empty⟩

/-- The host is routed in lowercase and not found as it came. -/
theorem long_host_missed :
    (extractRoutingInfo longHead).toOption.map HttpRequestInfo.host = some longHost ∧
    (comTable.findHttpRoute longHost ⟨bytes "GET", bytes "/", [], []⟩ 80).isSome = false ∧
    (comTable.findHttpRoute (lowercase longHost) ⟨bytes "GET", bytes "/", [], []⟩ 80).isSome =
      true := by
  refine ⟨?_, ?_, ?_⟩ <;> decide +kernel

theorem find_ignores_case_iff_long : ∃ info, extractRoutingInfo longHead = .ok info ∧
    ((∀ (t : RouteTable Empty) (req : RouteRequest) (port : UInt16),
      t.findHttpRoute info.host req port = t.findHttpRoute (lowercase info.host) req port) ↔
    info.host.length ≤ 256 ∨ ∀ b ∈ info.host, isAsciiUppercase b = false) := by
  have hok : (extractRoutingInfo longHead).isOk = true := by decide +kernel
  cases h : extractRoutingInfo longHead with
  | ok info => exact ⟨info, rfl, find_ignores_case_iff h⟩
  | error e =>
    rw [h] at hok
    cases hok

end Portail.Routing
