import Portail.Http.Scanners
import Portail.Lib.Stable
import Portail.Routing.Types

/-!
# Matching a request against rules

What a rule asks of a request, and which of two matching rules takes it
(`match_precedence`). The order is total up to rules that ask for equally much.
-/

namespace Portail.Routing

open Lib Http List

variable {R : Type}

section

/-- What a lookup reads of a request besides its host. -/
structure RouteRequest where
  method : Bytes
  path : Bytes
  headerData : Bytes
  queryString : Bytes

def isLineBreak (b : UInt8) : Bool := b == cr || b == lf

/-- What follows a line: one CR and one LF are passed, if there. -/
def skipLineBreak (rest : Bytes) : Bytes :=
  let rest := if rest.head? = some cr then rest.tail else rest
  if rest.head? = some lf then rest.tail else rest

theorem skipLineBreak_length {data : Bytes} (h : data ≠ []) :
    (skipLineBreak (data.dropWhile fun b => !isLineBreak b)).length < data.length := by
  have htail (l : Bytes) : l.tail.length ≤ l.length := by simp
  cases hrest : data.dropWhile fun b => !isLineBreak b with
  | nil => simpa [skipLineBreak] using length_pos_iff.mpr h
  | cons b rest =>
    have hle : (b :: rest).length ≤ data.length := hrest ▸ (dropWhile_suffix _).length_le
    have hb : isLineBreak b = true := by
      have hhead := head_dropWhile_not (fun b => !isLineBreak b)
        (show data.dropWhile (fun b => !isLineBreak b) ≠ [] by simp [hrest])
      simpa [hrest] using hhead
    rw [length_cons] at hle
    simp only [isLineBreak, Bool.or_eq_true, beq_iff_eq] at hb
    rcases hb with rfl | rfl
    · have hskip : (skipLineBreak (cr :: rest)).length ≤ rest.length := by
        simp only [skipLineBreak, head?_cons, if_true, tail_cons]
        split_ifs
        · exact htail rest
        · rfl
      omega
    · have hskip : skipLineBreak (lf :: rest) = rest := rfl
      rw [hskip]
      omega

/-- The trimmed value of the first line of the given name. -/
def findHeaderValue (name : Bytes) (data : Bytes) : Option Bytes :=
  if h : data = [] then none
  else
    let line := data.takeWhile fun b => !isLineBreak b
    if line.length > name.length ∧ (line.drop name.length).head? = some colon ∧
        eqIgnoreAsciiCase (line.take name.length) name then
      let value := trimOws (line.drop (name.length + 1))
      if isUtf8 value then some value else none
    else findHeaderValue name (skipLineBreak (data.dropWhile fun b => !isLineBreak b))
  termination_by data.length
  decreasing_by exact skipLineBreak_length h

/-- The value of the first `name=value` pair of the given name. -/
def findQueryParamValue (query name : Bytes) : Option Bytes :=
  (query.splitOn 0x26).findSome? fun pair =>
    (memchr 0x3d pair).bind fun eqPos =>
      if pair.take eqPos = name then some (pair.drop (eqPos + 1)) else none

/-- A prefix matches whole path elements. -/
def prefixMatches (rulePath path : Bytes) : Bool :=
  rulePath.isEmpty || (rulePath.isPrefixOf path &&
    (path.length == rulePath.length || path[rulePath.length]? == some slash ||
      rulePath.getLast? == some slash))

variable [RegexEngine R]

/-- Whether a request meets all a rule asks. -/
def HttpRouteRule.accepts (rule : HttpRouteRule R) (req : RouteRequest) : Bool :=
  (rule.methodMatch.all fun required => eqIgnoreAsciiCase required.octets req.method) &&
  (match rule.pathMatchType with
    | .exact => req.path == rule.path.octets
    | .regularExpression => rule.pathRegex.any (RegexEngine.isMatch · req.path)
    | .pathPrefix => prefixMatches rule.path.octets req.path) &&
  (rule.headerMatches.isEmpty || (!req.headerData.isEmpty && rule.headerMatches.all fun hm =>
    (findHeaderValue hm.name.octets req.headerData).any hm.matcher.isMatch)) &&
  rule.queryParamMatches.all fun qm =>
    (findQueryParamValue req.queryString qm.name.octets).any qm.matcher.isMatch

def findBestRuleMatch (rules : List (HttpRouteRule R)) (req : RouteRequest) :
    Option (HttpRouteRule R) := rules.find? (·.accepts req)

end

def PathMatchType.rank : PathMatchType → ℕ
  | exact => 0
  | regularExpression => 1
  | pathPrefix => 2

/-- Which of two rules matching one request takes it, the most specific first. -/
def matchPrecedence (a b : HttpRouteRule R) : Ordering :=
  (compare a.pathMatchType.rank b.pathMatchType.rank).then <|
  (compare b.path.octets.length a.path.octets.length).then <|
  (compare b.methodMatch.isSome.toNat a.methodMatch.isSome.toNat).then <|
  (compare b.headerMatches.length a.headerMatches.length).then <|
  compare b.queryParamMatches.length a.queryParamMatches.length

/-- The rule is at least as specific as the other. -/
def MatchLE (a b : HttpRouteRule R) : Prop := (matchPrecedence a b).isLE = true

instance : DecidableRel (MatchLE (R := R)) := fun _ _ => inferInstanceAs (Decidable (_ = true))

theorem matchLE_iff {a b : HttpRouteRule R} : MatchLE a b ↔
    a.pathMatchType.rank < b.pathMatchType.rank ∨ a.pathMatchType.rank = b.pathMatchType.rank ∧
    (b.path.octets.length < a.path.octets.length ∨ b.path.octets.length = a.path.octets.length ∧
    (b.methodMatch.isSome.toNat < a.methodMatch.isSome.toNat ∨
      b.methodMatch.isSome.toNat = a.methodMatch.isSome.toNat ∧
    (b.headerMatches.length < a.headerMatches.length ∨
      b.headerMatches.length = a.headerMatches.length ∧
    b.queryParamMatches.length ≤ a.queryParamMatches.length))) := by
  simp only [MatchLE, matchPrecedence, Ordering.isLE_then_iff_or, Nat.compare_eq_lt,
    Nat.compare_eq_eq, Nat.isLE_compare]

instance : IsTrans (HttpRouteRule R) MatchLE where
  trans a b c hab hbc := by
    rw [matchLE_iff] at hab hbc ⊢
    omega

instance : Std.Total (MatchLE (R := R)) where
  total a b := by
    rw [matchLE_iff, matchLE_iff]
    omega

end Portail.Routing
