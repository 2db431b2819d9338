import Portail.Lib.IpAddr
import Portail.Lib.Utf8

/-!
# Route rules

The rules of a route table as the data plane reads them. The type `R` of
compiled regular expressions is a parameter, with `isMatch` what the regex
engine answers.
-/

namespace Portail.Routing

open Lib

structure HttpHeader where
  name : Str
  value : Str
  deriving DecidableEq

/-- A path modifier value, split at its first `?`. -/
structure PathValue where
  path : Str
  query : Option Str
  deriving DecidableEq

inductive URLRewritePath
  | replaceFullPath (value : PathValue)
  | replacePrefixMatch (value : PathValue)
  deriving DecidableEq

/-- A value as it is configured, split when its rule compiles. -/
def PathValue.ofStr (value : Str) : PathValue :=
  match value.splitOnce question (by decide) with
  | some (path, query) => ⟨path, some query⟩
  | none => ⟨value, none⟩

structure SocketAddr where
  ip : IpAddr
  port : UInt16
  deriving DecidableEq

/-- Share of requests a mirror copies, reduced. -/
structure Fraction where
  numerator : UInt32
  denominator : UInt32
  deriving DecidableEq

inductive HttpFilter
  | requestHeaderModifier (add set : List HttpHeader) (remove : List Str)
  | responseHeaderModifier (add set : List HttpHeader) (remove : List Str)
  | requestRedirect (scheme hostname : Option Str) (port : Option UInt16)
      (path : Option URLRewritePath) (statusCode : UInt16)
  | urlRewrite (hostname : Option Str) (path : Option URLRewritePath)
  | requestMirror (backendAddr : SocketAddr) (fraction : Fraction)
  deriving DecidableEq

inductive BackendAction
  | forward
  | reject
  deriving DecidableEq

structure Backend where
  socketAddr : SocketAddr
  weight : UInt32
  filters : List HttpFilter
  useTls : Bool
  serverName : Str
  action : BackendAction
  deriving DecidableEq

inductive PathMatchType
  | pathPrefix
  | exact
  | regularExpression
  deriving DecidableEq

section

variable (R : Type)

inductive ValueMatcher
  | exact (expected : Str)
  | regex (re : R)

structure HeaderMatch where
  /-- Lowercase. -/
  name : Str
  matcher : ValueMatcher R

structure QueryParamMatch where
  name : Str
  matcher : ValueMatcher R

structure HttpRouteRule where
  methodMatch : Option Str
  pathMatchType : PathMatchType
  path : Str
  pathRegex : Option R
  headerMatches : List (HeaderMatch R)
  queryParamMatches : List (QueryParamMatch R)
  filters : List HttpFilter
  backends : List Backend
  hasFilters : Bool
  routeIndex : ℕ

end

/-- The regex engine: a pattern compiled to match whole values, or why it is none, and what the
compiled expression answers on a text. -/
class RegexEngine (R : Type) where
  compile : Str → Except Str R
  isMatch : R → Bytes → Bool

/-- The engine without expressions, which refuses every pattern. -/
instance : RegexEngine Empty where
  compile _ := .error (Str.lit "no regular expressions")
  isMatch re := nomatch re

def ValueMatcher.isMatch {R : Type} [RegexEngine R] : ValueMatcher R → Bytes → Bool
  | exact expected, value => value == expected.octets
  | regex re, value => RegexEngine.isMatch re value

end Portail.Routing
