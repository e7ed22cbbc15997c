import Mathlib.Data.List.Infix
import Meridian.Lib.Json
import Meridian.Lib.Url
import Meridian.Wire

/-! HTTP policy in the node proxy (`internal/proxy/l7_matcher.go`, `l7_framing.go`). -/

namespace Meridian.Proxy
open Lib Wire

/-- A parsed request: the method, the decoded path, and the headers in order. -/
structure HttpRequest where
  method : String
  path : List UInt8
  headers : List (String × List UInt8)
  deriving DecidableEq, Repr

/-- The names of headers are the same up to the case of their ASCII letters. -/
def canonicalMIMEHeaderKey (name : String) : List Char := name.toList.map Char.toLower

/-- `http.Header.Get`: the first value under a name, and the empty text without one. -/
def HttpRequest.get (r : HttpRequest) (name : String) : List UInt8 :=
  ((r.headers.find? fun h => canonicalMIMEHeaderKey h.1 = canonicalMIMEHeaderKey name).map (·.2)).getD []

/-! ### Matching -/

def matchHeader (hm : HeaderMatcher) (r : HttpRequest) : Bool :=
  let actual := r.get hm.name
  if actual = [] then false
  else if hm.value = [] then true
  else if hm.exact then actual = hm.value
  else hm.value <:+: actual

def matchRule (rule : CompiledL7Rule) (r : HttpRequest) : Bool :=
  if rule.method ≠ "" && foldName r.method ≠ foldName rule.method then false
  else if rule.pathExact ≠ [] && r.path ≠ rule.pathExact then false
  else if rule.pathPrefix ≠ [] && !rule.pathPrefix.isPrefixOf r.path then false
  else rule.headers.all fun hm => matchHeader hm r

/-- The first rule that matches decides; without one the request is denied. -/
def matchL7 : List CompiledL7Rule → HttpRequest → Wire.PolicyVerdict
  | [], _ => ⟨policyActionDeny, 0⟩
  | rule :: rest, r => if matchRule rule r then rule.verdict else matchL7 rest r

/-! ### Peeking -/

/-- What the client sends on a connection, up to where it closes its side or waits. -/
structure Client where
  sent : List UInt8
  closed : Bool
  deriving DecidableEq, Repr

def peekSize : Nat := 8192

/-- The bytes that `Peek(peekSize)` returns. It waits for that many, or for the end of the stream; nothing when it
    waits for ever. -/
def Client.peek (c : Client) : Option (List UInt8) :=
  if peekSize ≤ c.sent.length then some (c.sent.take peekSize) else if c.closed then some c.sent else none

def http2Preface : List UInt8 := ascii "PRI * HTTP/2.0"

/-- The action for the peeked bytes, and the request when they are one; `readRequest` is `http.ReadRequest`. -/
def peekAndMatchL7 (readRequest : List UInt8 → Option HttpRequest) (peeked : List UInt8) (rules : List CompiledL7Rule) :
    PolicyAction × Option HttpRequest :=
  if peeked = [] then (policyActionAllow, none)
  else if http2Preface.isPrefixOf peeked then (policyActionAllow, none)
  else
    match readRequest peeked with
    | none => (policyActionAllow, none)
    | some req => ((matchL7 rules req).action, some req)

end Meridian.Proxy
