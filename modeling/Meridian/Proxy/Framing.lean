import Meridian.Lib.Bufio
import Meridian.Proxy.L7

/-! Looking into a stream before it is forwarded (`internal/proxy/l7_framing.go`, `tracing.go`). -/

namespace Meridian.Proxy
open Lib Wire

/-- The readers that are handed on: the connection itself, one that has looked ahead, and one that gives some bytes before
    it (`io.MultiReader`). -/
inductive StreamReader where
  | conn (src : Source)
  | buffered (r : Bufio)
  | multi (head : List UInt8) (r : Bufio)
  deriving DecidableEq, Repr

namespace StreamReader

def ofBufio : ReadResult Bufio → ReadResult StreamReader
  | .blocks => .blocks
  | .eof r => .eof (.buffered r)
  | .data bytes r => .data bytes (.buffered r)

def read (r : StreamReader) (n : Nat) : ReadResult StreamReader :=
  match r with
  | .conn src =>
    match src.read n with
    | .blocks => .blocks
    | .eof src => .eof (.conn src)
    | .data bytes src => .data bytes (.conn src)
  | .buffered r => ofBufio (r.read n)
  | .multi head r => if head ≠ [] then .data (head.take n) (.multi (head.drop n) r) else ofBufio (r.read n)

def src : StreamReader → Source
  | .conn src => src
  | .buffered r => r.src
  | .multi _ r => r.src

end StreamReader

/-- `peekAndMatchL7` on a connection: the action, the request and the reader that replays the stream; nothing while it
    waits. -/
def peekAndMatchL7Conn (readRequest : List UInt8 → Option HttpRequest) (conn : Source) (rules : List CompiledL7Rule) :
    Option (PolicyAction × Option HttpRequest × StreamReader) :=
  match (Bufio.new peekSize conn).peek peekSize with
  | none => none
  | some (peeked, err, br) =>
    if err && peeked = [] then some (policyActionAllow, none, .buffered br)
    else some ((peekAndMatchL7 readRequest peeked rules).1, (peekAndMatchL7 readRequest peeked rules).2, .buffered br)

/-! ### Trace context -/

def crlf : List UInt8 := [0x0d, 0x0a]

/-- `bytes.Index` -/
def index (sep : List UInt8) : List UInt8 → Option Nat
  | [] => if sep = [] then some 0 else none
  | b :: text => if sep.isPrefixOf (b :: text) then some 0 else (index sep text).map (· + 1)

/-- The parts between single spaces are three, and the third starts a version 1 protocol. -/
def isHTTP1RequestLine (line : List UInt8) : Bool :=
  match line.splitOn 0x20 with
  | [_, _, version] => (ascii "HTTP/1.").isPrefixOf version
  | _ => false

/-- The reader with the header after the request line; nothing while it waits. -/
def injectTraceparent (r : Source) (traceparent : List UInt8) : Option StreamReader :=
  if traceparent = [] then some (.conn r)
  else
    match (Bufio.new peekSize r).peek peekSize with
    | none => none
    | some (peeked, err, br) =>
      if peeked = [] && err then some (.buffered br)
      else
        match index crlf peeked with
        | none => some (.buffered br)
        | some idx =>
          if !isHTTP1RequestLine (peeked.take idx) then some (.buffered br)
          else
            match br.readFull (idx + 2) with
            | none => none
            | some (line, ok, br) =>
              -- A line cut short is replayed with the zeroes of its buffer.
              if !ok then some (.multi (line ++ List.replicate (idx + 2 - line.length) 0) br)
              else some (.multi (line ++ (ascii "traceparent: " ++ traceparent ++ crlf)) br)

end Meridian.Proxy
