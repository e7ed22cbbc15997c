import Meridian.Agent.SvidManager
import Mathlib.Algebra.Order.Ring.Rat

/-! The rotation loop of `SVIDManager.Start` over time, with its fractions exact and signing instantaneous. Moments and
    durations are in seconds. -/

namespace Meridian.Svid.Exact

def rotateFraction : ℚ := 2 / 3

def nearExpiryFraction : ℚ := 1 / 6

def clockSkew : ℚ := 5 * 60

def retryDelay : ℚ := 30

/-- The times of an entry; it expires when its leaf does. -/
structure Validity where
  notBefore : ℚ
  notAfter : ℚ
  deriving DecidableEq

def sign (now ttl : ℚ) : Validity := ⟨now - clockSkew, now + ttl⟩

namespace Validity

def remaining (v : Validity) (now : ℚ) : ℚ := v.notAfter - now

def nearExpiry (v : Validity) (now : ℚ) : Bool :=
  let total := v.notAfter - v.notBefore
  if total ≤ 0 then true else v.remaining now < total * nearExpiryFraction

def nextRotateDelay (v : Validity) (now : ℚ) : ℚ :=
  let remaining := v.remaining now
  if remaining ≤ 0 then 0
  else
    let d := remaining * rotateFraction
    if d < 0 then 0 else d

/-- `GetSVID` with this entry in the store. -/
def getSVID (v : Validity) (now : ℚ) : Option Validity := if v.nearExpiry now then none else some v

end Validity

/-- When the signer is down, and after how long a `ForceRotate` comes in during the n-th wait. -/
structure Surroundings where
  down : ℚ → Bool
  forced : ℕ → Option ℚ

/-- The loop at the start of a wait. -/
structure Loop where
  entry : Validity
  now : ℚ
  deriving DecidableEq

namespace Loop

/-- The end of the wait: the timer fires, or a request preempts it. -/
def attempt (l : Loop) (forced : Option ℚ) : ℚ :=
  match forced with
  | none => l.now + l.entry.nextRotateDelay l.now
  | some d => l.now + min (max 0 d) (l.entry.nextRotateDelay l.now)

/-- One pass: a failed attempt keeps the entry and backs off, which no request preempts. -/
def pass (ttl : ℚ) (w : Surroundings) (n : ℕ) (l : Loop) : Loop :=
  let now := l.attempt (w.forced n)
  if w.down now then { l with now := now + retryDelay } else ⟨sign now ttl, now⟩

end Loop

/-- The loop at its n-th wait, the first issuance being at `start`. -/
def loop (ttl start : ℚ) (w : Surroundings) : ℕ → Loop
  | 0 => ⟨sign start ttl, start⟩
  | n + 1 => (loop ttl start w n).pass ttl w n

end Meridian.Svid.Exact
