/-! Go channels with a buffer. A send to a closed channel and a second close panic; a send that must not block drops the
    value when the buffer is full. -/

namespace Meridian.Lib

structure Chan (α : Type) where
  cap : Nat
  buffer : List α
  closed : Bool
  deriving DecidableEq, Repr

namespace Chan

variable {α : Type}

def make (cap : Nat) : Chan α := ⟨cap, [], false⟩

/-- `select { case ch <- v: default: }`; nothing for a panic. -/
def trySend (ch : Chan α) (v : α) : Option (Chan α) :=
  if ch.closed then none
  else if ch.buffer.length < ch.cap then some { ch with buffer := ch.buffer ++ [v] }
  else some ch

/-- `close(ch)`; nothing for a panic. -/
def close (ch : Chan α) : Option (Chan α) := if ch.closed then none else some { ch with closed := true }

/-- `v, ok := <-ch`; nothing when it blocks. -/
def recv (ch : Chan α) : Option (Option α × Chan α) :=
  match ch.buffer with
  | v :: rest => some (some v, { ch with buffer := rest })
  | [] => if ch.closed then some (none, ch) else none

variable {v : α} {ch ch' : Chan α}

theorem trySend_eq_none_iff : ch.trySend v = none ↔ ch.closed = true := by
  unfold trySend
  split
  · simp [*]
  · split <;> simp [*]

theorem close_eq_none_iff : ch.close = none ↔ ch.closed = true := by
  unfold close
  split <;> simp [*]

/-- A send leaves the capacity and the open end. -/
theorem trySend_eq_some (h : ch.trySend v = some ch') : ch.closed = false ∧ ch'.closed = false ∧ ch'.cap = ch.cap := by
  unfold trySend at h
  split at h
  · cases h
  · rename_i hopen
    split at h
    · cases h
      exact ⟨Bool.eq_false_iff.mpr hopen, Bool.eq_false_iff.mpr hopen, rfl⟩
    · cases h
      exact ⟨Bool.eq_false_iff.mpr hopen, Bool.eq_false_iff.mpr hopen, rfl⟩

/-- After a send to a channel with room for one value, the channel is not empty. -/
theorem buffer_ne_nil_of_trySend (hcap : 0 < ch.cap) (h : ch.trySend v = some ch') : ch'.buffer ≠ [] := by
  unfold trySend at h
  split at h
  · cases h
  · split at h
    · cases h
      simp
    · rename_i hfull
      cases h
      intro hnil
      rw [hnil] at hfull
      exact hfull hcap

theorem close_eq_some (h : ch.close = some ch') : ch' = { ch with closed := true } := by
  unfold close at h
  split at h
  · cases h
  · exact (Option.some.inj h).symm

theorem recv_eq_some {v : Option α} (h : ch.recv = some (v, ch')) : ch'.closed = ch.closed ∧ ch'.cap = ch.cap := by
  unfold recv at h
  split at h
  · cases h
    exact ⟨rfl, rfl⟩
  · split at h
    · cases h
      exact ⟨rfl, rfl⟩
    · cases h

theorem buffer_of_recv {rest : Chan α} (h : ch.recv = some (some v, rest)) : ch.buffer = v :: rest.buffer := by
  unfold recv at h
  split at h
  next hbuffer =>
    cases h
    exact hbuffer
  · split at h <;> cases h

end Chan

end Meridian.Lib
