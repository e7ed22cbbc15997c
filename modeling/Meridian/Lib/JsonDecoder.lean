import Meridian.Lib.JsonReader

/-! Reading record after record from a stream of JSON values, with the rules of Go's decoder: members that name no field
    are passed over, and the first value that is malformed or does not fit ends the reading. -/

namespace Meridian.Lib
variable {ρ A : Type}

/-- As `decodeMembers`, without an error for an unknown member. -/
def decodeKnown (fields : List (JsonField ρ)) : List (String × Json) → ρ → Except JsonError ρ
  | [], r => .ok r
  | (name, v) :: rest, r =>
    match fields.find? fun f => foldName f.name = foldName name with
    | none => decodeKnown fields rest r
    | some f =>
      match f.store v r with
      | .error e => .error e
      | .ok r => decodeKnown fields rest r

/-- The next value of a stream as a record; `null` leaves the record as it starts. -/
def decodeNext (fields : List (JsonField ρ)) (zero : ρ) : Reader ρ := fun text =>
  match readJson text with
  | none => none
  | some (.null, rest) => some (zero, rest)
  | some (.obj members, rest) => ((decodeKnown fields members zero).toOption).map (·, rest)
  | some (_, _) => none

theorem decodeNext_shortens (fields : List (JsonField ρ)) (zero : ρ) : Shortens (decodeNext fields zero) := by
  intro text r rest h
  unfold decodeNext at h
  split at h
  · cases h
  · rename_i rest' hread
    cases h
    exact readValue_shortens _ _ _ _ hread
  · rename_i members rest' hread
    obtain ⟨r', -, heq⟩ := Option.map_eq_some_iff.mp h
    cases heq
    exact readValue_shortens _ _ _ _ hread
  · cases h

/-- The values up to the first that cannot be read; the fuel bounds their number. -/
def decodeFuel (r : Reader A) : Nat → List UInt8 → List A
  | 0, _ => []
  | fuel + 1, text =>
    match r text with
    | none => []
    | some (x, rest) => x :: decodeFuel r fuel rest

def decodeStream (r : Reader A) (text : List UInt8) : List A := decodeFuel r (text.length + 1) text

theorem decodeFuel_eq {r : Reader A} (hr : Shortens r) {fuel : Nat} {text : List UInt8} (h : text.length < fuel) :
    decodeFuel r fuel text = decodeStream r text := by
  induction fuel using Nat.strongRecOn generalizing text with
  | _ fuel ih =>
    cases fuel with
    | zero => omega
    | succ fuel =>
      rw [decodeStream, decodeFuel, decodeFuel]
      split
      · rfl
      · rename_i x rest hread
        have hlen := hr _ _ _ hread
        -- Both leave more fuel than there are bytes.
        rw [ih fuel (by omega) (by omega)]
        by_cases heq : fuel = text.length
        · rw [← heq, ih fuel (by omega) (by omega)]
        · rw [ih text.length (by omega) (by omega)]

theorem decodeStream_of_none {r : Reader A} {text : List UInt8} (h : r text = none) : decodeStream r text = [] := by
  rw [decodeStream, decodeFuel, h]

theorem decodeStream_of_some {r : Reader A} (hr : Shortens r) {text rest : List UInt8} {x : A} (h : r text = some (x, rest)) :
    decodeStream r text = x :: decodeStream r rest := by
  rw [decodeStream, decodeFuel, h]
  exact congrArg (x :: ·) (decodeFuel_eq hr (hr _ _ _ h))

theorem decodeStream_congr {r : Reader A} (hr : Shortens r) {text text' : List UInt8} (h : r text = r text') :
    decodeStream r text = decodeStream r text' := by
  cases hread : r text' with
  | none => rw [decodeStream_of_none hread, decodeStream_of_none (h.trans hread)]
  | some p => rw [decodeStream_of_some hr hread, decodeStream_of_some hr (h.trans hread)]

/-- Space in front of a value is passed over. -/
theorem skipSpace_append {space : List UInt8} (h : skipSpace space = []) (text : List UInt8) :
    skipSpace (space ++ text) = skipSpace text := by
  induction space with
  | nil => rfl
  | cons b space ih =>
    rw [skipSpace, List.dropWhile_cons] at h
    split at h
    · rename_i hb
      rw [List.cons_append, skipSpace, List.dropWhile_cons, if_pos hb]
      exact ih h
    · cases h

theorem readValue_skipSpace {text text' : List UInt8} (h : skipSpace text = skipSpace text') (depth : Nat) :
    readValue depth text = readValue depth text' := by
  cases depth with
  | zero => rw [readValue, readValue, h]
  | succ depth => rw [readValue, readValue, h]

theorem decodeNext_space (fields : List (JsonField ρ)) (zero : ρ) {space : List UInt8} (h : skipSpace space = [])
    (text : List UInt8) : decodeNext fields zero (space ++ text) = decodeNext fields zero text := by
  rw [decodeNext, decodeNext, readJson, readValue_skipSpace (skipSpace_append h text)]

end Meridian.Lib
