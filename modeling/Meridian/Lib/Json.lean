import Mathlib.Algebra.Group.Nat.Defs

/-! JSON values, and how a strict decoder with Go's rules stores one into a record: members are matched to
    fields without regard to case, a repeated member is stored again, an absent one leaves the field as it
    is, `null` stores nothing, and an unknown member is an error. -/

namespace Meridian.Lib

/-- A JSON value. A number literal is either a plain sequence of digits, or any other literal (with a
    sign, a fraction or an exponent). -/
inductive Json where
  | null
  | bool (b : Bool)
  | num (n : Nat)
  | otherNum (literal : String)
  | str (s : String)
  | arr (elements : List Json)
  | obj (members : List (String × Json))

/-- A text given to a decoder: malformed, or a value with the answer to whether more data follows it. -/
inductive JsonText where
  | malformed
  | value (v : Json) (more : Bool)

inductive JsonError where
  | malformed
  | unknownField (name : String)
  | unmarshalType (found : String)
  | trailingData
  deriving DecidableEq, Repr

def Json.kind : Json → String
  | .null => "null"
  | .bool _ => "bool"
  | .num _ | .otherNum _ => "number"
  | .str _ => "string"
  | .arr _ => "array"
  | .obj _ => "object"

/-- The least character of those that fold to the same letter, for the orbits of the ASCII letters: the
    Kelvin sign folds to K and the long s to S. -/
def foldChar (c : Char) : Char :=
  if 'a' ≤ c && c ≤ 'z' then Char.ofNat (c.toNat - 32)
  else if c = Char.ofNat 0x212a then 'K'
  else if c = Char.ofNat 0x17f then 'S'
  else c

def foldName (name : String) : List Char := name.toList.map foldChar

/-- A field of a record: its name, and how a value is stored into it. -/
structure JsonField (ρ : Type) where
  name : String
  store : Json → ρ → Except JsonError ρ

section
variable {ρ τ : Type}

def decodeMembers (fields : List (JsonField ρ)) : List (String × Json) → ρ → Except JsonError ρ
  | [], r => .ok r
  | (name, v) :: rest, r =>
    match fields.find? fun f => foldName f.name = foldName name with
    | none => .error (.unknownField name)
    | some f =>
      match f.store v r with
      | .error e => .error e
      | .ok r => decodeMembers fields rest r

def decodeStruct (fields : List (JsonField ρ)) (v : Json) (r : ρ) : Except JsonError ρ :=
  match v with
  | .null => .ok r
  | .obj members => decodeMembers fields members r
  | v => .error (.unmarshalType v.kind)

def uintField (name : String) (bits : Nat) (set : Nat → ρ → ρ) : JsonField ρ where
  name := name
  store v r :=
    match v with
    | .null => .ok r
    | .num n => if n < 2 ^ bits then .ok (set n r) else .error (.unmarshalType "number")
    | v => .error (.unmarshalType v.kind)

def stringField (name : String) (set : String → ρ → ρ) : JsonField ρ where
  name := name
  store v r :=
    match v with
    | .null => .ok r
    | .str s => .ok (set s r)
    | v => .error (.unmarshalType v.kind)

def structField (name : String) (fields : List (JsonField τ)) (get : ρ → τ) (set : τ → ρ → ρ) : JsonField ρ where
  name := name
  store v r :=
    match decodeStruct fields v (get r) with
    | .error e => .error e
    | .ok t => .ok (set t r)

/-- A field that keeps the value as it is (`json.RawMessage`). -/
def rawField (name : String) (set : Json → ρ → ρ) : JsonField ρ where
  name := name
  store v r := .ok (set v r)

/-- Decodes exactly one value into a record that starts as `zero`. -/
def strictDecode (fields : List (JsonField ρ)) (zero : ρ) (text : JsonText) : Except JsonError ρ :=
  match text with
  | .malformed => .error .malformed
  | .value v more =>
    match decodeStruct fields v zero with
    | .error e => .error e
    | .ok r => if more then .error .trailingData else .ok r

theorem decodeMembers_cons {fields : List (JsonField ρ)} {name : String} {v : Json} {rest : List (String × Json)}
    {f : JsonField ρ} {r q : ρ} (hf : (fields.find? fun f => foldName f.name = foldName name) = some f)
    (hs : f.store v r = .ok q) : decodeMembers fields ((name, v) :: rest) r = decodeMembers fields rest q := by
  rw [decodeMembers, hf]
  simp only [hs]

theorem strictDecode_obj {fields : List (JsonField ρ)} {members : List (String × Json)} {zero r : ρ}
    (h : decodeMembers fields members zero = .ok r) : strictDecode fields zero (.value (.obj members) false) = .ok r := by
  simp [strictDecode, decodeStruct, h]

theorem structField_obj {name : String} {fields : List (JsonField τ)} {g : ρ → τ} {set : τ → ρ → ρ}
    {members : List (String × Json)} {r : ρ} {t : τ} (h : decodeMembers fields members (g r) = .ok t) :
    (structField name fields g set).store (.obj members) r = .ok (set t r) := by
  simp [structField, decodeStruct, h]

theorem uintField_num {name : String} {bits : Nat} {set : Nat → ρ → ρ} {n : Nat} (h : n < 2 ^ bits) (r : ρ) :
    (uintField name bits set).store (.num n) r = .ok (set n r) := if_pos h

end

end Meridian.Lib
