import Mathlib.Data.List.Basic
import Meridian.Lib.Json

/-! Reading JSON from bytes, with the rules of Go's decoder: one value is read from the front of a text, and what follows
    it is left. Bytes of a string that are not UTF-8, and lone surrogates, read as the replacement character; values are
    nested at most so deep. -/

namespace Meridian.Lib

/-- A reader takes a value from the front of a text, or fails. -/
abbrev Reader (A : Type) := List UInt8 → Option (A × List UInt8)

/-- A result with its value changed. -/
def mapValue {A B : Type} (f : A → B) : Option (A × List UInt8) → Option (B × List UInt8)
  | none => none
  | some (x, rest) => some (f x, rest)

def quote : UInt8 := 0x22
def comma : UInt8 := 0x2c
def minus : UInt8 := 0x2d
def dot : UInt8 := 0x2e
def zeroDigit : UInt8 := 0x30
def nameSeparator : UInt8 := 0x3a
def openBracket : UInt8 := 0x5b
def backslash : UInt8 := 0x5c
def closeBracket : UInt8 := 0x5d
def openBrace : UInt8 := 0x7b
def closeBrace : UInt8 := 0x7d

/-- Space, tab, line feed and carriage return. -/
def isJsonSpace (b : UInt8) : Bool := b = 0x20 || b = 0x09 || b = 0x0a || b = 0x0d

def skipSpace (text : List UInt8) : List UInt8 := text.dropWhile isJsonSpace

/-! ### Strings -/

/-- A byte of a string, as it stands or from an escape of one letter, or the code unit of a `\u` escape. -/
inductive StringUnit where
  | byte (b : UInt8)
  | escape (n : Nat)
  deriving DecidableEq, Repr

def hexDigit (b : UInt8) : Option Nat :=
  if 0x30 ≤ b && b ≤ 0x39 then some (b.toNat - 0x30)
  else if 0x61 ≤ b && b ≤ 0x66 then some (b.toNat - 0x57)
  else if 0x41 ≤ b && b ≤ 0x46 then some (b.toNat - 0x37)
  else none

def hex4 (a b c d : UInt8) : Option Nat :=
  match hexDigit a, hexDigit b, hexDigit c, hexDigit d with
  | some a, some b, some c, some d => some (a * 0x1000 + b * 0x100 + c * 0x10 + d)
  | _, _, _, _ => none

/-- The escapes of one letter: `"`, `\`, `/`, `b`, `f`, `n`, `r` and `t`. -/
def simpleEscape (b : UInt8) : Option UInt8 :=
  if b = 0x22 || b = 0x5c || b = 0x2f then some b
  else if b = 0x62 then some 0x08
  else if b = 0x66 then some 0x0c
  else if b = 0x6e then some 0x0a
  else if b = 0x72 then some 0x0d
  else if b = 0x74 then some 0x09
  else none

/-- The units up to the closing quote. -/
def readUnits : Reader (List StringUnit)
  | [] => none
  | b :: rest =>
    if b = quote then some ([], rest)
    else if b < 0x20 then none
    else if b ≠ backslash then mapValue (.byte b :: ·) (readUnits rest)
    else
      match rest with
      | [] => none
      | e :: rest =>
        if e = 0x75 then
          match rest with
          | h1 :: h2 :: h3 :: h4 :: rest =>
            match hex4 h1 h2 h3 h4 with
            | none => none
            | some n => mapValue (.escape n :: ·) (readUnits rest)
          | _ => none
        else
          match simpleEscape e with
          | none => none
          | some c => mapValue (.byte c :: ·) (readUnits rest)

def replacementChar : Char := Char.ofNat 0xfffd

/-- The character of a code unit, with the next unit when the two are a surrogate pair. -/
def escapeRune (n : Nat) (next : List StringUnit) : Char × Nat :=
  if n < 0xd800 || 0xe000 ≤ n then (Char.ofNat n, 0)
  else
    match next with
    | .escape low :: _ =>
      if n < 0xdc00 && 0xdc00 ≤ low && low < 0xe000 then
        (Char.ofNat ((n - 0xd800) * 0x400 + (low - 0xdc00) + 0x10000), 1)
      else (replacementChar, 0)
    | _ => (replacementChar, 0)

/-- The six bits of a continuation byte. -/
def tailBits (b : UInt8) : Option Nat := if 0x80 ≤ b && b ≤ 0xbf then some (b.toNat - 0x80) else none

def leadingBytes (units : List StringUnit) : List UInt8 :=
  (units.take 3).takeWhile (fun u => u matches .byte _) |>.filterMap fun
    | .byte b => some b
    | .escape _ => none

/-- The character that starts with a byte, and how many of the next bytes belong to it. An encoding that is not the
    shortest one, a surrogate and a number beyond the last character are refused byte by byte. -/
def byteRune (b : UInt8) (next : List UInt8) : Char × Nat :=
  if b < 0x80 then (Char.ofNat b.toNat, 0)
  else
    match next.map tailBits with
    | some x :: rest =>
      if 0xc2 ≤ b && b ≤ 0xdf then (Char.ofNat ((b.toNat - 0xc0) * 0x40 + x), 1)
      else
        match rest with
        | some y :: rest =>
          let n := (b.toNat - 0xe0) * 0x1000 + x * 0x40 + y
          if 0xe0 ≤ b && b ≤ 0xef && 0x800 ≤ n && (n < 0xd800 || 0xe000 ≤ n) then (Char.ofNat n, 2)
          else
            match rest with
            | some z :: _ =>
              let n := (b.toNat - 0xf0) * 0x40000 + x * 0x1000 + y * 0x40 + z
              if 0xf0 ≤ b && b ≤ 0xf4 && 0x10000 ≤ n && n < 0x110000 then (Char.ofNat n, 3) else (replacementChar, 0)
            | _ => (replacementChar, 0)
        | _ => (replacementChar, 0)
    | _ => (replacementChar, 0)

/-- The characters of the units, after so many that belong to the last character. -/
def decodeUnits : Nat → List StringUnit → List Char
  | _, [] => []
  | skip + 1, _ :: rest => decodeUnits skip rest
  | 0, .escape n :: rest =>
    match escapeRune n rest with
    | (c, skip) => c :: decodeUnits skip rest
  | 0, .byte b :: rest =>
    match byteRune b (leadingBytes rest) with
    | (c, skip) => c :: decodeUnits skip rest

/-- A string, after its opening quote. -/
def readString : Reader String := fun text => mapValue (fun units => String.ofList (decodeUnits 0 units)) (readUnits text)

/-! ### Numbers -/

def isDecimalDigit (b : UInt8) : Bool := 0x30 ≤ b && b ≤ 0x39

/-- One digit or more. -/
def readDigits : Reader (List UInt8) := fun text =>
  match text.takeWhile isDecimalDigit with
  | [] => none
  | digits => some (digits, text.dropWhile isDecimalDigit)

/-- The digits of an integer: no zero stands before another digit. -/
def readInteger : Reader (List UInt8)
  | [] => none
  | b :: rest => if b = zeroDigit then some ([b], rest) else readDigits (b :: rest)

def readFraction : Reader (List UInt8)
  | [] => some ([], [])
  | b :: rest =>
    if b ≠ dot then some ([], b :: rest)
    else mapValue (b :: ·) (readDigits rest)

def readExponent : Reader (List UInt8)
  | [] => some ([], [])
  | e :: rest =>
    if e ≠ 0x65 && e ≠ 0x45 then some ([], e :: rest)
    else
      match rest with
      | [] => none
      | b :: after =>
        if b = 0x2b || b = minus then mapValue (e :: b :: ·) (readDigits after)
        else mapValue (e :: ·) (readDigits (b :: after))

def natOfDigits (digits : List UInt8) : Nat := digits.foldl (fun n b => n * 10 + (b.toNat - 0x30)) 0

def asciiString (bytes : List UInt8) : String := String.ofList (bytes.map fun b => Char.ofNat b.toNat)

def readUnsigned (sign : List UInt8) : Reader Json := fun text =>
  match readInteger text with
  | none => none
  | some (int, rest) =>
    match readFraction rest with
    | none => none
    | some (fraction, rest) =>
      match readExponent rest with
      | none => none
      | some (exponent, rest) =>
        if sign ++ fraction ++ exponent = [] then some (.num (natOfDigits int), rest)
        else some (.otherNum (asciiString (sign ++ int ++ fraction ++ exponent)), rest)

def readNumber : Reader Json
  | [] => none
  | b :: rest => if b = minus then readUnsigned [b] rest else readUnsigned [] (b :: rest)

/-! ### Values -/

def readWord (word : List UInt8) (v : Json) : Reader Json := fun text =>
  if word.isPrefixOf text then some (v, text.drop word.length) else none

/-- A value that is no container, with no space before it. -/
def readScalar : Reader Json
  | [] => none
  | b :: rest =>
    if b = quote then mapValue .str (readString rest)
    else if b = 0x6e then readWord [0x6e, 0x75, 0x6c, 0x6c] .null (b :: rest)
    else if b = 0x74 then readWord [0x74, 0x72, 0x75, 0x65] (.bool true) (b :: rest)
    else if b = 0x66 then readWord [0x66, 0x61, 0x6c, 0x73, 0x65] (.bool false) (b :: rest)
    else readNumber (b :: rest)

section
variable {A : Type}

/-- Items with commas between them, up to the closing byte; the fuel bounds their number. -/
def readSeq (item : Reader A) (close : UInt8) : Nat → Reader (List A)
  | 0, _ => none
  | fuel + 1, text =>
    match item text with
    | none => none
    | some (x, rest) =>
      match skipSpace rest with
      | [] => none
      | b :: rest =>
        if b = close then some ([x], rest)
        else if b ≠ comma then none
        else
          match readSeq item close fuel rest with
          | none => none
          | some (xs, rest) => some (x :: xs, rest)

/-- The items of a container, after its opening byte; there are no more than bytes. -/
def readItems (item : Reader A) (close : UInt8) : Reader (List A) := fun text =>
  match skipSpace text with
  | [] => none
  | b :: rest => if b = close then some ([], rest) else readSeq item close (text.length + 1) text

end

def readMember (value : Reader Json) : Reader (String × Json) := fun text =>
  match skipSpace text with
  | [] => none
  | b :: rest =>
    if b ≠ quote then none
    else
      match readString rest with
      | none => none
      | some (name, rest) =>
        match skipSpace rest with
        | [] => none
        | b :: rest => if b ≠ nameSeparator then none else mapValue (name, ·) (value rest)

/-- A value, in so many containers at most. -/
def readValue : Nat → Reader Json
  | 0, text => readScalar (skipSpace text)
  | depth + 1, text =>
    match skipSpace text with
    | [] => none
    | b :: rest =>
      if b = openBrace then
        mapValue .obj (readItems (readMember (readValue depth)) closeBrace rest)
      else if b = openBracket then
        mapValue .arr (readItems (readValue depth) closeBracket rest)
      else readScalar (b :: rest)

def maxNestingDepth : Nat := 10000

def readJson : Reader Json := readValue maxNestingDepth

/-- Whether more follows: the next byte that is no space would not close a container. -/
def moreFollows (rest : List UInt8) : Bool :=
  match skipSpace rest with
  | [] => false
  | b :: _ => b ≠ closeBracket && b ≠ closeBrace

def readText (d : List UInt8) : JsonText :=
  match readJson d with
  | none => .malformed
  | some (v, rest) => .value v (moreFollows rest)

/-! ### Progress

Every reader takes at least one byte, so the fuel of a sequence does not run out. -/

def Shortens {A : Type} (r : Reader A) : Prop := ∀ text x rest, r text = some (x, rest) → rest.length < text.length

section
variable {A : Type}

theorem length_skipSpace_le (text : List UInt8) : (skipSpace text).length ≤ text.length :=
  (List.dropWhile_suffix _).length_le

theorem length_lt_of_mapValue {B : Type} {o : Option (A × List UInt8)} {f : A → B} {y : B} {rest : List UInt8} {n : Nat}
    (h : mapValue f o = some (y, rest)) (ho : ∀ x rest, o = some (x, rest) → rest.length < n) : rest.length < n := by
  cases o with
  | none => cases h
  | some r =>
    obtain ⟨x, rest'⟩ := r
    cases h
    exact ho x rest rfl

theorem readUnits_shortens : Shortens readUnits := by
  intro text
  fun_induction readUnits text with
  | case2 rest =>
    intro x rest' h
    cases h
    exact Nat.lt_succ_self _
  | case4 b rest _ _ _ ih =>
    intro x rest' h
    refine length_lt_of_mapValue h fun x r hx => ?_
    exact Nat.lt_succ_of_lt (ih x r hx)
  | case7 _ _ _ _ h1 h2 h3 h4 rest n _ ih =>
    intro x rest' h
    refine length_lt_of_mapValue h fun x r hx => ?_
    have := ih x r hx
    simp only [List.length_cons]
    omega
  | case10 b _ _ _ e rest _ c _ ih =>
    intro x rest' h
    refine length_lt_of_mapValue h fun x r hx => ?_
    have := ih x r hx
    simp only [List.length_cons]
    omega
  | _ => intro x rest' h; cases h

theorem readString_shortens : Shortens readString := by
  intro text s rest h
  unfold readString at h
  exact length_lt_of_mapValue h fun units rest hunits => readUnits_shortens text units rest hunits

theorem readDigits_shortens : Shortens readDigits := by
  intro text x rest h
  unfold readDigits at h
  split at h
  · cases h
  · rename_i hdigits
    cases h
    have hsplit := congrArg List.length (List.takeWhile_append_dropWhile (p := isDecimalDigit) (l := text))
    rw [List.length_append] at hsplit
    have hpos : 0 < (text.takeWhile isDecimalDigit).length := List.length_pos_iff.mpr fun hnil => hdigits hnil
    omega

theorem readInteger_shortens : Shortens readInteger := by
  intro text x rest h
  cases text with
  | nil => cases h
  | cons b text =>
    rw [readInteger] at h
    split at h
    · cases h
      exact Nat.lt_succ_self _
    · exact readDigits_shortens _ x rest h

theorem length_readFraction {text digits rest : List UInt8} (h : readFraction text = some (digits, rest)) :
    rest.length ≤ text.length := by
  cases text with
  | nil =>
    cases h
    exact Nat.le_refl _
  | cons b text =>
    rw [readFraction] at h
    split at h
    · cases h
      exact Nat.le_refl _
    · refine Nat.le_of_lt (length_lt_of_mapValue h fun x r hx => ?_)
      exact Nat.lt_succ_of_lt (readDigits_shortens _ x r hx)

theorem length_readExponent {text digits rest : List UInt8} (h : readExponent text = some (digits, rest)) :
    rest.length ≤ text.length := by
  cases text with
  | nil =>
    cases h
    exact Nat.le_refl _
  | cons e text =>
    unfold readExponent at h
    dsimp only at h
    split at h
    · cases h
      exact Nat.le_refl _
    · cases text with
      | nil => cases h
      | cons b after =>
        dsimp only at h
        split at h
        · refine Nat.le_of_lt (length_lt_of_mapValue h fun x r hx => ?_)
          exact Nat.lt_succ_of_lt (Nat.lt_succ_of_lt (readDigits_shortens _ x r hx))
        · refine Nat.le_of_lt (length_lt_of_mapValue h fun x r hx => ?_)
          exact Nat.lt_succ_of_lt (readDigits_shortens _ x r hx)

theorem readUnsigned_shortens (sign : List UInt8) : Shortens (readUnsigned sign) := by
  intro text x rest h
  unfold readUnsigned at h
  split at h
  · cases h
  · rename_i int rest₁ hint
    split at h
    · cases h
    · rename_i fraction rest₂ hfraction
      split at h
      · cases h
      · rename_i exponent rest₃ hexponent
        have hrest : rest = rest₃ := by
          split at h <;> cases h <;> rfl
        have h₁ := readInteger_shortens _ _ _ hint
        have h₂ := length_readFraction hfraction
        have h₃ := length_readExponent hexponent
        rw [hrest]
        omega

theorem readNumber_shortens : Shortens readNumber := by
  intro text x rest h
  cases text with
  | nil => cases h
  | cons b text =>
    rw [readNumber] at h
    split at h
    · exact Nat.lt_succ_of_lt (readUnsigned_shortens _ _ x rest h)
    · exact readUnsigned_shortens _ _ x rest h

theorem readWord_shortens {word : List UInt8} (hword : word ≠ []) (v : Json) : Shortens (readWord word v) := by
  intro text x rest h
  unfold readWord at h
  split at h
  · rename_i hpre
    cases h
    have hle := (List.isPrefixOf_iff_prefix.mp hpre).length_le
    have hpos := List.length_pos_iff.mpr hword
    rw [List.length_drop]
    omega
  · cases h

theorem readScalar_shortens : Shortens readScalar := by
  intro text x rest h
  cases text with
  | nil => cases h
  | cons b text =>
    rw [readScalar] at h
    split at h
    · refine length_lt_of_mapValue h fun s r hs => ?_
      exact Nat.lt_succ_of_lt (readString_shortens _ s r hs)
    · split at h
      · exact readWord_shortens (List.cons_ne_nil _ _) _ _ x rest h
      · split at h
        · exact readWord_shortens (List.cons_ne_nil _ _) _ _ x rest h
        · split at h
          · exact readWord_shortens (List.cons_ne_nil _ _) _ _ x rest h
          · exact readNumber_shortens _ x rest h

theorem readSeq_shortens {item : Reader A} (hitem : Shortens item) (close : UInt8) (fuel : Nat) :
    Shortens (readSeq item close fuel) := by
  induction fuel with
  | zero =>
    intro text xs rest h
    cases h
  | succ fuel ih =>
    intro text xs rest h
    rw [readSeq] at h
    split at h
    · cases h
    · rename_i x rest₁ hx
      have h₁ := hitem text x rest₁ hx
      have h₂ := length_skipSpace_le rest₁
      split at h
      · cases h
      · rename_i b rest₂ hskip
        rw [hskip, List.length_cons] at h₂
        split at h
        · cases h
          omega
        · split at h
          · cases h
          · split at h
            · cases h
            · rename_i xs' rest₃ hseq
              cases h
              have h₃ := ih rest₂ xs' rest hseq
              omega

/-- A sequence that has a unit of fuel for every byte does not run out of it: it is read item by item, without fuel. -/
theorem readSeq_fuel {item : Reader A} (hitem : Shortens item) (close : UInt8) {fuel : Nat} {text : List UInt8}
    (hfuel : text.length < fuel) : readSeq item close fuel text = readSeq item close (text.length + 1) text := by
  induction fuel using Nat.strongRecOn generalizing text with
  | ind fuel ih =>
    obtain _ | fuel := fuel
    · cases hfuel
    · rw [readSeq, readSeq]
      cases hx : item text with
      | none => rfl
      | some r =>
        obtain ⟨x, rest₁⟩ := r
        have h₁ := hitem text x rest₁ hx
        have h₂ := length_skipSpace_le rest₁
        cases hskip : skipSpace rest₁ with
        | nil => simp only [hskip]
        | cons b rest₂ =>
          rw [hskip, List.length_cons] at h₂
          simp only [hskip]
          rw [ih fuel (Nat.lt_succ_self _) (by omega), ih text.length (by omega) (by omega)]

theorem readItems_shortens {item : Reader A} (hitem : Shortens item) (close : UInt8) : Shortens (readItems item close) := by
  intro text xs rest h
  unfold readItems at h
  have hskip := length_skipSpace_le text
  split at h
  · cases h
  · rename_i b rest₁ heq
    rw [heq, List.length_cons] at hskip
    split at h
    · cases h
      omega
    · exact readSeq_shortens hitem close _ text xs rest h

end

theorem readMember_shortens {value : Reader Json} (hvalue : Shortens value) : Shortens (readMember value) := by
  intro text m rest h
  unfold readMember at h
  have h₁ := length_skipSpace_le text
  split at h
  · cases h
  · rename_i b rest₁ hskip
    rw [hskip, List.length_cons] at h₁
    split at h
    · cases h
    · split at h
      · cases h
      · rename_i name rest₂ hname
        have h₂ := readString_shortens rest₁ name rest₂ hname
        have h₃ := length_skipSpace_le rest₂
        split at h
        · cases h
        · rename_i c rest₃ hskip'
          rw [hskip', List.length_cons] at h₃
          split at h
          · cases h
          · refine length_lt_of_mapValue h fun v r hv => ?_
            have h₄ := hvalue rest₃ v r hv
            omega

theorem readValue_shortens (depth : Nat) : Shortens (readValue depth) := by
  induction depth with
  | zero =>
    intro text v rest h
    have h₁ := readScalar_shortens _ v rest h
    have h₂ := length_skipSpace_le text
    omega
  | succ depth ih =>
    intro text v rest h
    rw [readValue] at h
    have h₁ := length_skipSpace_le text
    split at h
    · cases h
    · rename_i b rest₁ hskip
      rw [hskip, List.length_cons] at h₁
      split at h
      · refine length_lt_of_mapValue h fun members r hr => ?_
        have h₂ := readItems_shortens (readMember_shortens ih) closeBrace rest₁ members r hr
        omega
      · split at h
        · refine length_lt_of_mapValue h fun elements r hr => ?_
          have h₂ := readItems_shortens ih closeBracket rest₁ elements r hr
          omega
        · have h₂ := readScalar_shortens _ v rest h
          rw [List.length_cons] at h₂
          omega

end Meridian.Lib
