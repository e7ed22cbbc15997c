import Meridian.Lib.Bytes
import Meridian.Lib.JsonReader

/-! Writing JSON as Go's encoder writes it: no space, the escapes that keep a text safe inside HTML, and the members of
    an object in the order they are given. Each writer is read back by the reader of its kind, whatever follows that
    does not continue a number. -/

namespace Meridian.Lib

/-! ### Characters -/

/-- The letter of the short escape of a character that has one. -/
def shortEscape (n : Nat) : Option UInt8 :=
  if n = 0x22 then some 0x22
  else if n = 0x5c then some 0x5c
  else if n = 0x08 then some 0x62
  else if n = 0x0c then some 0x66
  else if n = 0x0a then some 0x6e
  else if n = 0x0d then some 0x72
  else if n = 0x09 then some 0x74
  else none

/-- The characters written as `\u`: the other control characters, `<`, `>`, `&` and the two line separators. -/
def isEscaped (n : Nat) : Bool := n < 0x20 || n = 0x3c || n = 0x3e || n = 0x26 || n = 0x2028 || n = 0x2029

def lowerHex (n : Nat) : UInt8 := if n < 10 then UInt8.ofNat (0x30 + n) else UInt8.ofNat (0x57 + n)

def unicodeEscape (n : Nat) : List UInt8 :=
  [backslash, 0x75, lowerHex (n / 0x1000), lowerHex (n / 0x100 % 16), lowerHex (n / 0x10 % 16), lowerHex (n % 16)]

def writeChar (c : Char) : List UInt8 :=
  match shortEscape c.toNat with
  | some e => [backslash, e]
  | none => if isEscaped c.toNat then unicodeEscape c.toNat else String.utf8EncodeChar c

/-- The units the reader sees for a written character. -/
def charUnits (c : Char) : List StringUnit :=
  match shortEscape c.toNat with
  | some _ => [.byte (UInt8.ofNat c.toNat)]
  | none => if isEscaped c.toNat then [.escape c.toNat] else (String.utf8EncodeChar c).map .byte

theorem mapValue_mapValue {A B C : Type} (f : B → C) (g : A → B) (o : Option (A × List UInt8)) :
    mapValue f (mapValue g o) = mapValue (fun x => f (g x)) o := by
  cases o <;> rfl

variable {n : Nat} {rest : List UInt8}

theorem shortEscape_some {e : UInt8} (h : shortEscape n = some e) :
    n < 0x80 ∧ e ≠ 0x75 ∧ simpleEscape e = some (UInt8.ofNat n) := by
  unfold shortEscape at h
  split_ifs at h <;> cases h <;> subst n <;> decide

theorem hexDigit_lowerHex (h : n < 16) : hexDigit (lowerHex n) = some n := by
  have hall : ∀ k : Fin 16, hexDigit (lowerHex k) = some k.val := by decide
  exact hall ⟨n, h⟩

theorem hex4_unicodeEscape (h : n < 0x10000) :
    hex4 (lowerHex (n / 0x1000)) (lowerHex (n / 0x100 % 16)) (lowerHex (n / 0x10 % 16)) (lowerHex (n % 16)) = some n := by
  rw [hex4, hexDigit_lowerHex (by omega), hexDigit_lowerHex (by omega), hexDigit_lowerHex (by omega),
    hexDigit_lowerHex (by omega)]
  simp only [Option.some.injEq]
  omega

/-- Bytes that stand for themselves in a string. -/
theorem readUnits_bytes {bs : List UInt8} (h : ∀ b ∈ bs, b ≠ quote ∧ ¬ b < 0x20 ∧ b ≠ backslash) (rest : List UInt8) :
    readUnits (bs ++ rest) = mapValue (bs.map StringUnit.byte ++ ·) (readUnits rest) := by
  induction bs with
  | nil => cases hr : readUnits rest <;> simp [mapValue, hr]
  | cons b bs ih =>
    obtain ⟨⟨hq, hc, hb⟩, hbs⟩ := List.forall_mem_cons.mp h
    rw [List.cons_append, readUnits.eq_def]
    simp only [if_neg hq, if_neg hc, if_pos hb]
    rw [ih hbs, mapValue_mapValue]
    rfl

theorem plain_utf8EncodeChar {c : Char} (hshort : shortEscape c.toNat = none) (hesc : isEscaped c.toNat = false) :
    ∀ b ∈ String.utf8EncodeChar c, b ≠ quote ∧ ¬ b < 0x20 ∧ b ≠ backslash := by
  have hplain : ∀ n : Nat, n ≠ 0x22 → 0x20 ≤ n → n ≠ 0x5c → n < 256 →
      UInt8.ofNat n ≠ quote ∧ ¬ UInt8.ofNat n < 0x20 ∧ UInt8.ofNat n ≠ backslash := by
    intro n h22 h20 h5c hn
    have hval : (UInt8.ofNat n).toNat = n := by rw [UInt8.toNat_ofNat', Nat.mod_eq_of_lt hn]
    refine ⟨fun h => h22 ?_, fun h => ?_, fun h => h5c ?_⟩
    · rw [← hval, h]; rfl
    · rw [UInt8.lt_iff_toNat_lt, hval] at h
      exact absurd h (Nat.not_lt.mpr h20)
    · rw [← hval, h]; rfl
  intro b hb
  have hn : c.val.toNat = c.toNat := rfl
  simp only [isEscaped, Bool.or_eq_false_iff, decide_eq_false_iff_not] at hesc
  unfold shortEscape at hshort
  split_ifs at hshort with h22 h5c
  unfold String.utf8EncodeChar at hb
  simp only [hn] at hb
  split_ifs at hb <;> simp only [List.mem_cons, List.not_mem_nil, or_false] at hb
  · subst hb
    exact hplain _ h22 (by omega) h5c (by omega)
  · rcases hb with rfl | rfl <;> exact hplain _ (by omega) (by omega) (by omega) (by omega)
  · rcases hb with rfl | rfl | rfl <;> exact hplain _ (by omega) (by omega) (by omega) (by omega)
  · rcases hb with rfl | rfl | rfl | rfl <;> exact hplain _ (by omega) (by omega) (by omega) (by omega)

theorem readUnits_writeChar (c : Char) (rest : List UInt8) :
    readUnits (writeChar c ++ rest) = mapValue (charUnits c ++ ·) (readUnits rest) := by
  unfold writeChar charUnits
  cases hshort : shortEscape c.toNat with
  | some e =>
    obtain ⟨-, hne, hsimple⟩ := shortEscape_some hshort
    simp only [List.cons_append, List.nil_append]
    rw [readUnits.eq_def]
    simp only [if_neg hne, hsimple, if_neg (show backslash ≠ quote by decide),
      if_neg (show ¬ backslash < 0x20 by decide), ne_eq, not_true_eq_false, if_false]
  | none =>
    dsimp only
    by_cases hesc : isEscaped c.toNat = true
    · have hn : c.toNat < 0x10000 := by
        simp only [isEscaped, Bool.or_eq_true, decide_eq_true_eq] at hesc
        omega
      rw [if_pos hesc, if_pos hesc, unicodeEscape]
      simp only [List.cons_append, List.nil_append]
      rw [readUnits.eq_def]
      simp only [hex4_unicodeEscape hn, if_neg (show backslash ≠ quote by decide),
        if_neg (show ¬ backslash < 0x20 by decide), ne_eq, not_true_eq_false, if_false, if_true]
    · rw [if_neg hesc, if_neg hesc]
      exact readUnits_bytes (plain_utf8EncodeChar hshort (by simpa using hesc)) rest

theorem decodeUnits_skip (us rest : List StringUnit) : decodeUnits us.length (us ++ rest) = decodeUnits 0 rest := by
  induction us with
  | nil => rfl
  | cons u us ih =>
    rw [List.length_cons, List.cons_append, decodeUnits]
    exact ih

theorem leadingBytes_bytes {bs : List UInt8} (h : bs.length ≤ 3) (us : List StringUnit) :
    ∃ more, leadingBytes (bs.map StringUnit.byte ++ us) = bs ++ more := by
  rcases bs with - | ⟨b0, - | ⟨b1, - | ⟨b2, - | ⟨b3, bs⟩⟩⟩⟩
  · exact ⟨leadingBytes us, rfl⟩
  · exact ⟨_, rfl⟩
  · exact ⟨_, rfl⟩
  · exact ⟨_, rfl⟩
  · simp only [List.length_cons] at h
    omega

theorem tailBits_ofNat (h : n < 64) : tailBits (UInt8.ofNat (n + 128)) = some n := by
  have hall : ∀ k : Fin 64, tailBits (UInt8.ofNat (k.val + 128)) = some k.val := by decide
  exact hall ⟨n, h⟩

section
variable {b : UInt8} {n : Nat}

theorem byteRune_one (h : n < 128) (next : List UInt8) : byteRune (UInt8.ofNat n) next = (Char.ofNat n, 0) := by
  have hb : (UInt8.ofNat n).toNat = n := by rw [UInt8.toNat_ofNat', Nat.mod_eq_of_lt (by omega)]
  rw [byteRune, if_pos (UInt8.lt_iff_toNat_lt.mpr (by rw [hb]; exact h)), hb]

theorem byteRune_two (hlo : 128 ≤ n) (hhi : n ≤ 2047) (more : List UInt8) :
    byteRune (UInt8.ofNat (n / 64 % 32 + 192)) (UInt8.ofNat (n % 64 + 128) :: more) = (Char.ofNat n, 1) := by
  have hb : (UInt8.ofNat (n / 64 % 32 + 192)).toNat = n / 64 + 192 := by rw [UInt8.toNat_ofNat']; omega
  rw [byteRune]
  simp only [List.map_cons, tailBits_ofNat (show n % 64 < 64 by omega), UInt8.lt_iff_toNat_lt, UInt8.le_iff_toNat_le, hb]
  rw [if_neg (by simp), if_pos (by simp; omega)]
  congr 2
  omega

theorem byteRune_three (hlo : 2048 ≤ n) (hhi : n ≤ 65535) (hsur : n < 0xd800 ∨ 0xe000 ≤ n) (more : List UInt8) :
    byteRune (UInt8.ofNat (n / 4096 % 16 + 224))
      (UInt8.ofNat (n / 64 % 64 + 128) :: UInt8.ofNat (n % 64 + 128) :: more) = (Char.ofNat n, 2) := by
  have hb : (UInt8.ofNat (n / 4096 % 16 + 224)).toNat = n / 4096 + 224 := by rw [UInt8.toNat_ofNat']; omega
  have hn : (n / 4096 + 224 - 0xe0) * 0x1000 + n / 64 % 64 * 0x40 + n % 64 = n := by omega
  rw [byteRune]
  simp only [List.map_cons, tailBits_ofNat (show n % 64 < 64 by omega), tailBits_ofNat (show n / 64 % 64 < 64 by omega),
    UInt8.lt_iff_toNat_lt, UInt8.le_iff_toNat_le, hb]
  rw [if_neg (by simp), if_neg (by simp), hn, if_pos (by simp; omega)]

theorem byteRune_four (hlo : 65536 ≤ n) (hhi : n < 0x110000) (more : List UInt8) :
    byteRune (UInt8.ofNat (n / 262144 % 8 + 240)) (UInt8.ofNat (n / 4096 % 64 + 128) ::
      UInt8.ofNat (n / 64 % 64 + 128) :: UInt8.ofNat (n % 64 + 128) :: more) = (Char.ofNat n, 3) := by
  have hb : (UInt8.ofNat (n / 262144 % 8 + 240)).toNat = n / 262144 + 240 := by rw [UInt8.toNat_ofNat']; omega
  have hn : (n / 262144 + 240 - 0xf0) * 0x40000 + n / 4096 % 64 * 0x1000 + n / 64 % 64 * 0x40 + n % 64 = n := by omega
  rw [byteRune]
  simp only [List.map_cons, tailBits_ofNat (show n % 64 < 64 by omega), tailBits_ofNat (show n / 64 % 64 < 64 by omega),
    tailBits_ofNat (show n / 4096 % 64 < 64 by omega), UInt8.lt_iff_toNat_lt, UInt8.le_iff_toNat_le, hb]
  rw [if_neg (by simp), if_neg (by simp), if_neg (by simp), hn, if_pos (by simp; omega)]

end

theorem decodeUnits_utf8 (c : Char) (us : List StringUnit) :
    decodeUnits 0 ((String.utf8EncodeChar c).map StringUnit.byte ++ us) = c :: decodeUnits 0 us := by
  -- The first byte gives the character when the bytes after it, up to three, are known.
  have hfirst : ∀ (b : UInt8) (bs : List UInt8), bs.length ≤ 3 →
      (∀ more, byteRune b (bs ++ more) = (c, bs.length)) →
      decodeUnits 0 ((b :: bs).map StringUnit.byte ++ us) = c :: decodeUnits 0 us := by
    intro b bs hlen hrune
    obtain ⟨more, hmore⟩ := leadingBytes_bytes hlen us
    rw [List.map_cons, List.cons_append, decodeUnits, hmore, hrune more]
    dsimp only
    rw [← List.length_map StringUnit.byte, decodeUnits_skip]
  have hc : Char.ofNat c.val.toNat = c := Char.ofNat_toNat c
  have hvalid : c.val.toNat < 0xd800 ∨ (0xdfff < c.val.toNat ∧ c.val.toNat < 0x110000) := c.valid
  unfold String.utf8EncodeChar
  dsimp only
  split_ifs with h1 h2 h3
  · refine hfirst _ [] (Nat.zero_le _) fun more => ?_
    rw [List.nil_append, byteRune_one (by omega), hc, List.length_nil]
  · refine hfirst _ [_] (by simp) fun more => ?_
    rw [List.singleton_append, byteRune_two (by omega) h2, hc, List.length_singleton]
  · refine hfirst _ [_, _] (by simp) fun more => ?_
    exact (byteRune_three (by omega) h3 (by omega) more).trans (by rw [hc]; rfl)
  · refine hfirst _ [_, _, _] (by simp) fun more => ?_
    exact (byteRune_four (by omega) (by omega) more).trans (by rw [hc]; rfl)

theorem decodeUnits_charUnits (c : Char) (us : List StringUnit) :
    decodeUnits 0 (charUnits c ++ us) = c :: decodeUnits 0 us := by
  unfold charUnits
  cases hshort : shortEscape c.toNat with
  | some e =>
    obtain ⟨hascii, -, -⟩ := shortEscape_some hshort
    have hrune := byteRune_one hascii (leadingBytes us)
    simp only [List.singleton_append, decodeUnits, hrune, Char.ofNat_toNat]
  | none =>
    dsimp only
    by_cases hesc : isEscaped c.toNat = true
    · have hn : c.toNat < 0xd800 := by
        simp only [isEscaped, Bool.or_eq_true, decide_eq_true_eq] at hesc
        omega
      have hrune : escapeRune c.toNat us = (c, 0) := by
        unfold escapeRune
        rw [if_pos (by simp [hn]), Char.ofNat_toNat]
      rw [if_pos hesc, List.singleton_append, decodeUnits, hrune]
    · rw [if_neg hesc]
      exact decodeUnits_utf8 c us

/-! ### Strings, numbers and objects -/

/-- What may follow a value: nothing, or a byte that does not continue a number. -/
def Follows (rest : List UInt8) : Prop :=
  ∀ b, rest.head? = some b → isDecimalDigit b = false ∧ b ≠ dot ∧ b ≠ 0x65 ∧ b ≠ 0x45

/-- The reader takes exactly this text, and its value, whatever follows. -/
def ReadsBack {A : Type} (r : Reader A) (text : List UInt8) (x : A) : Prop :=
  ∀ rest, Follows rest → r (text ++ rest) = some (x, rest)

def writeString (s : String) : List UInt8 := quote :: (s.toList.flatMap writeChar ++ [quote])

theorem readUnits_writeChars (cs : List Char) (rest : List UInt8) :
    readUnits (cs.flatMap writeChar ++ quote :: rest) = some (cs.flatMap charUnits, rest) := by
  induction cs with
  | nil =>
    rw [List.flatMap_nil, List.nil_append, readUnits.eq_def]
    rfl
  | cons c cs ih =>
    rw [List.flatMap_cons, List.append_assoc, readUnits_writeChar, ih]
    rfl

theorem decodeUnits_flatMap_charUnits (cs : List Char) : decodeUnits 0 (cs.flatMap charUnits) = cs := by
  induction cs with
  | nil => rfl
  | cons c cs ih => rw [List.flatMap_cons, decodeUnits_charUnits, ih]

theorem readString_write (s : String) (rest : List UInt8) :
    readString (s.toList.flatMap writeChar ++ quote :: rest) = some (s, rest) := by
  rw [readString, readUnits_writeChars, mapValue, decodeUnits_flatMap_charUnits, String.ofList_toList]

theorem readsBack_writeString (depth : Nat) (s : String) : ReadsBack (readValue depth) (writeString s) (.str s) := by
  intro rest _
  have hscalar : readScalar (quote :: (s.toList.flatMap writeChar ++ quote :: rest)) = some (.str s, rest) := by
    rw [readScalar, if_pos rfl, readString_write, mapValue]
  rw [writeString, List.cons_append, List.append_assoc, List.singleton_append]
  cases depth with
  | zero => exact hscalar
  | succ depth => exact hscalar

def digitByte (c : Char) : UInt8 := UInt8.ofNat c.toNat

def writeNat (n : Nat) : List UInt8 := (Nat.toDigits 10 n).map digitByte

theorem digitByte_of_isDigit {c : Char} (h : c.isDigit = true) :
    (digitByte c).toNat = c.toNat ∧ isDecimalDigit (digitByte c) = true := by
  have hrange : 48 ≤ c.toNat ∧ c.toNat ≤ 57 := by
    simp only [Char.isDigit, Bool.and_eq_true, decide_eq_true_eq, ge_iff_le, UInt32.le_iff_toNat_le] at h
    exact h
  have hval : (digitByte c).toNat = c.toNat := by
    rw [digitByte, UInt8.toNat_ofNat']
    omega
  refine ⟨hval, ?_⟩
  simp only [isDecimalDigit, Bool.and_eq_true, decide_eq_true_eq, UInt8.le_iff_toNat_le, hval]
  exact hrange

theorem isDecimalDigit_writeNat (n : Nat) : ∀ b ∈ writeNat n, isDecimalDigit b = true := by
  intro b hb
  obtain ⟨c, hc, rfl⟩ := List.mem_map.mp hb
  exact (digitByte_of_isDigit (Nat.isDigit_of_mem_toDigits (by decide) (by decide) hc)).2

theorem natOfDigits_writeNat (n : Nat) : natOfDigits (writeNat n) = n := by
  rw [natOfDigits, writeNat, List.foldl_map]
  refine Eq.trans ?_ (Nat.ofDigitChars_ten_toDigits (n := n))
  rw [Nat.ofDigitChars]
  refine List.foldl_ext _ _ 0 fun a c hc => ?_
  rw [(digitByte_of_isDigit (Nat.isDigit_of_mem_toDigits (by decide) (by decide) hc)).1, Nat.mul_comm]
  rfl

/-- The first digit of a positive number is not zero. -/
theorem head_toDigits (h : 0 < n) : ∃ c cs, Nat.toDigits 10 n = c :: cs ∧ digitByte c ≠ zeroDigit := by
  induction n using Nat.strongRecOn with
  | ind n ih =>
    by_cases hn : n < 10
    · have hall : ∀ k : Fin 10, 0 < k.val → digitByte (Nat.digitChar k) ≠ zeroDigit := by decide
      exact ⟨n.digitChar, [], Nat.toDigits_of_lt_base hn, hall ⟨n, hn⟩ h⟩
    · obtain ⟨c, cs, heq, hc⟩ := ih (n / 10) (by omega) (by omega)
      refine ⟨c, cs ++ [(n % 10).digitChar], ?_, hc⟩
      rw [Nat.toDigits_of_base_le (by decide) (by omega), heq, List.cons_append]

theorem takeWhile_digits_append {ds : List UInt8} (hds : ∀ b ∈ ds, isDecimalDigit b = true) (hrest : Follows rest) :
    (ds ++ rest).takeWhile isDecimalDigit = ds ∧ (ds ++ rest).dropWhile isDecimalDigit = rest := by
  rw [List.takeWhile_append_of_pos hds, List.dropWhile_append_of_pos hds]
  cases rest with
  | nil => simp
  | cons b rest =>
    obtain ⟨hdigit, -⟩ := hrest b rfl
    simp [hdigit]

theorem readInteger_writeNat (n : Nat) (hrest : Follows rest) :
    readInteger (writeNat n ++ rest) = some (writeNat n, rest) := by
  rcases Nat.eq_zero_or_pos n with rfl | hpos
  · rfl
  · obtain ⟨c, cs, heq, hc⟩ := head_toDigits hpos
    have hwrite : writeNat n = digitByte c :: cs.map digitByte := by rw [writeNat, heq, List.map_cons]
    obtain ⟨htake, hdrop⟩ := takeWhile_digits_append (isDecimalDigit_writeNat n) hrest
    rw [hwrite, List.cons_append] at htake hdrop
    rw [hwrite, List.cons_append, readInteger, if_neg hc, readDigits, htake, hdrop]

theorem readFraction_of_follows (h : Follows rest) : readFraction rest = some ([], rest) := by
  cases rest with
  | nil => rfl
  | cons b rest =>
    obtain ⟨-, hdot, -⟩ := h b rfl
    rw [readFraction, if_pos hdot]

theorem readExponent_of_follows (h : Follows rest) : readExponent rest = some ([], rest) := by
  cases rest with
  | nil => rfl
  | cons b rest =>
    obtain ⟨-, -, he, hE⟩ := h b rfl
    unfold readExponent
    simp only [he, hE, ne_eq, not_false_eq_true, decide_true, Bool.and_self, if_true]

theorem readUnsigned_writeNat (n : Nat) (hrest : Follows rest) :
    readUnsigned [] (writeNat n ++ rest) = some (.num n, rest) := by
  simp only [readUnsigned, readInteger_writeNat n hrest, readFraction_of_follows hrest, readExponent_of_follows hrest,
    List.append_nil, if_true, natOfDigits_writeNat]

/-- No digit opens another kind of value. -/
theorem ne_of_isDecimalDigit : ∀ {b : UInt8}, isDecimalDigit b = true →
    isJsonSpace b = false ∧ b ≠ quote ∧ b ≠ 0x6e ∧ b ≠ 0x74 ∧ b ≠ 0x66 ∧ b ≠ minus ∧ b ≠ openBrace ∧ b ≠ openBracket := by
  intro b
  refine forall_byte (P := fun b => isDecimalDigit b = true → isJsonSpace b = false ∧ b ≠ quote ∧ b ≠ 0x6e ∧ b ≠ 0x74 ∧
    b ≠ 0x66 ∧ b ≠ minus ∧ b ≠ openBrace ∧ b ≠ openBracket) ?_ b
  decide +kernel

theorem skipSpace_cons {b : UInt8} (h : isJsonSpace b = false) (rest : List UInt8) : skipSpace (b :: rest) = b :: rest := by
  simp [skipSpace, h]

theorem readsBack_writeNat (depth n : Nat) : ReadsBack (readValue depth) (writeNat n) (.num n) := by
  intro rest hrest
  have hread := readUnsigned_writeNat n hrest
  have hdigits := isDecimalDigit_writeNat n
  obtain ⟨b, bs, hb⟩ : ∃ b bs, writeNat n = b :: bs := by
    obtain ⟨c, cs, hc⟩ := List.exists_cons_of_ne_nil (Nat.toDigits_ne_nil (n := n) (b := 10))
    exact ⟨digitByte c, cs.map digitByte, by rw [writeNat, hc, List.map_cons]⟩
  rw [hb] at hread hdigits ⊢
  obtain ⟨hspace, hq, hn, ht, hf, hm, hbrace, hbracket⟩ := ne_of_isDecimalDigit (hdigits b (List.mem_cons_self ..))
  have hscalar : readScalar (b :: bs ++ rest) = some (.num n, rest) := by
    rw [List.cons_append, readScalar, if_neg hq, if_neg hn, if_neg ht, if_neg hf, readNumber, if_neg hm]
    exact hread
  cases depth with
  | zero => rw [readValue, List.cons_append, skipSpace_cons hspace]; exact hscalar
  | succ depth =>
    rw [readValue, List.cons_append, skipSpace_cons hspace]
    dsimp only
    rw [if_neg hbrace, if_neg hbracket]
    exact hscalar

/-- Texts with commas between them. -/
def joinComma : List (List UInt8) → List UInt8
  | [] => []
  | [t] => t
  | t :: u :: ts => t ++ comma :: joinComma (u :: ts)

theorem follows_cons {b : UInt8} (h : isDecimalDigit b = false ∧ b ≠ dot ∧ b ≠ 0x65 ∧ b ≠ 0x45) (rest : List UInt8) :
    Follows (b :: rest) := by
  intro c hc
  cases hc
  exact h

section
variable {A : Type} {item : Reader A} {close : UInt8}

/-- Items that are read one by one are read in sequence. By induction on the items; the closing byte ends a value, as
    the comma does. -/
theorem readSeq_joinComma (hspace : isJsonSpace close = false) (hcomma : close ≠ comma)
    (hclose : ∀ rest, Follows (close :: rest)) {items : List (List UInt8 × A)} (hne : items ≠ [])
    (hreads : ∀ p ∈ items, ReadsBack item p.1 p.2) {fuel : Nat} (hfuel : items.length ≤ fuel) (rest : List UInt8) :
    readSeq item close fuel (joinComma (items.map Prod.fst) ++ close :: rest) = some (items.map Prod.snd, rest) := by
  induction items generalizing fuel with
  | nil => exact absurd rfl hne
  | cons p items ih =>
    obtain ⟨t, x⟩ := p
    obtain ⟨hp, hitems⟩ := List.forall_mem_cons.mp hreads
    cases fuel with
    | zero => cases hfuel
    | succ fuel =>
      cases items with
      | nil =>
        simp only [readSeq, List.map_cons, List.map_nil, joinComma, hp _ (hclose rest), skipSpace_cons hspace, if_true]
      | cons q items =>
        have hfollows : ∀ r, Follows (comma :: r) := follows_cons (by decide)
        have hrest := ih (by simp) hitems (Nat.le_of_succ_le_succ hfuel)
        simp only [List.map_cons] at hrest
        simp only [readSeq, List.map_cons, joinComma, List.append_assoc, List.cons_append, hp _ (hfollows _),
          skipSpace_cons (show isJsonSpace comma = false by decide), if_neg hcomma.symm, ne_eq, not_true_eq_false, if_false,
          hrest]

end

def writeMember (m : String × List UInt8) : List UInt8 := writeString m.1 ++ nameSeparator :: m.2

/-- An object, from the names of its members and their written values. -/
def writeObject (members : List (String × List UInt8)) : List UInt8 :=
  openBrace :: (joinComma (members.map writeMember) ++ [closeBrace])

theorem readsBack_writeMember {depth : Nat} {name : String} {text : List UInt8} {v : Json}
    (h : ReadsBack (readValue depth) text v) :
    ReadsBack (readMember (readValue depth)) (writeMember (name, text)) (name, v) := by
  intro rest hrest
  rw [writeMember, writeString, readMember, List.cons_append, List.cons_append, skipSpace_cons (by decide)]
  dsimp only
  rw [List.append_assoc, List.append_assoc, List.singleton_append, List.cons_append, if_neg (by simp), readString_write]
  dsimp only
  rw [skipSpace_cons (by decide)]
  dsimp only
  rw [if_neg (by simp), h rest hrest, mapValue]

theorem length_le_joinComma (ts : List (List UInt8)) : ts.length ≤ (joinComma ts).length + 1 := by
  induction ts with
  | nil => exact Nat.zero_le _
  | cons t ts ih =>
    cases ts with
    | nil => simp
    | cons u ts =>
      simp only [joinComma, List.length_append, List.length_cons] at ih ⊢
      omega

/-- An object whose values are each read back is read, one level deeper; its closing brace ends it whatever follows. -/
theorem readValue_writeObject (depth : Nat) (members : List (String × List UInt8 × Json))
    (h : ∀ m ∈ members, ReadsBack (readValue depth) m.2.1 m.2.2) (rest : List UInt8) :
    readValue (depth + 1) (writeObject (members.map fun m => (m.1, m.2.1)) ++ rest) =
      some (.obj (members.map fun m => (m.1, m.2.2)), rest) := by
  rw [writeObject, readValue, List.cons_append, skipSpace_cons (by decide), List.append_assoc, List.singleton_append]
  dsimp only
  rw [if_pos rfl, readItems]
  cases members with
  | nil =>
    rw [List.map_nil, List.map_nil, joinComma, List.nil_append, skipSpace_cons (by decide)]
    dsimp only
    rw [if_pos rfl]
    rfl
  | cons m members =>
    -- The sequence as the texts of the members with what they are read as.
    let items : List (List UInt8 × String × Json) :=
      (m :: members).map fun m => (writeMember (m.1, m.2.1), m.1, m.2.2)
    have hfst : ((m :: members).map fun m => (m.1, m.2.1)).map writeMember = items.map Prod.fst := by
      simp only [items, List.map_map]
      rfl
    have hsnd : (m :: members).map (fun m => (m.1, m.2.2)) = items.map Prod.snd := by
      simp only [items, List.map_map]
      rfl
    have hreads : ∀ p ∈ items, ReadsBack (readMember (readValue depth)) p.1 p.2 := by
      intro p hp
      obtain ⟨q, hq, rfl⟩ := List.mem_map.mp hp
      exact readsBack_writeMember (h q hq)
    have hlen : items.length ≤ (joinComma (items.map Prod.fst) ++ closeBrace :: rest).length + 1 := by
      have hjoin := length_le_joinComma (items.map Prod.fst)
      rw [List.length_map] at hjoin
      rw [List.length_append]
      omega
    obtain ⟨tail, htail⟩ : ∃ tail, joinComma (items.map Prod.fst) ++ closeBrace :: rest = quote :: tail := by
      cases members <;> exact ⟨_, rfl⟩
    have hseq := readSeq_joinComma (show isJsonSpace closeBrace = false by decide) (by decide)
      (follows_cons (by decide)) (by simp [items]) hreads hlen rest
    rw [htail] at hseq
    rw [hfst, hsnd, htail, skipSpace_cons (by decide)]
    dsimp only
    rw [if_neg (by decide), hseq, mapValue]

theorem readsBack_writeObject (depth : Nat) (members : List (String × List UInt8 × Json))
    (h : ∀ m ∈ members, ReadsBack (readValue depth) m.2.1 m.2.2) :
    ReadsBack (readValue (depth + 1)) (writeObject (members.map fun m => (m.1, m.2.1)))
      (.obj (members.map fun m => (m.1, m.2.2))) :=
  fun rest _ => readValue_writeObject depth members h rest

/-- A text that is read whole is the text of its value. -/
theorem readText_of_readsBack {text : List UInt8} {v : Json} (h : ReadsBack readJson text v) :
    readText text = .value v false := by
  have hread := h [] (by intro b hb; cases hb)
  rw [List.append_nil] at hread
  rw [readText, hread]
  rfl

end Meridian.Lib
