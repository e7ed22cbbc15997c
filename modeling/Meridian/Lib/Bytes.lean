import Mathlib.Data.List.Basic

/-! Byte buffers: reading one byte, reading and writing little-endian words, and overwriting a range
    in place. Reads past the end give zero; the callers check their bounds first. -/

namespace Meridian.Lib

def byteAt (d : List UInt8) (i : Nat) : UInt8 := d.getD i 0

theorem forall_byte {P : UInt8 → Prop} (h : ∀ n : Fin 256, P (UInt8.ofNat n)) (b : UInt8) : P b := by
  have := h ⟨b.toNat, b.toNat_lt⟩
  rwa [UInt8.ofNat_toNat] at this

/-- The 16-bit word in memory at offset `i`, little-endian. -/
def loadU16 (d : List UInt8) (i : Nat) : UInt16 :=
  UInt16.ofNat ((byteAt d i).toNat + 256 * (byteAt d (i + 1)).toNat)

def loadU32 (d : List UInt8) (i : Nat) : UInt32 :=
  UInt32.ofNat ((byteAt d i).toNat + 256 * (byteAt d (i + 1)).toNat + 65536 * (byteAt d (i + 2)).toNat +
    16777216 * (byteAt d (i + 3)).toNat)

def bytesU16 (x : UInt16) : List UInt8 := [UInt8.ofNat (x.toNat % 256), UInt8.ofNat (x.toNat / 256)]

def bytesU32 (x : UInt32) : List UInt8 :=
  [UInt8.ofNat (x.toNat % 256), UInt8.ofNat (x.toNat / 256 % 256), UInt8.ofNat (x.toNat / 65536 % 256),
    UInt8.ofNat (x.toNat / 16777216)]

/-- The other byte order of a 16-bit word. -/
def swapU16 (x : UInt16) : UInt16 := UInt16.ofNat (x.toNat / 256 + 256 * (x.toNat % 256))

def swapU32 (x : UInt32) : UInt32 :=
  UInt32.ofNat (x.toNat / 16777216 + 256 * (x.toNat / 65536 % 256) + 65536 * (x.toNat / 256 % 256) +
    16777216 * (x.toNat % 256))

/-- Four bytes in the order in which they stand in memory. -/
structure Quad where
  b0 : UInt8
  b1 : UInt8
  b2 : UInt8
  b3 : UInt8
  deriving DecidableEq, Repr

def quadAt (d : List UInt8) (i : Nat) : Quad := ⟨byteAt d i, byteAt d (i + 1), byteAt d (i + 2), byteAt d (i + 3)⟩

def Quad.reverse (q : Quad) : Quad := ⟨q.b3, q.b2, q.b1, q.b0⟩

/-- The bytes of a word from the least significant on. -/
def Quad.littleEndian (x : UInt32) : Quad :=
  ⟨UInt8.ofNat (x.toNat % 256), UInt8.ofNat (x.toNat / 256 % 256), UInt8.ofNat (x.toNat / 65536 % 256),
    UInt8.ofNat (x.toNat / 16777216)⟩

/-- The bytes of a word from the most significant on. -/
def Quad.bigEndian (x : UInt32) : Quad :=
  ⟨UInt8.ofNat (x.toNat / 16777216), UInt8.ofNat (x.toNat / 65536 % 256), UInt8.ofNat (x.toNat / 256 % 256),
    UInt8.ofNat (x.toNat % 256)⟩

/-- The buffer with `bs` written over the bytes from offset `off` on. -/
def overwrite (d : List UInt8) (off : Nat) (bs : List UInt8) : List UInt8 :=
  d.take off ++ bs ++ d.drop (off + bs.length)

/-! ### Words -/

theorem toNat_swapU16 (x : UInt16) : (swapU16 x).toNat = x.toNat / 256 + 256 * (x.toNat % 256) := by
  have hx := x.toNat_lt
  simp only [swapU16, UInt16.toNat_ofNat']
  omega

theorem toNat_swapU32 (x : UInt32) :
    (swapU32 x).toNat = x.toNat / 16777216 + 256 * (x.toNat / 65536 % 256) + 65536 * (x.toNat / 256 % 256) +
      16777216 * (x.toNat % 256) := by
  have hx := x.toNat_lt
  simp only [swapU32, UInt32.toNat_ofNat']
  omega

theorem swapU16_swapU16 (x : UInt16) : swapU16 (swapU16 x) = x := by
  have hx := x.toNat_lt
  apply UInt16.toNat_inj.mp
  rw [toNat_swapU16, toNat_swapU16]
  omega

theorem swapU32_swapU32 (x : UInt32) : swapU32 (swapU32 x) = x := by
  -- The four digits of the swapped word, base 256, are those of `x` in reverse.
  have digits : ∀ a b c d : Nat, a < 256 → b < 256 → c < 256 → d < 256 →
      (a + 256 * b + 65536 * c + 16777216 * d) / 16777216 = d ∧
      (a + 256 * b + 65536 * c + 16777216 * d) / 65536 % 256 = c ∧
      (a + 256 * b + 65536 * c + 16777216 * d) / 256 % 256 = b ∧
      (a + 256 * b + 65536 * c + 16777216 * d) % 256 = a := by
    intro a b c d ha hb hc hd
    omega
  have hx := x.toNat_lt
  obtain ⟨h3, h2, h1, h0⟩ := digits (x.toNat / 16777216) (x.toNat / 65536 % 256) (x.toNat / 256 % 256)
    (x.toNat % 256) (by omega) (by omega) (by omega) (by omega)
  apply UInt32.toNat_inj.mp
  rw [toNat_swapU32, toNat_swapU32, h3, h2, h1, h0]
  clear digits h3 h2 h1 h0
  omega

theorem littleEndian_loadU32 (d : List UInt8) (i : Nat) : Quad.littleEndian (loadU32 d i) = quadAt d i := by
  have h0 := (byteAt d i).toNat_lt
  have h1 := (byteAt d (i + 1)).toNat_lt
  have h2 := (byteAt d (i + 2)).toNat_lt
  have h3 := (byteAt d (i + 3)).toNat_lt
  have hword : (loadU32 d i).toNat = (byteAt d i).toNat + 256 * (byteAt d (i + 1)).toNat +
      65536 * (byteAt d (i + 2)).toNat + 16777216 * (byteAt d (i + 3)).toNat := by
    rw [loadU32, UInt32.toNat_ofNat']
    omega
  rw [Quad.littleEndian, hword, quadAt, Quad.mk.injEq]
  refine ⟨UInt8.toNat_inj.mp ?_, UInt8.toNat_inj.mp ?_, UInt8.toNat_inj.mp ?_, UInt8.toNat_inj.mp ?_⟩ <;>
    rw [UInt8.toNat_ofNat'] <;> omega

theorem Quad.reverse_eq_iff {q : Quad} : q.reverse = q ↔ q.b0 = q.b3 ∧ q.b1 = q.b2 := by
  obtain ⟨b0, b1, b2, b3⟩ := q
  simp only [Quad.reverse, Quad.mk.injEq]
  constructor
  · rintro ⟨-, -, h1, h0⟩
    exact ⟨h0, h1⟩
  · rintro ⟨rfl, rfl⟩
    exact ⟨rfl, rfl, rfl, rfl⟩

theorem swapU16_inj {x y : UInt16} (h : swapU16 x = swapU16 y) : x = y := by
  rw [← swapU16_swapU16 x, h, swapU16_swapU16]

variable {i : Nat} {d d' : List UInt8} {i i' : Nat}

theorem loadU32_of_bytes {x : UInt32} (h : ∀ j < 4, byteAt d (i + j) = (bytesU32 x).getD j 0) : loadU32 d i = x := by
  have hx := x.toNat_lt
  have h0 := h 0 (by omega)
  have h1 := h 1 (by omega)
  have h2 := h 2 (by omega)
  have h3 := h 3 (by omega)
  simp only [bytesU32, List.getD_cons_zero, List.getD_cons_succ, Nat.add_zero] at h0 h1 h2 h3
  apply UInt32.toNat_inj.mp
  simp only [loadU32, h0, h1, h2, h3, UInt32.toNat_ofNat', UInt8.toNat_ofNat']
  omega

theorem loadU16_congr (h0 : byteAt d i = byteAt d' i') (h1 : byteAt d (i + 1) = byteAt d' (i' + 1)) :
    loadU16 d i = loadU16 d' i' := by
  simp only [loadU16, h0, h1]

theorem loadU32_congr (h : ∀ j < 4, byteAt d (i + j) = byteAt d' (i' + j)) : loadU32 d i = loadU32 d' i' := by
  have h0 := h 0 (by omega)
  rw [Nat.add_zero, Nat.add_zero] at h0
  simp only [loadU32, h0, h 1 (by omega), h 2 (by omega), h 3 (by omega)]

theorem byteAt_of_loadU16_eq (h : loadU16 d i = loadU16 d' i') :
    byteAt d i = byteAt d' i' ∧ byteAt d (i + 1) = byteAt d' (i' + 1) := by
  have hword := congrArg UInt16.toNat h
  have hb0 := (byteAt d i).toNat_lt
  have hb1 := (byteAt d (i + 1)).toNat_lt
  have hb0' := (byteAt d' i').toNat_lt
  have hb1' := (byteAt d' (i' + 1)).toNat_lt
  simp only [loadU16, UInt16.toNat_ofNat'] at hword
  exact ⟨UInt8.toNat_inj.mp (by omega), UInt8.toNat_inj.mp (by omega)⟩

theorem ext_byteAt (hlen : d.length = d'.length) (h : ∀ i < d.length, byteAt d i = byteAt d' i) : d = d' := by
  refine List.ext_getElem hlen fun i hi hi' => ?_
  have hbyte := h i hi
  simpa only [byteAt, List.getD_eq_getElem?_getD, List.getElem?_eq_getElem hi, List.getElem?_eq_getElem hi',
    Option.getD_some] using hbyte

/-! ### Suffixes -/

theorem byteAt_drop (d : List UInt8) (n i : Nat) : byteAt (d.drop n) i = byteAt d (n + i) := by
  simp [byteAt, List.getD_eq_getElem?_getD, List.getElem?_drop]

theorem byteAt_append_left {e : List UInt8} (h : i < d.length) : byteAt (d ++ e) i = byteAt d i := by
  simp [byteAt, List.getD_eq_getElem?_getD, List.getElem?_append_left h]

theorem byteAt_append_right {e : List UInt8} (h : d.length ≤ i) : byteAt (d ++ e) i = byteAt e (i - d.length) := by
  simp [byteAt, List.getD_eq_getElem?_getD, List.getElem?_append_right h]

theorem byteAt_take {n : Nat} (h : i < n) : byteAt (d.take n) i = byteAt d i := by
  simp [byteAt, List.getD_eq_getElem?_getD, h]

theorem byteAt_of_drop_eq {n n' : Nat} (h : d.drop n = d'.drop n') (i : Nat) : byteAt d (n + i) = byteAt d' (n' + i) := by
  rw [← byteAt_drop, h, byteAt_drop]

/-! ### Overwriting -/

section
variable {d bs : List UInt8} {off i n : Nat}

section
variable (h : off + bs.length ≤ d.length)
include h

theorem length_overwrite : (overwrite d off bs).length = d.length := by
  simp only [overwrite, List.length_append, List.length_take, List.length_drop]
  omega

theorem byteAt_overwrite_lt (hi : i < off) : byteAt (overwrite d off bs) i = byteAt d i := by
  have hlen : i < (d.take off ++ bs).length := by
    simp only [List.length_append, List.length_take]
    omega
  have hlen' : i < (d.take off).length := by
    simp only [List.length_take]
    omega
  rw [overwrite, byteAt_append_left hlen, byteAt_append_left hlen', byteAt_take hi]

theorem byteAt_overwrite_mid (hi : i < bs.length) : byteAt (overwrite d off bs) (off + i) = byteAt bs i := by
  have htake : (d.take off).length = off := by
    simp only [List.length_take]
    omega
  have hlen : off + i < (d.take off ++ bs).length := by
    simp only [List.length_append, htake]
    omega
  rw [overwrite, byteAt_append_left hlen, byteAt_append_right (by omega), htake, Nat.add_sub_cancel_left]

theorem drop_overwrite (hn : off + bs.length ≤ n) : (overwrite d off bs).drop n = d.drop n := by
  have hlen : (d.take off ++ bs).length = off + bs.length := by
    simp only [List.length_append, List.length_take]
    omega
  rw [overwrite, List.drop_append, List.drop_eq_nil_of_le (by omega), List.nil_append, List.drop_drop, hlen]
  congr 1
  omega

theorem byteAt_overwrite_ge (hi : off + bs.length ≤ i) : byteAt (overwrite d off bs) i = byteAt d i := by
  have := byteAt_of_drop_eq (drop_overwrite h (Nat.le_refl _)) (i - (off + bs.length))
  rwa [Nat.add_sub_cancel' hi] at this

end

/-- Overwriting bytes with what they are, and with nothing else, changes nothing. -/
theorem overwrite_eq_self_iff : overwrite d off bs = d ↔ bs = (d.drop off).take bs.length := by
  have hsplit : d.take off ++ (d.drop off).take bs.length ++ d.drop (off + bs.length) = d := by
    rw [List.append_assoc, ← List.drop_drop, List.take_append_drop, List.take_append_drop]
  constructor
  · intro heq
    rw [overwrite] at heq
    have hmid := List.append_inj_left' (heq.trans hsplit.symm) rfl
    exact List.append_cancel_left hmid
  · intro hbs
    rw [overwrite]
    nth_rewrite 1 [hbs]
    exact hsplit

theorem loadU16_overwrite_self (x : UInt16) (h : off + 2 ≤ d.length) :
    loadU16 (overwrite d off (bytesU16 x)) off = x := by
  have hx := x.toNat_lt
  have h0 := @byteAt_overwrite_mid d (bytesU16 x) off 0 h Nat.two_pos
  have h1 := @byteAt_overwrite_mid d (bytesU16 x) off 1 h Nat.one_lt_two
  rw [Nat.add_zero] at h0
  apply UInt16.toNat_inj.mp
  rw [loadU16, h0, h1]
  simp only [bytesU16, byteAt, List.getD_cons_zero, List.getD_cons_succ, UInt16.toNat_ofNat', UInt8.toNat_ofNat']
  omega

theorem overwrite_append {a b : List UInt8} (h : off + (a ++ b).length ≤ d.length) :
    overwrite (overwrite d off a) (off + a.length) b = overwrite d off (a ++ b) := by
  rw [List.length_append] at h
  have hlen : (d.take off ++ a).length = off + a.length := by
    rw [List.length_append, List.length_take]
    omega
  have hhead : (overwrite d off a).take (off + a.length) = d.take off ++ a := by
    rw [overwrite, ← hlen, List.take_left]
  have htail : (overwrite d off a).drop (off + a.length + b.length) = d.drop (off + (a ++ b).length) := by
    rw [drop_overwrite (by omega) (by omega), List.length_append, Nat.add_assoc]
  rw [overwrite, hhead, htail, overwrite, List.append_assoc (d.take off) a b]

end

/-! ### Buffers equal up to some offsets -/

/-- `d'` has the length and the bytes of `d`, except at the offsets in `S`. -/
structure SameOff (S : Nat → Prop) (d d' : List UInt8) : Prop where
  length : d'.length = d.length
  bytes : ∀ i, ¬S i → byteAt d' i = byteAt d i

namespace SameOff
variable {S T : Nat → Prop} {d d' d'' bs : List UInt8} {off n : Nat}

theorem refl (S : Nat → Prop) (d : List UInt8) : SameOff S d d := ⟨rfl, fun _ _ => rfl⟩

theorem trans (h : SameOff S d d') (h' : SameOff S d' d'') : SameOff S d d'' where
  length := h'.length.trans h.length
  bytes i hi := (h'.bytes i hi).trans (h.bytes i hi)

theorem mono (h : SameOff S d d') (hS : ∀ i, S i → T i) : SameOff T d d' where
  length := h.length
  bytes i hi := h.bytes i fun hs => hi (hS i hs)

theorem overwrite (h : off + bs.length ≤ d.length) :
    SameOff (fun i => off ≤ i ∧ i < off + bs.length) d (overwrite d off bs) where
  length := length_overwrite h
  bytes i hi := by
    by_cases hlt : i < off
    · exact byteAt_overwrite_lt h hlt
    · exact byteAt_overwrite_ge h (by omega)

theorem drop_eq (h : SameOff S d d') (hn : ∀ i, n ≤ i → ¬S i) : d'.drop n = d.drop n := by
  apply List.ext_getElem?
  intro i
  by_cases hi : n + i < d.length
  · have hi' : n + i < d'.length := by rw [h.length]; exact hi
    have hb := h.bytes (n + i) (hn _ (by omega))
    simp only [byteAt, List.getD_eq_getElem?_getD, List.getElem?_eq_getElem hi, List.getElem?_eq_getElem hi',
      Option.getD_some] at hb
    rw [List.getElem?_drop, List.getElem?_drop, List.getElem?_eq_getElem hi, List.getElem?_eq_getElem hi', hb]
  · have hi' : ¬n + i < d'.length := by rw [h.length]; exact hi
    rw [List.getElem?_drop, List.getElem?_drop, List.getElem?_eq_none (by omega), List.getElem?_eq_none (by omega)]

end SameOff

end Meridian.Lib
