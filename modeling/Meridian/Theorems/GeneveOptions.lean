import Meridian.Theorems.Transport

/-! The two Geneve option walks against the options themselves. A region is a list of bytes; an option
    is a block of it whose length its fourth byte gives. Egress counts the options of a region they tile,
    ingress reads the first identity option among the first four, and neither looks at a byte outside
    the region. -/

namespace Meridian.Bpf
open Lib

/-! ### Options of a region -/

/-- The length the fourth byte gives to the option in front of `r`: the header and its body words. -/
def optionSize (r : List UInt8) : Nat := 4 + 4 * ((byteAt r 3).toNat % 32)

/-- A whole option and nothing else. -/
def IsGeneveOption (o : List UInt8) : Prop := o.length = optionSize o

/-- The identity option of Meridian: class 0x4d52, type 1, one body word. -/
def IsIdentityTlv (o : List UInt8) : Prop :=
  byteAt o 0 = 0x4d ∧ byteAt o 1 = 0x52 ∧ byteAt o 2 = 1 ∧ (byteAt o 3).toNat % 32 = 1

/-- The body word of an option, most significant byte first. -/
def optionBody (o : List UInt8) : Nat :=
  16777216 * (byteAt o 4).toNat + 65536 * (byteAt o 5).toNat + 256 * (byteAt o 6).toNat + (byteAt o 7).toNat

/-- The options of the list, one after the other, are the region. -/
def Tiles (options : List (List UInt8)) (region : List UInt8) : Prop :=
  (∀ o ∈ options, IsGeneveOption o) ∧ options.flatten = region

/-- The first identity option of the region is among its first `n` options, which fit up to it, and
    carries `v`. -/
def FirstIdentity (region : List UInt8) (n : Nat) (v : UInt32) : Prop :=
  ∃ (before : List (List UInt8)) (o rest : List UInt8), region = before.flatten ++ (o ++ rest) ∧ before.length < n ∧
    (∀ b ∈ before, IsGeneveOption b ∧ ¬ IsIdentityTlv b) ∧ IsGeneveOption o ∧ IsIdentityTlv o ∧
    v.toNat = optionBody o

theorem optionSize_pos (r : List UInt8) : 4 ≤ optionSize r := Nat.le_add_right 4 _

variable {o : List UInt8} {r : List UInt8} {d : List UInt8}

theorem IsGeneveOption.four_le (ho : IsGeneveOption o) : 4 ≤ o.length := by
  rw [ho]
  exact optionSize_pos o

theorem optionSize_append (h : 4 ≤ o.length) (rest : List UInt8) : optionSize (o ++ rest) = optionSize o := by
  rw [optionSize, byteAt_append_left (by omega), optionSize]

/-- An option in front of a region is the block the region's own fourth byte delimits. -/
theorem IsGeneveOption.eq_take (ho : IsGeneveOption o) (rest : List UInt8) :
    o = (o ++ rest).take (optionSize (o ++ rest)) ∧ rest = (o ++ rest).drop (optionSize (o ++ rest)) := by
  have hsize : optionSize (o ++ rest) = o.length := by rw [optionSize_append ho.four_le, ho]
  rw [hsize, List.take_left, List.drop_left]
  exact ⟨rfl, rfl⟩

theorem IsGeneveOption.size_le (ho : IsGeneveOption o) (rest : List UInt8) :
    optionSize (o ++ rest) ≤ (o ++ rest).length := by
  rw [optionSize_append ho.four_le, ← ho, List.length_append]
  exact Nat.le_add_right _ _

theorem isGeneveOption_take (h : optionSize r ≤ r.length) : IsGeneveOption (r.take (optionSize r)) := by
  have hpos := optionSize_pos r
  rw [IsGeneveOption, List.length_take, Nat.min_eq_left h, optionSize, optionSize, byteAt_take]
  exact Nat.lt_of_lt_of_le (by omega) hpos

theorem tiles_nil_iff {options : List (List UInt8)} : Tiles options [] ↔ options = [] := by
  constructor
  · rintro ⟨hall, hflat⟩
    cases options with
    | nil => rfl
    | cons o tl =>
      have hlen := (hall o (List.mem_cons_self ..)).four_le
      rw [List.flatten_eq_nil_iff.mp hflat o (List.mem_cons_self ..)] at hlen
      cases hlen
  · rintro rfl
    exact ⟨by simp, rfl⟩

/-- A region that is not empty is tiled by the option in front of it and a tiling of what follows. -/
theorem tiles_iff_of_ne_nil {options : List (List UInt8)} (hr : r ≠ []) : Tiles options r ↔ optionSize r ≤ r.length ∧
      ∃ tl, options = r.take (optionSize r) :: tl ∧ Tiles tl (r.drop (optionSize r)) := by
  constructor
  · rintro ⟨hall, hflat⟩
    cases options with
    | nil => exact absurd hflat.symm hr
    | cons o tl =>
      obtain ⟨ho, htl⟩ := List.forall_mem_cons.mp hall
      rw [List.flatten_cons] at hflat
      subst hflat
      obtain ⟨heq, hdrop⟩ := ho.eq_take tl.flatten
      exact ⟨ho.size_le _, tl, by rw [← heq], htl, hdrop⟩
  · rintro ⟨hsize, tl, rfl, htl, hflat⟩
    refine ⟨List.forall_mem_cons.mpr ⟨isGeneveOption_take hsize, htl⟩, ?_⟩
    rw [List.flatten_cons, hflat, List.take_append_drop]

theorem isIdentityTlv_append (h : 4 ≤ o.length) (rest : List UInt8) : IsIdentityTlv (o ++ rest) ↔ IsIdentityTlv o := by
  simp only [IsIdentityTlv, byteAt_append_left (show 0 < o.length by omega),
    byteAt_append_left (show 1 < o.length by omega), byteAt_append_left (show 2 < o.length by omega),
    byteAt_append_left (show 3 < o.length by omega)]

theorem IsIdentityTlv.optionSize_eq (h : IsIdentityTlv o) : optionSize o = 8 := by
  obtain ⟨-, -, -, hlen⟩ := h
  rw [optionSize, hlen]

/-- One step of the search: the option in front is the identity option, or the search goes on behind it. -/
theorem firstIdentity_succ_iff {n : Nat} {v : UInt32} : FirstIdentity r (n + 1) v ↔ optionSize r ≤ r.length ∧
      ((IsIdentityTlv r ∧ v.toNat = optionBody r) ∨
        (¬ IsIdentityTlv r ∧ FirstIdentity (r.drop (optionSize r)) n v)) := by
  have htake : optionSize r ≤ r.length →
      (IsIdentityTlv (r.take (optionSize r)) ↔ IsIdentityTlv r) := by
    intro h
    rw [← isIdentityTlv_append (isGeneveOption_take h).four_le (r.drop (optionSize r)), List.take_append_drop]
  constructor
  · rintro ⟨before, o, rest, hr, hlen, hbefore, ho, hid, hv⟩
    cases before with
    | nil =>
      rw [List.flatten_nil, List.nil_append] at hr
      subst hr
      have hlen8 : o.length = 8 := by rw [ho, hid.optionSize_eq]
      refine ⟨ho.size_le rest, Or.inl ⟨(isIdentityTlv_append (by omega) rest).mpr hid, ?_⟩⟩
      simpa only [optionBody, byteAt_append_left (show 4 < o.length by omega),
        byteAt_append_left (show 5 < o.length by omega), byteAt_append_left (show 6 < o.length by omega),
        byteAt_append_left (show 7 < o.length by omega)] using hv
    | cons b before =>
      obtain ⟨⟨hb, hnot⟩, hrest⟩ := List.forall_mem_cons.mp hbefore
      rw [List.flatten_cons, List.append_assoc] at hr
      subst hr
      obtain ⟨-, hdrop⟩ := hb.eq_take (before.flatten ++ (o ++ rest))
      refine ⟨hb.size_le _, Or.inr ⟨fun h => hnot ((isIdentityTlv_append hb.four_le _).mp h), ?_⟩⟩
      rw [← hdrop]
      exact ⟨before, o, rest, rfl, by simpa using hlen, hrest, ho, hid, hv⟩
  · rintro ⟨hsize, (⟨hid, hv⟩ | ⟨hnot, before, o, rest, hr, hlen, hbefore, ho, hid, hv⟩)⟩
    · have hid' := (htake hsize).mpr hid
      refine ⟨[], r.take (optionSize r), r.drop (optionSize r), ?_, Nat.succ_pos n, by simp,
        isGeneveOption_take hsize, hid', ?_⟩
      · rw [List.flatten_nil, List.nil_append, List.take_append_drop]
      · rw [hid.optionSize_eq]
        simpa only [optionBody, byteAt_take (show 4 < 8 by omega), byteAt_take (show 5 < 8 by omega),
          byteAt_take (show 6 < 8 by omega), byteAt_take (show 7 < 8 by omega)] using hv
    · refine ⟨r.take (optionSize r) :: before, o, rest, ?_, Nat.succ_lt_succ hlen, ?_, ho, hid, hv⟩
      · rw [List.flatten_cons, List.append_assoc, ← hr, List.take_append_drop]
      · exact List.forall_mem_cons.mpr
          ⟨⟨isGeneveOption_take hsize, fun h => hnot ((htake hsize).mp h)⟩, hbefore⟩

theorem not_firstIdentity_zero {v : UInt32} : ¬ FirstIdentity r 0 v := by
  rintro ⟨before, o, rest, -, hlen, -⟩
  exact Nat.not_lt_zero _ hlen

/-! ### The walks -/

/-- The option bytes of the packet. -/
def optionRegion (d : List UInt8) (opts optBytes : Nat) : List UInt8 := (d.drop opts).take optBytes

theorem byteAt_optionRegion_drop {opts optBytes offset j : Nat} (h : offset + j < optBytes) :
    byteAt ((optionRegion d opts optBytes).drop offset) j = byteAt d (opts + offset + j) := by
  rw [byteAt_drop, optionRegion, byteAt_take h, byteAt_drop, Nat.add_assoc]

theorem length_optionRegion_drop {opts optBytes : Nat} (hd : opts + optBytes ≤ d.length) (offset : Nat) :
    ((optionRegion d opts optBytes).drop offset).length = optBytes - offset := by
  rw [optionRegion, List.length_drop, List.length_take, List.length_drop, Nat.min_eq_left (by omega)]

theorem optionSize_optionRegion (d : List UInt8) (opts : Nat) {optBytes offset : Nat} (h : offset + 4 ≤ optBytes) :
    optionSize ((optionRegion d opts optBytes).drop offset) = 4 + (byteAt d (opts + offset + 3)).toNat % 32 * 4 := by
  rw [optionSize, byteAt_optionRegion_drop (by omega), Nat.mul_comm]

theorem parseGeneveOptionCountLoop_of_gt {opts optBytes offset : Nat} (h : optBytes < offset) (n count : Nat) :
    parseGeneveOptionCountLoop d opts optBytes n offset count = none := by
  cases n with
  | zero => rw [parseGeneveOptionCountLoop, if_pos (by omega)]
  | succ n => rw [parseGeneveOptionCountLoop, if_neg (by omega), if_pos h]

theorem optionRegion_drop_ne_nil {opts optBytes offset : Nat} (hd : opts + optBytes ≤ d.length) (h : offset < optBytes) :
    (optionRegion d opts optBytes).drop offset ≠ [] := by
  rw [← List.length_pos_iff, length_optionRegion_drop hd]
  omega

/-- At the end of the region the walk stops with the count it has. -/
theorem parseGeneveOptionCountLoop_end_iff {opts optBytes n count m : Nat} (hd : opts + optBytes ≤ d.length) :
    parseGeneveOptionCountLoop d opts optBytes n optBytes count = some m ↔
      ∃ options, Tiles options ((optionRegion d opts optBytes).drop optBytes) ∧ options.length ≤ n ∧
        m = count + options.length := by
  have hnil : (optionRegion d opts optBytes).drop optBytes = [] := by
    rw [← List.length_eq_zero_iff, length_optionRegion_drop hd, Nat.sub_self]
  have hdone : parseGeneveOptionCountLoop d opts optBytes n optBytes count = some count := by
    cases n with
    | zero => rw [parseGeneveOptionCountLoop, if_neg (by simp)]
    | succ n => rw [parseGeneveOptionCountLoop, if_pos rfl]
  simp only [hdone, hnil, tiles_nil_iff, exists_eq_left, List.length_nil, Nat.zero_le, true_and, Nat.add_zero,
    Option.some.injEq]
  exact eq_comm

theorem isIdentityOption_iff (d : List UInt8) (opts : Nat) {optBytes offset : Nat} (h : offset + 4 ≤ optBytes) :
    isIdentityOption d (opts + offset) = true ↔ IsIdentityTlv ((optionRegion d opts optBytes).drop offset) := by
  have hclass : bpfHtons meridianGeneveClass = loadU16 [0x4d, 0x52] 0 := by decide
  simp only [isIdentityOption, IsIdentityTlv, Bool.and_eq_true, decide_eq_true_eq,
    byteAt_optionRegion_drop (show offset + 0 < optBytes by omega),
    byteAt_optionRegion_drop (show offset + 1 < optBytes by omega),
    byteAt_optionRegion_drop (show offset + 2 < optBytes by omega),
    byteAt_optionRegion_drop (show offset + 3 < optBytes by omega), Nat.add_zero, hclass]
  constructor
  · rintro ⟨⟨hload, htype⟩, hlen⟩
    obtain ⟨h0, h1⟩ := byteAt_of_loadU16_eq hload
    exact ⟨h0, h1, htype, hlen⟩
  · rintro ⟨h0, h1, htype, hlen⟩
    exact ⟨⟨loadU16_congr h0 h1, htype⟩, hlen⟩

theorem toNat_bpfNtohl_loadU32 (d : List UInt8) (i : Nat) :
    (bpfNtohl (loadU32 d i)).toNat = 16777216 * (byteAt d i).toNat + 65536 * (byteAt d (i + 1)).toNat +
      256 * (byteAt d (i + 2)).toNat + (byteAt d (i + 3)).toNat := by
  have h0 := (byteAt d i).toNat_lt
  have h1 := (byteAt d (i + 1)).toNat_lt
  have h2 := (byteAt d (i + 2)).toNat_lt
  have h3 := (byteAt d (i + 3)).toNat_lt
  rw [bpfNtohl, toNat_swapU32, loadU32, UInt32.toNat_ofNat']
  omega

section
variable {d : List UInt8} {opts optBytes : Nat} (hd : opts + optBytes ≤ d.length) (hw : optBytes % 4 = 0)
include hd hw

/-- By induction on the rounds: the offset stays a multiple of four, so a round that starts inside the
    region has a whole option header there. -/
theorem parseGeneveOptionCountLoop_iff {n offset count m : Nat} (hle : offset ≤ optBytes) (h4 : offset % 4 = 0) :
    parseGeneveOptionCountLoop d opts optBytes n offset count = some m ↔
      ∃ options, Tiles options ((optionRegion d opts optBytes).drop offset) ∧ options.length ≤ n ∧
        m = count + options.length := by
  induction n generalizing offset count with
  | zero =>
    rcases Nat.eq_or_lt_of_le hle with rfl | hlt
    · exact parseGeneveOptionCountLoop_end_iff hd
    · rw [parseGeneveOptionCountLoop, if_pos (by omega)]
      simp only [reduceCtorEq, Nat.le_zero_eq, List.length_eq_zero_iff, false_iff]
      rintro ⟨options, htiles, rfl, -⟩
      exact optionRegion_drop_ne_nil hd hlt htiles.2.symm
  | succ n ih =>
    rcases Nat.eq_or_lt_of_le hle with rfl | hlt
    · exact parseGeneveOptionCountLoop_end_iff hd
    · have hsize := optionSize_optionRegion d opts (show offset + 4 ≤ optBytes by omega)
      rw [parseGeneveOptionCountLoop, if_neg (by omega), if_neg (by omega)]
      dsimp only
      rw [if_neg (by omega), if_neg (by omega), ← hsize]
      simp only [tiles_iff_of_ne_nil (optionRegion_drop_ne_nil hd hlt), length_optionRegion_drop hd, List.drop_drop]
      by_cases hfits : offset + optionSize ((optionRegion d opts optBytes).drop offset) ≤ optBytes
      · rw [ih hfits (by omega)]
        constructor
        · rintro ⟨tl, htl, hlen, rfl⟩
          exact ⟨_ :: tl, ⟨by omega, tl, rfl, htl⟩, Nat.succ_le_succ hlen, by rw [List.length_cons]; omega⟩
        · rintro ⟨-, ⟨-, tl, rfl, htl⟩, hlen, rfl⟩
          exact ⟨tl, htl, Nat.le_of_succ_le_succ hlen, by rw [List.length_cons]; omega⟩
      · -- The option in front is longer than what is left of the region.
        rw [parseGeneveOptionCountLoop_of_gt (by omega)]
        simp only [reduceCtorEq, false_iff]
        rintro ⟨-, ⟨hfit, -⟩, -⟩
        omega

theorem parseGeneveIdentityLoop_iff {n offset : Nat} {v : UInt32} (hle : offset ≤ optBytes) (h4 : offset % 4 = 0) :
    parseGeneveIdentityLoop d opts optBytes n offset = some v ↔
      FirstIdentity ((optionRegion d opts optBytes).drop offset) n v := by
  induction n generalizing offset with
  | zero => simp only [parseGeneveIdentityLoop, reduceCtorEq, not_firstIdentity_zero]
  | succ n ih =>
    rw [firstIdentity_succ_iff, length_optionRegion_drop hd]
    rcases Nat.eq_or_lt_of_le hle with rfl | hlt
    · have hpos := optionSize_pos ((optionRegion d opts offset).drop offset)
      rw [parseGeneveIdentityLoop, if_pos (Nat.le_refl _)]
      simp only [reduceCtorEq, false_iff]
      rintro ⟨hfit, -⟩
      omega
    · have hsize := optionSize_optionRegion d opts (show offset + 4 ≤ optBytes by omega)
      by_cases hfits : offset + optionSize ((optionRegion d opts optBytes).drop offset) ≤ optBytes
      · rw [parseGeneveIdentityLoop_succ n hlt (by omega) hd]
        have hiff := isIdentityOption_iff d opts (show offset + 4 ≤ optBytes by omega)
        by_cases hid : isIdentityOption d (opts + offset) = true
        · have htlv := hiff.mp hid
          have hlong := htlv.optionSize_eq
          have hbody : optionBody ((optionRegion d opts optBytes).drop offset) =
              (bpfNtohl (loadU32 d (opts + offset + 4))).toNat := by
            rw [toNat_bpfNtohl_loadU32, optionBody, byteAt_optionRegion_drop (by omega),
              byteAt_optionRegion_drop (by omega), byteAt_optionRegion_drop (by omega),
              byteAt_optionRegion_drop (by omega)]
          rw [if_pos hid, hbody, UInt32.toNat_inj, Option.some.injEq]
          constructor
          · rintro rfl
            exact ⟨by omega, Or.inl ⟨htlv, rfl⟩⟩
          · rintro ⟨-, (⟨-, rfl⟩ | ⟨hnot, -⟩)⟩
            · rfl
            · exact absurd htlv hnot
        · have hnot : ¬ IsIdentityTlv ((optionRegion d opts optBytes).drop offset) :=
            fun h => hid (hiff.mpr h)
          rw [if_neg hid, ← hsize, ih hfits (by omega), List.drop_drop]
          simp only [hnot, false_and, not_false_eq_true, true_and, false_or]
          exact ⟨fun h => ⟨by omega, h⟩, fun h => h.2⟩
      · rw [parseGeneveIdentityLoop, if_neg (by omega)]
        dsimp only
        rw [if_neg (by omega), if_pos (by simp only [Bool.or_eq_true, decide_eq_true_eq]; omega)]
        simp only [reduceCtorEq, false_iff]
        rintro ⟨hfit, -⟩
        omega

end

/-! ### The bytes the walks look at

The same walks over a memory in which an address may be missing. A walk that looks at a missing byte
faults, which is the outer `none`. -/

def readOptionCountLoop (mem : Nat → Option UInt8) (dataEnd opts optBytes : Nat) : Nat → Nat → Nat → Option (Option Nat)
  | 0, offset, count => some (if offset ≠ optBytes then none else some count)
  | n + 1, offset, count =>
    if offset = optBytes then some (some count)
    else if offset > optBytes then some none
    else
      let opt := opts + offset
      if opt + 4 > dataEnd then some none
      else
        (mem (opt + 3)).bind fun b3 =>
        let optSize := 4 + b3.toNat % 32 * 4
        if optSize < 4 then some none
        else readOptionCountLoop mem dataEnd opts optBytes n (offset + optSize) (count + 1)

def readOptionCount (mem : Nat → Option UInt8) (dataEnd opts optBytes : Nat) : Option (Option Nat) :=
  readOptionCountLoop mem dataEnd opts optBytes 4 0 0

/-- The body of the identity option, copied byte by byte. -/
def readBody (mem : Nat → Option UInt8) (i : Nat) : Option UInt32 :=
  (mem i).bind fun b0 => (mem (i + 1)).bind fun b1 => (mem (i + 2)).bind fun b2 => (mem (i + 3)).bind fun b3 =>
    some (bpfNtohl (loadU32 [b0, b1, b2, b3] 0))

def readIdentityLoop (mem : Nat → Option UInt8) (dataEnd opts optBytes : Nat) : Nat → Nat → Option (Option UInt32)
  | 0, _ => some none
  | n + 1, offset =>
    if offset ≥ optBytes then some none
    else
      let opt := opts + offset
      if opt + 4 > dataEnd then some none
      else
        (mem (opt + 3)).bind fun b3 =>
        let optLenWords := b3.toNat % 32
        let optSize := 4 + optLenWords * 4
        if optSize < 4 || offset + optSize > optBytes then some none
        else
          (mem opt).bind fun b0 => (mem (opt + 1)).bind fun b1 =>
          -- The type is looked at only when the class is the one of Meridian.
          (if loadU16 [b0, b1] 0 = bpfHtons meridianGeneveClass then
            (mem (opt + 2)).map fun b2 => b2 = meridianOptIdentity && optLenWords = meridianGeneveIdentityLenWords
          else some false).bind fun found =>
          if found then
            if opt + meridianGeneveOptBytes > dataEnd then some none
            else (readBody mem (opt + 4)).map some
          else readIdentityLoop mem dataEnd opts optBytes n (offset + optSize)

def readIdentity (mem : Nat → Option UInt8) (dataEnd opts optBytes : Nat) : Option (Option UInt32) :=
  readIdentityLoop mem dataEnd opts optBytes 4 0

section
variable {d : List UInt8} {opts optBytes : Nat} {mem : Nat → Option UInt8}

theorem readOptionCountLoop_eq (hw : optBytes % 4 = 0)
    (hmem : ∀ i, opts ≤ i → i < opts + optBytes → mem i = some (byteAt d i)) {n offset count : Nat}
    (h4 : offset % 4 = 0) :
    readOptionCountLoop mem d.length opts optBytes n offset count =
      some (parseGeneveOptionCountLoop d opts optBytes n offset count) := by
  induction n generalizing offset count with
  | zero => rfl
  | succ n ih =>
    rw [readOptionCountLoop, parseGeneveOptionCountLoop]
    split
    · rfl
    · split
      · rfl
      · dsimp only
        split
        · rfl
        · rw [hmem _ (by omega) (by omega), Option.bind_some, if_neg (by omega), if_neg (by omega), ih (by omega)]

theorem readBody_eq {i : Nat} (h : ∀ j < 4, mem (i + j) = some (byteAt d (i + j))) :
    readBody mem i = some (bpfNtohl (loadU32 d i)) := by
  rw [readBody, ← Nat.add_zero i, h 0 (by omega), Nat.add_zero, h 1 (by omega), h 2 (by omega), h 3 (by omega)]
  rfl

theorem readIdentityLoop_eq (hd : opts + optBytes ≤ d.length) (hw : optBytes % 4 = 0)
    (hmem : ∀ i, opts ≤ i → i < opts + optBytes → mem i = some (byteAt d i)) {n offset : Nat} (h4 : offset % 4 = 0) :
    readIdentityLoop mem d.length opts optBytes n offset = some (parseGeneveIdentityLoop d opts optBytes n offset) := by
  induction n generalizing offset with
  | zero => rfl
  | succ n ih =>
    rw [readIdentityLoop]
    by_cases hend : offset ≥ optBytes
    · rw [if_pos hend, parseGeneveIdentityLoop, if_pos hend]
    · have h0 := hmem (opts + offset) (by omega) (by omega)
      have h1 := hmem (opts + offset + 1) (by omega) (by omega)
      have h2 := hmem (opts + offset + 2) (by omega) (by omega)
      have h3 := hmem (opts + offset + 3) (by omega) (by omega)
      have hload : loadU16 [byteAt d (opts + offset), byteAt d (opts + offset + 1)] 0 = loadU16 d (opts + offset) := rfl
      rw [if_neg hend]
      dsimp only
      rw [if_neg (by omega), h3, Option.bind_some]
      by_cases hfits : offset + (4 + (byteAt d (opts + offset + 3)).toNat % 32 * 4) ≤ optBytes
      · rw [if_neg (by simp only [Bool.or_eq_true, decide_eq_true_eq]; omega), h0, h1, h2, Option.bind_some,
          Option.bind_some, Option.map_some, hload, parseGeneveIdentityLoop_succ n (by omega) hfits hd]
        have hfound : (if loadU16 d (opts + offset) = bpfHtons meridianGeneveClass then
            some (decide (byteAt d (opts + offset + 2) = meridianOptIdentity) &&
              decide ((byteAt d (opts + offset + 3)).toNat % 32 = meridianGeneveIdentityLenWords))
            else some false) = some (isIdentityOption d (opts + offset)) := by
          rw [isIdentityOption]
          split <;> simp_all
        rw [hfound, Option.bind_some]
        by_cases hid : isIdentityOption d (opts + offset) = true
        · have hlen := bodyWords_of_isIdentityOption hid
          rw [if_pos hid, if_pos hid, if_neg (by simp only [meridianGeneveOptBytes]; omega),
            readBody_eq (d := d) (fun j hj => hmem _ (by omega) (by omega)), Option.map_some]
        · rw [if_neg hid, if_neg hid, ih (by omega)]
      · rw [if_pos (by simp only [Bool.or_eq_true, decide_eq_true_eq]; omega), parseGeneveIdentityLoop, if_neg hend]
        dsimp only
        rw [if_neg (by omega), if_pos (by simp only [Bool.or_eq_true, decide_eq_true_eq]; omega)]

end

/-- The two walks, over a region of whole words inside the packet. -/
theorem option_walks_exact {d : List UInt8} {opts optBytes w : Nat} (hw : optBytes = 4 * w)
    (hd : opts + optBytes ≤ d.length) :
    (∀ n, parseGeneveOptionCount d opts optBytes = some n ↔
      (∃ options, Tiles options (optionRegion d opts optBytes) ∧ options.length = n) ∧ n ≤ 4) ∧
    (∀ v, parseGeneveIdentity d opts optBytes = some v ↔ FirstIdentity (optionRegion d opts optBytes) 4 v) ∧
    ∀ mem : Nat → Option UInt8, (∀ i, opts ≤ i → i < opts + optBytes → mem i = some (byteAt d i)) →
      readOptionCount mem d.length opts optBytes = some (parseGeneveOptionCount d opts optBytes) ∧
      readIdentity mem d.length opts optBytes = some (parseGeneveIdentity d opts optBytes) := by
  have h4 : optBytes % 4 = 0 := by omega
  refine ⟨fun n => ?_, fun v => ?_, fun mem hmem => ⟨?_, ?_⟩⟩
  · rw [parseGeneveOptionCount, parseGeneveOptionCountLoop_iff hd h4 (Nat.zero_le _) rfl, List.drop_zero]
    simp only [Nat.zero_add]
    constructor
    · rintro ⟨options, htiles, hle, rfl⟩
      exact ⟨⟨options, htiles, rfl⟩, hle⟩
    · rintro ⟨⟨options, htiles, rfl⟩, hle⟩
      exact ⟨options, htiles, hle, rfl⟩
  · rw [parseGeneveIdentity, parseGeneveIdentityLoop_iff hd h4 (Nat.zero_le _) rfl, List.drop_zero]
  · exact readOptionCountLoop_eq h4 hmem rfl
  · exact readIdentityLoop_eq hd h4 hmem rfl

/-- A region of an unknown option followed by the identity option with the value 7. -/
theorem option_walks_exact_two :
    let d : List UInt8 := [0x01, 0x02, 0x03, 0x00, 0x4d, 0x52, 0x01, 0x01, 0x00, 0x00, 0x00, 0x07]
    12 = 4 * 3 ∧ 0 + 12 ≤ d.length ∧ parseGeneveOptionCount d 0 12 = some 2 ∧ parseGeneveIdentity d 0 12 = some 7 ∧
    FirstIdentity (optionRegion d 0 12) 4 7 := by
  have hid : parseGeneveIdentity [0x01, 0x02, 0x03, 0x00, 0x4d, 0x52, 0x01, 0x01, 0x00, 0x00, 0x00, 0x07] 0 12 = some 7 := by
    decide
  exact ⟨rfl, by decide, by decide, hid, ((option_walks_exact (w := 3) rfl (by decide)).2.1 7).mp hid⟩

end Meridian.Bpf
