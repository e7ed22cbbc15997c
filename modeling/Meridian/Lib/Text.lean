/-! Text as the Go standard library treats it: white space, lower case as far as it can yield a letter of ASCII, and
    decimal numbers. -/

namespace Meridian.Lib

/-- `unicode.IsSpace` -/
def isSpace (c : Char) : Bool :=
  let n := c.toNat
  (0x09 ≤ n && n ≤ 0x0d) || n = 0x20 || n = 0x85 || n = 0xa0 || n = 0x1680 || (0x2000 ≤ n && n ≤ 0x200a) ||
    n = 0x2028 || n = 0x2029 || n = 0x202f || n = 0x205f || n = 0x3000

/-- `strings.TrimSpace` -/
def trimSpace (s : List Char) : List Char := ((s.dropWhile isSpace).reverse.dropWhile isSpace).reverse

/-- `unicode.ToLower` where the result is a letter of ASCII: besides the capitals only the dotted capital I and the
    Kelvin sign have one. Other characters stay, as they never become one. -/
def lowerAscii (c : Char) : Char :=
  if 'A' ≤ c && c ≤ 'Z' then Char.ofNat (c.toNat + 32)
  else if c.toNat = 0x130 then 'i'
  else if c.toNat = 0x212a then 'k'
  else c

/-- The bytes of a text. -/
def utf8 (s : String) : List UInt8 := s.toList.flatMap String.utf8EncodeChar

theorem utf8_injective : Function.Injective utf8 := by
  intro s t h
  have hbytes : s.toList.utf8Encode = t.toList.utf8Encode := congrArg List.toByteArray h
  rw [String.utf8Encode_toList, String.utf8Encode_toList] at hbytes
  exact String.toByteArray_inj.mp hbytes

/-- `%d` -/
def decimal (n : Nat) : String := String.ofList (Nat.toDigits 10 n)

def readDecimal (s : String) : Option Nat :=
  if s.toList ≠ [] && s.toList.all Char.isDigit then some (Nat.ofDigitChars 10 s.toList 0) else none

@[simp] theorem readDecimal_decimal (n : Nat) : readDecimal (decimal n) = some n := by
  have hdigits : (Nat.toDigits 10 n).all Char.isDigit = true :=
    List.all_eq_true.mpr fun c hc => Nat.isDigit_of_mem_toDigits (by decide) (by decide) hc
  simp [readDecimal, decimal, Nat.toDigits_ne_nil, hdigits, Nat.ofDigitChars_ten_toDigits]

theorem decimal_injective : Function.Injective decimal := by
  intro m n h
  exact Option.some.inj (by rw [← readDecimal_decimal, h, readDecimal_decimal])

theorem append_cons_inj {A : Type} {c : A} {s t s' t' : List A} (hs : c ∉ s) (ht : c ∉ t)
    (h : s ++ c :: s' = t ++ c :: t') : s = t ∧ s' = t' := by
  induction s generalizing t with
  | nil =>
    cases t with
    | nil => exact ⟨rfl, (List.cons.inj h).2⟩
    | cons y t => exact absurd ((List.cons.inj h).1 ▸ List.mem_cons_self) ht
  | cons x s ih =>
    cases t with
    | nil => exact absurd ((List.cons.inj h).1 ▸ List.mem_cons_self) hs
    | cons y t =>
      obtain ⟨rfl, htail⟩ := List.cons.inj h
      obtain ⟨rfl, hrest⟩ :=
        ih (fun hmem => hs (List.mem_cons_of_mem _ hmem)) (fun hmem => ht (List.mem_cons_of_mem _ hmem)) htail
      exact ⟨rfl, hrest⟩

theorem infix_append_cons_iff {A : Type} {c : A} {w l rest : List A} (hc : c ∉ w) :
    w <:+: l ++ c :: rest ↔ w <:+: l ∨ w <:+: rest := by
  constructor
  · rintro ⟨a, b, h⟩
    obtain ⟨y, hl, -⟩ | ⟨y, haw, hrest⟩ := List.append_eq_append_iff.mp h
    · exact .inl ⟨a, y, hl.symm⟩
    · cases y with
      | nil => exact .inl ⟨a, [], by simpa using haw⟩
      | cons d y =>
        -- The word reaches over `c`, so it begins behind it.
        obtain ⟨rfl, htail⟩ := List.cons.inj hrest
        obtain ⟨z, -, hwz⟩ | ⟨z, -, hz⟩ := List.append_eq_append_iff.mp haw
        · exact absurd (hwz ▸ List.mem_append_right z List.mem_cons_self) hc
        · cases z with
          | nil =>
            rw [List.nil_append] at hz
            exact absurd (hz ▸ List.mem_cons_self) hc
          | cons d z =>
            obtain ⟨rfl, rfl⟩ := List.cons.inj hz
            exact .inr ⟨z, b, htail.symm⟩
  · rintro (h | h)
    · exact h.trans (List.prefix_append _ _).isInfix
    · exact h.trans ((List.suffix_cons c rest).trans (List.suffix_append _ _)).isInfix

/-- A number is read back up to the character that ends it. -/
theorem decimal_append_cons_inj {c : Char} (hc : c.isDigit = false) {m n : Nat} {s t : List Char}
    (h : (decimal m).toList ++ c :: s = (decimal n).toList ++ c :: t) : m = n ∧ s = t := by
  have hend : ∀ k, c ∉ (decimal k).toList := by
    intro k hmem
    rw [decimal, String.toList_ofList] at hmem
    exact absurd (Nat.isDigit_of_mem_toDigits (by decide) (by decide) hmem) (by rw [hc]; exact Bool.false_ne_true)
  obtain ⟨hdigits, hrest⟩ := append_cons_inj (hend m) (hend n) h
  exact ⟨decimal_injective (String.toList_inj.mp hdigits), hrest⟩

end Meridian.Lib
