import Mathlib.Data.List.TakeWhile
import Meridian.Lib.Bytes

/-! URLs as Go's `net/url` reads and writes them: percent escapes, the cut of a text into scheme, authority, path,
    query and fragment, and that a text which was read and written again is read the same way. Texts are byte
    strings. The authority has a syntax of its own, which is a parameter. -/

namespace Meridian.Lib

/-- The bytes of a text of ASCII characters. -/
def ascii (s : String) : List UInt8 := s.toList.map fun c => UInt8.ofNat c.toNat

namespace Url

def hash : UInt8 := 35
def percent : UInt8 := 37
def slash : UInt8 := 47
def colon : UInt8 := 58
def question : UInt8 := 63

/-! ### Escapes -/

def isAlpha (c : UInt8) : Bool := (97 ≤ c && c ≤ 122) || (65 ≤ c && c ≤ 90)
def isDigit (c : UInt8) : Bool := 48 ≤ c && c ≤ 57
def isHex (c : UInt8) : Bool := isDigit c || (97 ≤ c && c ≤ 102) || (65 ≤ c && c ≤ 70)

def unhex (c : UInt8) : UInt8 := if isDigit c then c - 48 else if 97 ≤ c then c - 87 else c - 55

def upperhex (n : UInt8) : UInt8 := if n < 10 then n + 48 else n + 55

inductive Encoding where
  | path
  | fragment
  deriving DecidableEq, Repr

def shouldEscape (mode : Encoding) (c : UInt8) : Bool :=
  if isAlpha c || isDigit c || (ascii "-_.~").contains c then false
  else if (ascii "$&+,/:;=?@").contains c then mode = .path && c = question
  else if mode = .fragment && (ascii "!()*").contains c then false
  else true

def escapeByte (mode : Encoding) (c : UInt8) : List UInt8 :=
  if shouldEscape mode c then [percent, upperhex (c / 16), upperhex (c % 16)] else [c]

def escape (mode : Encoding) (s : List UInt8) : List UInt8 := s.flatMap (escapeByte mode)

/-- The decoded text, unless a percent sign is not followed by two hexadecimal digits. -/
def unescape : List UInt8 → Option (List UInt8)
  | [] => some []
  | c :: rest =>
    if c = percent then
      match rest with
      | a :: b :: rest => if isHex a && isHex b then (unescape rest).map ((unhex a * 16 + unhex b) :: ·) else none
      | _ => none
    else (unescape rest).map (c :: ·)

/-- The text could be the encoding of a path or fragment. -/
def validEncoded (mode : Encoding) (s : List UInt8) : Bool :=
  s.all fun c => (ascii "!$&'()*+,;=:@[]%").contains c || !shouldEscape mode c

theorem unescape_percent {a b : UInt8} {rest : List UInt8} (ha : isHex a = true) (hb : isHex b = true) :
    unescape (percent :: a :: b :: rest) = (unescape rest).map ((unhex a * 16 + unhex b) :: ·) := by
  rw [unescape, if_pos rfl, ha, hb]
  rfl

variable {c : UInt8} {mode : Encoding} {s : List UInt8} {p : List UInt8} {e : Escaped} {A : AuthoritySyntax} {t : List UInt8}

theorem unescape_literal {rest : List UInt8} (hc : c ≠ percent) : unescape (c :: rest) = (unescape rest).map (c :: ·) := by
  rcases rest with _ | ⟨a, _ | ⟨b, rest⟩⟩ <;> simp only [unescape, if_neg hc]

theorem isHex_upperhex : ∀ c : UInt8, isHex (upperhex (c / 16)) = true ∧ isHex (upperhex (c % 16)) = true :=
  forall_byte (by decide +kernel)

theorem unhex_upperhex : ∀ c : UInt8, unhex (upperhex (c / 16)) * 16 + unhex (upperhex (c % 16)) = c :=
  forall_byte (by decide +kernel)

theorem shouldEscape_percent (mode : Encoding) : shouldEscape mode percent = true := by
  cases mode <;> decide

theorem unescape_escape (mode : Encoding) (s : List UInt8) : unescape (escape mode s) = some s := by
  induction s with
  | nil => rfl
  | cons c rest ih =>
    rw [escape, List.flatMap_cons, escapeByte, ← escape]
    cases hesc : shouldEscape mode c with
    | true =>
      obtain ⟨hhigh, hlow⟩ := isHex_upperhex c
      simp only [if_true, List.cons_append, List.nil_append]
      rw [unescape_percent hhigh hlow, ih, unhex_upperhex]
      rfl
    | false =>
      have hne : c ≠ percent := fun heq => by
        rw [heq, shouldEscape_percent] at hesc
        cases hesc
      simp only [Bool.false_eq_true, if_false, List.cons_append, List.nil_append]
      rw [unescape_literal hne, ih]
      rfl

theorem upperhex_plain (mode : Encoding) : ∀ c : UInt8, shouldEscape mode (upperhex (c / 16)) = false ∧
    shouldEscape mode (upperhex (c % 16)) = false := by
  cases mode <;> exact forall_byte (by decide +kernel)

/-- An escaped text has percent signs and bytes that need no escape. -/
theorem mem_escape (h : c ∈ escape mode s) : c = percent ∨ shouldEscape mode c = false := by
  obtain ⟨b, -, hb⟩ := List.mem_flatMap.mp h
  unfold escapeByte at hb
  cases hesc : shouldEscape mode b with
  | true =>
    simp only [hesc, if_true, List.mem_cons, List.not_mem_nil, or_false] at hb
    rcases hb with rfl | rfl | rfl
    · exact .inl rfl
    · exact .inr (upperhex_plain mode b).1
    · exact .inr (upperhex_plain mode b).2
  | false =>
    simp only [hesc, Bool.false_eq_true, if_false, List.mem_singleton] at hb
    subst hb
    exact .inr hesc

/-! ### Decoded text with a hint of its encoding -/

/-- `Path` with `RawPath`, or `Fragment` with `RawFragment`: the raw text is kept when it is not the default
    encoding. -/
structure Escaped where
  decoded : List UInt8
  raw : List UInt8
  deriving DecidableEq, Repr

/-- `setPath`, `setFragment` -/
def setEscaped (mode : Encoding) (p : List UInt8) : Option Escaped :=
  (unescape p).map fun decoded => ⟨decoded, if p = escape mode decoded then [] else p⟩

/-- `EscapedPath`, `EscapedFragment` -/
def Escaped.text (mode : Encoding) (e : Escaped) : List UInt8 :=
  if e.raw ≠ [] && validEncoded mode e.raw && unescape e.raw = some e.decoded then e.raw
  else if e.decoded = ascii "*" then ascii "*"
  else escape mode e.decoded

theorem setEscaped_eq_some (h : setEscaped mode p = some e) :
    unescape p = some e.decoded ∧ e.raw = if p = escape mode e.decoded then [] else p := by
  obtain ⟨decoded, hdecoded, rfl⟩ := Option.map_eq_some_iff.mp h
  exact ⟨hdecoded, rfl⟩

theorem unescape_default (mode : Encoding) (s : List UInt8) :
    unescape (if s = ascii "*" then ascii "*" else escape mode s) = some s := by
  split
  · rename_i hstar
    rw [hstar]
    decide
  · exact unescape_escape mode s

/-- The text that is written is either the one that was read or the default one. -/
theorem Escaped.text_cases (h : setEscaped mode p = some e) :
    e.text mode = p ∨ e.text mode = if e.decoded = ascii "*" then ascii "*" else escape mode e.decoded := by
  obtain ⟨-, hraw⟩ := setEscaped_eq_some h
  unfold Escaped.text
  split
  · rename_i hkept
    simp only [Bool.and_eq_true, decide_eq_true_eq] at hkept
    rw [hraw] at hkept ⊢
    split at hkept
    · exact absurd rfl hkept.1.1
    · rename_i hne
      rw [if_neg hne]
      exact .inl rfl
  · exact .inr rfl

/-- Writing and reading again gives the same decoded text, and the same text when written once more. -/
theorem setEscaped_text (h : setEscaped mode p = some e) :
    ∃ e', setEscaped mode (e.text mode) = some e' ∧ e'.decoded = e.decoded ∧ e'.text mode = e.text mode := by
  rcases Escaped.text_cases h with hsame | hdefault
  · rw [hsame]
    exact ⟨e, h, rfl, hsame⟩
  · have hread := unescape_default mode e.decoded
    rw [← hdefault] at hread
    obtain ⟨e', hset, hdecoded⟩ : ∃ e', setEscaped mode (e.text mode) = some e' ∧ e'.decoded = e.decoded := by
      rw [setEscaped, hread]
      exact ⟨_, rfl, rfl⟩
    refine ⟨e', hset, hdecoded, ?_⟩
    rcases Escaped.text_cases hset with hsame | hagain
    · exact hsame
    · rw [hagain, hdecoded]
      exact hdefault.symm

/-! ### Parsing -/

/-- `strings.Cut` at a byte -/
def cut (c : UInt8) (s : List UInt8) : List UInt8 × List UInt8 :=
  (s.takeWhile (· ≠ c), (s.dropWhile (· ≠ c)).drop 1)

/-- The user with an optional password, and the host with its port. -/
structure Authority where
  user : Option (List UInt8 × Option (List UInt8))
  host : List UInt8
  deriving DecidableEq, Repr

def Authority.empty : Authority := ⟨none, []⟩

def isCTL (c : UInt8) : Bool := c < 32 || c = 127

def isAscii (c : UInt8) : Bool := c < 128

/-- How an authority is read and written. What is written is ASCII, has escapes for the bytes that end an
    authority, and is read as it was. -/
structure AuthoritySyntax where
  parse : List UInt8 → Option Authority
  text : Authority → List UInt8
  text_empty : text .empty = []
  text_clean : ∀ {t a}, parse t = some a → ∀ c ∈ text a, c ≠ slash ∧ c ≠ question ∧ c ≠ hash ∧ isCTL c = false
  text_ascii : ∀ {t a}, parse t = some a → ∀ c ∈ text a, isAscii c = true
  parse_text : ∀ {t a}, parse t = some a → parse (text a) = some a

/-- `rootless` is what follows the scheme when it does not start with a slash. -/
structure URL where
  scheme : List UInt8
  rootless : List UInt8
  authority : Authority
  omitHost : Bool
  path : Escaped
  forceQuery : Bool
  rawQuery : List UInt8
  fragment : Escaped
  deriving DecidableEq, Repr

def isSchemeByte (c : UInt8) : Bool := isAlpha c || isDigit c || (ascii "+-.").contains c

def toLower (c : UInt8) : UInt8 := if 65 ≤ c && c ≤ 90 then c + 32 else c

/-- The scheme, empty when there is none, and the rest; nothing for a text that starts with a colon. -/
def getScheme (u : List UInt8) : Option (List UInt8 × List UInt8) :=
  match u.dropWhile isSchemeByte with
  | [] => some ([], u)
  | c :: rest =>
    if c ≠ colon then some ([], u)
    else
      match u.takeWhile isSchemeByte with
      | [] => none
      | first :: name => if isAlpha first then some (first :: name, rest) else some ([], u)

/-- The text before the query, whether a lone question mark ends it, and the query. -/
def splitQuery (s : List UInt8) : List UInt8 × Bool × List UInt8 :=
  if s.getLast? = some question && s.count question = 1 then (s.dropLast, true, [])
  else ((cut question s).1, false, (cut question s).2)

/-- The hierarchical part: `rootless`, the authority, whether the host is left out, and the path. -/
def parseHierarchy (A : AuthoritySyntax) (scheme rest : List UInt8) :
    Option (List UInt8 × Authority × Bool × Escaped) :=
  if rest.head? ≠ some slash then
    if scheme ≠ [] then some (rest, .empty, false, ⟨[], []⟩)
    else if (cut slash rest).1.contains colon then none
    else (setEscaped .path rest).map fun path => ([], .empty, false, path)
  else if [slash, slash].isPrefixOf rest && (scheme ≠ [] || !([slash, slash, slash].isPrefixOf rest)) then
    match A.parse ((rest.drop 2).takeWhile (· ≠ slash)) with
    | none => none
    | some authority =>
      (setEscaped .path ((rest.drop 2).dropWhile (· ≠ slash))).map fun path => ([], authority, false, path)
  else (setEscaped .path rest).map fun path => ([], .empty, scheme ≠ [], path)

def parseNoFragment (A : AuthoritySyntax) (u : List UInt8) : Option URL :=
  if u.any isCTL then none
  else if u = ascii "*" then some ⟨[], [], .empty, false, ⟨ascii "*", []⟩, false, [], ⟨[], []⟩⟩
  else
    match getScheme u with
    | none => none
    | some (scheme, rest) =>
      let (rest, forceQuery, rawQuery) := splitQuery rest
      (parseHierarchy A (scheme.map toLower) rest).map fun (rootless, authority, omitHost, path) =>
        ⟨scheme.map toLower, rootless, authority, omitHost, path, forceQuery, rawQuery, ⟨[], []⟩⟩

/-- `url.Parse` -/
def parse (A : AuthoritySyntax) (rawURL : List UInt8) : Option URL :=
  match parseNoFragment A (cut hash rawURL).1 with
  | none => none
  | some u =>
    if (cut hash rawURL).2 = [] then some u
    else (setEscaped .fragment (cut hash rawURL).2).map fun fragment => { u with fragment }

/-! ### Writing -/

def queryText (forceQuery : Bool) (rawQuery : List UInt8) : List UInt8 :=
  if forceQuery || rawQuery ≠ [] then question :: rawQuery else []

def fragmentText (fragment : Escaped) : List UInt8 :=
  if fragment.decoded ≠ [] then hash :: fragment.text .fragment else []

def authorityText (A : AuthoritySyntax) (u : URL) : List UInt8 :=
  if u.scheme ≠ [] || u.authority ≠ .empty then
    if u.omitHost && u.authority = .empty then []
    else (if u.authority ≠ .empty || u.path.decoded ≠ [] then [slash, slash] else []) ++ A.text u.authority
  else []

def schemeText (scheme : List UInt8) : List UInt8 := if scheme ≠ [] then scheme ++ [colon] else []

/-- `URL.String` -/
def URL.string (A : AuthoritySyntax) (u : URL) : List UInt8 :=
  let front := schemeText u.scheme
  let body :=
    if u.rootless ≠ [] then u.rootless
    else
      let path := u.path.text .path
      let front' := authorityText A u ++
        if path ≠ [] && path.head? ≠ some slash && u.authority.host ≠ [] then [slash] else []
      front' ++ (if front ++ front' = [] && (cut slash path).1.contains colon then ascii "./" else []) ++ path
  front ++ body ++ queryText u.forceQuery u.rawQuery ++ fragmentText u.fragment

/-! ### The pieces of a text -/

theorem not_mem_takeWhile_ne (c : UInt8) (s : List UInt8) : c ∉ s.takeWhile (· ≠ c) := by
  intro hmem
  simpa using List.mem_takeWhile_imp hmem

theorem decide_ne_of_not_mem (hs : c ∉ s) : ∀ b ∈ s, (fun x : UInt8 => decide (x ≠ c)) b = true :=
  fun _ hb => decide_eq_true fun heq => hs (heq ▸ hb)

theorem cut_append (hs : c ∉ s) (r : List UInt8) : cut c (s ++ c :: r) = (s, r) := by
  have hkeep := decide_ne_of_not_mem hs
  unfold cut
  rw [List.takeWhile_append_of_pos hkeep, List.dropWhile_append_of_pos hkeep, List.takeWhile_cons_of_neg (by simp),
    List.dropWhile_cons_of_neg (by simp), List.append_nil]
  rfl

theorem cut_of_not_mem (hs : c ∉ s) : cut c s = (s, []) := by
  have hkeep := decide_ne_of_not_mem hs
  unfold cut
  rw [List.takeWhile_eq_self_iff.mpr hkeep, List.dropWhile_eq_nil_iff.mpr hkeep]
  rfl

theorem mem_of_mem_cut_snd {b : UInt8} (h : b ∈ (cut c s).2) : b ∈ s :=
  List.dropWhile_subset _ (List.mem_of_mem_drop h)

/-- A scheme in the form in which it is stored. -/
structure SchemeName (s : List UInt8) : Prop where
  bytes : ∀ c ∈ s, isSchemeByte c = true
  first : ∃ c rest, s = c :: rest ∧ isAlpha c = true
  lower : s.map toLower = s

theorem isSchemeByte_toLower : ∀ c : UInt8, isSchemeByte c = true → isSchemeByte (toLower c) = true :=
  forall_byte (by decide +kernel)

theorem isAlpha_toLower : ∀ c : UInt8, isAlpha c = true → isAlpha (toLower c) = true :=
  forall_byte (by decide +kernel)

theorem toLower_toLower : ∀ c : UInt8, toLower (toLower c) = toLower c :=
  forall_byte (by decide +kernel)

theorem isSchemeByte_clean : ∀ c : UInt8, isSchemeByte c = true → c ≠ hash ∧ isCTL c = false :=
  forall_byte (by decide +kernel)

theorem getScheme_eq_some {u scheme rest : List UInt8} (h : getScheme u = some (scheme, rest)) (hne : scheme ≠ []) :
    u = scheme ++ colon :: rest ∧ SchemeName (scheme.map toLower) := by
  unfold getScheme at h
  split at h
  · cases h
    exact absurd rfl hne
  · rename_i c rest' hdrop
    split at h
    · cases h
      exact absurd rfl hne
    · rename_i hcolon
      split at h
      · cases h
      · rename_i first name htake
        split at h
        · rename_i halpha
          cases h
          have hu := (List.takeWhile_append_dropWhile (p := isSchemeByte) (l := u)).symm
          rw [htake, hdrop, not_not.mp hcolon] at hu
          have hbytes : ∀ b ∈ first :: name, isSchemeByte b = true := fun b hb =>
            List.mem_takeWhile_imp (htake ▸ hb)
          refine ⟨hu, fun b hb => ?_, ⟨_, _, List.map_cons, isAlpha_toLower first halpha⟩, ?_⟩
          · obtain ⟨b', hb', rfl⟩ := List.mem_map.mp hb
            exact isSchemeByte_toLower b' (hbytes b' hb')
          · rw [List.map_map]
            exact List.map_congr_left fun b _ => toLower_toLower b
        · cases h
          exact absurd rfl hne

theorem getScheme_append {scheme : List UInt8} (hscheme : SchemeName scheme) (rest : List UInt8) :
    getScheme (scheme ++ colon :: rest) = some (scheme, rest) := by
  obtain ⟨first, name, rfl, halpha⟩ := hscheme.first
  have hcolon : ¬isSchemeByte colon = true := by decide
  unfold getScheme
  rw [List.dropWhile_append_of_pos hscheme.bytes, List.dropWhile_cons_of_neg hcolon,
    List.takeWhile_append_of_pos hscheme.bytes, List.takeWhile_cons_of_neg hcolon, List.append_nil]
  dsimp only
  rw [if_neg (not_not.mpr rfl), if_pos halpha]

theorem splitQuery_eq {pre rawQuery : List UInt8} {forceQuery : Bool} (h : splitQuery s = (pre, forceQuery, rawQuery)) :
    question ∉ pre ∧ (forceQuery = true → rawQuery = []) ∧ (∀ c ∈ pre, c ∈ s) ∧ ∀ c ∈ rawQuery, c ∈ s := by
  unfold splitQuery at h
  split at h
  · rename_i hlone
    simp only [Bool.and_eq_true, decide_eq_true_eq] at hlone
    obtain ⟨hlast, hcount⟩ := hlone
    cases h
    obtain ⟨pre, rfl⟩ := List.getLast?_eq_some_iff.mp hlast
    rw [List.dropLast_concat]
    rw [List.count_append, List.count_singleton_self] at hcount
    refine ⟨fun hmem => ?_, fun _ => rfl, fun c hc => List.mem_append_left _ hc, by simp⟩
    have := List.count_pos_iff.mpr hmem
    omega
  · cases h
    exact ⟨not_mem_takeWhile_ne _ _, by simp, fun c hc => List.takeWhile_subset _ hc, fun c hc => mem_of_mem_cut_snd hc⟩

theorem splitQuery_append {rawQuery : List UInt8} {forceQuery : Bool} (hs : question ∉ s)
    (hforce : forceQuery = true → rawQuery = []) :
    splitQuery (s ++ queryText forceQuery rawQuery) = (s, forceQuery, rawQuery) := by
  have hcount : s.count question = 0 := List.count_eq_zero.mpr hs
  cases forceQuery with
  | true =>
    have hone : (s ++ [question]).count question = 1 := by rw [List.count_append, hcount, List.count_singleton_self]
    rw [hforce rfl, show queryText true [] = [question] from rfl, splitQuery,
      if_pos (by rw [hone, List.getLast?_concat]; decide), List.dropLast_concat]
  | false =>
    by_cases hq : rawQuery = []
    · rw [hq, show queryText false [] = [] from rfl, List.append_nil, splitQuery,
        if_neg (by rw [hcount]; simp), cut_of_not_mem hs]
    · have htext : queryText false rawQuery = question :: rawQuery := if_pos (by simpa using hq)
      rw [htext, splitQuery, if_neg ?_, cut_append hs]
      -- A query that ends in a question mark makes a second one.
      simp only [Bool.and_eq_true, decide_eq_true_eq, not_and]
      intro hlast
      rw [List.getLast?_append_of_ne_nil _ (by simp), List.getLast?_cons_of_ne_nil hq] at hlast
      have hsecond := List.count_pos_iff.mpr (List.mem_of_getLast? hlast)
      rw [List.count_append, List.count_cons_self, hcount]
      omega

/-! ### What was read -/

/-- The byte ends no part of a text before the query. -/
def Clean (c : UInt8) : Prop := c ≠ question ∧ c ≠ hash ∧ isCTL c = false

/-- What is known of a URL that has a scheme and is not rootless, read from a text whose bytes all satisfy `P`. -/
structure Read (A : AuthoritySyntax) (P : UInt8 → Prop) (u : URL) : Prop where
  scheme : SchemeName u.scheme
  rootless : u.rootless = []
  omitHost : u.omitHost = false
  authority : (u.authority = .empty ∧ u.path = ⟨[], []⟩) ∨ ∃ t, A.parse t = some u.authority
  path : ∃ p, setEscaped .path p = some u.path ∧ (p = [] ∨ p.head? = some slash) ∧ ∀ c ∈ p, Clean c ∧ P c
  force : u.forceQuery = true → u.rawQuery = []
  query : ∀ c ∈ u.rawQuery, c ≠ hash ∧ isCTL c = false ∧ P c
  fragment : ∃ f, setEscaped .fragment f = some u.fragment ∧ ∀ c ∈ f, P c

/-- The hierarchical part of a URL with a scheme. -/
theorem parseHierarchy_eq_some {scheme rest : List UInt8} {authority : Authority} {path : Escaped}
    (h : parseHierarchy A scheme rest = some ([], authority, false, path)) (hscheme : scheme ≠ []) :
    (rest = [] ∧ authority = .empty ∧ path = ⟨[], []⟩) ∨
      ∃ t p, A.parse t = some authority ∧ setEscaped .path p = some path ∧ (p = [] ∨ p.head? = some slash) ∧
        ∀ c ∈ p, c ∈ rest := by
  unfold parseHierarchy at h
  split at h
  · cases h
    exact .inl ⟨rfl, rfl, rfl⟩
  · split at h
    · split at h
      · cases h
      · rename_i a ha
        obtain ⟨e, hset, he⟩ := Option.map_eq_some_iff.mp h
        cases he
        refine .inr ⟨_, _, ha, hset, ?_, fun c hc => List.mem_of_mem_drop (List.dropWhile_subset _ hc)⟩
        cases hdrop : (rest.drop 2).dropWhile (· ≠ slash) with
        | nil => exact .inl rfl
        | cons b p =>
          have hb := List.head_dropWhile_not (fun c : UInt8 => decide (c ≠ slash)) (l := rest.drop 2) (by rw [hdrop]; simp)
          simp only [hdrop, List.head_cons, decide_eq_false_iff_not, not_not] at hb
          exact .inr (congrArg some hb)
    · obtain ⟨e, -, he⟩ := Option.map_eq_some_iff.mp h
      simp only [Prod.mk.injEq, decide_eq_false_iff_not] at he
      exact absurd hscheme he.2.2.1

/-- The fragment does not touch the other parts. -/
theorem parse_eq_some {u : URL} (h : parse A t = some u) :
    ∃ v, parseNoFragment A (cut hash t).1 = some v ∧ u = { v with fragment := u.fragment } ∧
      (u.fragment = v.fragment ∨ setEscaped .fragment (cut hash t).2 = some u.fragment) := by
  unfold parse at h
  split at h
  · cases h
  · rename_i v hv
    split at h
    · cases h
      exact ⟨u, hv, rfl, .inl rfl⟩
    · obtain ⟨e, he, rfl⟩ := Option.map_eq_some_iff.mp h
      exact ⟨v, hv, rfl, .inr he⟩

/-- A text without a fragment is a lone asterisk, or has the parts of a URL one after the other. -/
theorem parseNoFragment_eq_some {v : URL} (h : parseNoFragment A t = some v) : t.any isCTL = false ∧ v.fragment = ⟨[], []⟩ ∧
      ((t = ascii "*" ∧ v.scheme = [] ∧ v.rootless = []) ∨
        ∃ scheme rest pre rawQuery forceQuery rootless authority omitHost path, getScheme t = some (scheme, rest) ∧
          splitQuery rest = (pre, forceQuery, rawQuery) ∧
          parseHierarchy A (scheme.map toLower) pre = some (rootless, authority, omitHost, path) ∧
          v = ⟨scheme.map toLower, rootless, authority, omitHost, path, forceQuery, rawQuery, ⟨[], []⟩⟩) := by
  unfold parseNoFragment at h
  split at h
  · cases h
  · rename_i hctl
    split at h
    · rename_i hstar
      cases h
      exact ⟨Bool.eq_false_iff.mpr hctl, rfl, .inl ⟨hstar, rfl, rfl⟩⟩
    · split at h
      · cases h
      · rename_i scheme rest hget
        rcases hsplit : splitQuery rest with ⟨pre, forceQuery, rawQuery⟩
        rw [hsplit] at h
        obtain ⟨⟨rootless, authority, omitHost, path⟩, hpart, rfl⟩ := Option.map_eq_some_iff.mp h
        exact ⟨Bool.eq_false_iff.mpr hctl, rfl, .inr ⟨scheme, rest, pre, rawQuery, forceQuery, rootless, authority,
          omitHost, path, hget, hsplit, hpart, rfl⟩⟩

theorem parse_read {P : UInt8 → Prop} {u : URL} (h : parse A t = some u) (hP : ∀ c ∈ t, P c) (hscheme : u.scheme ≠ [])
    (hrootless : u.rootless = []) (homit : u.omitHost = false) : Read A P u := by
  obtain ⟨v, hv, hu, hfragment⟩ := parse_eq_some h
  obtain ⟨hctl, hnone, ⟨-, hempty, -⟩ | ⟨scheme, rest, pre, rawQuery, forceQuery, rootless, authority, omitHost, path, hget,
    hsplit, hpart, rfl⟩⟩ := parseNoFragment_eq_some hv
  · rw [hu] at hscheme
    exact absurd hempty hscheme
  have hfragmentRead : ∃ f, setEscaped .fragment f = some u.fragment ∧ ∀ c ∈ f, P c := by
    rcases hfragment with hsame | hset
    · exact ⟨[], by rw [hsame]; rfl, by simp⟩
    · exact ⟨_, hset, fun c hc => hP c (mem_of_mem_cut_snd hc)⟩
  rw [hu] at hscheme hrootless homit
  dsimp only at hscheme hrootless homit
  subst hrootless homit
  obtain ⟨htext, hname⟩ := getScheme_eq_some hget (fun hnil => hscheme (by rw [hnil]; rfl))
  obtain ⟨hpre, hforce, hpreMem, hqueryMem⟩ := splitQuery_eq hsplit
  -- Every byte of the rest is before the fragment and no control byte.
  have hrest : ∀ c ∈ rest, c ≠ hash ∧ isCTL c = false ∧ P c := by
    intro c hc
    have hmem : c ∈ (cut hash t).1 := by
      rw [htext]
      exact List.mem_append_right _ (List.mem_cons_of_mem _ hc)
    refine ⟨fun heq => not_mem_takeWhile_ne hash t (heq ▸ hmem), ?_, hP c (List.takeWhile_subset _ hmem)⟩
    exact Bool.eq_false_iff.mpr (List.any_eq_false.mp hctl c hmem)
  rw [hu]
  refine ⟨hname, rfl, rfl, ?_, ?_, hforce, fun c hc => hrest c (hqueryMem c hc), hfragmentRead⟩
  · rcases parseHierarchy_eq_some hpart hscheme with ⟨-, hauth, hpath⟩ | ⟨a, -, ha, -⟩
    · exact .inl ⟨hauth, hpath⟩
    · exact .inr ⟨a, ha⟩
  · rcases parseHierarchy_eq_some hpart hscheme with ⟨-, -, hpath⟩ | ⟨-, p, -, hset, hp, hmem⟩
    · exact ⟨[], by rw [hpath]; rfl, .inl rfl, by simp⟩
    · refine ⟨p, hset, hp, fun c hc => ?_⟩
      obtain ⟨hhash, hbyte, hkept⟩ := hrest c (hpreMem c (hmem c hc))
      exact ⟨⟨fun heq => hpre (heq ▸ hmem c hc), hhash, hbyte⟩, hkept⟩

/-! ### Reading back -/

theorem unescape_text (h : setEscaped mode p = some e) : unescape (e.text mode) = some e.decoded := by
  rcases Escaped.text_cases h with hsame | hdefault
  · rw [hsame]
    exact (setEscaped_eq_some h).1
  · rw [hdefault]
    exact unescape_default mode e.decoded

theorem shouldEscape_clean : ∀ c : UInt8, shouldEscape .path c = false → Clean c := by
  unfold Clean
  exact forall_byte (by decide +kernel)

/-- A rooted path stays rooted: it is written with its slash first, without the bytes that would end it. -/
theorem pathText_clean (hset : setEscaped .path p = some e) (hroot : p = [] ∨ p.head? = some slash)
    (hclean : ∀ c ∈ p, Clean c) : (e.text .path = [] ∨ (e.text .path).head? = some slash) ∧ ∀ c ∈ e.text .path, Clean c := by
  rcases Escaped.text_cases hset with hsame | hdefault
  · rw [hsame]
    exact ⟨hroot, hclean⟩
  · obtain ⟨hread, -⟩ := setEscaped_eq_some hset
    have hdecoded : e.decoded = [] ∨ ∃ rest, e.decoded = slash :: rest := by
      rcases hroot with rfl | hroot
      · exact .inl (Option.some.inj hread).symm
      · obtain ⟨rest, rfl⟩ := List.head?_eq_some_iff.mp hroot
        rw [unescape_literal (by decide)] at hread
        obtain ⟨rest', -, hrest⟩ := Option.map_eq_some_iff.mp hread
        exact .inr ⟨rest', hrest.symm⟩
    have hstar : e.decoded ≠ ascii "*" := by
      rcases hdecoded with hnil | ⟨rest, hrest⟩
      · rw [hnil]
        decide
      · rw [hrest]
        intro heq
        exact absurd (List.cons.inj heq).1 (by decide)
    rw [hdefault, if_neg hstar]
    refine ⟨?_, fun c hc => ?_⟩
    · rcases hdecoded with hnil | ⟨rest, hrest⟩
      · rw [hnil]
        exact .inl rfl
      · rw [hrest]
        exact .inr rfl
    · rcases mem_escape hc with rfl | hplain
      · exact ⟨by decide, by decide, by decide⟩
      · exact shouldEscape_clean c hplain

section
variable {A : AuthoritySyntax} {P : UInt8 → Prop} {u : URL}

/-- The text between the scheme and the query. -/
def hierarchyText (A : AuthoritySyntax) (u : URL) : List UInt8 :=
  if u.authority ≠ .empty ∨ u.path.decoded ≠ [] then [slash, slash] ++ (A.text u.authority ++ u.path.text .path) else []

section
variable (r : Read A P u)
include r

theorem Read.path_clean :
    (u.path.text .path = [] ∨ (u.path.text .path).head? = some slash) ∧ ∀ c ∈ u.path.text .path, Clean c := by
  obtain ⟨p, hset, hroot, hclean⟩ := r.path
  exact pathText_clean hset hroot fun c hc => (hclean c hc).1

theorem Read.path_text_nil (h : u.path.decoded = []) : u.path.text .path = [] := by
  obtain ⟨p, hset, -, -⟩ := r.path
  obtain ⟨hraw, -⟩ := r.path_clean
  have hread := unescape_text hset
  rcases hraw with hnil | hroot
  · exact hnil
  · -- A slash would be decoded to itself.
    obtain ⟨rest, hrest⟩ := List.head?_eq_some_iff.mp hroot
    rw [hrest, unescape_literal (by decide), h] at hread
    obtain ⟨_, -, hcons⟩ := Option.map_eq_some_iff.mp hread
    cases hcons

theorem Read.scheme_ne_nil : u.scheme ≠ [] := by
  obtain ⟨first, name, hscheme, -⟩ := r.scheme.first
  rw [hscheme]
  simp

theorem Read.string_eq : u.string A = u.scheme ++ colon :: (hierarchyText A u ++ queryText u.forceQuery u.rawQuery) ++
      fragmentText u.fragment := by
  have hne := r.scheme_ne_nil
  have hsep : (if u.path.text .path ≠ [] && (u.path.text .path).head? ≠ some slash && u.authority.host ≠ [] then [slash]
      else []) = ([] : List UInt8) := by
    rcases r.path_clean.1 with hnil | hroot
    · simp [hnil]
    · simp [hroot]
  have hauthority : authorityText A u ++ u.path.text .path = hierarchyText A u := by
    rw [authorityText, if_pos (by simp [hne]), if_neg (by simp [r.omitHost]), hierarchyText]
    by_cases hsome : u.authority ≠ .empty ∨ u.path.decoded ≠ []
    · rw [if_pos hsome, if_pos (by simpa using hsome), List.append_assoc]
    · obtain ⟨hempty, hpath⟩ := not_or.mp hsome
      rw [if_neg hsome, if_neg (by simpa using hsome), not_not.mp hempty, A.text_empty,
        r.path_text_nil (not_not.mp hpath)]
      rfl
  unfold URL.string
  dsimp only
  rw [if_neg (not_not.mpr r.rootless), hsep, schemeText, if_pos hne, if_neg (by simp), List.append_nil, List.append_nil,
    hauthority]
  simp

theorem Read.authority_clean : ∀ c ∈ A.text u.authority, c ≠ slash ∧ c ≠ question ∧ c ≠ hash ∧ isCTL c = false := by
  rcases r.authority with ⟨hempty, -⟩ | ⟨t, ht⟩
  · rw [hempty, A.text_empty]
    simp
  · exact A.text_clean ht

theorem Read.hierarchy_clean : ∀ c ∈ hierarchyText A u, Clean c := by
  intro c hc
  unfold hierarchyText at hc
  split at hc
  · simp only [List.cons_append, List.nil_append, List.mem_cons, List.mem_append] at hc
    rcases hc with rfl | rfl | hauth | hpath
    · exact ⟨by decide, by decide, by decide⟩
    · exact ⟨by decide, by decide, by decide⟩
    · exact (r.authority_clean c hauth).2
    · exact r.path_clean.2 c hpath
  · cases hc

/-- The text before the fragment. -/
def frontText (A : AuthoritySyntax) (u : URL) : List UInt8 :=
  u.scheme ++ colon :: (hierarchyText A u ++ queryText u.forceQuery u.rawQuery)

theorem Read.front_clean : ∀ c ∈ frontText A u, c ≠ hash ∧ isCTL c = false := by
  intro c hc
  simp only [frontText, List.mem_append, List.mem_cons] at hc
  rcases hc with hscheme | rfl | hpart | hquery
  · exact isSchemeByte_clean c (r.scheme.bytes c hscheme)
  · exact ⟨by decide, by decide⟩
  · exact (r.hierarchy_clean c hpart).2
  · unfold queryText at hquery
    split at hquery
    · rcases List.mem_cons.mp hquery with rfl | hmem
      · exact ⟨by decide, by decide⟩
      · exact ⟨(r.query c hmem).1, (r.query c hmem).2.1⟩
    · cases hquery

/-- The hierarchical part is read as it was written. -/
theorem Read.parseHierarchy_text :
    ∃ path, parseHierarchy A u.scheme (hierarchyText A u) = some ([], u.authority, false, path) ∧
      path.decoded = u.path.decoded ∧ path.text .path = u.path.text .path := by
  unfold hierarchyText
  by_cases hsome : u.authority ≠ .empty ∨ u.path.decoded ≠ []
  · obtain ⟨t, ht⟩ : ∃ t, A.parse t = some u.authority := by
      rcases r.authority with ⟨hempty, hpath⟩ | hread
      · rw [hpath] at hsome
        rcases hsome with hne | hne
        · exact absurd hempty hne
        · exact absurd rfl hne
      · exact hread
    have hplain : ∀ c ∈ A.text u.authority, (fun x : UInt8 => decide (x ≠ slash)) c = true := fun c hc =>
      decide_eq_true (r.authority_clean c hc).1
    -- The authority ends where the path's slash stands.
    have hends : (u.path.text .path).takeWhile (fun x => decide (x ≠ slash)) = [] ∧
        (u.path.text .path).dropWhile (fun x => decide (x ≠ slash)) = u.path.text .path := by
      rcases r.path_clean.1 with hnil | hroot
      · rw [hnil]
        exact ⟨rfl, rfl⟩
      · obtain ⟨rest, hrest⟩ := List.head?_eq_some_iff.mp hroot
        rw [hrest]
        exact ⟨List.takeWhile_cons_of_neg (by simp), List.dropWhile_cons_of_neg (by simp)⟩
    obtain ⟨p, hset, -, -⟩ := r.path
    obtain ⟨path, hagain, hdecoded, htext⟩ := setEscaped_text hset
    refine ⟨path, ?_, hdecoded, htext⟩
    rw [if_pos hsome, parseHierarchy, if_neg (by simp), if_pos (by simp [r.scheme_ne_nil])]
    have hdrop : ([slash, slash] ++ (A.text u.authority ++ u.path.text .path)).drop 2 =
      A.text u.authority ++ u.path.text .path := rfl
    rw [hdrop, List.takeWhile_append_of_pos hplain, List.dropWhile_append_of_pos hplain, hends.1, hends.2,
      List.append_nil, A.parse_text ht]
    dsimp only
    rw [hagain]
    rfl
  · obtain ⟨hempty, hpath⟩ := not_or.mp hsome
    refine ⟨⟨[], []⟩, ?_, (not_not.mp hpath).symm, (r.path_text_nil (not_not.mp hpath)).symm⟩
    rw [if_neg hsome, parseHierarchy, if_pos (by simp), if_pos r.scheme_ne_nil, not_not.mp hempty]

theorem Read.parseNoFragment_front : ∃ path, parseNoFragment A (frontText A u) =
        some ⟨u.scheme, [], u.authority, false, path, u.forceQuery, u.rawQuery, ⟨[], []⟩⟩ ∧
      path.decoded = u.path.decoded ∧ path.text .path = u.path.text .path := by
  obtain ⟨path, hpart, hdecoded, htext⟩ := r.parseHierarchy_text
  refine ⟨path, ?_, hdecoded, htext⟩
  have hctl : ¬(frontText A u).any isCTL = true := fun hany => by
    obtain ⟨c, hc, hbyte⟩ := List.any_eq_true.mp hany
    rw [(r.front_clean c hc).2] at hbyte
    cases hbyte
  have hstar : frontText A u ≠ ascii "*" := by
    obtain ⟨first, name, hscheme, halpha⟩ := r.scheme.first
    rw [frontText, hscheme]
    intro heq
    rw [show first = 42 from (List.cons.inj heq).1] at halpha
    cases halpha
  have hsplit := splitQuery_append (s := hierarchyText A u) (fun hmem => (r.hierarchy_clean _ hmem).1 rfl) r.force
  rw [parseNoFragment, if_neg hctl, if_neg hstar, frontText, getScheme_append r.scheme]
  dsimp only
  rw [hsplit, r.scheme.lower, hpart]
  rfl

/-- A URL that was read and written is read with the same scheme, authority and path, and written the same. -/
theorem Read.parse_string : ∃ u', parse A (u.string A) = some u' ∧ u'.scheme = u.scheme ∧ u'.authority = u.authority ∧
      u'.path.decoded = u.path.decoded ∧ u'.string A = u.string A := by
  obtain ⟨path, hfront, hdecoded, htext⟩ := r.parseNoFragment_front
  obtain ⟨f, hf, -⟩ := r.fragment
  have hhash : hash ∉ frontText A u := fun hmem => (r.front_clean _ hmem).1 rfl
  obtain ⟨fragment, hparse, hfragment⟩ : ∃ fragment,
      parse A (u.string A) =
        some ⟨u.scheme, [], u.authority, false, path, u.forceQuery, u.rawQuery, fragment⟩ ∧
      fragmentText fragment = fragmentText u.fragment := by
    rw [r.string_eq, ← frontText]
    by_cases hnone : u.fragment.decoded = []
    · refine ⟨⟨[], []⟩, ?_, ?_⟩
      · rw [fragmentText, if_neg (not_not.mpr hnone), List.append_nil, parse, cut_of_not_mem hhash, hfront]
        rfl
      · rw [fragmentText, fragmentText, if_neg (by simp), if_neg (not_not.mpr hnone)]
    · obtain ⟨fragment, hagain, hsame, hwritten⟩ := setEscaped_text hf
      have hne : u.fragment.text .fragment ≠ [] := fun hnil => by
        have hread := unescape_text hf
        rw [hnil] at hread
        exact hnone (Option.some.inj hread).symm
      refine ⟨fragment, ?_, ?_⟩
      · rw [fragmentText, if_pos hnone, parse, cut_append hhash, hfront]
        dsimp only
        rw [if_neg hne, hagain]
        rfl
      · rw [fragmentText, fragmentText, hsame, hwritten]
  have r' := parse_read (P := fun _ => True) hparse (fun _ _ => trivial) r.scheme_ne_nil rfl rfl
  refine ⟨_, hparse, rfl, rfl, hdecoded, ?_⟩
  rw [r'.string_eq, r.string_eq, hfragment]
  unfold hierarchyText
  rw [hdecoded, htext]

end

theorem shouldEscape_ascii (mode : Encoding) : ∀ c : UInt8, shouldEscape mode c = false → isAscii c = true := by
  cases mode <;> exact forall_byte (by decide +kernel)

theorem isSchemeByte_ascii : ∀ c : UInt8, isSchemeByte c = true → isAscii c = true :=
  forall_byte (by decide +kernel)

theorem Escaped.text_ascii (h : setEscaped mode p = some e) (hp : ∀ c ∈ p, isAscii c = true) :
    ∀ c ∈ e.text mode, isAscii c = true := by
  rcases Escaped.text_cases h with hsame | hdefault
  · rw [hsame]
    exact hp
  · rw [hdefault]
    split
    · exact List.all_eq_true.mp (by decide)
    · intro c hc
      rcases mem_escape hc with rfl | hplain
      · rfl
      · exact shouldEscape_ascii mode c hplain

/-- A URL read from ASCII is written in ASCII. -/
theorem Read.string_ascii (r : Read A (fun c => isAscii c = true) u) : ∀ c ∈ u.string A, isAscii c = true := by
  obtain ⟨p, hpath, -, hpathAscii⟩ := r.path
  obtain ⟨f, hfragment, hfragmentAscii⟩ := r.fragment
  have hauthority : ∀ c ∈ A.text u.authority, isAscii c = true := by
    rcases r.authority with ⟨hempty, -⟩ | ⟨t, ht⟩
    · rw [hempty, A.text_empty]
      simp
    · exact A.text_ascii ht
  intro c hc
  rw [r.string_eq] at hc
  simp only [List.mem_append, List.mem_cons] at hc
  rcases hc with (hscheme | rfl | hpart | hquery) | hfrag
  · exact isSchemeByte_ascii c (r.scheme.bytes c hscheme)
  · rfl
  · unfold hierarchyText at hpart
    split at hpart
    · simp only [List.cons_append, List.nil_append, List.mem_cons, List.mem_append] at hpart
      rcases hpart with rfl | rfl | hauth | hp
      · rfl
      · rfl
      · exact hauthority c hauth
      · exact Escaped.text_ascii hpath (fun b hb => (hpathAscii b hb).2) c hp
    · cases hpart
  · unfold queryText at hquery
    split at hquery
    · rcases List.mem_cons.mp hquery with rfl | hmem
      · rfl
      · exact (r.query c hmem).2.2
    · cases hquery
  · unfold fragmentText at hfrag
    split at hfrag
    · rcases List.mem_cons.mp hfrag with rfl | hmem
      · rfl
      · exact Escaped.text_ascii hfragment hfragmentAscii c hmem
    · cases hfrag

theorem cut_fst_append (hs : c ∉ s) (r : List UInt8) : (cut c (s ++ r)).1 = s ++ (cut c r).1 :=
  List.takeWhile_append_of_pos (decide_ne_of_not_mem hs)

theorem splitQuery_slashes {rest pre rawQuery : List UInt8} {forceQuery : Bool}
    (h : splitQuery (slash :: slash :: rest) = (pre, forceQuery, rawQuery)) : ∃ pre', pre = slash :: slash :: pre' := by
  unfold splitQuery at h
  split at h
  · rename_i hlone
    cases h
    cases rest with
    | nil => cases hlone
    | cons c rest => exact ⟨_, rfl⟩
  · cases h
    exact ⟨_, cut_fst_append (s := [slash, slash]) (by decide) rest⟩

/-- A text with two slashes behind its scheme has an authority. -/
theorem parse_slashes {scheme rest : List UInt8} (hscheme : SchemeName scheme)
    (h : parse A (scheme ++ colon :: slash :: slash :: rest) = some u) :
    u.scheme = scheme ∧ u.rootless = [] ∧ u.omitHost = false := by
  have hne : scheme ≠ [] := by
    obtain ⟨first, name, hfirst, -⟩ := hscheme.first
    rw [hfirst]
    simp
  have hhash : hash ∉ scheme ++ [colon, slash, slash] := by
    intro hmem
    rcases List.mem_append.mp hmem with hs | hs
    · exact (isSchemeByte_clean _ (hscheme.bytes _ hs)).1 rfl
    · revert hs
      decide
  have hfront : (cut hash (scheme ++ colon :: slash :: slash :: rest)).1 =
      scheme ++ colon :: slash :: slash :: (cut hash rest).1 := by
    have hcut := cut_fst_append hhash rest
    rw [List.append_assoc, List.append_assoc] at hcut
    exact hcut
  obtain ⟨v, hv, hu, -⟩ := parse_eq_some h
  rw [hfront] at hv
  obtain ⟨-, -, ⟨hstar, -⟩ |
    ⟨_, _, pre, rawQuery, forceQuery, rootless, authority, omitHost, path, hget, hsplit, hpart, rfl⟩⟩ :=
    parseNoFragment_eq_some hv
  · obtain ⟨first, name, hfirst, halpha⟩ := hscheme.first
    rw [hfirst] at hstar
    rw [show first = 42 from (List.cons.inj hstar).1] at halpha
    cases halpha
  cases (getScheme_append hscheme _).symm.trans hget
  obtain ⟨pre', rfl⟩ := splitQuery_slashes hsplit
  rw [hscheme.lower] at hpart hu
  rw [hu]
  unfold parseHierarchy at hpart
  rw [if_neg (by simp), if_pos (by simp [hne])] at hpart
  split at hpart
  · cases hpart
  · obtain ⟨_, -, heq⟩ := Option.map_eq_some_iff.mp hpart
    cases heq
    exact ⟨rfl, rfl, rfl⟩

/-- Where the host is left out there is no authority. -/
theorem parse_omitHost (h : parse A t = some u) (hscheme : u.scheme ≠ []) (homit : u.omitHost = true) :
    u.authority = .empty := by
  obtain ⟨v, hv, hu, -⟩ := parse_eq_some h
  rw [hu] at hscheme homit ⊢
  obtain ⟨-, -, ⟨-, hnone, -⟩ | ⟨_, _, _, _, _, rootless, authority, omitHost, path, -, -, hpart, rfl⟩⟩ :=
    parseNoFragment_eq_some hv
  · exact absurd hnone hscheme
  unfold parseHierarchy at hpart
  split at hpart
  · cases hpart
    rfl
  · split at hpart
    · split at hpart
      · cases hpart
      · obtain ⟨_, -, heq⟩ := Option.map_eq_some_iff.mp hpart
        cases heq
        cases homit
    · obtain ⟨_, -, heq⟩ := Option.map_eq_some_iff.mp hpart
      cases heq
      rfl

/-- A URL with a path is not rootless. -/
theorem parse_rootless (h : parse A t = some u) (hpath : u.path.decoded ≠ []) : u.rootless = [] := by
  obtain ⟨v, hv, hu, -⟩ := parse_eq_some h
  rw [hu] at hpath ⊢
  obtain ⟨-, -, ⟨-, -, hrootless⟩ | ⟨_, _, _, _, _, rootless, authority, omitHost, path, -, -, hpart, rfl⟩⟩ :=
    parseNoFragment_eq_some hv
  · exact hrootless
  unfold parseHierarchy at hpart
  split at hpart
  · split at hpart
    · cases hpart
      exact absurd rfl hpath
    · split at hpart
      · cases hpart
      · obtain ⟨_, -, heq⟩ := Option.map_eq_some_iff.mp hpart
        cases heq
        rfl
  · split at hpart
    · split at hpart
      · cases hpart
      · obtain ⟨_, -, heq⟩ := Option.map_eq_some_iff.mp hpart
        cases heq
        rfl
    · obtain ⟨_, -, heq⟩ := Option.map_eq_some_iff.mp hpart
      cases heq
      rfl

end

end Url

end Meridian.Lib
