import Mathlib.Data.List.Basic

/-! Streams of bytes as Go reads them. A source delivers chunks; a read takes from the first chunk at most what it has room
    for, ends where the source is closed and waits where it is not. A buffered reader can look ahead. Any reader that
    gives its content from the front, piece by piece, gives all of it to one that reads to the end. -/

namespace Meridian.Lib

/-- A read returns bytes, reports the end, or does not return. -/
inductive ReadResult (R : Type) where
  | data (bytes : List UInt8) (next : R)
  | eof (next : R)
  | blocks

/-! ### Sources -/

/-- The chunks that have not been read, whether the sender has closed its side, and how often it was read. -/
structure Source where
  chunks : List (List UInt8)
  closed : Bool
  reads : Nat
  deriving DecidableEq, Repr

/-- At most `n` bytes of the first chunk, and what is left. -/
def nextChunk (n : Nat) : List (List UInt8) → Option (List UInt8 × List (List UInt8))
  | [] => none
  | [] :: rest => nextChunk n rest
  | (b :: c) :: rest =>
    some ((b :: c).take n, if (b :: c).length ≤ n then rest else (b :: c).drop n :: rest)

def Source.read (s : Source) (n : Nat) : ReadResult Source :=
  match nextChunk n s.chunks with
  | some (bytes, rest) => .data bytes { s with chunks := rest, reads := s.reads + 1 }
  | none => if s.closed then .eof { s with reads := s.reads + 1 } else .blocks

variable {n : Nat} {bytes : List UInt8} {chunks : List (List UInt8)} {s s' : Source}

theorem take_ne_nil (hn : 0 < n) {l : List UInt8} (hl : l ≠ []) : l.take n ≠ [] := by
  rw [ne_eq, List.take_eq_nil_iff, not_or]
  exact ⟨Nat.ne_of_gt hn, hl⟩

theorem nextChunk_eq_some (hn : 0 < n) {rest : List (List UInt8)} (h : nextChunk n chunks = some (bytes, rest)) :
    bytes ≠ [] ∧ bytes.length ≤ n ∧ chunks.flatten = bytes ++ rest.flatten := by
  induction chunks with
  | nil => cases h
  | cons c chunks ih =>
    cases c with
    | nil => exact ih h
    | cons b c =>
      cases h
      refine ⟨?_, ?_, ?_⟩
      · exact take_ne_nil hn (List.cons_ne_nil b c)
      · rw [List.length_take]
        exact Nat.min_le_left _ _
      · split
        · rename_i hle
          rw [List.take_of_length_le hle, List.flatten_cons]
        · rw [List.flatten_cons, List.flatten_cons, ← List.append_assoc, List.take_append_drop]

theorem nextChunk_eq_none (h : nextChunk n chunks = none) : chunks.flatten = [] := by
  induction chunks with
  | nil => rfl
  | cons c chunks ih =>
    cases c with
    | nil => exact ih h
    | cons b c => cases h

/-- A read that returns bytes takes them from the front. -/
theorem Source.read_eq_data (hn : 0 < n) (h : s.read n = .data bytes s') :
    bytes ≠ [] ∧ bytes.length ≤ n ∧ s.chunks.flatten = bytes ++ s'.chunks.flatten ∧ s'.closed = s.closed ∧
      s'.reads = s.reads + 1 := by
  unfold Source.read at h
  split at h
  · rename_i bytes' rest hnext
    cases h
    obtain ⟨hne, hle, hflat⟩ := nextChunk_eq_some hn hnext
    exact ⟨hne, hle, hflat, rfl, rfl⟩
  · split at h <;> cases h

theorem Source.read_eq_eof (h : s.read n = .eof s') :
    s.chunks.flatten = [] ∧ s'.chunks = s.chunks ∧ s'.closed = s.closed ∧ s.closed = true := by
  unfold Source.read at h
  split at h
  · cases h
  · rename_i hnext
    split at h
    · rename_i hclosed
      cases h
      exact ⟨nextChunk_eq_none hnext, rfl, rfl, hclosed⟩
    · cases h

theorem Source.read_eq_blocks (h : s.read n = .blocks) : s.chunks.flatten = [] ∧ s.closed = false := by
  unfold Source.read at h
  split at h
  · cases h
  · rename_i hnext
    split at h
    · cases h
    · rename_i hclosed
      exact ⟨nextChunk_eq_none hnext, by simpa using hclosed⟩

/-! ### Buffered readers -/

/-- `bufio.Reader` with a buffer of `size` bytes. -/
structure Bufio where
  size : Nat
  buf : List UInt8
  src : Source
  deriving DecidableEq, Repr

namespace Bufio

def new (size : Nat) (src : Source) : Bufio := ⟨size, [], src⟩

def content (r : Bufio) : List UInt8 := r.buf ++ r.src.chunks.flatten

/-- Reads until `n` bytes are buffered, the buffer is full or the source ends, which is reported; nothing when it waits. -/
def fillTo (r : Bufio) (n : Nat) : Option (Bool × Bufio) :=
  if r.buf.length < n ∧ r.buf.length < r.size then
    match _hread : r.src.read (r.size - r.buf.length) with
    | .blocks => none
    | .eof src => some (true, { r with src })
    | .data bytes src => fillTo { r with buf := r.buf ++ bytes, src } n
  else some (false, r)
termination_by r.src.chunks.flatten.length
decreasing_by
  obtain ⟨hne, -, hflat, -⟩ := Source.read_eq_data (by omega) _hread
  have hpos := List.length_pos_iff.mpr hne
  rw [hflat, List.length_append]
  omega

/-- The bytes that `Peek(n)` returns, whether with an error, and the reader after it. -/
def peek (r : Bufio) (n : Nat) : Option (List UInt8 × Bool × Bufio) :=
  match r.fillTo n with
  | none => none
  | some (err, r) => some (r.buf.take n, err, r)

/-- `Read` into room for `n` bytes: from the buffer when it has some, else one read of the source. -/
def read (r : Bufio) (n : Nat) : ReadResult Bufio :=
  if r.buf ≠ [] then .data (r.buf.take n) { r with buf := r.buf.drop n }
  else if r.size ≤ n then
    match r.src.read n with
    | .blocks => .blocks
    | .eof src => .eof { r with src }
    | .data bytes src => .data bytes { r with src }
  else
    match r.src.read r.size with
    | .blocks => .blocks
    | .eof src => .eof { r with src }
    | .data bytes src => .data (bytes.take n) { r with buf := bytes.drop n, src }

/-- `io.ReadFull`: the bytes that were read, whether all `n`, and the reader after it; nothing when it waits. Every read
    gives a byte, so that there are no more than `n`. -/
def readFullLoop : Nat → Nat → Bufio → Option (List UInt8 × Bool × Bufio)
  | 0, n, r => some ([], n = 0, r)
  | fuel + 1, n, r =>
    if n = 0 then some ([], true, r)
    else
      match r.read n with
      | .blocks => none
      | .eof r => some ([], false, r)
      | .data bytes r =>
        match readFullLoop fuel (n - bytes.length) r with
        | none => none
        | some (rest, ok, r) => some (bytes ++ rest, ok, r)

def readFull (r : Bufio) (n : Nat) : Option (List UInt8 × Bool × Bufio) := readFullLoop n n r

end Bufio

/-! ### Looking ahead -/

/-- The reads that deliver the first `n` bytes. -/
def readsFor : Nat → List (List UInt8) → Nat
  | _, [] => 0
  | n, c :: chunks => if n = 0 then 0 else if c = [] then readsFor n chunks else 1 + readsFor (n - c.length) chunks

/-- The chunks up to the one with the `n`-th byte. -/
def through : Nat → List (List UInt8) → List UInt8
  | _, [] => []
  | n, c :: chunks => if n = 0 then [] else c ++ through (n - c.length) chunks

theorem length_through_le (n : Nat) (chunks : List (List UInt8)) : (through n chunks).length ≤ chunks.flatten.length := by
  induction chunks generalizing n with
  | nil => exact Nat.le_refl _
  | cons c chunks ih =>
    rw [through]
    split
    · exact Nat.zero_le _
    · rw [List.flatten_cons, List.length_append, List.length_append]
      exact Nat.add_le_add_left (ih _) _

theorem readsFor_zero (chunks : List (List UInt8)) : readsFor 0 chunks = 0 := by
  cases chunks <;> rfl

theorem readsFor_of_nextChunk (hn : 0 < n) {rest : List (List UInt8)} (h : nextChunk n chunks = some (bytes, rest)) :
    readsFor n chunks = 1 + readsFor (n - bytes.length) rest := by
  induction chunks with
  | nil => cases h
  | cons c chunks ih =>
    cases c with
    | nil =>
      rw [readsFor, if_neg (Nat.ne_of_gt hn), if_pos rfl]
      exact ih h
    | cons b c =>
      cases h
      rw [readsFor, if_neg (Nat.ne_of_gt hn), if_neg (List.cons_ne_nil b c)]
      split
      · rename_i hle
        rw [List.take_of_length_le hle]
      · rename_i hlt
        rw [List.length_take, Nat.min_eq_left (Nat.le_of_not_le hlt), Nat.sub_self, readsFor_zero,
          Nat.sub_eq_zero_of_le (Nat.le_of_not_le hlt), readsFor_zero]

theorem Source.readsFor_of_read (hn : 0 < n) (h : s.read n = .data bytes s') :
    readsFor n s.chunks = 1 + readsFor (n - bytes.length) s'.chunks := by
  unfold Source.read at h
  split at h
  · rename_i hnext
    cases h
    exact readsFor_of_nextChunk hn hnext
  · split at h <;> cases h

theorem readsFor_pos (hn : 0 < n) (h : n ≤ chunks.flatten.length) : 0 < readsFor n chunks := by
  induction chunks with
  | nil => exact absurd h (Nat.not_le.mpr hn)
  | cons c chunks ih =>
    rw [readsFor, if_neg (Nat.ne_of_gt hn)]
    split
    · rename_i hc
      subst hc
      exact ih h
    · exact Nat.lt_of_lt_of_le Nat.one_pos (Nat.le_add_right _ _)

/-- The reads for the first `m` bytes deliver `n` bytes exactly when they come with the chunks up to the `m`-th. -/
theorem readsFor_le_iff (m : Nat) (h : n ≤ chunks.flatten.length) :
    readsFor n chunks ≤ readsFor m chunks ↔ n ≤ (through m chunks).length := by
  induction chunks generalizing n m with
  | nil =>
    rw [Nat.le_zero.mp h]
    simp [readsFor]
  | cons c chunks ih =>
    rcases Nat.eq_zero_or_pos n with rfl | hn
    · simp [readsFor_zero]
    · rcases Nat.eq_zero_or_pos m with rfl | hm
      · have hpos := readsFor_pos hn h
        rw [readsFor_zero, through, if_pos rfl, List.length_nil]
        omega
      · rw [List.flatten_cons, List.length_append] at h
        have hrest := ih (n := n - c.length) (m - c.length) (by omega)
        rw [through, if_neg (Nat.ne_of_gt hm), List.length_append, readsFor, if_neg (Nat.ne_of_gt hn), readsFor,
          if_neg (Nat.ne_of_gt hm)]
        split
        · rename_i hc
          subst hc
          simpa using hrest
        · omega

namespace Bufio
variable {r : Bufio}

/-- How looking ahead for a full buffer ends: with so many bytes, with the end of the source, or not. -/
inductive Filled (r : Bufio) (n : Nat) : Option (Bool × Bufio) → Prop where
  | full (src : Source) (hle : n ≤ r.content.length) (hrest : src.chunks.flatten = r.content.drop n)
      (hclosed : src.closed = r.src.closed) (hreads : src.reads = r.src.reads + readsFor (n - r.buf.length) r.src.chunks) :
      Filled r n (some (false, ⟨n, r.content.take n, src⟩))
  | ended (src : Source) (hlt : r.content.length < n) (hrest : src.chunks.flatten = []) (hclosed : r.src.closed = true)
      (hsrc : src.closed = true) : Filled r n (some (true, ⟨n, r.content, src⟩))
  | waits (hlt : r.content.length < n) (hclosed : r.src.closed = false) : Filled r n none

theorem filled_fillTo (hsize : r.size = n) (hbuf : r.buf.length ≤ n) : Filled r n (r.fillTo n) := by
  fun_induction fillTo r n with
  | case1 r hroom hread =>
    obtain ⟨hflat, hclosed⟩ := Source.read_eq_blocks hread
    exact .waits (by rw [content, hflat, List.append_nil]; exact hroom.1) hclosed
  | case2 r hroom src hread =>
    obtain ⟨hflat, hchunks, hsrc, hclosed⟩ := Source.read_eq_eof hread
    have hcontent : r.content = r.buf := by rw [content, hflat, List.append_nil]
    have hend := Filled.ended (r := r) (n := n) src (by rw [hcontent]; exact hroom.1) (by rw [hchunks, hflat]) hclosed
      (hsrc.trans hclosed)
    rw [hcontent] at hend
    rwa [hsize]
  | case3 r hroom bytes src hread ih =>
    obtain ⟨hne, hle, hflat, hclosed, hreads⟩ := Source.read_eq_data (by omega) hread
    have hcontent : (⟨r.size, r.buf ++ bytes, src⟩ : Bufio).content = r.content := by
      rw [content, content, hflat, List.append_assoc]
    have hcount := Source.readsFor_of_read (by omega) hread
    have hrec := ih hsize (by rw [List.length_append]; omega)
    generalize fillTo ⟨r.size, r.buf ++ bytes, src⟩ n = filled at hrec
    cases hrec with
    | full src' hle' hrest hclosed' hreads' =>
      rw [hcontent] at hle' hrest ⊢
      refine .full src' hle' hrest (hclosed'.trans hclosed) ?_
      rw [hreads', hreads, ← hsize, hcount, List.length_append, ← Nat.sub_sub, Nat.add_assoc]
    | ended src' hlt hrest hclosed' hsrc =>
      rw [hcontent] at hlt ⊢
      exact .ended src' hlt hrest (hclosed.symm.trans hclosed') hsrc
    | waits hlt hclosed' =>
      rw [hcontent] at hlt
      exact .waits hlt (hclosed.symm.trans hclosed')
  | case4 r hroom =>
    have hlen : r.buf.length = n := by omega
    have htake : r.content.take n = r.buf := by rw [content, ← hlen, List.take_left]
    have hfull := Filled.full (r := r) (n := n) r.src (by rw [content, List.length_append]; omega)
      (by rw [content, ← hlen, List.drop_left]) rfl (by rw [hlen, Nat.sub_self, readsFor_zero]; rfl)
    rw [htake] at hfull
    rwa [← hsize] at hfull ⊢

/-- Bytes that are buffered are read without the source. -/
theorem readFull_of_le (hn : 0 < n) (h : n ≤ r.buf.length) :
    r.readFull n = some (r.buf.take n, true, { r with buf := r.buf.drop n }) := by
  have hne : r.buf ≠ [] := List.ne_nil_of_length_pos (Nat.lt_of_lt_of_le hn h)
  obtain ⟨fuel, rfl⟩ := Nat.exists_eq_succ_of_ne_zero (Nat.ne_of_gt hn)
  have hdone : ∀ r' : Bufio, readFullLoop fuel 0 r' = some ([], true, r') := by
    intro r'
    cases fuel <;> rfl
  rw [readFull, readFullLoop, if_neg (Nat.succ_ne_zero fuel), read, if_pos hne]
  dsimp only
  rw [List.length_take, Nat.min_eq_left h, Nat.sub_self, hdone]
  simp only [List.append_nil]

end Bufio

/-! ### Reading to the end -/

section
variable {R : Type}

/-- What is read with the given rooms until the end is reported, and whether it was. -/
def readAll (read : R → Nat → ReadResult R) : List Nat → R → List UInt8 × Bool
  | [], _ => ([], false)
  | n :: rooms, r =>
    match read r n with
    | .blocks => ([], false)
    | .eof _ => ([], true)
    | .data bytes r =>
      match readAll read rooms r with
      | (rest, ended) => (bytes ++ rest, ended)

/-- A reader that gives its content from the front and then the end. -/
structure ReaderLaws (read : R → Nat → ReadResult R) (ready : R → Prop) (content : R → List UInt8) : Prop where
  ends : ∀ r n, ready r → 0 < n → content r = [] → ∃ r', read r n = .eof r'
  gives : ∀ r n, ready r → 0 < n → content r ≠ [] →
    ∃ bytes r', read r n = .data bytes r' ∧ bytes ≠ [] ∧ content r = bytes ++ content r' ∧ ready r'

/-- With room in every read, and more reads than bytes, the whole content is read and the end is seen. -/
theorem ReaderLaws.readAll_eq {read : R → Nat → ReadResult R} {ready : R → Prop} {content : R → List UInt8}
    (laws : ReaderLaws read ready content) {rooms : List Nat} (hrooms : ∀ n ∈ rooms, 0 < n) {r : R} (hr : ready r)
    (hlen : (content r).length < rooms.length) : readAll read rooms r = (content r, true) := by
  induction rooms generalizing r with
  | nil => exact absurd hlen (Nat.not_lt_zero _)
  | cons n rooms ih =>
    obtain ⟨hn, hrest⟩ := List.forall_mem_cons.mp hrooms
    by_cases hnil : content r = []
    · obtain ⟨r', hread⟩ := laws.ends r n hr hn hnil
      rw [readAll, hread, hnil]
    · obtain ⟨bytes, r', hread, hne, hcontent, hr'⟩ := laws.gives r n hr hn hnil
      have hpos := List.length_pos_iff.mpr hne
      have hshort : (content r').length < rooms.length := by
        rw [hcontent, List.length_append, List.length_cons] at hlen
        omega
      rw [readAll, hread]
      simp only [ih hrest hr' hshort, hcontent]

end

theorem sourceLaws : ReaderLaws Source.read (fun s => s.closed = true) (fun s => s.chunks.flatten) where
  ends s n hs hn hnil := by
    cases hread : s.read n with
    | blocks => exact absurd hs (by simp [(Source.read_eq_blocks hread).2])
    | eof s' => exact ⟨s', rfl⟩
    | data bytes s' =>
      obtain ⟨hne, -, hflat, -⟩ := Source.read_eq_data hn hread
      rw [hnil] at hflat
      exact absurd (List.append_eq_nil_iff.mp hflat.symm).1 hne
  gives s n hs hn hne := by
    cases hread : s.read n with
    | blocks => exact absurd (Source.read_eq_blocks hread).1 hne
    | eof s' => exact absurd (Source.read_eq_eof hread).1 hne
    | data bytes s' =>
      obtain ⟨hbytes, -, hflat, hclosed, -⟩ := Source.read_eq_data hn hread
      exact ⟨bytes, s', rfl, hbytes, hflat, hclosed.trans hs⟩

theorem bufioLaws : ReaderLaws Bufio.read (fun r => r.src.closed = true ∧ 0 < r.size) Bufio.content where
  ends r n hr hn hnil := by
    obtain ⟨hbuf, hflat⟩ := List.append_eq_nil_iff.mp hnil
    rw [Bufio.read, if_neg (not_not_intro hbuf)]
    split
    · obtain ⟨src, hread⟩ := sourceLaws.ends r.src n hr.1 hn hflat
      rw [hread]
      exact ⟨_, rfl⟩
    · obtain ⟨src, hread⟩ := sourceLaws.ends r.src r.size hr.1 hr.2 hflat
      rw [hread]
      exact ⟨_, rfl⟩
  gives r n hr hn hne := by
    by_cases hbuf : r.buf = []
    · have hcontent : r.content = r.src.chunks.flatten := by rw [Bufio.content, hbuf, List.nil_append]
      rw [hcontent] at hne ⊢
      rw [Bufio.read, if_neg (not_not_intro hbuf)]
      split
      · obtain ⟨bytes, src, hread, hbytes, hflat, hclosed⟩ := sourceLaws.gives r.src n hr.1 hn hne
        rw [hread]
        refine ⟨bytes, _, rfl, hbytes, ?_, hclosed, hr.2⟩
        rw [Bufio.content, hbuf, List.nil_append]
        exact hflat
      · obtain ⟨bytes, src, hread, hbytes, hflat, hclosed⟩ := sourceLaws.gives r.src r.size hr.1 hr.2 hne
        rw [hread]
        refine ⟨bytes.take n, _, rfl, take_ne_nil hn hbytes, ?_, hclosed, hr.2⟩
        rw [Bufio.content, ← List.append_assoc, List.take_append_drop]
        exact hflat
    · rw [Bufio.read, if_pos hbuf]
      refine ⟨r.buf.take n, _, rfl, take_ne_nil hn hbuf, ?_, hr⟩
      rw [Bufio.content, Bufio.content, ← List.append_assoc, List.take_append_drop]

end Meridian.Lib
