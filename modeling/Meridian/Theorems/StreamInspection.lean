import Meridian.Proxy.Framing

/-! What looking into a stream does to it. Nothing is lost: who reads the returned reader gets the stream, with the trace
    header after an HTTP/1 request line. But the look ahead waits for its full size, or for the end of the stream: a
    client that sends less and waits for the answer is never forwarded. -/

namespace Meridian.Proxy
open Lib Wire

/-! ### Lines -/

/-- A request line: three parts without spaces, the third of which starts a version 1 protocol. -/
def RequestLine (line : List UInt8) : Prop :=
  ∃ method target version, line = method ++ 0x20 :: (target ++ 0x20 :: version) ∧ 0x20 ∉ method ∧ 0x20 ∉ target ∧
    0x20 ∉ version ∧ ascii "HTTP/1." <+: version

theorem not_mem_of_mem_splitOn {a : UInt8} {l p : List UInt8} (h : p ∈ l.splitOn a) : a ∉ p := by
  induction l generalizing p with
  | nil =>
    rw [List.splitOn_nil, List.mem_singleton] at h
    rw [h]
    exact List.not_mem_nil
  | cons x l ih =>
    rw [List.splitOn_cons_eq_if_modifyHead] at h
    split at h
    · rcases List.mem_cons.mp h with rfl | h
      · exact List.not_mem_nil
      · exact ih h
    · rename_i hx
      cases hparts : l.splitOn a with
      | nil => exact absurd hparts (List.splitOn_ne_nil a l)
      | cons q parts =>
        rw [hparts] at h ih
        rcases List.mem_cons.mp h with rfl | h
        · have hq := ih List.mem_cons_self
          simp only [beq_iff_eq] at hx
          simp only [List.mem_cons, not_or]
          exact ⟨Ne.symm hx, hq⟩
        · exact ih (List.mem_cons_of_mem _ h)

theorem isHTTP1RequestLine_iff {line : List UInt8} : isHTTP1RequestLine line = true ↔ RequestLine line := by
  unfold isHTTP1RequestLine
  constructor
  · intro h
    split at h
    · rename_i method target version hsplit
      have hline : [(0x20 : UInt8)].intercalate (line.splitOn 0x20) = line := List.intercalate_splitOn _
      have hparts : ∀ p ∈ line.splitOn 0x20, (0x20 : UInt8) ∉ p := fun p => not_mem_of_mem_splitOn
      rw [hsplit] at hline hparts
      refine ⟨method, target, version, ?_, hparts _ (by simp), hparts _ (by simp), hparts _ (by simp),
        List.isPrefixOf_iff_prefix.mp h⟩
      rw [← hline]
      simp [List.intercalate]
    · cases h
  · rintro ⟨method, target, version, rfl, hm, ht, hv, hpre⟩
    rw [List.splitOn_append_cons_self_of_not_mem hm, List.splitOn_append_cons_self_of_not_mem ht,
      List.splitOn_eq_singleton hv]
    exact List.isPrefixOf_iff_prefix.mpr hpre

/-- The text up to its first line end. -/
def FirstLine (text line rest : List UInt8) : Prop := text = line ++ (crlf ++ rest) ∧ ¬ crlf <:+: line ++ [0x0d]

theorem FirstLine.upTo {text line rest : List UInt8} (h : FirstLine text line rest) : line ++ [0x0d] <+: text :=
  ⟨0x0a :: rest, by rw [h.1, List.append_assoc]; rfl⟩

/-- A text that starts with a line end has an empty first line. -/
theorem firstLine_crlf_iff {rest line rest' : List UInt8} :
    FirstLine (crlf ++ rest) line rest' ↔ line = [] ∧ rest' = rest := by
  constructor
  · intro h
    cases line with
    | nil => exact ⟨rfl, (List.append_cancel_left h.1).symm⟩
    | cons b line =>
      -- A longer line would hold the line end.
      refine absurd ?_ h.2
      cases line with
      | nil =>
        have htext := h.1
        simp [crlf] at htext
      | cons c line =>
        obtain ⟨htext, -⟩ := h
        simp only [crlf, List.cons_append, List.nil_append, List.cons.injEq] at htext
        obtain ⟨rfl, rfl, -⟩ := htext
        exact ⟨[], line ++ [0x0d], rfl⟩
  · rintro ⟨rfl, rfl⟩
    refine ⟨rfl, ?_⟩
    decide

/-- Behind a byte where no line end starts, the first line goes on. -/
theorem firstLine_cons_iff {b : UInt8} {text line rest : List UInt8} (hb : ¬ crlf <+: b :: text) :
    FirstLine (b :: text) line rest ↔ ∃ line', line = b :: line' ∧ FirstLine text line' rest := by
  constructor
  · intro h
    cases line with
    | nil => exact absurd ⟨rest, h.1.symm⟩ hb
    | cons c line =>
      obtain ⟨htext, hnot⟩ := h
      obtain ⟨rfl, hrest⟩ := List.cons.inj htext
      refine ⟨line, rfl, hrest, fun hinfix => hnot ?_⟩
      exact List.infix_cons_iff.mpr (.inr hinfix)
  · rintro ⟨line, rfl, h⟩
    refine ⟨by rw [h.1, List.cons_append], fun hinfix => ?_⟩
    rcases List.infix_cons_iff.mp hinfix with hpre | hinfix
    · exact hb (hpre.trans (List.cons_prefix_cons.mpr ⟨rfl, h.upTo⟩))
    · exact h.2 hinfix

theorem index_crlf_eq_some_iff {text : List UInt8} {idx : Nat} :
    index crlf text = some idx ↔ ∃ line rest, FirstLine text line rest ∧ line.length = idx := by
  induction text generalizing idx with
  | nil =>
    refine ⟨fun h => (by cases h), ?_⟩
    rintro ⟨line, rest, h, -⟩
    have hlen := congrArg List.length h.1
    simp [crlf] at hlen
  | cons b text ih =>
    by_cases hb : crlf <+: b :: text
    · obtain ⟨rest, hrest⟩ := hb
      rw [index, if_pos (List.isPrefixOf_iff_prefix.mpr ⟨rest, hrest⟩), ← hrest]
      simp only [firstLine_crlf_iff, Option.some.injEq]
      constructor
      · rintro rfl
        exact ⟨[], rest, ⟨rfl, rfl⟩, rfl⟩
      · rintro ⟨line, rest', ⟨rfl, -⟩, rfl⟩
        rfl
    · rw [index, if_neg fun h => hb (List.isPrefixOf_iff_prefix.mp h)]
      simp only [firstLine_cons_iff hb, Option.map_eq_some_iff, ih]
      constructor
      · rintro ⟨k, ⟨line, rest, hline, rfl⟩, rfl⟩
        exact ⟨b :: line, rest, ⟨line, rfl, hline⟩, rfl⟩
      · rintro ⟨-, rest, ⟨line, rfl, hline⟩, rfl⟩
        exact ⟨line.length, ⟨line, rest, hline, rfl⟩, rfl⟩

/-! ### The look ahead -/

/-- What `Peek` gives on a new reader over a source. -/
structure Peeked (src : Source) (peeked : List UInt8) (err : Bool) (br : Bufio) : Prop where
  bytes : peeked = src.chunks.flatten.take peekSize
  buffered : br.buf = peeked
  content : br.content = src.chunks.flatten
  size : br.size = peekSize
  closed : br.src.closed = src.closed
  ended : err = true → src.closed = true
  full : err = false → peekSize ≤ src.chunks.flatten.length ∧ br.src.reads = src.reads + readsFor peekSize src.chunks

/-- The look ahead returns unless the stream is open and shorter than its size. -/
theorem peek_new_cases (src : Source) :
    (∃ peeked err br, (Bufio.new peekSize src).peek peekSize = some (peeked, err, br) ∧ Peeked src peeked err br) ∨
    ((Bufio.new peekSize src).peek peekSize = none ∧ src.chunks.flatten.length < peekSize ∧ src.closed = false) := by
  have hcontent : (Bufio.new peekSize src).content = src.chunks.flatten := List.nil_append _
  have hfill : Bufio.Filled (Bufio.new peekSize src) peekSize ((Bufio.new peekSize src).fillTo peekSize) :=
    Bufio.filled_fillTo rfl (Nat.zero_le _)
  rw [Bufio.peek]
  generalize (Bufio.new peekSize src).fillTo peekSize = filled at hfill
  cases hfill with
  | full src' hle hrest hclosed hreads =>
    rw [hcontent] at hle hrest ⊢
    have htake : (src.chunks.flatten.take peekSize).take peekSize = src.chunks.flatten.take peekSize := by
      rw [List.take_take, Nat.min_self]
    refine .inl ⟨_, _, _, rfl, htake, htake.symm, ?_, rfl, hclosed, fun h => (by cases h), fun _ => ⟨hle, hreads⟩⟩
    rw [Bufio.content, hrest, List.take_append_drop]
  | ended src' hlt hrest hclosed hsrc =>
    rw [hcontent] at hlt ⊢
    have htake : src.chunks.flatten.take peekSize = src.chunks.flatten := List.take_of_length_le (Nat.le_of_lt hlt)
    refine .inl ⟨_, _, _, rfl, rfl, htake.symm, ?_, rfl, hsrc.trans hclosed.symm, fun _ => hclosed, fun h => (by cases h)⟩
    rw [Bufio.content, hrest, List.append_nil]
  | waits hlt hclosed =>
    rw [hcontent] at hlt
    exact .inr ⟨rfl, hlt, hclosed⟩

/-- The look ahead of the connection handler, which knows only what the client sends in all, is that of the reader. -/
theorem client_peek_eq (src : Source) :
    Client.peek ⟨src.chunks.flatten, src.closed⟩ = ((Bufio.new peekSize src).peek peekSize).map (·.1) := by
  rw [Client.peek]
  obtain ⟨peeked, err, br, hpeek, h⟩ | ⟨hnone, hlt, hopen⟩ := peek_new_cases src
  · rw [hpeek, Option.map_some, h.bytes]
    split
    · rfl
    · rename_i hshort
      rw [List.take_of_length_le (Nat.le_of_not_le hshort)]
      cases err with
      | false => exact absurd (h.full rfl).1 hshort
      | true => simp [h.ended rfl]
  · rw [hnone, if_neg (Nat.not_le.mpr hlt)]
    simp [hopen]

namespace StreamReader

def content : StreamReader → List UInt8
  | .conn src => src.chunks.flatten
  | .buffered r => r.content
  | .multi head r => head ++ r.content

/-- The sender has closed its side, and a buffer has room. -/
def Ready : StreamReader → Prop
  | .conn src => src.closed = true
  | .buffered r => r.src.closed = true ∧ 0 < r.size
  | .multi _ r => r.src.closed = true ∧ 0 < r.size

theorem laws : ReaderLaws read Ready content where
  ends r n hr hn hnil := by
    cases r with
    | conn src =>
      obtain ⟨src', hread⟩ := sourceLaws.ends src n hr hn hnil
      exact ⟨.conn src', by rw [read, hread]⟩
    | buffered r =>
      obtain ⟨r', hread⟩ := bufioLaws.ends r n hr hn hnil
      exact ⟨.buffered r', by rw [read, hread, ofBufio]⟩
    | multi head r =>
      obtain ⟨hhead, hrest⟩ := List.append_eq_nil_iff.mp hnil
      obtain ⟨r', hread⟩ := bufioLaws.ends r n hr hn hrest
      exact ⟨.buffered r', by rw [read, if_neg (not_not_intro hhead), hread, ofBufio]⟩
  gives r n hr hn hne := by
    cases r with
    | conn src =>
      obtain ⟨bytes, src', hread, hbytes, hflat, hclosed⟩ := sourceLaws.gives src n hr hn hne
      exact ⟨bytes, .conn src', by rw [read, hread], hbytes, hflat, hclosed⟩
    | buffered r =>
      obtain ⟨bytes, r', hread, hbytes, hflat, hclosed⟩ := bufioLaws.gives r n hr hn hne
      exact ⟨bytes, .buffered r', by rw [read, hread, ofBufio], hbytes, hflat, hclosed⟩
    | multi head r =>
      by_cases hhead : head = []
      · rw [content, hhead, List.nil_append] at hne ⊢
        obtain ⟨bytes, r', hread, hbytes, hflat, hclosed⟩ := bufioLaws.gives r n hr hn hne
        exact ⟨bytes, .buffered r', by rw [read, if_neg (by simp), hread, ofBufio], hbytes, hflat, hclosed⟩
      · refine ⟨head.take n, .multi (head.drop n) r, by rw [read, if_pos hhead], take_ne_nil hn hhead, ?_, hr⟩
        rw [content, content, ← List.append_assoc, List.take_append_drop]

end StreamReader

/-! ### Nothing is lost -/

/-- Who reads to the end, with whatever room for each read, gets the text. -/
def Yields (r : StreamReader) (text : List UInt8) : Prop :=
  ∀ rooms : List Nat, (∀ n ∈ rooms, 0 < n) → text.length < rooms.length → readAll StreamReader.read rooms r = (text, true)

theorem yields_content {r : StreamReader} (hr : r.Ready) : Yields r r.content :=
  fun _ hrooms hlen => StreamReader.laws.readAll_eq hrooms hr hlen

/-- The line after which the trace header goes, and what follows it. -/
def Traced (traceparent stream line rest : List UInt8) : Prop :=
  traceparent ≠ [] ∧ FirstLine stream line rest ∧ line.length + 2 ≤ peekSize ∧ RequestLine line

/-- A first line within the first `k` bytes is one of the stream. -/
theorem firstLine_take_iff {stream line : List UInt8} {k : Nat} :
    (∃ rest, FirstLine (stream.take k) line rest) ↔ (∃ rest, FirstLine stream line rest) ∧ line.length + 2 ≤ k := by
  constructor
  · rintro ⟨rest, htake, hnot⟩
    refine ⟨⟨rest ++ stream.drop k, ?_, hnot⟩, ?_⟩
    · rw [← List.append_assoc crlf, ← List.append_assoc, ← htake, List.take_append_drop]
    · have hlen := congrArg List.length htake
      rw [List.length_take, List.length_append, List.length_append, show crlf.length = 2 from rfl] at hlen
      omega
  · rintro ⟨⟨rest, rfl, hnot⟩, hlen⟩
    refine ⟨rest.take (k - (line.length + 2)), ?_, hnot⟩
    rw [List.take_append, List.take_of_length_le (by omega), List.take_append,
      List.take_of_length_le (show crlf.length ≤ k - line.length from Nat.le_sub_of_add_le (by
        rw [show crlf.length = 2 from rfl]; omega)), show crlf.length = 2 from rfl, Nat.sub_sub]

theorem index_peeked_eq_some_iff {stream : List UInt8} {idx : Nat} :
    index crlf (stream.take peekSize) = some idx ↔
      ∃ line rest, FirstLine stream line rest ∧ line.length = idx ∧ line.length + 2 ≤ peekSize := by
  rw [index_crlf_eq_some_iff]
  constructor
  · rintro ⟨line, rest, h, rfl⟩
    obtain ⟨⟨rest', h'⟩, hlen⟩ := firstLine_take_iff.mp ⟨rest, h⟩
    exact ⟨line, rest', h', rfl, hlen⟩
  · rintro ⟨line, rest, h, rfl, hlen⟩
    obtain ⟨rest', h'⟩ := firstLine_take_iff.mpr ⟨⟨rest, h⟩, hlen⟩
    exact ⟨line, rest', h', rfl⟩

/-- The first line is one. -/
theorem FirstLine.unique {stream line rest line' rest' : List UInt8} (h : FirstLine stream line rest)
    (h' : FirstLine stream line' rest') : line = line' ∧ rest = rest' := by
  have hlen : line.length = line'.length := by
    have hidx := index_crlf_eq_some_iff.mpr ⟨line, rest, h, rfl⟩
    rw [index_crlf_eq_some_iff.mpr ⟨line', rest', h', rfl⟩] at hidx
    exact (Option.some.inj hidx).symm
  obtain ⟨hline, hrest⟩ := List.append_inj (h.1.symm.trans h'.1) hlen
  exact ⟨hline, List.append_cancel_left hrest⟩

section
variable {src : Source} {peeked : List UInt8} {err : Bool} {br : Bufio}

theorem Peeked.ready (h : Peeked src peeked err br) (hclosed : src.closed = true) : (StreamReader.buffered br).Ready :=
  ⟨h.closed.trans hclosed, by rw [h.size]; decide⟩

/-- A first line within the look ahead is buffered with its line end. -/
theorem Peeked.split (h : Peeked src peeked err br) {line rest : List UInt8} (hline : FirstLine src.chunks.flatten line rest)
    (hlen : line.length + 2 ≤ peekSize) : peeked = (line ++ crlf) ++ rest.take (peekSize - (line.length + 2)) := by
  have htwo : (line ++ crlf).length = line.length + 2 := List.length_append
  rw [h.bytes, hline.1, ← List.append_assoc, List.take_append, List.take_of_length_le (by omega), htwo]

/-- Reading that line takes it from the buffer, and leaves the rest of the stream. -/
theorem Peeked.readLine (h : Peeked src peeked err br) {line rest : List UInt8}
    (hline : FirstLine src.chunks.flatten line rest) (hlen : line.length + 2 ≤ peekSize) :
    ∃ after : Bufio, br.readFull (line.length + 2) = some (line ++ crlf, true, after) ∧ after.content = rest ∧
      after.size = peekSize ∧ after.src = br.src := by
  have htwo : (line ++ crlf).length = line.length + 2 := List.length_append
  have hbuf : br.buf = (line ++ crlf) ++ rest.take (peekSize - (line.length + 2)) :=
    h.buffered.trans (h.split hline hlen)
  refine ⟨{ br with buf := br.buf.drop (line.length + 2) }, ?_, ?_, h.size, rfl⟩
  · have hread := br.readFull_of_le (n := line.length + 2) (by omega) (by rw [hbuf, List.length_append]; omega)
    rw [hread, hbuf, List.take_left' htwo]
  · have hcontent := h.content
    rw [Bufio.content, hbuf, List.append_assoc, hline.1, ← List.append_assoc line] at hcontent
    rw [Bufio.content, hbuf, List.drop_left' htwo]
    exact List.append_cancel_left hcontent

/-- The reader that `injectTraceparent` returns after its look ahead: the whole stream, or the stream with the header
    after its first line, and no further read in either case. -/
theorem injectTraceparent_peeked (h : Peeked src peeked err br)
    (hpeek : (Bufio.new peekSize src).peek peekSize = some (peeked, err, br)) {traceparent : List UInt8}
    (ht : traceparent ≠ []) :
    (∃ line rest, Traced traceparent src.chunks.flatten line rest ∧ ∃ after : Bufio,
      injectTraceparent src traceparent =
        some (.multi (line ++ crlf ++ (ascii "traceparent: " ++ traceparent ++ crlf)) after) ∧
      after.content = rest ∧ after.size = peekSize ∧ after.src = br.src) ∨
    ((¬ ∃ line rest, Traced traceparent src.chunks.flatten line rest) ∧
      injectTraceparent src traceparent = some (.buffered br)) := by
  rw [injectTraceparent, if_neg ht, hpeek]
  dsimp only
  cases hidx : index crlf peeked with
  | none =>
    refine .inr ⟨?_, ?_⟩
    · rintro ⟨line, rest, -, hline, hlen, -⟩
      rw [h.bytes, index_peeked_eq_some_iff.mpr ⟨line, rest, hline, rfl, hlen⟩] at hidx
      cases hidx
    · split <;> rfl
  | some idx =>
    have hidx' := hidx
    rw [h.bytes, index_peeked_eq_some_iff] at hidx'
    obtain ⟨line, rest, hline, rfl, hlen⟩ := hidx'
    have hpeeked := h.split hline hlen
    have htake : peeked.take line.length = line := by
      rw [hpeeked, List.append_assoc, List.take_left]
    have hne : peeked ≠ [] := by
      rw [hpeeked]
      simp [crlf]
    rw [if_neg (by simp [hne])]
    dsimp only
    rw [htake]
    by_cases hreq : isHTTP1RequestLine line = true
    · obtain ⟨after, hread, hafter⟩ := h.readLine hline hlen
      refine .inl ⟨line, rest, ⟨ht, hline, hlen, isHTTP1RequestLine_iff.mp hreq⟩, after, ?_, hafter⟩
      simp only [hreq, hread, Bool.not_true, Bool.false_eq_true, if_false]
    · refine .inr ⟨?_, by simp [hreq]⟩
      rintro ⟨line', rest', -, hline', -, hreq'⟩
      obtain ⟨rfl, -⟩ := hline.unique hline'
      exact hreq (isHTTP1RequestLine_iff.mpr hreq')

end

/-- Both inspections of a closed stream return a reader that gives it back, the second one with the trace header after
    an HTTP/1 request line within the look ahead. -/
theorem inspection_lossless (readRequest : List UInt8 → Option HttpRequest) (rules : List CompiledL7Rule)
    (chunks : List (List UInt8)) (traceparent : List UInt8) :
    (∃ action req r, peekAndMatchL7Conn readRequest ⟨chunks, true, 0⟩ rules = some (action, req, r) ∧
      Yields r chunks.flatten) ∧
    ∃ r, injectTraceparent ⟨chunks, true, 0⟩ traceparent = some r ∧
      (∀ line rest, Traced traceparent chunks.flatten line rest →
        Yields r (line ++ crlf ++ (ascii "traceparent: " ++ traceparent ++ crlf) ++ rest)) ∧
      ((¬ ∃ line rest, Traced traceparent chunks.flatten line rest) → Yields r chunks.flatten) := by
  obtain ⟨peeked, err, br, hpeek, h⟩ | ⟨-, -, hopen⟩ := peek_new_cases ⟨chunks, true, 0⟩
  · have hyields : Yields (.buffered br) chunks.flatten := by
      have hall := yields_content (h.ready rfl)
      rwa [StreamReader.content, h.content] at hall
    refine ⟨?_, ?_⟩
    · rw [peekAndMatchL7Conn, hpeek]
      dsimp only
      split
      · exact ⟨_, _, _, rfl, hyields⟩
      · exact ⟨_, _, _, rfl, hyields⟩
    · by_cases ht : traceparent = []
      · refine ⟨.conn ⟨chunks, true, 0⟩, by rw [injectTraceparent, if_pos ht], ?_, fun _ => ?_⟩
        · rintro line rest ⟨hne, -⟩
          exact absurd ht hne
        · exact yields_content (r := .conn ⟨chunks, true, 0⟩) (Eq.refl true)
      · obtain ⟨line, rest, htraced, after, heq, hcontent, hsize, hsrc⟩ | ⟨hnot, heq⟩ := injectTraceparent_peeked h hpeek ht
        · refine ⟨_, heq, fun line' rest' htraced' => ?_, fun hnot => absurd ⟨line, rest, htraced⟩ hnot⟩
          obtain ⟨rfl, rfl⟩ := htraced.2.1.unique htraced'.2.1
          have hready : (StreamReader.multi (line ++ crlf ++ (ascii "traceparent: " ++ traceparent ++ crlf)) after).Ready :=
            ⟨by rw [hsrc]; exact h.closed, by rw [hsize]; decide⟩
          have hall := yields_content hready
          rwa [StreamReader.content, hcontent] at hall
        · exact ⟨_, heq, fun line rest htraced => absurd ⟨line, rest, htraced⟩ hnot, fun _ => hyields⟩
  · cases hopen

/-- A request that arrives in two parts gets its header. -/
theorem inspection_lossless_two :
    ∃ r, injectTraceparent ⟨[ascii "GET / HT", ascii "TP/1.1\r\n\r\n"], true, 0⟩ (ascii "00-1") = some r ∧
      Yields r (ascii "GET / HTTP/1.1" ++ crlf ++ (ascii "traceparent: " ++ ascii "00-1" ++ crlf) ++ crlf) := by
  obtain ⟨r, hr, htraced, -⟩ := (inspection_lossless (fun _ => none) [] [ascii "GET / HT", ascii "TP/1.1\r\n\r\n"]
    (ascii "00-1")).2
  exact ⟨r, hr, htraced (ascii "GET / HTTP/1.1") crlf
    ⟨by decide, ⟨by decide, by decide⟩, by decide, isHTTP1RequestLine_iff.mp (by decide)⟩⟩

/-! ### Waiting -/

/-- The head of an HTTP/1 request: a request line, and everything through the first blank line. -/
structure RequestHead (head : List UInt8) : Prop where
  line : ∃ line rest, FirstLine head line rest ∧ RequestLine line
  blank : crlf ++ crlf <:+ head
  first : ¬ crlf ++ crlf <:+: head.dropLast

/-- On an open connection the look ahead returns exactly when its size has arrived, after the reads that deliver it. -/
theorem peek_open_iff (chunks : List (List UInt8)) (m : Nat) :
    (∃ peeked err br, (Bufio.new peekSize ⟨chunks, false, 0⟩).peek peekSize = some (peeked, err, br) ∧
      br.src.reads ≤ readsFor m chunks) ↔ peekSize ≤ (through m chunks).length := by
  obtain ⟨peeked, err, br, hpeek, h⟩ | ⟨hnone, hlt, -⟩ := peek_new_cases ⟨chunks, false, 0⟩
  · have herr : err = false := by
      cases err with
      | false => rfl
      | true => cases h.ended rfl
    obtain ⟨hle, hreads⟩ := h.full herr
    rw [Nat.zero_add] at hreads
    rw [← readsFor_le_iff m hle, ← hreads, hpeek]
    constructor
    · rintro ⟨_, _, _, heq, hcount⟩
      cases heq
      exact hcount
    · intro hcount
      exact ⟨_, _, _, rfl, hcount⟩
  · rw [hnone]
    have hthrough := length_through_le m chunks
    dsimp only at hlt
    refine iff_of_false ?_ (by omega)
    rintro ⟨-, -, -, ⟨⟩, -⟩

theorem peekAndMatchL7Conn_open_iff (readRequest : List UInt8 → Option HttpRequest) (rules : List CompiledL7Rule)
    (chunks : List (List UInt8)) (m : Nat) :
    (∃ action req r, peekAndMatchL7Conn readRequest ⟨chunks, false, 0⟩ rules = some (action, req, r) ∧
      r.src.reads ≤ readsFor m chunks) ↔ peekSize ≤ (through m chunks).length := by
  rw [← peek_open_iff, peekAndMatchL7Conn]
  cases hpeek : (Bufio.new peekSize ⟨chunks, false, 0⟩).peek peekSize with
  | none => simp
  | some p =>
    obtain ⟨peeked, err, br⟩ := p
    dsimp only
    constructor
    · rintro ⟨action, req, r, heq, hcount⟩
      refine ⟨_, _, _, rfl, ?_⟩
      split at heq
      · cases heq
        exact hcount
      · cases heq
        exact hcount
    · rintro ⟨_, _, _, heq, hcount⟩
      cases heq
      split
      · exact ⟨_, _, _, rfl, hcount⟩
      · exact ⟨_, _, _, rfl, hcount⟩

theorem injectTraceparent_open_iff (chunks : List (List UInt8)) {traceparent : List UInt8} (ht : traceparent ≠ [])
    (m : Nat) :
    (∃ r, injectTraceparent ⟨chunks, false, 0⟩ traceparent = some r ∧ r.src.reads ≤ readsFor m chunks) ↔
      peekSize ≤ (through m chunks).length := by
  rw [← peek_open_iff]
  obtain ⟨peeked, err, br, hpeek, h⟩ | ⟨hnone, -⟩ := peek_new_cases ⟨chunks, false, 0⟩
  · -- Neither kind of reader has read more than the look ahead.
    obtain ⟨r, heq, hsrc⟩ : ∃ r, injectTraceparent ⟨chunks, false, 0⟩ traceparent = some r ∧ r.src = br.src := by
      obtain ⟨line, rest, -, after, heq, -, -, hsrc⟩ | ⟨-, heq⟩ := injectTraceparent_peeked h hpeek ht
      · exact ⟨_, heq, hsrc⟩
      · exact ⟨_, heq, rfl⟩
    rw [heq, hpeek]
    constructor
    · rintro ⟨_, hr, hcount⟩
      cases hr
      exact ⟨_, _, _, rfl, hsrc ▸ hcount⟩
    · rintro ⟨_, _, _, hp, hcount⟩
      cases hp
      exact ⟨r, rfl, by rw [hsrc]; exact hcount⟩
  · rw [injectTraceparent, if_neg ht, hnone]
    simp

/-- Whatever head the stream begins with: the inspections return with the read that delivers its last byte exactly when
    the chunks up to that byte fill the look ahead, and the second one also when there is no header to add. -/
theorem inspection_returns_iff (readRequest : List UInt8 → Option HttpRequest) (rules : List CompiledL7Rule)
    (chunks : List (List UInt8)) (head traceparent : List UInt8) :
    ((∃ action req r, peekAndMatchL7Conn readRequest ⟨chunks, false, 0⟩ rules = some (action, req, r) ∧
      r.src.reads ≤ readsFor head.length chunks) ↔ 8192 ≤ (through head.length chunks).length) ∧
    ((∃ r, injectTraceparent ⟨chunks, false, 0⟩ traceparent = some r ∧ r.src.reads ≤ readsFor head.length chunks) ↔
      traceparent = [] ∨ 8192 ≤ (through head.length chunks).length) := by
  refine ⟨peekAndMatchL7Conn_open_iff readRequest rules chunks head.length, ?_⟩
  by_cases ht : traceparent = []
  · refine iff_of_true ⟨.conn ⟨chunks, false, 0⟩, by rw [injectTraceparent, if_pos ht], Nat.zero_le _⟩ (.inl ht)
  · rw [or_iff_right ht]
    exact injectTraceparent_open_iff chunks ht head.length

def hostHead : List UInt8 := ascii "GET / HTTP/1.1\r\nHost: a\r\n\r\n"

theorem requestHead_hostHead : RequestHead hostHead where
  line := ⟨ascii "GET / HTTP/1.1", ascii "Host: a\r\n\r\n", ⟨by decide, by decide⟩, isHTTP1RequestLine_iff.mp (by decide)⟩
  blank := by decide
  first := by decide

/-- A head that comes with a body which fills the look ahead. -/
theorem inspection_returns_full :
    ∃ action req r, peekAndMatchL7Conn (fun _ => none) ⟨[hostHead ++ List.replicate 8192 0], false, 0⟩ [] =
      some (action, req, r) ∧ r.src.reads ≤ readsFor hostHead.length [hostHead ++ List.replicate 8192 0] := by
  refine (inspection_returns_iff (fun _ => none) [] _ hostHead []).1.mpr ?_
  rw [through, if_neg (by decide), List.length_append, List.length_append, List.length_replicate]
  omega

/-- A request without a body from a client that waits for the answer: neither inspection returns. -/
theorem inspection_waits_for_more :
    RequestHead hostHead ∧ hostHead.length ≤ 8192 ∧ hostHead <+: [hostHead].flatten ∧
    peekAndMatchL7Conn (fun _ => none) ⟨[hostHead], false, 0⟩ [] = none ∧
    injectTraceparent ⟨[hostHead], false, 0⟩ (ascii "00-1") = none := by
  have hwaits : (Bufio.new peekSize ⟨[hostHead], false, 0⟩).peek peekSize = none := by
    obtain ⟨peeked, err, br, -, h⟩ | ⟨hnone, -⟩ := peek_new_cases ⟨[hostHead], false, 0⟩
    · cases err with
      | true => cases h.ended rfl
      | false => exact absurd (h.full rfl).1 (by decide)
    · exact hnone
  refine ⟨requestHead_hostHead, by decide, by decide, ?_, ?_⟩
  · rw [peekAndMatchL7Conn, hwaits]
  · rw [injectTraceparent, if_neg (by decide), hwaits]

end Meridian.Proxy
