import Meridian.Lib.Script
import Meridian.Bpf.Ingress
import Meridian.Theorems.EgressStamp

/-! The functions that rewrite a packet as scripts of helper calls. On a packet that is long enough, every call of
    such a function is within its bounds, so that only the pattern of failures decides how far the function gets, and
    the packet it leaves is that of a prefix of its writes. -/

namespace Meridian.Bpf
open Lib

/-- What a helper call does to the packet when it succeeds. -/
abbrev Call := List UInt8 → List UInt8

def Ctx.attempt (env : Env) (c : Ctx) (calls : List Call) : Bool × Ctx :=
  let r := Lib.attempt env.skbFails calls c.skbCalls c.skb.data
  (r.1, { c with skb := { c.skb with data := r.2.2 }, skbCalls := r.2.1 })

/-! ### Single calls -/

section
variable {env : Env} {c : Ctx}

theorem attempt_pair (f : Call) :
    c.attempt env [f] =
      if env.skbFails c.skbCalls then (true, { c with skbCalls := c.skbCalls + 1 }) else (false, c.after (f c.skb.data) 1) := by
  unfold Ctx.attempt Lib.attempt
  cases env.skbFails c.skbCalls <;> rfl

theorem pullData_eq_attempt (env : Env) (c : Ctx) : bpfSkbPullData env c = c.attempt env [id] := by
  rw [attempt_pair, bpfSkbPullData]
  cases env.skbFails c.skbCalls <;> rfl

theorem changeHead_eq_attempt (env : Env) (c : Ctx) (n : Nat) :
    bpfSkbChangeHead env c n = c.attempt env [fun d => List.replicate n 0 ++ d] := by
  rw [attempt_pair, bpfSkbChangeHead]

variable {f : Call} {calls : List Call}

theorem storeBytes_eq_attempt {off : Nat} {src : List UInt8} (h : off + src.length ≤ c.skb.data.length)
    (hf : f c.skb.data = overwrite c.skb.data off src) : bpfSkbStoreBytes env c off src = c.attempt env [f] := by
  rw [attempt_pair, hf, bpfSkbStoreBytes, decide_eq_false (Nat.not_lt.mpr h), Bool.or_false]

theorem l4CsumReplace_eq_attempt {off : Nat} {old new : UInt16} (heven : off % 2 = 0) (h : off + 2 ≤ c.skb.data.length)
    (hf : f c.skb.data = overwrite c.skb.data off (bytesU16 (csumReplace2 (loadU16 c.skb.data off) old new))) :
    bpfL4CsumReplace env c off old new = c.attempt env [f] := by
  have hodd : ¬off % 2 = 1 := by omega
  rw [attempt_pair, hf, bpfL4CsumReplace, decide_eq_false (Nat.not_lt.mpr h), decide_eq_false hodd, Bool.or_false,
    Bool.or_false]

/-! ### Sequences -/

theorem orFail_attempt {more : List Call} {rest : Ctx → Bool × Ctx}
    (h : ∀ c' : Ctx, c'.skb.data = applyAll calls c.skb.data → rest c' = c'.attempt env more) :
    orFail (c.attempt env calls) rest = c.attempt env (calls ++ more) := by
  unfold Ctx.attempt
  rw [attempt_append]
  by_cases hall : AllSucceed env.skbFails c.skbCalls calls.length
  · rw [attempt_of_succeed hall]
    exact h _ rfl
  · rw [attempt_of_fail hall]
    rfl

theorem orFailLoad_attempt {off len : Nat} {more : List Call} {rest : List UInt8 → Ctx → Bool × Ctx}
    (hin : off + len ≤ c.skb.data.length)
    (h : ∀ c' : Ctx, c'.skb.data = c.skb.data → rest ((c.skb.data.drop off).take len) c' = c'.attempt env more) :
    orFailLoad (bpfSkbLoadBytes env c off len) rest = c.attempt env (id :: more) := by
  have hload : bpfSkbLoadBytes env c off len =
      if env.skbFails c.skbCalls then (none, { c with skbCalls := c.skbCalls + 1 })
      else (some ((c.skb.data.drop off).take len), { c with skbCalls := c.skbCalls + 1 }) := by
    rw [bpfSkbLoadBytes, decide_eq_false (Nat.not_lt.mpr hin), Bool.or_false]
  have happend : orFail (c.attempt env [id]) (fun c' => c'.attempt env more) = c.attempt env ([id] ++ more) :=
    orFail_attempt fun _ _ => rfl
  rw [List.singleton_append] at happend
  rw [← happend, attempt_pair, hload]
  cases env.skbFails c.skbCalls with
  | true => rfl
  | false => exact h _ rfl

theorem orFail_call {r : Bool × Ctx} {more : List Call} {rest : Ctx → Bool × Ctx} (hr : r = c.attempt env [f])
    (h : ∀ c' : Ctx, c'.skb.data = f c.skb.data → rest c' = c'.attempt env more) :
    orFail r rest = c.attempt env (f :: more) := by
  rw [hr]
  exact orFail_attempt h

theorem Ctx.attempt_succeed (h : AllSucceed env.skbFails c.skbCalls calls.length) :
    c.attempt env calls = (false, c.after (applyAll calls c.skb.data) calls.length) := by
  unfold Ctx.attempt
  rw [attempt_of_succeed h]
  rfl

theorem Ctx.attempt_fail (h : ¬AllSucceed env.skbFails c.skbCalls calls.length) : c.attempt env calls =
      (true, c.after (applyAll (calls.take (successes env.skbFails c.skbCalls calls.length)) c.skb.data)
        (successes env.skbFails c.skbCalls calls.length + 1)) := by
  unfold Ctx.attempt
  rw [attempt_of_fail h]
  rfl

theorem attempt_of_working (h : ∀ n, env.skbFails n = false) :
    c.attempt env calls = (false, c.after (applyAll calls c.skb.data) calls.length) :=
  Ctx.attempt_succeed fun _ _ => h _

end

/-! ### Moving bytes towards the head -/

def moveByte (src dst : Nat) : Call := fun d => overwrite d dst ((d.drop src).take 1)

/-- `k` bytes are moved one by one, each by a load and a store. -/
def moveCalls : Nat → Nat → Nat → List Call
  | _, _, 0 => []
  | src, dst, k + 1 => id :: moveByte src dst :: moveCalls (src + 1) (dst + 1) k

@[simp] theorem length_moveCalls (src dst k : Nat) : (moveCalls src dst k).length = 2 * k := by
  induction k generalizing src dst with
  | zero => rfl
  | succ k ih =>
    rw [moveCalls, List.length_cons, List.length_cons, ih]
    omega

section
variable {d : List UInt8} {src dst k : Nat}

theorem take_one_drop (h : src < d.length) : (d.drop src).take 1 = [d.get ⟨src, h⟩] := by
  rw [List.drop_eq_getElem_cons h]
  rfl

/-- The stores never reach a byte that is still to be loaded. By induction on the bytes left. -/
theorem applyAll_moveCalls (h : dst ≤ src) (hlen : src + k ≤ d.length) :
    applyAll (moveCalls src dst k) d = overwrite d dst ((d.drop src).take k) := by
  induction k generalizing src dst d with
  | zero => simp [moveCalls, overwrite]
  | succ k ih =>
    have hsrc : src < d.length := by omega
    have hone : [d.get ⟨src, hsrc⟩].length = 1 := rfl
    have hlast : (d.drop src).take (k + 1) = [d.get ⟨src, hsrc⟩] ++ (d.drop (src + 1)).take k := by
      rw [List.drop_eq_getElem_cons hsrc]
      rfl
    have hrest : (overwrite d dst [d.get ⟨src, hsrc⟩]).drop (src + 1) = d.drop (src + 1) :=
      drop_overwrite (by rw [hone]; omega) (by rw [hone]; omega)
    have hlength := @length_overwrite d [d.get ⟨src, hsrc⟩] dst (by rw [hone]; omega)
    rw [moveCalls, applyAll_cons, applyAll_cons, id, moveByte, take_one_drop hsrc, ih (by omega) (by omega), hrest, hlast]
    refine overwrite_append ?_
    rw [List.length_append, List.length_take, List.length_drop, hone]
    omega

theorem applyAll_take_moveCalls {m : Nat} (h : m ≤ 2 * k) :
    applyAll ((moveCalls src dst k).take m) d = applyAll (moveCalls src dst (m / 2)) d := by
  induction k generalizing src dst d m with
  | zero =>
    obtain rfl := Nat.le_zero.mp h
    rfl
  | succ k ih =>
    match m with
    | 0 => rfl
    | 1 => rfl
    | m + 2 =>
      rw [Nat.add_div_right m Nat.two_pos, moveCalls, moveCalls, List.take_succ_cons, List.take_succ_cons]
      exact ih (by omega)

theorem length_applyAll_moveCalls (h : dst ≤ src) (hlen : src + k ≤ d.length) :
    (applyAll (moveCalls src dst k) d).length = d.length := by
  rw [applyAll_moveCalls h hlen]
  refine length_overwrite ?_
  rw [List.length_take, List.length_drop]
  omega

end

section
variable {env : Env} {c : Ctx} {more : List Call} {rest : Ctx → Bool × Ctx} {off : Nat} {d : List UInt8}

/-- A load and a store of one byte, and what comes after. -/
theorem moveByte_attempt {src dst : Nat} (hsrc : src < c.skb.data.length) (hdst : dst ≤ src)
    (h : ∀ c' : Ctx, c'.skb.data = moveByte src dst c.skb.data → rest c' = c'.attempt env more) :
    (orFailLoad (bpfSkbLoadBytes env c src 1) fun b c => orFail (bpfSkbStoreBytes env c dst b) rest) =
      c.attempt env (id :: moveByte src dst :: more) := by
  refine orFailLoad_attempt hsrc fun c₁ hc₁ => ?_
  have hstore : bpfSkbStoreBytes env c₁ dst ((c.skb.data.drop src).take 1) = c₁.attempt env [moveByte src dst] := by
    refine storeBytes_eq_attempt ?_ (by rw [moveByte, hc₁])
    rw [take_one_drop hsrc, hc₁, List.length_singleton]
    omega
  exact orFail_call hstore fun c₂ hc₂ => h c₂ (by rw [hc₂, hc₁])

theorem copyHeadLoop_eq_attempt {roomOff n i : Nat} (hn : roomOff ≤ i + n) (hlen : roomOff + 8 ≤ c.skb.data.length) :
    copyHeadLoop env roomOff n i c = c.attempt env (moveCalls (8 + i) i (roomOff - i)) := by
  induction n generalizing i c with
  | zero =>
    rw [show roomOff - i = 0 by omega]
    rfl
  | succ n ih =>
    by_cases hlt : i < roomOff
    · have hmove : (moveByte (8 + i) i c.skb.data).length = c.skb.data.length :=
        @length_applyAll_moveCalls c.skb.data (8 + i) i 1 (by omega) (by omega)
      rw [copyHeadLoop, if_pos hlt, show roomOff - i = roomOff - (i + 1) + 1 by omega, moveCalls]
      refine moveByte_attempt (show 8 + i < _ by omega) (by omega) fun c' hc' => ?_
      exact ih (by omega) (Nat.le_trans hlen (Nat.le_of_eq (hmove.symm.trans (congrArg List.length hc'.symm))))
    · rw [copyHeadLoop_done env roomOff (n + 1) i c (by omega), show roomOff - i = 0 by omega]
      rfl

theorem stripShiftLoop_eq_attempt {base innerLen n i : Nat} (hn : innerLen ≤ i + n) (hbase : 8 ≤ base)
    (hlen : base + innerLen ≤ c.skb.data.length) :
    stripShiftLoop env base innerLen n i c = c.attempt env (moveCalls (base + i) (base - 8 + i) (innerLen - i)) := by
  induction n generalizing i c with
  | zero =>
    rw [show innerLen - i = 0 by omega]
    rfl
  | succ n ih =>
    rw [stripShiftLoop]
    by_cases hge : i ≥ innerLen
    · rw [if_pos hge, show innerLen - i = 0 by omega]
      rfl
    · have hmove : (moveByte (base + i) (base - 8 + i) c.skb.data).length = c.skb.data.length :=
        @length_applyAll_moveCalls c.skb.data (base + i) (base - 8 + i) 1 (by omega) (by omega)
      rw [if_neg hge, show innerLen - i = innerLen - (i + 1) + 1 by omega, moveCalls]
      refine moveByte_attempt (by omega) (show base - 8 + i ≤ _ by omega) fun c' hc' => ?_
      exact ih (by omega) (Nat.le_trans hlen (Nat.le_of_eq (hmove.symm.trans (congrArg List.length hc'.symm))))

/-! ### Stripping -/

/-- The word at `off` is rewritten eight lower. -/
def lowerWord (off : Nat) : Call := fun d =>
  overwrite d off (bytesU16 (bpfHtons (bpfNtohs (loadU16 d off) - UInt16.ofNat meridianGeneveOptBytes)))

def clearOptionLength (geneveOff : Nat) : Call := fun d => overwrite d geneveOff [byteAt d geneveOff &&& 0xc0]

/-- The calls of `strip_meridian_tlv` after the first one, on a packet with `innerLen` bytes behind its options. -/
def stripCalls (o : StripOffsets) (innerLen : Nat) : List Call :=
  moveCalls o.innerBaseOff (o.innerBaseOff - 8) innerLen ++
    [id, clearOptionLength o.geneveOff, id, lowerWord (o.outerIpOff + 2), id, lowerWord (o.udpOff + 4)]

/-- The offsets are in the packet, and not too many bytes are to be moved. -/
structure Strippable (d : List UInt8) (o : StripOffsets) : Prop where
  base : meridianGeneveOptBytes ≤ o.innerBaseOff
  inside : o.innerBaseOff ≤ d.length
  short : d.length - o.innerBaseOff ≤ meridianStripMaxLen
  geneve : o.geneveOff < d.length
  outerIp : o.outerIpOff + 4 ≤ d.length
  udp : o.udpOff + 6 ≤ d.length

theorem loadU16_take_drop (d : List UInt8) (off : Nat) : loadU16 ((d.drop off).take 2) 0 = loadU16 d off := by
  refine loadU16_congr ?_ ?_
  · rw [byteAt_take Nat.two_pos, byteAt_drop, Nat.add_zero]
  · rw [byteAt_take (by omega), byteAt_drop]

theorem lowerLength_eq_attempt (h : off + 2 ≤ c.skb.data.length) :
    lowerLength env c off = c.attempt env [id, lowerWord off] := by
  refine orFailLoad_attempt h fun c' hc' => ?_
  refine storeBytes_eq_attempt (by rw [hc']; exact h) ?_
  rw [lowerWord, loadU16_take_drop, hc']

theorem length_lowerWord (h : off + 2 ≤ d.length) : (lowerWord off d).length = d.length :=
  length_overwrite h

theorem length_clearOptionLength (h : off < d.length) : (clearOptionLength off d).length = d.length :=
  length_overwrite h

theorem lowerLength_attempt (hoff : off + 2 ≤ c.skb.data.length)
    (h : ∀ c' : Ctx, c'.skb.data = lowerWord off c.skb.data → rest c' = c'.attempt env more) :
    orFail (lowerLength env c off) rest = c.attempt env (id :: lowerWord off :: more) := by
  rw [lowerLength_eq_attempt hoff]
  exact orFail_attempt h

theorem stripMeridianTlv_eq_attempt {o : StripOffsets} (h : Strippable c.skb.data o) :
    stripMeridianTlv env c o = c.attempt env (id :: stripCalls o (c.skb.data.length - o.innerBaseOff)) := by
  have hbase : 8 ≤ o.innerBaseOff := h.base
  have hinside := h.inside
  refine orFail_call (pullData_eq_attempt env c) fun c₁ hc₁ => ?_
  have hlen₁ : c₁.skb.data.length = c.skb.data.length := congrArg List.length hc₁
  dsimp only
  rw [hlen₁, if_neg (Nat.not_lt.mpr h.base), if_neg (Nat.not_lt.mpr hinside), if_neg (Nat.not_lt.mpr h.short),
    stripShiftLoop_eq_attempt (by rw [Nat.zero_add]; exact h.short) hbase (by omega)]
  refine orFail_attempt fun c₂ hc₂ => ?_
  have hlen₂ : c₂.skb.data.length = c.skb.data.length := by
    rw [hc₂, length_applyAll_moveCalls (by omega) (by omega), hlen₁]
  refine orFailLoad_attempt (show o.geneveOff + 1 ≤ _ from hlen₂ ▸ h.geneve) fun c₃ hc₃ => ?_
  have hlen₃ : c₃.skb.data.length = c.skb.data.length := hc₃ ▸ hlen₂
  have hclear : bpfSkbStoreBytes env c₃ o.geneveOff [byteAt ((c₂.skb.data.drop o.geneveOff).take 1) 0 &&& 0xc0] =
      c₃.attempt env [clearOptionLength o.geneveOff] := by
    refine storeBytes_eq_attempt (show o.geneveOff + 1 ≤ _ from hlen₃ ▸ h.geneve) ?_
    rw [clearOptionLength, byteAt_take Nat.one_pos, byteAt_drop, Nat.add_zero, hc₃]
  refine orFail_call hclear fun c₄ hc₄ => ?_
  have hlen₄ : c₄.skb.data.length = c.skb.data.length := by
    rw [hc₄, length_clearOptionLength (hlen₃ ▸ h.geneve), hlen₃]
  refine lowerLength_attempt (show o.outerIpOff + 2 + 2 ≤ _ from hlen₄ ▸ h.outerIp) fun c₅ hc₅ => ?_
  have hlen₅ : c₅.skb.data.length = c.skb.data.length := by
    rw [hc₅, length_lowerWord (show o.outerIpOff + 2 + 2 ≤ _ from hlen₄ ▸ h.outerIp), hlen₄]
  exact lowerLength_eq_attempt (show o.udpOff + 4 + 2 ≤ _ from hlen₅ ▸ h.udp)

/-! ### Making room -/

def growHead : Call := fun d => List.replicate meridianGeneveOptBytes 0 ++ d

def insertCalls (roomOff : Nat) : List Call := [id, growHead, id] ++ moveCalls 8 0 roomOff

/-- The headers in front of the new slot can be moved. -/
structure RoomFits (d : List UInt8) (roomOff outerIpOff : Nat) : Prop where
  inside : roomOff < d.length
  outer : outerIpOff < roomOff
  shift : roomOff - outerIpOff ≤ 64
  short : roomOff ≤ 80

theorem insertInnerTlvRoom_eq_attempt {roomOff outerIpOff : Nat} (h : RoomFits c.skb.data roomOff outerIpOff) :
    insertInnerTlvRoom env c roomOff outerIpOff = c.attempt env (insertCalls roomOff) := by
  have hinside := h.inside
  have houter := h.outer
  have hshort := h.short
  refine orFail_call (pullData_eq_attempt env c) fun c₁ hc₁ => ?_
  have hlen₁ : c₁.skb.data.length = c.skb.data.length := congrArg List.length hc₁
  rw [if_neg (by simp only [Bool.or_eq_true, decide_eq_true_eq]; omega), if_neg (Nat.not_lt.mpr h.shift),
    if_neg (Nat.not_lt.mpr hshort)]
  refine orFail_call (changeHead_eq_attempt env c₁ _) fun c₂ hc₂ => ?_
  have hlen₂ : c₂.skb.data.length = 8 + c₁.skb.data.length := (congrArg List.length hc₂).trans List.length_append
  refine orFail_call (pullData_eq_attempt env c₂) fun c₃ hc₃ => ?_
  have hlen₃ : c₃.skb.data.length = c₂.skb.data.length := congrArg List.length hc₃
  exact copyHeadLoop_eq_attempt (by omega) (by omega)

/-- Headers that cannot be moved are left where they are. -/
theorem insertInnerTlvRoom_unfit {roomOff outerIpOff : Nat} (h : ¬RoomFits c.skb.data roomOff outerIpOff) :
    (insertInnerTlvRoom env c roomOff outerIpOff).1 = true ∧
      (insertInnerTlvRoom env c roomOff outerIpOff).2.skb.data = c.skb.data := by
  unfold insertInnerTlvRoom bpfSkbPullData
  cases env.skbFails c.skbCalls with
  | true => exact ⟨rfl, rfl⟩
  | false =>
    dsimp only [orFail]
    by_cases hroom : (decide (roomOff = 0) || decide (roomOff ≥ c.skb.data.length) || decide (outerIpOff ≥ roomOff)) = true
    · rw [if_pos hroom]
      exact ⟨rfl, rfl⟩
    by_cases hshift : roomOff - outerIpOff > 64
    · rw [if_neg hroom, if_pos hshift]
      exact ⟨rfl, rfl⟩
    by_cases hshort : roomOff > 80
    · rw [if_neg hroom, if_neg hshift, if_pos hshort]
      exact ⟨rfl, rfl⟩
    · simp only [Bool.or_eq_true, decide_eq_true_eq] at hroom
      exact absurd ⟨by omega, by omega, by omega, by omega⟩ h

theorem applyAll_insertCalls {roomOff : Nat} (h : roomOff ≤ d.length) :
    applyAll (insertCalls roomOff) d = movedHead d roomOff := by
  have hlen : 8 + roomOff ≤ (growHead d).length := by
    rw [growHead, List.length_append, List.length_replicate]
    exact Nat.add_le_add_left h 8
  have hdrop : (growHead d).drop 8 = d := by
    rw [growHead, List.drop_append]
    rfl
  have hlength : ((growHead d).drop 8 |>.take roomOff).length = roomOff := by
    rw [hdrop, List.length_take]
    omega
  rw [insertCalls, applyAll_append]
  change applyAll (moveCalls 8 0 roomOff) (growHead d) = _
  rw [applyAll_moveCalls (Nat.zero_le _) hlen, overwrite, hlength, hdrop, List.take_zero, List.nil_append, Nat.zero_add]
  rfl

/-! ### Length fields -/

def setWord (off : Nat) (x : UInt16) : Call := fun d => overwrite d off (bytesU16 x)

/-- The checksum update, at the start of the UDP header. -/
def updateAt (off : Nat) (old new : UInt16) : Call := fun d =>
  overwrite d off (bytesU16 (csumReplace2 (loadU16 d off) old new))

/-- A length as the header field for it. -/
def lengthField (n : Nat) : UInt16 := bpfHtons (UInt16.ofNat n)

def bumpCalls (d : List UInt8) (outerIpOff udpOff : Nat) : List Call :=
  [id, id, setWord (outerIpOff + 2) (lengthField (d.length - outerIpOff)), id,
    setWord (udpOff + 4) (lengthField (d.length - udpOff)), id] ++
    if loadU16 d (udpOff + 6) ≠ 0 then [updateAt udpOff (loadU16 d (udpOff + 4)) (lengthField (d.length - udpOff))] else []

theorem loadU16_overwrite_of_disjoint {bs : List UInt8} {i : Nat} (h : off + bs.length ≤ d.length)
    (hi : i + 2 ≤ off ∨ off + bs.length ≤ i) : loadU16 (overwrite d off bs) i = loadU16 d i := by
  have hsame := SameOff.overwrite h
  exact loadU16_congr (hsame.bytes _ (by omega)) (hsame.bytes _ (by omega))

theorem length_setWord (x : UInt16) (h : off + 2 ≤ d.length) : (setWord off x d).length = d.length :=
  length_overwrite h

theorem setWord_attempt {x : UInt16} (hoff : off + 2 ≤ c.skb.data.length)
    (h : ∀ c' : Ctx, c'.skb.data = setWord off x c.skb.data → rest c' = c'.attempt env more) :
    orFail (bpfSkbStoreBytes env c off (bytesU16 x)) rest = c.attempt env (setWord off x :: more) :=
  orFail_call (storeBytes_eq_attempt hoff rfl) h

theorem loadU16_setWord_of_disjoint {i : Nat} (x : UInt16) (h : off + 2 ≤ d.length) (hi : i + 2 ≤ off ∨ off + 2 ≤ i) :
    loadU16 (setWord off x d) i = loadU16 d i :=
  loadU16_overwrite_of_disjoint h hi

theorem bumpUdpGeneveLengths_eq_attempt {outerIpOff udpOff : Nat} (houter : outerIpOff + 20 ≤ udpOff)
    (heven : udpOff % 2 = 0) (hlen : udpOff + 8 ≤ c.skb.data.length) :
    bumpUdpGeneveLengths env c outerIpOff udpOff = c.attempt env (bumpCalls c.skb.data outerIpOff udpOff) := by
  refine orFail_call (pullData_eq_attempt env c) fun c₁ hc₁ => ?_
  have hd₁ : c₁.skb.data = c.skb.data := hc₁
  dsimp only
  rw [hd₁]
  refine orFailLoad_attempt (by rw [hd₁]; omega) fun c₂ hc₂ => ?_
  have hd₂ : c₂.skb.data = c.skb.data := hc₂.trans hd₁
  refine setWord_attempt (by rw [hd₂]; omega) fun c₃ hc₃ => ?_
  rw [hd₂] at hc₃
  have hlen₃ : c₃.skb.data.length = c.skb.data.length := by rw [hc₃, length_setWord _ (by omega)]
  rw [hlen₃]
  refine orFailLoad_attempt (by omega) fun c₄ hc₄ => ?_
  have hlen₄ : c₄.skb.data.length = c.skb.data.length := hc₄ ▸ hlen₃
  have hold : loadU16 ((c₃.skb.data.drop (udpOff + 4)).take 2) 0 = loadU16 c.skb.data (udpOff + 4) := by
    rw [loadU16_take_drop, hc₃, loadU16_setWord_of_disjoint _ (by omega) (by omega)]
  rw [hold]
  refine setWord_attempt (by omega) fun c₅ hc₅ => ?_
  have hlen₅ : c₅.skb.data.length = c.skb.data.length := by rw [hc₅, length_setWord _ (by omega), hlen₄]
  refine orFailLoad_attempt (by omega) fun c₆ hc₆ => ?_
  have hcheck : loadU16 ((c₅.skb.data.drop (udpOff + 6)).take 2) 0 = loadU16 c.skb.data (udpOff + 6) := by
    rw [loadU16_take_drop, hc₅, loadU16_setWord_of_disjoint _ (by omega) (by omega), hc₄, hc₃,
      loadU16_setWord_of_disjoint _ (by omega) (by omega)]
  rw [hcheck]
  split
  · exact l4CsumReplace_eq_attempt heven (by rw [hc₆]; omega) rfl
  · rfl

/-! ### The option -/

def writeOption (off : Nat) (srcId : UInt32) : Call := fun d => overwrite d off (identityTlv srcId)

def setOptionLength (geneveOff words : Nat) : Call := fun d =>
  overwrite d geneveOff [byteAt d geneveOff &&& 0xc0 ||| UInt8.ofNat words]

def stampCalls (stampOff geneveOff optWords : Nat) (srcId : UInt32) : List Call :=
  [writeOption stampOff srcId, id, setOptionLength geneveOff (optWords + meridianGeneveOptWords)]

theorem stampIdentityTlv_eq_attempt {stampOff geneveOff : Nat} (optWords : Nat) (srcId : UInt32)
    (hstamp : stampOff + 8 ≤ c.skb.data.length) (hgeneve : geneveOff < stampOff) :
    stampIdentityTlv env c stampOff geneveOff optWords srcId = c.attempt env (stampCalls stampOff geneveOff optWords srcId) := by
  refine orFail_call (storeBytes_eq_attempt hstamp rfl) fun c₁ hc₁ => ?_
  have hlen₁ : c₁.skb.data.length = c.skb.data.length := (congrArg List.length hc₁).trans (length_overwrite hstamp)
  refine orFailLoad_attempt (by omega) fun c₂ hc₂ => ?_
  refine storeBytes_eq_attempt (show geneveOff + 1 ≤ _ by rw [hc₂]; omega) ?_
  rw [setOptionLength, byteAt_take Nat.one_pos, byteAt_drop, Nat.add_zero, hc₂]

end

end Meridian.Bpf
