import Fastpass.Wire
import Fastpass.HandleReset
import Fastpass.Ack

namespace Fastpass

/-!
# Receiving a packet

`fpproto_rcv` looks the socket up, locks the qdisc, counts the packet, and
walks its payloads in a `goto` loop: each is dispatched by the type nibble of
its first byte to `fpproto_handle_reset`, the upper layer's `handle_alloc`, or
`fpproto_handle_ack`, until the packet ends, or a payload is cut short or of
an unknown type, which one error counter records.  Every exit goes through
`cleanup`, which unlocks, drops the socket reference and frees the skb.

`handlePayloadOnce` is one pass of the loop, one function per case of its
`switch`, and `handlePayload` the loop, a recursion on the bytes left.  The
loop is connected to the wire format by `handlePayload_serAll`: on the bytes
of payloads followed by a remainder that starts none, it makes exactly the
calls `Payload.dispatch` gives for those payloads, in order, and then counts
the remainder.  Each RESET payload reads the clock when it is handled; the
reading for the payload at byte `i` is `clock i`.
-/

/-- The error labels of `fpproto_rcv`, each of which increments one counter. -/
inductive RcvError where
  | unknownPayloadType
  | incompleteResetPayload
  | incompleteAllocPayloadOneByte
  | incompleteAllocPayload
  | incompleteAckPayload
  | packetTooShort
  deriving DecidableEq, Repr

/-- The counter an error label increments. -/
def RcvError.count : RcvError → Stats → Stats
  | .unknownPayloadType, s => { s with rxUnknownPayload := s.rxUnknownPayload + 1 }
  | .incompleteResetPayload, s => { s with rxIncompleteReset := s.rxIncompleteReset + 1 }
  | .incompleteAllocPayloadOneByte, s => { s with rxIncompleteAlloc := s.rxIncompleteAlloc + 1 }
  | .incompleteAllocPayload, s => { s with rxIncompleteAlloc := s.rxIncompleteAlloc + 1 }
  | .incompleteAckPayload, s => { s with rxIncompleteAck := s.rxIncompleteAck + 1 }
  | .packetTooShort, s => { s with rxTooShort := s.rxTooShort + 1 }

/-- Where one pass of the payload loop leaves: past a handled payload, or at an error label. -/
inductive PayloadExit where
  | handled (data : Nat)
  | error (label : RcvError)

/--
`rst_tstamp`: bits 32..55 from the low 24 bits of the high word, bits 0..31
from the low word.
-/
def rstTstamp (hi lo : BitVec 32) : BitVec 64 :=
  ((hi &&& (((1 : BitVec 32) <<< 24) - 1)).setWidth 64 <<< 32) ||| lo.setWidth 64

/--
The destination loop of the ALLOC case, `alloc_dst[i] = ntohs(*(u16 *)data)`
for the `count` entries from `i` on; a write past the 16 entries of the array
would corrupt the stack and is a crash here.
-/
def readAllocDst (skb : List (BitVec 8)) :
    (count i data : Nat) → (allocDst : Nat → BitVec 16) → Except Crash (Nat → BitVec 16)
  | 0, _, _, allocDst => .ok allocDst
  | count + 1, i, data, allocDst => do
    let dst ← ntohs skb data
    if i < 16 then readAllocDst skb count (i + 1) (data + 2) (Function.update allocDst i dst)
    else .error .outOfBounds

section Rcv

variable (jhash1Word : BitVec 32 → BitVec 32 → BitVec 32)

/-- The RESET case of the payload switch, at byte `data`. -/
def handleResetPayload
    (clock : Nat → BitVec 64)
    (skb : List (BitVec 8))
    (data : Nat)
    (st : Session) :
    Except Crash (Session × PayloadExit) :=
  if data + 8 > skb.length then .ok (st, .error .incompleteResetPayload)
  else Except.map (fun st => (st, .handled (data + 8))) do
    let hi ← ntohl skb data
    let lo ← ntohl skb (data + 4)
    fpprotoHandleReset jhash1Word st (rstTstamp hi lo) (clock data)

/-- The ALLOC case of the payload switch, at byte `data`. -/
def handleAllocPayload (skb : List (BitVec 8)) (data : Nat) (st : Session) :
    Except Crash (Session × PayloadExit) :=
  if data + 2 > skb.length then .ok (st, .error .incompleteAllocPayloadOneByte)
  else do
    let payloadType ← ntohs skb data
    let allocNDst := ((payloadType >>> 8) &&& 0xF).toNat
    let allocNTslots := 2 * (payloadType &&& 0x3F).toNat
    let data := data + 2
    if data + 2 + 2 * allocNDst + allocNTslots > skb.length then
      .ok (st, .error .incompleteAllocPayload)
    else Except.map (fun st => (st, .handled (data + 2 + 2 * allocNDst + allocNTslots))) do
      let allocBaseTslot := (← ntohs skb data).setWidth 32 <<< 4
      let allocDst ← readAllocDst skb allocNDst 0 (data + 2) fun _ => 0
      if st.ops.handleAlloc then
        let tslots ← readBytes skb (data + 2 + 2 * allocNDst) allocNTslots
        pure (st.emit [.handleAlloc allocBaseTslot ((List.range allocNDst).map allocDst) tslots])
      else pure st

/-- The ACK case of the payload switch, at byte `data`. -/
def handleAckPayload (skb : List (BitVec 8)) (data : Nat) (st : Session) :
    Except Crash (Session × PayloadExit) :=
  if data + 6 > skb.length then .ok (st, .error .incompleteAckPayload)
  else Except.map (fun st => (st, .handled (data + 6))) do
    let ackRunlen ← ntohl skb data
    let ackSeq ← ntohs skb (data + 4)
    fpprotoHandleAck st ackSeq ackRunlen

/-- One pass of `handle_payload`: the `switch` on the type nibble of the byte at `data`. -/
def handlePayloadOnce
    (clock : Nat → BitVec 64)
    (skb : List (BitVec 8))
    (data : Nat)
    (st : Session) :
    Except Crash (Session × PayloadExit) := do
  let payloadType := ((← readByte skb data) >>> 4).toNat
  if payloadType = fastpassPtypeReset then handleResetPayload jhash1Word clock skb data st
  else if payloadType = fastpassPtypeAlloc then handleAllocPayload skb data st
  else if payloadType = fastpassPtypeAck then handleAckPayload skb data st
  else .ok (st, .error .unknownPayloadType)

theorem map_handled
    {x : Except Crash Session}
    {d next : Nat}
    {st' : Session}
    (handled : Except.map (fun st => (st, PayloadExit.handled d)) x = .ok (st', .handled next)) :
    next = d := by
  cases x with
  | error e => cases handled
  | ok st => cases handled; rfl

/-- A pass that handles a payload moves past its first byte. -/
theorem handlePayloadOnce_advance
    {clock : Nat → BitVec 64}
    {skb : List (BitVec 8)}
    {data : Nat}
    {st st' : Session}
    {next : Nat}
    (stepped : handlePayloadOnce jhash1Word clock skb data st = .ok (st', .handled next)) :
    data < next := by
  simp only [handlePayloadOnce, bind_eq_ok] at stepped
  obtain ⟨_, -, stepped⟩ := stepped
  split_ifs at stepped
  · simp only [handleResetPayload] at stepped
    split_ifs at stepped
    · cases stepped
    · rw [map_handled stepped]
      omega
  · simp only [handleAllocPayload] at stepped
    split at stepped
    · cases stepped
    · rw [bind_eq_ok] at stepped
      obtain ⟨_, -, stepped⟩ := stepped
      split at stepped
      · cases stepped
      · rw [map_handled stepped]
        omega
  · simp only [handleAckPayload] at stepped
    split_ifs at stepped
    · cases stepped
    · rw [map_handled stepped]
      omega
  · cases stepped

/-- The `handle_payload` loop from byte `data`, ending at `cleanup` or at an error label. -/
def handlePayload (clock : Nat → BitVec 64) (skb : List (BitVec 8)) (data : Nat) (st : Session) :
    Except Crash Session :=
  match stepped : handlePayloadOnce jhash1Word clock skb data st with
  | .error e => .error e
  | .ok (st, .error label) => .ok { st with stats := label.count st.stats }
  | .ok (st, .handled next) =>
    if _ : next < skb.length then handlePayload clock skb next st else .ok st
termination_by skb.length - data
decreasing_by
  have := handlePayloadOnce_advance jhash1Word stepped
  omega

/--
The `cleanup` label of `fpproto_rcv`: unlock the qdisc, drop the socket
reference, free the skb.
-/
def rcvCleanup (sch : Qdisc) (st : Session) : Session :=
  (fpprotoUnlockQdisc (some sch) st).emit [.sockPut, .kfreeSkb]

/--
`fpproto_rcv` on the bytes `skb`.  `found` is whether `__inet_lookup_skb`
returned the socket, whose state is `st`; when it did not, `st` stands only
for the log.
-/
def fpprotoRcv (clock : Nat → BitVec 64) (found : Bool) (st : Session) (skb : List (BitVec 8)) :
    Except Crash Session :=
  if !found then .ok (st.emit [.kfreeSkb])
  else
    match fpprotoLockQdisc st with
    | (none, st) => .ok (st.emit [.kfreeSkb])
    | (some sch, st) =>
      let st := { st with stats := { st.stats with rxPkts := st.stats.rxPkts + 1 } }
      let handled :=
        if skb.length < 5 then .ok { st with stats := RcvError.packetTooShort.count st.stats }
        else handlePayload jhash1Word clock skb 4 st
      handled.map (rcvCleanup sch)

/--
With the socket found but its qdisc gone, `fpproto_rcv` frees the skb and
leaves the RCU-bh section but never drops the socket reference that
`__inet_lookup_skb` took: no `sockPut` reaches the log.
-/
theorem fpprotoRcv_noQdisc_keeps_socket :
    fpprotoRcv (fun _ _ => 0) (fun _ => 0) true
      (Session.allocated ⟨false, false, false, false⟩ 0 0) [0, 0, 0, 0, 0] =
      .ok ((Session.allocated ⟨false, false, false, false⟩ 0 0).emit
        [.rcuReadLockBh, .rcuReadUnlockBh, .kfreeSkb]) :=
  rfl

end Rcv

/-! ## The calls the payloads make -/

/--
The counter a remainder that starts no payload increments, by the type nibble
of its first byte.
-/
def Stats.countRemainder (s : Stats) : List (BitVec 8) → Stats
  | [] => s
  | b :: _ =>
    if (b >>> 4).toNat = fastpassPtypeReset then
      { s with rxIncompleteReset := s.rxIncompleteReset + 1 }
    else if (b >>> 4).toNat = fastpassPtypeAlloc then
      { s with rxIncompleteAlloc := s.rxIncompleteAlloc + 1 }
    else if (b >>> 4).toNat = fastpassPtypeAck then
      { s with rxIncompleteAck := s.rxIncompleteAck + 1 }
    else { s with rxUnknownPayload := s.rxUnknownPayload + 1 }

section Dispatch

variable (jhash1Word : BitVec 32 → BitVec 32 → BitVec 32)

/--
The call a payload makes, with the field values its bytes carry:
`fpproto_handle_reset` at clock reading `now`, the upper layer's
`handle_alloc` if installed, or `fpproto_handle_ack`.
-/
def Payload.dispatch (now : BitVec 64) (st : Session) : Payload → Except Crash Session
  | .reset _ tstamp => fpprotoHandleReset jhash1Word st (tstamp.setWidth 64) now
  | .alloc p =>
    .ok (if st.ops.handleAlloc then st.emit
      [.handleAlloc (p.baseTslot.setWidth 32 <<< 4) p.dst p.tslots]
      else st)
  | .ack runlen seq => fpprotoHandleAck st seq (BitVec.ofNat 4 fastpassPtypeAck ++ runlen)

/-- The calls of payloads laid out from byte `data` on, in order. -/
def Payload.dispatchFrom
    (clock : Nat → BitVec 64) :
    Nat → Session → List Payload → Except Crash Session
  | _, st, [] => .ok st
  | data, st, p :: ps => do
    let st ← p.dispatch jhash1Word (clock data) st
    Payload.dispatchFrom clock (data + p.ser.length) st ps

end Dispatch

/-! ## Reading payload bytes -/

theorem rstTstamp_ser (ignored : BitVec 4) (tstamp : BitVec 56) :
    rstTstamp (BitVec.ofNat 4 fastpassPtypeReset ++ ignored ++ tstamp.extractLsb' 32 24)
      (tstamp.extractLsb' 0 32) = tstamp.setWidth 64 := by
  apply BitVec.eq_of_toNat_eq
  have := tstamp.isLt
  rw [rstTstamp, BitVec.toNat_or, lor_eq_add (k := 32)]
  · simp only [BitVec.toNat_shiftLeft, BitVec.toNat_setWidth, BitVec.toNat_and, toNat_append_eq,
      BitVec.extractLsb'_toNat, Nat.shiftRight_eq_div_pow, Nat.shiftLeft_eq,
      show ((1 : BitVec 32) <<< 24 - 1).toNat = 2 ^ 24 - 1 from rfl, Nat.and_pow_two_sub_one_eq_mod,
      BitVec.toNat_ofNat]
    omega
  · simp only [BitVec.toNat_shiftLeft, BitVec.toNat_setWidth, Nat.shiftLeft_eq]
    omega
  · simp only [BitVec.toNat_setWidth, BitVec.extractLsb'_toNat]
    omega

/-- The ALLOC header word gives the destination count and half the timeslot count. -/
theorem allocHeader_fields (b0 b1 : BitVec 8) :
    (((b0 ++ b1 : BitVec 16) >>> 8) &&& 0xF).toNat = (b0.extractLsb' 0 4).toNat ∧
      ((b0 ++ b1 : BitVec 16) &&& 0x3F).toNat = (b1.extractLsb' 0 6).toNat := by
  simp only [BitVec.toNat_and, BitVec.toNat_ushiftRight,
    show (0xF : BitVec 16).toNat = 2 ^ 4 - 1 from rfl,
      show (0x3F : BitVec 16).toNat = 2 ^ 6 - 1 from rfl,
    Nat.and_pow_two_sub_one_eq_mod, toNat_append_eq, BitVec.extractLsb'_toNat,
    Nat.shiftRight_eq_div_pow]
  omega

/-- The destination loop reads the destinations laid out from `data` on into the array. -/
theorem readAllocDst_spec (post : List (BitVec 8)) :
    ∀ (dst : List (BitVec 16)) (pre : List (BitVec 8)) (i : Nat) (allocDst : Nat → BitVec 16),
      i + dst.length ≤ 16 →
      ∃ allocDst', readAllocDst (pre ++ (dst.map htons).flatten ++ post) dst.length i pre.length
          allocDst = .ok allocDst' ∧
        (∀ j < i, allocDst' j = allocDst j) ∧ ∀ j (inRange : j < dst.length),
          allocDst' (i + j) = dst[j]
  | [], _, _, allocDst, _ =>
    ⟨allocDst, rfl, fun _ _ => rfl, fun _ inRange => absurd inRange (by simp)⟩
  | d :: dst, pre, i, allocDst, room => by
    simp only [List.length_cons] at room
    obtain ⟨allocDst', rest, frame, values⟩ :=
      readAllocDst_spec post dst (pre ++ htons d) (i + 1) (Function.update allocDst i d) (by omega)
    have read : ntohs (pre ++ ((d :: dst).map htons).flatten ++ post) pre.length = .ok d := by
      simp [List.append_assoc]
    refine ⟨allocDst', ?_, fun j lower => ?_, fun j inRange => ?_⟩
    · simp only [readAllocDst, List.length_cons, read, except_ok_bind, show i < 16 by omega,
        ↓reduceIte]
      simpa [htons, List.append_assoc] using rest
    · rw [frame j (by omega), Function.update_noteq (by omega)]
    · cases j with
      | zero => rw [Nat.add_zero, frame i (by omega), Function.update_same]; rfl
      | succ j =>
        rw [show i + (j + 1) = i + 1 + j by omega, values j (by simpa using inRange)]
        rfl

section Rcv

variable (jhash1Word : BitVec 32 → BitVec 32 → BitVec 32)

theorem handlePayloadOnce_reset
    (clock : Nat → BitVec 64)
    (pre post : List (BitVec 8))
    (ignored : BitVec 4)
    (tstamp : BitVec 56)
    (st : Session) :
    handlePayloadOnce jhash1Word clock
        (pre ++ (Payload.reset ignored tstamp).ser ++ post) pre.length st =
      (fpprotoHandleReset jhash1Word st (tstamp.setWidth 64) (clock pre.length)).map
        fun st => (st, .handled (pre.length + 8)) := by
  have first : readByte (pre ++ (Payload.reset ignored tstamp).ser ++ post) pre.length =
      .ok ((BitVec.ofNat 4 fastpassPtypeReset ++ ignored ++ tstamp.extractLsb' 32 24 :
        BitVec 32).extractLsb' 24 8) := by
    simp [Payload.ser, htonl, List.append_assoc]
  have hiRead : ntohl (pre ++ (Payload.reset ignored tstamp).ser ++ post) pre.length =
      .ok (BitVec.ofNat 4 fastpassPtypeReset ++ ignored ++ tstamp.extractLsb' 32 24) := by
    rw [Payload.ser, List.append_assoc, List.append_assoc, ntohl_append_length_zero, ntohl_htonl]
  have loRead : ntohl (pre ++ (Payload.reset ignored tstamp).ser ++ post) (pre.length + 4) =
      .ok (tstamp.extractLsb' 0 32) := by
    rw [Payload.ser, List.append_assoc, List.append_assoc, ntohl_append_length, ntohl_after_htonl,
      ntohl_htonl]
  have long : ¬(pre.length + 8 > (pre ++ (Payload.reset ignored tstamp).ser ++ post).length) := by
    simp [Payload.ser, htonl]
  simp only [handlePayloadOnce, first, except_ok_bind, typeNibble_reset, ↓reduceIte,
    handleResetPayload, long, hiRead, loRead, rstTstamp_ser]

theorem handlePayloadOnce_ack
    (clock : Nat → BitVec 64)
    (pre post : List (BitVec 8))
    (runlen : BitVec 28)
    (seq : BitVec 16)
    (st : Session) :
    handlePayloadOnce jhash1Word clock (pre ++ (Payload.ack runlen seq).ser ++ post) pre.length st =
      (fpprotoHandleAck st seq (BitVec.ofNat 4 fastpassPtypeAck ++ runlen)).map
        fun st => (st, .handled (pre.length + 6)) := by
  have first : readByte (pre ++ (Payload.ack runlen seq).ser ++ post) pre.length =
      .ok ((BitVec.ofNat 4 fastpassPtypeAck ++ runlen : BitVec 32).extractLsb' 24 8) := by
    simp [Payload.ser, htonl, List.append_assoc]
  have runRead : ntohl (pre ++ (Payload.ack runlen seq).ser ++ post) pre.length =
      .ok (BitVec.ofNat 4 fastpassPtypeAck ++ runlen) := by
    rw [Payload.ser, List.append_assoc, List.append_assoc, ntohl_append_length_zero, ntohl_htonl]
  have seqRead : ntohs (pre ++ (Payload.ack runlen seq).ser ++ post) (pre.length + 4) =
    .ok seq := by
    rw [Payload.ser, List.append_assoc, List.append_assoc, ntohs_append_length, ntohs_after_htonl,
      ntohs_htons]
  have long : ¬(pre.length + 6 > (pre ++ (Payload.ack runlen seq).ser ++ post).length) := by
    simp [Payload.ser, htonl, htons]
  simp only [handlePayloadOnce, first, except_ok_bind, typeNibble_ack, fastpassPtype_distinct,
    ↓reduceIte, handleAckPayload, long, runRead, seqRead]

theorem handlePayloadOnce_alloc
    (clock : Nat → BitVec 64)
    (pre post : List (BitVec 8))
    (p : AllocPayload)
    (st : Session) :
    handlePayloadOnce jhash1Word clock (pre ++ (Payload.alloc p).ser ++ post) pre.length st =
      .ok (if st.ops.handleAlloc then
          st.emit [.handleAlloc (p.baseTslot.setWidth 32 <<< 4) p.dst p.tslots] else st,
        .handled (pre.length + (Payload.alloc p).ser.length)) := by
  -- the bytes before the destinations, and the destinations with what precedes them
  obtain ⟨head, headEq⟩ : ∃ head, head = pre ++ [BitVec.ofNat 4 fastpassPtypeAlloc ++ p.nDst,
      p.ignored ++ p.halfTslots] ++ htons p.baseTslot := ⟨_, rfl⟩
  obtain ⟨body, bodyEq⟩ : ∃ body, body = head ++ (p.dst.map htons).flatten := ⟨_, rfl⟩
  have skbEq : pre ++ (Payload.alloc p).ser ++ post = body ++ p.tslots ++ post := by
    simp [headEq, bodyEq, Payload.ser, List.append_assoc]
  have headLength : head.length = pre.length + 2 + 2 := by simp [headEq, htons]
  have bodyLength : body.length = pre.length + 2 + 2 + 2 * p.dst.length := by
    simp only [bodyEq, List.length_append, headLength, flatten_map_htons_length]
  have fields := allocHeader_fields (BitVec.ofNat 4 fastpassPtypeAlloc ++ p.nDst)
    (p.ignored ++ p.halfTslots)
  have nDstEq : (BitVec.extractLsb' 0 4 (BitVec.ofNat 4 fastpassPtypeAlloc ++
    p.nDst : BitVec 8)).toNat =
      p.dst.length := by
    simp only [p.dst_length, BitVec.extractLsb'_toNat, toNat_append_eq, Nat.shiftRight_eq_div_pow]
    omega
  have halfEq : 2 * (BitVec.extractLsb' 0 6 (p.ignored ++ p.halfTslots : BitVec 8)).toNat =
      p.tslots.length := by
    simp only [p.tslots_length, BitVec.extractLsb'_toNat, toNat_append_eq,
      Nat.shiftRight_eq_div_pow]
    omega
  rw [nDstEq] at fields
  obtain ⟨allocDst, dstRead, -, dstValues⟩ :=
    readAllocDst_spec (p.tslots ++ post) p.dst head 0 (fun _ => 0) (by have := p.nDst.isLt; omega)
  have dstEq : (List.range p.dst.length).map allocDst = p.dst :=
    List.ext_getElem (by simp) fun j _ inRange => by simpa using dstValues j inRange
  rw [← bodyEq, headLength, ← List.append_assoc] at dstRead
  have tslotsRead := readBytes_append body p.tslots post
  rw [bodyLength] at tslotsRead
  have first : readByte (body ++ p.tslots ++ post) pre.length =
      .ok (BitVec.ofNat 4 fastpassPtypeAlloc ++ p.nDst) := by
    simp [bodyEq, headEq, List.append_assoc]
  have wordRead : ntohs (body ++ p.tslots ++ post) pre.length =
      .ok (BitVec.ofNat 4 fastpassPtypeAlloc ++ p.nDst ++ (p.ignored ++ p.halfTslots)) := by
    simp [bodyEq, headEq, List.append_assoc, ntohs]
  have baseRead : ntohs (body ++ p.tslots ++ post) (pre.length + 2) = .ok p.baseTslot := by
    have shifted := ntohs_append_length
      (pre ++ [BitVec.ofNat 4 fastpassPtypeAlloc ++ p.nDst, p.ignored ++ p.halfTslots])
      (htons p.baseTslot ++ (p.dst.map htons).flatten ++ p.tslots ++ post) 0
    simp only [List.length_append, List.length_cons, List.length_nil, List.append_assoc,
      ntohs_htons] at shifted
    simpa [bodyEq, headEq, List.append_assoc] using shifted
  have oneByte : ¬(pre.length + 2 > (body ++ p.tslots ++ post).length) := by
    simp only [List.length_append, bodyLength]
    omega
  have complete : ¬(pre.length + 2 + 2 + 2 * p.dst.length + p.tslots.length >
      (body ++ p.tslots ++ post).length) := by
    simp only [List.length_append, bodyLength]
    omega
  have handledEq : pre.length + (Payload.alloc p).ser.length =
      pre.length + 2 + 2 + 2 * p.dst.length + p.tslots.length := by
    simp only [Payload.ser, List.length_cons, List.length_append, flatten_map_htons_length, htons,
      List.length_nil]
    omega
  rw [skbEq, handledEq]
  simp only [handlePayloadOnce, first, except_ok_bind, typeNibble_alloc, fastpassPtype_distinct,
    ↓reduceIte, handleAllocPayload, oneByte,
    wordRead, fields.1, fields.2, halfEq, complete, baseRead, dstRead, dstEq]
  cases st.ops.handleAlloc <;> simp only [tslotsRead, ↓reduceIte, except_ok_bind,
    Bool.false_eq_true] <;> rfl

/-- A pass on a whole payload makes the payload's call and moves past it. -/
theorem handlePayloadOnce_ser
    (clock : Nat → BitVec 64)
    (pre post : List (BitVec 8))
    (p : Payload)
    (st : Session) :
    handlePayloadOnce jhash1Word clock (pre ++ p.ser ++ post) pre.length st =
      (p.dispatch jhash1Word (clock pre.length) st).map
        fun st => (st, .handled (pre.length + p.ser.length)) := by
  cases p with
  | reset ignored tstamp =>
    simpa [Payload.ser, htonl] using
      handlePayloadOnce_reset jhash1Word clock pre post ignored tstamp st
  | alloc p => exact handlePayloadOnce_alloc jhash1Word clock pre post p st
  | ack runlen seq =>
    simpa [Payload.ser, htonl, htons] using
      handlePayloadOnce_ack jhash1Word clock pre post runlen seq st

/--
A pass on a remainder that starts no whole payload stops at the error label of
its type nibble, leaving the session but for that counter.
-/
theorem handlePayloadOnce_remainder
    (clock : Nat → BitVec 64)
    (pre : List (BitVec 8))
    (b : BitVec 8)
    (rest : List (BitVec 8))
    (st : Session)
    (noPayload : StartsNoPayload (b :: rest)) :
    ∃ label, handlePayloadOnce jhash1Word clock (pre ++ b :: rest) pre.length st =
      .ok (st, .error label) ∧
      label.count st.stats = st.stats.countRemainder (b :: rest) := by
  have decoded := startsNoPayload_iff.mp noPayload
  have first : readByte (pre ++ b :: rest) pre.length = .ok b := by simp
  simp only [handlePayloadOnce, first, except_ok_bind]
  by_cases resetType : (b >>> 4).toNat = fastpassPtypeReset
  · have short := decode_none_reset resetType decoded
    refine ⟨.incompleteResetPayload, ?_, by simp [RcvError.count, Stats.countRemainder, resetType]⟩
    simp only [resetType, ↓reduceIte, handleResetPayload, List.length_append, List.length_cons,
      show pre.length + 8 > pre.length + (rest.length + 1) by omega]
  by_cases allocType : (b >>> 4).toNat = fastpassPtypeAlloc
  · have counted : ∀ label, label = RcvError.incompleteAllocPayloadOneByte ∨
        label = RcvError.incompleteAllocPayload →
        label.count st.stats = st.stats.countRemainder (b :: rest) := by
      rintro _ (rfl | rfl) <;> simp [RcvError.count, Stats.countRemainder, resetType, allocType]
    simp only [allocType, fastpassPtype_distinct, ↓reduceIte, handleAllocPayload]
    cases rest with
    | nil =>
      refine ⟨_, ?_, counted _ (.inl rfl)⟩
      simp
    | cons b1 rest =>
      have short := decode_none_alloc allocType decoded
      have fields := allocHeader_fields b b1
      have wordRead : ntohs (pre ++ b :: b1 :: rest) pre.length = .ok (b ++ b1) := by
        simp [ntohs]
      refine ⟨_, ?_, counted _ (.inr rfl)⟩
      simp only [List.length_append, List.length_cons,
        show ¬(pre.length + 2 > pre.length + (rest.length + 1 + 1))
        by omega, ↓reduceIte, wordRead, except_ok_bind, fields.1, fields.2,
        show pre.length + 2 + 2 + 2 * (b.extractLsb' 0 4).toNat + 2 * (b1.extractLsb' 0 6).toNat >
          pre.length + (rest.length + 1 + 1) by omega]
  by_cases ackType : (b >>> 4).toNat = fastpassPtypeAck
  · have short := decode_none_ack ackType decoded
    refine ⟨.incompleteAckPayload, ?_, by
      simp [RcvError.count, Stats.countRemainder, resetType, allocType, ackType]⟩
    simp only [ackType, fastpassPtype_distinct, ↓reduceIte, handleAckPayload, List.length_append,
      List.length_cons, show pre.length + 6 > pre.length + (rest.length + 1) by omega]
  · exact ⟨.unknownPayloadType, by simp only [resetType, allocType, ackType, ↓reduceIte],
      by simp only [RcvError.count, Stats.countRemainder, resetType, allocType, ackType,
        ↓reduceIte]⟩

/--
The `handle_payload` loop on whole payloads followed by a remainder that starts
none makes the payloads' calls in order, each at the clock reading of its
offset, and then counts the remainder.  The loop is entered only with bytes
left to read.
-/
theorem handlePayload_serAll
    (clock : Nat → BitVec 64)
    (r : List (BitVec 8))
    (noPayload : StartsNoPayload r) :
    ∀ (ps : List Payload) (pre : List (BitVec 8)) (st : Session), ps ≠ [] ∨ r ≠ [] →
      handlePayload jhash1Word clock (pre ++ Payload.serAll ps ++ r) pre.length st =
        (Payload.dispatchFrom jhash1Word clock pre.length st ps).map
          fun st => { st with stats := st.stats.countRemainder r }
  | [], pre, st, nonempty => by
    obtain ⟨b, rest, rfl⟩ := List.exists_cons_of_ne_nil (nonempty.resolve_left (by simp))
    obtain ⟨label, stepped, counted⟩ :=
      handlePayloadOnce_remainder jhash1Word clock pre b rest st noPayload
    rw [Payload.serAll_nil, List.append_nil, handlePayload]
    split
    next e exited => rw [stepped] at exited; cases exited
    next st' label' exited =>
      rw [stepped] at exited
      cases exited
      rw [counted]
      rfl
    next exited => rw [stepped] at exited; cases exited
  | p :: ps, pre, st, _ => by
    have stepped := handlePayloadOnce_ser jhash1Word clock pre (Payload.serAll ps ++ r) p st
    rw [← List.append_assoc] at stepped
    rw [Payload.serAll_cons, ← List.append_assoc, handlePayload, Payload.dispatchFrom]
    cases dispatched : p.dispatch jhash1Word (clock pre.length) st with
    | error e =>
      rw [dispatched] at stepped
      split
      next exited => rw [stepped] at exited; cases exited; rfl
      next exited => rw [stepped] at exited; cases exited
      next exited => rw [stepped] at exited; cases exited
    | ok st1 =>
      rw [dispatched] at stepped
      split
      next exited => rw [stepped] at exited; cases exited
      next exited => rw [stepped] at exited; cases exited
      next st' next exited =>
        rw [stepped] at exited
        cases exited
        rw [except_ok_bind]
        split
        next inside =>
          have nonempty : ps ≠ [] ∨ r ≠ [] := by
            rcases ps with _ | ⟨q, qs⟩
            · exact .inr fun empty => by simp [empty] at inside
            · exact .inl (List.cons_ne_nil _ _)
          rw [show pre.length + p.ser.length = (pre ++ p.ser).length from
            (List.length_append _ _).symm]
          exact handlePayload_serAll clock r noPayload ps (pre ++ p.ser) st1 nonempty
        next outside =>
          rcases ps with _ | ⟨q, qs⟩
          · obtain rfl : r = [] := List.eq_nil_of_length_eq_zero (by
              simp only [Payload.serAll_nil, List.append_nil, List.length_append] at outside
              omega)
            rfl
          · have := q.ser_length_pos
            simp only [Payload.serAll_cons, List.length_append] at outside
            omega

/-! ## The calls a packet makes -/

/-- On a window with the invariant a payload's call never crashes and keeps the invariant. -/
theorem Payload.dispatch_inv {st : Session} (inv : st.wnd.Inv) (now : BitVec 64) :
    ∀ p : Payload, ∃ st', p.dispatch jhash1Word now st = .ok st' ∧ st'.wnd.Inv
  | .reset _ tstamp => fpprotoHandleReset_ok jhash1Word inv _ now
  | .alloc _ => ⟨_, rfl, by split <;> simpa⟩
  | .ack runlen seq => by
    obtain ⟨_, _, _, _, _, -, -, popped, acked⟩ :=
      fpprotoHandleAck_shape inv seq (BitVec.ofNat 4 fastpassPtypeAck ++ runlen)
    exact ⟨_, acked, popped.inv⟩

theorem Payload.dispatchFrom_inv (clock : Nat → BitVec 64) :
    ∀ (ps : List Payload) (data : Nat) (st : Session), st.wnd.Inv →
      ∃ st', Payload.dispatchFrom jhash1Word clock data st ps = .ok st' ∧ st'.wnd.Inv
  | [], _, _, inv => ⟨_, rfl, inv⟩
  | p :: ps, data, st, inv => by
    obtain ⟨st1, dispatched, inv1⟩ := p.dispatch_inv jhash1Word inv (clock data)
    simp only [Payload.dispatchFrom, dispatched, except_ok_bind]
    exact Payload.dispatchFrom_inv clock ps _ st1 inv1

/-- Once the qdisc is locked, `fpproto_rcv` counts the packet, parses it and cleans up. -/
theorem fpprotoRcv_of_locked
    (clock : Nat → BitVec 64)
    {st stL : Session}
    {sch : Qdisc}
    (locked : fpprotoLockQdisc st = (some sch, stL))
    (skb : List (BitVec 8)) :
    fpprotoRcv jhash1Word clock true st skb =
      (if skb.length < 5 then
        .ok { stL with
          stats := { stL.stats with
            rxPkts := stL.stats.rxPkts + 1
            rxTooShort := stL.stats.rxTooShort + 1 } }
      else handlePayload jhash1Word clock skb 4
        { stL with stats := { stL.stats with rxPkts := stL.stats.rxPkts + 1 } }).map
          (rcvCleanup sch) := by
  simp only [fpprotoRcv, Bool.not_true, Bool.false_eq_true, ↓reduceIte, locked]
  rfl

/-- `cleanup` only logs its calls. -/
theorem rcvCleanup_eq (sch : Qdisc) (st : Session) :
    rcvCleanup sch st = st.emit [.spinUnlockBh, .rcuReadUnlockBh, .sockPut, .kfreeSkb] := by
  simp [rcvCleanup, fpprotoUnlockQdisc, Session.emit]

/--
Once the qdisc is locked, a packet of at least 5 bytes is parsed: the bytes
after its header are whole payloads followed by a remainder that starts none,
and `fpproto_rcv` makes the payloads' calls, counts the remainder and cleans
up.
-/
theorem fpprotoRcv_parsed
    (clock : Nat → BitVec 64)
    {st stL : Session}
    {sch : Qdisc}
    (locked : fpprotoLockQdisc st = (some sch, stL))
    {skb : List (BitVec 8)}
    (long : 5 ≤ skb.length) :
    ∃ ps r, skb.drop 4 = Payload.serAll ps ++ r ∧ StartsNoPayload r ∧
      fpprotoRcv jhash1Word clock true st skb =
        (Payload.dispatchFrom jhash1Word clock 4
          { stL with stats := { stL.stats with rxPkts := stL.stats.rxPkts + 1 } } ps).map
          fun st' => rcvCleanup sch { st' with stats := st'.stats.countRemainder r } := by
  obtain ⟨ps, r, split, noPayload⟩ := exists_split (skb.drop 4)
  obtain ⟨hdr, hdrEq⟩ : ∃ hdr, hdr = skb.take 4 := ⟨_, rfl⟩
  have hdrLength : hdr.length = 4 := by simp [hdrEq]; omega
  have skbEq : skb = hdr ++ Payload.serAll ps ++ r := by
    rw [List.append_assoc, ← split, hdrEq, List.take_append_drop]
  have nonempty : ps ≠ [] ∨ r ≠ [] := by
    rcases ps with _ | ⟨p, ps⟩
    · exact .inr fun empty => by simp [empty] at split; omega
    · exact .inl (List.cons_ne_nil _ _)
  refine ⟨ps, r, split, noPayload, ?_⟩
  rw [fpprotoRcv_of_locked jhash1Word clock locked skb, if_neg (by omega), skbEq, ← hdrLength,
    handlePayload_serAll jhash1Word clock r noPayload ps _ _ nonempty]
  cases Payload.dispatchFrom jhash1Word clock hdr.length _ ps <;> rfl

/-- On a window with the invariant `fpproto_rcv` never crashes, and keeps the invariant. -/
theorem fpprotoRcv_inv
    (clock : Nat → BitVec 64)
    (found : Bool)
    {st : Session}
    (inv : st.wnd.Inv)
    (skb : List (BitVec 8)) :
    ∃ st', fpprotoRcv jhash1Word clock found st skb = .ok st' ∧ st'.wnd.Inv := by
  have lockedWnd := fpprotoLockQdisc_wnd st
  cases found
  · exact ⟨_, rfl, inv⟩
  rcases locked : fpprotoLockQdisc st with ⟨_ | sch, stL⟩
  · simp only [locked] at lockedWnd
    refine ⟨stL.emit [.kfreeSkb], ?_, by simpa [lockedWnd] using inv⟩
    simp only [fpprotoRcv, Bool.not_true, Bool.false_eq_true, ↓reduceIte, locked]
  simp only [locked] at lockedWnd
  by_cases short : skb.length < 5
  · rw [fpprotoRcv_of_locked jhash1Word clock locked skb, if_pos short]
    exact ⟨_, rfl, by simpa [rcvCleanup_eq, lockedWnd] using inv⟩
  · obtain ⟨ps, r, -, -, parsed⟩ :=
      fpprotoRcv_parsed jhash1Word clock locked (show 5 ≤ skb.length by omega)
    obtain ⟨st', dispatched, inv'⟩ := Payload.dispatchFrom_inv jhash1Word clock ps 4
      { stL with stats := { stL.stats with rxPkts := stL.stats.rxPkts + 1 } }
      (by simpa [lockedWnd] using inv)
    rw [parsed, dispatched]
    exact ⟨_, rfl, by simpa [rcvCleanup_eq] using inv'⟩

/--
On a socket whose qdisc locks, `fpproto_rcv` counts every packet in
`stat_rx_pkts`.  A packet shorter than 5 bytes also counts in
`stat_rx_too_short` and makes no call.  Of a longer one, the bytes after the
header are, in exactly one way, whole payloads followed by a remainder that
starts none; the packet makes the payloads' calls in order, then counts the
remainder.  On a window with the invariant no read leaves the packet and no
call crashes.
-/
theorem fpprotoRcv_payloads
    (clock : Nat → BitVec 64)
    {st stL : Session}
    {sch : Qdisc}
    (locked : fpprotoLockQdisc st = (some sch, stL))
    (skb : List (BitVec 8)) :
    (skb.length < 5 → fpprotoRcv jhash1Word clock true st skb =
      .ok (rcvCleanup sch { stL with
        stats := { stL.stats with
          rxPkts := stL.stats.rxPkts + 1
          rxTooShort := stL.stats.rxTooShort + 1 } })) ∧
    (5 ≤ skb.length → ∃ ps r, skb.drop 4 = Payload.serAll ps ++ r ∧ StartsNoPayload r ∧
      (∀ qs s, skb.drop 4 = Payload.serAll qs ++ s → StartsNoPayload s → qs = ps ∧ s = r) ∧
      fpprotoRcv jhash1Word clock true st skb =
        (Payload.dispatchFrom jhash1Word clock 4
          { stL with stats := { stL.stats with rxPkts := stL.stats.rxPkts + 1 } } ps).map
          fun st' => rcvCleanup sch { st' with stats := st'.stats.countRemainder r }) ∧
    (st.wnd.Inv → ∃ st', fpprotoRcv jhash1Word clock true st skb = .ok st' ∧ st'.wnd.Inv) := by
  refine ⟨fun short => by rw [fpprotoRcv_of_locked jhash1Word clock locked skb, if_pos short]; rfl,
    fun long => ?_, fun inv => fpprotoRcv_inv jhash1Word clock true inv skb⟩
  obtain ⟨ps, r, split, noPayload, parsed⟩ := fpprotoRcv_parsed jhash1Word clock locked long
  refine ⟨ps, r, split, noPayload, fun qs s split' noPayload' => ?_, parsed⟩
  have same := split_unique (split.symm.trans split') noPayload noPayload'
  exact ⟨same.1.symm, same.2.symm⟩

/-- An ACK payload for the sample window's one packet, on a socket with a live qdisc. -/
theorem fpprotoRcv_payloads_ack :
    let st : Session := { Session.allocated ⟨false, false, false, false⟩ 0 0 with
      wnd := Outwnd.sample, qdisc := some ⟨1⟩ }
    let stL := st.emit [.rcuReadLockBh, .spinLockBh]
    let skb : List (BitVec 8) := [0, 0, 0, 0] ++ (Payload.ack 0 ((-5 : BitVec 64).setWidth 16)).ser
    fpprotoLockQdisc st = (some ⟨1⟩, stL) ∧
    (skb.length < 5 → fpprotoRcv (fun _ _ => 0) (fun _ => 0) true st skb =
      .ok (rcvCleanup ⟨1⟩ { stL with
        stats := { stL.stats with
          rxPkts := stL.stats.rxPkts + 1
          rxTooShort := stL.stats.rxTooShort + 1 } })) ∧
    (5 ≤ skb.length → ∃ ps r, skb.drop 4 = Payload.serAll ps ++ r ∧ StartsNoPayload r ∧
      (∀ qs s, skb.drop 4 = Payload.serAll qs ++ s → StartsNoPayload s → qs = ps ∧ s = r) ∧
      fpprotoRcv (fun _ _ => 0) (fun _ => 0) true st skb =
        (Payload.dispatchFrom (fun _ _ => 0) (fun _ => 0) 4
          { stL with stats := { stL.stats with rxPkts := stL.stats.rxPkts + 1 } } ps).map
          fun st' => rcvCleanup ⟨1⟩ { st' with stats := st'.stats.countRemainder r }) ∧
    (st.wnd.Inv →
      ∃ st', fpprotoRcv (fun _ _ => 0) (fun _ => 0) true st skb = .ok st' ∧ st'.wnd.Inv) := by
  intro st stL skb
  exact ⟨rfl, @fpprotoRcv_payloads (fun _ _ => 0) (fun _ => 0) st stL ⟨1⟩ rfl skb⟩

/--
A four-byte packet on a socket with a live qdisc counts in `stat_rx_pkts` as
well as in `stat_rx_too_short`.
-/
theorem fpprotoRcv_short_counts_rxPkts :
    (fpprotoRcv (fun _ _ => 0) (fun _ => 0) true
      { Session.allocated ⟨false, false, false, false⟩ 0 0 with qdisc := some ⟨1⟩ }
        [0, 0, 0, 0]).map
      (fun st => (st.stats.rxPkts, st.stats.rxTooShort)) = .ok (1, 1) :=
  rfl

/--
The RESET request `fpproto_send_packet` writes is read back by the RESET case
of the receive path at any clock reading `now`: it calls
`fpproto_handle_reset` with the low 56 bits of the reset time, from which the
call rebuilds the one time in `[now - 2^55, now + 2^55)` that agrees with the
sent one in those bits, the sent time itself when it lies in that range.
-/
theorem sendPacket_resetPayload
    (csum : List (BitVec 8) → BitVec 32 → BitVec 16)
    (sender : Session)
    {pd : Pktdesc}
    (sending : pd.sendReset = true)
    (xmitOk : Bool)
    (receiver : Session)
    (now : BitVec 64) :
    ∃ skb, (fpprotoSendPacket jhash1Word csum sender pd true xmitOk).2 = some skb ∧
      handlePayloadOnce jhash1Word (fun _ => now) skb 4 receiver =
        (fpprotoHandleReset jhash1Word receiver
          ((pd.resetTimestamp.setWidth 56).setWidth 64) now).map (fun st => (st, .handled 12)) ∧
      (∀ st', fpprotoHandleReset jhash1Word receiver
          ((pd.resetTimestamp.setWidth 56).setWidth 64) now = .ok st' →
        st'.lastResetTime = receiver.lastResetTime ∨
          st'.lastResetTime = fullTstamp now ((pd.resetTimestamp.setWidth 56).setWidth 64)) ∧
      (fullTstamp now ((pd.resetTimestamp.setWidth 56).setWidth 64) -
        (now - ((1 : BitVec 64) <<< 55))).toNat < 2 ^ 56 ∧
      (fullTstamp now ((pd.resetTimestamp.setWidth 56).setWidth 64)).toNat % 2 ^ 56 =
        pd.resetTimestamp.toNat % 2 ^ 56 ∧
      (∀ f : BitVec 64, (f - (now - ((1 : BitVec 64) <<< 55))).toNat < 2 ^ 56 →
        f.toNat % 2 ^ 56 = pd.resetTimestamp.toNat % 2 ^ 56 →
        f = fullTstamp now ((pd.resetTimestamp.setWidth 56).setWidth 64)) ∧
      ((pd.resetTimestamp - (now - ((1 : BitVec 64) <<< 55))).toNat < 2 ^ 56 →
        fullTstamp now ((pd.resetTimestamp.setWidth 56).setWidth 64) = pd.resetTimestamp) := by
  obtain ⟨rest, packet⟩ := fpprotoPacketData_reset sending
  have partialLow : ((pd.resetTimestamp.setWidth 56).setWidth 64).toNat % 2 ^ 56 =
      pd.resetTimestamp.toNat % 2 ^ 56 := by
    simp only [BitVec.toNat_setWidth, Nat.mod_mod]
    omega
  obtain ⟨range, low, unique⟩ := fullTstamp_spec now ((pd.resetTimestamp.setWidth 56).setWidth 64)
  rw [partialLow] at low unique
  have onWire : fpprotoEgressChecksum jhash1Word csum (fpprotoPacketData pd) pd.seqno =
      htons (pd.seqno.setWidth 16) ++ htons (csum (fpprotoPacketData pd)
        (jhash1Word (pd.seqno.setWidth 32) ((pd.seqno >>> 32).setWidth 32))) ++
        (Payload.reset 0 (pd.resetTimestamp.setWidth 56)).ser ++ rest := by
    rw [fpprotoEgressChecksum]
    nth_rewrite 1 [packet]
    nth_rewrite 2 [packet]
    simp [htons, List.append_assoc]
  refine ⟨_, rfl, ?_, fun _ reset => fpprotoHandleReset_lastResetTime jhash1Word reset, range, low,
    unique, fun inRange => (unique _ inRange rfl).symm⟩
  rw [onWire]
  exact handlePayloadOnce_reset jhash1Word (fun _ => now) _ rest 0 _ receiver

/--
A descriptor requesting a reset at time `5`, read back at clock `0`, as an
instance of the hypothesis.
-/
theorem sendPacket_resetPayload_sample :
    (⟨0, 0, 0, true, 5, []⟩ : Pktdesc).sendReset = true ∧
    ∃ skb, (fpprotoSendPacket (fun _ _ => 0) (fun _ _ => 0)
      (Session.allocated ⟨false, false, false, false⟩ 0 0) (⟨0, 0, 0, true, 5, []⟩ : Pktdesc)
        true true).2 = some skb ∧
      handlePayloadOnce (fun _ _ => 0) (fun _ => 0) skb 4
        (Session.allocated ⟨false, false, false, false⟩ 0 0) =
        (fpprotoHandleReset (fun _ _ => 0) (Session.allocated ⟨false, false, false, false⟩ 0 0)
          (((5 : BitVec 64).setWidth 56).setWidth 64) 0).map
          (fun st => (st, .handled 12)) ∧
      (∀ st', fpprotoHandleReset (fun _ _ => 0) (Session.allocated ⟨false, false, false, false⟩ 0 0)
          (((5 : BitVec 64).setWidth 56).setWidth 64) 0 = .ok st' →
        st'.lastResetTime = (Session.allocated ⟨false, false, false, false⟩ 0 0).lastResetTime ∨
          st'.lastResetTime = fullTstamp 0 (((5 : BitVec 64).setWidth 56).setWidth 64)) ∧
      (fullTstamp 0 (((5 : BitVec 64).setWidth 56).setWidth 64) -
        (0 - ((1 : BitVec 64) <<< 55))).toNat < 2 ^ 56 ∧
      (fullTstamp 0 (((5 : BitVec 64).setWidth 56).setWidth 64)).toNat % 2 ^ 56 =
        (5 : BitVec 64).toNat % 2 ^ 56 ∧
      (∀ f : BitVec 64, (f - (0 - ((1 : BitVec 64) <<< 55))).toNat < 2 ^ 56 →
        f.toNat % 2 ^ 56 = (5 : BitVec 64).toNat % 2 ^ 56 →
        f = fullTstamp 0 (((5 : BitVec 64).setWidth 56).setWidth 64)) ∧
      (((5 : BitVec 64) - (0 - ((1 : BitVec 64) <<< 55))).toNat < 2 ^ 56 →
        fullTstamp 0 (((5 : BitVec 64).setWidth 56).setWidth 64) = 5) :=
  ⟨rfl, sendPacket_resetPayload (fun _ _ => 0) (fun _ _ => 0)
    (Session.allocated ⟨false, false, false, false⟩ 0 0) rfl true
      (Session.allocated ⟨false, false, false, false⟩ 0 0) 0⟩

/--
The controller's acknowledgement of a packet in flight.  Take a descriptor
the window holds and the packet `fpproto_send_packet` built for it.  An ACK
payload with no runs that echoes the packet's sequence field, wherever it lies
in a received packet, makes `fpproto_handle_ack` acknowledge exactly that
descriptor: its slot is emptied, it alone is handed to `handle_ack` (or
freed), and `cancel_and_reset_retrans_timer` is called.
-/
theorem sendPacket_ackEcho
    (csum : List (BitVec 8) → BitVec 32 → BitVec 16)
    (sender : Session)
    (xmitOk : Bool)
    (clock : Nat → BitVec 64)
    (pre post : List (BitVec 8))
    {st : Session}
    (inv : st.wnd.Inv)
    {i : Nat}
    (small : i < fastpassOutwndLen)
    {pd : Pktdesc}
    (held : st.wnd.bins i = some pd) :
    ∃ skb ackSeq, (fpprotoSendPacket jhash1Word csum sender pd true xmitOk).2 = some skb ∧
      ntohs skb 0 = .ok ackSeq ∧
      handlePayloadOnce jhash1Word clock (pre ++ (Payload.ack 0 ackSeq).ser ++ post) pre.length st =
        (cancelAndResetRetransTimer { st with
          wnd := st.wnd.clearSlot i
          log := st.log ++ [ackRelease st.ops (some pd)] }).map fun st =>
            (st, .handled (pre.length + 6)) := by
  refine ⟨_, pd.seqno.setWidth 16, rfl, ?_, ?_⟩
  · simp [fpprotoEgressChecksum, fpprotoPacketData, ntohs, htons, htons_bytes]
  · rw [handlePayloadOnce_ack, fpprotoHandleAck_single inv small held (by decide)]

/--
The one packet of the sample window, acknowledged by its echo, as an instance
of the hypotheses.
-/
theorem sendPacket_ackEcho_sample :
    let st : Session := { Session.allocated ⟨false, false, false, false⟩ 0 0 with
      wnd := Outwnd.sample }
    let pd : Pktdesc := ⟨0, -5, 0, false, 0, []⟩
    st.wnd.Inv ∧ 5 < fastpassOutwndLen ∧ st.wnd.bins 5 = some pd ∧
    ∃ skb ackSeq, (fpprotoSendPacket (fun _ _ => 0) (fun _ _ => 0) st pd true true).2 = some skb ∧
      ntohs skb 0 = .ok ackSeq ∧
      handlePayloadOnce (fun _ _ => 0) (fun _ => 0) ([] ++ (Payload.ack 0 ackSeq).ser ++ []) 0 st =
        (cancelAndResetRetransTimer { st with
          wnd := st.wnd.clearSlot 5
          log := st.log ++ [ackRelease st.ops (some pd)] }).map fun st =>
            (st, .handled (0 + 6)) := by
  intro st pd
  have inv : st.wnd.Inv := Outwnd.sample_inv
  have held : st.wnd.bins 5 = some pd := rfl
  exact ⟨inv, by decide, held,
    sendPacket_ackEcho (fun _ _ => 0) (fun _ _ => 0) st true (fun _ => 0) [] [] inv
      (by decide) held⟩

end Rcv

end Fastpass
