import Fastpass.Session

namespace Fastpass

/-!
# The wire format

A Fastpass packet is a byte string: a 4-byte header, then payloads, each
starting with its type in the high nibble of its first byte.  Multi-byte
fields are big-endian: they are written with `htons` and `htonl` and read back
with `ntohs` and `ntohl` through `readByte`, which fails outside the packet.

`Payload` is the format's abstract syntax and `Payload.ser` its serialisation,
the layout of the specification's table with every bit of the first word kept,
also the bits the receiver masks off.  `Payload.decode` reads one payload off
the front of a byte string.  The round trip `decode_ser` and its converse
`ser_of_decode` make the format prefix-free: a byte string splits in at most
one way into whole payloads and a remainder that starts none
(`split_unique`), and in at least one (`exists_split`).
-/

/-- `htons`: a 16-bit word as it lies in memory, high byte first. -/
def htons (x : BitVec 16) : List (BitVec 8) :=
  [x.extractLsb' 8 8, x.extractLsb' 0 8]

/-- `htonl`: a 32-bit word as it lies in memory, high byte first. -/
def htonl (x : BitVec 32) : List (BitVec 8) :=
  [x.extractLsb' 24 8, x.extractLsb' 16 8, x.extractLsb' 8 8, x.extractLsb' 0 8]

/-- A read of `skb->data[i]`; outside the packet it is an out-of-bounds access. -/
def readByte : List (BitVec 8) → Nat → Except Crash (BitVec 8)
  | [], _ => .error .outOfBounds
  | b :: _, 0 => .ok b
  | _ :: rest, i + 1 => readByte rest i

/-- `ntohs(*(u16 *)(skb->data + i))`. -/
def ntohs (skb : List (BitVec 8)) (i : Nat) : Except Crash (BitVec 16) := do
  let hi ← readByte skb i
  let lo ← readByte skb (i + 1)
  pure (hi ++ lo)

/-- `ntohl(*(u32 *)(skb->data + i))`. -/
def ntohl (skb : List (BitVec 8)) (i : Nat) : Except Crash (BitVec 32) := do
  let hi ← ntohs skb i
  let lo ← ntohs skb (i + 2)
  pure (hi ++ lo)

/-- The `n` bytes from `skb->data + i` on, as a callee handed the pointer reads them. -/
def readBytes (skb : List (BitVec 8)) (i : Nat) : (n : Nat) → Except Crash (List (BitVec 8))
  | 0 => .ok []
  | n + 1 => do
    let b ← readByte skb i
    let bs ← readBytes skb (i + 1) n
    pure (b :: bs)

/-- The first `n` big-endian 16-bit words of a byte string. -/
def pairsFrom : Nat → List (BitVec 8) → List (BitVec 16)
  | 0, _ => []
  | n + 1, hi :: lo :: rest => (hi ++ lo) :: pairsFrom n rest
  | _ + 1, _ => []

/-! ## Reading bytes -/

@[simp] theorem readByte_cons_zero (b : BitVec 8) (rest : List (BitVec 8)) :
    readByte (b :: rest) 0 = .ok b := rfl

@[simp] theorem readByte_cons_succ (b : BitVec 8) (rest : List (BitVec 8)) (i : Nat) :
    readByte (b :: rest) (i + 1) = readByte rest i := rfl

@[simp] theorem readByte_append_length (pre l : List (BitVec 8)) (k : Nat) :
    readByte (pre ++ l) (pre.length + k) = readByte l k := by
  induction pre with
  | nil => simp
  | cons b pre inductionHypothesis =>
    rw [List.cons_append, List.length_cons, Nat.add_right_comm, readByte_cons_succ,
      inductionHypothesis]

@[simp] theorem ntohs_append_length (pre l : List (BitVec 8)) (k : Nat) :
    ntohs (pre ++ l) (pre.length + k) = ntohs l k := by
  simp [ntohs, Nat.add_assoc]

@[simp] theorem ntohl_append_length (pre l : List (BitVec 8)) (k : Nat) :
    ntohl (pre ++ l) (pre.length + k) = ntohl l k := by
  simp [ntohl, Nat.add_assoc]

@[simp] theorem readByte_append_length_zero (pre l : List (BitVec 8)) :
    readByte (pre ++ l) pre.length = readByte l 0 :=
  readByte_append_length pre l 0

@[simp] theorem ntohs_append_length_zero (pre l : List (BitVec 8)) :
    ntohs (pre ++ l) pre.length = ntohs l 0 :=
  ntohs_append_length pre l 0

@[simp] theorem ntohl_append_length_zero (pre l : List (BitVec 8)) :
    ntohl (pre ++ l) pre.length = ntohl l 0 :=
  ntohl_append_length pre l 0

theorem readBytes_append (pre l post : List (BitVec 8)) :
    readBytes (pre ++ l ++ post) pre.length l.length = .ok l := by
  induction l generalizing pre with
  | nil => rfl
  | cons b l inductionHypothesis =>
    have shifted := inductionHypothesis (pre ++ [b])
    simp only [List.append_assoc, List.singleton_append, List.cons_append, List.nil_append,
      List.length_append, List.length_singleton] at shifted
    simp only [readBytes, List.length_cons, List.append_assoc, List.cons_append]
    rw [show pre.length = pre.length + 0 from rfl, readByte_append_length, Nat.add_zero, shifted]
    rfl

/-! ## Words and bytes -/

theorem toNat_append_eq {m n : Nat} (x : BitVec m) (y : BitVec n) :
    (x ++ y).toNat = x.toNat * 2 ^ n + y.toNat := by
  rw [BitVec.toNat_append, Nat.shiftLeft_eq, Nat.mul_comm, Nat.mul_add_lt_is_or y.isLt]

/-- An or of a multiple of `2^k` with a number below `2^k` is their sum. -/
theorem lor_eq_add {a b k : Nat} (high : a % 2 ^ k = 0) (small : b < 2 ^ k) : a ||| b = a + b := by
  rw [← Nat.div_add_mod a (2 ^ k), high, Nat.add_zero, Nat.mul_add_lt_is_or small]

theorem htons_bytes (x : BitVec 16) : x.extractLsb' 8 8 ++ x.extractLsb' 0 8 = x := by
  apply BitVec.eq_of_toNat_eq
  simp only [toNat_append_eq, BitVec.extractLsb'_toNat, Nat.shiftRight_eq_div_pow]
  omega

theorem htonl_bytes (x : BitVec 32) :
    x.extractLsb' 24 8 ++ x.extractLsb' 16 8 ++ (x.extractLsb' 8 8 ++ x.extractLsb' 0 8) = x := by
  apply BitVec.eq_of_toNat_eq
  simp only [toNat_append_eq, BitVec.extractLsb'_toNat, Nat.shiftRight_eq_div_pow]
  omega

@[simp] theorem ntohs_htons (x : BitVec 16) (post : List (BitVec 8)) :
    ntohs (htons x ++ post) 0 = .ok x := by
  simp [ntohs, htons, htons_bytes]

@[simp] theorem ntohl_htonl (x : BitVec 32) (post : List (BitVec 8)) :
    ntohl (htonl x ++ post) 0 = .ok x := by
  simp only [ntohl, ntohs, htonl, List.cons_append, readByte_cons_zero, readByte_cons_succ,
    except_ok_bind]
  exact congrArg _ (htonl_bytes x)

theorem ntohl_after_htonl (x : BitVec 32) (l : List (BitVec 8)) :
    ntohl (htonl x ++ l) 4 = ntohl l 0 :=
  ntohl_append_length (htonl x) l 0

theorem ntohs_after_htonl (x : BitVec 32) (l : List (BitVec 8)) :
    ntohs (htonl x ++ l) 4 = ntohs l 0 :=
  ntohs_append_length (htonl x) l 0

theorem htons_append (hi lo : BitVec 8) : htons (hi ++ lo) = [hi, lo] := by
  simp only [htons, List.cons.injEq, and_true]
  constructor <;> apply BitVec.eq_of_toNat_eq <;>
    simp only [toNat_append_eq, BitVec.extractLsb'_toNat, Nat.shiftRight_eq_div_pow] <;> omega

/-! ## Payloads -/

/-- An ALLOC payload; the lists are as long as its header declares. -/
structure AllocPayload where
  nDst : BitVec 4
  /-- The top two bits of the second header byte, which the receiver masks off. -/
  ignored : BitVec 2
  halfTslots : BitVec 6
  baseTslot : BitVec 16
  dst : List (BitVec 16)
  tslots : List (BitVec 8)
  dst_length : dst.length = nDst.toNat
  tslots_length : tslots.length = 2 * halfTslots.toNat

/-- One payload of a packet the core receives. -/
inductive Payload where
  /-- RESET: the low 56 bits of the sender's reset time, and the low nibble of the first byte. -/
  | reset (ignored : BitVec 4) (tstamp : BitVec 56)
  | alloc (payload : AllocPayload)
  /-- ACK: the run-length word below the type nibble, and the low 16 bits of a sequence number. -/
  | ack (runlen : BitVec 28) (seq : BitVec 16)

/-- The bytes of a payload, as the specification's table lays them out. -/
def Payload.ser : Payload → List (BitVec 8)
  | .reset ignored tstamp =>
    htonl (BitVec.ofNat 4 fastpassPtypeReset ++ ignored ++ tstamp.extractLsb' 32 24) ++
      htonl (tstamp.extractLsb' 0 32)
  | .alloc p =>
    (BitVec.ofNat 4 fastpassPtypeAlloc ++ p.nDst) :: (p.ignored ++ p.halfTslots) ::
      htons p.baseTslot ++ (p.dst.map htons).flatten ++ p.tslots
  | .ack runlen seq => htonl (BitVec.ofNat 4 fastpassPtypeAck ++ runlen) ++ htons seq

theorem pairsFrom_length {l : List (BitVec 8)} {n : Nat} (enough : 2 * n ≤ l.length) :
    (pairsFrom n l).length = n := by
  induction n generalizing l with
  | zero => rfl
  | succ n inductionHypothesis =>
    match l, enough with
    | hi :: lo :: rest, enough =>
      simp only [pairsFrom, List.length_cons] at enough ⊢
      rw [inductionHypothesis (by omega)]

/--
The payload a byte string starts with, if it starts with a whole one, and the
bytes after it.
-/
def Payload.decode : List (BitVec 8) → Option (Payload × List (BitVec 8))
  | [] => none
  | b0 :: rest =>
    if (b0 >>> 4).toNat = fastpassPtypeReset then
      match rest with
      | b1 :: b2 :: b3 :: b4 :: b5 :: b6 :: b7 :: rest =>
        some (.reset (b0.extractLsb' 0 4) (b1 ++ b2 ++ b3 ++ (b4 ++ b5 ++ (b6 ++ b7))), rest)
      | _ => none
    else if (b0 >>> 4).toNat = fastpassPtypeAlloc then
      match rest with
      | b1 :: b2 :: b3 :: rest =>
        if fits : 2 * (b0.extractLsb' 0 4).toNat + 2 * (b1.extractLsb' 0 6).toNat ≤ rest.length then
          some (.alloc
            { nDst := b0.extractLsb' 0 4
              ignored := b1.extractLsb' 6 2
              halfTslots := b1.extractLsb' 0 6
              baseTslot := b2 ++ b3
              dst := pairsFrom (b0.extractLsb' 0 4).toNat rest
              tslots := (rest.drop (2 * (b0.extractLsb' 0 4).toNat)).take
                (2 * (b1.extractLsb' 0 6).toNat)
              dst_length := pairsFrom_length (by omega)
              tslots_length := by rw [List.length_take, List.length_drop]; omega },
            rest.drop (2 * (b0.extractLsb' 0 4).toNat + 2 * (b1.extractLsb' 0 6).toNat))
        else none
      | _ => none
    else if (b0 >>> 4).toNat = fastpassPtypeAck then
      match rest with
      | b1 :: b2 :: b3 :: b4 :: b5 :: rest =>
        some (.ack (b0.extractLsb' 0 4 ++ b1 ++ (b2 ++ b3)) (b4 ++ b5), rest)
      | _ => none
    else none

/-! ## Round trips -/

theorem htonl_append
    (b0 b1 b2 b3 : BitVec 8) :
    htonl (b0 ++ b1 ++ (b2 ++ b3)) = [b0, b1, b2, b3] := by
  simp only [htonl, List.cons.injEq, and_true]
  refine ⟨?_, ?_, ?_, ?_⟩ <;> apply BitVec.eq_of_toNat_eq <;>
    simp only [toNat_append_eq, BitVec.extractLsb'_toNat, Nat.shiftRight_eq_div_pow] <;> omega

theorem pairsFrom_flatten (dst : List (BitVec 16)) (rest : List (BitVec 8)) :
    pairsFrom dst.length ((dst.map htons).flatten ++ rest) = dst := by
  induction dst with
  | nil => rfl
  | cons d dst inductionHypothesis =>
    simp [htons, pairsFrom, htons_bytes, inductionHypothesis]

theorem flatten_pairsFrom :
    ∀ (n : Nat) (l : List (BitVec 8)), 2 * n ≤ l.length →
      ((pairsFrom n l).map htons).flatten = l.take (2 * n)
  | 0, _, _ => rfl
  | n + 1, hi :: lo :: rest, enough => by
    simp only [List.length_cons] at enough
    simp only [pairsFrom, List.map_cons, List.flatten_cons, htons_append,
      flatten_pairsFrom n rest (by omega), Nat.mul_succ, List.take_succ_cons, List.cons_append,
      List.nil_append]
  | n + 1, [], enough | n + 1, [_], enough => by
    simp only [List.length_cons, List.length_nil] at enough
    omega

@[simp] theorem flatten_map_htons_length (dst : List (BitVec 16)) :
    (dst.map htons).flatten.length = 2 * dst.length := by
  induction dst with
  | nil => rfl
  | cons d dst inductionHypothesis =>
    simp [htons, inductionHypothesis, Nat.mul_succ]

@[simp] theorem Payload.ser_length_pos (p : Payload) : 0 < p.ser.length := by
  cases p <;> simp [Payload.ser, htonl]

theorem typeNibble_reset (ignored : BitVec 4) (tstamp : BitVec 56) :
    (((BitVec.ofNat 4 fastpassPtypeReset ++ ignored ++ tstamp.extractLsb' 32 24 :
      BitVec 32).extractLsb' 24 8) >>> 4).toNat = fastpassPtypeReset := by
  simp only [BitVec.toNat_ushiftRight, toNat_append_eq, BitVec.extractLsb'_toNat,
    Nat.shiftRight_eq_div_pow, BitVec.toNat_ofNat, fastpassPtypeReset]
  omega

theorem typeNibble_alloc (nDst : BitVec 4) :
    ((BitVec.ofNat 4 fastpassPtypeAlloc ++ nDst : BitVec 8) >>> 4).toNat = fastpassPtypeAlloc := by
  simp only [BitVec.toNat_ushiftRight, toNat_append_eq, Nat.shiftRight_eq_div_pow,
    BitVec.toNat_ofNat, fastpassPtypeAlloc]
  omega

theorem typeNibble_ack (runlen : BitVec 28) :
    (((BitVec.ofNat 4 fastpassPtypeAck ++ runlen : BitVec 32).extractLsb' 24 8) >>> 4).toNat =
      fastpassPtypeAck := by
  simp only [BitVec.toNat_ushiftRight, toNat_append_eq, BitVec.extractLsb'_toNat,
    Nat.shiftRight_eq_div_pow, BitVec.toNat_ofNat, fastpassPtypeAck]
  omega

/-- A string whose first byte has the RESET type and seven more starts a RESET payload. -/
theorem decode_of_reset
    {b0 : BitVec 8}
    (resetType : (b0 >>> 4).toNat = fastpassPtypeReset)
    (b1 b2 b3 b4 b5 b6 b7 : BitVec 8)
    (rest : List (BitVec 8)) :
    Payload.decode (b0 :: b1 :: b2 :: b3 :: b4 :: b5 :: b6 :: b7 :: rest) =
      some (.reset (b0.extractLsb' 0 4) (b1 ++ b2 ++ b3 ++ (b4 ++ b5 ++ (b6 ++ b7))), rest) :=
  if_pos resetType

/-- A string whose first byte has the ACK type and five more starts an ACK payload. -/
theorem decode_of_ack
    {b0 : BitVec 8}
    (ackType : (b0 >>> 4).toNat = fastpassPtypeAck)
    (b1 b2 b3 b4 b5 : BitVec 8)
    (rest : List (BitVec 8)) :
    Payload.decode (b0 :: b1 :: b2 :: b3 :: b4 :: b5 :: rest) =
      some (.ack (b0.extractLsb' 0 4 ++ b1 ++ (b2 ++ b3)) (b4 ++ b5), rest) := by
  have notReset : (b0 >>> 4).toNat ≠ fastpassPtypeReset := by simp [ackType]
  have notAlloc : (b0 >>> 4).toNat ≠ fastpassPtypeAlloc := by simp [ackType]
  exact (if_neg notReset).trans ((if_neg notAlloc).trans (if_pos ackType))

/-- Every payload is read back, with what follows it, from its bytes. -/
theorem decode_ser : ∀ (p : Payload) (post : List (BitVec 8)),
    Payload.decode (p.ser ++ post) = some (p, post)
  | .reset ignored tstamp, post => by
    simp only [Payload.ser, htonl, List.cons_append, List.nil_append]
    -- the low word's four bytes read back whole, which leaves omega the high word only
    rw [decode_of_reset (typeNibble_reset ignored tstamp), htonl_bytes]
    simp only [Option.some.injEq, Prod.mk.injEq, Payload.reset.injEq, and_true]
    constructor <;> apply BitVec.eq_of_toNat_eq <;>
      simp only [toNat_append_eq, BitVec.extractLsb'_toNat, Nat.shiftRight_eq_div_pow,
        BitVec.toNat_ofNat, fastpassPtypeReset] <;> omega
  | .alloc ⟨nDst, ignored, halfTslots, baseTslot, dst, tslots, dstLength, tslotsLength⟩, post => by
    have nDstEq : (BitVec.ofNat 4 fastpassPtypeAlloc ++ nDst : BitVec 8).extractLsb' 0 4 =
      nDst := by
      apply BitVec.eq_of_toNat_eq
      simp only [toNat_append_eq, BitVec.extractLsb'_toNat, Nat.shiftRight_eq_div_pow]
      omega
    have halfEq : (ignored ++ halfTslots : BitVec 8).extractLsb' 0 6 = halfTslots := by
      apply BitVec.eq_of_toNat_eq
      simp only [toNat_append_eq, BitVec.extractLsb'_toNat, Nat.shiftRight_eq_div_pow]
      omega
    have ignoredEq : (ignored ++ halfTslots : BitVec 8).extractLsb' 6 2 = ignored := by
      apply BitVec.eq_of_toNat_eq
      simp only [toNat_append_eq, BitVec.extractLsb'_toNat, Nat.shiftRight_eq_div_pow]
      omega
    have fits : 2 * nDst.toNat + 2 * halfTslots.toNat ≤
        ((dst.map htons).flatten ++ (tslots ++ post)).length := by
      simp only [List.length_append, flatten_map_htons_length]
      omega
    unfold Payload.decode
    simp only [Payload.ser, htons, List.cons_append, List.nil_append, typeNibble_alloc,
      fastpassPtype_distinct, ↓reduceIte, nDstEq, halfEq,
      ignoredEq, htons_bytes, List.append_assoc]
    rw [dif_pos fits]
    simp only [Option.some.injEq, Prod.mk.injEq, Payload.alloc.injEq, AllocPayload.mk.injEq,
      true_and]
    refine ⟨⟨?_, ?_⟩, ?_⟩
    · rw [← dstLength, pairsFrom_flatten]
    · rw [← dstLength, List.drop_left' (flatten_map_htons_length dst),
        List.take_left' tslotsLength]
    · rw [← List.append_assoc, List.drop_left' (by rw [List.length_append,
        flatten_map_htons_length, dstLength, tslotsLength])]
  | .ack runlen seq, post => by
    simp only [Payload.ser, htonl, htons, List.cons_append, List.nil_append]
    rw [decode_of_ack (typeNibble_ack runlen), htons_bytes]
    simp only [Option.some.injEq, Prod.mk.injEq, Payload.ack.injEq, and_true]
    apply BitVec.eq_of_toNat_eq
    simp only [toNat_append_eq, BitVec.extractLsb'_toNat, Nat.shiftRight_eq_div_pow,
      BitVec.toNat_ofNat, fastpassPtypeAck]
    omega

/-- What `decode` reads off a byte string is a payload's bytes, followed by the rest. -/
theorem ser_of_decode : ∀ {l : List (BitVec 8)} {p : Payload} {post : List (BitVec 8)},
    Payload.decode l = some (p, post) → l = p.ser ++ post
  | [], _, _, decoded => by cases decoded
  | b0 :: rest, p, post, decoded => by
    unfold Payload.decode at decoded
    dsimp only at decoded
    have typeBits : (b0 >>> 4).toNat = b0.toNat / 2 ^ 4 := by
      rw [BitVec.toNat_ushiftRight, Nat.shiftRight_eq_div_pow]
    split_ifs at decoded with resetType allocType ackType
    · -- RESET
      split at decoded
      · rename_i b1 b2 b3 b4 b5 b6 b7 rest
        simp only [Option.some.injEq, Prod.mk.injEq] at decoded
        obtain ⟨rfl, rfl⟩ := decoded
        rw [typeBits, fastpassPtypeReset] at resetType
        have hiWord : (BitVec.ofNat 4 fastpassPtypeReset ++ b0.extractLsb' 0 4 ++
            (b1 ++ b2 ++ b3 ++
              (b4 ++ b5 ++ (b6 ++ b7)) : BitVec 56).extractLsb' 32 24 : BitVec 32) =
            b0 ++ b1 ++ (b2 ++ b3) := by
          apply BitVec.eq_of_toNat_eq
          simp only [toNat_append_eq, BitVec.extractLsb'_toNat, Nat.shiftRight_eq_div_pow,
            BitVec.toNat_ofNat, fastpassPtypeReset]
          omega
        have loWord : (b1 ++ b2 ++ b3 ++ (b4 ++ b5 ++ (b6 ++ b7)) : BitVec 56).extractLsb' 0 32 =
            b4 ++ b5 ++ (b6 ++ b7) := by
          apply BitVec.eq_of_toNat_eq
          simp only [toNat_append_eq, BitVec.extractLsb'_toNat, Nat.shiftRight_eq_div_pow]
          omega
        simp only [Payload.ser, hiWord, loWord, htonl_append]
        rfl
      · cases decoded
    · -- ALLOC
      split at decoded
      · rename_i b1 b2 b3 rest
        split at decoded
        · rename_i fits
          simp only [Option.some.injEq, Prod.mk.injEq] at decoded
          obtain ⟨rfl, rfl⟩ := decoded
          rw [typeBits, fastpassPtypeAlloc] at allocType
          have first : (BitVec.ofNat 4 fastpassPtypeAlloc ++ b0.extractLsb' 0 4 : BitVec 8) =
            b0 := by
            apply BitVec.eq_of_toNat_eq
            simp only [toNat_append_eq, BitVec.extractLsb'_toNat, Nat.shiftRight_eq_div_pow,
              BitVec.toNat_ofNat, fastpassPtypeAlloc]
            omega
          have second : (b1.extractLsb' 6 2 ++ b1.extractLsb' 0 6 : BitVec 8) = b1 := by
            apply BitVec.eq_of_toNat_eq
            simp only [toNat_append_eq, BitVec.extractLsb'_toNat, Nat.shiftRight_eq_div_pow]
            omega
          simp only [Payload.ser, first, second, htons_append, List.cons_append, List.nil_append,
            List.append_assoc, List.cons.injEq, true_and]
          rw [flatten_pairsFrom _ _ (by omega), ← List.drop_drop, List.take_append_drop,
            List.take_append_drop]
        · cases decoded
      · cases decoded
    · -- ACK
      split at decoded
      · rename_i b1 b2 b3 b4 b5 rest
        simp only [Option.some.injEq, Prod.mk.injEq] at decoded
        obtain ⟨rfl, rfl⟩ := decoded
        rw [typeBits, fastpassPtypeAck] at ackType
        have word : (BitVec.ofNat 4 fastpassPtypeAck ++
            (b0.extractLsb' 0 4 ++ b1 ++ (b2 ++ b3)) : BitVec 32) = b0 ++ b1 ++ (b2 ++ b3) := by
          apply BitVec.eq_of_toNat_eq
          simp only [toNat_append_eq, BitVec.extractLsb'_toNat, Nat.shiftRight_eq_div_pow,
            BitVec.toNat_ofNat, fastpassPtypeAck]
          omega
        simp only [Payload.ser, word, htonl_append, htons_append]
        rfl
      · cases decoded

/-- The format is prefix-free: payload bytes followed by anything determine the payload. -/
theorem ser_append_inj {p q : Payload} {x y : List (BitVec 8)} (same : p.ser ++ x = q.ser ++ y) :
    p = q ∧ x = y := by
  have decoded := decode_ser q y
  rw [← same, decode_ser] at decoded
  simp only [Option.some.injEq, Prod.mk.injEq] at decoded
  exact decoded

/-- A byte string starts no whole payload. -/
abbrev StartsNoPayload (r : List (BitVec 8)) : Prop :=
  ∀ p x, r ≠ Payload.ser p ++ x

theorem startsNoPayload_iff
    {r : List (BitVec 8)} :
    StartsNoPayload r ↔ Payload.decode r = none := by
  unfold StartsNoPayload
  constructor
  · intro noPayload
    cases decoded : Payload.decode r with
    | none => rfl
    | some result => exact absurd (ser_of_decode decoded) (noPayload result.1 result.2)
  · intro decoded p x split
    rw [split, decode_ser] at decoded
    cases decoded

/-- The bytes of a list of payloads, one after the other. -/
def Payload.serAll (ps : List Payload) : List (BitVec 8) :=
  (ps.map Payload.ser).flatten

@[simp] theorem Payload.serAll_nil : Payload.serAll [] = [] := rfl

@[simp] theorem Payload.serAll_cons (p : Payload) (ps : List Payload) :
    Payload.serAll (p :: ps) = p.ser ++ Payload.serAll ps := rfl

/-- Every byte string is whole payloads followed by a remainder that starts none. -/
theorem exists_split (l : List (BitVec 8)) :
    ∃ ps r, l = Payload.serAll ps ++ r ∧ StartsNoPayload r := by
  obtain ⟨n, lengthEq⟩ : ∃ n, l.length = n := ⟨_, rfl⟩
  induction n using Nat.strong_induction_on generalizing l with
  | _ n inductionHypothesis =>
    cases decoded : Payload.decode l with
    | none => exact ⟨[], l, rfl, startsNoPayload_iff.mpr decoded⟩
    | some result =>
      obtain ⟨p, rest⟩ := result
      have split := ser_of_decode decoded
      have shorter : rest.length < n := by
        have := p.ser_length_pos
        rw [← lengthEq, split, List.length_append]
        omega
      obtain ⟨ps, r, restSplit, noPayload⟩ := inductionHypothesis _ shorter rest rfl
      exact ⟨p :: ps, r, by rw [split, restSplit, Payload.serAll_cons, List.append_assoc],
        noPayload⟩

/-- The split into whole payloads and a remainder that starts none is unique. -/
theorem split_unique : ∀ {ps qs : List Payload} {r s : List (BitVec 8)},
    Payload.serAll ps ++ r = Payload.serAll qs ++ s → StartsNoPayload r → StartsNoPayload s →
      ps = qs ∧ r = s
  | [], [], _, _, same, _, _ => ⟨rfl, same⟩
  | [], q :: qs, _, _, same, noPayload, _ =>
    absurd (by simpa only [Payload.serAll_nil, Payload.serAll_cons, List.nil_append,
      List.append_assoc] using same) (noPayload q (Payload.serAll qs ++ _))
  | p :: ps, [], _, _, same, _, noPayload =>
    absurd (by simpa only [Payload.serAll_nil, Payload.serAll_cons, List.nil_append,
      List.append_assoc] using same.symm) (noPayload p (Payload.serAll ps ++ _))
  | p :: ps, q :: qs, _, _, same, noR, noS => by
    simp only [Payload.serAll_cons, List.append_assoc] at same
    obtain ⟨rfl, rest⟩ := ser_append_inj same
    obtain ⟨rfl, rfl⟩ := split_unique rest noR noS
    exact ⟨rfl, rfl⟩

/-! ## Byte strings that start no payload -/

theorem decode_none_reset
    {b : BitVec 8}
    {rest : List (BitVec 8)}
    (resetType : (b >>> 4).toNat = fastpassPtypeReset)
    (noPayload : Payload.decode (b :: rest) = none) :
    rest.length < 7 := by
  match rest, noPayload with
  | _ :: _ :: _ :: _ :: _ :: _ :: _ :: _, noPayload =>
    rw [decode_of_reset resetType] at noPayload
    cases noPayload
  | [], _ | [_], _ | [_, _], _ | [_, _, _], _ | [_, _, _, _], _ | [_, _, _, _, _], _
  | [_, _, _, _, _, _], _ => simp

theorem decode_none_alloc
    {b b1 : BitVec 8}
    {rest : List (BitVec 8)}
    (allocType : (b >>> 4).toNat = fastpassPtypeAlloc)
    (noPayload : Payload.decode (b :: b1 :: rest) = none) :
    rest.length < 2 + 2 * (b.extractLsb' 0 4).toNat + 2 * (b1.extractLsb' 0 6).toNat := by
  match rest, noPayload with
  | b2 :: b3 :: rest, noPayload =>
    unfold Payload.decode at noPayload
    simp only [allocType, fastpassPtype_distinct, ↓reduceIte] at noPayload
    split at noPayload
    · cases noPayload
    · simp only [List.length_cons]
      omega
  | [], _ | [_], _ => simp only [List.length_nil, List.length_singleton]; omega

theorem decode_none_ack
    {b : BitVec 8}
    {rest : List (BitVec 8)}
    (ackType : (b >>> 4).toNat = fastpassPtypeAck)
    (noPayload : Payload.decode (b :: rest) = none) :
    rest.length < 5 := by
  match rest, noPayload with
  | _ :: _ :: _ :: _ :: _ :: _, noPayload =>
    rw [decode_of_ack ackType] at noPayload
    cases noPayload
  | [], _ | [_], _ | [_, _], _ | [_, _, _], _ | [_, _, _, _], _ => simp

/-! ## Packets the core sends -/

/-- `payload_len` of `fpproto_send_packet`: the bytes it reserves for the packet with `skb_put`. -/
def fpprotoPayloadLen (pd : Pktdesc) : Nat :=
  4 + 8 * (if pd.sendReset then 1 else 0) + 2 + 4 * pd.areq.length

/--
The bytes `fpproto_send_packet` writes: the header with the low 16 bits of the
sequence number and a zero checksum, a RESET request if `send_reset` is set,
and the A-REQ header and requests.
-/
def fpprotoPacketData (pd : Pktdesc) : List (BitVec 8) :=
  let resetRequest :=
    if pd.sendReset then
      let hiWord := ((BitVec.ofNat 64 fastpassPtypeRstreq <<< 28) |||
        ((pd.resetTimestamp >>> 32) &&& 0x00FFFFFF)).setWidth 32
      htonl hiWord ++ htonl (pd.resetTimestamp.setWidth 32)
    else []
  htons (pd.seqno.setWidth 16) ++ htons 0 ++ resetRequest ++
    htons (BitVec.ofNat 16 ((fastpassPtypeAreq <<< 12) ||| (pd.areq.length &&& 0x3F))) ++
    (pd.areq.map fun areq =>
      htons (BitVec.ofNat 16 areq.srcDstKey) ++ htons (BitVec.ofNat 16 areq.tslots)).flatten

section Send

variable (jhash1Word : BitVec 32 → BitVec 32 → BitVec 32)

/--
`fpproto_egress_checksum`: bytes 2 and 3 get the checksum `csum` the kernel
computes over the packet, seeded with the hash of the sequence number.
-/
def fpprotoEgressChecksum
    (csum : List (BitVec 8) → BitVec 32 → BitVec 16)
    (skb : List (BitVec 8))
    (seqno : BitVec 64) :
    List (BitVec 8) :=
  let seqHash := jhash1Word (seqno.setWidth 32) ((seqno >>> 32).setWidth 32)
  skb.take 2 ++ htons (csum skb seqHash) ++ skb.drop 4

/--
`fpproto_send_packet`: `skbAllocated` is whether `sock_alloc_send_skb`
succeeded and `xmitOk` whether `ip_queue_xmit` did; the packet handed to
`ip_queue_xmit`, if any, is returned.
-/
def fpprotoSendPacket
    (csum : List (BitVec 8) → BitVec 32 → BitVec 16)
    (st : Session)
    (pd : Pktdesc)
    (skbAllocated xmitOk : Bool) :
    Session × Option (List (BitVec 8)) :=
  if skbAllocated then
    let skb := fpprotoEgressChecksum jhash1Word csum (fpprotoPacketData pd) pd.seqno
    (if xmitOk then st else { st with
      stats := { st.stats with xmitErrors := st.stats.xmitErrors + 1 } },
      some skb)
  else
    ({ st with stats := { st.stats with skbAllocError := st.stats.skbAllocError + 1 } }, none)

end Send

/--
A descriptor with `send_reset` set carries, after the header, the RESET
payload of the low 56 bits of its reset time.
-/
theorem fpprotoPacketData_reset {pd : Pktdesc} (sending : pd.sendReset = true) :
    ∃ rest, fpprotoPacketData pd = htons (pd.seqno.setWidth 16) ++ htons 0 ++
      (Payload.reset 0 (pd.resetTimestamp.setWidth 56)).ser ++ rest := by
  have hiWord : ((BitVec.ofNat 64 fastpassPtypeRstreq <<< 28) |||
      ((pd.resetTimestamp >>> 32) &&& 0x00FFFFFF)).setWidth 32 =
      BitVec.ofNat 4 fastpassPtypeReset ++ (0 : BitVec 4) ++
        (pd.resetTimestamp.setWidth 56).extractLsb' 32 24 := by
    apply BitVec.eq_of_toNat_eq
    rw [show BitVec.ofNat 64 fastpassPtypeRstreq <<< 28 = 0#64 from rfl, BitVec.zero_or]
    simp only [show (0 : BitVec 4).toNat = 0 from rfl, BitVec.toNat_setWidth, BitVec.toNat_and,
      BitVec.toNat_ushiftRight,
      show (0x00FFFFFF : BitVec 64).toNat = 2 ^ 24 - 1 from rfl, Nat.and_pow_two_sub_one_eq_mod,
      toNat_append_eq, BitVec.extractLsb'_toNat, Nat.shiftRight_eq_div_pow, BitVec.toNat_ofNat,
      fastpassPtypeReset]
    omega
  have loWord : pd.resetTimestamp.setWidth 32 =
    (pd.resetTimestamp.setWidth 56).extractLsb' 0 32 := by
    apply BitVec.eq_of_toNat_eq
    simp only [BitVec.toNat_setWidth, BitVec.extractLsb'_toNat, Nat.shiftRight_eq_div_pow]
    omega
  refine ⟨htons (BitVec.ofNat 16 ((fastpassPtypeAreq <<< 12) ||| (pd.areq.length &&& 0x3F))) ++
    (pd.areq.map fun areq =>
      htons (BitVec.ofNat 16 areq.srcDstKey) ++ htons (BitVec.ofNat 16 areq.tslots)).flatten, ?_⟩
  simp only [fpprotoPacketData, sending, ↓reduceIte, hiWord, loWord, Payload.ser, List.append_assoc]

/-- The bytes written for a descriptor are as many as `payload_len` reserves. -/
theorem fpprotoPacketData_length
    (pd : Pktdesc) :
    (fpprotoPacketData pd).length = fpprotoPayloadLen pd := by
  have requests : ∀ areq : List Areq, (areq.map fun a =>
      htons (BitVec.ofNat 16 a.srcDstKey) ++ htons (BitVec.ofNat 16 a.tslots)).flatten.length =
        4 * areq.length := by
    intro areq
    induction areq with
    | nil => rfl
    | cons a areq inductionHypothesis =>
      simp only [List.map_cons, List.flatten_cons, List.length_append, inductionHypothesis,
        List.length_cons]
      simp [htons]
      omega
  simp only [fpprotoPacketData, fpprotoPayloadLen, List.length_append, requests]
  split <;> simp [htons, htonl]

section Send

variable (jhash1Word : BitVec 32 → BitVec 32 → BitVec 32)

/--
The packet `fpproto_send_packet` hands to `ip_queue_xmit` is exactly the
`payload_len` bytes it reserved, so no write goes past them, and every byte
but the checksum's two is the byte the function wrote.
-/
theorem fpprotoSendPacket_fills
    (csum : List (BitVec 8) → BitVec 32 → BitVec 16)
    (st : Session)
    (pd : Pktdesc)
    (xmitOk : Bool) :
    ∃ skb, (fpprotoSendPacket jhash1Word csum st pd true xmitOk).2 = some skb ∧
      skb.length = fpprotoPayloadLen pd ∧
      ∀ i, i ≠ 2 → i ≠ 3 → skb[i]? = (fpprotoPacketData pd)[i]? := by
  have written := fpprotoPacketData_length pd
  have header : 4 ≤ (fpprotoPacketData pd).length := by
    rw [written, fpprotoPayloadLen]
    omega
  refine ⟨_, rfl, ?_, fun i two three => ?_⟩
  · simp only [fpprotoEgressChecksum, List.length_append, List.length_take, List.length_drop, htons,
      List.length_cons, List.length_nil]
    omega
  · simp only [fpprotoEgressChecksum, List.append_assoc]
    rcases Nat.lt_or_ge i 2 with low | high
    · rw [List.getElem?_append_left (by simp; omega), List.getElem?_take_of_lt low]
    · rw [List.getElem?_append_right (by simp; omega),
        List.getElem?_append_right (by simp [htons]; omega), List.getElem?_drop]
      congr 1
      simp [htons]
      omega

end Send

end Fastpass
