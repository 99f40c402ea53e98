import Mathlib.Data.BitVec

namespace Fastpass

/-!
# Machine words of the Fastpass reliability core

Sequence numbers, timestamps and timeouts are `u64` in the source and are
modelled as `BitVec 64`, so every subtraction wraps exactly as the C code's
does.  The kernel's jiffies-style comparisons `time_after64` and friends read
a wrapped difference as a signed 64-bit value; they are stated here on
`toNat` of that difference, which is what `omega` reasons about.

The constants come from `fastpass_proto.h`, which is not part of the
repository snapshot.  Their values are taken from the specification.

The outstanding window places a sequence number at `outwnd_pos`, the low bits
of its negation.  The one fact every window proof rests on is
`outwndPos_eq_add_age`: relative to any reference sequence number, the slot
of `s` is the slot of the reference plus the distance from `s` up to it.
-/

/--
Modelled from the spec: `FASTPASS_OUTWND_LEN`, the capacity of the
outstanding window.  The header defining it is missing; the specification
states that the source uses 256.
-/
def fastpassOutwndLen : Nat := 256

theorem fastpassOutwndLen_eq : fastpassOutwndLen = 256 := rfl

/-- Modelled from the spec: `FASTPASS_PTYPE_RESET`, high nibble `0x0` in the payload table. -/
def fastpassPtypeReset : Nat := 0

/-- Modelled from the spec: `FASTPASS_PTYPE_RSTREQ`, high nibble `0x0` in the payload table. -/
def fastpassPtypeRstreq : Nat := 0

/-- Modelled from the spec: `FASTPASS_PTYPE_ALLOC`, high nibble `0x1` in the payload table. -/
def fastpassPtypeAlloc : Nat := 1

/-- Modelled from the spec: `FASTPASS_PTYPE_ACK`, high nibble `0x2` in the payload table. -/
def fastpassPtypeAck : Nat := 2

/-- Modelled from the spec: `FASTPASS_PTYPE_AREQ`, high nibble `0x4` in the payload table. -/
def fastpassPtypeAreq : Nat := 4

/-- The three payload types the receive path tells apart are distinct. -/
@[simp] theorem fastpassPtype_distinct : fastpassPtypeAlloc ≠ fastpassPtypeReset ∧
    fastpassPtypeAck ≠ fastpassPtypeReset ∧ fastpassPtypeAck ≠ fastpassPtypeAlloc := by
  decide

/-- The window capacity as a `u64`, as it appears in `next_seqno - FASTPASS_OUTWND_LEN`. -/
def outwndLen64 : BitVec 64 := BitVec.ofNat 64 fastpassOutwndLen

/-- The kernel's `time_after64(a, b)`: the difference `b - a`, read as `s64`, is negative. -/
def timeAfter64 (a b : BitVec 64) : Bool :=
  2 ^ 63 ≤ (b - a).toNat

/-- The kernel's `time_before64(a, b)`, which is `time_after64(b, a)`. -/
def timeBefore64 (a b : BitVec 64) : Bool :=
  timeAfter64 b a

/-- The kernel's `time_after_eq64(a, b)`: the difference `a - b`, read as `s64`, is not negative. -/
def timeAfterEq64 (a b : BitVec 64) : Bool :=
  (a - b).toNat < 2 ^ 63

/-- `outwnd_pos`: the window slot of a sequence number, `((u32)(-tslot)) & (W - 1)`. -/
def outwndPos (tslot : BitVec 64) : Nat :=
  ((-tslot).setWidth 32 &&& BitVec.ofNat 32 (fastpassOutwndLen - 1)).toNat

/-- The slot of a sequence number is its negation modulo the window length. -/
theorem outwndPos_eq (tslot : BitVec 64) :
    outwndPos tslot = (-tslot).toNat % fastpassOutwndLen := by
  have lenPred : fastpassOutwndLen - 1 = 2 ^ 8 - 1 := rfl
  simp only [outwndPos, BitVec.toNat_and, lenPred, BitVec.toNat_ofNat, BitVec.toNat_setWidth]
  rw [Nat.mod_eq_of_lt (by decide : 2 ^ 8 - 1 < 2 ^ 32), Nat.and_pow_two_sub_one_eq_mod,
    Nat.mod_mod_of_dvd _ (by decide : 2 ^ 8 ∣ 2 ^ 32)]
  rfl

theorem outwndPos_lt (tslot : BitVec 64) : outwndPos tslot < fastpassOutwndLen := by
  rw [outwndPos_eq]
  exact Nat.mod_lt _ (by decide)

/--
Slots run backwards: the slot of `s` is the slot of a reference `r` advanced by
the distance `r - s`.  This is why the window's head scans are forward scans.
-/
theorem outwndPos_eq_add_age (s r : BitVec 64) :
    outwndPos s = (outwndPos r + (r - s).toNat) % fastpassOutwndLen := by
  have negSplit : -s = -r + (r - s) := by bv_omega
  rw [outwndPos_eq, outwndPos_eq, negSplit, BitVec.toNat_add,
    Nat.mod_mod_of_dvd _ (by decide : fastpassOutwndLen ∣ 2 ^ 64), Nat.mod_add_mod]

/-- Two sequence numbers a multiple of the window apart share a slot. -/
theorem outwndPos_sub_len (s : BitVec 64) : outwndPos (s - outwndLen64) = outwndPos s := by
  rw [outwndPos_eq_add_age (s - outwndLen64) s]
  have distance : (s - (s - outwndLen64)).toNat = fastpassOutwndLen := by
    simp only [outwndLen64, fastpassOutwndLen_eq]
    bv_omega
  rw [distance, Nat.add_mod_right, Nat.mod_eq_of_lt (outwndPos_lt s)]

end Fastpass
