import Fastpass.Words
import Fastpass.Bitmap
import Mathlib.Data.Finset.Card

namespace Fastpass

/-!
# The outstanding window

`struct fastpass_sock` keeps every committed but unacknowledged packet
descriptor in `bins`, a ring of `FASTPASS_OUTWND_LEN` slots, and marks the
occupied slots in `bin_mask`, a bitmap of twice that length whose upper half
mirrors the lower one.  This module models the window fields and the
operations that change them one slot at a time, `outwnd_add` and
`outwnd_pop`, together with the invariant the specification states for the
window:

* the two halves of the mask agree (`Inv.mirror`);
* a slot's low bit is set exactly when the slot holds a descriptor
  (`Inv.occupied`);
* `tx_num_unacked` counts the set low bits (`Inv.count`);
* a held descriptor carries the one sequence number of the window that maps
  to its slot (`Inv.seqno`).

Positions inside the window are described by *age*: the distance of a
sequence number below the newest one, `next_seqno - 1`.  A sequence number is
in the window exactly when its age is below the window length, and its slot is
the head slot plus its age (`outwndPos_eq_head_add_age`).
-/

/-- One allocation request of a descriptor; the header that declares it is not in the snapshot. -/
structure Areq where
  srcDstKey : Nat
  tslots : Nat
  deriving DecidableEq, Repr

/--
`struct fpproto_pktdesc`.  The field `ptr` is the descriptor's address, which
is what the window stores and what the upper layer is handed back.
-/
structure Pktdesc where
  ptr : Nat
  seqno : BitVec 64
  sentTimestamp : BitVec 64
  sendReset : Bool
  resetTimestamp : BitVec 64
  areq : List Areq
  deriving DecidableEq, Repr

/--
Ways the modelled code stops the kernel: a `BUG_ON` that fires, named by the
function that holds it, a dereference of an empty window slot, or an access
outside a buffer.
-/
inductive Crash where
  | outwndAdd
  | outwndPop
  | outwndAtOrBefore
  | outwndEarliestUnackedHint
  | doAckSeqno
  | nullDeref
  | outOfBounds
  deriving DecidableEq, Repr

/-- The outstanding-window fields of `struct fastpass_sock`. -/
structure Outwnd where
  binMask : Bitmap
  bins : Nat → Option Pktdesc
  txNumUnacked : Nat
  nextSeqno : BitVec 64

namespace Outwnd

/-- The slot of the newest sequence number, `outwnd_pos(next_seqno - 1)`. -/
def head (w : Outwnd) : Nat :=
  outwndPos (w.nextSeqno - 1)

/-- How far `s` lies below the newest sequence number `next_seqno - 1`. -/
def age (w : Outwnd) (s : BitVec 64) : Nat :=
  (w.nextSeqno - 1 - s).toNat

/-- The sequence number of a given age. -/
def seqnoOfAge (w : Outwnd) (a : Nat) : BitVec 64 :=
  w.nextSeqno - 1 - BitVec.ofNat 64 a

/-- The slot of the sequence number of age `a`. -/
def slot (w : Outwnd) (a : Nat) : Nat :=
  (w.head + a) % fastpassOutwndLen

/-- The sequence number of age `a` is inside the window and its slot's low bit is set. -/
def occupiedAge (w : Outwnd) (a : Nat) : Bool :=
  decide (a < fastpassOutwndLen) && w.binMask (w.slot a)

/-- The occupied ages from `a` up to the oldest, youngest first. -/
def occupiedFrom (w : Outwnd) (a : Nat) : List Nat :=
  (List.range' a (fastpassOutwndLen - a)).filter w.occupiedAge

/-- The number of set bits among bits `0 .. W-1` of the mask. -/
def lowPopcount (w : Outwnd) : Nat :=
  ((Finset.range fastpassOutwndLen).filter (fun i => w.binMask i = true)).card

/-- Only ages inside the window are occupied. -/
theorem young_of_occupied {w : Outwnd} {a : Nat} (occupied : w.occupiedAge a = true) :
    a < fastpassOutwndLen := by
  simp only [occupiedAge, Bool.and_eq_true, decide_eq_true_eq] at occupied
  exact occupied.1

theorem outwndPos_eq_head_add_age (w : Outwnd) (s : BitVec 64) :
    outwndPos s = (w.head + w.age s) % fastpassOutwndLen :=
  outwndPos_eq_add_age s (w.nextSeqno - 1)

theorem outwndPos_eq_slot_age (w : Outwnd) (s : BitVec 64) : outwndPos s = w.slot (w.age s) :=
  w.outwndPos_eq_head_add_age s

theorem head_lt (w : Outwnd) : w.head < fastpassOutwndLen :=
  outwndPos_lt _

theorem slot_lt (w : Outwnd) (a : Nat) : w.slot a < fastpassOutwndLen :=
  Nat.mod_lt _ (by decide)

@[simp] theorem age_seqnoOfAge (w : Outwnd) (a : Nat) (small : a < 2 ^ 64) :
    w.age (w.seqnoOfAge a) = a := by
  simp only [age, seqnoOfAge]
  bv_omega

@[simp] theorem seqnoOfAge_age (w : Outwnd) (s : BitVec 64) :
    w.seqnoOfAge (w.age s) = s := by
  simp only [age, seqnoOfAge]
  bv_omega

/-- Windows with the same next sequence number give every sequence number the same age. -/
theorem age_congr {w v : Outwnd} (same : w.nextSeqno = v.nextSeqno) (s : BitVec 64) :
    w.age s = v.age s := by
  simp only [age, same]

theorem age_lt (w : Outwnd) (s : BitVec 64) : w.age s < 2 ^ 64 :=
  BitVec.isLt _

/-- Sequence numbers of equal age are equal. -/
theorem eq_of_age_eq {w : Outwnd} {s t : BitVec 64} (same : w.age s = w.age t) : s = t := by
  rw [← w.seqnoOfAge_age s, ← w.seqnoOfAge_age t, same]

/-- Inside the window, different ages occupy different slots. -/
theorem slot_inj
    {w : Outwnd}
    {a b : Nat}
    (smallA : a < fastpassOutwndLen)
    (smallB : b < fastpassOutwndLen)
    (same : w.slot a = w.slot b) :
    a = b := by
  have headSmall := w.head_lt
  simp only [slot, fastpassOutwndLen_eq] at *
  omega

end Outwnd

/-- `outwnd_is_unacked`: the low bit of the slot of `seqno`. -/
def outwndIsUnacked (w : Outwnd) (seqno : BitVec 64) : Bool :=
  w.binMask (outwndPos seqno)

namespace Outwnd

/-- The window after `outwnd_add` writes `pd` into slot `i`: both bits set, the count up by one. -/
def fillSlot (w : Outwnd) (i : Nat) (pd : Pktdesc) : Outwnd where
  binMask := setBit (setBit w.binMask i) (i + fastpassOutwndLen)
  bins := Function.update w.bins i (some pd)
  txNumUnacked := w.txNumUnacked + 1
  nextSeqno := w.nextSeqno + 1

/-- The window after `outwnd_pop` empties slot `i`: both bits cleared, the count down by one. -/
def clearSlot (w : Outwnd) (i : Nat) : Outwnd where
  binMask := clearBit (clearBit w.binMask i) (i + fastpassOutwndLen)
  bins := Function.update w.bins i none
  txNumUnacked := w.txNumUnacked - 1
  nextSeqno := w.nextSeqno

@[simp] theorem clearSlot_nextSeqno (w : Outwnd) (i : Nat) :
    (w.clearSlot i).nextSeqno = w.nextSeqno := rfl

@[simp] theorem clearSlot_head (w : Outwnd) (i : Nat) : (w.clearSlot i).head = w.head := rfl

@[simp] theorem clearSlot_age (w : Outwnd) (i : Nat) (s : BitVec 64) :
    (w.clearSlot i).age s = w.age s := rfl

@[simp] theorem clearSlot_seqnoOfAge (w : Outwnd) (i a : Nat) :
    (w.clearSlot i).seqnoOfAge a = w.seqnoOfAge a := rfl

@[simp] theorem clearSlot_binMask (w : Outwnd) (i j : Nat) :
    (w.clearSlot i).binMask j = (if j = i + fastpassOutwndLen then false else
      if j = i then false else w.binMask j) := by
  simp [clearSlot]

end Outwnd

/--
`outwnd_add`: store `pd` as the descriptor of `next_seqno` and advance it.
The slot must not still hold the descriptor of `next_seqno - W`.  The model's
descriptor is a value, so the `BUG_ON(!pd)` of the source cannot fire.
-/
def outwndAdd (w : Outwnd) (pd : Pktdesc) : Except Crash Outwnd :=
  let circularIndex := outwndPos w.nextSeqno
  if outwndIsUnacked w (w.nextSeqno - outwndLen64) then
    .error .outwndAdd
  else
    .ok (w.fillSlot circularIndex pd)

/--
`outwnd_pop`: remove and return the descriptor in the slot of `seqno`, which
must be occupied.
-/
def outwndPop (w : Outwnd) (seqno : BitVec 64) : Except Crash (Option Pktdesc × Outwnd) :=
  let circularIndex := outwndPos seqno
  if outwndIsUnacked w seqno then
    .ok (w.bins circularIndex, w.clearSlot circularIndex)
  else
    .error .outwndPop

/-- `outwnd_empty`. -/
def outwndEmpty (w : Outwnd) : Bool :=
  w.txNumUnacked == 0

/-- `outwnd_timestamp`: the send time of the descriptor in the slot of `seqno`. -/
def outwndTimestamp (w : Outwnd) (seqno : BitVec 64) : Except Crash (BitVec 64) :=
  match w.bins (outwndPos seqno) with
  | some pd => .ok pd.sentTimestamp
  | none => .error .nullDeref

namespace Outwnd

/-- The invariant of the outstanding window. -/
structure Inv (w : Outwnd) : Prop where
  mirror : ∀ i < fastpassOutwndLen, w.binMask (i + fastpassOutwndLen) = w.binMask i
  occupied : ∀ i < fastpassOutwndLen, w.binMask i = (w.bins i).isSome
  count : w.txNumUnacked = w.lowPopcount
  seqno : ∀ i < fastpassOutwndLen, ∀ pd, w.bins i = some pd →
    w.age pd.seqno < fastpassOutwndLen ∧ outwndPos pd.seqno = i

/-- Setting a clear low bit and its mirror adds one to the low popcount. -/
private theorem card_filter_setBit_setBit
    {mask : Bitmap}
    {i : Nat}
    (small : i < fastpassOutwndLen)
    (clear : mask i = false) :
    ((Finset.range fastpassOutwndLen).filter
        (fun j => setBit (setBit mask i) (i + fastpassOutwndLen) j = true)).card =
      ((Finset.range fastpassOutwndLen).filter (fun j => mask j = true)).card + 1 := by
  have shape : (Finset.range fastpassOutwndLen).filter
        (fun j => setBit (setBit mask i) (i + fastpassOutwndLen) j = true) =
      insert i ((Finset.range fastpassOutwndLen).filter (fun j => mask j = true)) := by
    ext j
    simp only [Finset.mem_filter, Finset.mem_range, Finset.mem_insert, setBit_apply]
    by_cases same : j = i
    · subst same
      simp [small]
    · by_cases low : j < fastpassOutwndLen
      · simp [same, low, show j ≠ i + fastpassOutwndLen by omega]
      · simp [same, low]
  rw [shape, Finset.card_insert_of_not_mem (by simp [clear])]

/-- Clearing a set low bit and its mirror removes one from the low popcount. -/
private theorem card_filter_clearBit_clearBit
    {mask : Bitmap}
    {i : Nat}
    (small : i < fastpassOutwndLen)
    (set : mask i = true) :
    ((Finset.range fastpassOutwndLen).filter
        (fun j => clearBit (clearBit mask i) (i + fastpassOutwndLen) j = true)).card =
      ((Finset.range fastpassOutwndLen).filter (fun j => mask j = true)).card - 1 := by
  have shape : (Finset.range fastpassOutwndLen).filter
        (fun j => clearBit (clearBit mask i) (i + fastpassOutwndLen) j = true) =
      ((Finset.range fastpassOutwndLen).filter (fun j => mask j = true)).erase i := by
    ext j
    simp only [Finset.mem_filter, Finset.mem_range, Finset.mem_erase, clearBit_apply]
    by_cases same : j = i
    · subst same
      simp
    · by_cases low : j < fastpassOutwndLen
      · simp [same, low, show j ≠ i + fastpassOutwndLen by omega]
      · simp [low]
  rw [shape, Finset.card_erase_of_mem (by simp [small, set])]

/-- The sequence number that leaves the window when `next_seqno` advances is `W - 1` old. -/
theorem age_edge (w : Outwnd) : w.age (w.nextSeqno - outwndLen64) = fastpassOutwndLen - 1 := by
  simp only [age, outwndLen64, fastpassOutwndLen_eq]
  bv_omega

/-- After `next_seqno` advances by one, every sequence number is one older. -/
theorem age_succ {w : Outwnd} {s : BitVec 64} (young : w.age s < fastpassOutwndLen) :
    (w.nextSeqno + 1 - 1 - s).toNat = w.age s + 1 := by
  simp only [age, fastpassOutwndLen_eq] at young ⊢
  bv_omega

end Outwnd

/-- `outwnd_add` writes the slot of `next_seqno`, which is also the slot of `next_seqno - W`. -/
theorem outwndPos_add_slot (w : Outwnd) :
    outwndPos w.nextSeqno = (w.head + (fastpassOutwndLen - 1)) % fastpassOutwndLen := by
  rw [← outwndPos_sub_len, ← w.age_edge]
  exact w.outwndPos_eq_head_add_age _

/-- `outwnd_add` keeps the invariant, for a descriptor stamped with `next_seqno`. -/
theorem outwndAdd_inv
    {w w' : Outwnd}
    {pd : Pktdesc}
    (inv : w.Inv)
    (stamped : pd.seqno = w.nextSeqno)
    (added : outwndAdd w pd = .ok w') :
    w'.Inv := by
  unfold outwndAdd at added
  split at added
  · cases added
  · rename_i slotBusy
    cases added
    simp only [Outwnd.fillSlot]
    have slotSmall := outwndPos_lt w.nextSeqno
    have slotClear : w.binMask (outwndPos w.nextSeqno) = false := by
      simpa [outwndIsUnacked, outwndPos_sub_len] using slotBusy
    refine ⟨?mirror, ?occupied, ?count, ?seqno⟩
    case mirror =>
      intro i small
      by_cases same : i = outwndPos w.nextSeqno
      · subst same
        simp
      · have notHigh : i + fastpassOutwndLen ≠ outwndPos w.nextSeqno + fastpassOutwndLen := by
          omega
        have notLow : i + fastpassOutwndLen ≠ outwndPos w.nextSeqno := by omega
        have notHigh' : i ≠ outwndPos w.nextSeqno + fastpassOutwndLen := by omega
        simp only [setBit_apply, if_neg notHigh, if_neg notLow, if_neg notHigh', if_neg same,
          inv.mirror i small]
    case occupied =>
      intro i small
      by_cases same : i = outwndPos w.nextSeqno
      · subst same
        simp
      · have notHigh : i ≠ outwndPos w.nextSeqno + fastpassOutwndLen := by omega
        simp only [setBit_apply, if_neg notHigh, if_neg same, Function.update_noteq same,
          inv.occupied i small]
    case count =>
      simp only [Outwnd.lowPopcount]
      rw [Outwnd.card_filter_setBit_setBit slotSmall slotClear, inv.count]
      rfl
    case seqno =>
      intro i small d held
      simp only at held
      by_cases same : i = outwndPos w.nextSeqno
      · subst same
        simp only [Function.update_same, Option.some.injEq] at held
        subst held
        refine ⟨?_, stamped ▸ rfl⟩
        simp [Outwnd.age, stamped, fastpassOutwndLen_eq]
      · rw [Function.update_noteq same] at held
        obtain ⟨young, slot⟩ := inv.seqno i small d held
        have notEdge : w.age d.seqno ≠ fastpassOutwndLen - 1 := by
          intro edge
          apply same
          rw [← slot, w.outwndPos_eq_head_add_age, edge, outwndPos_add_slot]
        refine ⟨?_, slot⟩
        show (w.nextSeqno + 1 - 1 - d.seqno).toNat < fastpassOutwndLen
        rw [Outwnd.age_succ young]
        omega

/-- A successful `outwnd_pop` clears one set low bit. -/
theorem outwndPop_lowPopcount
    {w w' : Outwnd}
    {seqno : BitVec 64}
    {res : Option Pktdesc}
    (popped : outwndPop w seqno = .ok (res, w')) :
    w'.lowPopcount + 1 = w.lowPopcount := by
  unfold outwndPop at popped
  split at popped
  · rename_i slotSet
    cases popped
    simp only [Outwnd.clearSlot]
    have slotSmall := outwndPos_lt seqno
    have member : outwndPos seqno ∈
        (Finset.range fastpassOutwndLen).filter (fun j => w.binMask j = true) := by
      simpa [slotSmall] using slotSet
    simp only [Outwnd.lowPopcount]
    rw [Outwnd.card_filter_clearBit_clearBit slotSmall slotSet]
    exact Nat.sub_add_cancel (Finset.card_pos.mpr ⟨_, member⟩)
  · cases popped

namespace Outwnd

@[simp] theorem clearSlot_slot (w : Outwnd) (i a : Nat) : (w.clearSlot i).slot a = w.slot a := rfl

/-- Inside the window, `outwnd_is_unacked` reads the occupancy of the age. -/
theorem outwndIsUnacked_eq_occupiedAge
    {w : Outwnd}
    {s : BitVec 64}
    (young : w.age s < fastpassOutwndLen) :
    outwndIsUnacked w s = w.occupiedAge (w.age s) := by
  simp [outwndIsUnacked, occupiedAge, young, w.outwndPos_eq_slot_age]

/-- The sequence number of an occupied age has its slot's bit set. -/
theorem outwndIsUnacked_of_occupied
    {w : Outwnd}
    {s : BitVec 64}
    (occupied : w.occupiedAge (w.age s) = true) :
    outwndIsUnacked w s = true := by
  simp only [occupiedAge, Bool.and_eq_true] at occupied
  simpa [outwndIsUnacked, w.outwndPos_eq_slot_age] using occupied.2

/-- Popping the sequence number of an occupied age succeeds and returns that slot's descriptor. -/
theorem outwndPop_of_occupied
    {w : Outwnd}
    {s : BitVec 64}
    (occupied : w.occupiedAge (w.age s) = true) :
    outwndPop w s = .ok (w.bins (w.slot (w.age s)), w.clearSlot (w.slot (w.age s))) := by
  simp only [outwndPop, outwndIsUnacked_of_occupied occupied, ↓reduceIte, w.outwndPos_eq_slot_age]

/-- Emptying the slot of age `t` leaves exactly the other occupied ages. -/
theorem clearSlot_occupiedAge {w : Outwnd} {t : Nat} (young : t < fastpassOutwndLen) (b : Nat) :
    (w.clearSlot (w.slot t)).occupiedAge b = (w.occupiedAge b && !decide (b = t)) := by
  by_cases bYoung : b < fastpassOutwndLen
  · have notHigh : w.slot b ≠ w.slot t + fastpassOutwndLen := by
      have := w.slot_lt b
      omega
    by_cases same : b = t
    · subst same
      simp [occupiedAge]
    · have otherSlot : w.slot b ≠ w.slot t := fun eq => same (slot_inj bYoung young eq)
      simp [occupiedAge, notHigh, otherSlot, same]
  · simp [occupiedAge, bYoung]

/-- Emptying the slot of age `t` keeps the descriptors of every other age. -/
theorem clearSlot_bins_slot
    {w : Outwnd}
    {t b : Nat}
    (young : t < fastpassOutwndLen)
    (bYoung : b < fastpassOutwndLen)
    (other : b ≠ t) :
    (w.clearSlot (w.slot t)).bins (w.slot b) = w.bins (w.slot b) :=
  Function.update_noteq (fun eq => other (slot_inj bYoung young eq)) _ _

theorem mem_occupiedFrom {w : Outwnd} {a b : Nat} :
    b ∈ w.occupiedFrom a ↔ a ≤ b ∧ w.occupiedAge b = true := by
  simp only [occupiedFrom, List.mem_filter, List.mem_range'_1]
  constructor
  · rintro ⟨⟨lower, _⟩, occupied⟩
    exact ⟨lower, occupied⟩
  · rintro ⟨lower, occupied⟩
    have young := young_of_occupied occupied
    exact ⟨⟨lower, by omega⟩, occupied⟩

/-- An age that is not occupied drops out of the occupied ages from it. -/
theorem occupiedFrom_of_free {w : Outwnd} {a : Nat} (free : w.occupiedAge a = false) :
    w.occupiedFrom a = w.occupiedFrom (a + 1) := by
  by_cases young : a < fastpassOutwndLen
  · simp only [occupiedFrom]
    rw [show fastpassOutwndLen - a = fastpassOutwndLen - (a + 1) + 1 by omega, List.range'_succ,
      List.filter_cons_of_neg (by simp [free])]
  · simp only [occupiedFrom, show fastpassOutwndLen - a = 0 by omega,
      show fastpassOutwndLen - (a + 1) = 0 by omega, List.range'_zero]

/-- An occupied age heads the occupied ages from it. -/
theorem occupiedFrom_of_occupied {w : Outwnd} {a : Nat} (occupied : w.occupiedAge a = true) :
    w.occupiedFrom a = a :: w.occupiedFrom (a + 1) := by
  have young := young_of_occupied occupied
  simp only [occupiedFrom]
  rw [show fastpassOutwndLen - a = fastpassOutwndLen - (a + 1) + 1 by omega, List.range'_succ,
    List.filter_cons_of_pos occupied]

/-- A stretch of free ages can be skipped. -/
theorem occupiedFrom_skip
    {w : Outwnd}
    {a t : Nat}
    (le : a ≤ t)
    (free : ∀ b, a ≤ b → b < t → w.occupiedAge b = false) :
    w.occupiedFrom a = w.occupiedFrom t := by
  induction t, le using Nat.le_induction with
  | base => rfl
  | succ t le inductionHypothesis =>
      rw [inductionHypothesis fun b lower upper => free b lower (by omega),
        occupiedFrom_of_free (free t le (by omega))]

/-- With no occupied age from `a` on, the list is empty. -/
theorem occupiedFrom_eq_nil
    {w : Outwnd}
    {a : Nat}
    (free : ∀ b, a ≤ b → w.occupiedAge b = false) :
    w.occupiedFrom a = [] := by
  rw [occupiedFrom_skip (Nat.le_max_left a fastpassOutwndLen)
    fun b lower _ => free b lower]
  simp [occupiedFrom]

/-- Windows that agree on the occupied ages from `a` on have the same list. -/
theorem occupiedFrom_congr
    {w v : Outwnd}
    {a : Nat}
    (agree : ∀ b, a ≤ b → v.occupiedAge b = w.occupiedAge b) :
    v.occupiedFrom a = w.occupiedFrom a := by
  simp only [occupiedFrom]
  exact List.filter_congr fun b member => agree b (List.mem_range'_1.mp member).1

/-- Emptying the slot of age `t` removes `t` from the occupied ages from it. -/
theorem occupiedFrom_clearSlot_self {w : Outwnd} {t : Nat} (young : t < fastpassOutwndLen) :
    (w.clearSlot (w.slot t)).occupiedFrom t = w.occupiedFrom (t + 1) := by
  rw [occupiedFrom_of_free (by simp [clearSlot_occupiedAge young])]
  exact occupiedFrom_congr fun b lower => by simp [clearSlot_occupiedAge young, show b ≠ t by omega]

/-- Emptying the slot of age `t` leaves the occupied ages above `t` alone. -/
theorem occupiedFrom_clearSlot_of_lt
    {w : Outwnd}
    {t a : Nat}
    (young : t < fastpassOutwndLen)
    (lt : t < a) :
    (w.clearSlot (w.slot t)).occupiedFrom a = w.occupiedFrom a :=
  occupiedFrom_congr fun b lower => by simp [clearSlot_occupiedAge young, show b ≠ t by omega]

/-- The occupied ages in `[a, e)`, youngest first. -/
def occupiedBetween (w : Outwnd) (a e : Nat) : List Nat :=
  (w.occupiedFrom a).filter fun b => decide (b < e)

theorem occupiedFrom_nodup (w : Outwnd) (a : Nat) : (w.occupiedFrom a).Nodup :=
  (List.nodup_range' a _).filter _

theorem mem_occupiedBetween {w : Outwnd} {a e b : Nat} :
    b ∈ w.occupiedBetween a e ↔ a ≤ b ∧ b < e ∧ w.occupiedAge b = true := by
  simp only [occupiedBetween, List.mem_filter, mem_occupiedFrom, decide_eq_true_eq]
  tauto

/-- Windows that agree on the occupied ages in `[a, e)` have the same list of them. -/
theorem occupiedBetween_congr
    {w v : Outwnd}
    {a e : Nat}
    (agree : ∀ b, a ≤ b → b < e → v.occupiedAge b = w.occupiedAge b) :
    v.occupiedBetween a e = w.occupiedBetween a e := by
  simp only [occupiedBetween, occupiedFrom, List.filter_filter]
  refine List.filter_congr fun b member => ?_
  have lower := (List.mem_range'_1.mp member).1
  by_cases upper : b < e
  · simp [agree b lower upper]
  · simp [upper]

/-- The occupied ages from `a` on split at any later age `e`. -/
theorem occupiedFrom_split {w : Outwnd} {a e : Nat} (le : a ≤ e) :
    w.occupiedFrom a = w.occupiedBetween a e ++ w.occupiedFrom e := by
  induction e, le using Nat.le_induction with
  | base =>
    have none : w.occupiedBetween a a = [] :=
      List.filter_eq_nil_iff.mpr fun b member => by simp [(mem_occupiedFrom.mp member).1]
    rw [none, List.nil_append]
  | succ e le inductionHypothesis =>
    have below : (w.occupiedBetween a e).filter (fun b => decide (b < e + 1)) =
        w.occupiedBetween a e :=
      List.filter_eq_self.mpr fun b member => by
        simp only [occupiedBetween, List.mem_filter, decide_eq_true_eq] at member
        simp only [decide_eq_true_eq]
        omega
    have above : (w.occupiedFrom (e + 1)).filter (fun b => decide (b < e + 1)) = [] :=
      List.filter_eq_nil_iff.mpr fun b member => by simp [(mem_occupiedFrom.mp member).1]
    have step : w.occupiedBetween a (e + 1) =
        w.occupiedBetween a e ++ (w.occupiedFrom e).filter fun b => decide (b < e + 1) := by
      conv_lhs => rw [occupiedBetween, inductionHypothesis, List.filter_append, below]
    cases occupied : w.occupiedAge e
    · rw [step, occupiedFrom_of_free occupied, above, List.append_nil,
        ← occupiedFrom_of_free occupied]
      exact inductionHypothesis
    · rw [step, occupiedFrom_of_occupied occupied, List.filter_cons_of_pos (by simp), above,
        List.append_assoc, List.singleton_append, ← occupiedFrom_of_occupied occupied]
      exact inductionHypothesis

end Outwnd

/-- `outwnd_pop` keeps the invariant. -/
theorem outwndPop_inv
    {w w' : Outwnd}
    {seqno : BitVec 64}
    {res : Option Pktdesc}
    (inv : w.Inv)
    (popped : outwndPop w seqno = .ok (res, w')) :
    w'.Inv := by
  unfold outwndPop at popped
  split at popped
  · rename_i slotSet
    cases popped
    simp only [Outwnd.clearSlot]
    have slotSmall := outwndPos_lt seqno
    refine ⟨?mirror, ?occupied, ?count, ?seqno⟩
    case mirror =>
      intro i small
      by_cases same : i = outwndPos seqno
      · subst same
        simp
      · have notHigh : i + fastpassOutwndLen ≠ outwndPos seqno + fastpassOutwndLen := by omega
        have notLow : i + fastpassOutwndLen ≠ outwndPos seqno := by omega
        have notHigh' : i ≠ outwndPos seqno + fastpassOutwndLen := by omega
        simp only [clearBit_apply, if_neg notHigh, if_neg notLow, if_neg notHigh', if_neg same,
          inv.mirror i small]
    case occupied =>
      intro i small
      by_cases same : i = outwndPos seqno
      · subst same
        simp
      · have notHigh : i ≠ outwndPos seqno + fastpassOutwndLen := by omega
        simp only [clearBit_apply, if_neg notHigh, if_neg same, Function.update_noteq same,
          inv.occupied i small]
    case count =>
      simp only [Outwnd.lowPopcount]
      rw [Outwnd.card_filter_clearBit_clearBit slotSmall slotSet, inv.count]
      rfl
    case seqno =>
      intro i small d held
      simp only at held
      by_cases same : i = outwndPos seqno
      · subst same
        simp at held
      · rw [Function.update_noteq same] at held
        exact inv.seqno i small d held
  · cases popped

namespace Outwnd

/-- Emptying the slot of an occupied age keeps the invariant. -/
theorem clearSlot_inv {w : Outwnd} {a : Nat} (inv : w.Inv) (occupied : w.occupiedAge a = true) :
    (w.clearSlot (w.slot a)).Inv := by
  have young := young_of_occupied occupied
  have sameAge : w.age (w.seqnoOfAge a) = a :=
    w.age_seqnoOfAge a (by rw [fastpassOutwndLen_eq] at young; omega)
  have popped := outwndPop_of_occupied (s := w.seqnoOfAge a) (by rw [sameAge]; exact occupied)
  rw [sameAge] at popped
  exact outwndPop_inv inv popped

/-- `w'` is `w` with the occupied ages `ages` emptied and every other age left as it was. -/
structure PoppedAges (w : Outwnd) (ages : List Nat) (w' : Outwnd) : Prop where
  inv : w'.Inv
  nextSeqno : w'.nextSeqno = w.nextSeqno
  occupiedAge : ∀ b, w'.occupiedAge b = (w.occupiedAge b && !ages.contains b)
  bins : ∀ b, b < fastpassOutwndLen → b ∉ ages → w'.bins (w.slot b) = w.bins (w.slot b)

/-- Popping only ages below `a` leaves the occupied ages from `a` on. -/
theorem PoppedAges.occupiedFrom_eq
    {w w' : Outwnd}
    {ages : List Nat}
    (popped : w.PoppedAges ages w')
    {a : Nat}
    (below : ∀ b ∈ ages, b < a) :
    w'.occupiedFrom a = w.occupiedFrom a :=
  occupiedFrom_congr fun b lower => by
    rw [popped.occupiedAge]
    have notMember : b ∉ ages := fun member =>
      Nat.lt_irrefl b (Nat.lt_of_lt_of_le (below b member) lower)
    simp [notMember]

/-- Popping removes exactly the popped ages from the list of occupied ones. -/
theorem PoppedAges.occupiedFrom_filter
    {w w' : Outwnd}
    {ages : List Nat}
    (popped : w.PoppedAges ages w')
    (a : Nat) :
    w'.occupiedFrom a = (w.occupiedFrom a).filter fun b => !ages.contains b := by
  simp only [occupiedFrom, List.filter_filter, funext popped.occupiedAge, Bool.and_comm]

end Outwnd

end Fastpass
