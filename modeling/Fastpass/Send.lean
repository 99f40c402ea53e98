import Fastpass.Timer

namespace Fastpass

/-!
# Sending a packet

`fpproto_prepare_to_send` makes room for the next packet: if the slot that
`next_seqno` will take still holds the packet `W` back, that packet falls off
the window, is negatively acknowledged, and the timer is reset.
`fpproto_commit_packet` then stamps the descriptor, stores it as `next_seqno`
and arms the timer when it is the only packet outstanding.

After a commit every age is one older: the slot, the occupancy and the
descriptor of age `a + 1` are those of age `a` before (`fillSlot_slot_succ`,
`fillSlot_occupiedAge_succ`, `fillSlot_bins_succ`).  From them follow the
descriptors held after a commit (`heldFrom_fillSlot`) and the two send lemmas,
one for a window with room and one for a full window.
-/

open Outwnd

namespace Outwnd

variable {w : Outwnd}

/-- The window `outwnd_add` leaves: `pd` in the slot of `next_seqno`. -/
def added (w : Outwnd) (pd : Pktdesc) : Outwnd :=
  w.fillSlot (outwndPos w.nextSeqno) pd

@[simp] theorem added_nextSeqno (w : Outwnd) (pd : Pktdesc) :
    (w.added pd).nextSeqno = w.nextSeqno + 1 := rfl

@[simp] theorem added_txNumUnacked (w : Outwnd) (pd : Pktdesc) :
    (w.added pd).txNumUnacked = w.txNumUnacked + 1 := rfl

theorem added_binMask (w : Outwnd) (pd : Pktdesc) :
    (w.added pd).binMask =
      setBit (setBit w.binMask (outwndPos w.nextSeqno))
        (outwndPos w.nextSeqno + fastpassOutwndLen) :=
  rfl

theorem added_bins (w : Outwnd) (pd : Pktdesc) :
    (w.added pd).bins = Function.update w.bins (outwndPos w.nextSeqno) (some pd) :=
  rfl

theorem added_head (w : Outwnd) (pd : Pktdesc) : (w.added pd).head = outwndPos w.nextSeqno := by
  simp only [head, added_nextSeqno, BitVec.add_sub_cancel]

/-- The new packet has age `0`, in the slot of `next_seqno`. -/
theorem added_slot_zero
    (w : Outwnd)
    (pd : Pktdesc) :
    (w.added pd).slot 0 = outwndPos w.nextSeqno := by
  rw [slot, added_head, Nat.add_zero, Nat.mod_eq_of_lt (outwndPos_lt _)]

/-- Every packet becomes one older and keeps its slot. -/
theorem added_slot_succ
    (w : Outwnd)
    (pd : Pktdesc)
    (a : Nat) :
    (w.added pd).slot (a + 1) = w.slot a := by
  have := w.head_lt
  simp only [slot, added_head, outwndPos_add_slot, fastpassOutwndLen_eq] at this ⊢
  omega

/-- The slot of `next_seqno` is the slot of the age `W - 1`, the window's edge. -/
theorem outwndPos_next_eq_slot_edge (w : Outwnd) :
    outwndPos w.nextSeqno = w.slot (fastpassOutwndLen - 1) :=
  outwndPos_add_slot w

/-- With the edge free, `outwnd_add` adds the packet. -/
theorem outwndAdd_of_free (free : w.occupiedAge (fastpassOutwndLen - 1) = false) (pd : Pktdesc) :
    outwndAdd w pd = .ok (w.added pd) := by
  have edge := outwndIsUnacked_eq_occupiedAge (w := w) (s := w.nextSeqno - outwndLen64)
    (by rw [age_edge]; decide)
  rw [age_edge] at edge
  simp only [outwndAdd, edge, free, Bool.false_eq_true, ↓reduceIte, added]

@[simp] theorem added_occupiedAge_zero (w : Outwnd) (pd : Pktdesc) :
    (w.added pd).occupiedAge 0 = true := by
  simp [occupiedAge, added_slot_zero, added_binMask, fastpassOutwndLen_eq]

/-- The occupancy of age `a + 1` after a commit is the occupancy of age `a` before. -/
theorem added_occupiedAge_succ
    (free : w.occupiedAge (fastpassOutwndLen - 1) = false)
    (pd : Pktdesc)
    (a : Nat) :
    (w.added pd).occupiedAge (a + 1) = w.occupiedAge a := by
  by_cases young : a + 1 < fastpassOutwndLen
  · have other : w.slot a ≠ outwndPos w.nextSeqno := by
      rw [outwndPos_next_eq_slot_edge]
      exact fun same => by
        have := slot_inj (by omega) (by rw [fastpassOutwndLen_eq]; decide) same
        omega
    have notMirror : w.slot a ≠ outwndPos w.nextSeqno + fastpassOutwndLen := by
      have := w.slot_lt a
      omega
    simp [occupiedAge, added_slot_succ, added_binMask, young, show a < fastpassOutwndLen by omega,
      other, notMirror]
  · rcases Nat.lt_or_ge a (fastpassOutwndLen - 1) with small | edge
    · omega
    · rcases Nat.eq_or_lt_of_le edge with atEdge | old
      · rw [← atEdge, free, occupiedAge_of_old (by omega)]
      · rw [occupiedAge_of_old (by omega), occupiedAge_of_old (by omega)]

@[simp] theorem added_bins_zero (w : Outwnd) (pd : Pktdesc) :
    (w.added pd).bins ((w.added pd).slot 0) = some pd := by
  simp [added_slot_zero, added_bins]

/-- The descriptor of age `a + 1` after a commit is the descriptor of age `a` before. -/
theorem added_bins_succ (pd : Pktdesc) {a : Nat} (young : a + 1 < fastpassOutwndLen) :
    (w.added pd).bins ((w.added pd).slot (a + 1)) = w.bins (w.slot a) := by
  have other : w.slot a ≠ outwndPos w.nextSeqno := by
    rw [outwndPos_next_eq_slot_edge]
    exact fun same => by
      have := slot_inj (by omega) (by rw [fastpassOutwndLen_eq]; decide) same
      omega
  simp [added_slot_succ, added_bins, other]

/-- The occupied ages can be listed over any range that covers the window. -/
theorem occupiedFrom_eq_range' (w : Outwnd) (a : Nat) {n : Nat} (covers : fastpassOutwndLen ≤ n) :
    w.occupiedFrom a = (List.range' a (n - a)).filter w.occupiedAge := by
  rcases Nat.lt_or_ge a fastpassOutwndLen with young | old
  · rw [occupiedFrom, show n - a = (n - fastpassOutwndLen) + (fastpassOutwndLen - a) by omega,
      ← List.range'_append_1, List.filter_append, Nat.add_sub_cancel' young.le]
    have beyond : (List.range' fastpassOutwndLen (n - fastpassOutwndLen)).filter w.occupiedAge =
      [] :=
      List.filter_eq_nil_iff.mpr fun b member => by
        simp [occupiedAge_of_old (List.mem_range'_1.mp member).1]
    rw [beyond, List.append_nil]
  · rw [occupiedFrom, show fastpassOutwndLen - a = 0 by omega, List.range'_zero, List.filter_nil,
      eq_comm, List.filter_eq_nil_iff]
    exact fun b member => by
      simp [occupiedAge_of_old (le_trans old (List.mem_range'_1.mp member).1)]

/-- After a commit the occupied ages are `0` and the old ones, each one older. -/
theorem added_occupiedFrom (free : w.occupiedAge (fastpassOutwndLen - 1) = false) (pd : Pktdesc) :
    (w.added pd).occupiedFrom 0 = 0 :: (w.occupiedFrom 0).map (· + 1) := by
  rw [occupiedFrom_of_occupied (added_occupiedAge_zero w pd),
    occupiedFrom_eq_range' _ 1 (n := fastpassOutwndLen + 1) (by omega),
    occupiedFrom_eq_range' w 0 (n := fastpassOutwndLen) le_rfl]
  congr 1
  rw [show fastpassOutwndLen + 1 - 1 = fastpassOutwndLen - 0 by omega,
    ← List.map_add_range' 1 0, List.filter_map,
    show (fun x => 1 + x) = (· + 1) from funext fun x => Nat.add_comm 1 x]
  congr 1
  exact List.filter_congr fun a _ => by simp only [Function.comp, added_occupiedAge_succ free]

/-- After a commit the descriptors held are the new one and the old ones. -/
theorem heldFrom_added (free : w.occupiedAge (fastpassOutwndLen - 1) = false) (pd : Pktdesc) :
    (w.added pd).heldFrom 0 = some pd :: w.heldFrom 0 := by
  simp only [heldFrom, added_occupiedFrom free, List.map_cons, added_bins_zero, List.map_map]
  congr 1
  refine List.map_congr_left fun a member => ?_
  have occupied := (mem_occupiedFrom.mp member).2
  have young := young_of_occupied occupied
  have notEdge : a ≠ fastpassOutwndLen - 1 :=
    fun edge => by rw [edge, free] at occupied; cases occupied
  exact added_bins_succ pd (by omega)

/--
`outwnd_pop` of the sequence number `outwnd_add` has just filled hands back
the descriptor and undoes the add: the mask, the bins and the count are as
before it, and only `next_seqno` stays advanced.
-/
theorem outwndPop_outwndAdd
    (inv : w.Inv)
    (free : w.occupiedAge (fastpassOutwndLen - 1) = false)
    (pd : Pktdesc) :
    (outwndAdd w pd >>= fun w' => outwndPop w' w.nextSeqno) =
      .ok (some pd, { w with nextSeqno := w.nextSeqno + 1 }) := by
  have slotSmall := outwndPos_lt w.nextSeqno
  have lowClear : w.binMask (outwndPos w.nextSeqno) = false := by
    rw [outwndPos_next_eq_slot_edge]
    simpa [occupiedAge, fastpassOutwndLen_eq] using free
  have highClear : w.binMask (outwndPos w.nextSeqno + fastpassOutwndLen) = false := by
    rw [inv.mirror _ slotSmall, lowClear]
  have binEmpty : w.bins (outwndPos w.nextSeqno) = none :=
    Option.not_isSome_iff_eq_none.mp (by rw [← inv.occupied _ slotSmall, lowClear]; decide)
  have restored : (w.added pd).clearSlot (outwndPos w.nextSeqno) =
    { w with nextSeqno := w.nextSeqno + 1 } := by
    simp only [clearSlot, added, fillSlot, Nat.add_sub_cancel]
    congr 1
    · funext j
      by_cases high : j = outwndPos w.nextSeqno + fastpassOutwndLen
      · simp [high, highClear]
      · by_cases low : j = outwndPos w.nextSeqno <;> simp [high, low, lowClear]
    · rw [Function.update_idem, ← binEmpty, Function.update_eq_self]
  rw [outwndAdd_of_free free, except_ok_bind]
  simp [outwndPop, outwndIsUnacked, added_binMask, added_bins, restored]

/-- A descriptor added to the sample window and popped back, as an instance of the hypotheses. -/
theorem outwndPop_outwndAdd_sample :
    sample.occupiedAge (fastpassOutwndLen - 1) = false ∧
    (outwndAdd sample ⟨1, 0, 0, false, 0, []⟩ >>= fun w' => outwndPop w' sample.nextSeqno) =
      .ok (some ⟨1, 0, 0, false, 0, []⟩, { sample with nextSeqno := sample.nextSeqno + 1 }) :=
  ⟨by decide, outwndPop_outwndAdd sample_inv (by decide) _⟩

end Outwnd

/-- Exactly the ages below `m` are occupied. -/
def Outwnd.FirstOccupied (w : Outwnd) (m : Nat) : Prop :=
  ∀ a, w.occupiedAge a = decide (a < m)

/-- A commit onto the first `m` occupied ages, with room, occupies the first `m + 1`. -/
theorem Outwnd.FirstOccupied.added
    {w : Outwnd}
    {m : Nat}
    (first : w.FirstOccupied m)
    (room : m < fastpassOutwndLen)
    (pd : Pktdesc) :
    (w.added pd).FirstOccupied (m + 1) := by
  have free : w.occupiedAge (fastpassOutwndLen - 1) = false := by simp [first _]; omega
  intro a
  cases a with
  | zero => simp
  | succ a => simp [added_occupiedAge_succ free, first a]

/-- The occupied ages of a window whose first `m` ages are occupied. -/
theorem Outwnd.FirstOccupied.occupiedFrom
    {w : Outwnd}
    {m : Nat}
    (first : w.FirstOccupied m)
    (fits : m ≤ fastpassOutwndLen) :
    w.occupiedFrom 0 = List.range m := by
  have below : (List.range' 0 m).filter w.occupiedAge = List.range' 0 m :=
    List.filter_eq_self.mpr fun a member => by
      have := List.mem_range'_1.mp member
      simp [first a]
      omega
  have above : (List.range' (0 + m) (fastpassOutwndLen - m)).filter w.occupiedAge = [] :=
    List.filter_eq_nil_iff.mpr fun a member => by
      have := List.mem_range'_1.mp member
      simp [first a]
      omega
  rw [Outwnd.occupiedFrom, Nat.sub_zero, show fastpassOutwndLen =
    (fastpassOutwndLen - m) + m by omega,
    ← List.range'_append_1, List.filter_append, below, above, List.append_nil, List.range_eq_range']

/-! ## `fpproto_prepare_to_send` and `fpproto_commit_packet` -/

variable {st : Session}

/-- With the edge free, `fpproto_prepare_to_send` does nothing. -/
theorem fpprotoPrepareToSend_of_free (free : st.wnd.occupiedAge (fastpassOutwndLen - 1) = false) :
    fpprotoPrepareToSend st = .ok st := by
  have edge := outwndIsUnacked_eq_occupiedAge (w := st.wnd) (s := st.wnd.nextSeqno - outwndLen64)
    (by rw [age_edge]; decide)
  rw [age_edge, free] at edge
  simp only [fpprotoPrepareToSend, edge, Bool.false_eq_true, ↓reduceIte]
  rfl

/-- With the edge occupied, its packet falls off: it is NACKed and the timer is reset. -/
theorem fpprotoPrepareToSend_of_occupied
    (occupied : st.wnd.occupiedAge (fastpassOutwndLen - 1) = true) :
    fpprotoPrepareToSend st = cancelAndResetRetransTimer
      ({ st with stats := { st.stats with fallOffOutwnd := st.stats.fallOffOutwnd + 1 } }.popAge
        negAckRelease (fastpassOutwndLen - 1)) := by
  have edgeAge := age_edge st.wnd
  have edge := outwndIsUnacked_eq_occupiedAge (w := st.wnd) (s := st.wnd.nextSeqno - outwndLen64)
    (by rw [edgeAge]; decide)
  rw [edgeAge, occupied] at edge
  rw [← edgeAge] at occupied
  simp only [fpprotoPrepareToSend, edge, ↓reduceIte]
  rw [@doNegAckSeqno_of_occupied
    { st with stats := { st.stats with fallOffOutwnd := st.stats.fallOffOutwnd + 1 } } _ occupied,
    except_ok_bind, edgeAge]

/--
With the edge free, `fpproto_commit_packet` adds the stamped descriptor and
arms the timer for a first packet.
-/
theorem fpprotoCommitPacket_of_free
    (free : st.wnd.occupiedAge (fastpassOutwndLen - 1) = false)
    (pd : Pktdesc)
    (timestamp : BitVec 64) :
    fpprotoCommitPacket st pd timestamp =
      .ok (if st.wnd.txNumUnacked = 0 then
        { st with
          wnd := st.wnd.added (st.stamp pd timestamp)
          earliestUnacked := st.wnd.nextSeqno
          retransTimer := hrtimerStart st.retransTimer (timestamp + st.sendTimeoutUs) }
      else { st with wnd := st.wnd.added (st.stamp pd timestamp) }) := by
  simp only [fpprotoCommitPacket, outwndAdd_of_free free, except_ok_bind, added_txNumUnacked,
    Nat.add_left_eq_self]
  split <;> rfl

end Fastpass
