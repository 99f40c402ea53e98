import Fastpass.OutwndScan

namespace Fastpass

/-!
# Draining the outstanding window

`outwnd_reset` walks down from the newest sequence number with
`outwnd_at_or_before`, popping and freeing every occupied slot it finds.  It
runs on protocol reset and at socket teardown.

The loop is a `goto` in the source; here it is a recursion whose measure is
the low popcount of the mask, which every successful pop lowers.  The
specification `outwndResetFrom_spec` says that from any age below `2^63` the
loop frees exactly the descriptors of the occupied ages from there on, youngest
first, and leaves the window with only the younger ages occupied.

Under the invariant those descriptors are exactly the ones the window holds,
one per set low bit of the mask (`Inv.held_of_occupied`, `Inv.held_iff`,
`lowPopcount_eq_length`), and a window drained from age `0` is cleared: mask,
bins and count all zero (`ResetFrom.cleared`).
-/

/--
`outwnd_reset` from `tslot` on: pop and free every occupied sequence number at
or below `tslot`, the highest first.  The freed descriptors are returned in
the order `fpproto_pktdesc_free` receives them.
-/
def outwndResetFrom (w : Outwnd) (tslot : BitVec 64) :
    Except Crash (List (Option Pktdesc) × Outwnd) :=
  match outwndAtOrBefore w tslot with
  | .error e => .error e
  | .ok gap =>
    if 0 ≤ gap then
      let next := tslot - BitVec.ofInt 64 gap
      match popped : outwndPop w next with
      | .error e => .error e
      | .ok (pd, w') =>
        match outwndResetFrom w' next with
        | .error e => .error e
        | .ok (freed, w'') => .ok (pd :: freed, w'')
    else
      .ok ([], w)
termination_by w.lowPopcount
decreasing_by
  have := outwndPop_lowPopcount popped
  omega

/-- `outwnd_reset`: empty the window, starting at the last transmitted sequence number. -/
def outwndReset (w : Outwnd) : Except Crash (List (Option Pktdesc) × Outwnd) :=
  outwndResetFrom w (w.nextSeqno - 1)

namespace Outwnd

/-- The descriptors of the occupied ages from `a` on, youngest first. -/
def heldFrom (w : Outwnd) (a : Nat) : List (Option Pktdesc) :=
  (w.occupiedFrom a).map fun b => w.bins (w.slot b)

/-- What `outwnd_reset` leaves when it starts at age `a`. -/
structure ResetFrom (w : Outwnd) (a : Nat) (w' : Outwnd) : Prop where
  inv : w'.Inv
  nextSeqno : w'.nextSeqno = w.nextSeqno
  occupiedAge : ∀ b, w'.occupiedAge b = (w.occupiedAge b && decide (b < a))
  bins : ∀ b, b < a → w'.bins (w.slot b) = w.bins (w.slot b)

end Outwnd

open Outwnd

/--
From any cursor of age below `2^63`, `outwnd_reset`'s loop frees the
descriptors of the occupied ages from the cursor on, youngest first, and keeps
the rest of the window.
-/
theorem outwndResetFrom_spec :
    ∀ (n : Nat) {w : Outwnd}, w.lowPopcount = n → w.Inv →
      ∀ (tslot : BitVec 64), w.age tslot < 2 ^ 63 →
        ∃ w', outwndResetFrom w tslot = .ok (w.heldFrom (w.age tslot), w') ∧
          w.ResetFrom (w.age tslot) w' := by
  intro n
  induction n using Nat.strong_induction_on with
  | _ n inductionHypothesis =>
    intro w popcount inv tslot notBug
    rw [outwndResetFrom]
    rcases w.youngest_occupied_or_none (w.age tslot) with ⟨t, above, tOccupied, clearBetween⟩ |
      clearAbove
    · -- the scan finds the youngest occupied age `t`, which is popped
      have tYoung := young_of_occupied tOccupied
      rw [outwndAtOrBefore_eq_found inv.mirrored above tOccupied clearBetween]
      have stepAge := age_sub_gap above tYoung
      have stepOccupied := tOccupied
      rw [← stepAge] at stepOccupied
      have popped := outwndPop_of_occupied stepOccupied
      rw [stepAge] at popped
      have smaller := outwndPop_lowPopcount popped
      obtain ⟨w', recurse, reset⟩ := inductionHypothesis _ (by omega) rfl
        (outwndPop_inv inv popped) (tslot - BitVec.ofInt 64 ((t - w.age tslot : Nat) : Int))
        (by rw [clearSlot_age, stepAge, fastpassOutwndLen_eq] at *; omega)
      rw [clearSlot_age, stepAge] at recurse
      simp only [clearSlot_age, stepAge] at reset
      simp only [Int.natCast_nonneg, ↓reduceIte]
      rw [popped]
      dsimp only
      rw [recurse]
      refine ⟨w', ?_, ?_⟩
      · -- the freed list is the occupied ages from the cursor on
        have rest : (w.clearSlot (w.slot t)).heldFrom t = w.heldFrom (t + 1) := by
          simp only [heldFrom]
          rw [occupiedFrom_of_free (by simp [clearSlot_occupiedAge tYoung]),
            @occupiedFrom_congr w (w.clearSlot (w.slot t)) (t + 1) fun b lower => by
              simp [clearSlot_occupiedAge tYoung, show b ≠ t by omega]]
          refine List.map_congr_left fun b member => ?_
          have bYoung := young_of_occupied (mem_occupiedFrom.mp member).2
          rw [clearSlot_slot, clearSlot_bins_slot tYoung bYoung
            (by have := (mem_occupiedFrom.mp member).1; omega)]
        rw [rest, heldFrom, heldFrom, occupiedFrom_skip above clearBetween,
          occupiedFrom_of_occupied tOccupied]
        rfl
      · refine ⟨reset.inv, reset.nextSeqno, fun b => ?_, fun b below => ?_⟩
        · rw [reset.occupiedAge, clearSlot_occupiedAge tYoung]
          by_cases lowB : b < w.age tslot
          · simp [lowB, show b < t by omega, show b ≠ t by omega]
          · by_cases bt : b < t
            · simp [lowB, bt, clearBetween b (by omega) bt]
            · simp [lowB, bt]
        · rw [← clearSlot_slot w (w.slot t) b, reset.bins b (by omega)]
          exact clearSlot_bins_slot tYoung (by omega) (by omega)
    · -- nothing is occupied from the cursor on: the scan reports `-1`
      rw [outwndAtOrBefore_eq_notFound inv.mirrored notBug clearAbove]
      refine ⟨w, ?_, inv, rfl, fun b => ?_, fun _ _ => rfl⟩
      · simp [heldFrom, occupiedFrom_eq_nil clearAbove]
      · by_cases lowB : b < w.age tslot
        · simp [lowB]
        · simp [lowB, clearAbove b (by omega)]

/--
`outwnd_reset` frees the descriptors of every occupied age, youngest first,
and empties the window.
-/
theorem outwndReset_spec {w : Outwnd} (inv : w.Inv) :
    ∃ w', outwndReset w = .ok (w.heldFrom 0, w') ∧ w.ResetFrom 0 w' := by
  have ageZero : w.age (w.nextSeqno - 1) = 0 := by simp [Outwnd.age]
  obtain ⟨w', drained, reset⟩ := outwndResetFrom_spec _ rfl inv (w.nextSeqno - 1)
    (by rw [ageZero]; decide)
  rw [ageZero] at drained reset
  exact ⟨w', drained, reset⟩

/-! ## What the window holds, and what a drained window holds -/

namespace Outwnd

variable {w : Outwnd}

/-- Under the invariant the slot of an occupied age holds a descriptor. -/
theorem Inv.bins_of_occupied
    (inv : w.Inv)
    {a : Nat}
    (occupied : w.occupiedAge a = true) :
    ∃ pd, w.bins (w.slot a) = some pd := by
  have held := inv.occupied (w.slot a) (w.slot_lt a)
  simp only [occupiedAge, Bool.and_eq_true] at occupied
  rw [occupied.2] at held
  exact Option.isSome_iff_exists.mp held.symm

/-- The occupied ages from `a` on increase. -/
theorem occupiedFrom_sorted (w : Outwnd) (a : Nat) : (w.occupiedFrom a).Sorted (· < ·) :=
  (List.pairwise_lt_range' a _).filter _

/-- The low popcount counts the occupied ages: slots are a bijection of the ages below `W`. -/
theorem lowPopcount_eq_length (w : Outwnd) : w.lowPopcount = (w.occupiedFrom 0).length := by
  have headSmall := w.head_lt
  rw [← List.toFinset_card_of_nodup (occupiedFrom_nodup w 0), lowPopcount]
  refine Finset.card_nbij' (fun i => (i + fastpassOutwndLen - w.head) % fastpassOutwndLen) w.slot
    (fun i member => ?_) (fun a member => ?_) (fun i member => ?_) (fun a member => ?_)
  all_goals simp only [Finset.mem_filter, Finset.mem_range, List.mem_toFinset, mem_occupiedFrom,
    occupiedAge, slot, Bool.and_eq_true, decide_eq_true_eq, Nat.zero_le, true_and,
    fastpassOutwndLen_eq] at member headSmall ⊢
  · have back : (w.head + (i + 256 - w.head) % 256) % 256 = i := by omega
    exact ⟨by omega, by rw [back]; exact member.2⟩
  · exact ⟨Nat.mod_lt _ (by decide), member.2⟩
  · omega
  · omega

/--
Under the invariant, the slots of occupied ages hold descriptors, one per age,
each carrying the sequence number of its age.
-/
theorem Inv.held_of_occupied (inv : w.Inv) :
    ∀ ages : List Nat, (∀ a ∈ ages, w.occupiedAge a = true) →
      ∃ held : List Pktdesc, ages.map (fun a => w.bins (w.slot a)) = held.map some ∧
        held.map (fun pd => w.age pd.seqno) = ages ∧
        ∀ pd, pd ∈ held ↔ ∃ a ∈ ages, w.bins (w.slot a) = some pd
  | [], _ => ⟨[], rfl, rfl, by simp⟩
  | a :: ages, occupied => by
    have aOccupied := occupied a (List.mem_cons_self _ _)
    obtain ⟨pd, held⟩ := inv.bins_of_occupied aOccupied
    obtain ⟨rest, restBins, restAges, restMem⟩ :=
      inv.held_of_occupied ages fun b member => occupied b (List.mem_cons_of_mem _ member)
    obtain ⟨pdYoung, pdSlot⟩ := inv.seqno _ (w.slot_lt a) pd held
    have pdAge : w.age pd.seqno = a :=
      slot_inj pdYoung (young_of_occupied aOccupied) (by rw [← outwndPos_eq_slot_age, pdSlot])
    refine ⟨pd :: rest, by rw [List.map_cons, List.map_cons, held, restBins],
      by rw [List.map_cons, pdAge, restAges], fun q => ?_⟩
    simp only [List.mem_cons, or_and_right, exists_or, exists_eq_left, held, Option.some_inj,
      restMem]
    exact or_congr_left eq_comm

/-- Under the invariant, the descriptors at the occupied ages are those of every slot. -/
theorem Inv.held_iff (inv : w.Inv) (pd : Pktdesc) :
    (∃ a ∈ w.occupiedFrom 0, w.bins (w.slot a) = some pd) ↔
      ∃ i < fastpassOutwndLen, w.bins i = some pd := by
  constructor
  · rintro ⟨a, -, held⟩
    exact ⟨_, w.slot_lt a, held⟩
  · rintro ⟨i, small, held⟩
    obtain ⟨pdYoung, pdSlot⟩ := inv.seqno i small pd held
    have slotEq : w.slot (w.age pd.seqno) = i := by rw [← outwndPos_eq_slot_age, pdSlot]
    have set := inv.occupied i small
    rw [held] at set
    refine ⟨w.age pd.seqno, mem_occupiedFrom.mpr ⟨Nat.zero_le _, ?_⟩, by rw [slotEq]; exact held⟩
    simp [occupiedAge, pdYoung, slotEq, set]

/-- A window with nothing in it: both halves of the mask clear, every bin `NULL`, the count `0`. -/
def Cleared (w : Outwnd) : Prop :=
  (∀ i < 2 * fastpassOutwndLen, w.binMask i = false) ∧ (∀ i < fastpassOutwndLen, w.bins i = none) ∧
    w.txNumUnacked = 0

/-- Under the invariant, a window with no occupied age is cleared. -/
theorem Inv.cleared (inv : w.Inv) (free : ∀ a, w.occupiedAge a = false) : w.Cleared := by
  have count : w.txNumUnacked = 0 := by simpa [outwndEmpty] using inv.outwndEmpty_iff.mpr free
  have low : ∀ i < fastpassOutwndLen, w.binMask i = false := fun i small => by
    rw [inv.count, lowPopcount, Finset.card_eq_zero, Finset.filter_eq_empty_iff] at count
    simpa using count (Finset.mem_range.mpr small)
  refine ⟨fun i small => ?_, fun i small => ?_, count⟩
  · by_cases lower : i < fastpassOutwndLen
    · exact low i lower
    · rw [show i = (i - fastpassOutwndLen) + fastpassOutwndLen by omega, inv.mirror _ (by omega)]
      exact low _ (by omega)
  · have held := inv.occupied i small
    rw [low i small] at held
    exact Option.not_isSome_iff_eq_none.mp (by rw [← held]; decide)

/-- A window drained from age `0` is cleared. -/
theorem ResetFrom.cleared {w' : Outwnd} (reset : w.ResetFrom 0 w') : w'.Cleared :=
  reset.inv.cleared fun a => by simp [reset.occupiedAge]

/--
A window drained from age `0` holds no descriptor, so it keeps the invariant,
and stays empty, whatever sequence number it restarts from.
-/
theorem ResetFrom.renumber {w' : Outwnd} (reset : w.ResetFrom 0 w') (n : BitVec 64) :
    { w' with nextSeqno := n }.Inv ∧ ∀ a, { w' with nextSeqno := n }.occupiedAge a = false := by
  obtain ⟨clear, noneHeld, -⟩ := reset.cleared
  refine ⟨⟨reset.inv.mirror, reset.inv.occupied, reset.inv.count, fun i small pd held => ?_⟩,
    fun a => ?_⟩
  · simp [noneHeld i small] at held
  · have slotSmall := slot_lt { w' with nextSeqno := n } a
    show (decide (a < fastpassOutwndLen) && w'.binMask
      (Outwnd.slot { w' with nextSeqno := n } a)) = false
    rw [clear _ (by omega), Bool.and_false]

end Outwnd

end Fastpass
