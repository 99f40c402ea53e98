import Fastpass.Outwnd

namespace Fastpass

/-!
# Scans of the outstanding window

`outwnd_at_or_before` and `outwnd_earliest_unacked_hint` search the doubled
mask from the slot of a given sequence number, forwards with `find_next_bit`
and backwards with `find_last_bit`.  Because slots run backwards, a forward
scan from the head visits the window from the newest sequence number to the
oldest, and the mirrored upper half lets it run past the end of the ring
without a wrap-around branch.

The specifications are stated in ages (`Outwnd.age`):

* `outwndAtOrBefore_eq_found` and `outwndAtOrBefore_eq_notFound`: the scan
  returns the distance to the youngest occupied age at or above the age of
  its argument, or `-1`;
* `outwndEarliestUnackedHint_eq`: from a hint inside the window and not above
  any occupied sequence number, the backward scan lands on the oldest
  occupied age.

The last section restates both over intervals of sequence numbers, as the
source's comments speak of them, with the bounds of the bit scans' arguments:
`outwndAtOrBefore_spec` and `outwndEarliestUnackedHint_spec`.

Only the mirror half of the window invariant is needed for the scans.
-/

/--
`outwnd_at_or_before`: `seqno - s` for the highest occupied `s ≤ seqno` of the
window, or `-1`.  The index arithmetic is `u32` in the source; its values stay
below `2 * W`, so `Nat` is exact.
-/
def outwndAtOrBefore (w : Outwnd) (seqno : BitVec 64) : Except Crash Int :=
  if timeAfterEq64 seqno w.nextSeqno then
    .error .outwndAtOrBefore
  else if timeBefore64 seqno (w.nextSeqno - outwndLen64) then
    .ok (-1)
  else
    let headIndex := outwndPos (w.nextSeqno - 1)
    let seqnoIndex := headIndex + outwndPos (seqno - (w.nextSeqno - 1))
    let foundOffset := findNextBit w.binMask (headIndex + fastpassOutwndLen) seqnoIndex
    if foundOffset ≠ headIndex + fastpassOutwndLen ∧
        outwndIsUnacked w (seqno - BitVec.ofNat 64 (foundOffset - seqnoIndex)) = false then
      .error .outwndAtOrBefore
    else if foundOffset = headIndex + fastpassOutwndLen then
      .ok (-1)
    else
      .ok ((foundOffset - seqnoIndex : Nat) : Int)

/--
`outwnd_earliest_unacked_hint`: the earliest occupied sequence number, given
that it is not before `hint`.  The offset is computed in `u32`, so a scan
that finds nothing wraps to `2^32 - 1`.
-/
def outwndEarliestUnackedHint (w : Outwnd) (hint : BitVec 64) : Except Crash (BitVec 64) :=
  let hintPos := outwndPos hint
  let foundOffset := findLastBit w.binMask (hintPos + fastpassOutwndLen + 1)
  let earliest :=
    hint + BitVec.ofNat 64 ((hintPos + fastpassOutwndLen + 2 ^ 32 - foundOffset) % 2 ^ 32)
  if earliest ≠ w.nextSeqno - outwndLen64 then
    outwndAtOrBefore w (earliest - 1) >>= fun gap =>
      if gap ≠ -1 then .error .outwndEarliestUnackedHint else .ok earliest
  else
    .ok earliest

/-- `outwnd_earliest_unacked`: the scan from the oldest sequence number of the window. -/
def outwndEarliestUnacked (w : Outwnd) : Except Crash (BitVec 64) :=
  outwndEarliestUnackedHint w (w.nextSeqno - outwndLen64)

namespace Outwnd

variable {w : Outwnd}

/-- The mirror half of the window invariant, which is all the scans rely on. -/
def Mirrored (w : Outwnd) : Prop :=
  ∀ i < fastpassOutwndLen, w.binMask (i + fastpassOutwndLen) = w.binMask i

/--
Under the mirror, any bit of the doubled mask tells whether the age sharing its
slot is occupied.
-/
theorem binMask_eq_occupiedAge
    (mirror : w.Mirrored)
    {i a : Nat}
    (bitSmall : i < 2 * fastpassOutwndLen)
    (young : a < fastpassOutwndLen)
    (sameSlot : w.slot a = i % fastpassOutwndLen) :
    w.binMask i = w.occupiedAge a := by
  simp only [occupiedAge, decide_eq_true young, Bool.true_and, sameSlot]
  by_cases low : i < fastpassOutwndLen
  · rw [Nat.mod_eq_of_lt low]
  · have split : i = i % fastpassOutwndLen + fastpassOutwndLen := by
      rw [fastpassOutwndLen_eq] at *
      omega
    conv_lhs => rw [split]
    exact mirror _ (Nat.mod_lt _ (by decide))

/-- The slot arithmetic of the forward scan: bit `head + j` stands for age `j`. -/
theorem binMask_head_add (mirror : w.Mirrored) {a : Nat} (young : a < fastpassOutwndLen) :
    w.binMask (w.head + a) = w.occupiedAge a :=
  binMask_eq_occupiedAge mirror (by have := w.head_lt; omega) young rfl

theorem occupiedAge_of_old {a : Nat} (old : fastpassOutwndLen ≤ a) : w.occupiedAge a = false := by
  simp [occupiedAge, Nat.not_lt.mpr old]

theorem Inv.mirrored (inv : w.Inv) : w.Mirrored :=
  inv.mirror

/-- `time_after_eq64(seqno, next_seqno)` fires exactly for ages of at least `2^63`. -/
theorem timeAfterEq64_next_iff (seqno : BitVec 64) :
    timeAfterEq64 seqno w.nextSeqno = true ↔ 2 ^ 63 ≤ w.age seqno := by
  simp only [timeAfterEq64, age, decide_eq_true_eq]
  bv_omega

/-- Below age `2^63`, `time_before64(seqno, next_seqno - W)` means the age is at least `W`. -/
theorem timeBefore64_edge_iff {seqno : BitVec 64} (notBug : w.age seqno < 2 ^ 63) :
    timeBefore64 seqno (w.nextSeqno - outwndLen64) = true ↔ fastpassOutwndLen ≤ w.age seqno := by
  simp only [timeBefore64, timeAfter64, age, outwndLen64, fastpassOutwndLen_eq,
    decide_eq_true_eq] at notBug ⊢
  bv_omega

/-- The slot offset of `seqno` from the head is its age. -/
theorem outwndPos_sub_newest (seqno : BitVec 64) :
    outwndPos (seqno - (w.nextSeqno - 1)) = w.age seqno % fastpassOutwndLen := by
  rw [outwndPos_eq]
  congr 1
  simp only [age]
  congr 1
  bv_omega

/-- Stepping `k` sequence numbers down from `seqno` adds `k` to its age. -/
theorem age_sub (seqno : BitVec 64) (k : Nat) (fits : w.age seqno + k < 2 ^ 64) :
    w.age (seqno - BitVec.ofNat 64 k) = w.age seqno + k := by
  simp only [age] at fits ⊢
  bv_omega

/-- Stepping `k` sequence numbers up from `seqno` takes `k` from its age. -/
theorem age_add (seqno : BitVec 64) (k : Nat) (le : k ≤ w.age seqno) :
    w.age (seqno + BitVec.ofNat 64 k) = w.age seqno - k := by
  have small := w.age_lt seqno
  simp only [age] at le small ⊢
  bv_omega

/-- A gap the scan returns steps the cursor down to the occupied age it found. -/
theorem age_sub_gap
    {tslot : BitVec 64}
    {t : Nat}
    (above : w.age tslot ≤ t)
    (young : t < fastpassOutwndLen) :
    w.age (tslot - BitVec.ofInt 64 ((t - w.age tslot : Nat) : Int)) = t := by
  rw [BitVec.ofInt_natCast, age_sub tslot _ (by rw [fastpassOutwndLen_eq] at young; omega)]
  omega

/-- From any age on, either there is a youngest occupied age or none is occupied. -/
theorem youngest_occupied_or_none (w : Outwnd) (a : Nat) :
    (∃ t, a ≤ t ∧ w.occupiedAge t = true ∧ ∀ j, a ≤ j → j < t → w.occupiedAge j = false) ∨
      ∀ j, a ≤ j → w.occupiedAge j = false := by
  by_cases someOccupied : ∃ t, a ≤ t ∧ w.occupiedAge t = true
  · classical
    exact Or.inl ⟨Nat.find someOccupied, (Nat.find_spec someOccupied).1,
      (Nat.find_spec someOccupied).2, fun j lower upper =>
        Bool.eq_false_iff.mpr fun isSet => Nat.find_min someOccupied upper ⟨lower, isSet⟩⟩
  · exact Or.inr fun j lower => Bool.eq_false_iff.mpr fun isSet => someOccupied ⟨j, lower, isSet⟩

/-- Either some age is the oldest occupied one, or none is occupied. -/
theorem oldest_occupied_or_none (w : Outwnd) :
    (∃ t, w.occupiedAge t = true ∧ ∀ j, w.occupiedAge j = true → j ≤ t) ∨
      ∀ j, w.occupiedAge j = false := by
  by_cases someOccupied : ∃ t, w.occupiedAge t = true
  · classical
    have bounded : ∃ t, ∀ j, w.occupiedAge j = true → j ≤ t :=
      ⟨fastpassOutwndLen, fun j occupied => Nat.le_of_lt (young_of_occupied occupied)⟩
    refine Or.inl ⟨Nat.find bounded, ?_, Nat.find_spec bounded⟩
    obtain ⟨j, jOccupied⟩ := someOccupied
    by_contra free
    have below : ∀ k, w.occupiedAge k = true → k ≤ Nat.find bounded - 1 := fun k occupied => by
      have le := Nat.find_spec bounded k occupied
      have ne : k ≠ Nat.find bounded := fun same => free (same ▸ occupied)
      omega
    have pos : Nat.find bounded - 1 < Nat.find bounded := by
      have le := Nat.find_spec bounded j jOccupied
      have ne : j ≠ Nat.find bounded := fun same => free (same ▸ jOccupied)
      omega
    exact Nat.find_min bounded pos below
  · exact Or.inr fun j => Bool.eq_false_iff.mpr fun isSet => someOccupied ⟨j, isSet⟩

/-- Under the invariant, `outwnd_empty` holds exactly when no age is occupied. -/
theorem Inv.outwndEmpty_iff (inv : w.Inv) :
    outwndEmpty w = true ↔ ∀ a, w.occupiedAge a = false := by
  have lenEq := fastpassOutwndLen_eq
  simp only [outwndEmpty, beq_iff_eq, inv.count, lowPopcount, Finset.card_eq_zero,
    Finset.filter_eq_empty_iff, Finset.mem_range]
  constructor
  · intro none a
    by_cases young : a < fastpassOutwndLen
    · simp [occupiedAge, young, none (w.slot_lt a)]
    · simp [occupiedAge, young]
  · intro free i small isSet
    have headSmall := w.head_lt
    have slotEq : w.slot ((i + fastpassOutwndLen - w.head) % fastpassOutwndLen) = i := by
      simp only [slot, fastpassOutwndLen_eq] at *
      omega
    have := free ((i + fastpassOutwndLen - w.head) % fastpassOutwndLen)
    simp only [occupiedAge, slotEq, isSet, Bool.and_true, decide_eq_false_iff_not] at this
    exact this (Nat.mod_lt _ (by decide))

end Outwnd

open Outwnd

variable {w : Outwnd}

/-- The forward scan from an age finds the youngest occupied age at or above it. -/
theorem outwndAtOrBefore_eq_found
    (mirror : w.Mirrored)
    {seqno : BitVec 64}
    {t : Nat}
    (above : w.age seqno ≤ t)
    (occupied : w.occupiedAge t = true)
    (clearBetween : ∀ j, w.age seqno ≤ j → j < t → w.occupiedAge j = false) :
    outwndAtOrBefore w seqno = .ok ((t - w.age seqno : Nat) : Int) := by
  have tYoung := young_of_occupied occupied
  have ageYoung : w.age seqno < fastpassOutwndLen := by omega
  have lenEq := fastpassOutwndLen_eq
  have found : findNextBit w.binMask (w.head + fastpassOutwndLen)
      (w.head + w.age seqno) = w.head + t := by
    refine findNextBit_eq_of_set (by omega) (by omega) ?_ ?_
    · rw [binMask_head_add mirror tYoung, occupied]
    · intro i lower upper
      have shift : i = w.head + (i - w.head) := by omega
      rw [shift, binMask_head_add mirror (by omega)]
      exact clearBetween _ (by omega) (by omega)
  have foundSlot :
      outwndIsUnacked w (seqno - BitVec.ofNat 64 (w.head + t - (w.head + w.age seqno))) = true := by
    rw [show w.head + t - (w.head + w.age seqno) = t - w.age seqno by omega]
    simp only [outwndIsUnacked]
    rw [w.outwndPos_eq_head_add_age, age_sub seqno (t - w.age seqno) (by omega),
      Nat.add_sub_cancel' above]
    have slotSmall := Nat.mod_lt (w.head + t) (show 0 < fastpassOutwndLen by decide)
    exact (binMask_eq_occupiedAge mirror (by omega) tYoung (Nat.mod_mod _ _).symm).trans occupied
  have headEq : outwndPos (w.nextSeqno - 1) = w.head := rfl
  unfold outwndAtOrBefore
  rw [if_neg (by rw [timeAfterEq64_next_iff]; omega),
    if_neg (by rw [timeBefore64_edge_iff (by omega)]; omega)]
  simp only [headEq, outwndPos_sub_newest, Nat.mod_eq_of_lt ageYoung, found, foundSlot]
  simp [show w.head + t ≠ w.head + fastpassOutwndLen by omega,
    show w.head + t - (w.head + w.age seqno) = t - w.age seqno by omega]

/-- With no occupied age at or above its argument, the forward scan reports `-1`. -/
theorem outwndAtOrBefore_eq_notFound
    (mirror : w.Mirrored)
    {seqno : BitVec 64}
    (notBug : w.age seqno < 2 ^ 63)
    (clearAbove : ∀ j, w.age seqno ≤ j → w.occupiedAge j = false) :
    outwndAtOrBefore w seqno = .ok (-1) := by
  unfold outwndAtOrBefore
  rw [if_neg (by rw [timeAfterEq64_next_iff]; omega)]
  by_cases old : fastpassOutwndLen ≤ w.age seqno
  · rw [if_pos ((timeBefore64_edge_iff notBug).mpr old)]
  · rw [if_neg (by rw [timeBefore64_edge_iff notBug]; exact old)]
    have found : findNextBit w.binMask (w.head + fastpassOutwndLen)
        (w.head + w.age seqno) = w.head + fastpassOutwndLen := by
      refine findNextBit_eq_size fun i lower upper => ?_
      have shift : i = w.head + (i - w.head) := by omega
      rw [shift, binMask_head_add mirror (by omega)]
      exact clearAbove _ (by omega)
    have headEq : outwndPos (w.nextSeqno - 1) = w.head := rfl
    simp only [headEq, outwndPos_sub_newest, Nat.mod_eq_of_lt (Nat.not_le.mp old), found]
    simp

/--
From a hint inside the window that is not above any occupied sequence number,
`outwnd_earliest_unacked_hint` returns the oldest occupied sequence number.
-/
theorem outwndEarliestUnackedHint_eq
    (mirror : w.Mirrored)
    {hint : BitVec 64}
    {t : Nat}
    (hintYoung : w.age hint < fastpassOutwndLen)
    (belowHint : t ≤ w.age hint)
    (occupied : w.occupiedAge t = true)
    (oldest : ∀ j, w.occupiedAge j = true → j ≤ t) :
    outwndEarliestUnackedHint w hint = .ok (w.seqnoOfAge t) := by
  have lenEq := fastpassOutwndLen_eq
  have headSmall := w.head_lt
  have hintPosEq := w.outwndPos_eq_head_add_age hint
  have hintPosSmall := outwndPos_lt hint
  have tYoung : t < fastpassOutwndLen := by omega
  have found : findLastBit w.binMask (outwndPos hint + fastpassOutwndLen + 1) =
      outwndPos hint + fastpassOutwndLen - (w.age hint - t) := by
    refine findLastBit_eq_of_set (by omega) ?_ ?_
    · refine (binMask_eq_occupiedAge mirror (by omega) tYoung ?_).trans occupied
      rw [hintPosEq]
      simp only [slot, fastpassOutwndLen_eq] at *
      omega
    · intro i lower upper
      have ageOfBit : w.binMask i =
          w.occupiedAge (w.age hint - (outwndPos hint + fastpassOutwndLen - i)) :=
        binMask_eq_occupiedAge mirror (by omega) (by omega)
          (by rw [hintPosEq] at *; simp only [slot, fastpassOutwndLen_eq] at *; omega)
      rw [ageOfBit]
      by_contra isSet
      have := oldest _ (Bool.not_eq_false _ ▸ isSet)
      omega
  have offset : (outwndPos hint + fastpassOutwndLen + 2 ^ 32 -
      (outwndPos hint + fastpassOutwndLen - (w.age hint - t))) % 2 ^ 32 = w.age hint - t := by
    omega
  have earliestEq : hint + BitVec.ofNat 64 (w.age hint - t) = w.seqnoOfAge t := by
    refine @eq_of_age_eq w _ _ ?_
    rw [age_add hint (w.age hint - t) (by omega), age_seqnoOfAge w t (by omega)]
    omega
  unfold outwndEarliestUnackedHint
  simp only [found, offset, earliestEq]
  split
  · have noneOlder : outwndAtOrBefore w (w.seqnoOfAge t - 1) = .ok (-1) := by
      have ageBelow : w.age (w.seqnoOfAge t - 1) = t + 1 := by
        rw [show (1 : BitVec 64) = BitVec.ofNat 64 1 from rfl, age_sub _ 1 (by
          rw [age_seqnoOfAge w t (by omega)]; omega), age_seqnoOfAge w t (by omega)]
      refine outwndAtOrBefore_eq_notFound mirror (by omega) fun j above => ?_
      by_contra isSet
      have := oldest j (Bool.not_eq_false _ ▸ isSet)
      omega
    rw [noneOlder]
    rfl
  · rfl

/-! ## The scans over intervals of sequence numbers -/

namespace Outwnd

/-- `time_before64(seqno, next_seqno)` holds exactly for ages below `2^63`. -/
theorem timeBefore64_next_iff (seqno : BitVec 64) :
    timeBefore64 seqno w.nextSeqno = true ↔ w.age seqno < 2 ^ 63 := by
  simp only [timeBefore64, timeAfter64, age, decide_eq_true_eq]
  bv_omega

theorem age_seqnoOfAge_of_young {a : Nat} (young : a < fastpassOutwndLen) :
    w.age (w.seqnoOfAge a) = a :=
  age_seqnoOfAge w a (by rw [fastpassOutwndLen_eq] at young; omega)

theorem outwndIsUnacked_seqnoOfAge {a : Nat} (young : a < fastpassOutwndLen) :
    outwndIsUnacked w (w.seqnoOfAge a) = w.occupiedAge a := by
  rw [outwndIsUnacked_eq_occupiedAge (by rwa [age_seqnoOfAge_of_young young]),
    age_seqnoOfAge_of_young young]

/-- The distance from `s` down to an older `t` is their difference of ages. -/
theorem sub_toNat_of_age_le {s t : BitVec 64} (le : w.age s ≤ w.age t) :
    (s - t).toNat = w.age t - w.age s := by
  simp only [age] at le ⊢
  bv_omega

/--
`t` is the highest occupied sequence number from the window's oldest,
`next_seqno - W`, up to `s`.  Sequence numbers wrap, so the interval is read in
ages: from the age of `s` up to `W - 1`.
-/
def LatestOccupiedAtOrBefore (w : Outwnd) (s t : BitVec 64) : Prop :=
  w.age s ≤ w.age t ∧ w.age t < fastpassOutwndLen ∧ outwndIsUnacked w t = true ∧
    ∀ u, w.age s ≤ w.age u → w.age u < w.age t → outwndIsUnacked w u = false

/--
`t` is the smallest occupied sequence number of the window: the one of the
oldest occupied age.
-/
def EarliestOccupied (w : Outwnd) (t : BitVec 64) : Prop :=
  w.age t < fastpassOutwndLen ∧ outwndIsUnacked w t = true ∧
    ∀ u, w.age u < fastpassOutwndLen → outwndIsUnacked w u = true → w.age u ≤ w.age t

/--
With no occupied sequence number from `s` to the window's oldest, no age from
`s`'s on is occupied.
-/
theorem clearAbove_of_unacked
    {s : BitVec 64}
    (clear : ∀ u, w.age s ≤ w.age u → w.age u < fastpassOutwndLen → outwndIsUnacked w u = false) :
    ∀ j, w.age s ≤ j → w.occupiedAge j = false := by
  intro j above
  by_cases young : j < fastpassOutwndLen
  · rw [← outwndIsUnacked_seqnoOfAge young]
    exact clear _ (by rwa [age_seqnoOfAge_of_young young]) (by rwa [age_seqnoOfAge_of_young young])
  · exact occupiedAge_of_old (Nat.not_lt.mp young)

/--
The youngest occupied age at or above the age of `s` is the highest occupied
sequence number up to `s`.
-/
theorem LatestOccupiedAtOrBefore.of_youngest
    {s : BitVec 64}
    {t : Nat}
    (above : w.age s ≤ t)
    (occupied : w.occupiedAge t = true)
    (clearBetween : ∀ j, w.age s ≤ j → j < t → w.occupiedAge j = false) :
    w.LatestOccupiedAtOrBefore s (w.seqnoOfAge t) := by
  have tYoung := young_of_occupied occupied
  have ageEq := age_seqnoOfAge_of_young (w := w) tYoung
  refine ⟨by rwa [ageEq], by rwa [ageEq], (outwndIsUnacked_seqnoOfAge tYoung).trans occupied,
    fun u lower upper => ?_⟩
  rw [ageEq] at upper
  rw [outwndIsUnacked_eq_occupiedAge (by omega)]
  exact clearBetween _ lower upper

/-- The oldest occupied age is the smallest occupied sequence number. -/
theorem EarliestOccupied.of_oldest
    {t : Nat}
    (occupied : w.occupiedAge t = true)
    (oldest : ∀ j, w.occupiedAge j = true → j ≤ t) :
    w.EarliestOccupied (w.seqnoOfAge t) := by
  have tYoung := young_of_occupied occupied
  have ageEq := age_seqnoOfAge_of_young (w := w) tYoung
  refine ⟨by rwa [ageEq], (outwndIsUnacked_seqnoOfAge tYoung).trans occupied, fun u young set => ?_⟩
  rw [outwndIsUnacked_eq_occupiedAge young] at set
  rw [ageEq]
  exact oldest _ set

/--
A window whose newest sequence number is `-1` and whose one descriptor is the
packet with sequence number `-5`, in slot `5`, at age `4`.
-/
def sample : Outwnd where
  binMask i := i % fastpassOutwndLen == 5
  bins i := if i = 5 then some ⟨0, -5, 0, false, 0, []⟩ else none
  txNumUnacked := 1
  nextSeqno := 0

theorem sample_inv : sample.Inv where
  mirror i _ := by simp [sample, Nat.add_mod_right]
  occupied i small := by
    simp only [sample, Nat.mod_eq_of_lt small]
    by_cases five : i = 5 <;> simp [five]
  count := by
    have single : (Finset.range fastpassOutwndLen).filter (fun i => sample.binMask i = true) =
      {5} := by
      ext i
      simp only [sample, beq_iff_eq, Finset.mem_filter, Finset.mem_range, Finset.mem_singleton,
        fastpassOutwndLen_eq]
      omega
    rw [lowPopcount, single]
    rfl
  seqno i _ pd held := by
    simp only [sample] at held
    split at held
    · cases held
      subst i
      decide
    · cases held

/-- The one occupied age of the sample window is `4`. -/
theorem sample_occupiedAge {a : Nat} (occupied : sample.occupiedAge a = true) : a = 4 := by
  have headEq : sample.head = 1 := by decide
  rw [occupiedAge, slot, headEq] at occupied
  simp only [sample, Bool.and_eq_true, decide_eq_true_eq, beq_iff_eq, Nat.mod_mod,
    fastpassOutwndLen_eq] at occupied
  omega

end Outwnd

/--
`outwnd_at_or_before` on a mirrored mask, from a sequence number `s` before
`next_seqno`.  Its `find_next_bit` scans bits from `seqno_index` up to
`head_index + W`, all inside the doubled mask.  It never fails its `BUG_ON`s.
It returns `-1` when `s` lies before the window or no sequence number from the
window's oldest up to `s` is occupied, and otherwise `s - t` for the highest
occupied `t` up to `s`.
-/
theorem outwndAtOrBefore_spec
    (mirror : w.Mirrored)
    {s : BitVec 64}
    (before : timeBefore64 s w.nextSeqno = true) :
    (outwndPos (w.nextSeqno - 1) + outwndPos (s - (w.nextSeqno - 1)) <
        outwndPos (w.nextSeqno - 1) + fastpassOutwndLen ∧
      outwndPos (w.nextSeqno - 1) + fastpassOutwndLen ≤ 2 * fastpassOutwndLen) ∧
    (∃ gap, outwndAtOrBefore w s = .ok gap) ∧
    ((timeBefore64 s (w.nextSeqno - outwndLen64) = true ∨
        ∀ u, w.age s ≤ w.age u → w.age u < fastpassOutwndLen → outwndIsUnacked w u = false) →
      outwndAtOrBefore w s = .ok (-1)) ∧
    ((∃ u, w.age s ≤ w.age u ∧ w.age u < fastpassOutwndLen ∧ outwndIsUnacked w u = true) →
      ∃ t, w.LatestOccupiedAtOrBefore s t ∧ outwndAtOrBefore w s = .ok ((s - t).toNat : Int)) := by
  have notBug := (timeBefore64_next_iff s).mp before
  have range : outwndPos (w.nextSeqno - 1) + outwndPos (s - (w.nextSeqno - 1)) <
        outwndPos (w.nextSeqno - 1) + fastpassOutwndLen ∧
      outwndPos (w.nextSeqno - 1) + fastpassOutwndLen ≤ 2 * fastpassOutwndLen := by
    have := outwndPos_lt (s - (w.nextSeqno - 1))
    have := outwndPos_lt (w.nextSeqno - 1)
    omega
  rcases w.youngest_occupied_or_none (w.age s) with ⟨t, above, occupied, clearBetween⟩ | clearAbove
  · -- the scan finds the youngest occupied age `t` at or above the age of `s`
    have tYoung := young_of_occupied occupied
    have latest := LatestOccupiedAtOrBefore.of_youngest above occupied clearBetween
    have found : outwndAtOrBefore w s = .ok ((s - w.seqnoOfAge t).toNat : Int) := by
      rw [outwndAtOrBefore_eq_found mirror above occupied clearBetween,
        sub_toNat_of_age_le latest.1, age_seqnoOfAge_of_young tYoung]
    refine ⟨range, ⟨_, found⟩, fun noneFound => absurd occupied ?_, fun _ => ⟨_, latest, found⟩⟩
    rcases noneFound with older | clear
    · rw [occupiedAge_of_old (le_trans ((timeBefore64_edge_iff notBug).mp older) above)]
      decide
    · rw [clearAbove_of_unacked clear t above]
      decide
  · -- nothing is occupied from the age of `s` on
    have notFound := outwndAtOrBefore_eq_notFound mirror notBug clearAbove
    refine ⟨range, ⟨_, notFound⟩, fun _ => notFound, fun ⟨u, lower, young, set⟩ => ?_⟩
    rw [outwndIsUnacked_eq_occupiedAge young, clearAbove _ lower] at set
    cases set

theorem outwndAtOrBefore_spec_sample : ∃ gap, outwndAtOrBefore Outwnd.sample (-1) = .ok gap :=
  (outwndAtOrBefore_spec Outwnd.sample_inv.mirrored (by decide)).2.1

/--
From a hint inside the window with nothing occupied before it and something
occupied at or after it, the backward scan finds the smallest occupied
sequence number.
-/
theorem outwndEarliestUnackedHint_of_hint
    (inv : w.Inv)
    {hint : BitVec 64}
    (inside : w.age hint < fastpassOutwndLen)
    (noneBefore : ∀ u, w.age hint < w.age u → w.age u < fastpassOutwndLen →
      outwndIsUnacked w u = false)
    (someAfter : ∃ u, w.age u ≤ w.age hint ∧ outwndIsUnacked w u = true) :
    ∃ t, outwndEarliestUnackedHint w hint = .ok t ∧ w.EarliestOccupied t := by
  obtain ⟨u, atOrAfter, set⟩ := someAfter
  rw [outwndIsUnacked_eq_occupiedAge (by omega)] at set
  rcases w.oldest_occupied_or_none with ⟨t, occupied, oldest⟩ | free
  · -- the oldest occupied age is not older than the hint
    have tYoung := young_of_occupied occupied
    have belowHint : t ≤ w.age hint := Nat.not_lt.mp fun older => by
      have clear := noneBefore (w.seqnoOfAge t) (by rwa [age_seqnoOfAge_of_young tYoung])
        (by rwa [age_seqnoOfAge_of_young tYoung])
      rw [outwndIsUnacked_seqnoOfAge tYoung, occupied] at clear
      cases clear
    exact ⟨_, outwndEarliestUnackedHint_eq inv.mirrored inside belowHint occupied oldest,
      EarliestOccupied.of_oldest occupied oldest⟩
  · rw [free] at set
    cases set

/--
`outwnd_earliest_unacked_hint`, on a window with the invariant, from a hint
inside the window with nothing occupied before it and something occupied at
or after it: its `find_last_bit` reads bits below `hint_pos + W + 1`, inside
the doubled mask, its `BUG_ON` never fires, and it returns the smallest
occupied sequence number.  So does `outwnd_earliest_unacked` on every window
with something occupied.
-/
theorem outwndEarliestUnackedHint_spec (inv : w.Inv) :
    (∀ hint, w.age hint < fastpassOutwndLen →
      (∀ u, w.age hint < w.age u → w.age u < fastpassOutwndLen → outwndIsUnacked w u = false) →
      (∃ u, w.age u ≤ w.age hint ∧ outwndIsUnacked w u = true) →
      outwndPos hint + fastpassOutwndLen + 1 ≤ 2 * fastpassOutwndLen ∧
        ∃ t, outwndEarliestUnackedHint w hint = .ok t ∧ w.EarliestOccupied t) ∧
    ((∃ u, w.age u < fastpassOutwndLen ∧ outwndIsUnacked w u = true) →
      ∃ t, outwndEarliestUnacked w = .ok t ∧ w.EarliestOccupied t) := by
  have edgeAge := w.age_edge
  refine ⟨fun hint inside noneBefore someAfter =>
    ⟨by have := outwndPos_lt hint; omega,
      outwndEarliestUnackedHint_of_hint inv inside noneBefore someAfter⟩,
    fun ⟨u, young, set⟩ => ?_⟩
  -- `outwnd_earliest_unacked` scans from the window's oldest sequence number
  exact outwndEarliestUnackedHint_of_hint inv
    (by omega) (fun v older young => by omega) ⟨u, by omega, set⟩

theorem outwndEarliestUnackedHint_spec_sample :
    ∃ t, outwndEarliestUnacked Outwnd.sample = .ok t ∧ Outwnd.sample.EarliestOccupied t :=
  (outwndEarliestUnackedHint_spec Outwnd.sample_inv).2 ⟨-5, by decide, by decide⟩

end Fastpass
