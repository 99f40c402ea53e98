import Fastpass.Timer
import Mathlib.Algebra.Order.Ring.Nat

namespace Fastpass

/-!
# Processing an ACK payload

`fpproto_handle_ack` reconstructs the full sequence number an ACK payload
carries in 16 bits, acknowledges it, and then walks the run-length word: after
its first nibble is shifted out, each nibble is the length of a run of
sequence numbers going down from there, alternately not acknowledged and
acknowledged.  The source is two `goto` loops.  `do_next_positive` moves to the
next positive run; `do_next_unacked` finds the next occupied sequence number
with `outwnd_at_or_before` and acknowledges it while it lies inside the run.

The inner loop is a recursion on the low popcount, which every
acknowledgement lowers; the outer loop is a recursion on the number of
positive runs a 32-bit word can still hold.  The specification works in ages.
The inner loop acknowledges the occupied ages of one interval
(`doNextUnacked_spec`), the outer loop those of every positive run of the word
(`doNextPositive_spec`), and `fpprotoHandleAck_spec` restates the whole in
terms of the run boundaries `b_k` the payload encodes.
-/

/-- How the `do_next_unacked` loop is left. -/
inductive AckExit where
  /-- `goto done`: `outwnd_at_or_before` found nothing at or below the cursor. -/
  | done
  /-- The occupied sequence number found lies at or below the end of the run. -/
  | runFinished
  deriving DecidableEq, Repr

/--
The `do_next_unacked` loop: acknowledge the occupied sequence numbers from
`curSeqno` down while they lie above `endSeqno`, counting them in `nAcked`.
-/
def doNextUnacked (st : Session) (curSeqno endSeqno : BitVec 64) (nAcked : Nat) :
    Except Crash (Session × Nat × AckExit) :=
  match outwndAtOrBefore st.wnd curSeqno with
  | .error e => .error e
  | .ok nextUnacked =>
    if nextUnacked = -1 then
      .ok (st, nAcked, .done)
    else
      let curSeqno := curSeqno - BitVec.ofInt 64 nextUnacked
      if timeAfter64 curSeqno endSeqno then
        match acked : doAckSeqno st curSeqno with
        | .error e => .error e
        | .ok st' => doNextUnacked st' curSeqno endSeqno (nAcked + 1)
      else
        .ok (st, nAcked, .runFinished)
termination_by st.wnd.lowPopcount
decreasing_by exact doAckSeqno_lowPopcount acked

/--
The `do_next_positive` loop: take the next positive run off the top of
`ackRunlen`, acknowledge it, and go on while run-length bits remain.  `runs`
bounds the positive runs left: once its first nibble is shifted out, a 32-bit
word holds at most four.
-/
def doNextPositive : (runs : Nat) → (st : Session) → (endSeqno : BitVec 64) →
    (ackRunlen : BitVec 32) → (nAcked : Nat) → Except Crash (Session × Nat)
  | 0, st, _, _, nAcked => .ok (st, nAcked)
  | runs + 1, st, endSeqno, ackRunlen, nAcked =>
    let curSeqno := endSeqno
    let endSeqno := endSeqno - (ackRunlen >>> 28).setWidth 64
    let ackRunlen := ackRunlen <<< 4
    match doNextUnacked st curSeqno endSeqno nAcked with
    | .error e => .error e
    | .ok (st, nAcked, .done) => .ok (st, nAcked)
    | .ok (st, nAcked, .runFinished) =>
      if ackRunlen ≠ 0 then
        doNextPositive runs st (endSeqno - (ackRunlen >>> 28).setWidth 64) (ackRunlen <<< 4) nAcked
      else
        .ok (st, nAcked)

/-- The full sequence number `fpproto_handle_ack` reconstructs from `ack_seq`. -/
def ackCurSeqno (nextSeqno : BitVec 64) (ackSeq : BitVec 16) : BitVec 64 :=
  let curSeqno := nextSeqno - BitVec.ofNat 64 (1 <<< 16)
  curSeqno + ((ackSeq.setWidth 64 - curSeqno) &&& 0xFFFF)

/-- `fpproto_handle_ack`. -/
def fpprotoHandleAck (st : Session) (ackSeq : BitVec 16) (ackRunlen : BitVec 32) :
    Except Crash Session := do
  let curSeqno := ackCurSeqno st.wnd.nextSeqno ackSeq
  if timeBefore64 curSeqno (st.wnd.nextSeqno - outwndLen64) then
    return { st with stats := { st.stats with tooEarlyAck := st.stats.tooEarlyAck + 1 } }
  let (st, nAcked) ← if outwndIsUnacked st.wnd curSeqno then do
      let st ← doAckSeqno st curSeqno
      pure (st, 1)
    else
      pure (st, 0)
  let endSeqno := curSeqno - 1
  let (st, nAcked) ← doNextPositive 4 st endSeqno (ackRunlen <<< 4) nAcked
  if nAcked > 0 then cancelAndResetRetransTimer st else pure st

/-! ## The run boundaries of an ACK payload -/

/-- The nibble `n_k` of the run-length word, most significant first. -/
def runNibble (ackRunlen : BitVec 32) (k : Nat) : Nat :=
  ackRunlen.toNat / 2 ^ (4 * (7 - k)) % 16

/-- `c - b_k`, with `b_0 = c - 1` and `b_k = b_(k-1) - n_k`. -/
def runBoundary (ackRunlen : BitVec 32) (k : Nat) : Nat :=
  1 + ((List.range k).map fun j => runNibble ackRunlen (j + 1)).sum

/--
Whether the sequence number `offset` below the carried one `c` lies in
`A = {c} ∪ (b_1, b_0] ∪ (b_3, b_2] ∪ (b_5, b_4] ∪ (b_7, b_6]`.
-/
def ackRunsContain (ackRunlen : BitVec 32) (offset : Nat) : Bool :=
  offset == 0 || [0, 2, 4, 6].any fun k =>
    decide (runBoundary ackRunlen k ≤ offset) && decide (offset < runBoundary ackRunlen (k + 1))

/-- Whether `b` lies in one of the intervals `[lo, hi)`. -/
def inRuns (runs : List (Nat × Nat)) (b : Nat) : Bool :=
  runs.any fun run => decide (run.1 ≤ b) && decide (b < run.2)

/--
The positive runs `do_next_positive` walks from age `start` on, as intervals
of ages, for a word whose top nibble is the next positive run.
-/
def positiveRuns : (runs : Nat) → (start : Nat) → (ackRunlen : BitVec 32) → List (Nat × Nat)
  | 0, _, _ => []
  | runs + 1, start, ackRunlen =>
    let stop := start + (ackRunlen >>> 28).toNat
    (start, stop) ::
      positiveRuns runs (stop + (ackRunlen <<< 4 >>> 28).toNat) (ackRunlen <<< 4 <<< 4)

theorem shiftLeft_shiftLeft_four (r : BitVec 32) (n : Nat) : r <<< n <<< 4 = r <<< (n + 4) := by
  rw [BitVec.shiftLeft_add]

/-- The top nibble of the word shifted by `4 k` is `n_k`. -/
theorem topNibble_shiftLeft (r : BitVec 32) (k : Nat) (small : k < 8) :
    ((r <<< (4 * k)) >>> 28).toNat = runNibble r k := by
  simp only [BitVec.toNat_ushiftRight, BitVec.toNat_shiftLeft, Nat.shiftLeft_eq,
    Nat.shiftRight_eq_div_pow, runNibble]
  -- the shift by `4 k` moves nibble `k` to the top; everything above it falls off the word
  have word : 2 ^ 32 = 2 ^ (4 * (7 - k)) * 2 ^ 4 * 2 ^ (4 * k) := by
    rw [← Nat.pow_add, ← Nat.pow_add]; congr 1; omega
  have top : 2 ^ 28 = 2 ^ (4 * (7 - k)) * 2 ^ (4 * k) := by
    rw [← Nat.pow_add]; congr 1; omega
  rw [word, top, Nat.mul_mod_mul_right, Nat.mul_div_mul_right _ _ (Nat.two_pow_pos _),
    Nat.mod_mul_right_div_self]
  rfl

/--
From the age after the carried one, the positive runs are `[c - b_k, c -
b_(k+1))` for even `k`.
-/
theorem positiveRuns_four (r : BitVec 32) :
    positiveRuns 4 1 (r <<< 4) =
      [0, 2, 4, 6].map fun k => (runBoundary r k, runBoundary r (k + 1)) := by
  have n1 := topNibble_shiftLeft r 1 (by decide)
  have n2 := topNibble_shiftLeft r 2 (by decide)
  have n3 := topNibble_shiftLeft r 3 (by decide)
  have n4 := topNibble_shiftLeft r 4 (by decide)
  have n5 := topNibble_shiftLeft r 5 (by decide)
  have n6 := topNibble_shiftLeft r 6 (by decide)
  have n7 := topNibble_shiftLeft r 7 (by decide)
  simp only [Nat.reduceMul] at n1 n2 n3 n4 n5 n6 n7
  simp only [positiveRuns, shiftLeft_shiftLeft_four, Nat.reduceAdd, n1, n2, n3, n4, n5, n6, n7,
    runBoundary, List.range_succ, List.range_zero, List.map_append, List.map_cons, List.map_nil,
    List.sum_append, List.sum_cons, List.sum_nil, List.nil_append, List.cons.injEq,
    Prod.mk.injEq, true_and, Nat.add_zero, Nat.zero_add, and_true]
  omega

/-- Moving the start of the walk moves every run with it. -/
theorem positiveRuns_add (ac : Nat) :
    ∀ (runs start : Nat) (r : BitVec 32), positiveRuns runs (ac + start) r =
      (positiveRuns runs start r).map fun run => (ac + run.1, ac + run.2)
  | 0, _, _ => rfl
  | runs + 1, start, r => by
    simp only [positiveRuns, List.map_cons, Nat.add_assoc]
    rw [positiveRuns_add ac runs]

theorem inRuns_map_add {ac b : Nat} (le : ac ≤ b) (runs : List (Nat × Nat)) :
    inRuns (runs.map fun run => (ac + run.1, ac + run.2)) b = inRuns runs (b - ac) := by
  induction runs with
  | nil => rfl
  | cons run runs inductionHypothesis =>
    simp only [inRuns, List.map_cons, List.any_cons] at inductionHypothesis ⊢
    rw [inductionHypothesis]
    congr 1
    rw [Bool.eq_iff_iff]
    simp only [Bool.and_eq_true, decide_eq_true_eq]
    omega

/-- Every run of the walk starts at or after its start. -/
theorem positiveRuns_start_le :
    ∀ (runs start : Nat) (r : BitVec 32), ∀ run ∈ positiveRuns runs start r, start ≤ run.1
  | 0, _, _, _, member => by simp [positiveRuns] at member
  | runs + 1, start, r, run, member => by
    simp only [positiveRuns, List.mem_cons] at member
    rcases member with first | later
    · rw [first]
    · have := positiveRuns_start_le runs _ _ run later
      omega

/-- A word with no bits left describes no sequence number. -/
theorem inRuns_positiveRuns_zero :
    ∀ (runs start b : Nat) (r : BitVec 32), r = 0 → inRuns (positiveRuns runs start r) b = false
  | 0, _, _, _, _ => rfl
  | runs + 1, start, b, r, zero => by
    subst zero
    have top : ((0 : BitVec 32) >>> 28).toNat = 0 := rfl
    have top' : ((0 : BitVec 32) <<< 4 >>> 28).toNat = 0 := rfl
    simp only [inRuns, positiveRuns, List.any_cons, top, top', Nat.add_zero]
    rw [← inRuns, inRuns_positiveRuns_zero runs start b ((0 : BitVec 32) <<< 4 <<< 4) rfl]
    simp

/-- An age before the start of the walk lies in none of its runs. -/
theorem inRuns_of_lt {runs start b : Nat} {r : BitVec 32} (lt : b < start) :
    inRuns (positiveRuns runs start r) b = false := by
  simp only [inRuns, List.any_eq_false, Bool.and_eq_true, decide_eq_true_eq, not_and]
  intro run member lower
  have := positiveRuns_start_le runs start r run member
  omega

/-- The set `A`, read from the age of `c` on, is `c` and the positive runs the loops walk. -/
theorem ackRunsContain_eq_inRuns (r : BitVec 32) {ac b : Nat} (le : ac ≤ b) :
    ackRunsContain r (b - ac) = (b == ac || inRuns (positiveRuns 4 (ac + 1) (r <<< 4)) b) := by
  rw [positiveRuns_add ac 4 1, inRuns_map_add (by omega), positiveRuns_four, ackRunsContain]
  simp only [inRuns, List.map_cons, List.map_nil, List.any_cons, List.any_nil]
  congr 1
  rw [Bool.eq_iff_iff]
  simp only [beq_iff_eq]
  omega

theorem runBoundary_succ (r : BitVec 32) (k : Nat) :
    runBoundary r (k + 1) = runBoundary r k + runNibble r (k + 1) := by
  simp only [runBoundary, List.range_succ, List.map_append, List.map_cons, List.map_nil,
    List.sum_append, List.sum_cons, List.sum_nil]
  omega

/-- Each run is at most fifteen sequence numbers long. -/
theorem runBoundary_le (r : BitVec 32) : ∀ k, runBoundary r k ≤ 1 + 15 * k
  | 0 => by simp [runBoundary]
  | k + 1 => by
    have before := runBoundary_le r k
    have nibbleSmall : runNibble r (k + 1) < 16 := Nat.mod_lt _ (by decide)
    rw [runBoundary_succ]
    omega

/-- `A` reaches at most `106` sequence numbers below `c`. -/
theorem ackRunsContain_le
    {r : BitVec 32}
    {offset : Nat}
    (contains : ackRunsContain r offset = true) :
    offset ≤ 106 := by
  simp only [ackRunsContain, List.any_cons, List.any_nil, Bool.or_false, Bool.or_eq_true,
    Bool.and_eq_true, decide_eq_true_eq, beq_iff_eq, Nat.reduceAdd] at contains
  have := runBoundary_le r 7
  have := runBoundary_le r 5
  have := runBoundary_le r 3
  have := runBoundary_le r 1
  omega

/-! ## The loops -/

open Outwnd

namespace Outwnd

/-- Below age `2^63`, `time_after64` compares ages the other way round. -/
theorem timeAfter64_iff_age_lt
    {w : Outwnd}
    {s e : BitVec 64}
    (smallS : w.age s < 2 ^ 63)
    (smallE : w.age e < 2 ^ 63) :
    timeAfter64 s e = true ↔ w.age s < w.age e := by
  simp only [timeAfter64, age, decide_eq_true_eq] at *
  bv_omega

theorem topNibble_lt (r : BitVec 32) : (r >>> 28).toNat < 16 := by
  simp only [BitVec.toNat_ushiftRight, Nat.shiftRight_eq_div_pow]
  omega

/-- Subtracting the top nibble of a word steps the cursor down by it. -/
theorem age_sub_topNibble {w : Outwnd} (s : BitVec 64) (r : BitVec 32) (fits : w.age s < 2 ^ 62) :
    w.age (s - (r >>> 28).setWidth 64) = w.age s + (r >>> 28).toNat := by
  have top := topNibble_lt r
  have widened : (r >>> 28).setWidth 64 = BitVec.ofNat 64 (r >>> 28).toNat := by
    apply BitVec.eq_of_toNat_eq
    simp
  rw [widened, age_sub s _ (by omega)]

end Outwnd

theorem Session.popAges_append
    (release : Ops → Option Pktdesc → Event)
    (st : Session)
    (first second : List Nat) :
    st.popAges release (first ++ second) = (st.popAges release first).popAges release second :=
  List.foldl_append _ _ _ _

/--
The inner loop, from a cursor of age `a` to a run end of age `e`, acknowledges
the occupied ages in `[a, e)` and reports whether an occupied age remains
from `e` on.
-/
theorem doNextUnacked_spec :
    ∀ (n : Nat) {st : Session}, st.wnd.lowPopcount = n → st.wnd.Inv →
      ∀ (curSeqno endSeqno : BitVec 64) (nAcked : Nat),
        st.wnd.age curSeqno ≤ st.wnd.age endSeqno → st.wnd.age endSeqno < 2 ^ 62 →
        doNextUnacked st curSeqno endSeqno nAcked =
          .ok (st.popAges ackRelease (st.wnd.occupiedBetween (st.wnd.age curSeqno)
            (st.wnd.age endSeqno)),
            nAcked + (st.wnd.occupiedBetween (st.wnd.age curSeqno) (st.wnd.age endSeqno)).length,
            if st.wnd.occupiedFrom (st.wnd.age endSeqno) = [] then .done else .runFinished) := by
  intro n
  induction n using Nat.strong_induction_on with
  | _ n inductionHypothesis =>
    intro st popcount inv curSeqno endSeqno nAcked cursorBelow endSmall
    rw [doNextUnacked]
    rcases st.wnd.youngest_occupied_or_none (st.wnd.age curSeqno) with
      ⟨t, above, tOccupied, clearBetween⟩ | clearAbove
    · -- the scan finds the youngest occupied age `t` at or above the cursor
      have tYoung := young_of_occupied tOccupied
      have lenEq := fastpassOutwndLen_eq
      have skipped : st.wnd.occupiedFrom (st.wnd.age curSeqno) =
        t :: st.wnd.occupiedFrom (t + 1) := by
        rw [occupiedFrom_skip above clearBetween, occupiedFrom_of_occupied tOccupied]
      rw [outwndAtOrBefore_eq_found inv.mirrored above tOccupied clearBetween]
      have notMinusOne : ((t - st.wnd.age curSeqno : Nat) : Int) ≠ -1 := by omega
      simp only [notMinusOne, ↓reduceIte]
      set found := curSeqno - BitVec.ofInt 64 ((t - st.wnd.age curSeqno : Nat) : Int)
      have foundAge : st.wnd.age found = t := age_sub_gap above tYoung
      by_cases inRun : t < st.wnd.age endSeqno
      · -- `t` lies inside the run: acknowledge it and continue
        have after : timeAfter64 found endSeqno = true :=
          (timeAfter64_iff_age_lt (w := st.wnd) (by omega) (by omega)).mpr (by omega)
        have acked := @doAckSeqno_of_occupied st found (by rw [foundAge]; exact tOccupied)
        rw [foundAge] at acked
        have smaller := doAckSeqno_lowPopcount acked
        rw [if_pos after, acked]
        dsimp only
        rw [@inductionHypothesis _ (by omega) (st.popAge ackRelease t) rfl
          (clearSlot_inv inv tOccupied) found endSeqno
          (nAcked + 1) (by simp only [Session.popAge_wnd, clearSlot_age]; omega)
          (by simp only [Session.popAge_wnd, clearSlot_age]; omega)]
        simp only [Session.popAge_wnd, clearSlot_age, foundAge, occupiedBetween,
          occupiedFrom_clearSlot_self tYoung, occupiedFrom_clearSlot_of_lt tYoung inRun, skipped]
        rw [List.filter_cons_of_pos (by simpa using inRun), List.length_cons, Session.popAges_cons,
          Nat.add_right_comm, Nat.add_assoc]
      · -- `t` lies at or beyond the end of the run: the run is finished
        have notAfter : timeAfter64 found endSeqno = false := by
          rw [Bool.eq_false_iff, ne_eq, timeAfter64_iff_age_lt (w := st.wnd) (by omega) (by omega)]
          omega
        have noneInRun : st.wnd.occupiedBetween (st.wnd.age curSeqno) (st.wnd.age endSeqno) = [] :=
          List.filter_eq_nil_iff.mpr fun b member => by
            have ⟨lower, occupied⟩ := mem_occupiedFrom.mp member
            have : t ≤ b := Nat.not_lt.mp fun lt => by
              rw [clearBetween b lower lt] at occupied
              cases occupied
            simp only [decide_eq_true_eq]
            omega
        have remaining : st.wnd.occupiedFrom (st.wnd.age endSeqno) ≠ [] :=
          List.ne_nil_of_mem (mem_occupiedFrom.mpr ⟨by omega, tOccupied⟩)
        rw [if_neg (by rw [notAfter]; decide), noneInRun, if_neg remaining]
        rfl
    · -- nothing is occupied from the cursor on: the scan reports `-1`
      rw [outwndAtOrBefore_eq_notFound inv.mirrored (by omega) clearAbove]
      have noneInRun : st.wnd.occupiedBetween (st.wnd.age curSeqno) (st.wnd.age endSeqno) = [] := by
        simp [occupiedBetween, occupiedFrom_eq_nil clearAbove]
      have noneAfter : st.wnd.occupiedFrom (st.wnd.age endSeqno) = [] :=
        occupiedFrom_eq_nil fun j lower => clearAbove j (by omega)
      simp only [↓reduceIte, noneInRun, noneAfter]
      rfl

/--
The outer loop, from a run end of age `a`, acknowledges the occupied ages that
lie in the positive runs the word describes from `a` on, youngest first.
-/
theorem doNextPositive_spec :
    ∀ (runs : Nat) {st : Session}, st.wnd.Inv →
      ∀ (endSeqno : BitVec 64) (ackRunlen : BitVec 32) (nAcked : Nat),
        st.wnd.age endSeqno + 32 * runs < 2 ^ 62 →
        doNextPositive runs st endSeqno ackRunlen nAcked =
          .ok (st.popAges ackRelease ((st.wnd.occupiedFrom (st.wnd.age endSeqno)).filter
              (inRuns (positiveRuns runs (st.wnd.age endSeqno) ackRunlen))),
            nAcked + ((st.wnd.occupiedFrom (st.wnd.age endSeqno)).filter
              (inRuns (positiveRuns runs (st.wnd.age endSeqno) ackRunlen))).length)
  | 0, st, _, _, _, _, _ => by
    simp only [doNextPositive, positiveRuns, show inRuns [] = fun _ => false from rfl,
      List.filter_false, Session.popAges, List.foldl_nil, List.length_nil, Nat.add_zero]
  | runs + 1, st, inv, endSeqno, ackRunlen, nAcked, small => by
    -- the run is `[a, a + top1)`; the next one starts at `a + top1 + top2`
    obtain ⟨top1, top1Eq⟩ : ∃ k, (ackRunlen >>> 28).toNat = k := ⟨_, rfl⟩
    obtain ⟨top2, top2Eq⟩ : ∃ k, (ackRunlen <<< 4 >>> 28).toNat = k := ⟨_, rfl⟩
    have top1Small : top1 < 16 := top1Eq ▸ topNibble_lt ackRunlen
    have top2Small : top2 < 16 := top2Eq ▸ topNibble_lt (ackRunlen <<< 4)
    have runEnd : st.wnd.age (endSeqno - (ackRunlen >>> 28).setWidth 64) =
        st.wnd.age endSeqno + top1 := by
      rw [age_sub_topNibble endSeqno ackRunlen (by omega), top1Eq]
    have nextEnd : st.wnd.age (endSeqno - (ackRunlen >>> 28).setWidth 64 -
        (ackRunlen <<< 4 >>> 28).setWidth 64) = st.wnd.age endSeqno + top1 + top2 := by
      rw [age_sub_topNibble _ (ackRunlen <<< 4) (by omega), runEnd, top2Eq]
    have runsEq : ∀ b, inRuns (positiveRuns (runs + 1) (st.wnd.age endSeqno) ackRunlen) b =
        ((decide (st.wnd.age endSeqno ≤ b) && decide (b < st.wnd.age endSeqno + top1)) ||
          inRuns (positiveRuns runs (st.wnd.age endSeqno + top1 + top2) (ackRunlen <<< 4 <<< 4))
            b) := by
      intro b
      simp only [positiveRuns, inRuns, List.any_cons, top1Eq, top2Eq]
    have firstRun : ∀ b, st.wnd.age endSeqno ≤ b → b < st.wnd.age endSeqno + top1 →
        inRuns (positiveRuns (runs + 1) (st.wnd.age endSeqno) ackRunlen) b = true := by
      intro b lower upper
      simp [runsEq, lower, upper]
    rw [doNextPositive]
    rw [doNextUnacked_spec _ rfl inv endSeqno _ nAcked (by omega) (by omega), runEnd]
    by_cases finished : st.wnd.occupiedFrom (st.wnd.age endSeqno + top1) = []
    · -- nothing is occupied from the end of this run on
      have same : (st.wnd.occupiedFrom (st.wnd.age endSeqno)).filter
          (inRuns (positiveRuns (runs + 1) (st.wnd.age endSeqno) ackRunlen)) =
          st.wnd.occupiedBetween (st.wnd.age endSeqno) (st.wnd.age endSeqno + top1) := by
        refine List.filter_congr fun b member => ?_
        have ⟨lower, occupied⟩ := mem_occupiedFrom.mp member
        have upper : b < st.wnd.age endSeqno + top1 := Nat.not_le.mp fun le =>
          List.not_mem_nil b (finished ▸ mem_occupiedFrom.mpr ⟨le, occupied⟩)
        simp [firstRun b lower upper, upper]
      simp only [finished, ↓reduceIte, same]
    · -- the run is finished: the rest of the word describes the later runs
      have rest : (st.wnd.occupiedFrom (st.wnd.age endSeqno)).filter
          (inRuns (positiveRuns (runs + 1) (st.wnd.age endSeqno) ackRunlen)) =
          st.wnd.occupiedBetween (st.wnd.age endSeqno) (st.wnd.age endSeqno + top1) ++
            (st.wnd.occupiedFrom (st.wnd.age endSeqno + top1 + top2)).filter
              (inRuns (positiveRuns runs (st.wnd.age endSeqno + top1 + top2)
                (ackRunlen <<< 4 <<< 4))) := by
        rw [occupiedFrom_split (show st.wnd.age endSeqno ≤ st.wnd.age endSeqno + top1 by omega),
          occupiedFrom_split
            (show st.wnd.age endSeqno + top1 ≤ st.wnd.age endSeqno + top1 + top2 by omega),
          List.filter_append, List.filter_append]
        refine congrArg₂ (· ++ ·) ?_ ?_
        · exact List.filter_eq_self.mpr fun b member => by
            have ⟨lower, upper, _⟩ := mem_occupiedBetween.mp member
            exact firstRun b lower upper
        · rw [List.filter_eq_nil_iff.mpr fun b member => by
              have ⟨lower, upper, _⟩ := mem_occupiedBetween.mp member
              simp [runsEq, inRuns_of_lt upper, show ¬ b < st.wnd.age endSeqno + top1 by omega],
            List.nil_append]
          exact List.filter_congr fun b member => by
            have lower := (mem_occupiedFrom.mp member).1
            simp [runsEq, show ¬ b < st.wnd.age endSeqno + top1 by omega]
      obtain ⟨wnd', popped, shape⟩ := Session.popAges_spec ackRelease
        (st.wnd.occupiedBetween (st.wnd.age endSeqno) (st.wnd.age endSeqno + top1)) inv
        ((occupiedFrom_nodup st.wnd _).filter _) fun b member => (mem_occupiedBetween.mp member).2.2
      have sameAge : ∀ s, (st.popAges ackRelease
          (st.wnd.occupiedBetween (st.wnd.age endSeqno) (st.wnd.age endSeqno + top1))).wnd.age s =
          st.wnd.age s := fun s => by rw [shape]; exact age_congr popped.nextSeqno s
      have poppedInv : (st.popAges ackRelease
          (st.wnd.occupiedBetween (st.wnd.age endSeqno) (st.wnd.age endSeqno + top1))).wnd.Inv := by
        rw [shape]
        exact popped.inv
      simp only [finished, ↓reduceIte]
      by_cases zero : ackRunlen <<< 4 = 0
      · -- no run-length bits remain: the later runs are empty
        have noLater : inRuns (positiveRuns runs (st.wnd.age endSeqno + top1 + top2)
            (ackRunlen <<< 4 <<< 4)) = fun _ => false :=
          funext fun b => inRuns_positiveRuns_zero runs _ b _ (by rw [zero]; rfl)
        rw [if_neg (not_not.mpr zero), rest]
        simp only [noLater, List.filter_false, List.append_nil]
      · have sameFrom : (st.popAges ackRelease (st.wnd.occupiedBetween (st.wnd.age endSeqno)
            (st.wnd.age endSeqno + top1))).wnd.occupiedFrom (st.wnd.age endSeqno + top1 + top2) =
            st.wnd.occupiedFrom (st.wnd.age endSeqno + top1 + top2) := by
          rw [shape]
          exact popped.occupiedFrom_eq fun b member => by
            have := (mem_occupiedBetween.mp member).2.1
            omega
        rw [if_pos zero, doNextPositive_spec runs poppedInv _ _ _ (by rw [sameAge, nextEnd]; omega),
          sameAge, nextEnd, sameFrom, rest, Session.popAges_append, List.length_append,
          Nat.add_assoc nAcked]

/-! ## The whole handler -/

/--
The reconstructed sequence number is the one of age below `2^16` with the
payload's low 16 bits; in particular every sequence number in the window is
reconstructed from its own low 16 bits.
-/
theorem ackCurSeqno_spec (w : Outwnd) (ackSeq : BitVec 16) :
    w.age (ackCurSeqno w.nextSeqno ackSeq) < 2 ^ 16 ∧
      (ackCurSeqno w.nextSeqno ackSeq).setWidth 16 = ackSeq ∧
      ∀ s, w.age s < 2 ^ 16 → s.setWidth 16 = ackSeq → s = ackCurSeqno w.nextSeqno ackSeq := by
  have mask : ∀ x : BitVec 64, (x &&& 0xFFFF).toNat = x.toNat % 2 ^ 16 := fun x => by
    rw [BitVec.toNat_and, show (0xFFFF : BitVec 64).toNat = 2 ^ 16 - 1 from rfl,
      Nat.and_pow_two_sub_one_eq_mod]
  have seqSmall := ackSeq.isLt
  have lowBits := mask (ackSeq.setWidth 64 - (w.nextSeqno - BitVec.ofNat 64 (1 <<< 16)))
  simp only [ackCurSeqno, age]
  refine ⟨by bv_omega, ?_, fun s sAge sLow => ?_⟩
  · apply BitVec.eq_of_toNat_eq
    simp only [BitVec.toNat_setWidth]
    bv_omega
  · have low := congrArg BitVec.toNat sLow
    simp only [BitVec.toNat_setWidth] at low
    bv_omega

namespace Outwnd

/-- The distance below `c` of an age at or above `c`'s. -/
theorem sub_seqnoOfAge_of_le
    {w : Outwnd}
    {c : BitVec 64}
    {a : Nat}
    (le : w.age c ≤ a)
    (small : a < 2 ^ 63) :
    (c - w.seqnoOfAge a).toNat = a - w.age c := by
  have ageEq := age_seqnoOfAge w a (by omega)
  rw [sub_toNat_of_age_le (by rw [ageEq]; exact le), ageEq]

/-- A sequence number above `c` lies far out of reach below it. -/
theorem sub_seqnoOfAge_of_lt
    {w : Outwnd}
    {c : BitVec 64}
    {a : Nat}
    (lt : a < w.age c)
    (small : w.age c < 2 ^ 63) :
    2 ^ 63 ≤ (c - w.seqnoOfAge a).toNat := by
  simp only [seqnoOfAge, age] at lt small ⊢
  bv_omega

end Outwnd

/--
With the carried sequence number inside the window, `fpproto_handle_ack` pops
the occupied ages of `c` and of the positive runs, youngest first, and resets
the timer if it popped any.
-/
theorem fpprotoHandleAck_eq_popAges
    {st : Session}
    (inv : st.wnd.Inv)
    (ackSeq : BitVec 16)
    (ackRunlen : BitVec 32)
    (young : st.wnd.age (ackCurSeqno st.wnd.nextSeqno ackSeq) < fastpassOutwndLen) :
    fpprotoHandleAck st ackSeq ackRunlen =
      let c := ackCurSeqno st.wnd.nextSeqno ackSeq
      let acked := (st.wnd.occupiedFrom (st.wnd.age c)).filter fun a =>
        a == st.wnd.age c || inRuns (positiveRuns 4 (st.wnd.age c + 1) (ackRunlen <<< 4)) a
      if acked.length > 0 then cancelAndResetRetransTimer (st.popAges ackRelease acked)
      else .ok (st.popAges ackRelease acked) := by
  obtain ⟨c, cEq⟩ : ∃ c, ackCurSeqno st.wnd.nextSeqno ackSeq = c := ⟨_, rfl⟩
  rw [cEq] at young
  have lenEq := fastpassOutwndLen_eq
  have notEarly : timeBefore64 c (st.wnd.nextSeqno - outwndLen64) = false := by
    rw [Bool.eq_false_iff, ne_eq, timeBefore64_edge_iff (by omega)]
    omega
  have endAge : st.wnd.age (c - 1) = st.wnd.age c + 1 := age_sub c 1 (by omega)
  have later : ((st.wnd.occupiedFrom (st.wnd.age c + 1)).filter fun a =>
      a == st.wnd.age c || inRuns (positiveRuns 4 (st.wnd.age c + 1) (ackRunlen <<< 4)) a) =
      (st.wnd.occupiedFrom (st.wnd.age c + 1)).filter
        (inRuns (positiveRuns 4 (st.wnd.age c + 1) (ackRunlen <<< 4))) :=
    List.filter_congr fun a member => by
      have := (mem_occupiedFrom.mp member).1
      simp [show a ≠ st.wnd.age c by omega]
  simp only [cEq]
  cases occupied : st.wnd.occupiedAge (st.wnd.age c)
  · -- `c` is not outstanding: the runs start with nothing acknowledged
    have unacked : outwndIsUnacked st.wnd c = false := by
      rw [outwndIsUnacked_eq_occupiedAge young, occupied]
    simp only [fpprotoHandleAck, cEq, notEarly, unacked, Bool.false_eq_true, ↓reduceIte, pure_bind]
    rw [doNextPositive_spec 4 inv (c - 1) _ 0 (by rw [endAge]; omega), endAge,
      occupiedFrom_of_free occupied, later, Nat.zero_add]
    rfl
  · -- `c` is acknowledged first
    have unacked : outwndIsUnacked st.wnd c = true := by
      rw [outwndIsUnacked_eq_occupiedAge young, occupied]
    simp only [fpprotoHandleAck, cEq, notEarly, unacked, Bool.false_eq_true, ↓reduceIte, pure_bind,
      doAckSeqno_of_occupied occupied, except_ok_bind]
    have endAge' : (st.popAge ackRelease (st.wnd.age c)).wnd.age (c - 1) = st.wnd.age c + 1 := by
      simp only [Session.popAge_wnd, clearSlot_age, endAge]
    rw [@doNextPositive_spec 4 (st.popAge ackRelease (st.wnd.age c)) (clearSlot_inv inv occupied)
      (c - 1) _ 1 (by rw [endAge']; omega), endAge']
    simp only [Session.popAge_wnd, occupiedFrom_clearSlot_of_lt (young_of_occupied occupied)
      (Nat.lt_add_one _), except_ok_bind]
    rw [occupiedFrom_of_occupied occupied, List.filter_cons_of_pos (by simp), later,
      List.length_cons, Session.popAges_cons, Nat.add_comm 1]
    rfl

/-- The ages the loops acknowledge are the occupied ones in `A`. -/
theorem ackedAges_eq {w : Outwnd} (ackSeq : BitVec 16) (ackRunlen : BitVec 32) :
    let c := ackCurSeqno w.nextSeqno ackSeq
    ((w.occupiedFrom 0).filter fun a => ackRunsContain ackRunlen (c - w.seqnoOfAge a).toNat) =
      (w.occupiedFrom (w.age c)).filter fun a =>
        a == w.age c || inRuns (positiveRuns 4 (w.age c + 1) (ackRunlen <<< 4)) a := by
  intro c
  have cSmall : w.age c < 2 ^ 16 := (ackCurSeqno_spec w ackSeq).1
  have lenEq := fastpassOutwndLen_eq
  rw [occupiedFrom_split (Nat.zero_le (w.age c)), List.filter_append,
    List.filter_eq_nil_iff.mpr fun a member => ?_, List.nil_append]
  · refine List.filter_congr fun a member => ?_
    have ⟨lower, occupied⟩ := mem_occupiedFrom.mp member
    have young := young_of_occupied occupied
    rw [sub_seqnoOfAge_of_le lower (by omega), ackRunsContain_eq_inRuns ackRunlen lower]
  · have ⟨_, upper, _⟩ := mem_occupiedBetween.mp member
    have far := sub_seqnoOfAge_of_lt (c := c) upper (by omega)
    exact fun contains => absurd (ackRunsContain_le contains) (by omega)

/--
`fpproto_handle_ack` on a window with the invariant.  The carried sequence
number `c` is the one of age below `2^16` with the payload's low 16 bits.  A
`c` older than the window is only counted.  Otherwise exactly the occupied
sequence numbers of `A` are popped, youngest first, each handed once to
`handle_ack`; every other slot and `next_seqno` are kept; and the timer is
reset exactly when something was acknowledged.
-/
theorem fpprotoHandleAck_spec
    {st : Session}
    (inv : st.wnd.Inv)
    (ackSeq : BitVec 16)
    (ackRunlen : BitVec 32) :
    let c := ackCurSeqno st.wnd.nextSeqno ackSeq
    let acked := (st.wnd.occupiedFrom 0).filter fun a =>
      ackRunsContain ackRunlen (c - st.wnd.seqnoOfAge a).toNat
    (st.wnd.age c < 2 ^ 16 ∧ c.setWidth 16 = ackSeq ∧
      ∀ s, st.wnd.age s < 2 ^ 16 → s.setWidth 16 = ackSeq → s = c) ∧
    (fastpassOutwndLen ≤ st.wnd.age c →
      fpprotoHandleAck st ackSeq ackRunlen =
        .ok { st with stats := { st.stats with tooEarlyAck := st.stats.tooEarlyAck + 1 } }) ∧
    (st.wnd.age c < fastpassOutwndLen →
      ∃ wnd', st.wnd.PoppedAges acked wnd' ∧
        fpprotoHandleAck st ackSeq ackRunlen =
          let st' := { st with
            wnd := wnd'
            log := st.log ++ acked.map fun a => ackRelease st.ops (st.wnd.bins (st.wnd.slot a)) }
          if acked = [] then .ok st' else cancelAndResetRetransTimer st') := by
  intro c acked
  have cSpec : st.wnd.age c < 2 ^ 16 ∧ c.setWidth 16 = ackSeq ∧
      ∀ s, st.wnd.age s < 2 ^ 16 → s.setWidth 16 = ackSeq → s = c :=
    ackCurSeqno_spec st.wnd ackSeq
  refine ⟨cSpec, fun early => ?_, fun young => ?_⟩
  · have tooEarly : timeBefore64 c (st.wnd.nextSeqno - outwndLen64) = true :=
      (timeBefore64_edge_iff (by omega)).mpr early
    simp only [fpprotoHandleAck, tooEarly, ↓reduceIte]
    rfl
  · obtain ⟨wnd', popped, shape⟩ := Session.popAges_spec ackRelease acked inv
      ((occupiedFrom_nodup st.wnd 0).filter _)
      fun a member => (mem_occupiedFrom.mp (List.mem_filter.mp member).1).2
    refine ⟨wnd', popped, ?_⟩
    rw [fpprotoHandleAck_eq_popAges inv ackSeq ackRunlen young]
    dsimp only
    rw [← ackedAges_eq ackSeq ackRunlen]
    show (if acked.length > 0 then _ else _) = _
    rw [shape]
    by_cases empty : acked = []
    · simp [empty]
    · simp [empty, List.length_pos.mpr empty]

/--
The ACK of the one packet of the sample window, which it pops, as an instance
of the hypothesis.
-/
theorem fpprotoHandleAck_spec_sample :
    let st : Session := { Session.allocated ⟨false, false, false, false⟩ 0 0 with
      wnd := Outwnd.sample }
    let ackSeq : BitVec 16 := (-5 : BitVec 64).setWidth 16
    st.wnd.Inv ∧
    let c := ackCurSeqno st.wnd.nextSeqno ackSeq
    let acked := (st.wnd.occupiedFrom 0).filter fun a =>
      ackRunsContain 0 (c - st.wnd.seqnoOfAge a).toNat
    (st.wnd.age c < 2 ^ 16 ∧ c.setWidth 16 = ackSeq ∧
      ∀ s, st.wnd.age s < 2 ^ 16 → s.setWidth 16 = ackSeq → s = c) ∧
    (fastpassOutwndLen ≤ st.wnd.age c →
      fpprotoHandleAck st ackSeq 0 =
        .ok { st with stats := { st.stats with tooEarlyAck := st.stats.tooEarlyAck + 1 } }) ∧
    (st.wnd.age c < fastpassOutwndLen →
      ∃ wnd', st.wnd.PoppedAges acked wnd' ∧
        fpprotoHandleAck st ackSeq 0 =
          let st' := { st with
            wnd := wnd'
            log := st.log ++ acked.map fun a => ackRelease st.ops (st.wnd.bins (st.wnd.slot a)) }
          if acked = [] then .ok st' else cancelAndResetRetransTimer st') := by
  intro st ackSeq
  have inv : st.wnd.Inv := Outwnd.sample_inv
  exact ⟨inv, fpprotoHandleAck_spec inv ackSeq 0⟩

/-- Popping no age leaves a window with the invariant as it is. -/
theorem Outwnd.PoppedAges.nil {w : Outwnd} (inv : w.Inv) : w.PoppedAges [] w :=
  ⟨inv, rfl, fun _ => by simp, fun _ _ _ => rfl⟩

/--
On a window with the invariant `fpproto_handle_ack` never fails: it pops
distinct occupied ages, handing each descriptor on once, and otherwise changes
only the hint, the timer and the counters.
-/
theorem fpprotoHandleAck_shape
    {st : Session}
    (inv : st.wnd.Inv)
    (ackSeq : BitVec 16)
    (ackRunlen : BitVec 32) :
    ∃ ages wnd' hint timer stats, ages.Nodup ∧ (∀ a ∈ ages, st.wnd.occupiedAge a = true) ∧
      st.wnd.PoppedAges ages wnd' ∧
      fpprotoHandleAck st ackSeq ackRunlen = .ok { st with
        wnd := wnd'
        log := st.log ++ ages.map fun a => ackRelease st.ops (st.wnd.bins (st.wnd.slot a))
        earliestUnacked := hint
        retransTimer := timer
        stats := stats } := by
  have cSmall := (ackCurSeqno_spec st.wnd ackSeq).1
  by_cases young : st.wnd.age (ackCurSeqno st.wnd.nextSeqno ackSeq) < fastpassOutwndLen
  · rw [fpprotoHandleAck_eq_popAges inv ackSeq ackRunlen young]
    dsimp only
    have nodup := (occupiedFrom_nodup st.wnd
      (st.wnd.age (ackCurSeqno st.wnd.nextSeqno ackSeq))).filter
      fun a => a == st.wnd.age (ackCurSeqno st.wnd.nextSeqno ackSeq) ||
        inRuns (positiveRuns 4 (st.wnd.age (ackCurSeqno st.wnd.nextSeqno ackSeq) + 1)
          (ackRunlen <<< 4)) a
    have occupied : ∀ a ∈ (st.wnd.occupiedFrom
      (st.wnd.age (ackCurSeqno st.wnd.nextSeqno ackSeq))).filter
        (fun a => a == st.wnd.age (ackCurSeqno st.wnd.nextSeqno ackSeq) ||
          inRuns (positiveRuns 4 (st.wnd.age (ackCurSeqno st.wnd.nextSeqno ackSeq) + 1)
            (ackRunlen <<< 4)) a), st.wnd.occupiedAge a = true :=
      fun a member => (mem_occupiedFrom.mp (List.mem_filter.mp member).1).2
    obtain ⟨wnd', popped, shape⟩ := Session.popAges_spec ackRelease _ inv nodup occupied
    rw [shape]
    split
    · obtain ⟨hint, timer, reset⟩ := @cancelAndResetRetransTimer_ok
        { st with wnd := wnd', log := _ } popped.inv
      exact ⟨_, wnd', hint, timer, st.stats, nodup, occupied, popped, reset⟩
    · exact ⟨_, wnd', st.earliestUnacked, st.retransTimer, st.stats, nodup, occupied, popped, rfl⟩
  · have tooEarly : timeBefore64 (ackCurSeqno st.wnd.nextSeqno ackSeq)
        (st.wnd.nextSeqno - outwndLen64) = true :=
      (timeBefore64_edge_iff (by omega)).mpr (by omega)
    refine ⟨[], st.wnd, st.earliestUnacked, st.retransTimer,
      { st.stats with tooEarlyAck := st.stats.tooEarlyAck + 1 }, List.nodup_nil,
      fun _ member => absurd member (List.not_mem_nil _), .nil inv, ?_⟩
    simp only [fpprotoHandleAck, tooEarly, ↓reduceIte, List.map_nil, List.append_nil]
    rfl

/-! ## Acknowledging one packet -/

/--
An ACK carrying the low 16 bits of a held descriptor's sequence number, with
no runs after it, pops that descriptor alone, hands it on, and resets the
timer.
-/
theorem fpprotoHandleAck_single
    {st : Session}
    (inv : st.wnd.Inv)
    {i : Nat}
    (small : i < fastpassOutwndLen)
    {pd : Pktdesc}
    (held : st.wnd.bins i = some pd)
    {ackRunlen : BitVec 32}
    (noRuns : ackRunlen <<< 4 = 0) :
    fpprotoHandleAck st (pd.seqno.setWidth 16) ackRunlen =
      cancelAndResetRetransTimer { st with
        wnd := st.wnd.clearSlot i
        log := st.log ++ [ackRelease st.ops (some pd)] } := by
  obtain ⟨pdYoung, pdSlot⟩ := inv.seqno i small pd held
  have cEq : ackCurSeqno st.wnd.nextSeqno (pd.seqno.setWidth 16) = pd.seqno :=
    ((ackCurSeqno_spec st.wnd _).2.2 pd.seqno
      (by rw [fastpassOutwndLen_eq] at pdYoung; omega) rfl).symm
  have slotEq : st.wnd.slot (st.wnd.age pd.seqno) = i := by rw [← outwndPos_eq_slot_age, pdSlot]
  have occupied : st.wnd.occupiedAge (st.wnd.age pd.seqno) = true := by
    simp [occupiedAge, slotEq, pdYoung, inv.occupied i small, held]
  rw [fpprotoHandleAck_eq_popAges inv _ ackRunlen (by rwa [cEq])]
  dsimp only
  rw [cEq, occupiedFrom_of_occupied occupied, List.filter_cons_of_pos (by simp),
    List.filter_eq_nil_iff.mpr fun a member => by
      have := (mem_occupiedFrom.mp member).1
      simp [inRuns_positiveRuns_zero 4 (st.wnd.age pd.seqno + 1) a _ noRuns,
        show a ≠ st.wnd.age pd.seqno by omega]]
  simp [Session.popAges, Session.popAge, slotEq, held]

/-! ## Acknowledging twice -/

/--
An ACK inside the window pops the outstanding ages it covers, hands each
descriptor on, and at most resets the timer, which leaves the window alone.
-/
theorem fpprotoHandleAck_popped
    {st : Session}
    (inv : st.wnd.Inv)
    (ackSeq : BitVec 16)
    (ackRunlen : BitVec 32)
    (young : st.wnd.age (ackCurSeqno st.wnd.nextSeqno ackSeq) < fastpassOutwndLen) :
    let c := ackCurSeqno st.wnd.nextSeqno ackSeq
    let acked := (st.wnd.occupiedFrom (st.wnd.age c)).filter fun a =>
      a == st.wnd.age c || inRuns (positiveRuns 4 (st.wnd.age c + 1) (ackRunlen <<< 4)) a
    ∃ st', fpprotoHandleAck st ackSeq ackRunlen = .ok st' ∧ st.wnd.PoppedAges acked st'.wnd ∧
      st'.log = st.log ++ acked.map fun a => ackRelease st.ops (st.wnd.bins (st.wnd.slot a)) := by
  dsimp only
  obtain ⟨wnd', popped, shape⟩ := Session.popAges_spec ackRelease _ inv
    ((occupiedFrom_nodup st.wnd _).filter _)
    fun a member => (mem_occupiedFrom.mp (List.mem_filter.mp member).1).2
  rw [fpprotoHandleAck_eq_popAges inv ackSeq ackRunlen young]
  dsimp only
  rw [shape]
  split
  · obtain ⟨_, _, reset⟩ :=
      @cancelAndResetRetransTimer_ok { st with wnd := wnd', log := _ } popped.inv
    exact ⟨_, reset, popped, rfl⟩
  · exact ⟨_, rfl, popped, rfl⟩

/-- An ACK whose sequence number is older than the window is only counted. -/
theorem fpprotoHandleAck_of_early
    {st : Session}
    {ackSeq : BitVec 16}
    (ackRunlen : BitVec 32)
    (early : fastpassOutwndLen ≤ st.wnd.age (ackCurSeqno st.wnd.nextSeqno ackSeq)) :
    fpprotoHandleAck st ackSeq ackRunlen =
      .ok { st with stats := { st.stats with tooEarlyAck := st.stats.tooEarlyAck + 1 } } := by
  have cSmall := (ackCurSeqno_spec st.wnd ackSeq).1
  have tooEarly : timeBefore64 (ackCurSeqno st.wnd.nextSeqno ackSeq)
      (st.wnd.nextSeqno - outwndLen64) = true :=
    (timeBefore64_edge_iff (by omega)).mpr early
  simp only [fpprotoHandleAck, tooEarly, ↓reduceIte]
  rfl

/--
The same ACK handled a second time changes nothing: every outstanding
sequence number it covers was popped the first time, so it pops none, hands
nothing on and leaves the timer alone.  An ACK older than the window is only
counted once more.
-/
theorem fpprotoHandleAck_again
    {st st1 : Session}
    (inv : st.wnd.Inv)
    {ackSeq : BitVec 16}
    {ackRunlen : BitVec 32}
    (first : fpprotoHandleAck st ackSeq ackRunlen = .ok st1) :
    fpprotoHandleAck st1 ackSeq ackRunlen =
      if st.wnd.age (ackCurSeqno st.wnd.nextSeqno ackSeq) < fastpassOutwndLen then .ok st1
      else .ok { st1 with
        stats := { st1.stats with tooEarlyAck := st1.stats.tooEarlyAck + 1 } } := by
  split_ifs with young
  · -- the first call leaves the popped window
    obtain ⟨st1', first', popped, -⟩ := fpprotoHandleAck_popped inv ackSeq ackRunlen young
    obtain rfl : st1' = st1 := Except.ok.inj (first'.symm.trans first)
    have ageEq := age_congr popped.nextSeqno (ackCurSeqno st.wnd.nextSeqno ackSeq)
    rw [fpprotoHandleAck_eq_popAges popped.inv ackSeq ackRunlen (by rwa [popped.nextSeqno, ageEq])]
    dsimp only
    rw [popped.nextSeqno, ageEq, List.filter_eq_nil_iff.mpr fun a member covered => ?_]
    · rfl
    · -- an age covered again was outstanding before, so the first call popped it
      have ⟨lower, occupied⟩ := mem_occupiedFrom.mp member
      rw [popped.occupiedAge] at occupied
      simp [mem_occupiedFrom, lower, covered] at occupied
  · have early : fastpassOutwndLen ≤ st.wnd.age (ackCurSeqno st.wnd.nextSeqno ackSeq) := by omega
    rw [fpprotoHandleAck_of_early ackRunlen early] at first
    cases first
    exact fpprotoHandleAck_of_early ackRunlen early

/--
The ACK of the one packet of the sample window, handled twice, as an instance
of the hypotheses.
-/
theorem fpprotoHandleAck_again_sample :
    let st : Session := { Session.allocated ⟨false, false, false, false⟩ 0 0 with
      wnd := Outwnd.sample }
    st.wnd.Inv ∧ ∃ st1, fpprotoHandleAck st ((-5 : BitVec 64).setWidth 16) 0 = .ok st1 ∧
      fpprotoHandleAck st1 ((-5 : BitVec 64).setWidth 16) 0 =
        if st.wnd.age (ackCurSeqno st.wnd.nextSeqno
          ((-5 : BitVec 64).setWidth 16)) < fastpassOutwndLen
        then .ok st1
        else .ok { st1 with
          stats := { st1.stats with tooEarlyAck := st1.stats.tooEarlyAck + 1 } } := by
  intro st
  have inv : st.wnd.Inv := Outwnd.sample_inv
  obtain ⟨_, _, _, _, _, -, -, -, first⟩ :=
    fpprotoHandleAck_shape inv ((-5 : BitVec 64).setWidth 16) 0
  exact ⟨inv, _, first, fpprotoHandleAck_again inv first⟩

end Fastpass
