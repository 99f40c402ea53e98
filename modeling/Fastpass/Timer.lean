import Fastpass.Session

namespace Fastpass

/-!
# The retransmission timer

Three things drive timeouts: `cancel_and_reset_retrans_timer`, which re-arms
the timer for the oldest outstanding packet unless `hrtimer_try_to_cancel`
reports the timer armed or running; the timer itself, which expires and runs
`retrans_timer_func`; and the tasklet that callback schedules, which has a
module of its own.

This module states what `cancel_and_reset_retrans_timer` does on a window with
the invariant, one lemma per outcome of the cancel, and models the two timer
events a run interleaves with the core's calls: the expiry, which starts the
callback, and the callback's return, which leaves the tasklet scheduled.
-/

/--
The deadline of the packet of age `a`: its `sent_timestamp` plus
`send_timeout_us`.  An occupied slot always holds a descriptor, so the second
case never arises for an occupied age.
-/
def Session.deadline (st : Session) (a : Nat) : BitVec 64 :=
  match st.wnd.bins (st.wnd.slot a) with
  | some pd => pd.sentTimestamp + st.sendTimeoutUs
  | none => 0

/-- The timer expires: it leaves the timer queue and its callback starts running. -/
def hrtimerExpire (timer : Hrtimer) : Hrtimer :=
  match timer.armed with
  | some _ => ⟨none, true⟩
  | none => timer

/-- `retrans_timer_func` returns `HRTIMER_NORESTART`, having scheduled the tasklet. -/
def retransTimerReturn (st : Session) : Session :=
  if st.retransTimer.running then
    { retransTimerFunc st with retransTimer := { st.retransTimer with running := false } }
  else st

open Outwnd

/-- With a live qdisc, `fpproto_lock_qdisc` enters the RCU-bh section and takes the root lock. -/
theorem fpprotoLockQdisc_of_live
    {st : Session}
    {sch : Qdisc}
    (present : st.qdisc = some sch)
    (live : sch.limit ≠ 0) :
    fpprotoLockQdisc st = (some sch, st.emit [.rcuReadLockBh, .spinLockBh]) := by
  simp [fpprotoLockQdisc, Session.emit, present, live]

/-- `fpproto_lock_qdisc` leaves the window alone. -/
theorem fpprotoLockQdisc_wnd (st : Session) : (fpprotoLockQdisc st).2.wnd = st.wnd := by
  rcases present : st.qdisc with _ | sch
  · simp [fpprotoLockQdisc, Session.emit, present]
  · by_cases dead : sch.limit = 0 <;> simp [fpprotoLockQdisc, Session.emit, present, dead]

/-- `outwnd_earliest_unacked` finds the oldest occupied age. -/
theorem outwndEarliestUnacked_eq
    {w : Outwnd}
    (inv : w.Inv)
    {t : Nat}
    (occupied : w.occupiedAge t = true)
    (oldest : ∀ j, w.occupiedAge j = true → j ≤ t) :
    outwndEarliestUnacked w = .ok (w.seqnoOfAge t) := by
  have lenEq := fastpassOutwndLen_eq
  have young := young_of_occupied occupied
  exact outwndEarliestUnackedHint_eq inv.mirrored (by rw [age_edge]; omega)
    (by rw [age_edge]; omega) occupied oldest

/-- `outwnd_timestamp` of an occupied age is its send time. -/
theorem outwndTimestamp_seqnoOfAge
    {st : Session}
    (inv : st.wnd.Inv)
    {t : Nat}
    (occupied : st.wnd.occupiedAge t = true) :
    outwndTimestamp st.wnd (st.wnd.seqnoOfAge t) = .ok (st.deadline t - st.sendTimeoutUs) := by
  have young := young_of_occupied occupied
  obtain ⟨pd, held⟩ := inv.bins_of_occupied occupied
  have slotEq : outwndPos (st.wnd.seqnoOfAge t) = st.wnd.slot t := by
    rw [outwndPos_eq_slot_age, age_seqnoOfAge _ _ (by rw [fastpassOutwndLen_eq] at young; omega)]
  simp [outwndTimestamp, Session.deadline, slotEq, held]

section CancelAndReset

variable {st : Session}

/-- When the timer is armed or its callback runs, the cancel fails and nothing is re-armed. -/
theorem cancelAndResetRetransTimer_of_busy (busy : (hrtimerTryToCancel st.retransTimer).1 ≠ 0) :
    cancelAndResetRetransTimer st =
      .ok { st with retransTimer := (hrtimerTryToCancel st.retransTimer).2 } := by
  simp only [cancelAndResetRetransTimer, ne_eq, busy, not_false_eq_true, ↓reduceIte]
  rfl

/-- With an empty window only the cancel happens. -/
theorem cancelAndResetRetransTimer_of_empty
    (inv : st.wnd.Inv)
    (free : ∀ a, st.wnd.occupiedAge a = false) :
    cancelAndResetRetransTimer st =
      .ok { st with retransTimer := (hrtimerTryToCancel st.retransTimer).2 } := by
  by_cases busy : (hrtimerTryToCancel st.retransTimer).1 = 0
  · have empty : outwndEmpty st.wnd = true := inv.outwndEmpty_iff.mpr free
    simp only [cancelAndResetRetransTimer, busy, ne_eq, not_true_eq_false, ↓reduceIte, empty]
    rfl
  · exact cancelAndResetRetransTimer_of_busy busy

/--
With the timer idle and the window not empty, the timer is re-armed at the
deadline of the oldest occupied age, which becomes the hint.
-/
theorem cancelAndResetRetransTimer_of_oldest
    (inv : st.wnd.Inv)
    (idle : (hrtimerTryToCancel st.retransTimer).1 = 0)
    {t : Nat}
    (occupied : st.wnd.occupiedAge t = true)
    (oldest : ∀ j, st.wnd.occupiedAge j = true → j ≤ t) :
    cancelAndResetRetransTimer st =
      .ok { st with
        earliestUnacked := st.wnd.seqnoOfAge t
        retransTimer := hrtimerStart (hrtimerTryToCancel st.retransTimer).2 (st.deadline t) } := by
  have notEmpty : outwndEmpty st.wnd = false :=
    Bool.eq_false_iff.mpr fun empty => by
      rw [inv.outwndEmpty_iff.mp empty t] at occupied
      cases occupied
  have scan := outwndEarliestUnacked_eq inv occupied oldest
  have sent := @outwndTimestamp_seqnoOfAge st inv t occupied
  simp only [cancelAndResetRetransTimer, idle, ne_eq, not_true_eq_false, ↓reduceIte, notEmpty,
    Bool.false_eq_true, scan, sent, except_ok_bind, BitVec.sub_add_cancel]
  rfl

/-- On a window with the invariant the call never fails; it changes only the hint and the timer. -/
theorem cancelAndResetRetransTimer_ok (inv : st.wnd.Inv) :
    ∃ hint timer, cancelAndResetRetransTimer st =
      .ok { st with earliestUnacked := hint, retransTimer := timer } := by
  rcases st.wnd.oldest_occupied_or_none with ⟨t, occupied, oldest⟩ | free
  · by_cases idle : (hrtimerTryToCancel st.retransTimer).1 = 0
    · exact ⟨_, _, cancelAndResetRetransTimer_of_oldest inv idle occupied oldest⟩
    · exact ⟨_, _, cancelAndResetRetransTimer_of_busy idle⟩
  · exact ⟨_, _, cancelAndResetRetransTimer_of_empty inv free⟩

end CancelAndReset

end Fastpass
