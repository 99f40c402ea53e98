import Fastpass.Runs

namespace Fastpass

/-!
# Timeouts over runs

`cancel_and_reset_retrans_timer` gives up whenever `hrtimer_try_to_cancel`
returns non-zero.  That includes `1`, a timer cancelled while still armed,
which then stays cancelled.  Two runs from `fpproto_sk_init` show what
follows:

* an ACK for the older of two packets cancels the armed timer and arms
  nothing, with one packet still outstanding (`ack_leaves_no_timeout`);
* a packet that falls off the window while the callback runs leaves the hint
  behind the window (`hint_leaves_window`).

The runs are built from general lemmas, one per kind of send: onto an empty
window, into a window with room, and into a full one; and one for a run of
sends into a window with room.
-/
open Outwnd

namespace Outwnd

variable {w : Outwnd}

/-- With the first `m` ages occupied and room left, the window's edge is free. -/
theorem FirstOccupied.edge_free
    {m : Nat}
    (first : w.FirstOccupied m)
    (room : m < fastpassOutwndLen) :
    w.occupiedAge (fastpassOutwndLen - 1) = false := by
  rw [first, decide_eq_false_iff_not]
  omega

/-- Under the invariant, the window counts no packet exactly when no age is occupied. -/
theorem FirstOccupied.txNumUnacked_eq_zero_iff {m : Nat} (inv : w.Inv) (first : w.FirstOccupied m) :
    w.txNumUnacked = 0 ↔ m = 0 := by
  have empty := inv.outwndEmpty_iff
  simp only [outwndEmpty, beq_iff_eq, first _, decide_eq_false_iff_not, Nat.not_lt] at empty
  rw [empty]
  exact ⟨fun above => Nat.le_zero.mp (above 0), fun zero a => zero ▸ Nat.zero_le a⟩

/-- Adding a stamped descriptor into a window with room keeps the invariant. -/
theorem FirstOccupied.added_inv
    {m : Nat}
    (inv : w.Inv)
    (first : w.FirstOccupied m)
    (room : m < fastpassOutwndLen)
    {pd : Pktdesc}
    (stamped : pd.seqno = w.nextSeqno) :
    (w.added pd).Inv :=
  outwndAdd_inv inv stamped (outwndAdd_of_free (first.edge_free room) pd)

/-- Emptying the edge of a full window leaves the first `W - 1` ages occupied. -/
theorem FirstOccupied.clearSlot_edge (full : w.FirstOccupied fastpassOutwndLen) :
    (w.clearSlot (w.slot (fastpassOutwndLen - 1))).FirstOccupied (fastpassOutwndLen - 1) := by
  intro a
  rw [clearSlot_occupiedAge (by decide), full a, Bool.eq_iff_iff]
  simp only [Bool.and_eq_true, decide_eq_true_eq, Bool.not_eq_true', decide_eq_false_iff_not]
  omega

end Outwnd

section Sends

variable (jhash1Word : BitVec 32 → BitVec 32 → BitVec 32)

/-- A send onto an empty window makes the packet the hint and arms the timer for it. -/
theorem send_of_empty
    {st : Session}
    (inv : st.wnd.Inv)
    (empty : st.wnd.FirstOccupied 0)
    (pd : Pktdesc)
    (timestamp : BitVec 64) :
    Op.apply jhash1Word st (.send pd timestamp) =
      .ok { st with
        wnd := st.wnd.added (st.stamp pd timestamp)
        earliestUnacked := st.wnd.nextSeqno
        retransTimer := hrtimerStart st.retransTimer (timestamp + st.sendTimeoutUs) } := by
  have free := empty.edge_free (by decide)
  simp only [Op.apply, fpprotoPrepareToSend_of_free free, except_ok_bind,
    fpprotoCommitPacket_of_free free, (empty.txNumUnacked_eq_zero_iff inv).mpr rfl, ↓reduceIte]

/-- A send into a window with room and packets outstanding only adds the packet. -/
theorem send_of_room
    {st : Session}
    (inv : st.wnd.Inv)
    {m : Nat}
    (first : st.wnd.FirstOccupied m)
    (outstanding : 0 < m)
    (room : m < fastpassOutwndLen)
    (pd : Pktdesc)
    (timestamp : BitVec 64) :
    Op.apply jhash1Word st (.send pd timestamp) =
      .ok { st with wnd := st.wnd.added (st.stamp pd timestamp) } := by
  have free := first.edge_free room
  have counted : st.wnd.txNumUnacked ≠ 0 := fun zero => by
    have := (first.txNumUnacked_eq_zero_iff inv).mp zero
    omega
  simp only [Op.apply, fpprotoPrepareToSend_of_free free, except_ok_bind,
    fpprotoCommitPacket_of_free free, counted, ↓reduceIte]

/--
Sends into a window with room and packets outstanding fill it from the young
end and change nothing but the window.
-/
theorem run_sends (timestamp : BitVec 64) :
    ∀ (pds : List Pktdesc) {st : Session} {m : Nat}, st.wnd.Inv → st.wnd.FirstOccupied m → 0 < m →
      m + pds.length ≤ fastpassOutwndLen →
      ∃ wnd, run jhash1Word st (pds.map fun pd => .send pd timestamp) = .ok { st with wnd := wnd } ∧
        wnd.Inv ∧ wnd.FirstOccupied (m + pds.length) ∧
        wnd.nextSeqno = st.wnd.nextSeqno + BitVec.ofNat 64 pds.length
  | [], st, _, inv, first, _, _ => ⟨st.wnd, rfl, inv, first, by simp⟩
  | pd :: pds, st, m, inv, first, outstanding, room => by
    rw [List.length_cons] at room
    have roomNow : m < fastpassOutwndLen := by omega
    have sent := send_of_room jhash1Word inv first outstanding roomNow pd timestamp
    obtain ⟨wnd, ran, inv', first', next'⟩ := run_sends timestamp pds
      (Op.apply_step jhash1Word inv sent).1 (first.added roomNow _) (Nat.succ_pos m) (by omega)
    refine ⟨wnd, ?_, inv', ?_, ?_⟩
    · simp only [List.map_cons, run, sent, except_ok_bind, ran]
    · rwa [List.length_cons, ← Nat.add_assoc, Nat.add_right_comm]
    · rw [next', List.length_cons]
      simp only [added_nextSeqno]
      bv_omega

/--
A send into a full window whose timer cannot be cancelled: the oldest packet
falls off and is NACKed, the cancel's result is kept, and nothing is re-armed.
-/
theorem send_of_full
    {st : Session}
    (inv : st.wnd.Inv)
    (full : st.wnd.FirstOccupied fastpassOutwndLen)
    (busy : (hrtimerTryToCancel st.retransTimer).1 ≠ 0)
    (pd : Pktdesc)
    (timestamp : BitVec 64) :
    ∃ wnd, Op.apply jhash1Word st (.send pd timestamp) =
        .ok { st with
          wnd := wnd
          retransTimer := (hrtimerTryToCancel st.retransTimer).2
          stats := { st.stats with fallOffOutwnd := st.stats.fallOffOutwnd + 1 }
          log := st.log ++ [negAckRelease st.ops (st.wnd.bins
            (st.wnd.slot (fastpassOutwndLen - 1)))] } ∧
      wnd.Inv ∧ wnd.FirstOccupied fastpassOutwndLen ∧ wnd.nextSeqno = st.wnd.nextSeqno + 1 := by
  have edgeYoung : fastpassOutwndLen - 1 < fastpassOutwndLen := by decide
  have edge : st.wnd.occupiedAge (fastpassOutwndLen - 1) = true :=
    (full _).trans (decide_eq_true edgeYoung)
  have rest := full.clearSlot_edge
  have restInv := clearSlot_inv inv edge
  have counted : (st.wnd.clearSlot (st.wnd.slot (fastpassOutwndLen - 1))).txNumUnacked ≠ 0 :=
    fun zero => by cases (rest.txNumUnacked_eq_zero_iff restInv).mp zero
  have free := rest.edge_free edgeYoung
  refine ⟨(st.wnd.clearSlot (st.wnd.slot (fastpassOutwndLen - 1))).added (st.stamp pd timestamp),
    ?_,
    rest.added_inv restInv edgeYoung rfl, by simpa using rest.added edgeYoung _, rfl⟩
  simp only [Op.apply, fpprotoPrepareToSend_of_occupied edge]
  rw [cancelAndResetRetransTimer_of_busy, except_ok_bind, fpprotoCommitPacket_of_free]
  case free => exact free
  · exact congrArg Except.ok (if_neg counted)
  · exact busy

/-- `fpproto_sk_init` leaves an empty window with the invariant, an idle timer and no qdisc. -/
theorem fpprotoSkInit_idle (callbacks : Ops) (sendTimeoutUs rstWinNs now : BitVec 64) :
    ∃ st0,
      fpprotoSkInit jhash1Word (Session.allocated callbacks sendTimeoutUs rstWinNs) now = .ok st0 ∧
      st0.wnd.Inv ∧ st0.wnd.FirstOccupied 0 ∧ st0.wnd.nextSeqno = epochSeqno jhash1Word now ∧
      st0.retransTimer = ⟨none, false⟩ ∧ st0.taskletScheduled = false ∧ st0.qdisc = none ∧
      st0.sendTimeoutUs = sendTimeoutUs := by
  obtain ⟨wnd, inv, empty, next, init⟩ :=
    fpprotoSkInit_spec jhash1Word callbacks sendTimeoutUs rstWinNs now
  exact ⟨_, init, inv, fun a => by simp [empty a], next, rfl, rfl, rfl, rfl⟩

end Sends

/-! ## Two runs from `fpproto_sk_init` -/

section FromInit

variable (jhash1Word : BitVec 32 → BitVec 32 → BitVec 32)

/--
An ACK naming the older of two outstanding packets pops that packet.  The
cancel that follows finds the timer armed and returns `1`, which
`cancel_and_reset_retrans_timer` reads as failure, so nothing is re-armed.
-/
theorem fpprotoHandleAck_older_of_two
    {st : Session}
    (inv : st.wnd.Inv)
    (two : st.wnd.FirstOccupied 2)
    (ackSeq : BitVec 16)
    (acks : ackSeq = (st.wnd.nextSeqno - 2).setWidth 16)
    (ackRunlen : BitVec 32)
    (busy : (hrtimerTryToCancel st.retransTimer).1 ≠ 0) :
    fpprotoHandleAck st ackSeq ackRunlen =
      .ok { st.popAge ackRelease 1 with
        retransTimer := (hrtimerTryToCancel st.retransTimer).2 } := by
  have older : st.wnd.age (st.wnd.nextSeqno - 2) = 1 := by
    simp only [age]
    bv_omega
  have cEq : ackCurSeqno st.wnd.nextSeqno ackSeq = st.wnd.nextSeqno - 2 :=
    ((ackCurSeqno_spec st.wnd ackSeq).2.2 _ (by omega) acks.symm).symm
  have ackedAges : st.wnd.occupiedFrom 1 = [1] := by
    rw [occupiedFrom_of_occupied ((two 1).trans rfl),
      occupiedFrom_eq_nil fun b above => (two b).trans (decide_eq_false (by omega))]
  rw [fpprotoHandleAck_eq_popAges inv ackSeq ackRunlen (by rw [cEq, older]; decide)]
  simp only [cEq, older, ackedAges, List.filter_cons, beq_self_eq_true, Bool.true_or, ↓reduceIte,
    List.filter_nil, List.length_singleton, gt_iff_lt, Nat.lt_add_one]
  exact cancelAndResetRetransTimer_of_busy busy

/--
Two packets sent from `fpproto_sk_init`, then an ACK for the first: one
packet is still outstanding, yet the timer is neither armed nor running and
the tasklet is not scheduled.
-/
theorem ack_leaves_no_timeout
    (callbacks : Ops)
    (sendTimeoutUs rstWinNs now : BitVec 64)
    (first second : Pktdesc)
    (ts0 ts1 : BitVec 64)
    (ackRunlen : BitVec 32) :
    ∃ st, (fpprotoSkInit jhash1Word (Session.allocated callbacks sendTimeoutUs rstWinNs) now >>=
      fun st0 =>
        run jhash1Word st0 [.send first ts0, .send second ts1,
          .handleAck ((epochSeqno jhash1Word now).setWidth 16) ackRunlen]) = .ok st ∧
      0 < st.wnd.txNumUnacked ∧ st.retransTimer = ⟨none, false⟩ ∧ st.taskletScheduled = false := by
  obtain ⟨st0, init, inv0, empty0, next0, idle0, idleTasklet, -, -⟩ :=
    fpprotoSkInit_idle jhash1Word callbacks sendTimeoutUs rstWinNs now
  have one := empty0.added (by decide) (st0.stamp first ts0)
  have sent1 := send_of_empty jhash1Word inv0 empty0 first ts0
  have inv1 := (Op.apply_step jhash1Word inv0 sent1).1
  have sent2 := send_of_room jhash1Word inv1 one (by decide) (by decide) second ts1
  have acksFirst : (epochSeqno jhash1Word now).setWidth 16 =
    (st0.wnd.nextSeqno + 1 + 1 - 2).setWidth 16 := by
    rw [← next0, show st0.wnd.nextSeqno + 1 + 1 - 2 = st0.wnd.nextSeqno by bv_omega]
  have acked := fpprotoHandleAck_older_of_two (Op.apply_step jhash1Word inv1 sent2).1
    (one.added (by decide) _) _ acksFirst ackRunlen
    (by show (hrtimerTryToCancel (hrtimerStart st0.retransTimer _)).1 ≠ 0
        simp [idle0, hrtimerStart, hrtimerTryToCancel])
  have counted : st0.wnd.txNumUnacked = 0 := (empty0.txNumUnacked_eq_zero_iff inv0).mpr rfl
  refine ⟨_, by rw [init, except_ok_bind, run, sent1, except_ok_bind, run, sent2, except_ok_bind,
    run_singleton]; exact acked, ?_, ?_, ?_⟩
  · show 0 < st0.wnd.txNumUnacked + 1 + 1 - 1
    omega
  · show (hrtimerTryToCancel (hrtimerStart st0.retransTimer _)).2 = _
    rw [idle0]
    rfl
  · exact idleTasklet

/--
A packet sent from `fpproto_sk_init`, the timer's expiry, and `W` more sends:
the last one pushes the first out of the window while the callback runs, so
the cancel fails and the hint is left on a sequence number outside the
window, with packets outstanding and the callback still running.
-/
theorem hint_leaves_window
    (callbacks : Ops)
    (sendTimeoutUs rstWinNs now : BitVec 64)
    (first : Pktdesc)
    (rest : Fin 255 → Pktdesc)
    (last : Pktdesc)
    (timestamp : BitVec 64) :
    ∃ st, (fpprotoSkInit jhash1Word (Session.allocated callbacks sendTimeoutUs rstWinNs) now >>=
      fun st0 =>
        run jhash1Word st0 ([.send first timestamp, .timerExpire] ++
          (List.ofFn rest).map (fun pd => .send pd timestamp) ++ [.send last timestamp])) = .ok st ∧
      0 < st.wnd.txNumUnacked ∧ st.retransTimer.running = true ∧
      fastpassOutwndLen ≤ st.wnd.age st.earliestUnacked := by
  obtain ⟨st0, init, inv0, empty0, -, idle0, -, -, -⟩ :=
    fpprotoSkInit_idle jhash1Word callbacks sendTimeoutUs rstWinNs now
  have expired : run jhash1Word st0 [.send first timestamp, .timerExpire] =
      .ok { st0 with
        wnd := st0.wnd.added (st0.stamp first timestamp)
        earliestUnacked := st0.wnd.nextSeqno
        retransTimer := ⟨none, true⟩ } := by
    rw [run, send_of_empty jhash1Word inv0 empty0, except_ok_bind, run_singleton]
    simp only [Op.apply, idle0, hrtimerStart, hrtimerExpire]
  have inv2 := (run_step jhash1Word _ inv0 expired).1
  obtain ⟨wnd, ran, -, full3, next3⟩ := run_sends jhash1Word timestamp (List.ofFn rest) inv2
    (empty0.added (by decide) _) (by decide) (by rw [List.length_ofFn]; decide)
  rw [List.length_ofFn] at full3 next3
  obtain ⟨wnd', sent, inv4, full4, next4⟩ :=
    send_of_full jhash1Word (run_step jhash1Word _ inv2 ran).1
    full3 (by show (hrtimerTryToCancel ⟨none, true⟩).1 ≠ 0; decide) last timestamp
  refine ⟨_, by rw [init, except_ok_bind, run_append, run_append, expired, except_ok_bind, ran,
    except_ok_bind, run_singleton, sent], ?_, ?_, ?_⟩
  · exact Nat.pos_of_ne_zero fun zero => by cases (full4.txNumUnacked_eq_zero_iff inv4).mp zero
  · rfl
  · show fastpassOutwndLen ≤ wnd'.age st0.wnd.nextSeqno
    simp only [age, next4, next3, added_nextSeqno, fastpassOutwndLen_eq]
    bv_omega

end FromInit

end Fastpass
