import Fastpass.Send
import Fastpass.Tasklet
import Fastpass.HandleReset
import Fastpass.Ack

namespace Fastpass

/-!
# Runs of a session

The calls a session receives, one after another: a packet sent
(`fpproto_prepare_to_send` then `fpproto_commit_packet`), an ACK or a RESET
payload, a run of `retrans_tasklet`, a call of
`cancel_and_reset_retrans_timer`, the timer's expiry and its callback's
return, the qdisc being attached or detached, and the socket's destruction.
`run` applies a list of them from a state and stops at the first crash.

Two things hold over every run from a state whose window keeps the invariant
(`run_step`): the invariant itself, and the conservation of descriptors.  The
`ledger` of a session lists, by identity, the descriptors its window holds
and those its log shows handed over for good; each call adds to it exactly
the descriptor it commits, if any, and otherwise only moves descriptors from
the window to the log.  Each call's lemma is derived from the specification
of the function it runs, never from its body.
-/

open Outwnd

/-- A call the session receives, with the values it is made with. -/
inductive Op where
  | send (pd : Pktdesc) (timestamp : BitVec 64)
  | handleAck (ackSeq : BitVec 16) (ackRunlen : BitVec 32)
  | handleReset (partialTstamp now : BitVec 64)
  | tasklet (now : BitVec 64)
  | cancelAndReset
  | timerExpire
  | callbackReturn
  | setQdisc (qdisc : Option Qdisc)
  | destroy

section Run

variable (jhash1Word : BitVec 32 → BitVec 32 → BitVec 32)

/-- One call.  The tasklet's scheduled bit is cleared as the tasklet starts to run. -/
def Op.apply (st : Session) : Op → Except Crash Session
  | .send pd timestamp => do
    let st ← fpprotoPrepareToSend st
    fpprotoCommitPacket st pd timestamp
  | .handleAck ackSeq ackRunlen => fpprotoHandleAck st ackSeq ackRunlen
  | .handleReset partialTstamp now => fpprotoHandleReset jhash1Word st partialTstamp now
  | .tasklet now => retransTasklet { st with taskletScheduled := false } now
  | .cancelAndReset => cancelAndResetRetransTimer st
  | .timerExpire => .ok { st with retransTimer := hrtimerExpire st.retransTimer }
  | .callbackReturn => .ok (retransTimerReturn st)
  | .setQdisc qdisc => .ok (fpprotoSetQdisc st qdisc)
  | .destroy => fpprotoDestroySock st

/-- The calls `ops` in order, from `st`; the first crash ends the run. -/
def run (st : Session) : List Op → Except Crash Session
  | [] => .ok st
  | op :: ops => op.apply jhash1Word st >>= fun st => run st ops

theorem run_append (st : Session) (ops ops' : List Op) :
    run jhash1Word st (ops ++ ops') = run jhash1Word st ops >>= fun st =>
      run jhash1Word st ops' := by
  induction ops generalizing st with
  | nil => rfl
  | cons op ops inductionHypothesis =>
    cases applied : op.apply jhash1Word st with
    | error e => simp [run, applied, bind, Except.bind]
    | ok st' => simp [run, applied, inductionHypothesis]

@[simp] theorem run_singleton
    (st : Session)
    (op : Op) :
    run jhash1Word st [op] = op.apply jhash1Word st := by
  show op.apply jhash1Word st >>= (fun st => .ok st) = _
  cases op.apply jhash1Word st <;> rfl

end Run

/-! ## The ledger of descriptors -/

/--
The descriptor a call hands over for good: to `handle_ack`, to
`handle_neg_ack`, or to `fpproto_pktdesc_free`.
-/
def Event.released : Event → Option (Option Pktdesc)
  | .handleAck pd => some pd
  | .handleNegAck pd => some pd
  | .pktdescFree pd => some pd
  | _ => none

/--
The identities of the descriptors the window holds, youngest first, then of
those released, in order.
-/
def Session.ledger (st : Session) : List (Option Nat) :=
  (st.wnd.heldFrom 0 ++ st.log.filterMap Event.released).map (Option.map Pktdesc.ptr)

/-- The identity of the descriptor a call commits, if any. -/
def Op.committed : Op → List (Option Nat)
  | .send pd _ => [some pd.ptr]
  | _ => []

@[simp] theorem ackRelease_released (ops : Ops) (pd : Option Pktdesc) :
    (ackRelease ops pd).released = some pd := by
  unfold ackRelease
  split <;> rfl

@[simp] theorem negAckRelease_released (ops : Ops) (pd : Option Pktdesc) :
    (negAckRelease ops pd).released = some pd := by
  unfold negAckRelease
  split <;> rfl

theorem Outwnd.slot_congr {w v : Outwnd} (same : v.nextSeqno = w.nextSeqno) : v.slot = w.slot := by
  funext a
  simp only [slot, head, same]

/-- The ages popped, with the descriptors left in the window, are the descriptors held before. -/
theorem Outwnd.PoppedAges.heldFrom_perm
    {w w' : Outwnd}
    {ages : List Nat}
    (popped : w.PoppedAges ages w')
    (nodup : ages.Nodup)
    (occupied : ∀ a ∈ ages, w.occupiedAge a = true) :
    (w'.heldFrom 0 ++ ages.map fun a => w.bins (w.slot a)).Perm (w.heldFrom 0) := by
  have kept : w'.occupiedFrom 0 = (w.occupiedFrom 0).filter fun b => !ages.contains b := by
    simp only [occupiedFrom, List.filter_filter]
    exact List.filter_congr fun b _ => by rw [popped.occupiedAge, Bool.and_comm]
  have keptHeld : w'.heldFrom 0 =
      ((w.occupiedFrom 0).filter fun b => !ages.contains b).map fun a => w.bins (w.slot a) := by
    rw [heldFrom, kept, slot_congr popped.nextSeqno]
    refine List.map_congr_left fun b member => ?_
    obtain ⟨inOccupied, notPopped⟩ := List.mem_filter.mp member
    exact popped.bins b (young_of_occupied (mem_occupiedFrom.mp inOccupied).2)
      (by simpa using notPopped)
  have agesPerm : ages.Perm ((w.occupiedFrom 0).filter fun b => ages.contains b) :=
    (List.perm_ext_iff_of_nodup nodup ((occupiedFrom_nodup w 0).filter _)).mpr fun a =>
      ⟨fun member => List.mem_filter.mpr
          ⟨mem_occupiedFrom.mpr ⟨Nat.zero_le a, occupied a member⟩, by simpa using member⟩,
        fun member => by simpa using (List.mem_filter.mp member).2⟩
  rw [keptHeld, heldFrom]
  refine (List.Perm.append_left _ (agesPerm.map _)).trans ?_
  rw [← List.map_append]
  exact (List.perm_append_comm.trans (List.filter_append_perm _ _)).map _

/-- Release calls for a list of ages hand back the descriptors read off for them, in order. -/
theorem filterMap_released_map
    {release : Ops → Option Pktdesc → Event}
    (releases : ∀ ops pd, (release ops pd).released = some pd)
    (ops : Ops)
    (bin : Nat → Option Pktdesc)
    (ages : List Nat) :
    (ages.map fun a => release ops (bin a)).filterMap Event.released = ages.map bin := by
  rw [List.filterMap_map, show (Event.released ∘ fun a => release ops (bin a)) = some ∘ bin from
    funext fun a => releases _ _, List.filterMap_eq_map]

/-- Popping distinct occupied ages moves their descriptors from the window to the log. -/
theorem Session.ledger_popped
    {st st' : Session}
    {ages : List Nat}
    {wnd' : Outwnd}
    (popped : st.wnd.PoppedAges ages wnd')
    (nodup : ages.Nodup)
    (occupied : ∀ a ∈ ages, st.wnd.occupiedAge a = true)
    {release : Ops → Option Pktdesc → Event}
    (releases : ∀ ops pd, (release ops pd).released = some pd)
    (wndEq : st'.wnd = wnd')
    (logEq : st'.log = st.log ++ ages.map fun a => release st.ops (st.wnd.bins (st.wnd.slot a))) :
    st'.ledger.Perm st.ledger := by
  have held := popped.heldFrom_perm nodup occupied
  simp only [Session.ledger, wndEq, logEq, List.filterMap_append, filterMap_released_map releases]
  refine List.Perm.map _ ((List.Perm.append_left _ List.perm_append_comm).trans ?_)
  rw [← List.append_assoc]
  exact held.append_right _

/-- A successful `do_neg_ack_seqno`, whatever sequence number it is given, pops an occupied age. -/
theorem doNegAckSeqno_eq_popAge
    {st st' : Session}
    {seq : BitVec 64}
    (nacked : doNegAckSeqno st seq = .ok st') :
    ∃ a, st.wnd.occupiedAge a = true ∧ st' = st.popAge negAckRelease a := by
  cases popped : outwndPop st.wnd seq with
  | error e => simp [doNegAckSeqno, popped] at nacked
  | ok result =>
    simp only [doNegAckSeqno, popped] at nacked
    cases nacked
    simp only [outwndPop] at popped
    split at popped
    · rename_i unacked
      cases popped
      have slotEq : st.wnd.slot
        ((outwndPos seq + fastpassOutwndLen - st.wnd.head) % fastpassOutwndLen) =
          outwndPos seq := by
        have := st.wnd.head_lt
        have := outwndPos_lt seq
        simp only [slot, fastpassOutwndLen_eq] at *
        omega
      refine ⟨(outwndPos seq + fastpassOutwndLen - st.wnd.head) % fastpassOutwndLen, ?_, ?_⟩
      · simp only [occupiedAge, slotEq, Bool.and_eq_true, decide_eq_true_eq]
        exact ⟨Nat.mod_lt _ (by decide), unacked⟩
      · simp only [Session.popAge, slotEq]
    · cases popped

/-- Popping one occupied age keeps the invariant and moves its descriptor to the log. -/
theorem Session.popAge_step
    {st : Session}
    (inv : st.wnd.Inv)
    {a : Nat}
    (occupied : st.wnd.occupiedAge a = true)
    {release : Ops → Option Pktdesc → Event}
    (releases : ∀ ops pd, (release ops pd).released = some pd) :
    (st.popAge release a).wnd.Inv ∧ (st.popAge release a).ledger.Perm st.ledger := by
  obtain ⟨wnd', popped, shape⟩ :=
    Session.popAges_spec release [a] inv (List.nodup_singleton a) (by simpa using occupied)
  have single : st.popAges release [a] = st.popAge release a := rfl
  rw [single] at shape
  rw [shape]
  exact ⟨popped.inv, Session.ledger_popped popped (List.nodup_singleton a) (by simpa using occupied)
    releases rfl rfl⟩

/--
Draining the whole window to `fpproto_pktdesc_free`, with other calls that
release nothing, keeps the ledger up to order.
-/
theorem Session.ledger_drained
    {st st' : Session}
    (empty : st'.wnd.heldFrom 0 = [])
    (extra : List Event)
    (none : ∀ e ∈ extra, e.released = none)
    (logEq : st'.log = st.log ++ (st.wnd.heldFrom 0).map .pktdescFree ++ extra) :
    st'.ledger.Perm st.ledger := by
  simp only [Session.ledger, empty, logEq, List.filterMap_append,
    List.filterMap_eq_nil_iff.mpr none,
    List.filterMap_map, List.append_nil, List.nil_append]
  have freed : (st.wnd.heldFrom 0).filterMap (Event.released ∘ Event.pktdescFree) =
    st.wnd.heldFrom 0 :=
    List.filterMap_some _
  rw [freed]
  exact List.perm_append_comm.map _

theorem Outwnd.ResetFrom.heldFrom_eq_nil
    {w w' : Outwnd}
    (reset : w.ResetFrom 0 w') :
    w'.heldFrom 0 = [] := by
  rw [heldFrom, occupiedFrom_eq_nil (w := w') fun b _ => by simp [reset.occupiedAge]]
  rfl

/-- `fpproto_lock_qdisc` touches only the log, with lock calls. -/
theorem fpprotoLockQdisc_wnd_ledger (st : Session) :
    (fpprotoLockQdisc st).2.wnd = st.wnd ∧ (fpprotoLockQdisc st).2.ledger = st.ledger := by
  rcases present : st.qdisc with _ | sch
  · simp [fpprotoLockQdisc, Session.emit, present, Session.ledger, Event.released]
  · by_cases dead : sch.limit = 0 <;>
      simp [fpprotoLockQdisc, Session.emit, present, dead, Session.ledger, Event.released]

theorem fpprotoUnlockQdisc_wnd_ledger (sch : Option Qdisc) (st : Session) :
    (fpprotoUnlockQdisc sch st).wnd = st.wnd ∧ (fpprotoUnlockQdisc sch st).ledger = st.ledger := by
  unfold fpprotoUnlockQdisc
  split
  · exact ⟨rfl, rfl⟩
  · exact ⟨rfl, by simp [Session.ledger, Session.emit, Event.released]⟩

/-! ## One call -/

/--
Whatever its hint, a run of the tasklet's loop that returns has popped distinct
occupied ages to `handle_neg_ack`: every sequence number it NACKs, even one the
hint left outside the window, pops an occupied slot.
-/
theorem retransLoop_popAges (now : BitVec 64) :
    ∀ (n : Nat) {st : Session}, st.wnd.lowPopcount = n →
      ∀ {seqno : BitVec 64} {st' : Session} {found : Option (BitVec 64 × BitVec 64)},
        retransLoop st now seqno = .ok (st', found) →
          ∃ ages, ages.Nodup ∧ (∀ a ∈ ages, st.wnd.occupiedAge a = true) ∧
            st' = st.popAges negAckRelease ages := by
  intro n
  induction n using Nat.strong_induction_on with
  | _ n inductionHypothesis =>
    intro st popcount seqno st' found looped
    rw [retransLoop] at looped
    by_cases empty : outwndEmpty st.wnd = true
    · rw [if_pos empty] at looped
      cases looped
      exact ⟨[], List.nodup_nil, by simp, rfl⟩
    rw [if_neg empty] at looped
    cases hint : outwndEarliestUnackedHint st.wnd seqno with
    | error e => simp only [hint] at looped; cases looped
    | ok s =>
      cases sent : outwndTimestamp st.wnd s with
      | error e => simp only [hint, sent] at looped; cases looped
      | ok t =>
        by_cases early : timeAfter64 (t + st.sendTimeoutUs) now = true
        · simp only [hint, sent, early, ↓reduceIte] at looped
          cases looped
          exact ⟨[], List.nodup_nil, by simp, rfl⟩
        · simp only [hint, sent, early, Bool.false_eq_true, ↓reduceIte] at looped
          split at looped
          · cases looped
          · rename_i st1 nacked
            have smaller := doNegAckSeqno_lowPopcount nacked
            obtain ⟨a, occupied, rfl⟩ := doNegAckSeqno_eq_popAge nacked
            obtain ⟨ages, nodup, agesOccupied, rfl⟩ :=
              inductionHypothesis _ (popcount ▸ smaller) rfl looped
            -- the ages popped later were occupied before `a` was popped, and are not `a`
            have later : ∀ b ∈ ages, st.wnd.occupiedAge b = true ∧ b ≠ a := fun b member => by
              simpa [clearSlot_occupiedAge (young_of_occupied occupied)] using agesOccupied b member
            refine ⟨a :: ages, List.nodup_cons.mpr ⟨fun member => (later a member).2 rfl, nodup⟩,
              fun b member => ?_, rfl⟩
            rcases List.mem_cons.mp member with rfl | member
            · exact occupied
            · exact (later b member).1

/--
The tasklet's loop, from any hint, keeps the invariant and only moves
descriptors from the window to the log.
-/
theorem retransLoop_step
    (now : BitVec 64)
    {st : Session}
    (inv : st.wnd.Inv)
    {seqno : BitVec 64}
    {st' : Session}
    {found : Option (BitVec 64 × BitVec 64)}
    (looped : retransLoop st now seqno = .ok (st', found)) :
    st'.wnd.Inv ∧ st'.ledger.Perm st.ledger := by
  obtain ⟨ages, nodup, occupied, rfl⟩ := retransLoop_popAges now _ rfl looped
  obtain ⟨wnd', popped, shape⟩ := Session.popAges_spec negAckRelease ages inv nodup occupied
  rw [shape]
  exact ⟨popped.inv, Session.ledger_popped popped nodup occupied negAckRelease_released rfl rfl⟩

/-- `retrans_tasklet` keeps the invariant and the ledger up to order. -/
theorem retransTasklet_step
    {st st' : Session}
    (inv : st.wnd.Inv)
    {now : BitVec 64}
    (ran : retransTasklet st now = .ok st') :
    st'.wnd.Inv ∧ st'.ledger.Perm st.ledger := by
  obtain ⟨lockedWnd, lockedLedger⟩ := fpprotoLockQdisc_wnd_ledger st
  unfold retransTasklet at ran
  split at ran
  · rename_i stL locked
    rw [locked] at lockedWnd lockedLedger
    cases ran
    exact ⟨lockedWnd ▸ inv, lockedLedger ▸ .refl _⟩
  · rename_i sch stL locked
    rw [locked] at lockedWnd lockedLedger
    split at ran
    · cases ran
    · rename_i st1 looped
      obtain ⟨inv1, ledger1⟩ := retransLoop_step now (lockedWnd ▸ inv) looped
      obtain ⟨unlockedWnd, unlockedLedger⟩ := fpprotoUnlockQdisc_wnd_ledger (some sch) st1
      cases ran
      exact ⟨unlockedWnd ▸ inv1, unlockedLedger ▸ lockedLedger ▸ ledger1⟩
    · rename_i st1 seqno timeout looped
      obtain ⟨inv1, ledger1⟩ := retransLoop_step now (lockedWnd ▸ inv) looped
      obtain ⟨unlockedWnd, unlockedLedger⟩ := fpprotoUnlockQdisc_wnd_ledger (some sch)
        { st1 with earliestUnacked := seqno, retransTimer := hrtimerStart st1.retransTimer timeout }
      cases ran
      exact ⟨unlockedWnd ▸ inv1, unlockedLedger ▸ lockedLedger ▸ ledger1⟩

/-- `fpproto_prepare_to_send` keeps the invariant and the ledger up to order, and frees the edge. -/
theorem fpprotoPrepareToSend_step {st : Session} (inv : st.wnd.Inv) :
    ∃ st1, fpprotoPrepareToSend st = .ok st1 ∧ st1.wnd.Inv ∧
      st1.wnd.occupiedAge (fastpassOutwndLen - 1) = false ∧ st1.ledger.Perm st.ledger := by
  cases edge : st.wnd.occupiedAge (fastpassOutwndLen - 1)
  · exact ⟨st, fpprotoPrepareToSend_of_free edge, inv, edge, .refl _⟩
  · obtain ⟨popInv, popLedger⟩ := @Session.popAge_step
      { st with stats := { st.stats with fallOffOutwnd := st.stats.fallOffOutwnd + 1 } }
      inv _ edge _ negAckRelease_released
    obtain ⟨hint, timer, reset⟩ := cancelAndResetRetransTimer_ok popInv
    refine ⟨_, (fpprotoPrepareToSend_of_occupied edge).trans reset, popInv, ?_, popLedger⟩
    simp [clearSlot_occupiedAge (show fastpassOutwndLen - 1 < fastpassOutwndLen by decide)]

/--
`fpproto_commit_packet` onto a free edge keeps the invariant and adds the
descriptor to the ledger.
-/
theorem fpprotoCommitPacket_step
    {st : Session}
    (inv : st.wnd.Inv)
    (free : st.wnd.occupiedAge (fastpassOutwndLen - 1) = false)
    (pd : Pktdesc)
    (timestamp : BitVec 64) :
    ∃ st', fpprotoCommitPacket st pd timestamp = .ok st' ∧ st'.wnd.Inv ∧
      st'.ledger = some pd.ptr :: st.ledger := by
  have addedInv := outwndAdd_inv inv rfl (outwndAdd_of_free free (st.stamp pd timestamp))
  refine ⟨_, fpprotoCommitPacket_of_free free pd timestamp, ?_, ?_⟩ <;> split
  · exact addedInv
  · exact addedInv
  all_goals simp [Session.ledger, heldFrom_added free, Session.stamp]

/-- `fpproto_handle_reset` keeps the invariant and the ledger up to order. -/
theorem fpprotoHandleReset_ledger
    (jhash1Word : BitVec 32 → BitVec 32 → BitVec 32)
    {st st' : Session}
    (inv : st.wnd.Inv)
    {partialTstamp now : BitVec 64}
    (reset : fpprotoHandleReset jhash1Word st partialTstamp now = .ok st') :
    st'.wnd.Inv ∧ st'.ledger.Perm st.ledger := by
  obtain ⟨wnd, wndInv, empty, -, drained⟩ :=
    doProtoReset_spec jhash1Word inv (fullTstamp now partialTstamp)
  have emptyHeld : wnd.heldFrom 0 = [] := by
    rw [heldFrom, occupiedFrom_eq_nil fun b _ => empty b]
    rfl
  simp only [fpprotoHandleReset] at reset
  split_ifs at reset <;> (try rw [drained] at reset) <;> cases reset
  · exact ⟨inv, .refl _⟩
  · exact ⟨inv, .refl _⟩
  · exact ⟨inv, .refl _⟩
  · exact ⟨inv, .refl _⟩
  · refine ⟨wndInv, Session.ledger_drained emptyHeld
      (if st.ops.handleReset then [.handleReset] else []) (fun e member => ?_) rfl⟩
    split at member <;> simp_all [Event.released]

/-- `fpproto_handle_ack` keeps the invariant and the ledger up to order. -/
theorem fpprotoHandleAck_step
    {st st' : Session}
    (inv : st.wnd.Inv)
    {ackSeq : BitVec 16}
    {ackRunlen : BitVec 32}
    (acked : fpprotoHandleAck st ackSeq ackRunlen = .ok st') :
    st'.wnd.Inv ∧ st'.ledger.Perm st.ledger := by
  obtain ⟨ages, wnd', _, _, _, nodup, occupied, popped, shape⟩ :=
    fpprotoHandleAck_shape inv ackSeq ackRunlen
  rw [shape] at acked
  cases acked
  exact ⟨popped.inv, Session.ledger_popped popped nodup occupied ackRelease_released rfl rfl⟩

/--
`fpproto_destroy_sock` never fails: it empties the window and hands every
descriptor to `fpproto_pktdesc_free`.
-/
theorem fpprotoDestroySock_step {st : Session} (inv : st.wnd.Inv) :
    ∃ st', fpprotoDestroySock st = .ok st' ∧ st'.wnd.Inv ∧ st'.wnd.heldFrom 0 = [] ∧
      st'.ledger.Perm st.ledger := by
  obtain ⟨w', drained, reset⟩ := outwndReset_spec inv
  refine ⟨_, by simp only [fpprotoDestroySock, fpprotoSetQdisc, drained]; rfl, reset.inv,
    reset.heldFrom_eq_nil, Session.ledger_drained reset.heldFrom_eq_nil [] (by simp) ?_⟩
  simp

section Run

variable (jhash1Word : BitVec 32 → BitVec 32 → BitVec 32)

/-- Every call keeps the invariant, and adds to the ledger exactly what it commits. -/
theorem Op.apply_step {st st' : Session} (inv : st.wnd.Inv) :
    ∀ {op : Op}, op.apply jhash1Word st = .ok st' →
      st'.wnd.Inv ∧ st'.ledger.Perm (st.ledger ++ op.committed)
  | .send pd timestamp, applied => by
    obtain ⟨st1, prepared, inv1, free1, ledger1⟩ := fpprotoPrepareToSend_step inv
    obtain ⟨st2, committed, inv2, ledger2⟩ := fpprotoCommitPacket_step inv1 free1 pd timestamp
    simp only [Op.apply, prepared, except_ok_bind, committed] at applied
    cases applied
    rw [ledger2]
    exact ⟨inv2, (ledger1.cons _).trans (List.perm_append_singleton _ _).symm⟩
  | .handleAck _ _, applied => by
    simpa [Op.committed] using fpprotoHandleAck_step inv applied
  | .handleReset _ _, applied => by
    simpa [Op.committed] using fpprotoHandleReset_ledger jhash1Word inv applied
  | .tasklet _, applied => by
    simpa [Op.committed] using @retransTasklet_step { st with taskletScheduled := false }
      _ inv _ applied
  | .cancelAndReset, applied => by
    obtain ⟨_, _, reset⟩ := cancelAndResetRetransTimer_ok inv
    simp only [Op.apply, reset] at applied
    cases applied
    exact ⟨inv, by simp [Op.committed, Session.ledger]⟩
  | .timerExpire, applied | .setQdisc _, applied => by
    cases applied
    exact ⟨inv, by simp [Op.committed, Session.ledger, fpprotoSetQdisc]⟩
  | .callbackReturn, applied => by
    cases applied
    unfold retransTimerReturn retransTimerFunc
    split <;> exact ⟨inv, by simp [Op.committed, Session.ledger]⟩
  | .destroy, applied => by
    obtain ⟨_, destroyed, inv', -, ledger'⟩ := fpprotoDestroySock_step inv
    rw [show Op.apply jhash1Word st .destroy = fpprotoDestroySock st from rfl, destroyed] at applied
    cases applied
    simpa [Op.committed] using And.intro inv' ledger'

/--
Over every run from a window with the invariant, the invariant holds at the
end, and the ledger has gained exactly the descriptors the run committed.
-/
theorem run_step : ∀ (ops : List Op) {st st' : Session}, st.wnd.Inv →
    run jhash1Word st ops = .ok st' →
      st'.wnd.Inv ∧ st'.ledger.Perm (st.ledger ++ ops.flatMap Op.committed)
  | [], _, _, inv, ran => by
    cases ran
    exact ⟨inv, by simp⟩
  | op :: ops, _, _, inv, ran => by
    obtain ⟨st1, applied, rest⟩ := bind_eq_ok.mp ran
    obtain ⟨inv1, ledger1⟩ := Op.apply_step jhash1Word inv applied
    obtain ⟨inv', ledger'⟩ := run_step ops inv1 rest
    refine ⟨inv', ledger'.trans ?_⟩
    rw [List.flatMap_cons, ← List.append_assoc]
    exact ledger1.append_right _

/--
Whether a call is a run of `retrans_tasklet`, the one call that can reach a
`BUG_ON` from a window with the invariant.
-/
def Op.isTasklet : Op → Bool
  | .tasklet _ => true
  | _ => false

/-- From a window with the invariant, every call but the tasklet returns. -/
theorem Op.apply_ok {st : Session} (inv : st.wnd.Inv) :
    ∀ {op : Op}, op.isTasklet = false → ∃ st', op.apply jhash1Word st = .ok st'
  | .send pd timestamp, _ => by
    obtain ⟨st1, prepared, inv1, free1, -⟩ := fpprotoPrepareToSend_step inv
    obtain ⟨st2, committed, -, -⟩ := fpprotoCommitPacket_step inv1 free1 pd timestamp
    exact ⟨st2, by simp only [Op.apply, prepared, except_ok_bind, committed]⟩
  | .handleAck ackSeq ackRunlen, _ => by
    obtain ⟨_, _, _, _, _, -, -, -, shape⟩ := fpprotoHandleAck_shape inv ackSeq ackRunlen
    exact ⟨_, shape⟩
  | .handleReset partialTstamp now, _ => by
    obtain ⟨st', reset, -⟩ := fpprotoHandleReset_ok jhash1Word inv partialTstamp now
    exact ⟨st', reset⟩
  | .cancelAndReset, _ => by
    obtain ⟨_, _, reset⟩ := cancelAndResetRetransTimer_ok inv
    exact ⟨_, reset⟩
  | .timerExpire, _ | .callbackReturn, _ | .setQdisc _, _ => ⟨_, rfl⟩
  | .destroy, _ => by
    obtain ⟨st', destroyed, -⟩ := fpprotoDestroySock_step inv
    exact ⟨st', destroyed⟩

/-- From a window with the invariant, a run without the tasklet never crashes. -/
theorem run_ok : ∀ (ops : List Op) {st : Session}, st.wnd.Inv → (∀ op ∈ ops, op.isTasklet = false) →
    ∃ st', run jhash1Word st ops = .ok st'
  | [], st, _, _ => ⟨st, rfl⟩
  | op :: ops, _, inv, noTasklet => by
    obtain ⟨st1, applied⟩ := Op.apply_ok jhash1Word inv (noTasklet op (List.mem_cons_self _ _))
    obtain ⟨st', rest⟩ := run_ok ops (Op.apply_step jhash1Word inv applied).1
      fun op' member => noTasklet op' (List.mem_cons_of_mem _ member)
    exact ⟨st', by simp only [run, applied, except_ok_bind, rest]⟩

/-! ## Runs with no qdisc attached -/

/-- Whether a call is `fpproto_set_qdisc`, the one call that attaches a qdisc. -/
def Op.isSetQdisc : Op → Bool
  | .setQdisc _ => true
  | _ => false

/-- With no qdisc, `retrans_tasklet` only enters and leaves the RCU-bh section. -/
theorem retransTasklet_of_noQdisc
    {st : Session}
    (noQdisc : st.qdisc = none)
    (now : BitVec 64) :
    retransTasklet st now = .ok (st.emit [.rcuReadLockBh, .rcuReadUnlockBh]) := by
  simp [retransTasklet, fpprotoLockQdisc, noQdisc, Session.emit]

theorem cancelAndResetRetransTimer_qdisc
    {st st' : Session}
    (reset : cancelAndResetRetransTimer st = .ok st')
    (inv : st.wnd.Inv) :
    st'.qdisc = st.qdisc := by
  obtain ⟨_, _, shape⟩ := cancelAndResetRetransTimer_ok inv
  rw [shape] at reset
  cases reset
  rfl

theorem fpprotoPrepareToSend_qdisc
    {st st1 : Session}
    (prepared : fpprotoPrepareToSend st = .ok st1)
    (inv : st.wnd.Inv) :
    st1.qdisc = st.qdisc := by
  cases edge : st.wnd.occupiedAge (fastpassOutwndLen - 1)
  · rw [fpprotoPrepareToSend_of_free edge] at prepared
    cases prepared
    rfl
  · rw [fpprotoPrepareToSend_of_occupied edge] at prepared
    exact (cancelAndResetRetransTimer_qdisc prepared (clearSlot_inv inv edge) :)

theorem fpprotoHandleReset_qdisc
    {st st' : Session}
    {partialTstamp now : BitVec 64}
    (reset : fpprotoHandleReset jhash1Word st partialTstamp now = .ok st')
    (inv : st.wnd.Inv) :
    st'.qdisc = st.qdisc := by
  obtain ⟨wnd, -, -, -, drained⟩ :=
    doProtoReset_spec jhash1Word inv (fullTstamp now partialTstamp)
  simp only [fpprotoHandleReset] at reset
  split_ifs at reset <;> (try rw [drained] at reset) <;> cases reset <;> rfl

/--
With no qdisc attached and a window with the invariant, every call but
`fpproto_set_qdisc` returns and attaches none; `fpproto_destroy_sock` clears
the pointer itself.
-/
theorem Op.apply_noQdisc {st : Session} (inv : st.wnd.Inv) (noQdisc : st.qdisc = none) :
    ∀ {op : Op}, op.isSetQdisc = false →
      ∃ st', op.apply jhash1Word st = .ok st' ∧ st'.qdisc = none
  | .send pd timestamp, _ => by
    obtain ⟨st1, prepared, -, free1, -⟩ := fpprotoPrepareToSend_step inv
    have kept := fpprotoPrepareToSend_qdisc prepared inv
    simp only [Op.apply, prepared, except_ok_bind, fpprotoCommitPacket_of_free free1,
      Except.ok.injEq, exists_eq_left']
    split <;> exact kept.trans noQdisc
  | .handleAck ackSeq ackRunlen, _ => by
    obtain ⟨_, _, _, _, _, -, -, -, shape⟩ := fpprotoHandleAck_shape inv ackSeq ackRunlen
    exact ⟨_, shape, noQdisc⟩
  | .handleReset partialTstamp now, _ => by
    obtain ⟨st', reset, -⟩ := fpprotoHandleReset_ok jhash1Word inv partialTstamp now
    exact ⟨st', reset, (fpprotoHandleReset_qdisc jhash1Word reset inv).trans noQdisc⟩
  | .tasklet now, _ =>
    ⟨_, @retransTasklet_of_noQdisc { st with taskletScheduled := false } noQdisc now, noQdisc⟩
  | .cancelAndReset, _ => by
    obtain ⟨_, _, reset⟩ := cancelAndResetRetransTimer_ok inv
    exact ⟨_, reset, noQdisc⟩
  | .timerExpire, _ => ⟨_, rfl, noQdisc⟩
  | .callbackReturn, _ => by
    refine ⟨_, rfl, ?_⟩
    unfold retransTimerReturn retransTimerFunc
    split <;> exact noQdisc
  | .destroy, _ => by
    obtain ⟨w', drained, -⟩ := outwndReset_spec inv
    exact ⟨_, by simp only [Op.apply, fpprotoDestroySock, fpprotoSetQdisc, drained]; rfl, by rfl⟩

/--
From a window with the invariant and no qdisc attached, every run without
`fpproto_set_qdisc` returns, keeps the invariant and attaches no qdisc.
-/
theorem run_noQdisc : ∀ (ops : List Op) {st : Session}, st.wnd.Inv → st.qdisc = none →
    (∀ op ∈ ops, op.isSetQdisc = false) →
      ∃ st', run jhash1Word st ops = .ok st' ∧ st'.wnd.Inv ∧ st'.qdisc = none
  | [], st, inv, noQdisc, _ => ⟨st, rfl, inv, noQdisc⟩
  | op :: ops, _, inv, noQdisc, noSet => by
    obtain ⟨st1, applied, noQdisc1⟩ :=
      Op.apply_noQdisc jhash1Word inv noQdisc (noSet op (List.mem_cons_self _ _))
    obtain ⟨st', rest, inv', noQdisc'⟩ :=
      run_noQdisc ops (Op.apply_step jhash1Word inv applied).1 noQdisc1
        fun op' member => noSet op' (List.mem_cons_of_mem _ member)
    exact ⟨st', by simp only [run, applied, except_ok_bind, rest], inv', noQdisc'⟩

/--
The window invariant over the runs of a session with no qdisc attached.  From
`fpproto_sk_init`, which leaves the qdisc pointer NULL, every run of sends
(`fpproto_prepare_to_send` then `fpproto_commit_packet`), ACKs, RESETs and
tasklet runs at any clock reading, calls of `cancel_and_reset_retrans_timer`,
timer expiries and callback returns, and `fpproto_destroy_sock`, returns: no
`BUG_ON` is reached.  The window it reaches keeps the invariant: the mask's
halves mirror each other, a bit is set exactly when its slot holds a
descriptor, `tx_num_unacked` counts them, and each one carries the sequence
number its slot stands for.
-/
theorem reached_without_qdisc_inv
    (callbacks : Ops)
    (sendTimeoutUs rstWinNs now : BitVec 64)
    (ops : List Op)
    (noSetQdisc : ∀ op ∈ ops, op.isSetQdisc = false) :
    ∃ st, (fpprotoSkInit jhash1Word (Session.allocated callbacks sendTimeoutUs rstWinNs) now >>=
        fun st0 => run jhash1Word st0 ops) = .ok st ∧
      st.wnd.Inv := by
  obtain ⟨wnd, inv, -, -, init⟩ :=
    fpprotoSkInit_spec jhash1Word callbacks sendTimeoutUs rstWinNs now
  obtain ⟨st, ran, inv', -⟩ := @run_noQdisc jhash1Word ops
    { Session.allocated callbacks sendTimeoutUs rstWinNs with wnd := wnd, lastResetTime := now }
    inv rfl noSetQdisc
  exact ⟨st, by rw [init, except_ok_bind, ran], inv'⟩

/-- A send, an ACK, a RESET, a tasklet run and a cancel from `fpproto_sk_init`. -/
theorem reached_without_qdisc_inv_mixed :
    (∀ op ∈ [Op.send ⟨1, 0, 0, false, 0, []⟩ 0, .handleAck 0 0, .handleReset 5 5, .tasklet 9,
      .cancelAndReset], op.isSetQdisc = false) ∧
    ∃ st, (fpprotoSkInit (fun _ _ => 0) (Session.allocated ⟨false, false, false, false⟩ 1 0) 0 >>=
        fun st0 => run (fun _ _ => 0) st0 [Op.send ⟨1, 0, 0, false, 0, []⟩ 0, .handleAck 0 0,
          .handleReset 5 5, .tasklet 9, .cancelAndReset]) = .ok st ∧
      st.wnd.Inv :=
  ⟨by decide, reached_without_qdisc_inv (fun _ _ => 0) ⟨false, false, false, false⟩ 1 0 0
    [Op.send ⟨1, 0, 0, false, 0, []⟩ 0, .handleAck 0 0, .handleReset 5 5, .tasklet 9,
      .cancelAndReset] (by decide)⟩

/-- The state `fpproto_sk_init` sets up holds and has released nothing. -/
theorem fpprotoSkInit_ledger (callbacks : Ops) (sendTimeoutUs rstWinNs now : BitVec 64) :
    ∃ st0,
      fpprotoSkInit jhash1Word (Session.allocated callbacks sendTimeoutUs rstWinNs) now = .ok st0 ∧
      st0.wnd.Inv ∧ st0.ledger = [] := by
  obtain ⟨wnd, inv, empty, -, init⟩ :=
    fpprotoSkInit_spec jhash1Word callbacks sendTimeoutUs rstWinNs now
  refine ⟨_, init, inv, ?_⟩
  simp [Session.ledger, Session.allocated, heldFrom, occupiedFrom_eq_nil fun b _ => empty b]

/--
From `fpproto_sk_init`, over any run of calls that commits distinct
descriptors, every state reached holds each committed descriptor in one slot
or shows it released, exactly once, to `handle_ack`, `handle_neg_ack` or
`fpproto_pktdesc_free`, and releases nothing else.  After a final
`fpproto_destroy_sock`, each has been released exactly once.
-/
theorem committed_held_or_released
    (callbacks : Ops)
    (sendTimeoutUs rstWinNs now : BitVec 64)
    (ops : List Op)
    (fresh : (ops.flatMap Op.committed).Nodup)
    {st : Session}
    (reached :
      (fpprotoSkInit jhash1Word (Session.allocated callbacks sendTimeoutUs rstWinNs) now >>=
        fun st0 => run jhash1Word st0 ops) = .ok st) :
    st.ledger.Perm (ops.flatMap Op.committed) ∧ st.ledger.Nodup ∧
      (ops.getLast? = some .destroy →
        ((st.log.filterMap Event.released).map (Option.map Pktdesc.ptr)).Perm
          (ops.flatMap Op.committed)) := by
  obtain ⟨st0, init, inv0, ledger0⟩ :=
    fpprotoSkInit_ledger jhash1Word callbacks sendTimeoutUs rstWinNs now
  rw [init, except_ok_bind] at reached
  have conserved : st.ledger.Perm (ops.flatMap Op.committed) := by
    simpa [ledger0] using (run_step jhash1Word ops inv0 reached).2
  refine ⟨conserved, conserved.nodup_iff.mpr fresh, fun last => ?_⟩
  rw [← List.dropLast_append_getLast? (l := ops) _ last, run_append] at reached
  obtain ⟨stPre, before, destroyed⟩ := bind_eq_ok.mp reached
  obtain ⟨st', destroyedEq, -, empty, -⟩ :=
    fpprotoDestroySock_step (run_step jhash1Word _ inv0 before).1
  simp only [run, Op.apply] at destroyed
  rw [destroyedEq] at destroyed
  cases destroyed
  simpa [Session.ledger, empty] using conserved

end Run

/-- One descriptor sent and the socket destroyed, as an instance of the hypotheses. -/
theorem committed_held_or_released_sendDestroy :
    ([Op.send ⟨1, 0, 0, false, 0, []⟩ 0, .destroy].flatMap Op.committed).Nodup ∧
    ∃ st, (fpprotoSkInit (fun _ _ => 0) (Session.allocated ⟨false, false, false, false⟩ 1 0) 0 >>=
        fun st0 => run (fun _ _ => 0) st0 [.send ⟨1, 0, 0, false, 0, []⟩ 0, .destroy]) = .ok st ∧
      st.ledger.Perm ([Op.send ⟨1, 0, 0, false, 0, []⟩ 0, .destroy].flatMap Op.committed) ∧
      st.ledger.Nodup ∧
      ([Op.send ⟨1, 0, 0, false, 0, []⟩ 0, .destroy].getLast? = some .destroy →
        ((st.log.filterMap Event.released).map (Option.map Pktdesc.ptr)).Perm
          ([Op.send ⟨1, 0, 0, false, 0, []⟩ 0, .destroy].flatMap Op.committed)) := by
  obtain ⟨st0, init, inv0, -⟩ := fpprotoSkInit_ledger (fun _ _ => 0) ⟨false, false, false, false⟩
    1 0 0
  obtain ⟨st, ran⟩ := run_ok (fun _ _ => 0) [.send ⟨1, 0, 0, false, 0, []⟩ 0, .destroy] inv0
    (by decide)
  have reached :
      (fpprotoSkInit (fun _ _ => 0) (Session.allocated ⟨false, false, false, false⟩ 1 0) 0 >>=
        fun st0 => run (fun _ _ => 0) st0 [.send ⟨1, 0, 0, false, 0, []⟩ 0, .destroy]) =
        .ok st := by
    rw [init, except_ok_bind, ran]
  exact ⟨by decide, st, reached,
    committed_held_or_released (fun _ _ => 0) ⟨false, false, false, false⟩ 1 0 0
      [.send ⟨1, 0, 0, false, 0, []⟩ 0, .destroy] (by decide) reached⟩

end Fastpass
