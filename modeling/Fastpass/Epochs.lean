import Fastpass.Runs
import Fastpass.Rcv

namespace Fastpass

/-!
# Epochs over runs

`fpproto_sk_init` and every accepted RESET payload start an epoch:
`do_proto_reset` drains the window, records the reset time and numbers the
epoch's packets from `epochSeqno` of it.  `fpproto_commit_packet` stamps each
descriptor with the reset time and, while the session is not `in_sync`, with a
request that the controller reset to it.

Two things hold over the runs of `Fastpass.Runs`.  Between RESET payloads a
run stays in one epoch (`Session.SameEpoch`): the reset time and the sync
state do not change, `next_seqno` advances by exactly the packets committed,
and every descriptor held at the end was held at the start or committed in the
run with the epoch's stamps (`run_sameEpoch`).  Across RESET payloads, every
descriptor the window holds belongs to the current epoch and, while the
session is out of sync, requests the reset (`Session.EpochInv`); from
`fpproto_sk_init` on, every packet in flight therefore carries that request on
the wire (`held_in_current_epoch`), and the controller's echo of it completes
the handshake: the session is then in sync, with every packet still in flight
(`reset_echo_syncs`).

Each call's lemma is derived from the specification of the function it runs.
The calls that only empty slots are collected once, in
`Session.SameEpoch.of_popped`.
-/

open Outwnd

/-- Whether a call is a RESET payload, the one call that can start an epoch. -/
def Op.isHandleReset : Op → Bool
  | .handleReset _ _ => true
  | _ => false

/--
`st'` continues the epoch of `st` with `sent` more packets committed: the same
reset time and sync state, `next_seqno` advanced by `sent`, and every
descriptor held either held by `st` or stamped for this epoch.
-/
structure Session.SameEpoch (st st' : Session) (sent : Nat) : Prop where
  lastResetTime : st'.lastResetTime = st.lastResetTime
  inSync : st'.inSync = st.inSync
  nextSeqno : st'.wnd.nextSeqno = st.wnd.nextSeqno + BitVec.ofNat 64 sent
  held : ∀ pd, some pd ∈ st'.wnd.heldFrom 0 →
    some pd ∈ st.wnd.heldFrom 0 ∨ (pd.resetTimestamp = st.lastResetTime ∧ pd.sendReset = !st.inSync)

/-- What the window of a session holds of its epoch. -/
structure Session.EpochInv (st : Session) : Prop where
  stamped : ∀ pd, some pd ∈ st.wnd.heldFrom 0 → pd.resetTimestamp = st.lastResetTime
  requested : st.inSync = false → ∀ pd, some pd ∈ st.wnd.heldFrom 0 → pd.sendReset = true

namespace Session.SameEpoch

variable {st st1 st2 : Session}

theorem refl (st : Session) : st.SameEpoch st 0 :=
  ⟨rfl, rfl, by simp, fun _ member => .inl member⟩

theorem trans {m n : Nat} (first : st.SameEpoch st1 m) (second : st1.SameEpoch st2 n) :
    st.SameEpoch st2 (m + n) where
  lastResetTime := second.lastResetTime.trans first.lastResetTime
  inSync := second.inSync.trans first.inSync
  nextSeqno := by rw [second.nextSeqno, first.nextSeqno, BitVec.add_assoc, BitVec.ofNat_add_ofNat]
  held pd member := by
    rcases second.held pd member with earlier | stamped
    · exact first.held pd earlier
    · exact .inr (first.lastResetTime ▸ first.inSync ▸ stamped)

/-- A call that changes neither the window nor the epoch's fields. -/
theorem of_wnd
    (wnd : st1.wnd = st.wnd)
    (lastResetTime : st1.lastResetTime = st.lastResetTime)
    (inSync : st1.inSync = st.inSync) :
    st.SameEpoch st1 0 :=
  ⟨lastResetTime, inSync, by simp [wnd], fun _ member => .inl (wnd ▸ member)⟩

/-- Emptying distinct occupied slots keeps the epoch and holds only what was held. -/
theorem of_popped
    {ages : List Nat}
    (popped : st.wnd.PoppedAges ages st1.wnd)
    (nodup : ages.Nodup)
    (occupied : ∀ a ∈ ages, st.wnd.occupiedAge a = true)
    (lastResetTime : st1.lastResetTime = st.lastResetTime)
    (inSync : st1.inSync = st.inSync) :
    st.SameEpoch st1 0 :=
  ⟨lastResetTime, inSync, by simp [popped.nextSeqno],
    fun _ member => .inl ((popped.heldFrom_perm nodup occupied).subset
      (List.mem_append_left _ member))⟩

/-- A window drained without a new epoch keeps the epoch. -/
theorem of_drained
    (empty : st1.wnd.heldFrom 0 = [])
    (nextSeqno : st1.wnd.nextSeqno = st.wnd.nextSeqno)
    (lastResetTime : st1.lastResetTime = st.lastResetTime)
    (inSync : st1.inSync = st.inSync) :
    st.SameEpoch st1 0 :=
  ⟨lastResetTime, inSync, by simp [nextSeqno], fun _ member => by simp [empty] at member⟩

/-- Within an epoch, what the window holds stays in it. -/
theorem epochInv {n : Nat} (same : st.SameEpoch st1 n) (epoch : st.EpochInv) : st1.EpochInv where
  stamped pd member := by
    rcases same.held pd member with earlier | ⟨stamp, -⟩
    · rw [same.lastResetTime]
      exact epoch.stamped pd earlier
    · rw [same.lastResetTime, stamp]
  requested unsynced pd member := by
    rw [same.inSync] at unsynced
    rcases same.held pd member with earlier | ⟨-, request⟩
    · exact epoch.requested unsynced pd earlier
    · rw [request, unsynced]
      rfl

end Session.SameEpoch

open Session.SameEpoch

/-- A window with no occupied age holds no descriptor. -/
theorem Outwnd.heldFrom_eq_nil_of_free {w : Outwnd} (empty : ∀ a, w.occupiedAge a = false) :
    w.heldFrom 0 = [] := by
  rw [heldFrom, occupiedFrom_eq_nil fun b _ => empty b]
  rfl

/-- A window that holds nothing holds nothing of an old epoch. -/
theorem Session.EpochInv.of_drained {st : Session} (empty : st.wnd.heldFrom 0 = []) : st.EpochInv :=
  ⟨fun _ member => by simp [empty] at member, fun _ _ member => by simp [empty] at member⟩

/-! ## Calls that only empty slots -/

section Pops

variable {st st' : Session}

theorem Session.popAge_sameEpoch
    (inv : st.wnd.Inv)
    {a : Nat}
    (occupied : st.wnd.occupiedAge a = true)
    (release : Ops → Option Pktdesc → Event) :
    st.SameEpoch (st.popAge release a) 0 := by
  obtain ⟨wnd', popped, shape⟩ :=
    Session.popAges_spec release [a] inv (List.nodup_singleton a) (by simpa using occupied)
  have single : st.popAges release [a] = st.popAge release a := rfl
  rw [← single, shape]
  exact of_popped popped (List.nodup_singleton a) (by simpa using occupied) rfl rfl

theorem cancelAndResetRetransTimer_sameEpoch
    (inv : st.wnd.Inv)
    (reset : cancelAndResetRetransTimer st = .ok st') :
    st.SameEpoch st' 0 := by
  obtain ⟨_, _, resetEq⟩ := cancelAndResetRetransTimer_ok inv
  rw [resetEq] at reset
  cases reset
  exact of_wnd rfl rfl rfl

theorem fpprotoPrepareToSend_sameEpoch
    (inv : st.wnd.Inv)
    (prepared : fpprotoPrepareToSend st = .ok st') :
    st.SameEpoch st' 0 := by
  cases edge : st.wnd.occupiedAge (fastpassOutwndLen - 1)
  · rw [fpprotoPrepareToSend_of_free edge] at prepared
    cases prepared
    exact refl st
  · rw [fpprotoPrepareToSend_of_occupied edge] at prepared
    have counted : st.SameEpoch { st with
      stats := { st.stats with fallOffOutwnd := st.stats.fallOffOutwnd + 1 } } 0 :=
      of_wnd rfl rfl rfl
    exact (counted.trans (@Session.popAge_sameEpoch
      { st with stats := { st.stats with fallOffOutwnd := st.stats.fallOffOutwnd + 1 } } inv _ edge
      negAckRelease)).trans
      (cancelAndResetRetransTimer_sameEpoch (clearSlot_inv inv edge) prepared)

theorem fpprotoHandleAck_sameEpoch
    (inv : st.wnd.Inv)
    {ackSeq : BitVec 16}
    {ackRunlen : BitVec 32}
    (acked : fpprotoHandleAck st ackSeq ackRunlen = .ok st') :
    st.SameEpoch st' 0 := by
  obtain ⟨ages, wnd', _, _, _, nodup, occupied, popped, shape⟩ :=
    fpprotoHandleAck_shape inv ackSeq ackRunlen
  rw [shape] at acked
  cases acked
  exact of_popped popped nodup occupied rfl rfl

/-- The tasklet's loop, from any hint, only NACKs occupied slots. -/
theorem retransLoop_sameEpoch
    {now seqno : BitVec 64}
    {found : Option (BitVec 64 × BitVec 64)}
    (inv : st.wnd.Inv)
    (looped : retransLoop st now seqno = .ok (st', found)) :
    st.SameEpoch st' 0 := by
  obtain ⟨ages, nodup, occupied, rfl⟩ := retransLoop_popAges now _ rfl looped
  obtain ⟨wnd', popped, shape⟩ := Session.popAges_spec negAckRelease ages inv nodup occupied
  rw [shape]
  exact of_popped popped nodup occupied rfl rfl

theorem fpprotoLockQdisc_sameEpoch (st : Session) : st.SameEpoch (fpprotoLockQdisc st).2 0 := by
  unfold fpprotoLockQdisc
  dsimp only
  split
  · exact of_wnd rfl rfl rfl
  · split <;> exact of_wnd rfl rfl rfl

theorem fpprotoUnlockQdisc_sameEpoch (sch : Option Qdisc) (st : Session) :
    st.SameEpoch (fpprotoUnlockQdisc sch st) 0 := by
  cases sch <;> exact of_wnd rfl rfl rfl

theorem retransTasklet_sameEpoch
    (inv : st.wnd.Inv)
    {now : BitVec 64}
    (ran : retransTasklet st now = .ok st') :
    st.SameEpoch st' 0 := by
  have locked := fpprotoLockQdisc_sameEpoch st
  have lockedInv : (fpprotoLockQdisc st).2.wnd.Inv := (fpprotoLockQdisc_wnd_ledger st).1 ▸ inv
  unfold retransTasklet at ran
  split at ran
  · rename_i stL lockedEq
    rw [lockedEq] at locked
    cases ran
    exact locked
  · rename_i sch stL lockedEq
    rw [lockedEq] at locked lockedInv
    split at ran
    · cases ran
    · rename_i st1 looped
      cases ran
      exact (locked.trans (retransLoop_sameEpoch lockedInv looped)).trans
        (fpprotoUnlockQdisc_sameEpoch _ _)
    · rename_i st1 seqno timeout looped
      cases ran
      exact ((locked.trans (retransLoop_sameEpoch lockedInv looped)).trans
        (@of_wnd st1 { st1 with
          earliestUnacked := seqno, retransTimer := hrtimerStart st1.retransTimer timeout }
          rfl rfl rfl)).trans (fpprotoUnlockQdisc_sameEpoch _ _)

theorem fpprotoDestroySock_sameEpoch
    (inv : st.wnd.Inv)
    (destroyed : fpprotoDestroySock st = .ok st') :
    st.SameEpoch st' 0 := by
  obtain ⟨w', drained, reset⟩ := outwndReset_spec inv
  simp only [fpprotoDestroySock, fpprotoSetQdisc, drained, except_ok_bind] at destroyed
  cases destroyed
  exact of_drained reset.heldFrom_eq_nil reset.nextSeqno rfl rfl

end Pops

/-! ## Committing a packet -/

/-- `fpproto_commit_packet` onto a free edge commits one descriptor stamped for the epoch. -/
theorem fpprotoCommitPacket_sameEpoch
    {st st' : Session}
    (free : st.wnd.occupiedAge (fastpassOutwndLen - 1) = false)
    {pd : Pktdesc}
    {timestamp : BitVec 64}
    (committed : fpprotoCommitPacket st pd timestamp = .ok st') :
    st.SameEpoch st' 1 := by
  have shape : st'.wnd = st.wnd.added (st.stamp pd timestamp) ∧
    st'.lastResetTime = st.lastResetTime ∧
      st'.inSync = st.inSync := by
    rw [fpprotoCommitPacket_of_free free] at committed
    cases committed
    split <;> exact ⟨rfl, rfl, rfl⟩
  obtain ⟨wnd, lastResetTime, inSync⟩ := shape
  refine ⟨lastResetTime, inSync, by rw [wnd, added_nextSeqno]; rfl, fun p member => ?_⟩
  rw [wnd, heldFrom_added free, List.mem_cons, Option.some_inj] at member
  rcases member with rfl | earlier
  · exact .inr ⟨rfl, rfl⟩
  · exact .inl earlier

/-! ## One call, and runs -/

section Run

variable (jhash1Word : BitVec 32 → BitVec 32 → BitVec 32)

/--
Every call but a RESET payload continues the epoch, committing the descriptor
it sends, if any.
-/
theorem Op.apply_sameEpoch {st st' : Session} (inv : st.wnd.Inv) :
    ∀ {op : Op}, op.isHandleReset = false → op.apply jhash1Word st = .ok st' →
      st.SameEpoch st' op.committed.length
  | .send pd timestamp, _, applied => by
    obtain ⟨st1, prepared, inv1, free1, -⟩ := fpprotoPrepareToSend_step inv
    simp only [Op.apply, prepared, except_ok_bind] at applied
    exact (fpprotoPrepareToSend_sameEpoch inv prepared).trans
      (fpprotoCommitPacket_sameEpoch free1 applied)
  | .handleAck _ _, _, applied => fpprotoHandleAck_sameEpoch inv applied
  | .tasklet _, _, applied =>
    (@of_wnd st { st with taskletScheduled := false } rfl rfl rfl).trans
      (retransTasklet_sameEpoch inv applied)
  | .cancelAndReset, _, applied => cancelAndResetRetransTimer_sameEpoch inv applied
  | .timerExpire, _, applied | .setQdisc _, _, applied => by
    cases applied
    exact of_wnd rfl rfl rfl
  | .callbackReturn, _, applied => by
    cases applied
    unfold retransTimerReturn retransTimerFunc
    split <;> exact of_wnd rfl rfl rfl
  | .destroy, _, applied => fpprotoDestroySock_sameEpoch inv applied

/--
Over every run without RESET payloads from a window with the invariant, the
session stays in its epoch and sync state, `next_seqno` advances by exactly
the number of packets committed, and every descriptor held at the end was held
at the start or committed in the run, stamped with the epoch's reset time and
with a reset request exactly when the session is out of sync.
-/
theorem run_sameEpoch : ∀ (ops : List Op), (∀ op ∈ ops, op.isHandleReset = false) →
    ∀ {st st' : Session}, st.wnd.Inv → run jhash1Word st ops = .ok st' →
      st.SameEpoch st' (ops.flatMap Op.committed).length
  | [], _, _, _, _, ran => by
    cases ran
    exact refl _
  | op :: ops, noReset, _, _, inv, ran => by
    obtain ⟨st1, applied, rest⟩ := bind_eq_ok.mp ran
    have first := Op.apply_sameEpoch jhash1Word inv (noReset op (List.mem_cons_self _ _)) applied
    have later := run_sameEpoch ops (fun op' member => noReset op' (List.mem_cons_of_mem _ member))
      (Op.apply_step jhash1Word inv applied).1 rest
    rw [List.flatMap_cons, List.length_append]
    exact first.trans later

/-- A packet sent from a freshly allocated socket, as an instance of the hypotheses. -/
theorem run_sameEpoch_send :
    let st := Session.allocated ⟨false, false, false, false⟩ 1 0
    let ops := [Op.send ⟨1, 0, 0, false, 0, []⟩ 0]
    (∀ op ∈ ops, op.isHandleReset = false) ∧ st.wnd.Inv ∧
      ∃ st', run (fun _ _ => 0) st ops = .ok st' ∧
        st.SameEpoch st' (ops.flatMap Op.committed).length := by
  intro st ops
  have inv : st.wnd.Inv := Session.allocated_inv _ _ _
  obtain ⟨st', ran⟩ := run_ok (fun _ _ => 0) ops inv (by decide)
  exact ⟨by decide, inv, st', ran, run_sameEpoch (fun _ _ => 0) ops (by decide) inv ran⟩

/-- `fpproto_handle_reset` keeps what the window holds in the current epoch. -/
theorem fpprotoHandleReset_epochInv
    {st st' : Session}
    (inv : st.wnd.Inv)
    (epoch : st.EpochInv)
    {partialTstamp now : BitVec 64}
    (reset : fpprotoHandleReset jhash1Word st partialTstamp now = .ok st') :
    st'.EpochInv := by
  obtain ⟨wnd, -, empty, -, drained⟩ := doProtoReset_spec jhash1Word inv
    (fullTstamp now partialTstamp)
  simp only [fpprotoHandleReset] at reset
  split_ifs at reset <;> (try rw [drained] at reset) <;> cases reset
  · exact ⟨epoch.stamped, fun synced => Bool.noConfusion synced⟩
  all_goals first
    | exact ⟨epoch.stamped, epoch.requested⟩
    | exact .of_drained (heldFrom_eq_nil_of_free empty)

/--
A RESET payload at most puts the session in sync, and puts it in sync whenever
it moves the reset time.
-/
theorem fpprotoHandleReset_inSync
    {st st' : Session}
    {partialTstamp now : BitVec 64}
    (reset : fpprotoHandleReset jhash1Word st partialTstamp now = .ok st') :
    (st.inSync = true → st'.inSync = true) ∧
      (st'.lastResetTime ≠ st.lastResetTime → st'.inSync = true) := by
  have counted : (st.inSync = true → st.inSync = true) ∧
      (st.lastResetTime ≠ st.lastResetTime → st.inSync = true) :=
        ⟨id, fun moved => absurd rfl moved⟩
  simp only [fpprotoHandleReset] at reset
  split_ifs at reset
  · -- the reset time of the epoch itself: now in sync
    cases reset
    exact ⟨fun _ => rfl, fun _ => rfl⟩
  · cases reset
    exact counted
  · cases reset
    exact counted
  · cases reset
    exact counted
  · -- accepted: a new epoch, in sync
    obtain ⟨_, -, done⟩ := bind_eq_ok.mp reset
    cases done
    exact ⟨fun _ => rfl, fun _ => rfl⟩

/--
Over every run from a window with the invariant, a session in sync stays in
sync, and a session whose reset time has moved is in sync: only a RESET
payload moves the epoch, and it then puts the session in sync.
-/
theorem run_inSync : ∀ (ops : List Op) {st st' : Session}, st.wnd.Inv →
    run jhash1Word st ops = .ok st' →
    (st.inSync = true → st'.inSync = true) ∧
      (st'.lastResetTime ≠ st.lastResetTime → st'.inSync = true)
  | [], _, _, _, ran => by
    cases ran
    exact ⟨id, fun moved => absurd rfl moved⟩
  | op :: ops, st, st', inv, ran => by
    obtain ⟨st1, applied, rest⟩ := bind_eq_ok.mp ran
    have first : (st.inSync = true → st1.inSync = true) ∧
        (st1.lastResetTime ≠ st.lastResetTime → st1.inSync = true) := by
      cases reset : op.isHandleReset
      · have same := Op.apply_sameEpoch jhash1Word inv reset applied
        exact ⟨fun synced => same.inSync.trans synced, fun moved => absurd same.lastResetTime moved⟩
      · cases op <;> simp only [Op.isHandleReset, Bool.false_eq_true] at reset
        exact fpprotoHandleReset_inSync jhash1Word applied
    obtain ⟨stays, moves⟩ := run_inSync ops (Op.apply_step jhash1Word inv applied).1 rest
    refine ⟨fun synced => stays (first.1 synced), fun moved => ?_⟩
    by_cases later : st'.lastResetTime = st1.lastResetTime
    · exact stays (first.2 (later ▸ moved))
    · exact moves later

/--
A session in sync accepts a RESET, which moves its reset time, then sends, as
an instance of the hypotheses.
-/
theorem run_inSync_accepted :
    let st : Session := { Session.allocated ⟨false, false, false, false⟩ 1 1000 with
      inSync := true }
    let ops := [Op.handleReset 500 500, .send ⟨1, 0, 0, false, 0, []⟩ 0]
    st.wnd.Inv ∧ st.inSync = true ∧ ∃ st', run (fun _ _ => 0) st ops = .ok st' ∧
      st'.lastResetTime ≠ st.lastResetTime ∧
      (st.inSync = true → st'.inSync = true) ∧
      (st'.lastResetTime ≠ st.lastResetTime → st'.inSync = true) := by
  intro st ops
  have inv : st.wnd.Inv := Session.allocated_inv ⟨false, false, false, false⟩ 1 1000
  obtain ⟨st1, reset, last, -⟩ := @fpprotoHandleReset_accepted (fun _ _ => 0) st inv 500 500
    (by decide) (by decide) (by decide)
  have accepted : Op.apply (fun _ _ => 0) st (.handleReset 500 500) = .ok st1 := reset
  obtain ⟨st', ran⟩ := run_ok (fun _ _ => 0) ops inv (by decide)
  have sent : Op.apply (fun _ _ => 0) st1 (.send ⟨1, 0, 0, false, 0, []⟩ 0) = .ok st' := by
    rw [← ran, run, accepted, except_ok_bind, run_singleton]
  have same :=
    Op.apply_sameEpoch (fun _ _ => 0) (Op.apply_step (fun _ _ => 0) inv accepted).1 (by rfl) sent
  refine ⟨inv, rfl, st', ran, ?_, run_inSync (fun _ _ => 0) ops inv ran⟩
  rw [same.lastResetTime, last]
  decide

/-- Every call keeps what the window holds in the current epoch. -/
theorem Op.apply_epochInv
    {st st' : Session}
    (inv : st.wnd.Inv)
    (epoch : st.EpochInv)
    {op : Op}
    (applied : op.apply jhash1Word st = .ok st') :
    st'.EpochInv := by
  cases reset : op.isHandleReset
  · exact (Op.apply_sameEpoch jhash1Word inv reset applied).epochInv epoch
  · cases op <;> simp only [Op.isHandleReset, Bool.false_eq_true] at reset
    exact fpprotoHandleReset_epochInv jhash1Word inv epoch applied

theorem run_epochInv : ∀ (ops : List Op) {st st' : Session}, st.wnd.Inv → st.EpochInv →
    run jhash1Word st ops = .ok st' → st'.EpochInv
  | [], _, _, _, epoch, ran => by
    cases ran
    exact epoch
  | op :: ops, _, _, inv, epoch, ran => by
    obtain ⟨st1, applied, rest⟩ := bind_eq_ok.mp ran
    exact run_epochInv ops (Op.apply_step jhash1Word inv applied).1
      (Op.apply_epochInv jhash1Word inv epoch applied) rest

/-- From `fpproto_sk_init`, every state a run reaches holds only packets of its epoch. -/
theorem reached_epochInv
    (callbacks : Ops)
    (sendTimeoutUs rstWinNs now : BitVec 64)
    (ops : List Op)
    {st : Session}
    (reached :
      (fpprotoSkInit jhash1Word (Session.allocated callbacks sendTimeoutUs rstWinNs) now >>=
        fun st0 => run jhash1Word st0 ops) = .ok st) :
    st.EpochInv := by
  obtain ⟨wnd, inv0, empty, -, init⟩ :=
    fpprotoSkInit_spec jhash1Word callbacks sendTimeoutUs rstWinNs now
  rw [init, except_ok_bind] at reached
  exact run_epochInv jhash1Word ops inv0 (.of_drained (heldFrom_eq_nil_of_free empty)) reached

/--
From `fpproto_sk_init`, over every run of calls, every descriptor the window
holds was committed in the current epoch: it carries the current reset time.
While the session is out of sync, each also requests the reset: the packet
`fpproto_send_packet` builds for it carries, right after the header, the RESET
payload of the low 56 bits of the current reset time.
-/
theorem held_in_current_epoch
    (callbacks : Ops)
    (sendTimeoutUs rstWinNs now : BitVec 64)
    (ops : List Op)
    {st : Session}
    (reached :
      (fpprotoSkInit jhash1Word (Session.allocated callbacks sendTimeoutUs rstWinNs) now >>=
        fun st0 => run jhash1Word st0 ops) = .ok st) :
    ∀ pd, some pd ∈ st.wnd.heldFrom 0 →
      pd.resetTimestamp = st.lastResetTime ∧
      (st.inSync = false → pd.sendReset = true ∧
        ∃ rest, fpprotoPacketData pd = htons (pd.seqno.setWidth 16) ++ htons 0 ++
          (Payload.reset 0 (st.lastResetTime.setWidth 56)).ser ++ rest) := by
  have epoch := reached_epochInv jhash1Word callbacks sendTimeoutUs rstWinNs now ops reached
  intro pd member
  have stamp := epoch.stamped pd member
  refine ⟨stamp, fun unsynced => ?_⟩
  have sending := epoch.requested unsynced pd member
  exact ⟨sending, stamp ▸ fpprotoPacketData_reset sending⟩

/-- A packet sent after `fpproto_sk_init`, as an instance of the hypothesis. -/
theorem held_in_current_epoch_send :
    let ops := [Op.send ⟨1, 0, 0, false, 0, []⟩ 0]
    ∃ st, (fpprotoSkInit (fun _ _ => 0) (Session.allocated ⟨false, false, false, false⟩ 1 0) 0 >>=
        fun st0 => run (fun _ _ => 0) st0 ops) = .ok st ∧
      ∀ pd, some pd ∈ st.wnd.heldFrom 0 →
        pd.resetTimestamp = st.lastResetTime ∧
        (st.inSync = false → pd.sendReset = true ∧
          ∃ rest, fpprotoPacketData pd = htons (pd.seqno.setWidth 16) ++ htons 0 ++
            (Payload.reset 0 (st.lastResetTime.setWidth 56)).ser ++ rest) := by
  intro ops
  obtain ⟨st0, init, inv0, -⟩ := fpprotoSkInit_ledger (fun _ _ => 0) ⟨false, false, false, false⟩
    1 0 0
  obtain ⟨st, ran⟩ := run_ok (fun _ _ => 0) ops inv0 (by decide)
  have reached :
      (fpprotoSkInit (fun _ _ => 0) (Session.allocated ⟨false, false, false, false⟩ 1 0) 0 >>=
        fun st0 => run (fun _ _ => 0) st0 ops) = .ok st := by
    rw [init, except_ok_bind, ran]
  exact ⟨st, reached, held_in_current_epoch (fun _ _ => 0) ⟨false, false, false, false⟩
    1 0 0 ops reached⟩

/--
The reset handshake completes without losing a packet.  From
`fpproto_sk_init`, in every state a run reaches out of sync, the controller's
echo of the RESET request a packet in flight carries, received at a clock
reading less than `2^55` from the reset time, puts the session in sync and
changes nothing else: the window keeps every packet.
-/
theorem reset_echo_syncs
    (callbacks : Ops)
    (sendTimeoutUs rstWinNs now : BitVec 64)
    (ops : List Op)
    {st : Session}
    (reached :
      (fpprotoSkInit jhash1Word (Session.allocated callbacks sendTimeoutUs rstWinNs) now >>=
        fun st0 => run jhash1Word st0 ops) = .ok st)
    (unsynced : st.inSync = false)
    {pd : Pktdesc}
    (held : some pd ∈ st.wnd.heldFrom 0)
    (clock : Nat → BitVec 64)
    (pre post : List (BitVec 8))
    (ignored : BitVec 4)
    (near : (st.lastResetTime - (clock pre.length - ((1 : BitVec 64) <<< 55))).toNat < 2 ^ 56) :
    handlePayloadOnce jhash1Word clock
        (pre ++ (Payload.reset ignored (pd.resetTimestamp.setWidth 56)).ser ++ post) pre.length st =
      .ok ({ st with inSync := true }, .handled (pre.length + 8)) := by
  have stamp :=
    (reached_epochInv jhash1Word callbacks sendTimeoutUs rstWinNs now ops reached).stamped pd held
  -- the 56 bits on the wire rebuild the reset time itself
  have full : fullTstamp (clock pre.length) ((pd.resetTimestamp.setWidth 56).setWidth 64) =
    st.lastResetTime := by
    refine ((fullTstamp_spec _ _).2.2 st.lastResetTime near ?_).symm
    simp only [stamp, BitVec.toNat_setWidth, Nat.mod_mod]
    omega
  rw [handlePayloadOnce_reset, fpprotoHandleReset]
  simp [full, unsynced, Except.map]

/--
A packet sent after `fpproto_sk_init` at time `7`, its request echoed back at
that clock reading.
-/
theorem reset_echo_syncs_send :
    ∃ st pd,
      (fpprotoSkInit (fun _ _ => 0) (Session.allocated ⟨false, false, false, false⟩ 1 0) 7 >>=
        fun st0 => run (fun _ _ => 0) st0 [Op.send ⟨1, 0, 0, false, 0, []⟩ 0]) = .ok st ∧
      st.inSync = false ∧ some pd ∈ st.wnd.heldFrom 0 ∧
      (st.lastResetTime - ((fun _ => (7 : BitVec 64))
        ([] : List (BitVec 8)).length - ((1 : BitVec 64) <<< 55))).toNat <
        2 ^ 56 ∧
      handlePayloadOnce (fun _ _ => 0) (fun _ => 7)
        ([] ++ (Payload.reset 0 (pd.resetTimestamp.setWidth 56)).ser ++ [])
        ([] : List (BitVec 8)).length st = .ok ({ st with inSync := true },
          .handled (([] : List (BitVec 8)).length + 8)) := by
  obtain ⟨wnd, -, empty, -, init⟩ := fpprotoSkInit_spec (fun _ _ => 0) ⟨false, false, false, false⟩
    1 0 7
  set st0 : Session := { Session.allocated ⟨false, false, false, false⟩ 1 0 with
    wnd := wnd, lastResetTime := 7 }
  have free : st0.wnd.occupiedAge (fastpassOutwndLen - 1) = false := empty _
  obtain ⟨st, committed, window, unsynced, resetTime⟩ : ∃ st,
      fpprotoCommitPacket st0 ⟨1, 0, 0, false, 0, []⟩ 0 = .ok st ∧
      st.wnd = st0.wnd.added (st0.stamp ⟨1, 0, 0, false, 0, []⟩ 0) ∧ st.inSync = false ∧
        st.lastResetTime = 7 := by
    rw [fpprotoCommitPacket_of_free free]
    split <;> exact ⟨_, rfl, rfl, rfl, rfl⟩
  have reached :
      (fpprotoSkInit (fun _ _ => 0) (Session.allocated ⟨false, false, false, false⟩ 1 0) 7 >>=
        fun st0 => run (fun _ _ => 0) st0 [Op.send ⟨1, 0, 0, false, 0, []⟩ 0]) = .ok st := by
    rw [init, except_ok_bind]
    simp only [run, Op.apply, fpprotoPrepareToSend_of_free free, except_ok_bind, committed]
  have held : some (st0.stamp ⟨1, 0, 0, false, 0, []⟩ 0) ∈ st.wnd.heldFrom 0 := by
    rw [window, heldFrom_added free]
    exact List.mem_cons_self _ _
  have near : (st.lastResetTime - ((fun _ => (7 : BitVec 64)) ([] : List (BitVec 8)).length -
      ((1 : BitVec 64) <<< 55))).toNat < 2 ^ 56 := by
    rw [resetTime]
    decide
  exact ⟨st, _, reached, unsynced, held, near,
    reset_echo_syncs (fun _ _ => 0) ⟨false, false, false, false⟩ 1 0 7 _ reached unsynced held
      (fun _ => 7) [] [] 0 near⟩

end Run

end Fastpass
