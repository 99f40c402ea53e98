import Fastpass.OutwndReset

namespace Fastpass

/-!
# The Fastpass session

`struct fastpass_sock` holds the outstanding window together with the reset
epoch, the retransmission timer and tasklet, the statistics counters and the
pointers to the upper layer (the qdisc and its callbacks).  This module models
that state and the operations of the reliability core that change it outside
the three loops (ACK processing, the retransmission tasklet and the payload
parser), which have modules of their own.

Every call the core makes to the outside world is appended to `Session.log`:
the upper layer's callbacks, the frees of descriptors, and the lock and
reference operations of the receive path.  Ownership and locking properties
are statements about this log.

The kernel services the core relies on are modelled from their documented
behaviour: `hrtimer_try_to_cancel` returns `1` after deactivating an armed
timer, `0` for an inactive one and `-1` while the callback runs; the clock
`fp_get_time_ns` is an input of every operation that reads it; and
`jhash_1word` is a parameter of everything that derives sequence numbers from
a reset time.
-/

/-- `x >>= f` succeeds exactly when `x` succeeds and `f` succeeds on its value. -/
theorem bind_eq_ok {ε α β : Type} {x : Except ε α} {f : α → Except ε β} {b : β} :
    x >>= f = .ok b ↔ ∃ a, x = .ok a ∧ f a = .ok b := by
  cases x <;> simp [bind, Except.bind]

@[simp] theorem except_ok_bind {ε α β : Type} (a : α) (f : α → Except ε β) :
    (Except.ok a : Except ε α) >>= f = f a :=
  rfl

/-- `fp->ops`: which callbacks of the upper layer are installed (non-`NULL`). -/
structure Ops where
  handleReset : Bool
  handleAck : Bool
  handleNegAck : Bool
  handleAlloc : Bool
  deriving DecidableEq, Repr

/-- The qdisc behind `fp->qdisc`; the core reads only `limit`, zero once it is destroyed. -/
structure Qdisc where
  limit : Nat
  deriving DecidableEq, Repr

/-- The retransmission `hrtimer`: its expiry while enqueued, and whether its callback runs. -/
structure Hrtimer where
  armed : Option (BitVec 64)
  running : Bool
  deriving DecidableEq, Repr

/-- A call from the core to the outside world. -/
inductive Event where
  | handleReset
  | handleAck (pd : Option Pktdesc)
  | handleNegAck (pd : Option Pktdesc)
  | handleAlloc (baseTslot : BitVec 32) (dst : List (BitVec 16)) (tslots : List (BitVec 8))
  | pktdescFree (pd : Option Pktdesc)
  | rcuReadLockBh
  | rcuReadUnlockBh
  | spinLockBh
  | spinUnlockBh
  | sockPut
  | kfreeSkb
  deriving DecidableEq, Repr

/-- The `stat_*` counters of `struct fastpass_sock`. -/
structure Stats where
  rxPkts : Nat
  rxTooShort : Nat
  rxIncompleteReset : Nat
  rxIncompleteAlloc : Nat
  rxIncompleteAck : Nat
  rxUnknownPayload : Nat
  redundantReset : Nat
  resetOutOfWindow : Nat
  outdatedReset : Nat
  tooEarlyAck : Nat
  fallOffOutwnd : Nat
  xmitErrors : Nat
  skbAllocError : Nat
  deriving DecidableEq, Repr

/-- All counters at zero, as the socket is allocated. -/
def Stats.zero : Stats :=
  ⟨0, 0, 0, 0, 0, 0, 0, 0, 0, 0, 0, 0, 0⟩

/-- The protocol state of `struct fastpass_sock`. -/
structure Session where
  wnd : Outwnd
  lastResetTime : BitVec 64
  inSync : Bool
  earliestUnacked : BitVec 64
  sendTimeoutUs : BitVec 64
  rstWinNs : BitVec 64
  ops : Ops
  qdisc : Option Qdisc
  retransTimer : Hrtimer
  taskletScheduled : Bool
  stats : Stats
  log : List Event

/-- `hrtimer_try_to_cancel`, as the kernel documents it. -/
def hrtimerTryToCancel (timer : Hrtimer) : Int × Hrtimer :=
  if timer.running then
    (-1, timer)
  else
    match timer.armed with
    | some _ => (1, { timer with armed := none })
    | none => (0, timer)

/-- `hrtimer_start` in absolute mode: (re-)arm the timer. -/
def hrtimerStart (timer : Hrtimer) (expires : BitVec 64) : Hrtimer :=
  { timer with armed := some expires }

/-- `hrtimer_cancel`: wait for a running callback, then leave the timer inactive. -/
def hrtimerCancel (_ : Hrtimer) : Hrtimer :=
  ⟨none, false⟩

/-- The release of a popped descriptor: to the callback if installed, else freed by the core. -/
def ackRelease (ops : Ops) (pd : Option Pktdesc) : Event :=
  if ops.handleAck then .handleAck pd else .pktdescFree pd

/-- The release of a negatively acknowledged descriptor. -/
def negAckRelease (ops : Ops) (pd : Option Pktdesc) : Event :=
  if ops.handleNegAck then .handleNegAck pd else .pktdescFree pd

namespace Session

/-- Pop the slot of age `a` and hand its descriptor to `release`. -/
def popAge (release : Ops → Option Pktdesc → Event) (st : Session) (a : Nat) : Session :=
  { st with
    wnd := st.wnd.clearSlot (st.wnd.slot a)
    log := st.log ++ [release st.ops (st.wnd.bins (st.wnd.slot a))] }

/-- Pop the slots of `ages` in order. -/
def popAges (release : Ops → Option Pktdesc → Event) (st : Session) (ages : List Nat) : Session :=
  ages.foldl (popAge release) st

end Session

/-- `do_ack_seqno`: pop an in-window, occupied sequence number and hand it to `handle_ack`. -/
def doAckSeqno (st : Session) (seqno : BitVec 64) : Except Crash Session := do
  if timeAfterEq64 seqno st.wnd.nextSeqno then throw .doAckSeqno
  if timeBefore64 seqno (st.wnd.nextSeqno - outwndLen64) then throw .doAckSeqno
  if !outwndIsUnacked st.wnd seqno then throw .doAckSeqno
  let (pd, wnd) ← outwndPop st.wnd seqno
  pure { st with wnd := wnd, log := st.log ++ [ackRelease st.ops pd] }

/-- `do_neg_ack_seqno`: pop a sequence number and hand it to `handle_neg_ack`. -/
def doNegAckSeqno (st : Session) (seq : BitVec 64) : Except Crash Session := do
  let (pd, wnd) ← outwndPop st.wnd seq
  pure { st with wnd := wnd, log := st.log ++ [negAckRelease st.ops pd] }

/--
`cancel_and_reset_retrans_timer`: unless the timer cannot be cancelled (any
non-zero result of `hrtimer_try_to_cancel`), re-arm it for the earliest
unacknowledged packet.
-/
def cancelAndResetRetransTimer (st : Session) : Except Crash Session := do
  let (result, timer) := hrtimerTryToCancel st.retransTimer
  let st := { st with retransTimer := timer }
  if result ≠ 0 then return st
  if outwndEmpty st.wnd then return st
  let seqno ← outwndEarliestUnacked st.wnd
  let sent ← outwndTimestamp st.wnd seqno
  let timeout := sent + st.sendTimeoutUs
  pure { st with earliestUnacked := seqno, retransTimer := hrtimerStart st.retransTimer timeout }

/-- `retrans_timer_func`, run as its callback returns: schedule the tasklet. -/
def retransTimerFunc (st : Session) : Session :=
  { st with taskletScheduled := true }

/-- Append calls to the log. -/
def Session.emit (st : Session) (events : List Event) : Session :=
  { st with log := st.log ++ events }

@[simp] theorem Session.emit_wnd
    (st : Session)
    (events : List Event) :
    (st.emit events).wnd = st.wnd :=
  rfl

/-- `fpproto_lock_qdisc`: the qdisc, locked, unless it is gone or raced with its destroy. -/
def fpprotoLockQdisc (st : Session) : Option Qdisc × Session :=
  let st := st.emit [.rcuReadLockBh]
  match st.qdisc with
  | none => (none, st.emit [.rcuReadUnlockBh])
  | some sch =>
    let st := st.emit [.spinLockBh]
    if sch.limit = 0 then (none, st.emit [.spinUnlockBh, .rcuReadUnlockBh])
    else (some sch, st)

/-- `fpproto_unlock_qdisc`. -/
def fpprotoUnlockQdisc (sch : Option Qdisc) (st : Session) : Session :=
  match sch with
  | none => st
  | some _ => st.emit [.spinUnlockBh, .rcuReadUnlockBh]

/-- `fpproto_set_qdisc`. -/
def fpprotoSetQdisc (st : Session) (newQdisc : Option Qdisc) : Session :=
  { st with qdisc := newQdisc }

/--
`fpproto_prepare_to_send`: if the slot the next packet will take still holds
the packet `W` back, treat that packet as dropped.
-/
def fpprotoPrepareToSend (st : Session) : Except Crash Session := do
  let windowEdge := st.wnd.nextSeqno - outwndLen64
  if outwndIsUnacked st.wnd windowEdge then
    let st := { st with stats := { st.stats with fallOffOutwnd := st.stats.fallOffOutwnd + 1 } }
    let st ← doNegAckSeqno st windowEdge
    cancelAndResetRetransTimer st
  else
    pure st

/-- The four fields `fpproto_commit_packet` writes into the descriptor before adding it. -/
def Session.stamp (st : Session) (pd : Pktdesc) (timestamp : BitVec 64) : Pktdesc :=
  { pd with
    sentTimestamp := timestamp
    seqno := st.wnd.nextSeqno
    sendReset := !st.inSync
    resetTimestamp := st.lastResetTime }

/--
`fpproto_commit_packet`: stamp the descriptor, add it to the window, and arm
the timer if it is the only packet outstanding.
-/
def fpprotoCommitPacket (st : Session) (pd : Pktdesc) (timestamp : BitVec 64) :
    Except Crash Session := do
  let pd := st.stamp pd timestamp
  let wnd ← outwndAdd st.wnd pd
  let st := { st with wnd := wnd }
  if st.wnd.txNumUnacked = 1 then
    let timeout := pd.sentTimestamp + st.sendTimeoutUs
    pure { st with
      earliestUnacked := pd.seqno, retransTimer := hrtimerStart st.retransTimer timeout }
  else
    pure st

section Reset

variable (jhash1Word : BitVec 32 → BitVec 32 → BitVec 32)

/-- The first sequence number of an epoch: `reset_time + hash + (hash << 32)`. -/
def epochSeqno (resetTime : BitVec 64) : BitVec 64 :=
  let timeHash := jhash1Word (resetTime.setWidth 32) ((resetTime >>> 32).setWidth 32)
  resetTime + timeHash.setWidth 64 + (timeHash.setWidth 64 <<< 32)

/-- `do_proto_reset`: drain the window and start the epoch of `reset_time`. -/
def doProtoReset (st : Session) (resetTime : BitVec 64) : Except Crash Session := do
  let (freed, wnd) ← outwndReset st.wnd
  pure { st with
    wnd := { wnd with nextSeqno := epochSeqno jhash1Word resetTime }
    lastResetTime := resetTime
    log := st.log ++ freed.map .pktdescFree }

/--
The socket as `sk_alloc` hands it to `fpproto_sk_init`: zeroed, with the
fields its creator sets (`ops` and the two timeouts) already filled in.
-/
def Session.allocated (ops : Ops) (sendTimeoutUs rstWinNs : BitVec 64) : Session where
  wnd := ⟨fun _ => false, fun _ => none, 0, 0⟩
  lastResetTime := 0
  inSync := false
  earliestUnacked := 0
  sendTimeoutUs := sendTimeoutUs
  rstWinNs := rstWinNs
  ops := ops
  qdisc := none
  retransTimer := ⟨none, false⟩
  taskletScheduled := false
  stats := Stats.zero
  log := []

/-- The window of a freshly allocated socket is empty and keeps the invariant. -/
theorem Session.allocated_inv (ops : Ops) (sendTimeoutUs rstWinNs : BitVec 64) :
    (Session.allocated ops sendTimeoutUs rstWinNs).wnd.Inv :=
  ⟨fun _ _ => rfl, fun _ _ => rfl, by simp [Outwnd.lowPopcount, Session.allocated],
    fun _ _ _ held => by cases held⟩

/-- `fpproto_sk_init` at clock reading `now`. -/
def fpprotoSkInit (st : Session) (now : BitVec 64) : Except Crash Session := do
  let st := { st with
    qdisc := none
    wnd := { st.wnd with binMask := fun _ => false }
    retransTimer := ⟨none, false⟩
    taskletScheduled := false }
  let st ← doProtoReset jhash1Word st now
  pure { st with inSync := false }

end Reset

/-- `fpproto_destroy_sock`: detach the qdisc, drain the window, stop the timer and the tasklet. -/
def fpprotoDestroySock (st : Session) : Except Crash Session := do
  let st := fpprotoSetQdisc st none
  let (freed, wnd) ← outwndReset st.wnd
  pure { st with
    wnd := wnd
    log := st.log ++ freed.map .pktdescFree
    retransTimer := hrtimerCancel st.retransTimer
    taskletScheduled := false }

open Outwnd

namespace Session

@[simp] theorem popAge_wnd (release : Ops → Option Pktdesc → Event) (st : Session) (a : Nat) :
    (st.popAge release a).wnd = st.wnd.clearSlot (st.wnd.slot a) := rfl

theorem popAges_cons
    (release : Ops → Option Pktdesc → Event)
    (st : Session)
    (a : Nat)
    (ages : List Nat) :
    st.popAges release (a :: ages) = (st.popAge release a).popAges release ages :=
  rfl

/--
Popping distinct occupied ages empties exactly those slots and releases their
descriptors in order; no other field of the session changes.
-/
theorem popAges_spec (release : Ops → Option Pktdesc → Event) :
    ∀ (ages : List Nat) {st : Session}, st.wnd.Inv → ages.Nodup →
      (∀ a ∈ ages, st.wnd.occupiedAge a = true) →
      ∃ wnd', st.wnd.PoppedAges ages wnd' ∧
        st.popAges release ages = { st with
          wnd := wnd'
          log := st.log ++ ages.map fun a => release st.ops (st.wnd.bins (st.wnd.slot a)) }
  | [], st, inv, _, _ => ⟨st.wnd, ⟨inv, rfl, fun _ => by simp, fun _ _ _ => rfl⟩, by simp [popAges]⟩
  | a :: ages, st, inv, nodup, occupied => by
    have aOccupied := occupied a (List.mem_cons_self a ages)
    have aYoung := young_of_occupied aOccupied
    have notA : ∀ b ∈ ages, b ≠ a := fun b member same =>
      (List.nodup_cons.mp nodup).1 (same ▸ member)
    have restOccupied : ∀ b ∈ ages, (st.popAge release a).wnd.occupiedAge b = true := by
      intro b member
      simp [clearSlot_occupiedAge aYoung, occupied b (List.mem_cons_of_mem a member),
        notA b member]
    obtain ⟨wnd', popped, shape⟩ := popAges_spec release ages (clearSlot_inv inv aOccupied)
      (List.nodup_cons.mp nodup).2 restOccupied
    rw [popAges_cons]
    simp only [popAge_wnd, clearSlot_slot] at popped shape
    have restBins : ∀ b, b < fastpassOutwndLen → b ≠ a →
        (st.wnd.clearSlot (st.wnd.slot a)).bins (st.wnd.slot b) = st.wnd.bins (st.wnd.slot b) :=
      fun b young other => clearSlot_bins_slot aYoung young other
    refine ⟨wnd', ⟨popped.inv, popped.nextSeqno, fun b => ?_, fun b young notMember => ?_⟩, ?_⟩
    · rw [popped.occupiedAge, clearSlot_occupiedAge aYoung]
      by_cases same : b = a
      · simp [same]
      · simp [same, List.contains_cons]
    · rw [List.mem_cons, not_or] at notMember
      have kept := popped.bins b young notMember.2
      rw [clearSlot_slot] at kept
      rw [kept]
      exact restBins b young notMember.1
    · rw [shape]
      simp only [popAge, List.map_cons, List.append_assoc, List.singleton_append]
      congr 3
      exact List.map_congr_left fun b member =>
        congrArg _ (restBins b (young_of_occupied (occupied b (List.mem_cons_of_mem a member)))
          (notA b member))

end Session

/-- `do_ack_seqno` on an occupied sequence number pops it and releases its descriptor. -/
theorem doAckSeqno_of_occupied
    {st : Session}
    {s : BitVec 64}
    (occupied : st.wnd.occupiedAge (st.wnd.age s) = true) :
    doAckSeqno st s = .ok (st.popAge ackRelease (st.wnd.age s)) := by
  have young := young_of_occupied occupied
  have notAfter : timeAfterEq64 s st.wnd.nextSeqno = false := by
    rw [Bool.eq_false_iff, ne_eq, timeAfterEq64_next_iff]
    rw [fastpassOutwndLen_eq] at young
    omega
  have notBefore : timeBefore64 s (st.wnd.nextSeqno - outwndLen64) = false := by
    rw [Bool.eq_false_iff, ne_eq, timeBefore64_edge_iff
      (by rw [fastpassOutwndLen_eq] at young; omega)]
    omega
  simp only [doAckSeqno, notAfter, notBefore, outwndIsUnacked_of_occupied occupied,
    outwndPop_of_occupied occupied]
  rfl

/-- `do_neg_ack_seqno` on an occupied sequence number pops it and releases its descriptor. -/
theorem doNegAckSeqno_of_occupied
    {st : Session}
    {s : BitVec 64}
    (occupied : st.wnd.occupiedAge (st.wnd.age s) = true) :
    doNegAckSeqno st s = .ok (st.popAge negAckRelease (st.wnd.age s)) := by
  simp only [doNegAckSeqno, outwndPop_of_occupied occupied]
  rfl

/-- A successful `do_ack_seqno` lowers the popcount. -/
theorem doAckSeqno_lowPopcount
    {st st' : Session}
    {s : BitVec 64}
    (acked : doAckSeqno st s = .ok st') :
    st'.wnd.lowPopcount < st.wnd.lowPopcount := by
  cases popped : outwndPop st.wnd s with
  | error e =>
    simp only [doAckSeqno, popped] at acked
    split at acked <;> (try split at acked) <;> (try split at acked) <;> cases acked
  | ok result =>
    rcases result with ⟨pd, w'⟩
    have smaller := outwndPop_lowPopcount popped
    simp only [doAckSeqno, popped] at acked
    split at acked <;> (try split at acked) <;> (try split at acked) <;> cases acked
    show w'.lowPopcount < _
    omega

/-- A successful `do_neg_ack_seqno` lowers the popcount. -/
theorem doNegAckSeqno_lowPopcount
    {st st' : Session}
    {s : BitVec 64}
    (nacked : doNegAckSeqno st s = .ok st') :
    st'.wnd.lowPopcount < st.wnd.lowPopcount := by
  cases popped : outwndPop st.wnd s with
  | error e => simp [doNegAckSeqno, popped] at nacked
  | ok result =>
    rcases result with ⟨pd, w'⟩
    have smaller := outwndPop_lowPopcount popped
    simp only [doNegAckSeqno, popped] at nacked
    cases nacked
    show w'.lowPopcount < _
    omega

end Fastpass
