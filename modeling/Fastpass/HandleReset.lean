import Fastpass.Session

namespace Fastpass

/-!
# The reset handshake

A RESET payload carries the low 56 bits of the sender's reset time.
`fpproto_handle_reset` rebuilds the full 64-bit time around the receiver's
clock, then accepts it only when it is new, inside the reset window around the
clock, and not older than a reset already accepted inside that window.
Accepting drains the outstanding window and starts the epoch of the new reset
time (`doProtoReset`).  `outwndReset_drains` says what the drain does, for
`do_proto_reset` and for `fpproto_destroy_sock` alike: every held descriptor is
freed once, the highest sequence number first, and the window is left cleared.

`fullTstamp_spec` says what the reconstruction computes.  For a run of RESET
payloads at non-decreasing clock readings that do not wrap the window bounds,
`fpprotoHandleReset_step` is the one-payload lemma and `handleResets_spec` the
run: the reset time only moves up, a timestamp at or below it leaves the window
and the log alone, and the window invariant is kept throughout.
-/

/--
The first two lines of `fpproto_handle_reset`: the 64-bit time whose low 56
bits are `partialTstamp`, around `now`.
-/
def fullTstamp (now partialTstamp : BitVec 64) : BitVec 64 :=
  let fullTstamp := now - ((1 : BitVec 64) <<< 55)
  fullTstamp + ((partialTstamp - fullTstamp) &&& (((1 : BitVec 64) <<< 56) - 1))

/-- `tstamp_in_window`. -/
def tstampInWindow (tstamp winMiddle winSize : BitVec 64) : Bool :=
  decide (winMiddle - winSize / 2 ≤ tstamp) && decide (tstamp < winMiddle + (winSize + 1) / 2)

section Reset

variable (jhash1Word : BitVec 32 → BitVec 32 → BitVec 32)

/-- `fpproto_handle_reset` for a payload timestamp `partialTstamp`, at clock reading `now`. -/
def fpprotoHandleReset (st : Session) (partialTstamp now : BitVec 64) : Except Crash Session :=
  let full := fullTstamp now partialTstamp
  if full = st.lastResetTime then
    if !st.inSync then .ok { st with inSync := true }
    else .ok { st with stats := { st.stats with redundantReset := st.stats.redundantReset + 1 } }
  else if !tstampInWindow full now st.rstWinNs then
    .ok { st with stats := { st.stats with resetOutOfWindow := st.stats.resetOutOfWindow + 1 } }
  else if tstampInWindow st.lastResetTime now st.rstWinNs && decide (full < st.lastResetTime) then
    .ok { st with stats := { st.stats with outdatedReset := st.stats.outdatedReset + 1 } }
  else do
    let st ← doProtoReset jhash1Word st full
    let st := { st with inSync := true }
    pure (st.emit (if st.ops.handleReset then [.handleReset] else []))

/-- Handle RESET payloads in order, each at its own clock reading; the states after each. -/
def handleResets (st : Session) : List (BitVec 64 × BitVec 64) → Except Crash (List Session)
  | [] => .ok []
  | (partialTstamp, now) :: rest => do
    let st ← fpprotoHandleReset jhash1Word st partialTstamp now
    let sts ← handleResets st rest
    pure (st :: sts)

end Reset

/-! ## The reconstruction -/

theorem mask56 (x : BitVec 64) :
    (x &&& (((1 : BitVec 64) <<< 56) - 1)).toNat = x.toNat % 2 ^ 56 := by
  rw [BitVec.toNat_and, show ((1 : BitVec 64) <<< 56 - 1).toNat = 2 ^ 56 - 1 from rfl,
    Nat.and_pow_two_sub_one_eq_mod]

/--
The rebuilt time lies in the `2^56` values from `now - 2^55` on (mod `2^64`),
agrees with the payload on the low 56 bits, and is the only such value.
-/
theorem fullTstamp_spec (now partialTstamp : BitVec 64) :
    (fullTstamp now partialTstamp - (now - ((1 : BitVec 64) <<< 55))).toNat < 2 ^ 56 ∧
      (fullTstamp now partialTstamp).toNat % 2 ^ 56 = partialTstamp.toNat % 2 ^ 56 ∧
      ∀ f : BitVec 64, (f - (now - ((1 : BitVec 64) <<< 55))).toNat < 2 ^ 56 →
        f.toNat % 2 ^ 56 = partialTstamp.toNat % 2 ^ 56 → f = fullTstamp now partialTstamp := by
  have low := mask56 (partialTstamp - (now - ((1 : BitVec 64) <<< 55)))
  have shift : ((1 : BitVec 64) <<< 55).toNat = 2 ^ 55 := rfl
  simp only [fullTstamp]
  exact ⟨by bv_omega, by bv_omega, fun f _ _ => by bv_omega⟩

/-! ## One payload -/

/-- The two bounds of the reset window around `now` are computed without wrapping around. -/
def ResetWindowFits (now winSize : BitVec 64) : Prop :=
  (now - winSize / 2).toNat = now.toNat - winSize.toNat / 2 ∧
    (now + (winSize + 1) / 2).toNat = now.toNat + (winSize.toNat + 1) / 2

instance (now winSize : BitVec 64) : Decidable (ResetWindowFits now winSize) :=
  inferInstanceAs (Decidable ((now - winSize / 2).toNat = now.toNat - winSize.toNat / 2 ∧
    (now + (winSize + 1) / 2).toNat = now.toNat + (winSize.toNat + 1) / 2))

/-- The reset time lies below the top of the reset window around `now`, or the window is empty. -/
def ResetBound (now : BitVec 64) (st : Session) : Prop :=
  st.lastResetTime.toNat < now.toNat + (st.rstWinNs.toNat + 1) / 2 ∨ st.rstWinNs.toNat = 0

/--
What one RESET payload may do to the session: the reset time stays or moves
up, and a payload whose rebuilt time is at or below it changes neither the
window (and so not `next_seqno`) nor the log (and so calls no `handle_reset`).
-/
structure ResetStep (partialTstamp now : BitVec 64) (st st' : Session) : Prop where
  monotone : st'.lastResetTime = st.lastResetTime ∨ st.lastResetTime < st'.lastResetTime
  stale : fullTstamp now partialTstamp ≤ st.lastResetTime →
    st'.wnd = st.wnd ∧ st'.log = st.log ∧ st'.lastResetTime = st.lastResetTime

theorem tstampInWindow_iff {tstamp now winSize : BitVec 64} (fits : ResetWindowFits now winSize) :
    tstampInWindow tstamp now winSize = true ↔
      now.toNat - winSize.toNat / 2 ≤ tstamp.toNat ∧
        tstamp.toNat < now.toNat + (winSize.toNat + 1) / 2 := by
  simp only [tstampInWindow, Bool.and_eq_true, decide_eq_true_eq, BitVec.le_def, BitVec.lt_def,
    fits.1, fits.2]

theorem ResetBound.mono
    {now now' : BitVec 64}
    {st : Session}
    (bound : ResetBound now st)
    (later : now ≤ now') :
    ResetBound now' st := by
  rw [BitVec.le_def] at later
  unfold ResetBound at *
  omega

section Reset

variable (jhash1Word : BitVec 32 → BitVec 32 → BitVec 32)

/--
`do_proto_reset` frees every held descriptor and leaves an empty window
numbered for the new epoch.
-/
theorem doProtoReset_spec {st : Session} (inv : st.wnd.Inv) (resetTime : BitVec 64) :
    ∃ wnd, wnd.Inv ∧ (∀ a, wnd.occupiedAge a = false) ∧
      wnd.nextSeqno = epochSeqno jhash1Word resetTime ∧
      doProtoReset jhash1Word st resetTime = .ok { st with
        wnd := wnd
        lastResetTime := resetTime
        log := st.log ++ (st.wnd.heldFrom 0).map .pktdescFree } := by
  obtain ⟨w', drained, reset⟩ := outwndReset_spec inv
  obtain ⟨renumbered, empty⟩ := reset.renumber (epochSeqno jhash1Word resetTime)
  refine ⟨_, renumbered, empty, rfl, ?_⟩
  simp only [doProtoReset, drained]
  rfl

/--
From every window with the invariant, `outwnd_reset` returns after one pop per
counted packet, each pop freeing the descriptor it takes.  It hands
`fpproto_pktdesc_free` every descriptor the window holds exactly once and no
other pointer, the highest sequence number first (ages increase).  It leaves
both halves of the mask clear, every bin `NULL`, the count at `0` and
`next_seqno` as it was.  `do_proto_reset` and `fpproto_destroy_sock` log these
frees in that order and leave the window cleared.
-/
theorem outwndReset_drains {st : Session} (inv : st.wnd.Inv) :
    ∃ held : List Pktdesc, ∃ wnd : Outwnd,
      outwndReset st.wnd = .ok (held.map some, wnd) ∧
      held.length = st.wnd.txNumUnacked ∧
      (∀ pd, pd ∈ held ↔ ∃ i < fastpassOutwndLen, st.wnd.bins i = some pd) ∧
      (held.map fun pd => st.wnd.age pd.seqno).Sorted (· < ·) ∧
      wnd.Cleared ∧ wnd.nextSeqno = st.wnd.nextSeqno ∧
      (∀ resetTime, ∃ st', doProtoReset jhash1Word st resetTime = .ok st' ∧ st'.wnd.Cleared ∧
        st'.log = st.log ++ held.map fun pd => .pktdescFree (some pd)) ∧
      ∃ st', fpprotoDestroySock st = .ok st' ∧ st'.wnd = wnd ∧
        st'.log = st.log ++ held.map fun pd => .pktdescFree (some pd) := by
  obtain ⟨wnd, drained, reset⟩ := outwndReset_spec inv
  obtain ⟨held, freed, heldAges, heldMem⟩ :=
    inv.held_of_occupied (st.wnd.occupiedFrom 0) fun a member =>
      (Outwnd.mem_occupiedFrom.mp member).2
  have frees : (st.wnd.heldFrom 0).map Event.pktdescFree = held.map fun pd =>
    .pktdescFree (some pd) := by
    rw [Outwnd.heldFrom, freed, List.map_map]
    rfl
  rw [Outwnd.heldFrom, freed] at drained
  refine ⟨held, wnd, drained, ?_, fun pd => (heldMem pd).trans (inv.held_iff pd), ?_, reset.cleared,
    reset.nextSeqno, fun resetTime => ?_, ?_⟩
  · rw [inv.count, Outwnd.lowPopcount_eq_length, ← heldAges, List.length_map]
  · rw [heldAges]
    exact Outwnd.occupiedFrom_sorted _ 0
  · obtain ⟨wnd', inv', free, -, reset'⟩ := doProtoReset_spec jhash1Word inv resetTime
    exact ⟨_, reset', inv'.cleared free, by rw [← frees]⟩
  · have destroyed : fpprotoDestroySock st = .ok { st with
        qdisc := none
        wnd := wnd
        log := st.log ++ held.map fun pd => .pktdescFree (some pd)
        retransTimer := hrtimerCancel st.retransTimer
        taskletScheduled := false } := by
      simp only [fpprotoDestroySock, fpprotoSetQdisc, drained, except_ok_bind, List.map_map]
      rfl
    exact ⟨_, destroyed, rfl, rfl⟩

theorem outwndReset_drains_sample :
    ∃ held : List Pktdesc, ∃ wnd : Outwnd,
      outwndReset Outwnd.sample = .ok (held.map some, wnd) ∧ held.length = 1 := by
  obtain ⟨held, wnd, drained, count, -⟩ := @outwndReset_drains (fun a _ => a)
    { Session.allocated ⟨false, false, false, false⟩ 0 0 with wnd := Outwnd.sample }
      Outwnd.sample_inv
  exact ⟨held, wnd, drained, count⟩

/-- An accepted reset time lies strictly above the previous one. -/
theorem accepted_gt
    {st : Session}
    {full now : BitVec 64}
    (fits : ResetWindowFits now st.rstWinNs)
    (bound : ResetBound now st)
    (fresh : full ≠ st.lastResetTime)
    (inWindow : tstampInWindow full now st.rstWinNs = true)
    (notOlder :
      ¬(tstampInWindow st.lastResetTime now st.rstWinNs && decide (full < st.lastResetTime)) =
        true) :
    st.lastResetTime.toNat < full.toNat := by
  rw [tstampInWindow_iff fits] at inWindow
  rw [Bool.and_eq_true, tstampInWindow_iff fits, decide_eq_true_eq, BitVec.lt_def] at notOlder
  have differ : full.toNat ≠ st.lastResetTime.toNat := fun same =>
    fresh (BitVec.eq_of_toNat_eq same)
  unfold ResetBound at bound
  omega

/--
One RESET payload, at a clock reading whose window bounds do not wrap and
below whose window top the reset time lies: it is handled without a crash,
keeps the window invariant and the bound, and is a `ResetStep`.
-/
theorem fpprotoHandleReset_step
    {st : Session}
    (inv : st.wnd.Inv)
    {partialTstamp now : BitVec 64}
    (fits : ResetWindowFits now st.rstWinNs)
    (bound : ResetBound now st) :
    ∃ st', fpprotoHandleReset jhash1Word st partialTstamp now = .ok st' ∧ st'.wnd.Inv ∧
      st'.rstWinNs = st.rstWinNs ∧ ResetBound now st' ∧ ResetStep partialTstamp now st st' := by
  have unchanged : ∀ st' : Session, st'.wnd = st.wnd → st'.log = st.log →
      st'.lastResetTime = st.lastResetTime → st'.rstWinNs = st.rstWinNs →
      st'.wnd.Inv ∧ st'.rstWinNs = st.rstWinNs ∧ ResetBound now st' ∧
        ResetStep partialTstamp now st st' := fun st' wnd log last win => by
    refine ⟨wnd ▸ inv, win, ?_, ⟨.inl last, fun _ => ⟨wnd, log, last⟩⟩⟩
    unfold ResetBound at *
    rw [last, win]
    exact bound
  simp only [fpprotoHandleReset]
  by_cases same : fullTstamp now partialTstamp = st.lastResetTime
  · cases st.inSync <;> simp only [same, ↓reduceIte, Bool.not_false, Bool.not_true,
      Bool.false_eq_true] <;> exact ⟨_, rfl, unchanged _ rfl rfl rfl rfl⟩
  by_cases inWindow : tstampInWindow (fullTstamp now partialTstamp) now st.rstWinNs = true
  swap
  · simp only [same, inWindow, ↓reduceIte, Bool.not_false]
    exact ⟨_, rfl, unchanged _ rfl rfl rfl rfl⟩
  by_cases older : (tstampInWindow st.lastResetTime now st.rstWinNs &&
      decide (fullTstamp now partialTstamp < st.lastResetTime)) = true
  · simp only [same, inWindow, older, ↓reduceIte, Bool.not_true, Bool.false_eq_true]
    exact ⟨_, rfl, unchanged _ rfl rfl rfl rfl⟩
  -- the reset is accepted
  have above := accepted_gt fits bound same inWindow older
  obtain ⟨wnd, wndInv, -, -, reset⟩ := doProtoReset_spec jhash1Word inv
    (fullTstamp now partialTstamp)
  simp only [same, inWindow, older, ↓reduceIte, Bool.not_true, Bool.false_eq_true, reset,
    except_ok_bind]
  refine ⟨_, rfl, wndInv, rfl, .inl ((tstampInWindow_iff fits).mp inWindow).2,
    .inr (BitVec.lt_def.mpr above), fun stale => ?_⟩
  rw [BitVec.le_def] at stale
  omega

/--
The run: from a session whose window invariant holds and whose reset time lies
below the window top at clock `t`, RESET payloads at clock readings that do not
decrease from `t` and do not wrap the window bounds are all handled, and each is
a `ResetStep` from the state before it to the state after it.
-/
theorem handleResets_spec : ∀ (inputs : List (BitVec 64 × BitVec 64)) {st : Session}
    {t : BitVec 64},
    st.wnd.Inv → ResetBound t st → List.Chain (· ≤ ·) t (inputs.map Prod.snd) →
    (∀ x ∈ inputs, ResetWindowFits x.2 st.rstWinNs) →
    ∃ sts, handleResets jhash1Word st inputs = .ok sts ∧
      List.Forall₂ (fun (x : BitVec 64 × BitVec 64) (pair : Session × Session) =>
        ResetStep x.1 x.2 pair.1 pair.2) inputs ((st :: sts).zip sts)
  | [], _, _, _, _, _, _ => ⟨[], rfl, .nil⟩
  | (partialTstamp, now) :: rest, st, t, inv, bound, clocks, fits => by
    rw [List.map_cons, List.chain_cons] at clocks
    obtain ⟨st', handled, inv', sameWin, bound', step⟩ :=
      fpprotoHandleReset_step jhash1Word inv (fits _ (List.mem_cons_self _ _)) (bound.mono clocks.1)
    obtain ⟨sts, rest', steps⟩ := handleResets_spec rest inv' bound' clocks.2
      fun x member => sameWin ▸ fits x (List.mem_cons_of_mem _ member)
    refine ⟨st' :: sts, ?_, .cons step steps⟩
    simp only [handleResets, handled, rest', except_ok_bind]
    rfl

/-- `fpproto_sk_init` at clock `now` starts the epoch of `now` with an empty window. -/
theorem fpprotoSkInit_spec (ops : Ops) (sendTimeoutUs rstWinNs now : BitVec 64) :
    ∃ wnd, wnd.Inv ∧ (∀ a, wnd.occupiedAge a = false) ∧ wnd.nextSeqno = epochSeqno jhash1Word now ∧
      fpprotoSkInit jhash1Word (Session.allocated ops sendTimeoutUs rstWinNs) now =
        .ok { Session.allocated ops sendTimeoutUs rstWinNs with
          wnd := wnd, lastResetTime := now } := by
  obtain ⟨wnd, inv, empty, next, reset⟩ :=
    doProtoReset_spec jhash1Word (Session.allocated_inv ops sendTimeoutUs rstWinNs) now
  refine ⟨wnd, inv, empty, next, ?_⟩
  have noneHeld : (Session.allocated ops sendTimeoutUs rstWinNs).wnd.heldFrom 0 = [] := by
    simp [Outwnd.heldFrom, Outwnd.occupiedFrom, Outwnd.occupiedAge, Session.allocated]
  simp only [fpprotoSkInit]
  erw [reset]
  simp only [noneHeld, List.map_nil, List.append_nil, except_ok_bind]
  rfl

/-- On a window with the invariant `fpproto_handle_reset` never fails, at any clock reading. -/
theorem fpprotoHandleReset_ok {st : Session} (inv : st.wnd.Inv) (partialTstamp now : BitVec 64) :
    ∃ st', fpprotoHandleReset jhash1Word st partialTstamp now = .ok st' ∧ st'.wnd.Inv := by
  obtain ⟨wnd, wndInv, -, -, reset⟩ := doProtoReset_spec jhash1Word inv
    (fullTstamp now partialTstamp)
  simp only [fpprotoHandleReset]
  split_ifs
  · exact ⟨_, rfl, inv⟩
  · exact ⟨_, rfl, inv⟩
  · exact ⟨_, rfl, inv⟩
  · exact ⟨_, rfl, inv⟩
  · exact ⟨_, by rw [reset]; rfl, wndInv⟩

/--
A RESET that passes the three checks starts an epoch at its time and puts the
session in sync.
-/
theorem fpprotoHandleReset_accepted
    {st : Session}
    (inv : st.wnd.Inv)
    {partialTstamp now : BitVec 64}
    (fresh : fullTstamp now partialTstamp ≠ st.lastResetTime)
    (inWindow : tstampInWindow (fullTstamp now partialTstamp) now st.rstWinNs = true)
    (notOlder :
      (tstampInWindow st.lastResetTime now st.rstWinNs &&
        decide (fullTstamp now partialTstamp < st.lastResetTime)) = false) :
    ∃ st', fpprotoHandleReset jhash1Word st partialTstamp now = .ok st' ∧
      st'.lastResetTime = fullTstamp now partialTstamp ∧ st'.inSync = true := by
  obtain ⟨wnd, -, -, -, reset⟩ := doProtoReset_spec jhash1Word inv (fullTstamp now partialTstamp)
  simp only [fpprotoHandleReset, fresh, inWindow, notOlder, ↓reduceIte, Bool.not_true,
    Bool.false_eq_true, reset, except_ok_bind]
  exact ⟨_, rfl, rfl, rfl⟩

/-- A repeated timestamp on a synchronised session only counts a redundant reset. -/
theorem fpprotoHandleReset_redundant
    {st : Session}
    {partialTstamp now : BitVec 64}
    (same : fullTstamp now partialTstamp = st.lastResetTime)
    (synced : st.inSync = true) :
    fpprotoHandleReset jhash1Word st partialTstamp now =
      .ok { st with stats := { st.stats with redundantReset := st.stats.redundantReset + 1 } } := by
  simp [fpprotoHandleReset, same, synced]

/-- A successful `do_proto_reset` records the new reset time. -/
theorem doProtoReset_lastResetTime
    {st st' : Session}
    {resetTime : BitVec 64}
    (reset : doProtoReset jhash1Word st resetTime = .ok st') :
    st'.lastResetTime = resetTime := by
  simp only [doProtoReset, bind_eq_ok] at reset
  obtain ⟨_, -, done⟩ := reset
  cases done
  rfl

/-- A RESET payload either keeps the reset time or records the full timestamp it rebuilds. -/
theorem fpprotoHandleReset_lastResetTime
    {st st' : Session}
    {partialTstamp now : BitVec 64}
    (reset : fpprotoHandleReset jhash1Word st partialTstamp now = .ok st') :
    st'.lastResetTime = st.lastResetTime ∨
      st'.lastResetTime = fullTstamp now partialTstamp := by
  simp only [fpprotoHandleReset] at reset
  split_ifs at reset
  any_goals cases reset; exact .inl rfl
  obtain ⟨_, drained, done⟩ := bind_eq_ok.mp reset
  cases done
  exact .inr (doProtoReset_lastResetTime jhash1Word drained :)

/--
Handling a RESET payload a second time at the same clock reading changes
only one statistics counter: the redundant, out-of-window or outdated count.
-/
theorem fpprotoHandleReset_twice
    {st st1 : Session}
    {partialTstamp now : BitVec 64}
    (first : fpprotoHandleReset jhash1Word st partialTstamp now = .ok st1) :
    fpprotoHandleReset jhash1Word st1 partialTstamp now =
        .ok { st1 with
          stats := { st1.stats with redundantReset := st1.stats.redundantReset + 1 } } ∨
      fpprotoHandleReset jhash1Word st1 partialTstamp now =
        .ok { st1 with
          stats := { st1.stats with resetOutOfWindow := st1.stats.resetOutOfWindow + 1 } } ∨
      fpprotoHandleReset jhash1Word st1 partialTstamp now =
        .ok { st1 with
          stats := { st1.stats with outdatedReset := st1.stats.outdatedReset + 1 } } := by
  simp only [fpprotoHandleReset] at first
  split_ifs at first with same synced outside older
  · cases first
    exact .inl (fpprotoHandleReset_redundant jhash1Word same rfl)
  · cases first
    exact .inl (fpprotoHandleReset_redundant jhash1Word same (by simpa using synced))
  · cases first
    exact .inr (.inl (by simp [fpprotoHandleReset, same, outside]))
  · cases first
    exact .inr (.inr (by simp [fpprotoHandleReset, same, outside, older]))
  · rw [bind_eq_ok] at first
    obtain ⟨st2, reset, done⟩ := first
    cases done
    exact .inl (fpprotoHandleReset_redundant jhash1Word
      (doProtoReset_lastResetTime jhash1Word reset).symm rfl)

/--
After `fpproto_sk_init` at clock `t0`, RESET payloads handled at clock readings
that do not decrease from `t0` and whose reset windows do not wrap are each a
`ResetStep`: the reset time takes strictly increasing values, and a timestamp
at or below it changes neither the window nor the log.  On any session,
handling a payload a second time at the same clock reading changes one
statistics counter only.
-/
theorem fpprotoHandleReset_resetTimes
    (ops : Ops)
    (sendTimeoutUs rstWinNs t0 : BitVec 64)
    (inputs : List (BitVec 64 × BitVec 64))
    (clocks : List.Chain (· ≤ ·) t0 (inputs.map Prod.snd))
    (fits : ∀ x ∈ inputs, ResetWindowFits x.2 rstWinNs) :
    (∃ st0 sts,
      fpprotoSkInit jhash1Word (Session.allocated ops sendTimeoutUs rstWinNs) t0 = .ok st0 ∧
      st0.lastResetTime = t0 ∧ handleResets jhash1Word st0 inputs = .ok sts ∧
      List.Forall₂ (fun (x : BitVec 64 × BitVec 64) (pair : Session × Session) =>
        ResetStep x.1 x.2 pair.1 pair.2) inputs ((st0 :: sts).zip sts)) ∧
    ∀ (st st1 : Session) (partialTstamp now : BitVec 64),
      fpprotoHandleReset jhash1Word st partialTstamp now = .ok st1 →
      fpprotoHandleReset jhash1Word st1 partialTstamp now =
          .ok { st1 with
            stats := { st1.stats with redundantReset := st1.stats.redundantReset + 1 } } ∨
        fpprotoHandleReset jhash1Word st1 partialTstamp now =
          .ok { st1 with
            stats := { st1.stats with resetOutOfWindow := st1.stats.resetOutOfWindow + 1 } } ∨
        fpprotoHandleReset jhash1Word st1 partialTstamp now =
          .ok { st1 with
            stats := { st1.stats with outdatedReset := st1.stats.outdatedReset + 1 } } := by
  refine ⟨?_, fun _ _ _ _ first => fpprotoHandleReset_twice jhash1Word first⟩
  obtain ⟨wnd, inv, -, -, init⟩ := fpprotoSkInit_spec jhash1Word ops sendTimeoutUs rstWinNs t0
  have bound : ResetBound t0
      { Session.allocated ops sendTimeoutUs rstWinNs with wnd := wnd, lastResetTime := t0 } := by
    show t0.toNat < t0.toNat + (rstWinNs.toNat + 1) / 2 ∨ rstWinNs.toNat = 0
    omega
  obtain ⟨sts, run, steps⟩ := handleResets_spec jhash1Word inputs inv bound clocks fits
  exact ⟨_, sts, init, rfl, run, steps⟩

end Reset

/-- One accepted RESET after initialisation, as an instance of the hypotheses. -/
theorem fpprotoHandleReset_resetTimes_accepting :
    List.Chain (· ≤ ·) (100 : BitVec 64) ([((103 : BitVec 64), (105 : BitVec 64))].map Prod.snd) ∧
    (∀ x ∈ [((103 : BitVec 64), (105 : BitVec 64))], ResetWindowFits x.2 20) ∧
    ((∃ st0 sts,
      fpprotoSkInit (fun _ _ => 0) (Session.allocated ⟨false, false, false, false⟩ 0 20) 100 =
        .ok st0 ∧ st0.lastResetTime = 100 ∧
      handleResets (fun _ _ => 0) st0 [((103 : BitVec 64), (105 : BitVec 64))] = .ok sts ∧
      List.Forall₂ (fun (x : BitVec 64 × BitVec 64) (pair : Session × Session) =>
        ResetStep x.1 x.2 pair.1 pair.2) [((103 : BitVec 64), (105 : BitVec 64))]
          ((st0 :: sts).zip sts)) ∧
    ∀ (st st1 : Session) (partialTstamp now : BitVec 64),
      fpprotoHandleReset (fun _ _ => 0) st partialTstamp now = .ok st1 →
      fpprotoHandleReset (fun _ _ => 0) st1 partialTstamp now =
          .ok { st1 with
            stats := { st1.stats with redundantReset := st1.stats.redundantReset + 1 } } ∨
        fpprotoHandleReset (fun _ _ => 0) st1 partialTstamp now =
          .ok { st1 with
            stats := { st1.stats with resetOutOfWindow := st1.stats.resetOutOfWindow + 1 } } ∨
        fpprotoHandleReset (fun _ _ => 0) st1 partialTstamp now =
          .ok { st1 with
            stats := { st1.stats with outdatedReset := st1.stats.outdatedReset + 1 } }) :=
  ⟨.cons (by decide) .nil, by decide,
    fpprotoHandleReset_resetTimes (fun _ _ => 0) ⟨false, false, false, false⟩ 0 20 100
      [((103 : BitVec 64), (105 : BitVec 64))] (.cons (by decide) .nil) (by decide)⟩

end Fastpass
