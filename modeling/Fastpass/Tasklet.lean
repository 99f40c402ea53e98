import Fastpass.Timer

namespace Fastpass

/-!
# The retransmission tasklet

`retrans_timer_func` only schedules `retrans_tasklet`.  The tasklet locks the
qdisc, then walks the window from the hint `fp->earliest_unacked` with
`outwnd_earliest_unacked_hint`: while the earliest outstanding packet's
deadline is not after `now` it is negatively acknowledged; the first one that
is still in time re-arms the timer and becomes the new hint.

The loop is a recursion on the low popcount, which every NACK lowers.  Its
specification (`retransLoop_spec`) holds whenever the hint lies in the window
and no occupied sequence number is older than it: the loop then NACKs the
longest run of expired packets, oldest first.  `retransTasklet_spec` adds the
locking around it.
-/

/--
The `while (!outwnd_empty(fp))` loop of `retrans_tasklet` from hint `seqno`.
It ends either with the window empty (`none`, `goto out`) or with the earliest
outstanding sequence number and its deadline (`goto set_next_timer`).
-/
def retransLoop (st : Session) (now seqno : BitVec 64) :
    Except Crash (Session × Option (BitVec 64 × BitVec 64)) :=
  if outwndEmpty st.wnd then
    .ok (st, none)
  else
    match outwndEarliestUnackedHint st.wnd seqno with
    | .error e => .error e
    | .ok seqno =>
      match outwndTimestamp st.wnd seqno with
      | .error e => .error e
      | .ok sent =>
        let timeout := sent + st.sendTimeoutUs
        if timeAfter64 timeout now then
          .ok (st, some (seqno, timeout))
        else
          match nacked : doNegAckSeqno st seqno with
          | .error e => .error e
          | .ok st' => retransLoop st' now seqno
termination_by st.wnd.lowPopcount
decreasing_by exact doNegAckSeqno_lowPopcount nacked

/-- `retrans_tasklet` at clock reading `now`. -/
def retransTasklet (st : Session) (now : BitVec 64) : Except Crash Session :=
  match fpprotoLockQdisc st with
  | (none, st) => .ok st
  | (some sch, st) =>
    match retransLoop st now st.earliestUnacked with
    | .error e => .error e
    | .ok (st, none) => .ok (fpprotoUnlockQdisc (some sch) st)
    | .ok (st, some (seqno, timeout)) =>
      .ok (fpprotoUnlockQdisc (some sch)
        { st with earliestUnacked := seqno, retransTimer := hrtimerStart st.retransTimer timeout })

open Outwnd

/--
From a hint inside the window and not above any occupied age, the loop NACKs
the longest run of oldest occupied ages whose deadline is not after `now`, and
returns the next one with its deadline if any is left.
-/
theorem retransLoop_spec (now : BitVec 64) (deadline : Nat → BitVec 64) :
    ∀ (n : Nat) {st : Session}, st.wnd.lowPopcount = n → st.wnd.Inv →
      (∀ a, st.wnd.occupiedAge a = true → st.deadline a = deadline a) →
      ∀ (seqno : BitVec 64), st.wnd.age seqno < fastpassOutwndLen →
        (∀ a, st.wnd.occupiedAge a = true → a ≤ st.wnd.age seqno) →
        retransLoop st now seqno =
          .ok (st.popAges negAckRelease
              ((st.wnd.occupiedFrom 0).reverse.takeWhile fun a => !timeAfter64 (deadline a) now),
            match (st.wnd.occupiedFrom 0).reverse.dropWhile
              (fun a => !timeAfter64 (deadline a) now) with
            | [] => none
            | a :: _ => some (st.wnd.seqnoOfAge a, deadline a)) := by
  intro n
  induction n using Nat.strong_induction_on with
  | _ n inductionHypothesis =>
    intro st popcount inv deadlines seqno hintYoung hintOldest
    rw [retransLoop]
    rcases st.wnd.oldest_occupied_or_none with ⟨t, tOccupied, oldest⟩ | free
    · -- the oldest occupied age `t` is found from the hint
      have tYoung := young_of_occupied tOccupied
      have lenEq := fastpassOutwndLen_eq
      have notEmpty : outwndEmpty st.wnd = false :=
        Bool.eq_false_iff.mpr fun empty => by
          rw [(inv.outwndEmpty_iff).mp empty t] at tOccupied
          cases tOccupied
      have tAge : st.wnd.age (st.wnd.seqnoOfAge t) = t := age_seqnoOfAge st.wnd t (by omega)
      obtain ⟨pd, held⟩ := inv.bins_of_occupied tOccupied
      have sent : outwndTimestamp st.wnd (st.wnd.seqnoOfAge t) = .ok pd.sentTimestamp := by
        simp [outwndTimestamp, st.wnd.outwndPos_eq_slot_age, tAge, held]
      have tDeadline : pd.sentTimestamp + st.sendTimeoutUs = deadline t := by
        rw [← deadlines t tOccupied, Session.deadline, held]
      -- the occupied ages, oldest first, start with `t`
      have noneOlder : st.wnd.occupiedFrom (t + 1) = [] :=
        occupiedFrom_eq_nil fun j lower => Bool.eq_false_iff.mpr fun isSet => by
          have := oldest j isSet
          omega
      have oldestFirst : (st.wnd.occupiedFrom 0).reverse =
          t :: (st.wnd.occupiedBetween 0 t).reverse := by
        rw [occupiedFrom_split (Nat.zero_le t), occupiedFrom_of_occupied tOccupied, noneOlder]
        simp
      rw [if_neg (by rw [notEmpty]; decide),
        outwndEarliestUnackedHint_eq inv.mirrored hintYoung (hintOldest t tOccupied)
          tOccupied oldest]
      dsimp only
      rw [sent]
      dsimp only
      rw [tDeadline, oldestFirst]
      by_cases inTime : timeAfter64 (deadline t) now = true
      · -- `t` is still in time: it re-arms the timer
        simp [inTime, Session.popAges]
      · -- `t` has expired: NACK it and go on from it
        have nacked := @doNegAckSeqno_of_occupied st (st.wnd.seqnoOfAge t)
          (by rw [tAge]; exact tOccupied)
        rw [tAge] at nacked
        have smaller := doNegAckSeqno_lowPopcount nacked
        rw [if_neg inTime, nacked]
        dsimp only
        have restOldestFirst : ((st.popAge negAckRelease t).wnd.occupiedFrom 0).reverse =
            (st.wnd.occupiedBetween 0 t).reverse := by
          rw [Session.popAge_wnd, occupiedFrom_split (Nat.zero_le t),
            occupiedFrom_clearSlot_self tYoung,
            noneOlder, List.append_nil, @occupiedBetween_congr st.wnd
              (st.wnd.clearSlot (st.wnd.slot t)) 0 t
              fun b _ upper => by
              simp [clearSlot_occupiedAge tYoung, show b ≠ t by omega]]
        have restDeadlines : ∀ a, (st.popAge negAckRelease t).wnd.occupiedAge a = true →
            (st.popAge negAckRelease t).deadline a = deadline a := by
          intro a occupied
          rw [Session.popAge_wnd, clearSlot_occupiedAge tYoung, Bool.and_eq_true] at occupied
          have other : a ≠ t := by simpa using occupied.2
          rw [← deadlines a occupied.1]
          simp only [Session.deadline, Session.popAge_wnd, clearSlot_slot]
          rw [clearSlot_bins_slot tYoung (young_of_occupied occupied.1) other]
          rfl
        rw [@inductionHypothesis _ (by omega) (st.popAge negAckRelease t) rfl
          (clearSlot_inv inv tOccupied) restDeadlines (st.wnd.seqnoOfAge t)
          (by simp only [Session.popAge_wnd, clearSlot_age, tAge]; exact tYoung)
          (fun a occupied => by
            rw [Session.popAge_wnd, clearSlot_occupiedAge tYoung, Bool.and_eq_true] at occupied
            simp only [Session.popAge_wnd, clearSlot_age, tAge]
            exact oldest a occupied.1),
          restOldestFirst]
        have expired : (!timeAfter64 (deadline t) now) = true := by simpa using inTime
        simp only [List.takeWhile_cons, List.dropWhile_cons, expired, ↓reduceIte,
          Session.popAges_cons]
        rfl
    · -- the window is empty
      have empty : outwndEmpty st.wnd = true := (inv.outwndEmpty_iff).mpr free
      rw [if_pos empty, occupiedFrom_eq_nil fun j _ => free j]
      rfl

/--
The loop's NACKs as one pop: from a hint inside the window that no occupied
age is older than, it pops the longest run of oldest ages whose deadline is
not after `now`, handing each packet to `handle_neg_ack`.
-/
theorem retransLoop_popped
    {st : Session}
    (inv : st.wnd.Inv)
    (now : BitVec 64)
    (deadline : Nat → BitVec 64)
    (deadlines : ∀ a, st.wnd.occupiedAge a = true → st.deadline a = deadline a)
    {seqno : BitVec 64}
    (hintYoung : st.wnd.age seqno < fastpassOutwndLen)
    (hintOldest : ∀ a, st.wnd.occupiedAge a = true → a ≤ st.wnd.age seqno) :
    ∃ wnd', st.wnd.PoppedAges
        ((st.wnd.occupiedFrom 0).reverse.takeWhile fun a => !timeAfter64 (deadline a) now) wnd' ∧
      retransLoop st now seqno = .ok ({ st with
          wnd := wnd'
          log := st.log ++ ((st.wnd.occupiedFrom 0).reverse.takeWhile fun a =>
            !timeAfter64 (deadline a) now).map
            fun a => negAckRelease st.ops (st.wnd.bins (st.wnd.slot a)) },
        match (st.wnd.occupiedFrom 0).reverse.dropWhile
            (fun a => !timeAfter64 (deadline a) now) with
        | [] => none
        | a :: _ => some (st.wnd.seqnoOfAge a, deadline a)) := by
  obtain ⟨wnd', popped, shape⟩ := Session.popAges_spec negAckRelease
    ((st.wnd.occupiedFrom 0).reverse.takeWhile fun a => !timeAfter64 (deadline a) now) inv
    ((List.nodup_reverse.mpr (occupiedFrom_nodup st.wnd 0)).sublist (List.takeWhile_sublist _))
    fun a member => (mem_occupiedFrom.mp
      (List.mem_reverse.mp ((List.takeWhile_sublist _).subset member))).2
  exact ⟨wnd', popped, by
    rw [retransLoop_spec now deadline _ rfl inv deadlines seqno hintYoung hintOldest, shape]⟩

/-- From a hint inside the window that no occupied age is older than, the tasklet returns. -/
theorem retransTasklet_ok
    {st : Session}
    (inv : st.wnd.Inv)
    (now : BitVec 64)
    {sch : Qdisc}
    (present : st.qdisc = some sch)
    (live : sch.limit ≠ 0)
    (hintYoung : st.wnd.age st.earliestUnacked < fastpassOutwndLen)
    (hintOldest : ∀ a, st.wnd.occupiedAge a = true → a ≤ st.wnd.age st.earliestUnacked) :
    ∃ st1, retransTasklet st now = .ok st1 := by
  obtain ⟨wnd', -, loop⟩ := @retransLoop_popped (st.emit [.rcuReadLockBh, .spinLockBh]) inv now
    st.deadline (fun _ _ => rfl) (st.emit [.rcuReadLockBh, .spinLockBh]).earliestUnacked
    hintYoung hintOldest
  simp only [Session.emit_wnd] at loop
  simp only [retransTasklet, fpprotoLockQdisc_of_live present live]
  rw [loop]
  cases (st.wnd.occupiedFrom 0).reverse.dropWhile (fun a => !timeAfter64 (st.deadline a) now) <;>
    exact ⟨_, rfl⟩

/-!
## Running the tasklet again

The tasklet leaves its hint at the oldest packet still in time, so at the same
clock reading a second run has nothing left to NACK.
-/

namespace Outwnd

/--
Popping the oldest run of occupied ages that satisfy `p` leaves the rest of
them, oldest first.
-/
theorem PoppedAges.reverse_dropWhile
    {w w' : Outwnd}
    {p : Nat → Bool}
    (popped : w.PoppedAges ((w.occupiedFrom 0).reverse.takeWhile p) w') :
    (w'.occupiedFrom 0).reverse = (w.occupiedFrom 0).reverse.dropWhile p := by
  have split := List.takeWhile_append_dropWhile p (w.occupiedFrom 0).reverse
  have nodup := split ▸ List.nodup_reverse.mpr (occupiedFrom_nodup w 0)
  rw [popped.occupiedFrom_filter, ← List.filter_reverse]
  generalize (w.occupiedFrom 0).reverse.takeWhile p = nacked at split nodup ⊢
  generalize (w.occupiedFrom 0).reverse.dropWhile p = rest at split nodup ⊢
  rw [← split, List.filter_append, List.filter_eq_nil_iff.mpr fun b member => by simp [member],
    List.nil_append, List.filter_eq_self]
  exact fun b member => by simpa using fun popped => (List.nodup_append.mp nodup).2.2 popped member

/-- The first of the occupied ages listed oldest first is occupied. -/
theorem occupied_of_occupiedFrom_reverse
    {w : Outwnd}
    {a : Nat}
    {rest : List Nat}
    (first : (w.occupiedFrom 0).reverse = a :: rest) :
    w.occupiedAge a = true :=
  (mem_occupiedFrom.mp (List.mem_reverse.mp (first ▸ List.mem_cons_self a rest))).2

/-- The first of the occupied ages listed oldest first is the oldest of them. -/
theorem le_of_occupiedFrom_reverse
    {w : Outwnd}
    {a : Nat}
    {rest : List Nat}
    (first : (w.occupiedFrom 0).reverse = a :: rest)
    {b : Nat}
    (occupied : w.occupiedAge b = true) :
    b ≤ a := by
  have sorted : (a :: rest).Pairwise (· > ·) := by
    rw [← first]
    exact List.pairwise_reverse.mpr (occupiedFrom_sorted w 0)
  have member : b ∈ a :: rest := by
    rw [← first]
    exact List.mem_reverse.mpr (mem_occupiedFrom.mpr ⟨Nat.zero_le b, occupied⟩)
  rcases List.mem_cons.mp member with same | older
  · exact same.le
  · exact (List.rel_of_pairwise_cons sorted older).le

end Outwnd

/-- A pop leaves the deadlines of the packets it keeps as they were. -/
theorem Session.deadline_of_popped
    {st st' : Session}
    {ages : List Nat}
    (popped : st.wnd.PoppedAges ages st'.wnd)
    (timeout : st'.sendTimeoutUs = st.sendTimeoutUs)
    {b : Nat}
    (occupied : st'.wnd.occupiedAge b = true) :
    st'.deadline b = st.deadline b := by
  rw [popped.occupiedAge, Bool.and_eq_true] at occupied
  have slotEq : st'.wnd.slot b =
    st.wnd.slot b := by simp only [Outwnd.slot, Outwnd.head, popped.nextSeqno]
  simp only [Session.deadline, slotEq, timeout,
    popped.bins b (young_of_occupied occupied.1) (by simpa using occupied.2)]

/-- With the window empty, the tasklet only takes and releases the locks. -/
theorem retransTasklet_of_empty
    {st : Session}
    {now : BitVec 64}
    {sch : Qdisc}
    (present : st.qdisc = some sch)
    (live : sch.limit ≠ 0)
    (empty : outwndEmpty st.wnd = true) :
    retransTasklet st now = .ok (st.emit [.rcuReadLockBh, .spinLockBh, .spinUnlockBh,
      .rcuReadUnlockBh]) := by
  rw [retransTasklet, fpprotoLockQdisc_of_live present live]
  dsimp only
  rw [retransLoop, Session.emit_wnd, if_pos empty]
  simp [fpprotoUnlockQdisc, Session.emit, List.append_assoc]

/--
From a hint at the oldest outstanding packet, while that packet is still in
time and the timer is armed at its deadline, the tasklet only takes and
releases the locks.
-/
theorem retransTasklet_of_inTime
    {st : Session}
    (inv : st.wnd.Inv)
    {now : BitVec 64}
    {sch : Qdisc}
    (present : st.qdisc = some sch)
    (live : sch.limit ≠ 0)
    {a : Nat}
    {rest : List Nat}
    (oldestFirst : (st.wnd.occupiedFrom 0).reverse = a :: rest)
    (hint : st.earliestUnacked = st.wnd.seqnoOfAge a)
    (inTime : timeAfter64 (st.deadline a) now = true)
    (armed : st.retransTimer.armed = some (st.deadline a)) :
    retransTasklet st now = .ok (st.emit [.rcuReadLockBh, .spinLockBh, .spinUnlockBh,
      .rcuReadUnlockBh]) := by
  have aYoung : a < fastpassOutwndLen := young_of_occupied
    (occupied_of_occupiedFrom_reverse oldestFirst)
  have aAge : st.wnd.age (st.wnd.seqnoOfAge a) = a := by
    rw [fastpassOutwndLen_eq] at aYoung
    exact age_seqnoOfAge _ _ (by omega)
  have timer : hrtimerStart st.retransTimer (st.deadline a) = st.retransTimer := by
    rw [hrtimerStart, ← armed]
  rw [retransTasklet, fpprotoLockQdisc_of_live present live]
  dsimp only
  rw [show (st.emit [.rcuReadLockBh, .spinLockBh]).earliestUnacked = st.wnd.seqnoOfAge a from hint,
    @retransLoop_spec now st.deadline _ (st.emit [.rcuReadLockBh, .spinLockBh]) rfl inv
      (fun _ _ => rfl)
      _ (by simpa [aAge] using aYoung)
      fun b occupied => by simpa [aAge] using le_of_occupiedFrom_reverse oldestFirst occupied]
  simp only [Session.emit_wnd, oldestFirst, List.takeWhile_cons, List.dropWhile_cons, inTime,
    Bool.not_true,
    Bool.false_eq_true, ↓reduceIte, Session.popAges, List.foldl_nil, ← hint]
  simp [fpprotoUnlockQdisc, Session.emit, timer, List.append_assoc]

/--
Run a second time at the same clock reading, after a run from a hint inside
the window that no outstanding packet is older than, the tasklet NACKs nothing
and leaves the window, the hint and the timer as they are: it only takes and
releases the locks.
-/
theorem retransTasklet_again
    {st st1 : Session}
    (inv : st.wnd.Inv)
    {now : BitVec 64}
    {sch : Qdisc}
    (present : st.qdisc = some sch)
    (live : sch.limit ≠ 0)
    (hintYoung : st.wnd.age st.earliestUnacked < fastpassOutwndLen)
    (hintOldest : ∀ a, st.wnd.occupiedAge a = true → a ≤ st.wnd.age st.earliestUnacked)
    (first : retransTasklet st now = .ok st1) :
    retransTasklet st1 now = .ok (st1.emit [.rcuReadLockBh, .spinLockBh, .spinUnlockBh,
      .rcuReadUnlockBh]) := by
  -- the first run NACKs the oldest expired packets and leaves the others
  obtain ⟨wnd', popped, loop⟩ := @retransLoop_popped (st.emit [.rcuReadLockBh, .spinLockBh]) inv now
    st.deadline (fun _ _ => rfl) (st.emit [.rcuReadLockBh,
      .spinLockBh]).earliestUnacked hintYoung hintOldest
  simp only [Session.emit_wnd] at popped loop
  have left : (wnd'.occupiedFrom 0).reverse =
      (st.wnd.occupiedFrom 0).reverse.dropWhile fun a => !timeAfter64 (st.deadline a) now :=
    popped.reverse_dropWhile
  simp only [retransTasklet, fpprotoLockQdisc_of_live present live] at first
  rw [loop] at first
  generalize split : (st.wnd.occupiedFrom 0).reverse.dropWhile
    (fun a => !timeAfter64 (st.deadline a) now) = R
    at first left
  cases R with
  | nil =>
    -- nothing is left: the second run finds the window empty
    obtain ⟨present1, window⟩ : st1.qdisc = some sch ∧ st1.wnd = wnd' := by
      cases first
      exact ⟨present, rfl⟩
    subst window
    refine retransTasklet_of_empty present1 live (popped.inv.outwndEmpty_iff.mpr fun b => ?_)
    have notHeld : b ∉ (st1.wnd.occupiedFrom 0).reverse := by simp [left]
    exact Bool.eq_false_iff.mpr fun occupied =>
      notHeld (List.mem_reverse.mpr (mem_occupiedFrom.mpr ⟨Nat.zero_le b, occupied⟩))
  | cons a rest =>
    -- `a` is left: it is the new hint, still in time, with the timer at its deadline
    obtain ⟨present1, window, timeout, hint, armed⟩ : st1.qdisc = some sch ∧ st1.wnd = wnd' ∧
        st1.sendTimeoutUs = st.sendTimeoutUs ∧ st1.earliestUnacked = st.wnd.seqnoOfAge a ∧
        st1.retransTimer.armed = some (st.deadline a) := by
      cases first
      exact ⟨present, rfl, rfl, rfl, rfl⟩
    subst window
    have inTime : timeAfter64 (st.deadline a) now = true := by
      have head := List.head_dropWhile_not (fun a => !timeAfter64 (st.deadline a) now)
        (st.wnd.occupiedFrom 0).reverse (by rw [split]; exact List.cons_ne_nil a rest)
      simp only [split, List.head_cons, Bool.not_eq_false'] at head
      exact head
    have deadline : st1.deadline a = st.deadline a :=
      Session.deadline_of_popped popped timeout (occupied_of_occupiedFrom_reverse left)
    have sameSeqno : st1.wnd.seqnoOfAge a = st.wnd.seqnoOfAge a := by
      simp only [Outwnd.seqnoOfAge, popped.nextSeqno, Session.emit_wnd]
    exact retransTasklet_of_inTime popped.inv present1 live left (hint.trans sameSeqno.symm)
      (deadline ▸ inTime) (deadline ▸ armed)

/-- The sample window's one packet, expired at clock reading `0`, NACKed and then run again. -/
theorem retransTasklet_again_expired :
    let st : Session := { Session.allocated ⟨false, false, false, false⟩ 0 0 with
      wnd := Outwnd.sample, qdisc := some ⟨1⟩, earliestUnacked := -5 }
    st.wnd.Inv ∧ st.qdisc = some ⟨1⟩ ∧ (⟨1⟩ : Qdisc).limit ≠ 0 ∧
    st.wnd.age st.earliestUnacked < fastpassOutwndLen ∧
    (∀ a, st.wnd.occupiedAge a = true → a ≤ st.wnd.age st.earliestUnacked) ∧
    ∃ st1, retransTasklet st 0 = .ok st1 ∧
      retransTasklet st1 0 =
        .ok (st1.emit [.rcuReadLockBh, .spinLockBh, .spinUnlockBh, .rcuReadUnlockBh]) := by
  intro st
  have inv : st.wnd.Inv := Outwnd.sample_inv
  have oldest : ∀ a, st.wnd.occupiedAge a = true → a ≤ st.wnd.age st.earliestUnacked :=
    fun _ occupied => by rw [Outwnd.sample_occupiedAge occupied]; decide
  obtain ⟨st1, first⟩ := @retransTasklet_ok st inv 0 ⟨1⟩ rfl (by decide) (by decide) oldest
  exact ⟨inv, rfl, by decide, by decide, oldest, st1, first,
    @retransTasklet_again st st1 inv 0 ⟨1⟩ rfl (by decide) (by decide) oldest first⟩

end Fastpass
