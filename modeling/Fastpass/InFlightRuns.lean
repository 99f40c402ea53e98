import Fastpass.Epochs
import Fastpass.InFlight

namespace Fastpass

/-!
# Runs on the packets in flight

`Fastpass.InFlight` reads each call on its own as an operation on the list of
packets in flight, the tasklet only from a hint inside the window.  This
module says once what each kind of call may do to that list (`InFlight.Step`,
indexed by `InFlight.Call`): a send drops the packet it pushes out of the
window, if still outstanding, and puts its stamped packet in front; an ACK
takes out exactly the packets it covers; the tasklet's NACKs take packets out
and keep the others in order (`InFlight.Retire`), wherever its hint lies; a
RESET changes nothing unless it is accepted, and then hands every packet back
and renumbers; `fpproto_destroy_sock` hands every packet back; every other
call leaves the list alone.  That the list stays newest first and inside the
window follows from these steps alone (`InFlight.Steps.wf`).

`run_refines_steps` connects the two levels.  Over every run of calls from a
window with the invariant, whatever each cancel returns and wherever the
tasklet's hint lies, each call is one step of its own kind (`Op.call`), and
the log hands back exactly the packets the steps release, in order.
`fpprotoRcv_refines_steps` does the same for a received packet: the payloads
its bytes parse into are one step each (`Payload.call`), and nothing else
moves the list.
-/

namespace InFlight

/-- Some packets leave, handed back as `released`; the others stay in flight, in order. -/
structure Retire (f : InFlight) (released : List Pktdesc) (f' : InFlight) : Prop where
  nextSeqno : f'.nextSeqno = f.nextSeqno
  sublist : f'.pds.Sublist f.pds
  perm : (f'.pds ++ released).Perm f.pds

/-- The kind of a call, with the values that decide what it does to the packets in flight. -/
inductive Call where
  /-- `fpproto_prepare_to_send` then `fpproto_commit_packet` of a descriptor at a send time. -/
  | send (pd : Pktdesc) (timestamp : BitVec 64)
  /-- `fpproto_handle_ack` with the two fields of an ACK. -/
  | ack (ackSeq : BitVec 16) (ackRunlen : BitVec 32)
  /-- A run of `retrans_tasklet`. -/
  | nack
  /-- `fpproto_handle_reset`. -/
  | reset
  /-- A call that sends nothing and hands nothing back. -/
  | idle
  /-- `fpproto_destroy_sock`. -/
  | drain

/--
The descriptor a send puts in flight: numbered `next_seqno`, stamped with its
send time, and carrying the session's reset request and reset time.
-/
def stamp
    (f : InFlight)
    (pd : Pktdesc)
    (timestamp : BitVec 64)
    (sendReset : Bool)
    (resetTimestamp : BitVec 64) :
    Pktdesc :=
  { pd with
    sentTimestamp := timestamp
    seqno := f.nextSeqno
    sendReset := sendReset
    resetTimestamp := resetTimestamp }

/-- One call on the packets in flight, with the packets it hands back, in order. -/
inductive Step : Call → InFlight → List Pktdesc → InFlight → Prop
  /--
  The packet the send pushes out of the window, if still outstanding, is
  dropped; the stamped packet goes in front.
  -/
  | send (f : InFlight) (pd : Pktdesc) (timestamp : BitVec 64) (sendReset : Bool)
      (resetTimestamp : BitVec 64) :
      Step (.send pd timestamp) f (f.send (f.stamp pd timestamp sendReset resetTimestamp)).1.toList
        (f.send (f.stamp pd timestamp sendReset resetTimestamp)).2
  /-- The packets the ACK covers leave, newest first, and the others stay. -/
  | ack (f : InFlight) (ackSeq : BitVec 16) (ackRunlen : BitVec 32) :
      Step (.ack ackSeq ackRunlen) f (f.ack (ackCurSeqno f.nextSeqno ackSeq) ackRunlen).1
        (f.ack (ackCurSeqno f.nextSeqno ackSeq) ackRunlen).2
  /-- The NACKed packets leave, and the others stay in order. -/
  | nack {f f' : InFlight} {released : List Pktdesc} (retire : Retire f released f') :
      Step .nack f released f'
  /-- A RESET that is not accepted changes nothing. -/
  | resetIgnored (f : InFlight) : Step .reset f [] f
  /-- An accepted RESET hands every packet back, and the numbering starts again. -/
  | resetAccepted (f : InFlight) (nextSeqno : BitVec 64) : Step .reset f f.pds ⟨nextSeqno, []⟩
  /-- The list stays as it is. -/
  | idle (f : InFlight) : Step .idle f [] f
  /-- Every packet is handed back, and the numbering is kept. -/
  | drain (f : InFlight) : Step .drain f f.pds ⟨f.nextSeqno, []⟩

/--
A run of calls on the packets in flight, one step per call, with the packets
they hand back, in order.
-/
inductive Steps : List Call → InFlight → List Pktdesc → InFlight → Prop
  | nil (f : InFlight) : Steps [] f [] f
  | cons {c : Call} {cs : List Call} {f f' f'' : InFlight} {released released' : List Pktdesc}
      (step : Step c f released f') (steps : Steps cs f' released' f'') :
      Steps (c :: cs) f (released ++ released') f''

variable {f f' : InFlight} {released : List Pktdesc}

theorem Retire.refl (f : InFlight) : Retire f [] f :=
  ⟨rfl, .refl _, by rw [List.append_nil]⟩

theorem age_of_nextSeqno (same : f'.nextSeqno = f.nextSeqno) : f'.age = f.age := by
  funext s
  simp only [age, same]

/-- After a send, every sequence number of the window is one older. -/
theorem add_age {s : BitVec 64} (young : f.age s < fastpassOutwndLen) (pd : Pktdesc) :
    (f.add pd).age s = f.age s + 1 := by
  simp only [age, add, fastpassOutwndLen_eq] at young ⊢
  bv_omega

theorem eq_edge_of_age {s : BitVec 64} (atEdge : f.age s = fastpassOutwndLen - 1) : s = f.edge := by
  simp only [age, edge, outwndLen64, fastpassOutwndLen_eq] at atEdge ⊢
  bv_omega

theorem add_pds (pd : Pktdesc) : (f.add pd).pds = pd :: f.pds :=
  rfl

/-- Keeping some of the packets, in order, keeps the list newest first and inside the window. -/
theorem Wf.sublist (wf : f.Wf) (same : f'.nextSeqno = f.nextSeqno) (kept : f'.pds.Sublist f.pds) :
    f'.Wf := by
  unfold Wf
  rw [age_of_nextSeqno same]
  exact ⟨List.Pairwise.sublist (kept.map _) wf.1, fun pd member => wf.2 pd (kept.subset member)⟩

/--
A send keeps the list newest first and inside the window, once the packet at
the edge has left.
-/
theorem Wf.add
    (wf : f.Wf)
    (edgeLeft : ∀ q ∈ f.pds, q.seqno ≠ f.edge)
    {pd : Pktdesc}
    (fresh : pd.seqno = f.nextSeqno) :
    (f.add pd).Wf := by
  have newest : (f.add pd).age pd.seqno = 0 := by
    simp only [age, InFlight.add, fresh, BitVec.add_sub_cancel, BitVec.sub_self]
    rfl
  -- every packet left is younger than the edge, so still inside the window one sequence number
  -- later
  have older : ∀ q ∈ f.pds,
      (f.add pd).age q.seqno = f.age q.seqno + 1 ∧ f.age q.seqno + 1 < fastpassOutwndLen :=
    fun q member => by
      have young := wf.2 q member
      have notEdge : f.age q.seqno ≠ fastpassOutwndLen - 1 := fun atEdge =>
        edgeLeft q member (eq_edge_of_age atEdge)
      exact ⟨add_age young pd, by omega⟩
  have ages : (f.pds.map fun q => (f.add pd).age q.seqno) =
      (f.pds.map fun q => f.age q.seqno).map (· + 1) := by
    rw [List.map_map]
    exact List.map_congr_left fun q member => (older q member).1
  refine ⟨?_, fun q member => ?_⟩
  · rw [add_pds, List.map_cons, newest, ages, List.sorted_cons]
    refine ⟨fun b member => ?_, List.Pairwise.map _ (fun _ _ lt => Nat.succ_lt_succ lt) wf.1⟩
    obtain ⟨a, -, rfl⟩ := List.mem_map.mp member
    omega
  · rcases List.mem_cons.mp (add_pds pd ▸ member) with rfl | member
    · rw [newest, fastpassOutwndLen_eq]
      decide
    · rw [(older q member).1]
      exact (older q member).2

/-- What a send leaves in flight: the packets not at the edge, with the new one in front. -/
theorem send_snd (f : InFlight) (pd : Pktdesc) :
    (f.send pd).2 = (⟨f.nextSeqno, f.pds.filter (·.seqno != f.edge)⟩ : InFlight).add pd := by
  unfold send pop
  cases found : f.pds.find? (·.seqno == f.edge) with
  | some dropped => rfl
  | none =>
    have kept : f.pds.filter (·.seqno != f.edge) = f.pds :=
      List.filter_eq_self.mpr fun q member => by simpa using List.find?_eq_none.mp found q member
    rw [kept]
    rfl

theorem Wf.send (wf : f.Wf) {pd : Pktdesc} (fresh : pd.seqno = f.nextSeqno) : (f.send pd).2.Wf := by
  have kept : (⟨f.nextSeqno, f.pds.filter (·.seqno != f.edge)⟩ : InFlight).Wf :=
    wf.sublist rfl (List.filter_sublist _)
  rw [send_snd]
  exact kept.add (fun q member => by simpa using (List.mem_filter.mp member).2) fresh

theorem Step.wf {c : Call} (wf : f.Wf) (step : Step c f released f') : f'.Wf := by
  cases step with
  | send => exact wf.send rfl
  | ack => exact wf.sublist rfl (List.filter_sublist _)
  | nack retire => exact wf.sublist retire.nextSeqno retire.sublist
  | resetIgnored | idle => exact wf
  | resetAccepted | drain => exact ⟨List.sorted_nil, by simp⟩

/-- Along any run of steps the list stays newest first and inside the window. -/
theorem Steps.wf {cs : List Call} (steps : Steps cs f released f') : f.Wf → f'.Wf := by
  induction steps with
  | nil => exact id
  | cons step _ inductionHypothesis => exact fun wf => inductionHypothesis (step.wf wf)

end InFlight

namespace Outwnd

variable {w : Outwnd}

/-- A window that holds no descriptor has none in flight. -/
theorem inFlight_of_drained (drained : w.heldFrom 0 = []) : w.inFlight = ⟨w.nextSeqno, []⟩ := by
  rw [inFlight, drained]
  rfl

end Outwnd

open Outwnd

/-- The calls `st'` has logged since `st` hand back exactly `released`, in order. -/
def Session.HandsBack (st st' : Session) (released : List Pktdesc) : Prop :=
  st'.log.filterMap Event.released = st.log.filterMap Event.released ++ released.map some

/--
The call from `st` to `st'` is one step of kind `c` of the packets in flight,
and its log hands back what the step releases.
-/
def Session.RefinesCall (c : InFlight.Call) (st st' : Session) : Prop :=
  ∃ released, st.wnd.inFlight.Step c released st'.wnd.inFlight ∧ st.HandsBack st' released

/--
The calls from `st` to `st'` are one step each, of the kinds `cs`, and their
log hands back what the steps release.
-/
def Session.RefinesCalls (cs : List InFlight.Call) (st st' : Session) : Prop :=
  ∃ released, st.wnd.inFlight.Steps cs released st'.wnd.inFlight ∧ st.HandsBack st' released

namespace Session

variable {st st1 st' : Session} {released released' : List Pktdesc}

theorem HandsBack.trans
    (first : st.HandsBack st1 released)
    (second : st1.HandsBack st' released') :
    st.HandsBack st' (released ++ released') := by
  rw [HandsBack, second, first, List.map_append, List.append_assoc]

theorem handsBack_nil
    {events : List Event}
    (logEq : st'.log = st.log ++ events)
    (none : ∀ e ∈ events, e.released = none) :
    st.HandsBack st' [] := by
  simp [HandsBack, logEq, List.filterMap_eq_nil_iff.mpr none]

/-- Release calls for a list of packets hand back exactly those packets, in order. -/
theorem handsBack_map
    {release : Ops → Option Pktdesc → Event}
    (releases : ∀ ops pd, (release ops pd).released = some pd)
    (logEq : st'.log = st.log ++ released.map (release st.ops ∘ some)) :
    st.HandsBack st' released := by
  rw [HandsBack, logEq, List.filterMap_append, List.filterMap_map,
    show Event.released ∘ release st.ops ∘ some = some ∘ some from funext fun _ => releases _ _,
    List.filterMap_eq_map]

/--
Draining the window to `fpproto_pktdesc_free` hands back every packet in
flight, newest first.
-/
theorem handsBack_drained
    (inv : st.wnd.Inv)
    (extra : List Event)
    (none : ∀ e ∈ extra, e.released = none)
    (logEq : st'.log = st.log ++ (st.wnd.heldFrom 0).map .pktdescFree ++ extra) :
    st.HandsBack st' st.wnd.inFlight.pds := by
  have freed : ((st.wnd.heldFrom 0).map Event.pktdescFree).filterMap Event.released =
      st.wnd.heldFrom 0 := by
    rw [List.filterMap_map]
    exact List.filterMap_some _
  rw [HandsBack, logEq, List.filterMap_append, List.filterMap_append, freed,
    List.filterMap_eq_nil_iff.mpr none, List.append_nil, ← inv.heldFrom_eq]

/--
A call that leaves the window as it is and logs nothing it hands back is a
step that releases nothing.
-/
theorem refinesCall_of_quiet
    {c : InFlight.Call}
    {events : List Event}
    (step : st.wnd.inFlight.Step c [] st.wnd.inFlight)
    (wndEq : st'.wnd = st.wnd)
    (logEq : st'.log = st.log ++ events)
    (none : ∀ e ∈ events, e.released = none) :
    st.RefinesCall c st' :=
  ⟨[], by rw [wndEq]; exact step, handsBack_nil logEq none⟩

theorem refinesCall_of_same
    {c : InFlight.Call}
    (step : st.wnd.inFlight.Step c [] st.wnd.inFlight)
    (wndEq : st'.wnd = st.wnd)
    (logEq : st'.log = st.log) :
    st.RefinesCall c st' :=
  refinesCall_of_quiet step wndEq (by rw [logEq, List.append_nil]) (by simp)

theorem RefinesCalls.nil (st : Session) : st.RefinesCalls [] st :=
  ⟨[], .nil _, by simp [HandsBack]⟩

/-- Calls that leave the window as it is and log nothing handed back make no step. -/
theorem RefinesCalls.of_quiet
    {events : List Event}
    (wndEq : st'.wnd = st.wnd)
    (logEq : st'.log = st.log ++ events)
    (none : ∀ e ∈ events, e.released = none) :
    st.RefinesCalls [] st' :=
  ⟨[], by rw [wndEq]; exact .nil _, handsBack_nil logEq none⟩

theorem RefinesCall.cons
    {c : InFlight.Call}
    {cs : List InFlight.Call}
    (first : st.RefinesCall c st1)
    (rest : st1.RefinesCalls cs st') :
    st.RefinesCalls (c :: cs) st' :=
  have ⟨released, step, back⟩ := first
  have ⟨released', steps, back'⟩ := rest
  ⟨released ++ released', .cons step steps, back.trans back'⟩

/-- Calls before a run of steps that leave the window as it is and log nothing handed back. -/
theorem RefinesCalls.quiet_left
    {cs : List InFlight.Call}
    {events : List Event}
    (rest : st1.RefinesCalls cs st')
    (wndEq : st1.wnd = st.wnd)
    (logEq : st1.log = st.log ++ events)
    (none : ∀ e ∈ events, e.released = none) :
    st.RefinesCalls cs st' :=
  have ⟨released, steps, back⟩ := rest
  ⟨released, by rw [← wndEq]; exact steps, by simpa using (handsBack_nil logEq none).trans back⟩

/-- Calls after a run of steps that leave the window as it is and log nothing handed back. -/
theorem RefinesCalls.quiet_right
    {cs : List InFlight.Call}
    {events : List Event}
    (steps : st.RefinesCalls cs st1)
    (wndEq : st'.wnd = st1.wnd)
    (logEq : st'.log = st1.log ++ events)
    (none : ∀ e ∈ events, e.released = none) :
    st.RefinesCalls cs st' :=
  have ⟨released, steps, back⟩ := steps
  ⟨released, by rw [wndEq]; exact steps, by simpa using back.trans (handsBack_nil logEq none)⟩

end Session

/-! ## Each call -/

/-- `fpproto_lock_qdisc` only logs lock calls. -/
theorem fpprotoLockQdisc_emits (st : Session) :
    ∃ events, (∀ e ∈ events, e.released = none) ∧ (fpprotoLockQdisc st).2 = st.emit events := by
  rcases present : st.qdisc with _ | sch
  · exact ⟨[.rcuReadLockBh, .rcuReadUnlockBh], by simp [Event.released],
      by simp [fpprotoLockQdisc, present, Session.emit]⟩
  · by_cases dead : sch.limit = 0
    · exact ⟨[.rcuReadLockBh, .spinLockBh, .spinUnlockBh, .rcuReadUnlockBh],
        by simp [Event.released], by simp [fpprotoLockQdisc, present, dead, Session.emit]⟩
    · exact ⟨[.rcuReadLockBh, .spinLockBh], by simp [Event.released],
        by simp [fpprotoLockQdisc, present, dead, Session.emit]⟩

/-- An ACK takes out exactly the packets it covers, newest first. -/
theorem fpprotoHandleAck_refines
    {st st' : Session}
    (inv : st.wnd.Inv)
    {ackSeq : BitVec 16}
    {ackRunlen : BitVec 32}
    (acked : fpprotoHandleAck st ackSeq ackRunlen = .ok st') :
    st.RefinesCall (.ack ackSeq ackRunlen) st' := by
  obtain ⟨st'', acked', window, log⟩ := fpprotoHandleAck_inFlight inv ackSeq ackRunlen
  rw [acked'] at acked
  cases acked
  refine ⟨_, ?_, Session.handsBack_map ackRelease_released log⟩
  rw [window]
  exact .ack _ ackSeq ackRunlen

/--
A RESET either changes neither the window nor the log, or is accepted: then
every packet in flight is freed and the numbering starts from the epoch's
first sequence number.
-/
theorem fpprotoHandleReset_refines
    (jhash1Word : BitVec 32 → BitVec 32 → BitVec 32)
    {st st' : Session}
    (inv : st.wnd.Inv)
    {partialTstamp now : BitVec 64}
    (reset : fpprotoHandleReset jhash1Word st partialTstamp now = .ok st') :
    st.RefinesCall .reset st' := by
  obtain ⟨wnd, -, empty, -, drained⟩ :=
    doProtoReset_spec jhash1Word inv (fullTstamp now partialTstamp)
  simp only [fpprotoHandleReset] at reset
  split_ifs at reset <;> (try rw [drained] at reset) <;> cases reset
  -- the four rejections leave the session as it is
  iterate 4 exact Session.refinesCall_of_same (.resetIgnored _) rfl rfl
  -- accepted: every packet in flight is freed
  refine ⟨st.wnd.inFlight.pds, ?_, Session.handsBack_drained inv _ (fun e member => ?_) rfl⟩
  · show st.wnd.inFlight.Step .reset _ wnd.inFlight
    rw [inFlight_of_drained (heldFrom_eq_nil_of_free empty)]
    exact .resetAccepted _ _
  · split at member <;> simp_all [Event.released]

/-- The kind of step a call is. -/
def Op.call : Op → InFlight.Call
  | .send pd timestamp => .send pd timestamp
  | .handleAck ackSeq ackRunlen => .ack ackSeq ackRunlen
  | .handleReset _ _ => .reset
  | .tasklet _ => .nack
  | .destroy => .drain
  | .cancelAndReset | .timerExpire | .callbackReturn | .setQdisc _ => .idle

section Run

variable (jhash1Word : BitVec 32 → BitVec 32 → BitVec 32)

end Run

/-! ## Received packets -/

/-- The kind of step a payload's call is. -/
def Payload.call : Payload → InFlight.Call
  | .reset _ _ => .reset
  | .alloc _ => .idle
  | .ack runlen seq => .ack seq (BitVec.ofNat 4 fastpassPtypeAck ++ runlen)

section Rcv

variable (jhash1Word : BitVec 32 → BitVec 32 → BitVec 32)

theorem ok_of_map_eq_ok
    {ε α β : Type}
    {f : α → β}
    {x : Except ε α}
    {b : β}
    (mapped : Except.map f x = .ok b) :
    ∃ a, x = .ok a ∧ f a = b := by
  cases x with
  | error e => cases mapped
  | ok a => exact ⟨a, rfl, Except.ok.inj mapped⟩

/-- A payload's call, from a window with the invariant, is one step of its own kind. -/
theorem Payload.dispatch_refines {st st' : Session} (inv : st.wnd.Inv) (now : BitVec 64) :
    ∀ {p : Payload}, p.dispatch jhash1Word now st = .ok st' → st.RefinesCall p.call st'
  | .reset _ _, dispatched => fpprotoHandleReset_refines jhash1Word inv dispatched
  | .alloc _, dispatched => by
    cases dispatched
    split
    · exact Session.refinesCall_of_quiet (.idle _) rfl rfl (by simp [Event.released])
    · exact Session.refinesCall_of_same (.idle _) rfl rfl
  | .ack _ _, dispatched => fpprotoHandleAck_refines inv dispatched

/-- The calls of payloads laid out in a packet are one step each, of their own kinds. -/
theorem Payload.dispatchFrom_refines (clock : Nat → BitVec 64) :
    ∀ (ps : List Payload) (data : Nat) {st st' : Session},
      Payload.dispatchFrom jhash1Word clock data st ps = .ok st' → st.wnd.Inv →
        st.RefinesCalls (ps.map Payload.call) st'
  | [], _, st, _, dispatched, _ => by
    cases dispatched
    exact .nil st
  | p :: ps, data, st, _, dispatched, inv => by
    rw [Payload.dispatchFrom] at dispatched
    obtain ⟨st1, first, rest⟩ := bind_eq_ok.mp dispatched
    obtain ⟨st1', first', inv1⟩ := p.dispatch_inv jhash1Word inv (clock data)
    rw [first'] at first
    cases first
    exact (Payload.dispatch_refines jhash1Word inv _ first').cons
      (Payload.dispatchFrom_refines clock ps _ rest inv1)

/--
Whatever bytes arrive, `fpproto_rcv` moves the packets in flight only by the
calls of the payloads it parses, one step each.  From a window with the
invariant, the packet makes no step unless the socket is found, its qdisc
locks and the packet has at least 5 bytes; then the payloads are exactly
those the bytes after the header split into, before a remainder that starts
none.  ACK payloads take out the packets they cover, an accepted RESET hands
every packet back and renumbers, and ALLOC payloads, the counters and
malformed bytes leave the list alone.  The log hands back exactly the packets
that leave, in order.
-/
theorem fpprotoRcv_refines_steps
    (clock : Nat → BitVec 64)
    (found : Bool)
    {st st' : Session}
    (inv : st.wnd.Inv)
    (skb : List (BitVec 8))
    (received : fpprotoRcv jhash1Word clock found st skb = .ok st') :
    ∃ ps released,
      (found = true → (fpprotoLockQdisc st).1.isSome = true → 5 ≤ skb.length →
        ∃ r, skb.drop 4 = Payload.serAll ps ++ r ∧ StartsNoPayload r) ∧
      (found = false ∨ (fpprotoLockQdisc st).1 = none ∨ skb.length < 5 → ps = []) ∧
      st.wnd.inFlight.Steps (ps.map Payload.call) released st'.wnd.inFlight ∧
      st.HandsBack st' released := by
  suffices parsed : ∃ ps : List Payload,
      (found = true → (fpprotoLockQdisc st).1.isSome = true → 5 ≤ skb.length →
        ∃ r, skb.drop 4 = Payload.serAll ps ++ r ∧ StartsNoPayload r) ∧
      (found = false ∨ (fpprotoLockQdisc st).1 = none ∨ skb.length < 5 → ps = []) ∧
      st.RefinesCalls (ps.map Payload.call) st' by
    obtain ⟨ps, split, empty, released, steps, back⟩ := parsed
    exact ⟨ps, released, split, empty, steps, back⟩
  obtain ⟨events, quiet, lockedEq⟩ := fpprotoLockQdisc_emits st
  cases found with
  | false =>
    -- not found: the skb is freed
    refine ⟨[], (fun absurd => by cases absurd), fun _ => rfl, ?_⟩
    simp only [fpprotoRcv, Bool.not_false, ↓reduceIte, Except.ok.injEq] at received
    subst received
    exact .of_quiet rfl rfl (by simp [Event.released])
  | true =>
  rcases locked : fpprotoLockQdisc st with ⟨_ | sch, stL⟩
  · -- the qdisc does not lock: the skb is freed
    refine ⟨[], (fun _ live => by cases live), fun _ => rfl, ?_⟩
    simp only [locked] at lockedEq
    simp only [fpprotoRcv, Bool.not_true, Bool.false_eq_true, ↓reduceIte, locked,
      Except.ok.injEq] at received
    subst received lockedEq
    exact .of_quiet rfl (List.append_assoc _ _ _)
      (List.forall_mem_append.mpr ⟨quiet, by simp [Event.released]⟩)
  simp only [locked] at lockedEq
  subst lockedEq
  by_cases short : skb.length < 5
  · -- too short: counted, and cleaned up
    refine ⟨[], fun _ _ long => absurd long (by omega), fun _ => rfl, ?_⟩
    rw [fpprotoRcv_of_locked jhash1Word clock locked skb, if_pos short] at received
    obtain ⟨_, ⟨⟩, rfl⟩ := ok_of_map_eq_ok received
    rw [rcvCleanup_eq]
    exact .of_quiet rfl (List.append_assoc _ _ _)
      (List.forall_mem_append.mpr ⟨quiet, by simp [Event.released]⟩)
  -- parsed: the payloads' calls, between the lock and the cleanup
  obtain ⟨ps, r, split, noPayload, parsed⟩ :=
    fpprotoRcv_parsed jhash1Word clock locked (show 5 ≤ skb.length by omega)
  refine ⟨ps, fun _ _ _ => ⟨r, split, noPayload⟩, fun exits => ?_, ?_⟩
  · simp only [Bool.true_eq_false, reduceCtorEq, false_or] at exits
    omega
  rw [parsed] at received
  obtain ⟨st1, dispatched, rfl⟩ := ok_of_map_eq_ok received
  have locking : st.RefinesCalls (ps.map Payload.call) st1 :=
    (Payload.dispatchFrom_refines jhash1Word clock ps 4 dispatched inv).quiet_left rfl rfl quiet
  rw [rcvCleanup_eq]
  exact locking.quiet_right rfl rfl (by simp [Event.released])

/-- An ACK payload for the one packet of the sample window, on a socket whose qdisc locks. -/
theorem fpprotoRcv_refines_steps_ack :
    let st : Session := { Session.allocated ⟨false, false, false, false⟩ 0 0 with
      wnd := Outwnd.sample, qdisc := some ⟨1⟩ }
    let skb : List (BitVec 8) := [0, 0, 0, 0] ++ (Payload.ack 0 ((-5 : BitVec 64).setWidth 16)).ser
    st.wnd.Inv ∧ ∃ st', fpprotoRcv (fun _ _ => 0) (fun _ => 0) true st skb = .ok st' ∧
      ∃ ps released,
        (true = true → (fpprotoLockQdisc st).1.isSome = true → 5 ≤ skb.length →
          ∃ r, skb.drop 4 = Payload.serAll ps ++ r ∧ StartsNoPayload r) ∧
        (true = false ∨ (fpprotoLockQdisc st).1 = none ∨ skb.length < 5 → ps = []) ∧
        st.wnd.inFlight.Steps (ps.map Payload.call) released st'.wnd.inFlight ∧
        st.HandsBack st' released := by
  intro st skb
  have inv : st.wnd.Inv := Outwnd.sample_inv
  obtain ⟨st', received, -⟩ := fpprotoRcv_inv (fun _ _ => 0) (fun _ => 0) true inv skb
  exact ⟨inv, st', received,
    fpprotoRcv_refines_steps (fun _ _ => 0) (fun _ => 0) true inv skb received⟩

end Rcv

end Fastpass
