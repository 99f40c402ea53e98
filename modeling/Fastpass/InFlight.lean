import Fastpass.Runs

namespace Fastpass

/-!
# What the window stands for

The outstanding window is a doubled bitmap and `W` slots indexed by the
negated sequence number.  What it stands for is simpler: the descriptors of
the packets sent and not yet acknowledged, newest first, and the sequence
number the next packet gets (`InFlight`).  `Outwnd.inFlight` reads that list
off a window, and `outwnd_refines_inFlight` shows that on a window with the
invariant each window operation is the list's own: `outwnd_add` puts the
packet in front unless the sequence number it pushes out of the window is
still outstanding, `outwnd_pop` of a sequence number of the window takes its
packet out, `outwnd_reset` hands the whole list back, `outwnd_is_unacked` is
membership, and `outwnd_earliest_unacked` is the last entry.

The bridge is one fact: the descriptor in the slot of each occupied age
carries that age's sequence number (`Outwnd.Inv.seqno_of_occupied`), so a
condition on the sequence numbers in flight is a condition on the occupied
ages (`Outwnd.Inv.filter_inFlight`).
-/

/-- The packets in flight: their descriptors, newest first, and the next sequence number. -/
structure InFlight where
  nextSeqno : BitVec 64
  pds : List Pktdesc

namespace InFlight

/-- How far `s` lies below the newest sequence number. -/
def age (f : InFlight) (s : BitVec 64) : Nat :=
  (f.nextSeqno - 1 - s).toNat

/-- The list is newest first and inside the window of the last `W` sequence numbers. -/
def Wf (f : InFlight) : Prop :=
  (f.pds.map fun pd => f.age pd.seqno).Sorted (· < ·) ∧ ∀ pd ∈ f.pds,
    f.age pd.seqno < fastpassOutwndLen

/-- The sequence number a new packet pushes out of the window. -/
def edge (f : InFlight) : BitVec 64 :=
  f.nextSeqno - outwndLen64

/-- Whether the packet of `s` is outstanding. -/
def isUnacked (f : InFlight) (s : BitVec 64) : Bool :=
  f.pds.any (·.seqno == s)

/-- A new packet, the newest. -/
def add (f : InFlight) (pd : Pktdesc) : InFlight :=
  ⟨f.nextSeqno + 1, pd :: f.pds⟩

/-- The outstanding packet of `s`, if any, taken out. -/
def pop (f : InFlight) (s : BitVec 64) : Option (Pktdesc × InFlight) :=
  (f.pds.find? (·.seqno == s)).map fun pd => (pd, ⟨f.nextSeqno, f.pds.filter (·.seqno != s)⟩)

/-- The sequence number of the oldest outstanding packet. -/
def earliest (f : InFlight) : Option (BitVec 64) :=
  f.pds.getLast?.map (·.seqno)

end InFlight

/-- The packets a window holds in flight. -/
def Outwnd.inFlight (w : Outwnd) : InFlight :=
  ⟨w.nextSeqno, (w.heldFrom 0).filterMap id⟩

namespace Outwnd

variable {w : Outwnd}

theorem inFlight_pds (w : Outwnd) :
    w.inFlight.pds = (w.occupiedFrom 0).filterMap fun b => w.bins (w.slot b) := by
  simp [inFlight, heldFrom, List.filterMap_map, Function.comp_def]

/-- The descriptor in the slot of an occupied age carries that age's sequence number. -/
theorem Inv.seqno_of_occupied (inv : w.Inv) {b : Nat} (occupied : w.occupiedAge b = true) :
    ∃ pd, w.bins (w.slot b) = some pd ∧ pd.seqno = w.seqnoOfAge b := by
  obtain ⟨pd, held⟩ := inv.bins_of_occupied occupied
  obtain ⟨pdYoung, pdSlot⟩ := inv.seqno _ (w.slot_lt b) pd held
  rw [outwndPos_eq_slot_age] at pdSlot
  refine ⟨pd, held, ?_⟩
  rw [← slot_inj pdYoung (young_of_occupied occupied) pdSlot, seqnoOfAge_age]

/-- Every slot of an occupied age is full: the held descriptors are those in flight. -/
theorem Inv.heldFrom_eq (inv : w.Inv) : w.heldFrom 0 = w.inFlight.pds.map some := by
  obtain ⟨held, someEq, -, -⟩ :=
    inv.held_of_occupied (w.occupiedFrom 0) fun a member => (mem_occupiedFrom.mp member).2
  have heldEq : w.heldFrom 0 = held.map some := someEq
  simp [inFlight, heldEq, List.filterMap_map, Function.comp_def]

/-- The ages of the sequence numbers in flight are the occupied ages, in order. -/
theorem Inv.ages_inFlight (inv : w.Inv) :
    (w.inFlight.pds.map fun pd => w.age pd.seqno) = w.occupiedFrom 0 := by
  obtain ⟨held, someEq, ages, -⟩ :=
    inv.held_of_occupied (w.occupiedFrom 0) fun a member => (mem_occupiedFrom.mp member).2
  have heldEq : w.heldFrom 0 = held.map some := someEq
  simpa [inFlight, heldEq, List.filterMap_map, Function.comp_def] using ages

/-- A condition on the sequence numbers in flight is the same condition on the occupied ages. -/
theorem Inv.filter_inFlight (inv : w.Inv) (p : BitVec 64 → Bool) :
    w.inFlight.pds.filter (fun pd => p pd.seqno) =
      ((w.occupiedFrom 0).filter fun b => p (w.seqnoOfAge b)).filterMap fun b =>
        w.bins (w.slot b) := by
  rw [inFlight_pds, List.filter_filterMap, List.filterMap_filter]
  refine List.filterMap_congr fun b member => ?_
  obtain ⟨pd, held, seqnoEq⟩ := inv.seqno_of_occupied (mem_occupiedFrom.mp member).2
  by_cases keep : p (w.seqnoOfAge b) <;> simp [held, seqnoEq, keep, Option.filter]

/-- Emptying the slot of age `t` removes `t` from the occupied ages. -/
theorem occupiedFrom_clearSlot {t : Nat} (young : t < fastpassOutwndLen) (a : Nat) :
    (w.clearSlot (w.slot t)).occupiedFrom a = (w.occupiedFrom a).filter (· != t) := by
  simp only [occupiedFrom, List.filter_filter]
  exact List.filter_congr fun b _ => by rw [clearSlot_occupiedAge young, Bool.and_comm]; rfl

/-- `outwnd_is_unacked` of a sequence number of the window is membership of the list. -/
theorem Inv.outwndIsUnacked_eq (inv : w.Inv) {s : BitVec 64} (young : w.age s < fastpassOutwndLen) :
    outwndIsUnacked w s = w.inFlight.isUnacked s := by
  rw [outwndIsUnacked_eq_occupiedAge young, Bool.eq_iff_iff, InFlight.isUnacked, List.any_eq_true]
  constructor
  · intro occupied
    have member : w.age s ∈ w.occupiedFrom 0 := mem_occupiedFrom.mpr ⟨Nat.zero_le _, occupied⟩
    rw [← inv.ages_inFlight, List.mem_map] at member
    obtain ⟨pd, inFlight, ageEq⟩ := member
    exact ⟨pd, inFlight, beq_iff_eq.mpr (eq_of_age_eq ageEq)⟩
  · rintro ⟨pd, inFlight, seqnoEq⟩
    have member : w.age pd.seqno ∈ w.occupiedFrom 0 :=
      inv.ages_inFlight ▸ List.mem_map_of_mem _ inFlight
    rw [← beq_iff_eq.mp seqnoEq]
    exact (mem_occupiedFrom.mp member).2

/--
`outwnd_add` puts the packet in front, unless the packet it would push out is
still outstanding.
-/
theorem Inv.outwndAdd_inFlight (inv : w.Inv) (pd : Pktdesc) :
    (outwndAdd w pd).map inFlight =
      if w.inFlight.isUnacked w.inFlight.edge then .error .outwndAdd else .ok
        (w.inFlight.add pd) := by
  have edgeYoung : w.age (w.nextSeqno - outwndLen64) < fastpassOutwndLen := by
    rw [age_edge]
    decide
  rw [show w.inFlight.edge = w.nextSeqno - outwndLen64 from rfl, ← inv.outwndIsUnacked_eq edgeYoung]
  cases edge : outwndIsUnacked w (w.nextSeqno - outwndLen64)
  · have free : w.occupiedAge (fastpassOutwndLen - 1) = false := by
      rwa [outwndIsUnacked_eq_occupiedAge edgeYoung, age_edge] at edge
    rw [outwndAdd_of_free free]
    simp [Except.map, inFlight, heldFrom_added free, InFlight.add]
  · simp [outwndAdd, edge, Except.map]

/--
`outwnd_pop` of a sequence number of the window takes its packet out of the
list, or crashes if it is not there.
-/
theorem Inv.outwndPop_inFlight (inv : w.Inv) {s : BitVec 64} (young : w.age s < fastpassOutwndLen) :
    (outwndPop w s).map (Prod.map id inFlight) =
      match w.inFlight.pop s with
      | some r => .ok (some r.1, r.2)
      | none => .error .outwndPop := by
  cases occupied : w.occupiedAge (w.age s)
  · have notFound : w.inFlight.pds.find? (·.seqno == s) = none := by
      rw [List.find?_eq_none]
      intro pd member found
      have unacked : w.inFlight.isUnacked s = true := List.any_eq_true.mpr ⟨pd, member, found⟩
      rw [← inv.outwndIsUnacked_eq young, outwndIsUnacked_eq_occupiedAge young, occupied] at unacked
      cases unacked
    have unacked : outwndIsUnacked w s =
      false := by rw [outwndIsUnacked_eq_occupiedAge young, occupied]
    simp [outwndPop, unacked, InFlight.pop, notFound, Except.map]
  · obtain ⟨pd, held, seqnoEq⟩ := inv.seqno_of_occupied occupied
    rw [seqnoOfAge_age] at seqnoEq
    have member : w.age s ∈ w.occupiedFrom 0 := mem_occupiedFrom.mpr ⟨Nat.zero_le _, occupied⟩
    -- the ages of the window whose sequence number is `s`, or is not
    have sameAge : ∀ b ∈ w.occupiedFrom 0, (w.seqnoOfAge b == s) = (b == w.age s) :=
      fun b inWindow => by
      have small : b < 2 ^ 64 := by
        have := young_of_occupied (mem_occupiedFrom.mp inWindow).2
        rw [fastpassOutwndLen_eq] at this
        omega
      rw [Bool.eq_iff_iff, beq_iff_eq, beq_iff_eq]
      constructor
      · rintro rfl
        exact (w.age_seqnoOfAge b small).symm
      · rintro rfl
        exact seqnoOfAge_age w s
    have found : w.inFlight.pds.find? (·.seqno == s) = some pd := by
      rw [← List.filter_head?, inv.filter_inFlight (· == s), List.filter_congr sameAge,
        List.filter_beq, List.count_eq_one_of_mem (occupiedFrom_nodup w 0) member]
      simp [held]
    have rest : (w.clearSlot (w.slot (w.age s))).inFlight.pds =
      w.inFlight.pds.filter (·.seqno != s) := by
      rw [inv.filter_inFlight (· != s), inFlight_pds, occupiedFrom_clearSlot young]
      refine (List.filterMap_congr fun b kept => ?_).trans
        (congrArg _ (List.filter_congr fun b inWindow => ?_))
      · have ⟨inWindow, other⟩ := List.mem_filter.mp kept
        exact clearSlot_bins_slot young (young_of_occupied (mem_occupiedFrom.mp inWindow).2)
          (by simpa using other)
      · simp only [bne, sameAge b inWindow]
    simp only [outwndPop_of_occupied occupied, held, InFlight.pop, found, Except.map,
      Option.map_some']
    rw [← rest]
    rfl

/-- `outwnd_reset` hands back the whole list and leaves none in flight. -/
theorem Inv.outwndReset_inFlight (inv : w.Inv) :
    (outwndReset w).map (Prod.map id inFlight) =
      .ok (w.inFlight.pds.map some, ⟨w.nextSeqno, []⟩) := by
  obtain ⟨w', drained, reset⟩ := outwndReset_spec inv
  have empty : w'.inFlight.pds = [] := by rw [inFlight, reset.heldFrom_eq_nil]; rfl
  rw [drained, ← inv.heldFrom_eq]
  simp [Except.map, inFlight, reset.nextSeqno, reset.heldFrom_eq_nil]

/-- `outwnd_earliest_unacked` finds the oldest packet in flight. -/
theorem Inv.outwndEarliestUnacked_inFlight
    (inv : w.Inv)
    {s : BitVec 64}
    (earliest : w.inFlight.earliest = some s) :
    outwndEarliestUnacked w = .ok s := by
  obtain ⟨pd, last, rfl⟩ := Option.map_eq_some'.mp earliest
  have lastAge : (w.occupiedFrom 0).getLast? = some (w.age pd.seqno) := by
    rw [← inv.ages_inFlight, List.getLast?_map, last]
    rfl
  obtain ⟨younger, split⟩ := List.getLast?_eq_some_iff.mp lastAge
  have occupied := (mem_occupiedFrom.mp (List.mem_of_getLast?_eq_some lastAge)).2
  have oldest : ∀ j, w.occupiedAge j = true → j ≤ w.age pd.seqno := fun j jOccupied => by
    have sorted := occupiedFrom_sorted w 0
    have member : j ∈ w.occupiedFrom 0 := mem_occupiedFrom.mpr ⟨Nat.zero_le _, jOccupied⟩
    rw [split] at sorted member
    rcases List.mem_append.mp member with earlier | same
    · exact Nat.le_of_lt
        ((List.pairwise_append.mp sorted).2.2 j earlier _ (List.mem_singleton_self _))
    · exact Nat.le_of_eq (List.mem_singleton.mp same)
  rw [outwndEarliestUnacked_eq inv occupied oldest, seqnoOfAge_age]

end Outwnd

open Outwnd

/--
The window implements the list of packets in flight.  On a window with the
invariant the list is newest first and inside the window; `outwnd_add` puts
the packet in front, and crashes if the packet it would push out of the
window is still outstanding; `outwnd_pop` of a sequence number of the window
takes its packet out, and crashes if it is not in flight; `outwnd_reset`
hands back every packet in flight, newest first, and leaves none;
`outwnd_is_unacked` is membership; and `outwnd_earliest_unacked` is the
oldest packet in flight.
-/
theorem outwnd_refines_inFlight {w : Outwnd} (inv : w.Inv) :
    w.inFlight.Wf ∧
    (∀ pd, (outwndAdd w pd).map Outwnd.inFlight =
      if w.inFlight.isUnacked w.inFlight.edge then .error .outwndAdd else .ok (w.inFlight.add pd)) ∧
    (∀ s, w.inFlight.age s < fastpassOutwndLen →
      (outwndPop w s).map (Prod.map id Outwnd.inFlight) =
        match w.inFlight.pop s with
        | some r => .ok (some r.1, r.2)
        | none => .error .outwndPop) ∧
    (outwndReset w).map (Prod.map id Outwnd.inFlight) =
      .ok (w.inFlight.pds.map some, ⟨w.nextSeqno, []⟩) ∧
    (∀ s, w.inFlight.age s < fastpassOutwndLen → outwndIsUnacked w s = w.inFlight.isUnacked s) ∧
    (∀ s, w.inFlight.earliest = some s → outwndEarliestUnacked w = .ok s) := by
  have ages : (w.inFlight.pds.map fun pd => w.inFlight.age pd.seqno) = w.occupiedFrom 0 :=
    inv.ages_inFlight
  refine ⟨⟨ages ▸ occupiedFrom_sorted w 0, fun pd member => ?_⟩, inv.outwndAdd_inFlight,
    fun _ young => inv.outwndPop_inFlight young, inv.outwndReset_inFlight,
    fun _ young => inv.outwndIsUnacked_eq young, fun _ earliest =>
      inv.outwndEarliestUnacked_inFlight earliest⟩
  have inWindow : w.inFlight.age pd.seqno ∈ w.occupiedFrom 0 := ages ▸ List.mem_map_of_mem _ member
  exact young_of_occupied (mem_occupiedFrom.mp inWindow).2

/-- The sample window, as an instance of the hypothesis. -/
theorem outwnd_refines_inFlight_sample :
    Outwnd.sample.Inv ∧ Outwnd.sample.inFlight.Wf ∧
    (∀ pd, (outwndAdd Outwnd.sample pd).map Outwnd.inFlight =
      if Outwnd.sample.inFlight.isUnacked Outwnd.sample.inFlight.edge then .error .outwndAdd
      else .ok (Outwnd.sample.inFlight.add pd)) ∧
    (∀ s, Outwnd.sample.inFlight.age s < fastpassOutwndLen →
      (outwndPop Outwnd.sample s).map (Prod.map id Outwnd.inFlight) =
        match Outwnd.sample.inFlight.pop s with
        | some r => .ok (some r.1, r.2)
        | none => .error .outwndPop) ∧
    (outwndReset Outwnd.sample).map (Prod.map id Outwnd.inFlight) =
      .ok (Outwnd.sample.inFlight.pds.map some, ⟨Outwnd.sample.nextSeqno, []⟩) ∧
    (∀ s, Outwnd.sample.inFlight.age s < fastpassOutwndLen →
      outwndIsUnacked Outwnd.sample s = Outwnd.sample.inFlight.isUnacked s) ∧
    (∀ s, Outwnd.sample.inFlight.earliest = some s → outwndEarliestUnacked Outwnd.sample = .ok s) :=
  ⟨Outwnd.sample_inv, outwnd_refines_inFlight Outwnd.sample_inv⟩

/-! ## Acknowledgements on the packets in flight -/

namespace InFlight

/--
Whether an ACK whose carried sequence number is `c` covers the packet of
sequence number `s`: its offset below `c` is `0` or lies in a positive run.
-/
def covers (c : BitVec 64) (ackRunlen : BitVec 32) (s : BitVec 64) : Bool :=
  ackRunsContain ackRunlen (c - s).toNat

/-- An ACK: the packets it covers, newest first, and the list it leaves in flight. -/
def ack (f : InFlight) (c : BitVec 64) (ackRunlen : BitVec 32) : List Pktdesc × InFlight :=
  (f.pds.filter (fun pd => covers c ackRunlen pd.seqno),
    ⟨f.nextSeqno, f.pds.filter (fun pd => !covers c ackRunlen pd.seqno)⟩)

end InFlight

namespace Outwnd

variable {w : Outwnd}

theorem inFlight_eq (w : Outwnd) : w.inFlight = ⟨w.nextSeqno, w.inFlight.pds⟩ :=
  rfl

/--
Read off in order, the descriptors of the occupied ages that meet a condition
are the packets in flight that do.
-/
theorem Inv.map_bins_filter (inv : w.Inv) (p : BitVec 64 → Bool) :
    ((w.occupiedFrom 0).filter fun b => p (w.seqnoOfAge b)).map (fun b => w.bins (w.slot b)) =
      (w.inFlight.pds.filter fun pd => p pd.seqno).map some := by
  rw [inv.filter_inFlight, List.map_filterMap, ← List.filterMap_eq_map]
  refine List.filterMap_congr fun b member => ?_
  obtain ⟨pd, held, -⟩ := inv.seqno_of_occupied
    (mem_occupiedFrom.mp (List.mem_filter.mp member).1).2
  simp [held]

/-- The packets a pop leaves are read off the slots of the ages it leaves, as they were. -/
theorem PoppedAges.inFlight_pds_eq {w' : Outwnd} {ages : List Nat} (popped : w.PoppedAges ages w') :
    w'.inFlight.pds = (w'.occupiedFrom 0).filterMap fun b => w.bins (w.slot b) := by
  rw [Outwnd.inFlight_pds w', slot_congr popped.nextSeqno]
  refine List.filterMap_congr fun b member => ?_
  have occupied := (mem_occupiedFrom.mp member).2
  rw [popped.occupiedAge, Bool.and_eq_true] at occupied
  exact popped.bins b (young_of_occupied occupied.1) (by simpa using occupied.2)

/-- Popping distinct occupied ages takes exactly their packets out of the list. -/
theorem PoppedAges.inFlight_pds
    {w' : Outwnd}
    {ages : List Nat}
    (inv : w.Inv)
    (popped : w.PoppedAges ages w') :
    w'.inFlight.pds = w.inFlight.pds.filter fun pd => !ages.contains (w.age pd.seqno) := by
  rw [inv.filter_inFlight (fun s => !ages.contains (w.age s)), popped.inFlight_pds_eq,
    popped.occupiedFrom_filter]
  refine congrArg _ (List.filter_congr fun b inWindow => ?_)
  rw [age_seqnoOfAge]
  have := young_of_occupied (mem_occupiedFrom.mp inWindow).2
  rw [fastpassOutwndLen_eq] at this
  omega

/--
Handing on the descriptors in the slots of occupied ages is handing on the
packets read off them.
-/
theorem Inv.map_filterMap_bins
    {β : Type}
    (inv : w.Inv)
    (f : Option Pktdesc → β)
    {ages : List Nat}
    (occupied : ∀ a ∈ ages, w.occupiedAge a = true) :
    (ages.filterMap fun a => w.bins (w.slot a)).map (f ∘ some) = ages.map fun a =>
      f (w.bins (w.slot a)) := by
  rw [List.map_filterMap, ← List.filterMap_eq_map]
  refine List.filterMap_congr fun a member => ?_
  obtain ⟨pd, held⟩ := inv.bins_of_occupied (occupied a member)
  simp [held]

end Outwnd

/--
`fpproto_handle_ack` on the packets in flight.  On a window with the
invariant it returns, takes out exactly the packets the ACK covers (offsets
below the carried sequence number `c` of `0` or in a positive run), hands each
to `handle_ack` or frees it, newest first, and leaves the others in flight.
-/
theorem fpprotoHandleAck_inFlight
    {st : Session}
    (inv : st.wnd.Inv)
    (ackSeq : BitVec 16)
    (ackRunlen : BitVec 32) :
    ∃ st', fpprotoHandleAck st ackSeq ackRunlen = .ok st' ∧
      st'.wnd.inFlight = (st.wnd.inFlight.ack (ackCurSeqno st.wnd.nextSeqno ackSeq) ackRunlen).2 ∧
      st'.log = st.log ++
        (st.wnd.inFlight.ack (ackCurSeqno st.wnd.nextSeqno ackSeq) ackRunlen).1.map
          (ackRelease st.ops ∘ some) := by
  have cSmall := (ackCurSeqno_spec st.wnd ackSeq).1
  have ages := inv.ages_inFlight
  by_cases young : st.wnd.age (ackCurSeqno st.wnd.nextSeqno ackSeq) < fastpassOutwndLen
  · -- the ACK pops the occupied ages it covers
    obtain ⟨st', result, popped, logEq⟩ := fpprotoHandleAck_popped inv ackSeq ackRunlen young
    rw [← ackedAges_eq ackSeq ackRunlen] at popped logEq
    refine ⟨st', result, ?_, ?_⟩
    · rw [inFlight_eq st'.wnd, popped.nextSeqno, popped.inFlight_pds inv]
      refine congrArg _ (List.filter_congr fun pd member => ?_)
      have inWindow : st.wnd.age pd.seqno ∈ st.wnd.occupiedFrom 0 :=
        ages ▸ List.mem_map_of_mem _ member
      simp [List.elem_eq_mem, List.mem_filter, inWindow, InFlight.covers]
    · have released := congrArg (List.map (ackRelease st.ops))
        (inv.map_bins_filter (InFlight.covers (ackCurSeqno st.wnd.nextSeqno ackSeq) ackRunlen))
      rw [List.map_map, List.map_map] at released
      rw [logEq]
      exact congrArg _ released
  · -- an ACK older than the window covers nothing in it
    have early : fastpassOutwndLen ≤ st.wnd.age (ackCurSeqno st.wnd.nextSeqno ackSeq) := by omega
    have uncovered : ∀ pd ∈ st.wnd.inFlight.pds,
        InFlight.covers (ackCurSeqno st.wnd.nextSeqno ackSeq) ackRunlen pd.seqno = false :=
          fun pd member => by
      have inWindow : st.wnd.age pd.seqno ∈ st.wnd.occupiedFrom 0 :=
        ages ▸ List.mem_map_of_mem _ member
      have pdYoung := young_of_occupied (mem_occupiedFrom.mp inWindow).2
      have far := @sub_seqnoOfAge_of_lt st.wnd (ackCurSeqno st.wnd.nextSeqno ackSeq)
        (st.wnd.age pd.seqno)
        (by omega) (by omega)
      rw [seqnoOfAge_age] at far
      exact Bool.eq_false_iff.mpr fun covered => absurd (ackRunsContain_le covered) (by omega)
    have kept : st.wnd.inFlight.pds.filter
        (fun pd => !InFlight.covers (ackCurSeqno st.wnd.nextSeqno ackSeq) ackRunlen pd.seqno) =
        st.wnd.inFlight.pds :=
      List.filter_eq_self.mpr fun pd member => by simp [uncovered pd member]
    have none : st.wnd.inFlight.pds.filter
        (fun pd => InFlight.covers (ackCurSeqno st.wnd.nextSeqno ackSeq) ackRunlen pd.seqno) = [] :=
      List.filter_eq_nil_iff.mpr fun pd member => by simp [uncovered pd member]
    refine ⟨_, fpprotoHandleAck_of_early ackRunlen early, ?_, ?_⟩
    · show st.wnd.inFlight = ⟨st.wnd.nextSeqno, st.wnd.inFlight.pds.filter _⟩
      rw [kept]
      rfl
    · show st.log = st.log ++ (st.wnd.inFlight.pds.filter _).map _
      rw [none, List.map_nil, List.append_nil]

/-- The ACK of the one packet of the sample window, as an instance of the hypothesis. -/
theorem fpprotoHandleAck_inFlight_sample :
    let st : Session := { Session.allocated ⟨false, false, false, false⟩ 0 0 with
      wnd := Outwnd.sample }
    let c := ackCurSeqno st.wnd.nextSeqno ((-5 : BitVec 64).setWidth 16)
    st.wnd.Inv ∧ ∃ st', fpprotoHandleAck st ((-5 : BitVec 64).setWidth 16) 0 = .ok st' ∧
      st'.wnd.inFlight = (st.wnd.inFlight.ack c 0).2 ∧
      st'.log = st.log ++ (st.wnd.inFlight.ack c 0).1.map (ackRelease st.ops ∘ some) := by
  intro st c
  have inv : st.wnd.Inv := Outwnd.sample_inv
  exact ⟨inv, fpprotoHandleAck_inFlight inv _ 0⟩

/-! ## Sending on the packets in flight -/

namespace InFlight

/--
A packet sent: the packet the new one pushes out of the window, if still
outstanding, is dropped, and the new one goes in front.
-/
def send (f : InFlight) (pd : Pktdesc) : Option Pktdesc × InFlight :=
  match f.pop f.edge with
  | some (dropped, f') => (some dropped, f'.add pd)
  | none => (none, f.add pd)

end InFlight

/-- Adding onto a free edge puts the packet in front. -/
theorem Outwnd.added_inFlight
    {w : Outwnd}
    (free : w.occupiedAge (fastpassOutwndLen - 1) = false)
    (pd : Pktdesc) :
    (w.added pd).inFlight = w.inFlight.add pd := by
  simp [Outwnd.inFlight, heldFrom_added free, InFlight.add]

/--
`fpproto_prepare_to_send` then `fpproto_commit_packet` on the packets in
flight.  If the packet the new one pushes out of the window is still
outstanding, it is NACKed as dropped and taken out; then the stamped packet
goes in front.
-/
theorem send_inFlight {st : Session} (inv : st.wnd.Inv) (pd : Pktdesc) (timestamp : BitVec 64) :
    ∃ st', (fpprotoPrepareToSend st >>= fun st1 => fpprotoCommitPacket st1 pd timestamp) = .ok st' ∧
      st'.wnd.inFlight = (st.wnd.inFlight.send (st.stamp pd timestamp)).2 ∧
      st'.log = st.log ++
        (st.wnd.inFlight.send (st.stamp pd timestamp)).1.toList.map
          (negAckRelease st.ops ∘ some) := by
  have edgeAge : st.wnd.age st.wnd.inFlight.edge = fastpassOutwndLen - 1 := age_edge st.wnd
  have popped :=
    inv.outwndPop_inFlight (show st.wnd.inFlight.age st.wnd.inFlight.edge < fastpassOutwndLen by
    rw [show st.wnd.inFlight.age = st.wnd.age from rfl, edgeAge]
    decide)
  rcases found : st.wnd.inFlight.pop st.wnd.inFlight.edge with _ | ⟨dropped, rest⟩
  · -- the edge is free: nothing is dropped
    have free : st.wnd.occupiedAge (fastpassOutwndLen - 1) = false := by
      cases occupied : st.wnd.occupiedAge (fastpassOutwndLen - 1)
      · rfl
      · rw [found, outwndPop_of_occupied (edgeAge ▸ occupied)] at popped
        cases popped
    rw [fpprotoPrepareToSend_of_free free, except_ok_bind, fpprotoCommitPacket_of_free free]
    simp only [InFlight.send, found]
    refine ⟨_, rfl, ?_, ?_⟩ <;> split <;> simp [Outwnd.added_inFlight free]
  · -- the edge's packet falls off: NACKed, taken out, then the new one goes in front
    have occupied : st.wnd.occupiedAge (fastpassOutwndLen - 1) = true := by
      cases occupied : st.wnd.occupiedAge (fastpassOutwndLen - 1)
      · have unacked : outwndIsUnacked st.wnd st.wnd.inFlight.edge = false := by
          rw [outwndIsUnacked_eq_occupiedAge (by rw [edgeAge]; decide), edgeAge, occupied]
        simp [found, outwndPop, unacked, Except.map] at popped
      · rfl
    rw [found, outwndPop_of_occupied (edgeAge ▸ occupied), edgeAge] at popped
    obtain ⟨held, restEq⟩ : st.wnd.bins (st.wnd.slot (fastpassOutwndLen - 1)) = some dropped ∧
        (st.wnd.clearSlot (st.wnd.slot (fastpassOutwndLen - 1))).inFlight = rest := by
      simpa [Except.map] using popped
    -- `fpproto_prepare_to_send` NACKs it and resets the timer, which leaves the window alone
    obtain ⟨st1, prepared, window, log, stamp⟩ : ∃ st1, fpprotoPrepareToSend st = .ok st1 ∧
        st1.wnd = st.wnd.clearSlot (st.wnd.slot (fastpassOutwndLen - 1)) ∧
        st1.log = st.log ++ [negAckRelease st.ops (some dropped)] ∧ st1.stamp = st.stamp := by
      obtain ⟨hint, timer, reset⟩ := @cancelAndResetRetransTimer_ok
        ({ st with stats := { st.stats with fallOffOutwnd := st.stats.fallOffOutwnd + 1 } }.popAge
          negAckRelease (fastpassOutwndLen - 1)) (clearSlot_inv inv occupied)
      exact ⟨_, (fpprotoPrepareToSend_of_occupied occupied).trans reset,
        rfl, by simp [Session.popAge, held], rfl⟩
    have cleared : (st.wnd.clearSlot (st.wnd.slot (fastpassOutwndLen - 1))).occupiedAge
      (fastpassOutwndLen - 1) =
        false := by
      simp [clearSlot_occupiedAge (show fastpassOutwndLen - 1 < fastpassOutwndLen by decide)]
    rw [prepared, except_ok_bind, fpprotoCommitPacket_of_free (window ▸ cleared)]
    simp only [InFlight.send, found]
    refine ⟨_, rfl, ?_, ?_⟩ <;> split
    all_goals simp [Outwnd.added_inFlight cleared, window, restEq, log, stamp]

/-- A packet sent on the sample window, as an instance of the hypothesis. -/
theorem send_inFlight_sample :
    let st : Session := { Session.allocated ⟨false, false, false, false⟩ 0 0 with
      wnd := Outwnd.sample }
    let pd : Pktdesc := ⟨1, 0, 0, false, 0, []⟩
    st.wnd.Inv ∧ ∃ st',
      (fpprotoPrepareToSend st >>= fun st1 => fpprotoCommitPacket st1 pd 0) = .ok st' ∧
      st'.wnd.inFlight = (st.wnd.inFlight.send (st.stamp pd 0)).2 ∧
      st'.log = st.log ++ (st.wnd.inFlight.send (st.stamp pd 0)).1.toList.map
        (negAckRelease st.ops ∘ some) := by
  intro st pd
  have inv : st.wnd.Inv := Outwnd.sample_inv
  exact ⟨inv, send_inFlight inv pd 0⟩

/-! ## The retransmission tasklet on the packets in flight -/

namespace InFlight

/-- Whether a packet's deadline, its send time plus the timeout, is not after `now`. -/
def expired (timeout now : BitVec 64) (pd : Pktdesc) : Bool :=
  !timeAfter64 (pd.sentTimestamp + timeout) now

/--
The tasklet's NACKs: the longest run of oldest packets that have expired,
oldest first, and the packets it leaves in flight.
-/
def nackExpired (f : InFlight) (timeout now : BitVec 64) : List Pktdesc × InFlight :=
  (f.pds.reverse.takeWhile (expired timeout now),
    ⟨f.nextSeqno, (f.pds.reverse.dropWhile (expired timeout now)).reverse⟩)

end InFlight

/--
`retrans_tasklet` on the packets in flight.  With the qdisc present and a hint
inside the window that no outstanding packet is older than, it NACKs, oldest
first, the longest run of oldest packets that have expired, and leaves the
others in flight.  If none is left the hint and the timer stay as they were;
otherwise the oldest packet left becomes the hint and the timer is armed at
its deadline.
-/
theorem retransTasklet_inFlight
    {st : Session}
    (inv : st.wnd.Inv)
    (now : BitVec 64)
    {sch : Qdisc}
    (present : st.qdisc = some sch)
    (live : sch.limit ≠ 0)
    (hintYoung : st.wnd.age st.earliestUnacked < fastpassOutwndLen)
    (hintOldest : ∀ a, st.wnd.occupiedAge a = true → a ≤ st.wnd.age st.earliestUnacked) :
    ∃ st', retransTasklet st now = .ok st' ∧
      st'.wnd.inFlight = (st.wnd.inFlight.nackExpired st.sendTimeoutUs now).2 ∧
      st'.log = st.log ++ [.rcuReadLockBh, .spinLockBh] ++
        (st.wnd.inFlight.nackExpired st.sendTimeoutUs now).1.map (negAckRelease st.ops ∘ some) ++
        [.spinUnlockBh, .rcuReadUnlockBh] ∧
      match (st.wnd.inFlight.nackExpired st.sendTimeoutUs now).2.pds.getLast? with
      | none => st'.earliestUnacked = st.earliestUnacked ∧ st'.retransTimer = st.retransTimer
      | some pd => st'.earliestUnacked = pd.seqno ∧
          st'.retransTimer = hrtimerStart st.retransTimer
            (pd.sentTimestamp + st.sendTimeoutUs) := by
  -- the loop reads deadlines of occupied ages only; taking `now`, which has expired, on a free
  -- slot makes its condition on an age the list's condition on the packet in that slot
  have expiredEq : (fun a => !timeAfter64
      (((st.wnd.bins (st.wnd.slot a)).map (·.sentTimestamp + st.sendTimeoutUs)).getD now) now) =
      fun a => (st.wnd.bins (st.wnd.slot a)).all (InFlight.expired st.sendTimeoutUs now) := by
    funext a
    cases st.wnd.bins (st.wnd.slot a) <;> simp [InFlight.expired, timeAfter64]
  obtain ⟨wnd', popped, loop⟩ := @retransLoop_popped (st.emit [.rcuReadLockBh, .spinLockBh]) inv now
    (fun a => ((st.wnd.bins (st.wnd.slot a)).map (·.sentTimestamp + st.sendTimeoutUs)).getD now)
    (fun a occupied => by
      obtain ⟨pd, held⟩ := inv.bins_of_occupied occupied
      simp [Session.deadline, Session.emit, held])
    (st.emit [.rcuReadLockBh, .spinLockBh]).earliestUnacked hintYoung hintOldest
  simp only [Session.emit_wnd, expiredEq] at popped loop
  -- the same lists, read off the packets in flight
  have pdsReverse : st.wnd.inFlight.pds.reverse =
      (st.wnd.occupiedFrom 0).reverse.filterMap fun a => st.wnd.bins (st.wnd.slot a) := by
    rw [inFlight_pds, List.filterMap_reverse]
  have nacked : (st.wnd.inFlight.nackExpired st.sendTimeoutUs now).1 =
      ((st.wnd.occupiedFrom 0).reverse.takeWhile fun a =>
        (st.wnd.bins (st.wnd.slot a)).all (InFlight.expired st.sendTimeoutUs now)).filterMap
        fun a => st.wnd.bins (st.wnd.slot a) := by
    simp only [InFlight.nackExpired, pdsReverse, List.takeWhile_filterMap]
  have left := popped.reverse_dropWhile
  simp only [retransTasklet, fpprotoLockQdisc_of_live present live]
  rw [loop]
  have rest : (st.wnd.inFlight.nackExpired st.sendTimeoutUs now).2 =
      ⟨st.wnd.nextSeqno, (((st.wnd.occupiedFrom 0).reverse.dropWhile fun a =>
        (st.wnd.bins (st.wnd.slot a)).all (InFlight.expired st.sendTimeoutUs now)).filterMap
        fun a => st.wnd.bins (st.wnd.slot a)).reverse⟩ := by
    simp only [InFlight.nackExpired, pdsReverse, List.dropWhile_filterMap]
    rfl
  have nackedOccupied : ∀ a ∈ (st.wnd.occupiedFrom 0).reverse.takeWhile (fun a =>
      (st.wnd.bins (st.wnd.slot a)).all (InFlight.expired st.sendTimeoutUs now)),
      st.wnd.occupiedAge a = true := fun a member =>
    (mem_occupiedFrom.mp (List.mem_reverse.mp ((List.takeWhile_sublist _).subset member))).2
  rw [rest, nacked, inv.map_filterMap_bins _ nackedOccupied]
  generalize split : (st.wnd.occupiedFrom 0).reverse.dropWhile (fun a =>
    (st.wnd.bins (st.wnd.slot a)).all (InFlight.expired st.sendTimeoutUs now)) = R at left ⊢
  have window : wnd'.inFlight = ⟨st.wnd.nextSeqno,
    (R.filterMap fun a => st.wnd.bins (st.wnd.slot a)).reverse⟩ := by
    rw [inFlight_eq wnd', popped.nextSeqno, popped.inFlight_pds_eq, ← List.filterMap_reverse,
      ← left,
      List.reverse_reverse]
  cases R with
  | nil =>
    refine ⟨_, rfl, window, ?_, ⟨rfl, rfl⟩⟩
    simp [fpprotoUnlockQdisc, Session.emit, List.append_assoc]
  | cons a rest =>
    have aOccupied : st.wnd.occupiedAge a = true := by
      have occupied := occupied_of_occupiedFrom_reverse left
      rw [popped.occupiedAge, Bool.and_eq_true] at occupied
      exact occupied.1
    obtain ⟨pd, held, seqnoEq⟩ := inv.seqno_of_occupied aOccupied
    refine ⟨_, rfl, window, ?_, ?_⟩
    · simp [fpprotoUnlockQdisc, Session.emit, List.append_assoc]
    · simp [List.filterMap_cons, held, seqnoEq, fpprotoUnlockQdisc, Session.emit]

/-- The sample window's one packet, expired at clock reading `0`, with a live qdisc. -/
theorem retransTasklet_inFlight_expired :
    let st : Session := { Session.allocated ⟨false, false, false, false⟩ 0 0 with
      wnd := Outwnd.sample, qdisc := some ⟨1⟩, earliestUnacked := -5 }
    st.wnd.Inv ∧ st.qdisc = some ⟨1⟩ ∧ (⟨1⟩ : Qdisc).limit ≠ 0 ∧
    st.wnd.age st.earliestUnacked < fastpassOutwndLen ∧
    (∀ a, st.wnd.occupiedAge a = true → a ≤ st.wnd.age st.earliestUnacked) ∧
    ∃ st', retransTasklet st 0 = .ok st' ∧
      st'.wnd.inFlight = (st.wnd.inFlight.nackExpired st.sendTimeoutUs 0).2 ∧
      st'.log = st.log ++ [.rcuReadLockBh, .spinLockBh] ++
        (st.wnd.inFlight.nackExpired st.sendTimeoutUs 0).1.map (negAckRelease st.ops ∘ some) ++
        [.spinUnlockBh, .rcuReadUnlockBh] ∧
      match (st.wnd.inFlight.nackExpired st.sendTimeoutUs 0).2.pds.getLast? with
      | none => st'.earliestUnacked = st.earliestUnacked ∧ st'.retransTimer = st.retransTimer
      | some pd => st'.earliestUnacked = pd.seqno ∧
          st'.retransTimer = hrtimerStart st.retransTimer
            (pd.sentTimestamp + st.sendTimeoutUs) := by
  intro st
  have inv : st.wnd.Inv := Outwnd.sample_inv
  have oldest : ∀ a, st.wnd.occupiedAge a = true → a ≤ st.wnd.age st.earliestUnacked :=
    fun _ occupied => by rw [Outwnd.sample_occupiedAge occupied]; decide
  exact ⟨inv, rfl, by decide, by decide, oldest,
    @retransTasklet_inFlight st inv 0 ⟨1⟩ rfl (by decide) (by decide) oldest⟩

end Fastpass
