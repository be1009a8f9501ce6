import SinglePortRam.Uvm.Refinement

/-!
# What holds for every run of the handshake

In every arbitration mode, and in whatever order the processes are executed.

* `Handshake.Exclusive`, **`Handshake.run_exclusive`** — at most one sequence has a grant.
* `Handshake.awaiting`, **`Handshake.run_accounted`** — no request is lost or served
  twice.
* **`Handshake.run_inOrder`** — where the oldest request is granted, the items are served in the
  order of the calls.
* **`Handshake.run_reports`** — which checks may fail.
* `Handshake.SerialHistory`, **`Handshake.run_serial`** — the array and the answers.
-/

namespace SinglePortRam

open FourState VipState

variable {D A : ℕ} {P : RamParams} {mode : UvmSequencerArbMode} {sched : ℕ → EdgeOrder}

namespace Handshake

/-! ## Mutual exclusion -/

/-- The sequence `i` has a grant, or an item that it has not seen done. -/
def Holds (h : Handshake D A P) (i : ℕ) : Prop :=
  ∃ st, h.seqs[i]? = some st ∧
    match st.phase with
    | .waitForGrant requestId _ => h.sqr.arbCompleted requestId = true
    | .waitForItemDone => True
    | _ => False

/-- At most one sequence has a grant, the item in the FIFO is that of this sequence, and so is the
one the driver works on. -/
structure Exclusive (h : Handshake D A P) : Prop where
  unique : ∀ i j, h.Holds i → h.Holds j → i = j
  fifo : h.sqr.reqFifo.length ≤ reqFifoSize
  holds_of_fifo : ∀ i ∈ h.sqr.reqFifo, h.Holds i
  holds_of_serves : ∀ i d, h.driver = .busy d → d.Serves i → h.Holds i

end Handshake

namespace TurnInv

variable {turn : Turn} {h : Handshake D A P}

/-- A sequence holds the sequencer only in its own turn. -/
lemma turn_of_holds {i : ℕ} (ht : TurnInv turn h.sqr h.seqs h.driver) (hi : h.Holds i) :
    (∃ requestId, turn = .granted i requestId) ∨ turn = .sent i ∨
      (turn = .free ∧ h.sqr.waitForItemSequenceId = seqId i) := by
  obtain ⟨st, hst, hholds⟩ := hi
  have hwaits := (ht.waits i st hst).1
  cases hp : st.phase with
  | waitForGrant requestId n =>
      simp only [hp] at hholds
      exact Or.inl ⟨requestId, ht.turn_of_completed ⟨st, n, hst, hp⟩ hholds⟩
  | waitForItemDone =>
      simp only [SeqTurn, hp] at hwaits
      exact Or.inr (hwaits.imp And.left fun hfree => ⟨hfree.1, hfree.2.1⟩)
  | body => simp [hp] at hholds
  | getResponse => simp [hp] at hholds
  | ended => simp [hp] at hholds
  | exited => simp [hp] at hholds

/-- The sequence whose item is sent holds the sequencer. -/
lemma holds_of_sent {i : ℕ} (ht : TurnInv (.sent i) h.sqr h.seqs h.driver) : h.Holds i := by
  obtain ⟨st, hst, hp⟩ := ht.held
  exact ⟨st, hst, by simp [hp]⟩

/-- The turn belongs to one sequence. -/
lemma exclusive (ht : TurnInv turn h.sqr h.seqs h.driver) : h.Exclusive := by
  refine ⟨fun i j hi hj => ?_, ?_, fun i hi => ?_, fun i d hd hserves => ?_⟩
  · rcases ht.turn_of_holds hi with ⟨requestId, rfl⟩ | rfl | ⟨rfl, hid⟩
    · rcases ht.turn_of_holds hj with ⟨_, hturn⟩ | hturn | ⟨hturn, -⟩
      · exact (Turn.granted.inj hturn).1
      · cases hturn
      · cases hturn
    · rcases ht.turn_of_holds hj with ⟨_, hturn⟩ | hturn | ⟨hturn, -⟩
      · cases hturn
      · exact Turn.sent.inj hturn
      · cases hturn
    · rcases ht.turn_of_holds hj with ⟨_, hturn⟩ | hturn | ⟨-, hid'⟩
      · cases hturn
      · cases hturn
      · exact seqId_injective (hid.symm.trans hid')
  · cases turn with
    | free => rw [ht.vars.1]; exact Nat.zero_le _
    | granted j requestId => rw [ht.vars.1]; exact Nat.zero_le _
    | sent j => rw [ht.vars.1]; exact le_refl _
  · cases hfifo : h.sqr.reqFifo with
    | nil =>
        rw [hfifo] at hi
        cases hi
    | cons j rest =>
        obtain ⟨rfl, rfl⟩ := ht.turn_of_fifo hfifo
        rw [hfifo, List.mem_singleton] at hi
        rw [hi]
        exact ht.holds_of_sent
  · obtain rfl := (hd ▸ ht : TurnInv turn h.sqr h.seqs (.busy d)).turn_of_serves hserves
    exact ht.holds_of_sent

end TurnInv

/-- **Mutual exclusion**, in every run. -/
theorem Handshake.run_exclusive (mode : UvmSequencerArbMode) (sched : ℕ → EdgeOrder)
    (ram : BlkRam P) (actions : List (HandshakeAction D A)) :
    ((initial D A ram).run mode sched actions).Exclusive := by
  obtain ⟨bs, turn, hr⟩ := follows_run mode sched ram actions
  exact hr.turns.exclusive

/-! ## Every request is accounted for -/

namespace Handshake

/-- The sequence `i` waits for its last request to be done. -/
def awaits (h : Handshake D A P) (i : ℕ) (st : UvmSequence D A) : Bool :=
  match st.phase with
  | .waitForGrant _ _ => true
  | .waitForItemDone => h.sqr.waitForItemSequenceId ≠ seqId i
  | _ => false

/-- The ids of the sequences that wait for a request to be done. -/
def awaiting (h : Handshake D A P) : List ℤ :=
  ((List.range h.seqs.length).filter fun i => (h.seqs[i]?).any (h.awaits i)).map seqId

/-- The sequences that wait for an item, by their ids. -/
lemma mem_awaiting {h : Handshake D A P} {i : ℕ} :
    seqId i ∈ h.awaiting ↔ ∃ st, h.seqs[i]? = some st ∧ h.awaits i st = true := by
  rw [awaiting, List.mem_map_of_injective seqId_injective, List.mem_filter, List.mem_range]
  constructor
  · rintro ⟨hlt, hany⟩
    rw [List.getElem?_eq_getElem hlt] at hany
    exact ⟨h.seqs[i], List.getElem?_eq_getElem hlt, hany⟩
  · rintro ⟨st, hi, hst⟩
    exact ⟨(List.getElem?_eq_some_iff.mp hi).1, by rw [hi]; exact hst⟩

lemma nodup_awaiting (h : Handshake D A P) : h.awaiting.Nodup :=
  (List.nodup_range.filter _).map seqId_injective

end Handshake

namespace TurnInv

variable {turn : Turn} {h : Handshake D A P}

/-- The request of a sequence that waits is in the queue, or has the turn. -/
lemma mem_of_awaits (ht : TurnInv turn h.sqr h.seqs h.driver) {i : ℕ} {st : UvmSequence D A}
    (hi : h.seqs[i]? = some st) (hst : h.awaits i st = true) :
    seqId i ∈ turn.underWay ++ waitingIds h.sqr.arbSequenceQ := by
  have hwaits := (ht.waits i st hi).1
  cases hp : st.phase with
  | waitForGrant requestId n =>
      simp only [SeqTurn, hp] at hwaits
      obtain ⟨-, ⟨rfl, -⟩ | hmem⟩ := hwaits
      · exact List.mem_append_left _ (List.mem_singleton_self _)
      · exact List.mem_append_right _ (List.mem_map.mpr ⟨_, hmem, rfl⟩)
  | waitForItemDone =>
      simp only [SeqTurn, hp] at hwaits
      rcases hwaits with ⟨rfl, -⟩ | ⟨-, hid, -⟩
      · exact List.mem_append_left _ (List.mem_singleton_self _)
      · simp [Handshake.awaits, hp, hid] at hst
  | body => simp [Handshake.awaits, hp] at hst
  | getResponse => simp [Handshake.awaits, hp] at hst
  | ended => simp [Handshake.awaits, hp] at hst
  | exited => simp [Handshake.awaits, hp] at hst

/-- A sequence that waits for its grant waits for an item. -/
lemma awaits_of_waitsForGrant {i requestId : ℕ} (hi : WaitsForGrant h.seqs i requestId) :
    seqId i ∈ h.awaiting := by
  obtain ⟨st, n, hst, hp⟩ := hi
  exact Handshake.mem_awaiting.mpr ⟨st, hst, by simp [Handshake.awaits, hp]⟩

/-- A sequence has at most one request under way. -/
lemma nodup_underWay (ht : TurnInv turn h.sqr h.seqs h.driver) :
    (turn.underWay ++ waitingIds h.sqr.arbSequenceQ).Nodup := by
  have hqueue : (waitingIds h.sqr.arbSequenceQ).Nodup := by
    have hmap := ht.nodup.map seqId_injective
    rwa [List.map_map] at hmap
  have hnot {i : ℕ} (hi : ∀ e ∈ h.sqr.arbSequenceQ, e.sequencePtr ≠ i) :
      seqId i ∉ waitingIds h.sqr.arbSequenceQ := by
    intro hmem
    obtain ⟨e, he, heq⟩ := List.mem_map.mp hmem
    exact hi e he (seqId_injective heq)
  cases turn with
  | free => exact hqueue
  | granted i requestId =>
      refine List.nodup_cons.mpr ⟨hnot fun e he heq => ?_, hqueue⟩
      exact (ht.queue e he).2 requestId (by rw [heq])
  | sent i =>
      refine List.nodup_cons.mpr ⟨hnot ?_, hqueue⟩
      rintro e he rfl
      obtain ⟨st, hst, hp⟩ := ht.held
      exact not_waitsForGrant hst (fun n hn => by cases hp.symm.trans hn) (ht.queue e he).1

/-- The requests that are not done are those of the sequences that wait. -/
lemma perm_awaiting (ht : TurnInv turn h.sqr h.seqs h.driver) :
    (turn.underWay ++ waitingIds h.sqr.arbSequenceQ).Perm h.awaiting := by
  rw [List.perm_ext_iff_of_nodup ht.nodup_underWay h.nodup_awaiting]
  intro x
  constructor
  · intro hx
    rcases List.mem_append.mp hx with hx | hx
    · cases turn with
      | free => cases hx
      | granted i requestId =>
          obtain rfl := List.mem_singleton.mp hx
          exact awaits_of_waitsForGrant ht.held
      | sent i =>
          obtain rfl := List.mem_singleton.mp hx
          obtain ⟨st, hst, hp⟩ := ht.held
          have hid : h.sqr.waitForItemSequenceId = -1 := ht.vars.2.2.2.2.1
          have hne : (-1 : ℤ) ≠ seqId i := by
            rw [seqId]
            omega
          exact Handshake.mem_awaiting.mpr ⟨st, hst, by simp [Handshake.awaits, hp, hid, hne]⟩
    · obtain ⟨e, he, rfl⟩ := List.mem_map.mp hx
      exact awaits_of_waitsForGrant (ht.queue e he).1
  · intro hx
    obtain ⟨i, -, rfl⟩ := List.mem_map.mp hx
    obtain ⟨st, hst, hawaits⟩ := Handshake.mem_awaiting.mp hx
    exact ht.mem_of_awaits hst hawaits

end TurnInv

namespace Handshake

/-- **No request is lost or served twice**: after every run, the calls of `wait_for_grant` are those
for the items that have been served and those the sequences still wait for. -/
theorem run_accounted (mode : UvmSequencerArbMode) (sched : ℕ → EdgeOrder) (ram : BlkRam P)
    (actions : List (HandshakeAction D A)) :
    ((initial D A ram).run mode sched actions).requested.Perm
      (((initial D A ram).run mode sched actions).tb.vip.served.map SequenceItem.sequenceId
        ++ ((initial D A ram).run mode sched actions).awaiting) := by
  obtain ⟨bs, turn, hr⟩ := follows_run mode sched ram actions
  have hrequests := hr.history.requests
  rw [hr.history.grants, List.append_assoc] at hrequests
  exact hrequests.trans (hr.turns.perm_awaiting.append_left _)

/-- **First come, first served**: in the mode of the library's default, and in the user mode that it
comes with, the items are served in the order of the calls of `wait_for_grant`. -/
theorem run_inOrder (mode : UvmSequencerArbMode) (sched : ℕ → EdgeOrder) (ram : BlkRam P)
    (actions : List (HandshakeAction D A)) (hmode : mode.InOrder) :
    ((initial D A ram).run mode sched actions).tb.vip.served.map SequenceItem.sequenceId
      <+: ((initial D A ram).run mode sched actions).requested := by
  obtain ⟨bs, turn, hr⟩ := follows_run mode sched ram actions
  rw [hr.history.inOrder hmode, hr.history.grants, List.append_assoc]
  exact List.prefix_append _ _

/-- Each process is executed once; the second sequence asks for its item first. -/
def handshakeRound : List (HandshakeAction 2 1) :=
  [.proceed 1 ⟨{ transLength := 1, transAddr := [1], transDatai := [2] }, rfl⟩,
    .proceed 0 ⟨{ transLength := 1, transAddr := [0], transDatai := [1] }, rfl⟩,
    .waitForArbitrationCompleted 0, .waitForArbitrationCompleted 1, .waitForItemDone 0,
    .waitForItemDone 1, .getResponse 0, .getResponse 1, .exit 0, .exit 1, .execute, .nba 0,
    .posedge]

/-- Two random sequences of one item each, until both items are served. -/
def twoSequences : List (HandshakeAction 2 1) :=
  [.start (.random 1) (-1), .start (.random 1) (-1)]
    ++ (List.replicate 21 handshakeRound).flatten

/-- Both items are served, that of the second sequence first. -/
theorem run_inOrder_fifo :
    let h := (initial 2 1 ⟨LogicVec.ofBits 0#2, fun _ => LogicVec.ofBits 0#2⟩ :
      Handshake 2 1 (fittingParams 2 1)).run .fifo ramAlwaysFirst twoSequences
    h.tb.vip.served.map SequenceItem.sequenceId = [2, 1] ∧
      h.tb.vip.served.map SequenceItem.sequenceId <+: h.requested :=
  ⟨by decide +kernel, run_inOrder .fifo ramAlwaysFirst _ _ trivial⟩

/-- **The only checks that fail** are those of a priority: one below `-1` given to `start`, or, in a
mode that compares them, one that is `0`, or a sum that an `int` does not hold. -/
theorem run_reports (mode : UvmSequencerArbMode) (sched : ℕ → EdgeOrder) (ram : BlkRam P)
    (actions : List (HandshakeAction D A)) :
    Checks mode (((initial D A ram).run mode sched actions).seqs.map UvmSequence.priority)
      ((initial D A ram).run mode sched actions).reports := by
  obtain ⟨bs, turn, hr⟩ := follows_run mode sched ram actions
  exact hr.checks

/-! ## The array and the answers -/

/-- The items served are a serial history of the array, of the answers, and of what the sequences
that are over have got. -/
structure SerialHistory (m : RamWords P) (h : Handshake D A P) : Prop where
  answers : Serial m h.tb.vip.served
  array : h.driver.abs = .getNextItem → h.tb.mem = serialMem m h.tb.vip.served
  finished : ∀ i st, h.seqs[i]? = some st → st.phase = .ended ∨ st.phase = .exited →
    Finished m h.tb.vip.served i st.kind

/-- **The handshake is serialised** as `Sequencer` is. -/
theorem run_serial (mode : UvmSequencerArbMode) (ram : BlkRam P)
    (actions : List (HandshakeAction D A)) :
    SerialHistory ram.mem ((initial D A ram).run mode ramAlwaysFirst actions) := by
  obtain ⟨bs, turn, hr⟩ := follows_run mode ramAlwaysFirst ram actions
  have hserial := (serialInv_run ram bs).serialHistory
  refine ⟨?_, ?_, ?_⟩
  · rw [← hr.tb]
    exact hserial.answers
  · intro hd
    rw [← hr.tb]
    exact hserial.array (hr.driver.trans hd)
  · intro i st hi hover
    obtain ⟨st', hi', hkind, hphase⟩ := hr.get hi
    rw [← hr.tb, ← hkind]
    refine hserial.finished i st' hi' ?_
    rcases hover with hp | hp
    · simp only [hp] at hphase
      exact Or.inl hphase
    · simp only [hp] at hphase
      exact Or.inr hphase

end Handshake

end SinglePortRam
