import SinglePortRam.Core.Transition
import SinglePortRam.Env.Sequencer
import SinglePortRam.Uvm.Arbitration

/-!
# The handshake between the sequences, the sequencer and the driver

The variables and the calls behind `start_item`, `finish_item`, `get_next_item`, `item_done` and
`put_response`: `uvm_sequence_base.svh`, `uvm_sequencer_base.svh`, `uvm_sequencer_param_base.svh`
and `uvm_sequencer.svh`.  The processes tell each other what they have done by changing variables
that others wait for, so this is where a wake-up could be lost, a request granted twice, or a check
of the library fail.

A method is executed up to its next wait without interruption, a wait is over when the process is
executed at a time at which its condition holds, and `wait_for_sequences` ends in the NBA region,
which is reached when no process has anything to execute.  After a fatal report nothing is executed.
The `int` counters are integers, which is the same for fewer than `2 ^ 30` requests.

* `SequencerVars`, `UvmSequence`, `UvmDriver`, `Handshake` — the state.
* `Handshake.step` — one process is executed up to its next wait, or the simulator goes on to the
  next region or the next edge.
-/

namespace SinglePortRam

open FourState Clocked Proc VipState

variable {D A : ℕ} {P : RamParams}

/-! ## The state -/

/-- The variables of the sequencer. -/
structure SequencerVars where
  arbSequenceQ : List SequenceRequest := []
  /-- The keys of `arb_completed`. -/
  arbCompleted : ℕ → Bool := fun _ => false
  lockArbSize : ℤ := -1
  arbSize : ℤ := 0
  waitForItemSequenceId : ℤ := 0
  /-- The handles in `m_req_fifo`, as the indices of the sequences whose `req` they are. -/
  reqFifo : List ℕ := []
  sequenceItemRequested : Bool := false
  getNextItemCalled : Bool := false
  gRequestId : ℕ := 0

/-- The capacity of `m_req_fifo`. -/
def reqFifoSize : ℕ := 1

namespace SequencerVars

/-- `m_update_lists`, which tells the waiting processes that something has changed. -/
def updateLists (v : SequencerVars) : SequencerVars :=
  { v with lockArbSize := v.lockArbSize + 1 }

/-- `m_set_arbitration_completed`. -/
def setArbitrationCompleted (requestId : ℕ) (v : SequencerVars) : SequencerVars :=
  { v with arbCompleted := Function.update v.arbCompleted requestId true }

/-- `wait_for_grant` of the sequence `i`, up to its wait. -/
def waitForGrant (i : ℕ) (itemPriority : ℤ) (v : SequencerVars) : SequencerVars :=
  updateLists { v with
    arbSequenceQ := v.arbSequenceQ ++ [⟨i, v.gRequestId, itemPriority⟩]
    gRequestId := v.gRequestId + 1 }

/-- The rest of `m_select_sequence`, for the index it has selected. -/
def issueGrant (selectedSequence : ℕ) (v : SequencerVars) : SequencerVars :=
  updateLists { setArbitrationCompleted (requestAt v.arbSequenceQ selectedSequence).requestId v with
    arbSequenceQ := v.arbSequenceQ.eraseIdx selectedSequence }

/-- `get_next_item` goes on to `m_req_fifo.peek`. -/
def itemRequested (v : SequencerVars) : SequencerVars :=
  { v with sequenceItemRequested := true, getNextItemCalled := true }

end SequencerVars

/-- Where a sequence is in its body. -/
inductive UvmSequencePhase where
  /-- Before its next `start_item`, or its end. -/
  | body
  /-- In `m_wait_for_arbitration_completed`; `lockArbSize` is what it was at the last check, if
  there has been one. -/
  | waitForGrant (requestId : ℕ) (lockArbSize : Option ℤ)
  | waitForItemDone
  | getResponse
  /-- The body is over. -/
  | ended
  /-- The sequence is unregistered. -/
  | exited

/-- A started sequence, with the variables that it inherits. -/
structure UvmSequence (D A : ℕ) where
  kind : SequenceKind
  phase : UvmSequencePhase
  /-- The object `req` refers to. -/
  req : SequenceItem D A
  priority : ℤ
  waitForGrantSemaphore : ℕ

/-- Where the driver is. -/
inductive UvmDriver (D A : ℕ) where
  /-- Before `get_next_item`. -/
  | getNextItem
  | waitForSequences
  | waitForAvailableSequence
  /-- In `m_req_fifo.peek`. -/
  | peek
  /-- After `get_next_item`. -/
  | busy (d : DriverPhase D A)

/-- The testbench, the sequencer, its sequences and the driver. -/
structure Handshake (D A : ℕ) (P : RamParams) where
  tb : Testbench D A P
  sqr : SequencerVars
  seqs : List (UvmSequence D A)
  driver : UvmDriver D A
  reports : List UvmReport
  /-- The sequences that have asked for a grant, by their ids, oldest first. -/
  requested : List ℤ
  /-- The sequences that have been granted a request. -/
  granted : List ℤ

namespace Handshake

/-- A report is issued. -/
def report (r : UvmReport) (h : Handshake D A P) : Handshake D A P :=
  { h with reports := h.reports ++ [r] }

/-! ## The sequences -/

/-- `start`, for a sequence without a parent. -/
def start (kind : SequenceKind) (thisPriority : ℤ) (h : Handshake D A P) : Handshake D A P :=
  if thisPriority < -1 then h.report (.startPriority h.seqs.length thisPriority)
  else { h with
    tb := h.tb.assign (startSequence (seqId h.seqs.length))
    seqs := h.seqs ++ [⟨kind, .body, {}, if thisPriority < 0 then 100 else thisPriority, 0⟩] }

/-- The sequence `i` goes on with its body, to `start_item` or to its end. -/
def proceed (i : ℕ) (r : RandomItem D A) (h : Handshake D A P) : Option (Handshake D A P) :=
  match h.seqs[i]? with
  | some ⟨kind, .body, req, priority, semaphore⟩ =>
      match kind.request r with
      | none => some { h with seqs := h.seqs.set i ⟨kind, .ended, req, priority, semaphore⟩ }
      | some it => some { h with
          sqr := h.sqr.waitForGrant i priority
          seqs := h.seqs.set i
            ⟨kind, .waitForGrant h.sqr.gRequestId none, it, priority, semaphore⟩
          requested := h.requested ++ [seqId i] }
  | _ => none

/-- `send_request`, and `wait_for_item_done` up to its wait. -/
def sendRequest (i : ℕ) (st : UvmSequence D A) (h : Handshake D A P) : Handshake D A P :=
  if st.waitForGrantSemaphore < 1 then h.report .sendWithoutGrant
  else if h.sqr.reqFifo.length ≥ reqFifoSize then h.report .concurrentGetNextItem
  else { h with
    sqr := { h.sqr with reqFifo := h.sqr.reqFifo ++ [i], waitForItemSequenceId := -1 }
    seqs := h.seqs.set i { st with
      phase := .waitForItemDone
      req := st.req.sentBy (seqId i)
      waitForGrantSemaphore := st.waitForGrantSemaphore - 1 } }

/-- The item of a sequence that has been granted its request is sent when the FIFO is empty. -/
lemma sendRequest_eq {h : Handshake D A P} (hfifo : h.sqr.reqFifo = []) (completed : ℕ → Bool)
    (i : ℕ) (kind : SequenceKind) (phase : UvmSequencePhase) (req : SequenceItem D A)
    (priority : ℤ) (semaphore : ℕ) :
    { h with sqr := { h.sqr with arbCompleted := completed } }.sendRequest i
        ⟨kind, phase, req, priority, semaphore + 1⟩
      = { h with
        sqr := { h.sqr with
          arbCompleted := completed
          reqFifo := h.sqr.reqFifo ++ [i]
          waitForItemSequenceId := -1 }
        seqs := h.seqs.set i
          ⟨kind, .waitForItemDone, req.sentBy (seqId i), priority, semaphore⟩ } := by
  simp [sendRequest, hfifo, reqFifoSize]

/-- The loop of `m_wait_for_arbitration_completed`, in the sequence `i`: either the request has been
granted, and the sequence goes on to `finish_item`, or it waits again. -/
def waitForArbitrationCompleted (i : ℕ) (h : Handshake D A P) : Option (Handshake D A P) :=
  match h.seqs[i]? with
  | some ⟨kind, .waitForGrant requestId lockArbSize, req, priority, semaphore⟩ =>
      if lockArbSize = some h.sqr.lockArbSize then none
      else if h.sqr.arbCompleted requestId then
        some ({ h with sqr := { h.sqr with
            arbCompleted := Function.update h.sqr.arbCompleted requestId false } }.sendRequest i
          ⟨kind, .waitForGrant requestId lockArbSize, req, priority, semaphore + 1⟩)
      else some { h with
          seqs := h.seqs.set i
            ⟨kind, .waitForGrant requestId (some h.sqr.lockArbSize), req, priority, semaphore⟩ }
  | _ => none

/-- `wait_for_item_done` returns in the sequence `i`, which goes on to `get_response` or to the end
of a body that does not ask for the response. -/
def waitForItemDone (i : ℕ) (h : Handshake D A P) : Option (Handshake D A P) :=
  match h.seqs[i]? with
  | some ⟨kind, .waitForItemDone, req, priority, semaphore⟩ =>
      if h.sqr.waitForItemSequenceId = seqId i then some { h with
          seqs := h.seqs.set i
            ⟨kind, if kind.collects then .getResponse else .ended, req, priority, semaphore⟩ }
      else none
  | _ => none

/-- `get_response(rsp)` returns, and the body goes on with the response. -/
def collect (rsp : SequenceItem D A) (st : UvmSequence D A) : UvmSequence D A :=
  match st.kind with
  | .random left => { st with kind := .random (left - 1), phase := .body }
  | .read q => { st with kind := .read (q.collect rsp), phase := .ended }
  | .write q => { st with kind := .write q, phase := .ended }

/-- `get_response` returns in the sequence `i`. -/
def getResponse (i : ℕ) (h : Handshake D A P) : Option (Handshake D A P) :=
  match h.seqs[i]?, h.tb.vip.regSequences (seqId i) with
  | some ⟨kind, .getResponse, req, priority, semaphore⟩, some (r :: rest) => some
      { h with
        tb := h.tb.assign (popResponse (seqId i) rest)
        seqs := h.seqs.set i
          (collect (h.tb.vip.deref r) ⟨kind, .getResponse, req, priority, semaphore⟩) }
  | _, _ => none

/-- The sequence `i` leaves `start`, and the sequencer forgets it. -/
def exit (i : ℕ) (h : Handshake D A P) : Option (Handshake D A P) :=
  match h.seqs[i]? with
  | some ⟨kind, .ended, req, priority, semaphore⟩ => some
      { h with
        tb := h.tb.assign (exitSequence (seqId i))
        seqs := h.seqs.set i ⟨kind, .exited, req, priority, semaphore⟩ }
  | _ => none

/-! ## The driver -/

/-- `get_next_item`, up to its first wait. -/
def getNextItem (h : Handshake D A P) : Handshake D A P :=
  let h' := if h.sqr.getNextItemCalled then h.report .getNextItemTwice else h
  if h.sqr.sequenceItemRequested then
    { h' with sqr := h.sqr.itemRequested, driver := .peek }
  else { h' with driver := .waitForSequences }

/-- `m_req_fifo.peek` returns, and with it `get_next_item`. -/
def peek (h : Handshake D A P) : Option (Handshake D A P) :=
  match h.sqr.reqFifo with
  | [] => none
  | i :: _ =>
      match h.seqs[i]? with
      | none => none
      | some st => some
          { h with
            tb := h.tb.assign (VipState.getNextItem st.req)
            driver := .busy (.sending i (sendToIf st.req)) }

/-- `item_done`, for the item of the sequence `i`.  The object of the item is that of the sequence
again. -/
def itemDone (i : ℕ) (h : Handshake D A P) : Handshake D A P :=
  let v := { h.sqr with sequenceItemRequested := false, getNextItemCalled := false }
  let h' := { h with
    tb := h.tb.assign VipState.itemDone
    seqs := h.seqs.modify i fun st => { st with req := h.tb.vip.reqItem }
    driver := .busy (.setIdInfo i) }
  match h.sqr.reqFifo with
  | [] => { h' with sqr := v }.report .itemDoneWithoutRequest
  | j :: rest => { h' with sqr := { v with
      reqFifo := rest
      waitForItemSequenceId := ((h.seqs[j]?).map fun st => st.req.sequenceId).getD (-1) } }

/-- The reports of `put_response`.  For a sequence that has exited there is none. -/
def responseReports (s : VipState D A) : List UvmReport :=
  if s.rspItem.sequenceId = -1 then [.nullSequenceId]
  else match s.regSequences s.rspItem.sequenceId with
    | none => []
    | some q => if q.length < responseQueueDepth then [] else [.responseOverflow]

/-- The driver is executed. -/
def execute (h : Handshake D A P) : Option (Handshake D A P) :=
  match h.driver with
  | .getNextItem => some h.getNextItem
  | .waitForSequences => none
  | .waitForAvailableSequence =>
      if h.sqr.arbSize ≠ h.sqr.lockArbSize then some { h with driver := .waitForSequences }
      else none
  | .peek => h.peek
  | .busy .getNextItem => none
  | .busy (.sending i (.step f p)) => some
      { h with tb := h.tb.assign f, driver := .busy (.sending i p) }
  | .busy (.sending i (.wait p)) => some { h with driver := .busy (.waiting i p) }
  | .busy (.sending i .halt) => some { h with driver := .busy (.itemDone i) }
  | .busy (.waiting _ _) => none
  | .busy (.itemDone i) => some (h.itemDone i)
  | .busy (.setIdInfo i) => some
      { h with tb := h.tb.assign VipState.setIdInfo, driver := .busy (.putResponse i) }
  | .busy (.putResponse _) => some
      { h with
        tb := h.tb.assign putResponse
        driver := .getNextItem
        reports := h.reports ++ responseReports h.tb.vip }

/-! ## The simulator -/

/-- The sequence `i` has something to execute. -/
def runnableSequence (h : Handshake D A P) (i : ℕ) (st : UvmSequence D A) : Bool :=
  match st.phase with
  | .body => true
  | .waitForGrant _ lockArbSize => lockArbSize ≠ some h.sqr.lockArbSize
  | .waitForItemDone => h.sqr.waitForItemSequenceId = seqId i
  | .getResponse =>
      match h.tb.vip.regSequences (seqId i) with
      | some (_ :: _) => true
      | _ => false
  | .ended => true
  | .exited => false

/-- The driver has something to execute. -/
def runnableDriver (h : Handshake D A P) : Bool :=
  match h.driver with
  | .waitForSequences => false
  | .waitForAvailableSequence => h.sqr.arbSize ≠ h.sqr.lockArbSize
  | .peek => h.sqr.reqFifo ≠ []
  | .busy (.waiting _ _) => false
  | _ => true

/-- There is code left to execute before the NBA region. -/
def runnable (h : Handshake D A P) : Bool :=
  h.runnableDriver
    || (List.range h.seqs.length).any fun i => (h.seqs[i]?).any (h.runnableSequence i)

/-- When nothing is left to execute, no sequence has anything to execute. -/
lemma not_runnableSequence {h : Handshake D A P} (hidle : h.runnable ≠ true) {i : ℕ}
    {st : UvmSequence D A} (hi : h.seqs[i]? = some st) : h.runnableSequence i st ≠ true := by
  intro hst
  have hany : ((List.range h.seqs.length).any fun i => (h.seqs[i]?).any (h.runnableSequence i))
      = true := by
    rw [List.any_eq_true]
    refine ⟨i, List.mem_range.mpr (List.getElem?_eq_some_iff.mp hi).1, ?_⟩
    simpa only [hi, Option.any_some] using hst
  exact hidle (by rw [runnable, hany, Bool.or_true])

/-- `get_priority` of the sequence `i`. -/
def getPriority (h : Handshake D A P) (i : ℕ) : ℤ :=
  ((h.seqs[i]?).map UvmSequence.priority).getD (-1)

/-- The NBA region: `wait_for_sequences` returns, and the driver goes on with `m_select_sequence`,
to `m_req_fifo.peek` or to the wait of `m_wait_for_available_sequence`. -/
def nba (mode : UvmSequencerArbMode) (draw : ℕ) (h : Handshake D A P) :
    Option (Handshake D A P) :=
  if h.runnable then none
  else match h.driver with
    | .waitForSequences =>
        match chooseNextRequest mode (fun _ => true) h.getPriority draw h.sqr.arbSequenceQ with
        | .error r => some (h.report r)
        | .ok none => some { h with
            sqr := { h.sqr with arbSize := h.sqr.lockArbSize }
            driver := .waitForAvailableSequence }
        | .ok (some selectedSequence) => some { h with
            sqr := (h.sqr.issueGrant selectedSequence).itemRequested
            driver := .peek
            granted := h.granted
              ++ [seqId (requestAt h.sqr.arbSequenceQ selectedSequence).sequencePtr] }
    | _ => none

/-- The next edge, when no process has anything left to execute in this time slot. -/
def posedge (sched : ℕ → EdgeOrder) (h : Handshake D A P) : Option (Handshake D A P) :=
  if h.runnable then none
  else match h.driver with
    | .waitForSequences => none
    | .busy (.waiting i p) => some
        { h with tb := h.tb.tick sched, driver := .busy (.sending i p) }
    | _ => some { h with tb := h.tb.tick sched }

end Handshake

/-- What may happen next: a process is executed, or the simulator goes on. -/
inductive HandshakeAction (D A : ℕ) where
  | start (kind : SequenceKind) (thisPriority : ℤ)
  | proceed (i : ℕ) (r : RandomItem D A)
  | waitForArbitrationCompleted (i : ℕ)
  | waitForItemDone (i : ℕ)
  | getResponse (i : ℕ)
  | exit (i : ℕ)
  | execute
  | nba (draw : ℕ)
  | posedge

namespace Handshake

/-- A fatal report has ended the simulation. -/
def finished (h : Handshake D A P) : Bool := h.reports.any fun r => r.severity = .fatal

/-- One action; nothing happens after a fatal report. -/
def step (mode : UvmSequencerArbMode) (sched : ℕ → EdgeOrder) (h : Handshake D A P)
    (a : HandshakeAction D A) : Option (Handshake D A P) :=
  if h.finished then none
  else match a with
    | .start kind thisPriority => some (h.start kind thisPriority)
    | .proceed i r => h.proceed i r
    | .waitForArbitrationCompleted i => h.waitForArbitrationCompleted i
    | .waitForItemDone i => h.waitForItemDone i
    | .getResponse i => h.getResponse i
    | .exit i => h.exit i
    | .execute => h.execute
    | .nba draw => h.nba mode draw
    | .posedge => h.posedge sched

/-- A run, in which the order of the processes and the random numbers are chosen by the actions. -/
def run (mode : UvmSequencerArbMode) (sched : ℕ → EdgeOrder) (h : Handshake D A P)
    (actions : List (HandshakeAction D A)) : Handshake D A P :=
  Transition.run (step mode sched) h actions

/-- Before any sequence is started. -/
def initial (D A : ℕ) (ram : BlkRam P) : Handshake D A P where
  tb := Testbench.init D A ram
  sqr := {}
  seqs := []
  driver := .getNextItem
  reports := []
  requested := []
  granted := []

end Handshake

end SinglePortRam
