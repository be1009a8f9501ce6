import SinglePortRam.Core.Transition
import SinglePortRam.Env.DriverRun
import SinglePortRam.Vip.Sequences

/-!
# Concurrent sequences on one sequencer

Any number of random, read and write sequences share the driver.  Each goes through the phases of
its own body, the driver through the statements of the master loop, and an `Action` lets one of them
do its next step.  A run is a list of actions, so the sequencer may grant the items in any order,
and code that takes no time may be interleaved in any way.

Time advances only when no such code is left to execute: not while the driver is between two waits,
and not while a sequence has a response to collect.

The objects a handle refers to are kept where they are in use.  While an item is in flight its
object is the `reqItem` of the driver; at `item_done` it is that of the sequence again.  The
sequence numbers `seqId` are those of the sequencer, which counts from one.
-/

namespace SinglePortRam

open FourState Clocked Proc VipState

variable {D A : ℕ} {P : RamParams}

/-! ## Sequences and the driver -/

/-- A started sequence: what is left of the loop of a random sequence, or the queues of the
object. -/
inductive SequenceKind where
  | random (left : ℕ)
  | read (q : ReadSequence)
  | write (q : WriteSequence)

/-- The circumstances in which the driver took an item: the item, the edges so far and the array.
They are recorded for the statements about it only. -/
structure Taken (D A : ℕ) (P : RamParams) where
  item : SequenceItem D A
  edges : ℕ
  mem : RamWords P

/-- Where a sequence is in its body. -/
inductive SequencePhase (D A : ℕ) (P : RamParams) where
  /-- Before its next request, or its end. -/
  | body
  /-- The request waits for the grant of the sequencer. -/
  | offered
  /-- The driver has the request. -/
  | inFlight (t : Taken D A P)
  /-- In `get_response`. -/
  | collecting (t : Taken D A P)
  /-- The body is over. -/
  | ended
  /-- The sequence is unregistered. -/
  | exited

/-- A sequence, where it is in its body, and its item. -/
structure SequenceState (D A : ℕ) (P : RamParams) where
  kind : SequenceKind
  phase : SequencePhase D A P
  /-- The object `req` refers to. -/
  req : SequenceItem D A

/-- Where the driver is in the master loop, and with whose item. -/
inductive DriverPhase (D A : ℕ) where
  /-- Blocked in `get_next_item`. -/
  | getNextItem
  /-- In `send_to_if`, about to execute `p`. -/
  | sending (i : ℕ) (p : Proc (VipState D A))
  /-- In `send_to_if`, waiting for an edge, with `p` to execute after it. -/
  | waiting (i : ℕ) (p : Proc (VipState D A))
  | itemDone (i : ℕ)
  | setIdInfo (i : ℕ)
  | putResponse (i : ℕ)

/-- The testbench with a sequencer full of sequences. -/
structure Sequencer (D A : ℕ) (P : RamParams) where
  tb : Testbench D A P
  seqs : List (SequenceState D A P)
  driver : DriverPhase D A

/-- The id under which the sequencer registers the sequence with index `i`. -/
def seqId (i : ℕ) : ℤ := i + 1

/-- Different sequences have different ids. -/
lemma seqId_injective : Function.Injective seqId := fun i j h => by
  simpa [seqId] using h

/-! ## The bodies -/

namespace SequenceKind

/-- Each request is followed by a `get_response`. -/
def collects : SequenceKind → Bool
  | .random _ => true
  | .read _ => true
  | .write _ => false

/-- The next request of the body, if there is one; `r` is what `randomize` makes. -/
def request (r : RandomItem D A) : SequenceKind → Option (SequenceItem D A)
  | .random 0 => none
  | .random (_ + 1) => some r.request
  | .read q => some (q.request D A)
  | .write q =>
      match q.body D A with
      | .error _ => none
      | .ok it => some it

end SequenceKind

namespace SequenceState

/-- The body goes on to its next request or to its end. -/
def proceed (i : ℕ) (r : RandomItem D A) (st : SequenceState D A P) : SequenceState D A P :=
  match st.kind.request r with
  | none => { st with phase := .ended }
  | some it => { st with phase := .offered, req := it.sentBy (seqId i) }

/-- `item_done` lets the sequence go on, with the object the driver has worked on: to
`get_response`, or to the end of a body that does not ask for the response. -/
def itemDone (object : SequenceItem D A) (st : SequenceState D A P) : SequenceState D A P :=
  match st.phase with
  | .inFlight t =>
      { st with req := object, phase := if st.kind.collects then .collecting t else .ended }
  | _ => st

/-- `get_response(rsp)` returns, and the body goes on with the response. -/
def collect (rsp : SequenceItem D A) (st : SequenceState D A P) : SequenceState D A P :=
  match st.kind with
  | .random left => { st with kind := .random (left - 1), phase := .body }
  | .read q => { st with kind := .read (q.collect rsp), phase := .ended }
  | .write q => { st with kind := .write q, phase := .ended }

end SequenceState

/-! ## The steps -/

namespace Sequencer

/-- A sequence is registered with the sequencer and begins its body. -/
def start (kind : SequenceKind) (s : Sequencer D A P) : Sequencer D A P :=
  { s with
    tb := s.tb.assign (startSequence (seqId s.seqs.length))
    seqs := s.seqs ++ [⟨kind, .body, {}⟩] }

/-- The sequence `i` goes on with its body. -/
def proceed (i : ℕ) (r : RandomItem D A) (s : Sequencer D A P) : Option (Sequencer D A P) :=
  match s.seqs[i]? with
  | some ⟨kind, .body, req⟩ => some
      { s with seqs := s.seqs.set i (.proceed i r ⟨kind, .body, req⟩) }
  | _ => none

/-- `get_next_item` returns the request of the sequence `i`. -/
def grant (i : ℕ) (s : Sequencer D A P) : Option (Sequencer D A P) :=
  match s.driver, s.seqs[i]? with
  | .getNextItem, some ⟨kind, .offered, req⟩ => some
      { tb := s.tb.assign (getNextItem req)
        seqs := s.seqs.set i ⟨kind, .inFlight ⟨req, s.tb.edges, s.tb.mem⟩, req⟩
        driver := .sending i (sendToIf req) }
  | _, _ => none

/-- The driver executes its next statement. -/
def execute (s : Sequencer D A P) : Option (Sequencer D A P) :=
  match s.driver with
  | .getNextItem => none
  | .sending i (.step f p) => some { s with tb := s.tb.assign f, driver := .sending i p }
  | .sending i (.wait p) => some { s with driver := .waiting i p }
  | .sending i .halt => some { s with driver := .itemDone i }
  | .waiting _ _ => none
  | .itemDone i =>
      match s.seqs[i]? with
      | none => none
      | some st => some
          { tb := s.tb.assign itemDone
            seqs := s.seqs.set i (st.itemDone s.tb.vip.reqItem)
            driver := .setIdInfo i }
  | .setIdInfo i => some { s with tb := s.tb.assign setIdInfo, driver := .putResponse i }
  | .putResponse _ => some { s with tb := s.tb.assign putResponse, driver := .getNextItem }

/-- `get_response` returns in the sequence `i`. -/
def getResponse (i : ℕ) (s : Sequencer D A P) : Option (Sequencer D A P) :=
  match s.seqs[i]?, s.tb.vip.regSequences (seqId i) with
  | some ⟨kind, .collecting t, req⟩, some (h :: rest) => some
      { s with
        tb := s.tb.assign (popResponse (seqId i) rest)
        seqs := s.seqs.set i (.collect (s.tb.vip.deref h) ⟨kind, .collecting t, req⟩) }
  | _, _ => none

/-- The sequence `i` leaves `start`, and its response queue is deleted. -/
def exit (i : ℕ) (s : Sequencer D A P) : Option (Sequencer D A P) :=
  match s.seqs[i]? with
  | some ⟨kind, .ended, req⟩ => some
      { s with
        tb := s.tb.assign (exitSequence (seqId i))
        seqs := s.seqs.set i ⟨kind, .exited, req⟩ }
  | _ => none

/-- There is code left to execute in this time slot. -/
def urgent (s : Sequencer D A P) : Bool :=
  match s.driver with
  | .getNextItem => (List.range s.seqs.length).any fun i => (s.getResponse i).isSome
  | .waiting _ _ => (List.range s.seqs.length).any fun i => (s.getResponse i).isSome
  | _ => true

/-- The next edge, when no code is left to execute in this time slot. -/
def posedge (sched : ℕ → EdgeOrder) (s : Sequencer D A P) : Option (Sequencer D A P) :=
  if s.urgent then none
  else match s.driver with
    | .getNextItem => some { s with tb := s.tb.tick sched }
    | .waiting i p => some { s with tb := s.tb.tick sched, driver := .sending i p }
    | _ => none

end Sequencer

/-- What may happen next: a step of a sequence or of the driver, or an edge. -/
inductive Action (D A : ℕ) where
  | start (kind : SequenceKind)
  | proceed (i : ℕ) (r : RandomItem D A)
  | grant (i : ℕ)
  | execute
  | getResponse (i : ℕ)
  | exit (i : ℕ)
  | posedge

namespace Sequencer

/-- One action; there is no result if it is not possible. -/
def step (sched : ℕ → EdgeOrder) (s : Sequencer D A P) : Action D A → Option (Sequencer D A P)
  | .start kind => some (s.start kind)
  | .proceed i r => s.proceed i r
  | .grant i => s.grant i
  | .execute => s.execute
  | .getResponse i => s.getResponse i
  | .exit i => s.exit i
  | .posedge => s.posedge sched

/-- A run; actions that are not possible when their turn comes are left out. -/
def run (sched : ℕ → EdgeOrder) (s : Sequencer D A P) (actions : List (Action D A)) :
    Sequencer D A P :=
  Transition.run (step sched) s actions

/-- Before any sequence is started. -/
def initial (D A : ℕ) (ram : BlkRam P) : Sequencer D A P :=
  ⟨Testbench.init D A ram, [], .getNextItem⟩

end Sequencer

end SinglePortRam
