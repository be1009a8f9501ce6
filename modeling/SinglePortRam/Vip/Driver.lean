import SinglePortRam.Core.ClockedProcess
import SinglePortRam.Vip.SequenceItem

/-!
# The master driver

`block_ram_driver.sv`: `send_to_if` and the master loop of `run_phase`.  The driver is a process
over `VipState`, which holds the interface, the two item objects of the driver, and the part of the
sequencer the driver talks to.

* `sendToIf` — one item on the bus, written as in the source: a `WRITE` is one loop, a `READ` forks
  an address loop and a capture loop.  The `int` counters are natural numbers: they are compared
  with a length that has no sign, so this is the same for a `DATA_WIDTH` of up to 32 bits.
* `driverIteration`, `masterLoop` — `get_next_item`, `send_to_if`, `item_done`, `set_id_info`,
  `put_response`, for the items the sequencer hands out one after the other.
-/

namespace SinglePortRam

open FourState Clocked Proc

variable {D A : ℕ}

/-- A handle to a response.  Every response the driver hands out is its own `rsp_item`. -/
inductive RspHandle where
  | rspItem
  deriving DecidableEq

/-- `response_queue_depth`, as it is by default. -/
def responseQueueDepth : ℕ := 8

/-- The variables the processes of the master side work on. -/
structure VipState (D A : ℕ) where
  /-- `ms_ram_if`. -/
  msRamIf : BlockRamIf D A
  /-- The object `req_item` refers to. -/
  reqItem : SequenceItem D A
  /-- The object `rsp_item` refers to. -/
  rspItem : SequenceItem D A
  /-- The response queues of the sequences registered with the sequencer, by sequence id. -/
  regSequences : ℤ → Option (List RspHandle)
  /-- The items as they were when the driver called `item_done` for them, oldest first. -/
  served : List (SequenceItem D A)
  /-- The `ram_data` queues of the read sequences that have finished, oldest first. -/
  readBack : List (List (BitVec 32))

namespace VipState

/-- Drive the four signals of the master side. -/
def drive (c : BusCycle D A) (s : VipState D A) : VipState D A :=
  { s with msRamIf := { s.msRamIf with bus := c } }

/-- `in_item.trans_datao.push_back(bram_datao)`; the queue holds `bit`s. -/
def captureDatao (s : VipState D A) : VipState D A :=
  { s with reqItem := s.reqItem.pushDatao [s.msRamIf.bramDatao.toBits] }

/-- `out_item.copy(in_item)`. -/
def copyResponse (s : VipState D A) : VipState D A :=
  { s with rspItem := s.rspItem.copy s.reqItem }

/-- `get_next_item(req_item)` returns the handle of `it`. -/
def getNextItem (it : SequenceItem D A) (s : VipState D A) : VipState D A :=
  { s with reqItem := it }

/-- `item_done`: the item has been served. -/
def itemDone (s : VipState D A) : VipState D A :=
  { s with served := s.served ++ [s.reqItem] }

/-- `rsp_item.set_id_info(req_item)`. -/
def setIdInfo (s : VipState D A) : VipState D A :=
  { s with rspItem := s.rspItem.setIdInfo s.reqItem }

/-- The response queues after a response for the sequence `id`: its handle is appended, unless that
sequence has exited or its queue is full, when the response is dropped. -/
def deliver (id : ℤ) (qs : ℤ → Option (List RspHandle)) : ℤ → Option (List RspHandle) :=
  match qs id with
  | none => qs
  | some q =>
      if q.length < responseQueueDepth then Function.update qs id (some (q ++ [.rspItem])) else qs

/-- `put_response(rsp_item)`. -/
def putResponse (s : VipState D A) : VipState D A :=
  { s with regSequences := deliver s.rspItem.sequenceId s.regSequences }

end VipState

open VipState

/-- The address loop of the `READ` branch and, with `wen` high, the loop of the `WRITE` branch:
drive an element, wait for the edge. -/
def requestLoop (inItem : SequenceItem D A) (wen : Bool) (i m : ℕ) : Proc (VipState D A) :=
  forFrom (fun i => assign (drive (.request wen (inItem.element i))) ++ posedge) i m

/-- The capture loop of the `READ` branch: wait for the edge, push the data output. -/
def captureLoop (j m : ℕ) : Proc (VipState D A) :=
  forFrom (fun _ => posedge ++ assign captureDatao) j m

/-- `send_to_if`, up to the copy into the response. -/
def transfer (inItem : SequenceItem D A) : Proc (VipState D A) :=
  match inItem.transType with
  | .READ =>
      posedge
        ++ fork
          (requestLoop inItem false 0 inItem.transLength.toNat)
          (posedge ++ captureLoop 0 inItem.transLength.toNat)
        ++ assign (drive (.idle D A))
  | .WRITE =>
      posedge
        ++ requestLoop inItem true 0 inItem.transLength.toNat
        ++ assign (drive (.idle D A))

/-- `send_to_if(req_item, rsp_item)`. -/
def sendToIf (inItem : SequenceItem D A) : Proc (VipState D A) :=
  transfer inItem ++ assign copyResponse

/-- One iteration of the master loop, for the item `it`. -/
def driverIteration (it : SequenceItem D A) : Proc (VipState D A) :=
  assign (getNextItem it) ++ sendToIf it ++ assign itemDone ++ assign setIdInfo
    ++ assign putResponse

/-- `repeat (n) @(posedge clk)`. -/
def idleCycles (n : ℕ) : Proc (VipState D A) := forLoop n fun _ => posedge

/-- The master loop, for items that each arrive some clock cycles after the item before; with no
item left it is blocked in `get_next_item`. -/
def masterLoop : List (ℕ × SequenceItem D A) → Proc (VipState D A)
  | [] => halt
  | (gap, it) :: rest => idleCycles gap ++ driverIteration it ++ masterLoop rest

/-! ## Unfolding the loops -/

@[simp] lemma requestLoop_zero (it : SequenceItem D A) (wen : Bool) (i : ℕ) :
    requestLoop it wen i 0 = halt := rfl

lemma requestLoop_succ (it : SequenceItem D A) (wen : Bool) (i m : ℕ) :
    requestLoop it wen i (m + 1)
      = step (drive (.request wen (it.element i))) (wait (requestLoop it wen (i + 1) m)) := rfl

@[simp] lemma captureLoop_zero (j : ℕ) : captureLoop (D := D) (A := A) j 0 = halt := rfl

lemma captureLoop_succ (j m : ℕ) :
    captureLoop (D := D) (A := A) j (m + 1)
      = wait (step captureDatao (captureLoop (j + 1) m)) := rfl

lemma idleCycles_succ (n : ℕ) :
    idleCycles (D := D) (A := A) (n + 1) = wait (idleCycles n) :=
  congrArg wait (forFrom_const posedge 1 n)

/-- An idle driver assigns nothing. -/
lemma all_idleCycles {Q : (VipState D A → VipState D A) → Prop} (n : ℕ) : (idleCycles n).All Q :=
  All_forLoop fun _ => All_posedge

/-- While the driver is idle, whatever an edge preserves holds. -/
lemma run_idleCycles_invariant {S : Type*} (c : Clock (VipState D A) S) {I : S → Prop}
    (htick : ∀ s, I s → I (c.tick s)) (n : ℕ) {s : S} (hs : I s) :
    I (c.run (idleCycles n) s) :=
  Clock.run_invariant c (P := fun _ => False) (fun _ hf => hf.elim) htick (all_idleCycles n) hs

lemma masterLoop_append (xs ys : List (ℕ × SequenceItem D A)) :
    masterLoop (xs ++ ys) = masterLoop xs ++ masterLoop ys := by
  induction xs with
  | nil => rfl
  | cons x xs ih => simp only [List.cons_append, masterLoop, ih, append_assoc]

/-! ## How long an item takes -/

lemma edges_requestLoop (it : SequenceItem D A) (wen : Bool) (i m : ℕ) :
    (requestLoop it wen i m).edges = m := by
  induction m generalizing i with
  | zero => rfl
  | succ m ih => rw [requestLoop_succ, edges_step, edges_wait, ih]

lemma edges_captureLoop (j m : ℕ) : (captureLoop (D := D) (A := A) j m).edges = m := by
  induction m generalizing j with
  | zero => rfl
  | succ m ih => rw [captureLoop_succ, edges_wait, edges_step, ih]

lemma edges_idleCycles (n : ℕ) : (idleCycles (D := D) (A := A) n).edges = n := by
  induction n with
  | zero => rfl
  | succ n ih => rw [idleCycles_succ, edges_wait, ih]

/-- The edges for which an item of this type and length keeps the driver: one per element, and the
initial one, and for a `READ` the additional one of the capture loop. -/
def itemEdges (transType : TransactionType) (transLength : BitVec D) : ℕ :=
  transLength.toNat + if transType = .READ then 2 else 1

/-- The edges an item keeps the driver for. -/
def SequenceItem.serviceEdges (it : SequenceItem D A) : ℕ :=
  itemEdges it.transType it.transLength

/-- `send_to_if` waits for exactly these edges. -/
theorem edges_sendToIf (it : SequenceItem D A) : (sendToIf it).edges = it.serviceEdges := by
  rw [SequenceItem.serviceEdges, itemEdges]
  cases h : it.transType with
  | READ =>
      simp [sendToIf, transfer, h, edges_fork, edges_requestLoop, edges_captureLoop]
  | WRITE => simp [sendToIf, transfer, h, edges_requestLoop]

end SinglePortRam
