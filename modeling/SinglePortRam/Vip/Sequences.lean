import SinglePortRam.Vip.Driver

/-!
# The sequences

`block_ram_write_sequence.sv`, `block_ram_read_sequence.sv`, `block_ram_random_sequence.sv` and
`env/reset_sequence.sv`.  The first two turn `int` queues into one item and hand it to the
sequencer; the read sequence waits for the response and copies it into its queue `ram_data`.  The
random sequence sends items as `randomize` makes them.  The reset sequence sends no item and drives
the interface itself.

* `WriteSequence.body`, `ReadSequence.request`, `ReadSequence.collect` — the conversions between
  `int` queues and items.
* `RandomItem` — the items `randomize` may make.
* `Run`, `sequenceRun` — one `start` of a sequence on the sequencer, up to its exit, together with
  what the driver does for it.
-/

namespace SinglePortRam

open FourState Clocked Proc VipState

variable {D A : ℕ}

/-! ## Queues of `int` -/

/-- An `int` in a `bit` vector: truncated, or extended with its sign. -/
def intToBits (w : ℕ) (x : BitVec 32) : BitVec w := x.signExtend w

/-- A `bit` vector in an `int`: truncated, or extended with zeros. -/
def bitsToInt {w : ℕ} (b : BitVec w) : BitVec 32 := b.setWidth 32

/-- A report, with its id and its message. -/
structure UvmError where
  id : String
  message : String
  deriving DecidableEq

/-- The report of a write sequence whose queues differ in size. -/
def sizeError : UvmError := ⟨"WRITE", "DATA size is different to ADDR size"⟩

/-- The queues of a `block_ram_write_sequence`. -/
structure WriteSequence where
  ramAddr : List (BitVec 32)
  ramData : List (BitVec 32)

namespace WriteSequence

/-- The item `body` of the write sequence builds.  The size of a queue is a natural number, of which
`trans_length` keeps the low bits. -/
def item (q : WriteSequence) (D A : ℕ) : SequenceItem D A where
  transType := .WRITE
  transLength := BitVec.ofNat D q.ramData.length
  transAddr := q.ramAddr.map (intToBits A)
  transDatai := (List.range q.ramAddr.length).map fun i => intToBits D (q.ramData.getD i 0)
  transDatao := q.ramAddr.map fun _ => 0#D

/-- `body` of the write sequence: the item it sends, or the error it reports instead. -/
def body (q : WriteSequence) (D A : ℕ) : Except UvmError (SequenceItem D A) :=
  if q.ramData.length ≠ q.ramAddr.length then .error sizeError else .ok (q.item D A)

lemma item_transDatai {q : WriteSequence} (h : q.ramData.length = q.ramAddr.length) :
    (q.item D A).transDatai = q.ramData.map (intToBits D) := by
  refine List.ext_getElem (by simp [item, h]) ?_
  intro i hi hi'
  have hlt : i < q.ramData.length := by simpa using hi'
  simp [item, hlt]

end WriteSequence

/-- The queues of a `block_ram_read_sequence`. -/
structure ReadSequence where
  ramAddr : List (BitVec 32)
  ramData : List (BitVec 32)

namespace ReadSequence

/-- The item `body` of the read sequence sends. -/
def request (q : ReadSequence) (D A : ℕ) : SequenceItem D A where
  transType := .READ
  transLength := BitVec.ofNat D q.ramData.length
  transAddr := q.ramAddr.map (intToBits A)
  transDatai := q.ramAddr.map fun _ => 0#D

/-- The rest of `body`, with the response. -/
def collect (q : ReadSequence) (rsp : SequenceItem D A) : ReadSequence :=
  { q with ramData := rsp.transDatao.map bitsToInt }

end ReadSequence

/-- An item the constraint `addr_size_data_size` admits. -/
structure RandomItem (D A : ℕ) where
  item : SequenceItem D A
  addr_size_data_size : item.addrSizeDataSize

/-- The item as the random sequence sends it, with an empty `trans_datao`. -/
def RandomItem.request (r : RandomItem D A) : SequenceItem D A :=
  { r.item with transDatao := [] }

/-! ## On the sequencer -/

namespace VipState

/-- `start`: the sequence is registered under a fresh id, with an empty response queue. -/
def startSequence (id : ℤ) (s : VipState D A) : VipState D A :=
  { s with regSequences := Function.update s.regSequences id (some []) }

/-- The sequence has ended: it is unregistered. -/
def exitSequence (id : ℤ) (s : VipState D A) : VipState D A :=
  { s with regSequences := Function.update s.regSequences id none }

/-- The object a handle refers to. -/
def deref (s : VipState D A) : RspHandle → SequenceItem D A
  | .rspItem => s.rspItem

/-- The oldest response is taken from the queue. -/
def popResponse (id : ℤ) (rest : List RspHandle) (s : VipState D A) : VipState D A :=
  { s with regSequences := Function.update s.regSequences id (some rest) }

/-- `get_response(rsp)` and the copy into `ram_data`.  With no response in its queue the sequence is
blocked, and nothing is read back. -/
def collectResponse (id : ℤ) (q : ReadSequence) (s : VipState D A) : VipState D A :=
  match s.regSequences id with
  | some (h :: rest) =>
      { popResponse id rest s with readBack := s.readBack ++ [(q.collect (s.deref h)).ramData] }
  | _ => s

/-- `ms_ram_if.reset = b`. -/
def setReset (b : Bool) (s : VipState D A) : VipState D A :=
  { s with msRamIf := { s.msRamIf with reset := b } }

end VipState

/-- The item as it is sent, with the id of the sequence that sends it. -/
def SequenceItem.sentBy (it : SequenceItem D A) (id : ℤ) : SequenceItem D A :=
  { it with sequenceId := id }

@[simp] lemma SequenceItem.sentBy_transType (it : SequenceItem D A) (id : ℤ) :
    (it.sentBy id).transType = it.transType := rfl

@[simp] lemma SequenceItem.sentBy_elements (it : SequenceItem D A) (id : ℤ) :
    (it.sentBy id).elements = it.elements := rfl

/-- A sequence that is started. -/
inductive Run where
  | reset
  | write (q : WriteSequence)
  | read (q : ReadSequence)

/-- The cycles for which the reset sequence keeps `reset` high. -/
def resetCycles : ℕ := 100

/-- One run of a sequence under the id it is registered with, the driver being idle before. -/
def sequenceRun (id : ℤ) : Run → Proc (VipState D A)
  | .reset =>
      assign (startSequence id)
        ++ assign (setReset true) ++ idleCycles resetCycles ++ assign (setReset false)
        ++ assign (exitSequence id)
  | .write q =>
      assign (startSequence id)
        ++ (match q.body D A with
          | .error _ => halt
          | .ok it => driverIteration (it.sentBy id))
        ++ assign (exitSequence id)
  | .read q =>
      assign (startSequence id)
        ++ driverIteration ((q.request D A).sentBy id)
        ++ assign (collectResponse id q)
        ++ assign (exitSequence id)

/-- Runs one after the other, each some idle cycles after the one before, with ids that count up. -/
def session : ℤ → List (ℕ × Run) → Proc (VipState D A)
  | _, [] => halt
  | id, (gap, r) :: runs => idleCycles gap ++ sequenceRun id r ++ session (id + 1) runs

end SinglePortRam
