import SinglePortRam.Env.BusTrace
import SinglePortRam.Vip.Sequences

/-!
# Single runs of the sequences

One run of a sequence with the driver and the RAM behind it, the RAM sampling before the driver's
assignments.  `simulate_sequenceRun` says what it does to the array and what it reads back.

* **`writeSequence_allOrNothing_iff`** — a write sequence drops no element as long as `trans_length`
  can hold their number.
* **`readSequence_answers_iff`** — a read sequence answers the addresses asked as long as the size
  of `ram_data`, from which it takes the length of its burst, is the size of `ram_addr`.
-/

namespace SinglePortRam

open FourState Clocked Proc VipState Testbench

variable {D A : ℕ} {P : RamParams}

/-! ## What a run does -/

/-- The array after one run of a sequence. -/
def memAfterRun (D A : ℕ) (m : RamWords P) : Run → RamWords P
  | .reset => m
  | .write q =>
      match q.body D A with
      | .error _ => m
      | .ok it => storeElems m it.elements
  | .read _ => m

/-- What one run of a sequence reads back. -/
def readBackOf (D A : ℕ) (m : RamWords P) : Run → List (List (BitVec 32))
  | .reset => []
  | .write _ => []
  | .read q => [(q.request D A).elements.map fun e => bitsToInt (readBits m e)]

/-- What a process that leaves the array `m` and reads back `ds` makes of a state. -/
structure Leaves (m : RamWords P) (ds : List (List (BitVec 32))) (tb tb' : Testbench D A P) :
    Prop where
  quiet : tb'.Quiet
  mem : tb'.mem = m
  readBack : tb'.vip.readBack = tb.vip.readBack ++ ds

lemma Leaves.exitSequence {m : RamWords P} {ds : List (List (BitVec 32))}
    {tb tb' : Testbench D A P} (h : Leaves m ds tb tb') (id : ℤ) :
    Leaves m ds tb (tb'.assign (exitSequence id)) := by
  rw [assign_eq_setVip (VipState.exitSequence id) fun _ => rfl]
  exact ⟨h.quiet.setVip rfl, (mem_setVip rfl).trans h.mem, h.readBack⟩

lemma assign_startSequence (id : ℤ) (tb : Testbench D A P) :
    tb.assign (startSequence id) = tb.setVip (startSequence id tb.vip) :=
  assign_eq_setVip (startSequence id) (fun _ => rfl) tb

/-! ## The reset sequence -/

lemma BlkRam.always_mem_of_disabled {r : BlkRam P} {p : RamPorts P} (h : p.en = false) :
    (r.always p).mem = r.mem := by
  cases hr : p.rst with
  | true => rw [always_of_rst hr]
  | false => rw [always_of_disabled hr h]

/-- While nothing is requested, neither an edge nor a change of `reset` touches the array. -/
lemma mem_tick_of_disabled (sched : ℕ → EdgeOrder) {tb : Testbench D A P}
    (h : tb.vip.msRamIf.bus.bramEn = false) : (tb.tick sched).mem = tb.mem := by
  cases ho : sched tb.edges <;>
    simp [mem, settledRam, tick, settle, ho, BlkRam.always_mem_of_disabled, dutPorts, h]

lemma mem_setReset_of_disabled (b : Bool) {tb : Testbench D A P}
    (h : tb.vip.msRamIf.bus.bramEn = false) : (tb.assign (setReset b)).mem = tb.mem := by
  simp only [mem, settledRam, Testbench.assign]
  cases hs : tb.slot <;> split_ifs <;>
    simp [BlkRam.always_mem_of_disabled, dutPorts, setReset, h]

/-- Nothing requested, with the array and the queues read back as given. -/
structure Disabled (m : RamWords P) (rb : List (List (BitVec 32))) (tb : Testbench D A P) :
    Prop where
  bramEn : tb.vip.msRamIf.bus.bramEn = false
  mem : tb.mem = m
  readBack : tb.vip.readBack = rb

lemma Disabled.setReset {m : RamWords P} {rb : List (List (BitVec 32))} {tb : Testbench D A P}
    (h : Disabled m rb tb) (b : Bool) : Disabled m rb (tb.assign (setReset b)) :=
  ⟨h.bramEn, (mem_setReset_of_disabled b h.bramEn).trans h.mem, h.readBack⟩

lemma Disabled.idleCycles {m : RamWords P} {rb : List (List (BitVec 32))} {tb : Testbench D A P}
    (h : Disabled m rb tb) (sched : ℕ → EdgeOrder) (n : ℕ) :
    Disabled m rb (simulate sched (idleCycles n) tb) := by
  refine run_idleCycles_invariant (clock sched) (I := Disabled m rb) ?_ n h
  intro s hs
  exact ⟨hs.bramEn, (mem_tick_of_disabled sched hs.bramEn).trans hs.mem, hs.readBack⟩

lemma Disabled.leaves {m : RamWords P} {ds rb : List (List (BitVec 32))} {tb tb' : Testbench D A P}
    (h : Disabled m rb (tb'.assign (VipState.setReset false))) (hrb : rb = tb.vip.readBack ++ ds) :
    Leaves m ds tb (tb'.assign (VipState.setReset false)) where
  quiet := ⟨rfl, h.bramEn⟩
  mem := h.mem
  readBack := h.readBack.trans hrb

lemma simulate_reset (id : ℤ) {tb : Testbench D A P} (hq : tb.Quiet) :
    Leaves tb.mem [] tb (simulate ramAlwaysFirst (sequenceRun id .reset) tb) := by
  set tb₁ := tb.assign (startSequence id) with htb₁
  have hd₁ : Disabled tb.mem tb.vip.readBack tb₁ := by
    rw [htb₁, assign_startSequence]
    exact ⟨hq.bramEn, mem_setVip rfl, rfl⟩
  have hd₂ := ((hd₁.setReset true).idleCycles ramAlwaysFirst resetCycles).setReset false
  have hrun : simulate ramAlwaysFirst (sequenceRun id .reset) tb
      = ((simulate ramAlwaysFirst (idleCycles resetCycles) (tb₁.assign (setReset true))).assign
          (setReset false)).assign (exitSequence id) := by
    simp only [simulate, sequenceRun, Clock.run_append, Clock.run_assign]
    rfl
  rw [hrun]
  exact (hd₂.leaves (List.append_nil _).symm).exitSequence id

/-! ## The write sequence and the read sequence -/

lemma simulate_write_of_error (id : ℤ) {q : WriteSequence} {e : UvmError}
    (h : q.body D A = .error e) (tb : Testbench D A P) :
    simulate ramAlwaysFirst (sequenceRun id (.write q)) tb
      = (tb.setVip (startSequence id tb.vip)).assign (exitSequence id) := by
  simp only [simulate, sequenceRun, h, Clock.run_append, Clock.run_assign, Clock.run_halt]
  exact congrArg (Testbench.assign (exitSequence id)) (assign_startSequence id tb)

lemma simulate_write_of_ok (id : ℤ) {q : WriteSequence} {it : SequenceItem D A}
    (h : q.body D A = .ok it) (tb : Testbench D A P) :
    simulate ramAlwaysFirst (sequenceRun id (.write q)) tb
      = (simulate ramAlwaysFirst (driverIteration (it.sentBy id))
          (tb.setVip (startSequence id tb.vip))).assign (exitSequence id) := by
  simp only [simulate, sequenceRun, h, Clock.run_append, Clock.run_assign]
  rw [← assign_startSequence]
  rfl

lemma WriteSequence.transType_of_body {q : WriteSequence} {it : SequenceItem D A}
    (h : q.body D A = .ok it) : it.transType = .WRITE := by
  rw [WriteSequence.body] at h
  split_ifs at h
  rw [← Except.ok.inj h]
  rfl

lemma simulate_write (id : ℤ) (q : WriteSequence) {tb : Testbench D A P} (hq : tb.Quiet) :
    Leaves (memAfterRun D A tb.mem (.write q)) [] tb
      (simulate ramAlwaysFirst (sequenceRun id (.write q)) tb) := by
  set tb₁ := tb.setVip (startSequence id tb.vip) with htb₁
  have hq₁ : tb₁.Quiet := hq.setVip rfl
  have hm₁ : tb₁.mem = tb.mem := mem_setVip rfl
  simp only [memAfterRun]
  cases hb : q.body D A with
  | error e =>
      have hleaves : Leaves tb.mem [] tb tb₁ := ⟨hq₁, hm₁, (List.append_nil _).symm⟩
      rw [simulate_write_of_error id hb]
      exact hleaves.exitSequence id
  | ok it =>
      have hserves := simulate_driverIteration ramAlwaysFirst (it.sentBy id) hq₁
      have hmem := hserves.mem
      simp only [memAfter, SequenceItem.sentBy_transType, SequenceItem.sentBy_elements,
        WriteSequence.transType_of_body hb, storedElems_ramAlwaysFirst, hm₁] at hmem
      have hleaves : Leaves (storeElems tb.mem it.elements) [] tb
          (simulate ramAlwaysFirst (driverIteration (it.sentBy id)) tb₁) :=
        ⟨hserves.quiet, hmem, hserves.readBack.trans (List.append_nil _).symm⟩
      rw [simulate_write_of_ok id hb]
      exact hleaves.exitSequence id

/-- The response of a read is in the queue of the sequence that waits for it. -/
lemma deliver_startSequence (id : ℤ) (qs : ℤ → Option (List RspHandle)) :
    deliver id (Function.update qs id (some [])) id = some [.rspItem] := by
  simp [deliver, responseQueueDepth]

lemma assign_collectResponse {id : ℤ} (q : ReadSequence) {tb : Testbench D A P}
    (h : tb.vip.regSequences id = some [.rspItem]) :
    tb.assign (collectResponse id q) = tb.setVip
      { tb.vip with
        regSequences := Function.update tb.vip.regSequences id (some [])
        readBack := tb.vip.readBack ++ [(q.collect tb.vip.rspItem).ramData] } := by
  have hbus (s : VipState D A) : (collectResponse id q s).msRamIf = s.msRamIf := by
    rw [collectResponse]
    split <;> rfl
  rw [assign_eq_setVip (collectResponse id q) hbus]
  simp only [collectResponse, h]
  rfl

lemma simulate_read (id : ℤ) (q : ReadSequence) {tb : Testbench D A P} (hq : tb.Quiet) :
    Leaves tb.mem (readBackOf D A tb.mem (.read q)) tb
      (simulate ramAlwaysFirst (sequenceRun id (.read q)) tb) := by
  set tb₁ := tb.setVip (startSequence id tb.vip) with htb₁
  have hstart : (clock ramAlwaysFirst).assign (startSequence id) tb = tb₁ :=
    assign_startSequence id tb
  have hq₁ : tb₁.Quiet := hq.setVip rfl
  have hm₁ : tb₁.mem = tb.mem := mem_setVip rfl
  have hserves := simulate_driverIteration ramAlwaysFirst ((q.request D A).sentBy id) hq₁
  obtain ⟨tb₂, htb₂⟩ : ∃ tb₂, tb₂ = simulate ramAlwaysFirst
    (driverIteration ((q.request D A).sentBy id)) tb₁ := ⟨_, rfl⟩
  rw [← htb₂] at hserves
  have hqueue : tb₂.vip.regSequences id = some [.rspItem] := by
    rw [hserves.regSequences]
    exact deliver_startSequence id tb.vip.regSequences
  have hcollect := assign_collectResponse q hqueue
  have hleaves : Leaves tb.mem (readBackOf D A tb.mem (.read q)) tb
      (tb₂.assign (collectResponse id q)) := by
    rw [hcollect]
    refine ⟨hserves.quiet.setVip rfl, (mem_setVip rfl).trans (hserves.mem.trans hm₁), ?_⟩
    have hdatao : (q.collect tb₂.vip.rspItem).ramData
        = (q.request D A).elements.map fun e => bitsToInt (readBits tb.mem e) := by
      rw [hserves.rspItem, hm₁,
        ← capturedElems_ramAlwaysFirst tb₁.edges (q.request D A).elements]
      exact List.map_map
    rw [setVip_vip, hserves.readBack, hdatao]
    rfl
  have hrun : simulate ramAlwaysFirst (sequenceRun id (.read q)) tb
      = (tb₂.assign (collectResponse id q)).assign (exitSequence id) := by
    simp only [simulate, sequenceRun, Clock.run_append, Clock.run_assign, hstart, htb₂]
    rfl
  rw [hrun]
  exact hleaves.exitSequence id

/-- **One run**: what it does to the array and what it reads back. -/
theorem simulate_sequenceRun (id : ℤ) (r : Run) {tb : Testbench D A P} (hq : tb.Quiet) :
    Leaves (memAfterRun D A tb.mem r) (readBackOf D A tb.mem r) tb
      (simulate ramAlwaysFirst (sequenceRun id r) tb) := by
  cases r with
  | reset => exact simulate_reset id hq
  | write q => exact simulate_write id q hq
  | read q => exact simulate_read id q hq

/-! ## All or nothing -/

/-- The element of an item for a pair of `int`s. -/
def intElement (D A : ℕ) (e : BitVec 32 × BitVec 32) : BitVec A × BitVec D :=
  (intToBits A e.1, intToBits D e.2)

/-- A run of a write sequence reports the size error and sends nothing, or sends one item, as long
as its queues, for which the driver drives one write per element of the queues. -/
def AllOrNothing (D A : ℕ) (ram : BlkRam P) (q : WriteSequence) : Prop :=
  let tb : Testbench D A P := simulate ramAlwaysFirst (sequenceRun 1 (.write q)) (init D A ram)
  (q.body D A = .error sizeError ∧ tb.vip.served = []) ∨
    ∃ it : SequenceItem D A, q.body D A = .ok it ∧ tb.vip.served = [it.sentBy 1] ∧
      it.transLength.toNat = q.ramAddr.length ∧
      tb.busLog.filter BusCycle.bramEn
        = (q.ramAddr.zip q.ramData).map fun e => .request true (intElement D A e)

/-- The item of a write sequence with queues of equal size, if they are not too long. -/
def WriteSequence.burst (q : WriteSequence) (h : q.ramData.length = q.ramAddr.length)
    (hlt : q.ramAddr.length < 2 ^ D) : Burst D A where
  item := q.item D A
  size_addr := by simp [item, h, Nat.mod_eq_of_lt hlt]
  size_datai := by simp [item, h, Nat.mod_eq_of_lt hlt]

lemma WriteSequence.elements_item {q : WriteSequence} (h : q.ramData.length = q.ramAddr.length)
    (hlt : q.ramAddr.length < 2 ^ D) :
    (q.item D A).elements = (q.ramAddr.zip q.ramData).map (intElement D A) := by
  have helems := (q.burst (A := A) h hlt).elements_eq
  simp only [burst, item_transDatai h] at helems
  rw [helems, item, List.zip_map]
  rfl

lemma WriteSequence.toNat_transLength (q : WriteSequence)
    (h : q.ramData.length = q.ramAddr.length) :
    (q.item D A).transLength.toNat = q.ramAddr.length ↔ q.ramAddr.length < 2 ^ D := by
  rw [item, BitVec.toNat_ofNat, h, Nat.mod_eq_iff_lt (Nat.two_pow_pos D).ne']

/-- What the driver serves, and what it drives, for a write sequence that sends an item. -/
lemma served_busLog_write (ram : BlkRam P) {q : WriteSequence} {it : SequenceItem D A}
    (h : q.body D A = .ok it) :
    (simulate ramAlwaysFirst (sequenceRun 1 (.write q)) (init D A ram)).vip.served
        = [it.sentBy 1] ∧
    (simulate ramAlwaysFirst (sequenceRun 1 (.write q)) (init D A ram)).busLog.filter
        BusCycle.bramEn = it.elements.map (.request true) := by
  have hwrite : (it.sentBy 1).transType = .WRITE :=
    (it.sentBy_transType 1).trans (WriteSequence.transType_of_body h)
  set tb₁ := (init D A ram).setVip (startSequence 1 (init D A ram).vip) with htb₁
  have hq₁ : tb₁.Quiet := (quiet_init ram).setVip rfl
  rw [simulate_write_of_ok 1 h]
  refine ⟨?_, ?_⟩
  · have hserves := simulate_driverIteration ramAlwaysFirst (it.sentBy 1) hq₁
    refine hserves.served.trans ?_
    rw [itemAfter_of_write _ _ _ hwrite]
    rfl
  · have hlog := ((drives_driverIteration (it.sentBy 1)).busLog ramAlwaysFirst tb₁ rfl).1
    refine (congrArg (List.filter BusCycle.bramEn) hlog).trans ?_
    have hidle : tb₁.busLog ++ .idle D A :: (it.sentBy 1).cycles
        = .idle D A :: (it.sentBy 1).cycles := rfl
    rw [hidle, List.filter_cons_of_neg (by simp), filter_cycles,
      SequenceItem.requests_of_write hwrite, SequenceItem.surplus, hwrite]
    exact List.append_nil _

/-- **A write sequence is all or nothing** exactly if its queues differ in size or `trans_length`
can hold their size. -/
theorem writeSequence_allOrNothing_iff (ram : BlkRam P) (q : WriteSequence) :
    AllOrNothing D A ram q ↔
      q.ramAddr.length ≠ q.ramData.length ∨ q.ramAddr.length < 2 ^ D := by
  by_cases h : q.ramData.length = q.ramAddr.length
  · have hbody : q.body D A = .ok (q.item D A) := by simp [WriteSequence.body, h]
    obtain ⟨hserved, hlog⟩ := served_busLog_write ram hbody
    rw [← WriteSequence.toNat_transLength (A := A) q h]
    constructor
    · rintro (⟨herror, -⟩ | ⟨it, hit, -, hlen, -⟩)
      · rw [hbody] at herror
        cases herror
      · obtain rfl := Except.ok.inj (hbody.symm.trans hit)
        exact Or.inr hlen
    · rintro (hne | hlen)
      · exact absurd h.symm hne
      · refine Or.inr ⟨q.item D A, hbody, hserved, hlen, ?_⟩
        rw [hlog, WriteSequence.elements_item h ((q.toNat_transLength h).mp hlen), List.map_map]
        rfl
  · have hbody : q.body D A = .error sizeError := by simp [WriteSequence.body, h]
    refine iff_of_true (Or.inl ⟨hbody, ?_⟩) (Or.inl (Ne.symm h))
    rw [simulate_write_of_error 1 hbody]
    rfl

/-- With two-bit data and addresses, a burst over all four words is sent with the length `0`. -/
theorem full_burst_dropped :
    ¬ AllOrNothing (P := fittingParams 2 2) 2 2 ⟨.ofBits 0, fun _ => .ofBits 0⟩
      ⟨[0, 1, 2, 3], [1, 1, 1, 1]⟩ := by
  rintro (⟨herror, -⟩ | ⟨it, hit, -, hlen, -⟩)
  · exact absurd herror (by decide)
  · obtain rfl := Except.ok.inj hit
    exact absurd hlen (by decide)

/-! ## The addresses asked -/

/-- A run of a read sequence leaves in `ram_data` the words at the addresses of `ram_addr`, reduced
to the width of an address. -/
def AnswersAddresses (D A : ℕ) (ram : BlkRam (fittingParams D A)) (q : ReadSequence) : Prop :=
  (simulate ramAlwaysFirst (sequenceRun 1 (.read q)) (init D A ram)).vip.readBack
    = [q.ramAddr.map fun a => bitsToInt (absMem ram.mem (BitVec.ofInt A a.toInt)).toBits]

/-- The item of a read sequence, if `trans_length` is the number of its addresses. -/
def ReadSequence.burst (q : ReadSequence) (h : q.ramData.length % 2 ^ D = q.ramAddr.length) :
    Burst D A where
  item := q.request D A
  size_addr := by simp [request, h]
  size_datai := by simp [request, h]

lemma ReadSequence.map_elements_request {q : ReadSequence}
    (h : q.ramData.length % 2 ^ D = q.ramAddr.length) {β : Type*} (f : BitVec A → β) :
    (q.request D A).elements.map (fun e => f e.1) = q.ramAddr.map fun a => f (intToBits A a) := by
  have hfst := (q.burst (A := A) h).map_fst_elements
  calc (q.request D A).elements.map (fun e => f e.1)
      = ((q.request D A).elements.map Prod.fst).map f := by rw [List.map_map]; rfl
    _ = (q.ramAddr.map (intToBits A)).map f := congrArg _ hfst
    _ = q.ramAddr.map fun a => f (intToBits A a) := List.map_map

/-- **A read sequence answers exactly the addresses asked** if and only if the size `ram_data` had
before, as far as `trans_length` can hold it, is that of `ram_addr`. -/
theorem readSequence_answers_iff (ram : BlkRam (fittingParams D A)) (q : ReadSequence) :
    AnswersAddresses D A ram q ↔ q.ramData.length % 2 ^ D = q.ramAddr.length := by
  have hrun := (simulate_read 1 q (quiet_init (D := D) (A := A) ram)).readBack
  have hback : (simulate ramAlwaysFirst (sequenceRun 1 (.read q)) (init D A ram)).vip.readBack
      = [(q.request D A).elements.map fun e => bitsToInt (absMem ram.mem e.1).toBits] := by
    refine hrun.trans ?_
    simp only [readBackOf, readBits, loadElem_fitting]
    rfl
  rw [AnswersAddresses, hback, List.cons.injEq, and_iff_left rfl]
  constructor
  · intro h
    have hlen := congrArg List.length h
    simpa [ReadSequence.request] using hlen
  · intro h
    exact ReadSequence.map_elements_request h fun a => bitsToInt (absMem ram.mem a).toBits

/-- A read sequence as it is created, with an empty `ram_data`, reads nothing. -/
theorem fresh_read_answers_nothing :
    ¬ AnswersAddresses 16 8 ⟨.ofBits 0, fun _ => .ofBits 7⟩ ⟨[3], []⟩ := by
  rw [AnswersAddresses]
  decide

end SinglePortRam
