import SinglePortRam.Env.Testbench

/-!
# One item on the bus

What `transfer` does to the RAM and to the item, for every schedule of the edges.  The address loop
and the capture loop of a `READ` stay one edge apart; `simulate_readLoops` follows them together,
since `run_fork_step_right` lets the capture at an edge be executed before the drive at the same
edge.  For the same reason the order of the two threads does not matter: `simulate_fork_read_comm`.

The schedule enters through two functions on lists of elements.

* `storedElems` — the elements of a `WRITE` the RAM samples: at each edge it sees the element
  driven before the edge or the one driven at it.
* `capturedElems` — the elements of a `READ` whose contents end up in `trans_datao`.

With the RAM always first both are the list itself.
-/

namespace SinglePortRam

open FourState Clocked Proc VipState

variable {D A : ℕ} {P : RamParams}

/-! ## Elements at the ports of the RAM -/

/-- The store of an element through the ports of the RAM. -/
def storeElem (m : RamWords P) (e : BitVec A × BitVec D) : RamWords P :=
  storeMem m (e.1.setWidth P.AWIDTH) ((LogicVec.ofBits e.2).resize P.DWIDTH)

/-- The array after the stores of a list of elements. -/
def storeElems (m : RamWords P) (es : List (BitVec A × BitVec D)) : RamWords P :=
  es.foldl storeElem m

/-- The content of the addressed word, as it arrives at the interface. -/
def loadElem (m : RamWords P) (e : BitVec A × BitVec D) : LogicVec D :=
  (loadMem m (e.1.setWidth P.AWIDTH)).resize D

@[simp] lemma storeElems_nil (m : RamWords P) :
    storeElems m ([] : List (BitVec A × BitVec D)) = m := rfl

lemma storeElems_append (m : RamWords P) (es fs : List (BitVec A × BitVec D)) :
    storeElems m (es ++ fs) = storeElems (storeElems m es) fs := by
  simp [storeElems]

variable {α : Type*}

/-- The elements of a `WRITE` the RAM samples, when the first of them is driven at edge `t`: once
if exactly one of the edges around it finds it on the bus, twice or never otherwise. -/
def storedElems (sched : ℕ → EdgeOrder) : ℕ → List α → List α
  | _, [] => []
  | t, e :: es =>
      (if sched t = .driverFirst then [e] else []) ++
        (if sched (t + 1) = .ramFirst then [e] else []) ++ storedElems sched (t + 1) es

/-- The elements of a `READ` whose contents are captured, when the first of them is driven at edge
`t`: the RAM samples at the next edge, where the driver may already have gone on. -/
def capturedElems (sched : ℕ → EdgeOrder) : ℕ → List α → List α
  | _, [] => []
  | _, [e] => [e]
  | t, e :: f :: es =>
      (if sched (t + 1) = .driverFirst then f else e) :: capturedElems sched (t + 1) (f :: es)

@[simp] lemma storedElems_ramAlwaysFirst (t : ℕ) (es : List α) :
    storedElems ramAlwaysFirst t es = es := by
  induction es generalizing t with
  | nil => rfl
  | cons e es ih => rw [storedElems, ih]; simp [ramAlwaysFirst]

@[simp] lemma capturedElems_ramAlwaysFirst (t : ℕ) (es : List α) :
    capturedElems ramAlwaysFirst t es = es := by
  induction es generalizing t with
  | nil => rfl
  | cons e es ih =>
      cases es with
      | nil => rfl
      | cons f es => simp only [capturedElems, ih]; simp [ramAlwaysFirst]

/-! ## One slot -/

namespace Testbench

/-- The array as committed so far in the slot: the sample of a RAM that went first is included. -/
def committed (tb : Testbench D A P) : RamWords P :=
  match tb.slot with
  | .sampled r => r.mem
  | .waiting => tb.ram.mem

/-- The state lies in the slot of edge `t`, and the RAM's part in it is as the schedule says. -/
structure InSlot (sched : ℕ → EdgeOrder) (t : ℕ) (tb : Testbench D A P) : Prop where
  edges : tb.edges = t + 1
  waiting : tb.slot = .waiting ↔ sched t = .driverFirst

/-- Nothing is requested, and `reset` is low. -/
structure Quiet (tb : Testbench D A P) : Prop where
  reset : tb.vip.msRamIf.reset = false
  bramEn : tb.vip.msRamIf.bus.bramEn = false

lemma assign_of_reset_eq {f : VipState D A → VipState D A} {tb : Testbench D A P}
    (h : (f tb.vip).msRamIf.reset = tb.vip.msRamIf.reset) :
    tb.assign f = { tb with vip := f tb.vip } := by
  simp [assign, h]

@[simp] lemma assign_drive (c : BusCycle D A) (tb : Testbench D A P) :
    tb.assign (drive c) = { tb with vip := drive c tb.vip } := assign_of_reset_eq rfl

@[simp] lemma assign_captureDatao (tb : Testbench D A P) :
    tb.assign captureDatao = { tb with vip := captureDatao tb.vip } := assign_of_reset_eq rfl

lemma inSlot_tick (sched : ℕ → EdgeOrder) (tb : Testbench D A P) :
    (tb.tick sched).InSlot sched tb.edges := by
  refine ⟨rfl, ?_⟩
  simp only [tick]
  cases sched tb.edges <;> simp

/-- The array at the end of the slot when the bus shows a write, when it shows a read, and when it
shows nothing. -/
lemma InSlot.mem_of_write {sched : ℕ → EdgeOrder} {t : ℕ} {tb : Testbench D A P}
    {e : BitVec A × BitVec D} (ht : tb.InSlot sched t) (hr : tb.vip.msRamIf.reset = false)
    (hb : tb.vip.msRamIf.bus = .request true e) :
    tb.mem = if sched t = .driverFirst then storeElem tb.committed e else tb.committed := by
  have hw := ht.waiting
  rw [mem, settledRam, committed]
  cases hs : tb.slot with
  | sampled r =>
      rw [hs] at hw
      simp [← hw]
  | waiting =>
      simp only [hw.mp hs, if_true]
      rw [BlkRam.always_of_write hr (by simp [dutPorts, hb, BusCycle.request])
        (by simp [dutPorts, hb, BusCycle.request])]
      simp [storeElem, dutPorts, hb, BusCycle.request]

lemma mem_of_read {tb : Testbench D A P} {e : BitVec A × BitVec D}
    (hr : tb.vip.msRamIf.reset = false) (hb : tb.vip.msRamIf.bus = .request false e) :
    tb.mem = tb.committed := by
  rw [mem, settledRam, committed]
  cases hs : tb.slot with
  | sampled r => rfl
  | waiting =>
      simp only
      rw [BlkRam.always_of_read hr (by simp [dutPorts, hb, BusCycle.request])
        (by simp [dutPorts, hb, BusCycle.request])]

lemma Quiet.mem_eq {tb : Testbench D A P} (h : tb.Quiet) : tb.mem = tb.committed := by
  rw [mem, settledRam, committed]
  cases hs : tb.slot with
  | sampled r => rfl
  | waiting =>
      simp only
      rw [BlkRam.always_of_disabled h.reset h.bramEn]

/-- What is committed right after an edge: the array at the end of the slot before, and the sample
taken at the edge if the RAM goes first. -/
lemma committed_tick_of_write (sched : ℕ → EdgeOrder) {tb : Testbench D A P}
    {e : BitVec A × BitVec D} (hr : tb.vip.msRamIf.reset = false)
    (hb : tb.vip.msRamIf.bus = .request true e) :
    (tb.tick sched).committed
      = if sched tb.edges = .ramFirst then storeElem tb.mem e else tb.mem := by
  cases ho : sched tb.edges with
  | driverFirst => simp [committed, tick, ho, settle, mem]
  | ramFirst =>
      simp only [committed, tick, ho]
      rw [BlkRam.always_of_write hr (by simp [dutPorts, hb, BusCycle.request])
        (by simp [dutPorts, hb, BusCycle.request])]
      simp [storeElem, dutPorts, hb, BusCycle.request, mem]

lemma Quiet.committed_tick {tb : Testbench D A P} (h : tb.Quiet) (sched : ℕ → EdgeOrder) :
    (tb.tick sched).committed = tb.mem := by
  cases ho : sched tb.edges with
  | driverFirst => simp [committed, tick, ho, settle, mem]
  | ramFirst =>
      simp only [committed, tick, ho]
      rw [BlkRam.always_of_disabled h.reset h.bramEn]
      rfl

end Testbench

open Testbench

/-! ## The loop of a `WRITE` -/

theorem simulate_requestLoop_write (sched : ℕ → EdgeOrder) (it : SequenceItem D A) :
    ∀ (m i t : ℕ) (tb : Testbench D A P), tb.InSlot sched t → tb.vip.msRamIf.reset = false →
      (simulate sched (requestLoop it true i m) tb).InSlot sched (t + m) ∧
      (simulate sched (requestLoop it true i m) tb).committed
        = storeElems tb.committed (storedElems sched t (it.elementsFrom i m))
  | 0, i, t, tb, ht, _ => by simpa [simulate, storedElems] using ht
  | m + 1, i, t, tb, ht, hr => by
      set tb₁ : Testbench D A P := { tb with vip := drive (.request true (it.element i)) tb.vip }
        with htb₁
      have hrun : simulate sched (requestLoop it true i (m + 1)) tb
          = simulate sched (requestLoop it true (i + 1) m) (tb₁.tick sched) := by
        simp [simulate, requestLoop_succ, clock, htb₁]
      have hr₁ : tb₁.vip.msRamIf.reset = false := hr
      have hb₁ : tb₁.vip.msRamIf.bus = .request true (it.element i) := rfl
      have ht₁ : tb₁.InSlot sched t := ⟨ht.edges, ht.waiting⟩
      have hcom : (tb₁.tick sched).committed
          = storeElems tb.committed ((if sched t = .driverFirst then [it.element i] else []) ++
              if sched (t + 1) = .ramFirst then [it.element i] else []) := by
        rw [committed_tick_of_write sched hr₁ hb₁, ht₁.mem_of_write hr₁ hb₁, ht₁.edges]
        cases sched t <;> cases sched (t + 1) <;> rfl
      obtain ⟨hslot, hrest⟩ := simulate_requestLoop_write sched it m (i + 1) (t + 1)
        (tb₁.tick sched) (ht₁.edges ▸ inSlot_tick sched tb₁) hr₁
      rw [hrun]
      refine ⟨by rwa [Nat.add_right_comm] at hslot, ?_⟩
      rw [hrest, hcom, SequenceItem.elementsFrom_succ, storedElems, ← storeElems_append]

/-! ## The two loops of a `READ` -/

/-- The address loop and the capture loop once the first element is on the bus: the address loop
is about to drive element `i`, the capture loop waits for the first datum to appear. -/
def readLoops (it : SequenceItem D A) (i m : ℕ) : Proc (VipState D A) :=
  fork (requestLoop it false i m) (wait (step captureDatao (captureLoop i m)))

/-- The drives of the address loop. -/
def IsDrive (f : VipState D A → VipState D A) : Prop := ∃ c, f = drive c

lemma all_isDrive_requestLoop (it : SequenceItem D A) (wen : Bool) (i m : ℕ) :
    (requestLoop it wen i m).All IsDrive :=
  All_forFrom (fun j => by simp [IsDrive]) i m

lemma assign_captureDatao_drive {f : VipState D A → VipState D A} (hf : IsDrive f)
    (tb : Testbench D A P) :
    (tb.assign f).assign captureDatao = (tb.assign captureDatao).assign f := by
  obtain ⟨c, rfl⟩ := hf
  simp [drive, captureDatao]

/-- The threads of a `READ` do not depend on which of them is executed first at an edge. -/
theorem simulate_fork_read_comm (sched : ℕ → EdgeOrder) (it : SequenceItem D A)
    (tb : Testbench D A P) :
    simulate sched (fork (requestLoop it false 0 it.transLength.toNat)
        (posedge ++ captureLoop 0 it.transLength.toNat)) tb
      = simulate sched (fork (posedge ++ captureLoop 0 it.transLength.toNat)
        (requestLoop it false 0 it.transLength.toNat)) tb := by
  have hcapture : (posedge ++ captureLoop 0 it.transLength.toNat).All
      (fun g : VipState D A → VipState D A => g = captureDatao) :=
    All_forFrom (fun _ => by simp) 0 _
  refine Clock.run_fork_comm (c := clock sched) ?_ (all_isDrive_requestLoop it false 0 _)
    hcapture tb
  rintro f _ hf rfl s
  exact (assign_captureDatao_drive hf s).symm

lemma simulate_readLoops_zero (sched : ℕ → EdgeOrder) (it : SequenceItem D A) (i : ℕ)
    (tb : Testbench D A P) :
    simulate sched (readLoops it i 0) tb = (tb.tick sched).assign captureDatao := rfl

/-- One round of the loops: an element is driven, and at the next edge a datum is captured. -/
lemma simulate_readLoops_succ (sched : ℕ → EdgeOrder) (it : SequenceItem D A) (i m : ℕ)
    (tb : Testbench D A P) :
    simulate sched (readLoops it i (m + 1)) tb
      = simulate sched (readLoops it (i + 1) m)
          (((tb.assign (drive (.request false (it.element i)))).tick sched).assign
            captureDatao) := by
  have hcomm (g : VipState D A → VipState D A) (hg : IsDrive g) (tb : Testbench D A P) :
      (clock sched).assign captureDatao ((clock sched).assign g tb)
        = (clock sched).assign g ((clock sched).assign captureDatao tb) :=
    assign_captureDatao_drive hg tb
  rw [simulate, readLoops, requestLoop_succ, captureLoop_succ, fork_step, fork_wait_wait,
    Clock.run_step, Clock.run_wait,
    Clock.run_fork_step_right hcomm (all_isDrive_requestLoop it false (i + 1) m)]
  rfl

/-- Inside a `READ`, in the slot of edge `t + 1`: the element `e`, driven at edge `t`, is on the
bus, and a RAM that has already sampled it holds its content in `r_data`. -/
structure Reading (sched : ℕ → EdgeOrder) (t : ℕ) (e : BitVec A × BitVec D)
    (m : RamWords P) (tb : Testbench D A P) : Prop where
  inSlot : tb.InSlot sched (t + 1)
  reset : tb.vip.msRamIf.reset = false
  bus : tb.vip.msRamIf.bus = .request false e
  committed : tb.committed = m
  rData : ∀ r, tb.slot = .sampled r → r.rData.resize D = loadElem m e

/-- The content of a word as a `bit` vector, which is what the capture loop pushes. -/
def readBits (m : RamWords P) (e : BitVec A × BitVec D) : BitVec D :=
  (loadElem m e).toBits

lemma always_of_request_read {ifc : BlockRamIf D A} {e : BitVec A × BitVec D} {r : BlkRam P}
    (hr : ifc.reset = false) (hb : ifc.bus = .request false e) :
    r.always (dutPorts P ifc) = ⟨loadMem r.mem (e.1.setWidth P.AWIDTH), r.mem⟩ := by
  rw [BlkRam.always_of_read hr (by simp [dutPorts, hb, BusCycle.request])
    (by simp [dutPorts, hb, BusCycle.request])]
  simp [dutPorts, hb, BusCycle.request]

lemma reading_tick {sched : ℕ → EdgeOrder} {t : ℕ} {e : BitVec A × BitVec D}
    {m : RamWords P} {tb : Testbench D A P} (ht : tb.edges = t + 1)
    (hr : tb.vip.msRamIf.reset = false)
    (hb : tb.vip.msRamIf.bus = .request false e) (hm : tb.mem = m) :
    Reading sched t e m (tb.tick sched) where
  inSlot := ht ▸ inSlot_tick sched tb
  reset := hr
  bus := hb
  committed := by
    subst hm
    cases ho : sched tb.edges <;> simp [Testbench.committed, tick, ho, settle, mem,
      always_of_request_read hr hb]
  rData := by
    subst hm
    intro r hslot
    cases ho : sched tb.edges with
    | driverFirst => simp [tick, ho] at hslot
    | ramFirst =>
        simp only [tick, ho, Slot.sampled.injEq, always_of_request_read hr hb] at hslot
        rw [← hslot]
        rfl

/-- The datum visible after the next edge, when `f` has been driven over `e` in this slot: the RAM
sampled `e` if it went first, and `f` otherwise. -/
lemma Reading.datao_tick {sched : ℕ → EdgeOrder} {t : ℕ} {e f : BitVec A × BitVec D}
    {m : RamWords P} {tb : Testbench D A P} (h : Reading sched t e m tb) :
    ((tb.assign (drive (.request false f))).tick sched).vip.msRamIf.bramDatao
      = loadElem m (if sched (t + 1) = .driverFirst then f else e) := by
  have hw := h.inSlot.waiting
  have hc := h.committed
  rw [assign_drive]
  simp only [tick, settle, settledRam, Testbench.committed, BlkRam.datao] at hc ⊢
  cases hs : tb.slot with
  | sampled r =>
      rw [hs] at hw
      simp only [← hw, reduceCtorEq, if_false]
      exact h.rData r hs
  | waiting =>
      rw [hs] at hc
      simp only [hw.mp hs, if_true]
      have hr : (drive (.request false f) tb.vip).msRamIf.reset = false := h.reset
      rw [always_of_request_read hr rfl, ← hc]
      rfl

lemma Reading.mem_drive {sched : ℕ → EdgeOrder} {t : ℕ} {e : BitVec A × BitVec D}
    {m : RamWords P} {tb : Testbench D A P} (h : Reading sched t e m tb)
    (f : BitVec A × BitVec D) : (tb.assign (drive (.request false f))).mem = m := by
  rw [mem_of_read (e := f) (by simpa [drive] using h.reset) (by simp [drive]), ← h.committed]
  simp [Testbench.committed]

/-- **The two loops together.**  From the slot in which the first element of the rest is about to
replace `e` on the bus, they capture the contents of `capturedElems` and leave the array alone. -/
theorem simulate_readLoops (sched : ℕ → EdgeOrder) (it : SequenceItem D A)
    (mm : RamWords P) :
    ∀ (m i t : ℕ) (e : BitVec A × BitVec D) (tb : Testbench D A P),
      Reading sched t e mm tb →
      (∃ t' e', Reading sched t' e' mm (simulate sched (readLoops it i m) tb)) ∧
      (simulate sched (readLoops it i m) tb).vip.reqItem
        = tb.vip.reqItem.pushDatao
            ((capturedElems sched t (e :: it.elementsFrom i m)).map (readBits mm))
  | 0, i, t, e, tb, h => by
      have hbus : drive (.request false e) tb.vip = tb.vip := by
        simp [drive, ← h.bus]
      have hdatao := h.datao_tick (f := e)
      have hmem := h.mem_drive e
      rw [assign_drive, hbus] at hdatao hmem
      rw [ite_self] at hdatao
      rw [simulate_readLoops_zero, assign_captureDatao]
      refine ⟨⟨t + 1, e, ?_⟩, ?_⟩
      · have h₁ : Reading sched (t + 1) e mm (tb.tick sched) :=
          reading_tick h.inSlot.edges h.reset h.bus hmem
        exact ⟨⟨h₁.inSlot.edges, h₁.inSlot.waiting⟩, h₁.reset, h₁.bus, h₁.committed, h₁.rData⟩
      · simp only [captureDatao, hdatao, capturedElems, SequenceItem.elementsFrom_zero,
          List.map_cons, List.map_nil, readBits]
        rfl
  | m + 1, i, t, e, tb, h => by
      have hdatao := h.datao_tick (f := it.element i)
      have hmem := h.mem_drive (it.element i)
      rw [simulate_readLoops_succ, assign_captureDatao]
      rw [assign_drive] at hdatao hmem ⊢
      set tb₁ : Testbench D A P :=
        { tb with vip := drive (.request false (it.element i)) tb.vip } with htb₁
      have hread : Reading sched (t + 1) (it.element i) mm
          { tb₁.tick sched with vip := captureDatao (tb₁.tick sched).vip } := by
        have h₁ : Reading sched (t + 1) (it.element i) mm (tb₁.tick sched) :=
          reading_tick h.inSlot.edges h.reset rfl hmem
        exact ⟨⟨h₁.inSlot.edges, h₁.inSlot.waiting⟩, h₁.reset, h₁.bus, h₁.committed, h₁.rData⟩
      obtain ⟨hend, hcap⟩ := simulate_readLoops sched it mm m (i + 1) (t + 1) (it.element i) _ hread
      refine ⟨hend, ?_⟩
      have hpush : (captureDatao (tb₁.tick sched).vip).reqItem = tb.vip.reqItem.pushDatao
          [readBits mm (if sched (t + 1) = .driverFirst then it.element i else e)] := by
        simp only [captureDatao, hdatao, readBits]
        rfl
      rw [hcap, hpush, SequenceItem.pushDatao_pushDatao, SequenceItem.elementsFrom_succ]
      rfl

end SinglePortRam
