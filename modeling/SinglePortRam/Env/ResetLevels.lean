import SinglePortRam.Env.DriverRun
import SinglePortRam.Vip.Sequences

/-!
# The driver under reset

While `reset` is high the RAM takes no writes, and its output register is cleared at every edge and
at the moment `reset` rises.  The driver does not look at `reset`: it goes on as if nothing had
happened.

Here `reset` has a level in every time slot, `rst k` in the one that begins with the `k`-th edge,
and the RAM samples before the driver's assignments.

* `keptElems`, `readElems` — what remains of the elements of a `WRITE`, and of the data of a `READ`.
* **`run_transfer`** — one item under any levels.
* `run_masterLoop` — the master loop under any levels.
-/

namespace SinglePortRam

open FourState Clocked Proc VipState Testbench

variable {D A : ℕ} {P : RamParams} {rst : ℕ → Bool}

/-! ## What remains -/

variable {α : Type*}

/-- The elements of a list that fall on an edge at which `reset` is low, the first of them on the
edge `t`. -/
def keptElems (rst : ℕ → Bool) (t : ℕ) (es : List α) : List α :=
  ((es.zipIdx t).filter fun x => !rst x.2).map Prod.fst

/-- The datum sampled at the edge `e` is lost: `reset` is high at that edge, or rises right after
it. -/
def lostRead (rst : ℕ → Bool) (e : ℕ) : Bool := rst e || rst (e + 1)

/-- The data captured for a list of elements, the first of which is sampled at the edge `t`. -/
def readElems (rst : ℕ → Bool) (m : RamWords P) (t : ℕ) (es : List (BitVec A × BitVec D)) :
    List (BitVec D) :=
  (es.zipIdx t).map fun x => if lostRead rst x.2 then 0#D else readBits m x.1

lemma keptElems_cons (t : ℕ) (e : α) (es : List α) :
    keptElems rst t (e :: es) = (if rst t then [] else [e]) ++ keptElems rst (t + 1) es := by
  cases h : rst t <;> simp [keptElems, List.zipIdx_cons, h]

@[simp] lemma readElems_nil (m : RamWords P) (t : ℕ) :
    readElems rst m t ([] : List (BitVec A × BitVec D)) = [] := rfl

lemma readElems_cons (m : RamWords P) (t : ℕ) (e : BitVec A × BitVec D)
    (es : List (BitVec A × BitVec D)) :
    readElems rst m t (e :: es)
      = (if lostRead rst t then 0#D else readBits m e) :: readElems rst m (t + 1) es := by
  simp [readElems, List.zipIdx_cons]

/-- The array after an item that starts in slot `t`. -/
def memUnder (rst : ℕ → Bool) (t : ℕ) (m : RamWords P) (it : SequenceItem D A) : RamWords P :=
  match it.transType with
  | .WRITE => storeElems m (keptElems rst (t + 1) it.elements)
  | .READ => m

/-- The data such an item brings back. -/
def dataUnder (rst : ℕ → Bool) (t : ℕ) (m : RamWords P) (it : SequenceItem D A) : List (BitVec D) :=
  match it.transType with
  | .WRITE => []
  | .READ => readElems rst m (t + 1) it.elements

/-! ## One slot -/

/-- The clock of the testbench when `reset` has the level `rst k` in slot `k`. -/
def levelClock (rst : ℕ → Bool) : Clock (VipState D A) (Testbench D A P) where
  assign := Testbench.assign
  tick tb := (tb.tick ramAlwaysFirst).assign (setReset (rst (tb.edges + 1)))

/-- In a slot in which `reset` has its level, with the registers `r` at the end of the slot. -/
structure AtLevel (rst : ℕ → Bool) (r : BlkRam P) (tb : Testbench D A P) : Prop where
  reset : tb.vip.msRamIf.reset = rst tb.edges
  slot : tb.slot = .sampled r

/-- The registers after the next edge. -/
def nextRam (rst : ℕ → Bool) (r : BlkRam P) (tb : Testbench D A P) : BlkRam P :=
  if rst (tb.edges + 1) then ⟨LogicVec.ofBits 0#_, (r.always (dutPorts P tb.vip.msRamIf)).mem⟩
  else r.always (dutPorts P tb.vip.msRamIf)

lemma AtLevel.settledRam {r : BlkRam P} {tb : Testbench D A P} (h : AtLevel rst r tb) :
    tb.settledRam = r := by
  rw [Testbench.settledRam, h.slot]

lemma AtLevel.mem {r : BlkRam P} {tb : Testbench D A P} (h : AtLevel rst r tb) :
    tb.mem = r.mem :=
  congrArg BlkRam.mem h.settledRam

/-- Any change of `reset`, and what it does to the registers in the slot. -/
lemma assign_setReset_of_sampled {b : Bool} {r : BlkRam P} {tb : Testbench D A P}
    (h : tb.slot = .sampled r) :
    (tb.assign (setReset b)).slot
      = .sampled (if !tb.vip.msRamIf.reset && b then ⟨LogicVec.ofBits 0#_, r.mem⟩ else r) := by
  cases b with
  | false => simp [Testbench.assign, setReset, h]
  | true =>
      cases hr : tb.vip.msRamIf.reset with
      | true => simp [Testbench.assign, setReset, h, hr]
      | false =>
          have hrst : (dutPorts P (setReset true tb.vip).msRamIf).rst = true := rfl
          have hrise : ((setReset true tb.vip).msRamIf).reset = true := rfl
          simp [Testbench.assign, h, hr, hrise, BlkRam.always_of_rst hrst]

lemma AtLevel.assign {r : BlkRam P} {tb : Testbench D A P} (h : AtLevel rst r tb)
    {f : VipState D A → VipState D A} (hf : (f tb.vip).msRamIf.reset = tb.vip.msRamIf.reset) :
    AtLevel rst r (tb.assign f) := by
  rw [assign_of_reset_eq hf]
  exact ⟨hf.trans h.reset, h.slot⟩

lemma AtLevel.tick {r : BlkRam P} {tb : Testbench D A P} (h : AtLevel rst r tb) :
    AtLevel rst (nextRam rst r tb) ((levelClock rst).tick tb) := by
  have hslot : (tb.tick ramAlwaysFirst).slot
      = .sampled (r.always (dutPorts P tb.vip.msRamIf)) := by
    simp [Testbench.tick, ramAlwaysFirst, h.settledRam]
  refine ⟨rfl, ?_⟩
  have hreset : (tb.tick ramAlwaysFirst).vip.msRamIf.reset = rst tb.edges := h.reset
  refine (assign_setReset_of_sampled hslot).trans ?_
  rw [hreset, nextRam]
  cases hnext : rst (tb.edges + 1) with
  | false => simp
  | true =>
      cases hnow : rst tb.edges with
      | false => simp
      | true =>
          have hrst : (dutPorts P tb.vip.msRamIf).rst = true := h.reset.trans hnow
          simp [BlkRam.always_of_rst hrst]

/-- A reset after the edge does not touch the array. -/
lemma mem_nextRam (r : BlkRam P) (tb : Testbench D A P) :
    (nextRam rst r tb).mem = (r.always (dutPorts P tb.vip.msRamIf)).mem := by
  rw [nextRam]
  split_ifs <;> rfl

lemma mem_nextRam_of_write {r : BlkRam P} {tb : Testbench D A P} {e : BitVec A × BitVec D}
    (h : AtLevel rst r tb) (hb : tb.vip.msRamIf.bus = .request true e) :
    (nextRam rst r tb).mem = if rst tb.edges then r.mem else storeElem r.mem e := by
  rw [mem_nextRam]
  cases hr : rst tb.edges with
  | true => rw [BlkRam.always_of_rst (h.reset.trans hr)]; rfl
  | false =>
      rw [BlkRam.always_of_write (h.reset.trans hr) (by simp [dutPorts, hb, BusCycle.request])
        (by simp [dutPorts, hb, BusCycle.request])]
      simp [storeElem, dutPorts, hb, BusCycle.request]

lemma mem_nextRam_of_wen {r : BlkRam P} {tb : Testbench D A P}
    (hw : tb.vip.msRamIf.bus.bramWen = false) : (nextRam rst r tb).mem = r.mem := by
  rw [mem_nextRam, BlkRam.always]
  split_ifs <;> first | rfl | simp_all [dutPorts]

/-- What the driver captures at the edge after the next one, when a read is on the bus. -/
lemma datao_nextRam_of_read {r : BlkRam P} {tb : Testbench D A P} {e : BitVec A × BitVec D}
    (h : AtLevel rst r tb) (hb : tb.vip.msRamIf.bus = .request false e) :
    ((nextRam rst r tb).datao.resize D).toBits
      = if lostRead rst tb.edges then 0#D else readBits r.mem e := by
  have hzero (m : RamWords P) :
      (((BlkRam.mk (LogicVec.ofBits 0#P.DWIDTH) m).datao.resize D).toBits) = 0#D := by
    simp [BlkRam.datao]
  rw [nextRam, lostRead]
  cases hnext : rst (tb.edges + 1) with
  | true =>
      rw [Bool.or_true, if_pos rfl, if_pos rfl]
      exact hzero _
  | false =>
      rw [Bool.or_false, if_neg Bool.false_ne_true]
      cases hnow : rst tb.edges with
      | true =>
          have hrst : (dutPorts P tb.vip.msRamIf).rst = true := h.reset.trans hnow
          rw [BlkRam.always_of_rst hrst, if_pos rfl]
          exact hzero _
      | false =>
          rw [always_of_request_read (h.reset.trans hnow) hb, if_neg Bool.false_ne_true]
          rfl

/-! ## The loops of a burst -/

theorem run_requestLoop_write (it : SequenceItem D A) :
    ∀ (m i : ℕ) (r : BlkRam P) (tb : Testbench D A P), AtLevel rst r tb →
      ∃ r', AtLevel rst r' ((levelClock rst).run (requestLoop it true i m) tb) ∧
        r'.mem = storeElems r.mem (keptElems rst tb.edges (it.elementsFrom i m))
  | 0, i, r, tb, h => ⟨r, h, rfl⟩
  | m + 1, i, r, tb, h => by
      set tb₁ := tb.assign (drive (.request true (it.element i))) with htb₁
      have h₁ : AtLevel rst r tb₁ := h.assign rfl
      have hb₁ : tb₁.vip.msRamIf.bus = .request true (it.element i) := rfl
      obtain ⟨r', hr', hmem⟩ := run_requestLoop_write it m (i + 1) _ _ h₁.tick
      refine ⟨r', hr', ?_⟩
      rw [hmem, mem_nextRam_of_write h₁ hb₁, SequenceItem.elementsFrom_succ, keptElems_cons,
        storeElems_append]
      have hedges : ((levelClock rst).tick tb₁).edges = tb.edges + 1 := rfl
      rw [hedges]
      have hedges₁ : tb₁.edges = tb.edges := rfl
      rw [hedges₁]
      cases rst tb.edges <;> rfl

/-- One round of the loops of a `READ`. -/
lemma run_readLoops_succ (it : SequenceItem D A) (i m : ℕ) (tb : Testbench D A P) :
    (levelClock rst).run (readLoops it i (m + 1)) tb
      = (levelClock rst).run (readLoops it (i + 1) m)
          (((levelClock rst).tick (tb.assign (drive (.request false (it.element i))))).assign
            captureDatao) := by
  have hcomm (g : VipState D A → VipState D A) (hg : IsDrive g) (tb : Testbench D A P) :
      (levelClock rst).assign captureDatao ((levelClock rst).assign g tb)
        = (levelClock rst).assign g ((levelClock rst).assign captureDatao tb) :=
    assign_captureDatao_drive hg tb
  rw [readLoops, requestLoop_succ, captureLoop_succ, fork_step, fork_wait_wait, Clock.run_step,
    Clock.run_wait, Clock.run_fork_step_right hcomm (all_isDrive_requestLoop it false (i + 1) m)]
  rfl

/-- At an edge the data output of the slot before is pushed. -/
lemma AtLevel.capture {r : BlkRam P} {tb : Testbench D A P} (h : AtLevel rst r tb) :
    AtLevel rst (nextRam rst r tb) (((levelClock rst).tick tb).assign captureDatao) ∧
    (((levelClock rst).tick tb).assign captureDatao).vip.reqItem
      = tb.vip.reqItem.pushDatao [(r.datao.resize D).toBits] := by
  refine ⟨h.tick.assign rfl, ?_⟩
  have hvisible : ((levelClock rst).tick tb).vip.msRamIf.bramDatao
      = tb.settledRam.datao.resize D := rfl
  rw [assign_captureDatao, captureDatao, hvisible, h.settledRam]
  rfl

/-- Between two items, or in a `READ`: nothing is written. -/
structure Unwritten (rst : ℕ → Bool) (r : BlkRam P) (tb : Testbench D A P) : Prop
    extends AtLevel rst r tb where
  wen : tb.vip.msRamIf.bus.bramWen = false

lemma Unwritten.tick {r : BlkRam P} {tb : Testbench D A P} (h : Unwritten rst r tb) :
    Unwritten rst (nextRam rst r tb) ((levelClock rst).tick tb) ∧
      (nextRam rst r tb).mem = r.mem :=
  ⟨⟨h.toAtLevel.tick, h.wen⟩, mem_nextRam_of_wen h.wen⟩

/-- The loops of a `READ`, from the slot in which the first element of the rest is about to be
driven: they push the data output of that slot, and then the data of the rest. -/
theorem run_readLoops (it : SequenceItem D A) :
    ∀ (m i : ℕ) (r : BlkRam P) (tb : Testbench D A P), Unwritten rst r tb →
      (∃ r', AtLevel rst r' ((levelClock rst).run (readLoops it i m) tb) ∧ r'.mem = r.mem) ∧
      ((levelClock rst).run (readLoops it i m) tb).vip.reqItem
        = tb.vip.reqItem.pushDatao
            ((r.datao.resize D).toBits :: readElems rst r.mem tb.edges (it.elementsFrom i m))
  | 0, i, r, tb, h => by
      obtain ⟨hnext, hreq⟩ := h.capture
      exact ⟨⟨_, hnext, mem_nextRam_of_wen h.wen⟩, hreq⟩
  | m + 1, i, r, tb, h => by
      set tb₁ := tb.assign (drive (.request false (it.element i))) with htb₁
      have h₁ : AtLevel rst r tb₁ := h.assign rfl
      have hb₁ : tb₁.vip.msRamIf.bus = .request false (it.element i) := rfl
      have hmem : (nextRam rst r tb₁).mem = r.mem := mem_nextRam_of_wen (by rw [hb₁]; rfl)
      have hdatao := datao_nextRam_of_read h₁ hb₁
      obtain ⟨hnext, hreq⟩ := h₁.capture
      obtain ⟨⟨r', hr', hmem'⟩, hrest⟩ := run_readLoops it m (i + 1) _ _ ⟨hnext, rfl⟩
      rw [run_readLoops_succ]
      refine ⟨⟨r', hr', hmem'.trans hmem⟩, ?_⟩
      rw [hrest, hreq, hdatao, hmem, SequenceItem.pushDatao_pushDatao,
        SequenceItem.elementsFrom_succ, readElems_cons]
      rfl

/-! ## One transfer -/

lemma AtLevel.idle {r : BlkRam P} {tb : Testbench D A P} (h : AtLevel rst r tb) :
    Unwritten rst r (tb.assign (drive (.idle D A))) :=
  ⟨h.assign rfl, rfl⟩

lemma reqItem_run_requestLoop (it : SequenceItem D A) (wen : Bool) (i m : ℕ)
    (tb : Testbench D A P) :
    ((levelClock rst).run (requestLoop it wen i m) tb).vip.reqItem = tb.vip.reqItem := by
  refine Clock.run_invariant (levelClock rst) (P := IsDrive)
    (I := fun tb' : Testbench D A P => tb'.vip.reqItem = tb.vip.reqItem) ?_ (fun _ h => h)
    (all_isDrive_requestLoop it wen i m) rfl
  rintro f ⟨c, rfl⟩ s h
  exact h

theorem run_transfer_write {it : SequenceItem D A} (hit : it.transType = .WRITE) {r : BlkRam P}
    {tb : Testbench D A P} (h : Unwritten rst r tb) :
    (∃ r', Unwritten rst r' ((levelClock rst).run (transfer it) tb) ∧
      r'.mem = storeElems r.mem (keptElems rst (tb.edges + 1) it.elements)) ∧
    ((levelClock rst).run (transfer it) tb).vip.reqItem = tb.vip.reqItem := by
  set loop := requestLoop it true 0 it.transLength.toNat with hloop
  have hrun : (levelClock rst).run (transfer it) tb
      = ((levelClock rst).run loop ((levelClock rst).tick tb)).assign (drive (.idle D A)) := by
    simp [transfer, hit, levelClock, hloop]
  obtain ⟨hnext, hmem⟩ := h.tick
  obtain ⟨r', hr', hmem'⟩ := run_requestLoop_write it it.transLength.toNat 0 _ _ hnext.toAtLevel
  rw [hrun]
  refine ⟨⟨r', hr'.idle, ?_⟩, ?_⟩
  · rw [hmem', hmem]
    rfl
  · rw [assign_drive]
    exact reqItem_run_requestLoop it true 0 _ _

theorem run_transfer_read {it : SequenceItem D A} (hit : it.transType = .READ) {r : BlkRam P}
    {tb : Testbench D A P} (h : Unwritten rst r tb) :
    (∃ r', Unwritten rst r' ((levelClock rst).run (transfer it) tb) ∧ r'.mem = r.mem) ∧
    ((levelClock rst).run (transfer it) tb).vip.reqItem
      = tb.vip.reqItem.pushDatao (readElems rst r.mem (tb.edges + 1) it.elements) := by
  obtain ⟨hnext, hmem⟩ := h.tick
  cases hn : it.transLength.toNat with
  | zero =>
      have hrun : (levelClock rst).run (transfer it) tb
          = ((levelClock rst).tick ((levelClock rst).tick tb)).assign (drive (.idle D A)) := by
        simp [transfer, hit, levelClock, hn]
      obtain ⟨hnext', hmem'⟩ := hnext.tick
      rw [hrun]
      refine ⟨⟨_, hnext'.toAtLevel.idle, hmem'.trans hmem⟩, ?_⟩
      have helems : it.elements = [] := by simp [SequenceItem.elements, hn]
      rw [helems, readElems_nil, SequenceItem.pushDatao_nil]
      rfl
  | succ m =>
      set tb₁ := ((levelClock rst).tick tb).assign (drive (.request false (it.element 0))) with htb₁
      have hrun : (levelClock rst).run (transfer it) tb
          = ((levelClock rst).run (readLoops it 1 m) ((levelClock rst).tick tb₁)).assign
              (drive (.idle D A)) := by
        simp [transfer, hit, levelClock, hn, requestLoop_succ, captureLoop_succ, readLoops, htb₁]
      have h₁ : Unwritten rst (nextRam rst r tb) tb₁ := ⟨hnext.toAtLevel.assign rfl, rfl⟩
      have hdatao := datao_nextRam_of_read h₁.toAtLevel
        (rfl : tb₁.vip.msRamIf.bus = .request false (it.element 0))
      obtain ⟨h₂, hmem₂⟩ := h₁.tick
      obtain ⟨⟨r', hr', hmem'⟩, hreq⟩ := run_readLoops it m 1 _ _ h₂
      rw [hrun]
      refine ⟨⟨r', hr'.idle, hmem'.trans (hmem₂.trans hmem)⟩, ?_⟩
      rw [assign_drive]
      refine hreq.trans ?_
      have helems : it.elements = it.element 0 :: it.elementsFrom 1 m := by
        rw [SequenceItem.elements, hn, SequenceItem.elementsFrom_succ]
      rw [hdatao, hmem₂, hmem, helems, readElems_cons]
      rfl

/-- **One transfer, for any levels of `reset`**: what becomes of the array and of the item. -/
theorem run_transfer (it : SequenceItem D A) {r : BlkRam P} {tb : Testbench D A P}
    (h : Unwritten rst r tb) :
    (∃ r', Unwritten rst r' ((levelClock rst).run (transfer it) tb) ∧
      r'.mem = memUnder rst tb.edges r.mem it) ∧
    ((levelClock rst).run (transfer it) tb).vip.reqItem
      = tb.vip.reqItem.pushDatao (dataUnder rst tb.edges r.mem it) := by
  rw [memUnder, dataUnder]
  cases hit : it.transType with
  | WRITE =>
      simp only [SequenceItem.pushDatao_nil]
      exact run_transfer_write hit h
  | READ => exact run_transfer_read hit h

/-! ## The master loop -/

/-- The edge counter advances by the edges the process waits for. -/
theorem edges_run (p : Proc (VipState D A)) (tb : Testbench D A P) :
    ((levelClock rst).run p tb).edges = tb.edges + p.edges := by
  induction p generalizing tb with
  | halt => rfl
  | step f p ih => exact ih _
  | wait p ih =>
      rw [Clock.run_wait, ih, edges_wait]
      show tb.edges + 1 + p.edges = _
      omega

lemma Unwritten.assign {r : BlkRam P} {tb : Testbench D A P} (h : Unwritten rst r tb)
    {f : VipState D A → VipState D A} (hf : (f tb.vip).msRamIf = tb.vip.msRamIf) :
    Unwritten rst r (tb.assign f) := by
  refine ⟨h.toAtLevel.assign (by rw [hf]), ?_⟩
  show (f tb.vip).msRamIf.bus.bramWen = false
  rw [hf]
  exact h.wen

lemma run_idleCycles (n : ℕ) {r : BlkRam P} {tb : Testbench D A P} (h : Unwritten rst r tb) :
    ∃ r', Unwritten rst r' ((levelClock rst).run (idleCycles n) tb) ∧ r'.mem = r.mem := by
  refine run_idleCycles_invariant (levelClock rst)
    (I := fun tb' : Testbench D A P => ∃ r', Unwritten rst r' tb' ∧ r'.mem = r.mem) ?_ n ⟨r, h, rfl⟩
  rintro s ⟨r', hr', hmem⟩
  obtain ⟨hnext, hmem'⟩ := hr'.tick
  exact ⟨_, hnext, hmem'.trans hmem⟩

/-- `send_to_if` for an item just taken. -/
lemma run_sendToIf (it : SequenceItem D A) {r : BlkRam P} {tb : Testbench D A P}
    (h : Unwritten rst r tb) :
    (∃ r', Unwritten rst r'
        ((levelClock rst).run (Proc.assign (getNextItem it) ++ sendToIf it) tb) ∧
      r'.mem = memUnder rst tb.edges r.mem it) ∧
    ((levelClock rst).run (Proc.assign (getNextItem it) ++ sendToIf it) tb).vip.reqItem
      = it.pushDatao (dataUnder rst tb.edges r.mem it) := by
  set tb₁ := tb.assign (getNextItem it) with htb₁
  have h₁ : Unwritten rst r tb₁ := h.assign rfl
  obtain ⟨⟨r', hr', hmem⟩, hreq⟩ := run_transfer it h₁
  have hrun : (levelClock rst).run (Proc.assign (getNextItem it) ++ sendToIf it) tb
      = ((levelClock rst).run (transfer it) tb₁).assign copyResponse := by
    simp only [sendToIf, Clock.run_append, Clock.run_assign]
    rfl
  rw [hrun]
  exact ⟨⟨r', hr'.assign rfl, hmem⟩, hreq⟩

lemma run_driverIteration (it : SequenceItem D A) {r : BlkRam P} {tb : Testbench D A P}
    (h : Unwritten rst r tb) :
    ∃ r', Unwritten rst r' ((levelClock rst).run (driverIteration it) tb) ∧
      r'.mem = memUnder rst tb.edges r.mem it := by
  obtain ⟨⟨r', hr', hmem⟩, -⟩ := run_sendToIf it h
  have hrun : (levelClock rst).run (driverIteration it) tb
      = ((((levelClock rst).run (Proc.assign (getNextItem it) ++ sendToIf it) tb).assign
          itemDone).assign setIdInfo).assign putResponse := by
    simp only [driverIteration, Clock.run_append, Clock.run_assign]
    rfl
  rw [hrun]
  refine ⟨r', ?_, hmem⟩
  exact ((hr'.assign rfl).assign rfl).assign rfl

/-- The array after a list of items, the first of which can start in slot `t`. -/
def memUnderAll (rst : ℕ → Bool) :
    ℕ → RamWords P → List (ℕ × SequenceItem D A) → RamWords P
  | _, m, [] => m
  | t, m, (gap, it) :: rest =>
      memUnderAll rst (t + gap + (sendToIf it).edges) (memUnder rst (t + gap) m it) rest

/-- **The master loop, for any levels of `reset`.** -/
theorem run_masterLoop :
    ∀ (items : List (ℕ × SequenceItem D A)) (r : BlkRam P) (tb : Testbench D A P),
      Unwritten rst r tb →
      ∃ r', Unwritten rst r' ((levelClock rst).run (masterLoop items) tb) ∧
        r'.mem = memUnderAll rst tb.edges r.mem items
  | [], r, tb, h => ⟨r, h, rfl⟩
  | (gap, it) :: rest, r, tb, h => by
      obtain ⟨r₁, h₁, hmem₁⟩ := run_idleCycles gap h
      obtain ⟨r₂, h₂, hmem₂⟩ := run_driverIteration it h₁
      obtain ⟨r₃, h₃, hmem₃⟩ := run_masterLoop rest r₂ _ h₂
      have hrun : (levelClock rst).run (masterLoop ((gap, it) :: rest)) tb
          = (levelClock rst).run (masterLoop rest) ((levelClock rst).run (driverIteration it)
              ((levelClock rst).run (idleCycles gap) tb)) := by
        simp only [masterLoop, Clock.run_append]
      have hedges : (driverIteration it).edges = (sendToIf it).edges := by
        simp [driverIteration]
      rw [hrun]
      refine ⟨r₃, h₃, ?_⟩
      rw [hmem₃, hmem₂, hmem₁, edges_run, edges_run, edges_idleCycles, hedges]
      rfl

/-- The driver up to the moment at which it calls `item_done` for the item `it`, which comes after
the items `pre`. -/
def untilItemDone (pre : List (ℕ × SequenceItem D A)) (gap : ℕ) (it : SequenceItem D A) :
    Proc (VipState D A) :=
  masterLoop pre ++ idleCycles gap ++ (Proc.assign (getNextItem it) ++ sendToIf it)

lemma masterLoop_eq_untilItemDone (pre post : List (ℕ × SequenceItem D A)) (gap : ℕ)
    (it : SequenceItem D A) :
    masterLoop (pre ++ (gap, it) :: post)
      = untilItemDone pre gap it ++ (Proc.assign itemDone ++ Proc.assign setIdInfo
          ++ Proc.assign putResponse ++ masterLoop post) := by
  simp only [masterLoop_append, masterLoop, untilItemDone, driverIteration, append_assoc]

lemma run_untilItemDone (pre : List (ℕ × SequenceItem D A)) (gap : ℕ) (it : SequenceItem D A)
    {r : BlkRam P} {tb : Testbench D A P} (h : Unwritten rst r tb) :
    ((levelClock rst).run (untilItemDone pre gap it) tb).mem
      = memUnder rst (tb.edges + (masterLoop pre).edges + gap) (memUnderAll rst tb.edges r.mem pre)
          it ∧
    ((levelClock rst).run (untilItemDone pre gap it) tb).vip.reqItem
      = it.pushDatao (dataUnder rst (tb.edges + (masterLoop pre).edges + gap)
          (memUnderAll rst tb.edges r.mem pre) it) := by
  obtain ⟨r₁, h₁, hmem₁⟩ := run_masterLoop pre r tb h
  obtain ⟨r₂, h₂, hmem₂⟩ := run_idleCycles gap h₁
  obtain ⟨⟨r₃, h₃, hmem₃⟩, hreq⟩ := run_sendToIf it h₂
  rw [edges_run, edges_run, edges_idleCycles, hmem₂, hmem₁] at hmem₃ hreq
  simp only [untilItemDone, Clock.run_append] at *
  exact ⟨h₃.mem.trans hmem₃, hreq⟩

end SinglePortRam
