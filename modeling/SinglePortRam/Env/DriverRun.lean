import SinglePortRam.Env.BurstRun

/-!
# Items one after the other

From one item on the bus to the master loop.  `simulate_driverIteration` says what serving one item
changes, for every schedule of the edges, and `simulate_masterLoop` what serving a list of items
with idle cycles in between does.  Both are stated with `memAfter` and `itemAfter`, the effect of
one item on the array and on its own `trans_datao`.
-/

namespace SinglePortRam

open FourState Clocked Proc VipState Testbench

variable {D A : ℕ} {P : RamParams}

/-- The array after an item that is taken at edge `t`. -/
def memAfter (sched : ℕ → EdgeOrder) (t : ℕ) (m : RamWords P) (it : SequenceItem D A) :
    RamWords P :=
  match it.transType with
  | .WRITE => storeElems m (storedElems sched t it.elements)
  | .READ => m

/-- The data a `READ` pushes into its `trans_datao`; a `WRITE` pushes none. -/
def captured (sched : ℕ → EdgeOrder) (t : ℕ) (m : RamWords P) (it : SequenceItem D A) :
    List (BitVec D) :=
  match it.transType with
  | .WRITE => []
  | .READ => (capturedElems sched t it.elements).map (readBits m)

/-- The item as the driver leaves it. -/
def itemAfter (sched : ℕ → EdgeOrder) (t : ℕ) (m : RamWords P) (it : SequenceItem D A) :
    SequenceItem D A :=
  it.pushDatao (captured sched t m it)

lemma itemAfter_sequenceId (sched : ℕ → EdgeOrder) (t : ℕ) (m : RamWords P)
    (it : SequenceItem D A) :
    (itemAfter sched t m it).sequenceId = it.sequenceId := rfl

lemma itemAfter_of_write (sched : ℕ → EdgeOrder) (t : ℕ) (m : RamWords P) {it : SequenceItem D A}
    (h : it.transType = .WRITE) : itemAfter sched t m it = it := by
  simp [itemAfter, captured, h]

/-! ## What a transfer leaves alone -/

/-- Agreement on everything a transfer does not touch. -/
structure SameBooks (s s' : VipState D A) : Prop where
  rspItem : s'.rspItem = s.rspItem
  regSequences : s'.regSequences = s.regSequences
  served : s'.served = s.served
  readBack : s'.readBack = s.readBack
  reset : s'.msRamIf.reset = s.msRamIf.reset

/-- The assignments made during a transfer. -/
def TransferAssign (f : VipState D A → VipState D A) : Prop :=
  (∃ c, f = drive c) ∨ f = captureDatao

lemma all_requestLoop (it : SequenceItem D A) (wen : Bool) (i m : ℕ) :
    (requestLoop it wen i m).All TransferAssign :=
  All_forFrom (fun _ => All_append.mpr ⟨All_assign.mpr (Or.inl ⟨_, rfl⟩), All_posedge⟩) i m

lemma all_captureLoop (j m : ℕ) :
    (captureLoop (D := D) (A := A) j m).All TransferAssign :=
  All_forFrom (fun _ => All_append.mpr ⟨All_posedge, All_assign.mpr (Or.inr rfl)⟩) j m

lemma all_transfer (it : SequenceItem D A) : (transfer it).All TransferAssign := by
  have hidle : TransferAssign (drive (.idle D A)) := Or.inl ⟨_, rfl⟩
  rw [transfer]
  cases it.transType with
  | READ =>
      simp only [All_append, All_assign, All_posedge, true_and]
      exact ⟨All_fork (all_requestLoop it false 0 _) (all_captureLoop 0 _), hidle⟩
  | WRITE =>
      simp only [All_append, All_assign, All_posedge, true_and]
      exact ⟨all_requestLoop it true 0 _, hidle⟩

/-- Whatever the schedule, a transfer, or a part of one, leaves the books alone. -/
theorem sameBooks_simulate (sched : ℕ → EdgeOrder) {p : Proc (VipState D A)}
    (hp : p.All TransferAssign) (tb : Testbench D A P) :
    SameBooks tb.vip (simulate sched p tb).vip := by
  refine Clock.run_invariant (clock sched) (P := TransferAssign)
    (I := fun tb' : Testbench D A P => SameBooks tb.vip tb'.vip) ?_ ?_ hp ⟨rfl, rfl, rfl, rfl, rfl⟩
  · rintro f (⟨c, rfl⟩ | rfl) s h
    · exact ⟨h.rspItem, h.regSequences, h.served, h.readBack, h.reset⟩
    · exact ⟨h.rspItem, h.regSequences, h.served, h.readBack, h.reset⟩
  · exact fun s h => ⟨h.rspItem, h.regSequences, h.served, h.readBack, h.reset⟩

/-- The edge counter advances by the edges the process waits for. -/
theorem edges_simulate (sched : ℕ → EdgeOrder) (p : Proc (VipState D A))
    (tb : Testbench D A P) : (simulate sched p tb).edges = tb.edges + p.edges := by
  rw [simulate]
  induction p generalizing tb with
  | halt => rfl
  | step f p ih => exact ih _
  | wait p ih =>
      rw [Clock.run_wait, ih, edges_wait]
      show tb.edges + 1 + p.edges = _
      omega

/-! ## One transfer -/

lemma quiet_assign_idle {tb : Testbench D A P} (h : tb.vip.msRamIf.reset = false) :
    (tb.assign (drive (.idle D A))).Quiet :=
  ⟨by simpa [drive] using h, by simp [drive, BusCycle.idle]⟩

lemma mem_assign_idle {tb : Testbench D A P} (h : tb.vip.msRamIf.reset = false) :
    (tb.assign (drive (.idle D A))).mem = tb.committed := by
  rw [(quiet_assign_idle h).mem_eq, assign_drive]
  rfl

theorem simulate_transfer_write (sched : ℕ → EdgeOrder) {it : SequenceItem D A}
    (hit : it.transType = .WRITE) {tb : Testbench D A P} (hq : tb.Quiet) :
    (simulate sched (transfer it) tb).Quiet ∧
    (simulate sched (transfer it) tb).mem
      = storeElems tb.mem (storedElems sched tb.edges it.elements) ∧
    (simulate sched (transfer it) tb).vip.reqItem = tb.vip.reqItem := by
  set loop := requestLoop it true 0 it.transLength.toNat with hloop
  have hrun : simulate sched (transfer it) tb
      = (simulate sched loop (tb.tick sched)).assign (drive (.idle D A)) := by
    simp [simulate, transfer, hit, clock, hloop]
  have hreset : (simulate sched loop (tb.tick sched)).vip.msRamIf.reset = false := by
    rw [(sameBooks_simulate sched (all_requestLoop it true 0 _) _).reset]
    exact hq.reset
  have hreq : (simulate sched loop (tb.tick sched)).vip.reqItem = tb.vip.reqItem := by
    refine Clock.run_invariant (clock sched) (P := fun f => ∃ c, f = drive c)
      (I := fun tb' : Testbench D A P => tb'.vip.reqItem = tb.vip.reqItem) ?_ (fun _ h => h)
      (All_forFrom (fun _ => All_append.mpr ⟨All_assign.mpr ⟨_, rfl⟩, All_posedge⟩) _ _) rfl
    rintro f ⟨c, rfl⟩ s h
    exact h
  obtain ⟨-, hcom⟩ := simulate_requestLoop_write sched it it.transLength.toNat 0 tb.edges
    (tb.tick sched) (inSlot_tick sched tb) hq.reset
  rw [hrun]
  refine ⟨quiet_assign_idle hreset, ?_, by rw [assign_drive]; exact hreq⟩
  rw [mem_assign_idle hreset, hcom, hq.committed_tick]
  rfl

theorem simulate_transfer_read (sched : ℕ → EdgeOrder) {it : SequenceItem D A}
    (hit : it.transType = .READ) {tb : Testbench D A P} (hq : tb.Quiet) :
    (simulate sched (transfer it) tb).Quiet ∧
    (simulate sched (transfer it) tb).mem = tb.mem ∧
    (simulate sched (transfer it) tb).vip.reqItem
      = tb.vip.reqItem.pushDatao
          ((capturedElems sched tb.edges it.elements).map (readBits tb.mem)) := by
  cases hn : it.transLength.toNat with
  | zero =>
      have hrun : simulate sched (transfer it) tb
          = ((tb.tick sched).tick sched).assign (drive (.idle D A)) := by
        simp [simulate, transfer, hit, clock, hn]
      have hq₁ : (tb.tick sched).Quiet := ⟨hq.reset, hq.bramEn⟩
      rw [hrun]
      refine ⟨quiet_assign_idle hq.reset, ?_, ?_⟩
      · have hr : ((tb.tick sched).tick sched).vip.msRamIf.reset = false := hq.reset
        rw [mem_assign_idle hr, hq₁.committed_tick, hq₁.mem_eq, hq.committed_tick]
      · simp [SequenceItem.elements, hn, capturedElems, tick, settle, drive]
  | succ m =>
      set tb₁ : Testbench D A P := { tb.tick sched with
        vip := drive (.request false (it.element 0)) (tb.tick sched).vip } with htb₁
      have hrun : simulate sched (transfer it) tb
          = (simulate sched (readLoops it 1 m) (tb₁.tick sched)).assign
              (drive (.idle D A)) := by
        simp [simulate, transfer, hit, clock, hn, requestLoop_succ, captureLoop_succ, readLoops,
          htb₁]
      have hmem : tb₁.mem = tb.mem := by
        have hr : tb₁.vip.msRamIf.reset = false := hq.reset
        have hb : tb₁.vip.msRamIf.bus = .request false (it.element 0) := rfl
        rw [mem_of_read hr hb, ← hq.committed_tick sched]
        rfl
      have hread : Reading sched tb.edges (it.element 0) tb.mem (tb₁.tick sched) :=
        reading_tick rfl hq.reset rfl hmem
      obtain ⟨⟨t', e', hend⟩, hcap⟩ :=
        simulate_readLoops sched it tb.mem m 1 tb.edges (it.element 0) _ hread
      rw [hrun]
      refine ⟨quiet_assign_idle hend.reset, ?_, ?_⟩
      · rw [mem_assign_idle hend.reset, hend.committed]
      · rw [assign_drive]
        simp only [drive, hcap, SequenceItem.elements, hn, SequenceItem.elementsFrom_succ]
        rfl

/-- **One transfer, for every schedule**: what becomes of the array and of the item. -/
theorem simulate_transfer (sched : ℕ → EdgeOrder) {it : SequenceItem D A}
    {tb : Testbench D A P} (hq : tb.Quiet) (hreq : tb.vip.reqItem = it) :
    (simulate sched (transfer it) tb).Quiet ∧
    (simulate sched (transfer it) tb).mem = memAfter sched tb.edges tb.mem it ∧
    (simulate sched (transfer it) tb).vip.reqItem = itemAfter sched tb.edges tb.mem it := by
  rw [memAfter, itemAfter, captured]
  cases hit : it.transType with
  | WRITE => simpa [hreq] using simulate_transfer_write sched hit hq
  | READ => simpa [hreq] using simulate_transfer_read sched hit hq

lemma quiet_init (ram : BlkRam P) : (init D A ram).Quiet := ⟨rfl, rfl⟩

@[simp] lemma mem_init (ram : BlkRam P) : (init D A ram).mem = ram.mem := rfl

/-! ## One iteration of the master loop -/

namespace Testbench

/-- The testbench with other variables of the master side. -/
def setVip (tb : Testbench D A P) (v : VipState D A) : Testbench D A P := { tb with vip := v }

@[simp] lemma setVip_vip (tb : Testbench D A P) (v : VipState D A) : (tb.setVip v).vip = v := rfl

@[simp] lemma setVip_edges (tb : Testbench D A P) (v : VipState D A) :
    (tb.setVip v).edges = tb.edges := rfl

lemma mem_setVip {tb : Testbench D A P} {v : VipState D A}
    (h : v.msRamIf = tb.vip.msRamIf) : (tb.setVip v).mem = tb.mem := by
  simp only [mem, settledRam, setVip, h]

lemma Quiet.setVip {tb : Testbench D A P} (hq : tb.Quiet) {v : VipState D A}
    (h : v.msRamIf = tb.vip.msRamIf) : (tb.setVip v).Quiet :=
  ⟨by simpa [h] using hq.reset, by simpa [h] using hq.bramEn⟩

/-- An assignment that does not touch the interface is invisible to the RAM. -/
lemma assign_eq_setVip (f : VipState D A → VipState D A)
    (h : ∀ s, (f s).msRamIf = s.msRamIf) (tb : Testbench D A P) :
    tb.assign f = tb.setVip (f tb.vip) :=
  assign_of_reset_eq (by rw [h])

end Testbench

/-- What happens between the end of a transfer and the next `get_next_item`. -/
def answer (s : VipState D A) : VipState D A :=
  putResponse (setIdInfo (itemDone (copyResponse s)))

lemma answer_eq (s : VipState D A) :
    answer s = { s with
      rspItem := s.reqItem
      served := s.served ++ [s.reqItem]
      regSequences := deliver s.reqItem.sequenceId s.regSequences } := rfl

lemma simulate_driverIteration_eq (sched : ℕ → EdgeOrder) (it : SequenceItem D A)
    (tb : Testbench D A P) :
    simulate sched (driverIteration it) tb
      = (simulate sched (transfer it) (tb.setVip (getNextItem it tb.vip))).setVip
          (answer (simulate sched (transfer it) (tb.setVip (getNextItem it tb.vip))).vip) := by
  have hget : (clock sched).assign (getNextItem it) tb = tb.setVip (getNextItem it tb.vip) :=
    assign_eq_setVip (getNextItem it) (fun _ => rfl) tb
  simp only [simulate, driverIteration, sendToIf, Clock.run_append, Clock.run_assign, hget]
  show Testbench.assign putResponse (Testbench.assign setIdInfo (Testbench.assign itemDone
    (Testbench.assign copyResponse _))) = _
  rw [assign_eq_setVip copyResponse fun _ => rfl, assign_eq_setVip itemDone fun _ => rfl,
    assign_eq_setVip setIdInfo fun _ => rfl, assign_eq_setVip putResponse fun _ => rfl]
  rfl

/-- What serving the item `it` makes of the state `tb`. -/
structure Serves (sched : ℕ → EdgeOrder) (it : SequenceItem D A) (tb tb' : Testbench D A P) :
    Prop where
  quiet : tb'.Quiet
  edges : tb'.edges = tb.edges + (sendToIf it).edges
  mem : tb'.mem = memAfter sched tb.edges tb.mem it
  rspItem : tb'.vip.rspItem = itemAfter sched tb.edges tb.mem it
  served : tb'.vip.served = tb.vip.served ++ [itemAfter sched tb.edges tb.mem it]
  regSequences : tb'.vip.regSequences = deliver it.sequenceId tb.vip.regSequences
  readBack : tb'.vip.readBack = tb.vip.readBack

/-- **Serving one item**, for every schedule. -/
theorem simulate_driverIteration (sched : ℕ → EdgeOrder) (it : SequenceItem D A)
    {tb : Testbench D A P} (hq : tb.Quiet) :
    Serves sched it tb (simulate sched (driverIteration it) tb) := by
  set tb₀ : Testbench D A P := tb.setVip (getNextItem it tb.vip) with htb₀
  set tb₁ := simulate sched (transfer it) tb₀ with htb₁
  have hres : tb₁.Quiet ∧ tb₁.mem = memAfter sched tb.edges tb.mem it ∧
      tb₁.vip.reqItem = itemAfter sched tb.edges tb.mem it := by
    have hmem₀ : tb₀.mem = tb.mem := mem_setVip rfl
    rw [← hmem₀]
    exact simulate_transfer sched (hq.setVip rfl : tb₀.Quiet) rfl
  obtain ⟨hquiet, hmem, hreq⟩ := hres
  have hbooks : SameBooks tb₀.vip tb₁.vip := sameBooks_simulate sched (all_transfer it) tb₀
  have hedges : tb₁.edges = tb.edges + (transfer it).edges := edges_simulate sched (transfer it) tb₀
  rw [simulate_driverIteration_eq, ← htb₀, ← htb₁, answer_eq, hreq]
  exact
    { quiet := hquiet.setVip rfl
      edges := by simpa [sendToIf] using hedges
      mem := (mem_setVip rfl).trans hmem
      rspItem := rfl
      served := by rw [setVip_vip, hbooks.served]; rfl
      regSequences := by rw [setVip_vip, hbooks.regSequences, itemAfter_sequenceId]; rfl
      readBack := hbooks.readBack }

/-! ## The master loop -/

theorem simulate_idleCycles (sched : ℕ → EdgeOrder) (n : ℕ) {tb : Testbench D A P}
    (hq : tb.Quiet) :
    (simulate sched (idleCycles n) tb).Quiet ∧
    (simulate sched (idleCycles n) tb).edges = tb.edges + n ∧
    (simulate sched (idleCycles n) tb).mem = tb.mem ∧
    SameBooks tb.vip (simulate sched (idleCycles n) tb).vip := by
  have hinv : (simulate sched (idleCycles n) tb).Quiet ∧
      (simulate sched (idleCycles n) tb).mem = tb.mem := by
    refine run_idleCycles_invariant (clock sched)
      (I := fun tb' : Testbench D A P => tb'.Quiet ∧ tb'.mem = tb.mem) ?_ n ⟨hq, rfl⟩
    rintro s ⟨hs, hm⟩
    have hs' : (s.tick sched).Quiet := ⟨hs.reset, hs.bramEn⟩
    have hm' : (s.tick sched).mem = tb.mem := by rw [hs'.mem_eq, hs.committed_tick, hm]
    exact ⟨hs', hm'⟩
  refine ⟨hinv.1, ?_, hinv.2, sameBooks_simulate sched (all_idleCycles _) tb⟩
  rw [edges_simulate, edges_idleCycles]

/-- The array after a list of items, the first of which can start at edge `t`. -/
def memAfterAll (sched : ℕ → EdgeOrder) :
    ℕ → RamWords P → List (ℕ × SequenceItem D A) → RamWords P
  | _, m, [] => m
  | t, m, (gap, it) :: rest =>
      memAfterAll sched (t + gap + (sendToIf it).edges) (memAfter sched (t + gap) m it) rest

/-- The items after they have been served. -/
def itemsAfter (sched : ℕ → EdgeOrder) :
    ℕ → RamWords P → List (ℕ × SequenceItem D A) → List (SequenceItem D A)
  | _, _, [] => []
  | t, m, (gap, it) :: rest =>
      itemAfter sched (t + gap) m it ::
        itemsAfter sched (t + gap + (sendToIf it).edges) (memAfter sched (t + gap) m it) rest

/-- **The master loop**, for every list of items, every gap between them and every schedule. -/
theorem simulate_masterLoop (sched : ℕ → EdgeOrder) :
    ∀ (items : List (ℕ × SequenceItem D A)) (tb : Testbench D A P), tb.Quiet →
      (simulate sched (masterLoop items) tb).Quiet ∧
      (simulate sched (masterLoop items) tb).mem = memAfterAll sched tb.edges tb.mem items ∧
      (simulate sched (masterLoop items) tb).vip.served
        = tb.vip.served ++ itemsAfter sched tb.edges tb.mem items
  | [], tb, hq => ⟨hq, rfl, (List.append_nil _).symm⟩
  | (gap, it) :: rest, tb, hq => by
      obtain ⟨hq₁, hedges₁, hmem₁, hbooks₁⟩ := simulate_idleCycles sched gap hq
      have h₂ := simulate_driverIteration sched it hq₁
      obtain ⟨hq₃, hmem₃, hserved₃⟩ := simulate_masterLoop sched rest _ h₂.quiet
      have hrun : simulate sched (masterLoop ((gap, it) :: rest)) tb
          = simulate sched (masterLoop rest) (simulate sched (driverIteration it)
              (simulate sched (idleCycles gap) tb)) := by
        simp [simulate, masterLoop]
      rw [hrun]
      refine ⟨hq₃, ?_, ?_⟩
      · rw [hmem₃, h₂.edges, h₂.mem, hedges₁, hmem₁]
        rfl
      · rw [hserved₃, h₂.served, h₂.edges, h₂.mem, hedges₁, hmem₁, hbooks₁.served,
          List.append_assoc]
        rfl

end SinglePortRam
