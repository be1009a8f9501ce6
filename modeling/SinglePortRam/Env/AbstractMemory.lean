import SinglePortRam.Env.DriverRun

/-!
# The memory the driver implements

What the driver and the RAM are for, seen from the side that hands out items: a memory that is
read and written in bursts.  `AbstractMemory` has no clock, no bus and no output register;
`driver_refines_memory` says that with a RAM that fits the interface, and sampled before the
driver's assignments, the testbench behaves like it.
-/

namespace SinglePortRam

open FourState Clocked LastWrite Testbench

variable {D A : ℕ}

/-- A word for every address. -/
abbrev AbstractMemory (D A : ℕ) := BitVec A → LogicVec D

/-- The writes an item asks for, in index order. -/
def SequenceItem.writes (it : SequenceItem D A) : List (BitVec A × LogicVec D) :=
  match it.transType with
  | .WRITE => (it.transAddr.zip it.transDatai).map (Prod.map id LogicVec.ofBits)
  | .READ => []

namespace AbstractMemory

/-- The memory after an item. -/
def afterItem (m : AbstractMemory D A) (it : SequenceItem D A) : AbstractMemory D A :=
  writeAll m it.writes

/-- The memory after a list of items. -/
def after (m : AbstractMemory D A) (items : List (SequenceItem D A)) : AbstractMemory D A :=
  items.foldl afterItem m

/-- The item as it comes back: a `READ` has the addressed words appended to `trans_datao`. -/
def answer (m : AbstractMemory D A) (it : SequenceItem D A) : SequenceItem D A :=
  match it.transType with
  | .WRITE => it
  | .READ => it.pushDatao (it.transAddr.map fun a => (m a).toBits)

@[simp] lemma after_nil (m : AbstractMemory D A) : m.after [] = m := rfl

@[simp] lemma after_cons (m : AbstractMemory D A) (it : SequenceItem D A)
    (items : List (SequenceItem D A)) : m.after (it :: items) = (m.afterItem it).after items :=
  rfl

/-- The memory after a list of items holds the last datum written by any of them. -/
theorem after_apply (m : AbstractMemory D A) (items : List (SequenceItem D A)) (a : BitVec A) :
    m.after items a = (lastWrite (items.flatMap SequenceItem.writes) a).getD (m a) := by
  rw [← writeAll_apply]
  induction items generalizing m with
  | nil => rfl
  | cons it items ih => rw [after_cons, ih, List.flatMap_cons, writeAll_append, afterItem]

end AbstractMemory

/-! ## A RAM that fits the interface -/

/-- The array of a fitting RAM, indexed by addresses. -/
def absMem (m : RamWords (fittingParams D A)) : AbstractMemory D A := fun a => m a.toFin

lemma absMem_injective : Function.Injective (absMem (D := D) (A := A)) := by
  intro m m' h
  funext i
  exact congrFun h (BitVec.ofFin i)

lemma cell?_fitting (a : BitVec A) :
    cell? (P := fittingParams D A) a = some a.toFin :=
  cell?_eq_some_iff.mpr rfl

lemma loadElem_fitting (m : RamWords (fittingParams D A)) (e : BitVec A × BitVec D) :
    loadElem m e = absMem m e.1 := by
  simp [loadElem, loadMem, cell?_fitting, absMem]

lemma absMem_storeElem (m : RamWords (fittingParams D A)) (e : BitVec A × BitVec D) :
    absMem (storeElem m e) = Function.update (absMem m) e.1 (LogicVec.ofBits e.2) := by
  simp only [storeElem, storeMem, BitVec.setWidth_eq, cell?_fitting, LogicVec.resize_self]
  funext a
  by_cases h : a = e.1
  · subst h
    simp [absMem]
  · have hfin : a.toFin ≠ e.1.toFin := fun hf => h (BitVec.eq_of_toFin_eq hf)
    simp [absMem, h, hfin]

lemma absMem_storeElems (m : RamWords (fittingParams D A)) (es : List (BitVec A × BitVec D)) :
    absMem (storeElems m es) = writeAll (absMem m) (es.map (Prod.map id LogicVec.ofBits)) := by
  induction es generalizing m with
  | nil => rfl
  | cons e es ih =>
      rw [List.map_cons, writeAll_cons]
      simp only [Prod.map_fst, Prod.map_snd, id, ← absMem_storeElem, ← ih]
      rfl

lemma lastWrite_ofBits (es : List (BitVec A × BitVec D)) (a : BitVec A) :
    lastWrite (es.map (Prod.map id LogicVec.ofBits)) a = (lastWrite es a).map LogicVec.ofBits :=
  lastWrite_map Function.injective_id LogicVec.ofBits es a

lemma absMem_storeElems_apply (m : RamWords (fittingParams D A))
    (es : List (BitVec A × BitVec D)) (a : BitVec A) :
    absMem (storeElems m es) a = ((lastWrite es a).map LogicVec.ofBits).getD (absMem m a) := by
  rw [absMem_storeElems, writeAll_apply, lastWrite_ofBits]

lemma storeElems_eq_self_iff (m : RamWords (fittingParams D A))
    (es : List (BitVec A × BitVec D)) :
    storeElems m es = m ↔ ∀ a d, lastWrite es a = some d → absMem m a = LogicVec.ofBits d := by
  rw [← absMem_injective.eq_iff, absMem_storeElems, writeAll_eq_self_iff]
  apply forall_congr'
  intro a
  simp only [lastWrite_ofBits, Option.map_eq_some_iff, forall_exists_index, and_imp,
    forall_apply_eq_imp_iff₂]

/-! ## The refinement -/

lemma absMem_memAfter (t : ℕ) (m : RamWords (fittingParams D A)) (b : Burst D A) :
    absMem (memAfter ramAlwaysFirst t m b.item) = (absMem m).afterItem b.item := by
  rw [memAfter, AbstractMemory.afterItem, SequenceItem.writes]
  rw [← b.elements_eq]
  cases b.item.transType with
  | WRITE => simp only [storedElems_ramAlwaysFirst, absMem_storeElems]
  | READ => rfl

lemma itemAfter_fitting (t : ℕ) (m : RamWords (fittingParams D A)) (b : Burst D A) :
    itemAfter ramAlwaysFirst t m b.item = (absMem m).answer b.item := by
  rw [itemAfter, captured, AbstractMemory.answer]
  cases b.item.transType with
  | WRITE => exact SequenceItem.pushDatao_nil b.item
  | READ =>
      simp only [capturedElems_ramAlwaysFirst]
      rw [← b.map_fst_elements, List.map_map]
      congr 1
      exact List.map_congr_left fun e _ => congrArg LogicVec.toBits (loadElem_fitting m e)

/-- The items of a list of bursts, each with the idle cycles before it. -/
def handed (items : List (ℕ × Burst D A)) : List (ℕ × SequenceItem D A) :=
  items.map fun x => (x.1, x.2.item)

lemma handed_cons (x : ℕ × Burst D A) (items : List (ℕ × Burst D A)) :
    handed (x :: items) = (x.1, x.2.item) :: handed items := rfl

lemma absMem_memAfterAll (t : ℕ) (m : RamWords (fittingParams D A))
    (items : List (ℕ × Burst D A)) :
    absMem (memAfterAll ramAlwaysFirst t m (handed items))
      = (absMem m).after (items.map fun x => x.2.item) := by
  induction items generalizing t m with
  | nil => rfl
  | cons x items ih =>
      rw [List.map_cons, AbstractMemory.after_cons, ← absMem_memAfter (t + x.1), ← ih]
      rfl

lemma itemsAfter_getElem? (t : ℕ) (m : RamWords (fittingParams D A))
    (items : List (ℕ × Burst D A)) (i : ℕ) :
    (itemsAfter ramAlwaysFirst t m (handed items))[i]?
      = (items[i]?).map fun x =>
          ((absMem m).after ((items.take i).map fun x => x.2.item)).answer x.2.item := by
  induction items generalizing t m i with
  | nil => rfl
  | cons x items ih =>
      cases i with
      | zero => simp [handed_cons, itemsAfter, itemAfter_fitting]
      | succ i => simp [handed_cons, itemsAfter, ih, absMem_memAfter]

/-- **The driver and the RAM refine the abstract memory.**  The array after the first `i` items is
the abstract memory after them, the run goes on from there with the other items, and the item with
index `i` comes back as the abstract memory of that moment answers it. -/
theorem driver_refines_memory (ram : BlkRam (fittingParams D A))
    (items : List (ℕ × Burst D A)) (i : ℕ) :
    absMem (simulate ramAlwaysFirst (masterLoop (handed (items.take i))) (init D A ram)).mem
      = (absMem ram.mem).after ((items.take i).map fun x => x.2.item) ∧
    simulate ramAlwaysFirst (masterLoop (handed items)) (init D A ram)
      = simulate ramAlwaysFirst (masterLoop (handed (items.drop i)))
          (simulate ramAlwaysFirst (masterLoop (handed (items.take i))) (init D A ram)) ∧
    (simulate ramAlwaysFirst (masterLoop (handed items)) (init D A ram)).vip.served[i]?
      = (items[i]?).map fun x =>
          ((absMem ram.mem).after ((items.take i).map fun x => x.2.item)).answer x.2.item := by
  refine ⟨?_, ?_, ?_⟩
  · obtain ⟨-, hmem, -⟩ := simulate_masterLoop ramAlwaysFirst (handed (items.take i)) _
      (quiet_init ram)
    rw [hmem, absMem_memAfterAll, mem_init]
  · rw [simulate, simulate, simulate, ← Clock.run_append, ← masterLoop_append]
    simp [handed]
  · obtain ⟨-, -, hserved⟩ := simulate_masterLoop ramAlwaysFirst (handed items) _ (quiet_init ram)
    rw [hserved, mem_init]
    exact itemsAfter_getElem? 0 ram.mem items i

end SinglePortRam
