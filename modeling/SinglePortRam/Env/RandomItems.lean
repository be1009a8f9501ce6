import SinglePortRam.Env.AbstractMemory
import SinglePortRam.Vip.Sequences

/-!
# Randomised items

`block_ram_random_sequence` sends items as `randomize` makes them.  The constraint of the item
relates the sizes of its two queues to each other, but not to `trans_length`, which bounds the
loops of the driver.  An index past the end of the queues reads a zero.

* `RandomItem.elements_eq` — what the loops of the driver make of them: elements are dropped, or
  zeros are added.
* **`touchesOnlyListed_iff`** — the items that have the effect their queues describe.
-/

namespace SinglePortRam

open FourState Clocked LastWrite Testbench

variable {D A : ℕ}

namespace RandomItem

/-- What an item lists: its two queues side by side. -/
def listed (r : RandomItem D A) : List (BitVec A × BitVec D) :=
  r.item.transAddr.zip r.item.transDatai

lemma length_listed (r : RandomItem D A) : r.listed.length = r.item.transAddr.length := by
  rw [listed, List.length_zip, ← r.addr_size_data_size, Nat.min_self]

lemma map_fst_listed (r : RandomItem D A) : r.listed.map Prod.fst = r.item.transAddr :=
  List.map_fst_zip (le_of_eq r.addr_size_data_size)

/-- The loops of the driver drop what they do not reach and go on with zeros. -/
theorem elements_eq (r : RandomItem D A) :
    r.item.elements = r.listed.take r.item.transLength.toNat ++
      List.replicate (r.item.transLength.toNat - r.item.transAddr.length) (0#A, 0#D) := by
  have hsize : r.item.transDatai.length = r.item.transAddr.length := r.addr_size_data_size.symm
  refine List.ext_getElem (by simp [length_listed]; omega) ?_
  intro i hi hi'
  have hn : i < r.item.transLength.toNat := by simpa using hi
  by_cases hs : i < r.item.transAddr.length
  · simp [SequenceItem.elements, SequenceItem.elementsFrom, SequenceItem.element, listed, hs, hn,
      hsize]
  · simp [SequenceItem.elements, SequenceItem.elementsFrom, SequenceItem.element, listed,
      List.getElem_append, hs, hn, hsize]

end RandomItem

/-- Serving the item from the start of the simulation has the effect its queues describe. -/
def TouchesOnlyListed (ram : BlkRam (fittingParams D A)) (r : RandomItem D A) : Prop :=
  let tb := simulate ramAlwaysFirst (driverIteration r.item) (init D A ram)
  match r.item.transType with
  | .WRITE =>
      (∀ a, a ∉ r.item.transAddr → absMem tb.mem a = absMem ram.mem a) ∧
      (∀ pre a d post, r.listed = pre ++ (a, d) :: post → a ∉ post.map Prod.fst →
        absMem tb.mem a = LogicVec.ofBits d)
  | .READ =>
      tb.mem = ram.mem ∧
      ∃ ds, tb.vip.served = [r.item.pushDatao ds] ∧ ds.length = r.item.transAddr.length

/-- The length and the queues of the item fit together, or what they are apart does not show: the
data a `WRITE` drops are in the memory already, and the zero it adds at address `0` is there
anyway. -/
def LengthFits (m : AbstractMemory D A) (r : RandomItem D A) : Prop :=
  match r.item.transType with
  | .WRITE =>
      (∀ a d, lastWrite (r.listed.drop r.item.transLength.toNat) a = some d →
        ((lastWrite (r.listed.take r.item.transLength.toNat) a).map LogicVec.ofBits).getD (m a)
          = LogicVec.ofBits d) ∧
      (r.item.transAddr.length < r.item.transLength.toNat →
        ((lastWrite r.listed 0#A).map LogicVec.ofBits).getD (m 0#A) = LogicVec.ofBits 0#D)
  | .READ => r.item.transLength.toNat = r.item.transAddr.length

/-! ## When the effect is the one described -/

/-- A `WRITE` has the effect it describes exactly if the driver's stores come to the same as the
listed ones. -/
lemma touchesOnlyListed_write_iff {ram : BlkRam (fittingParams D A)} {r : RandomItem D A}
    (hr : r.item.transType = .WRITE) :
    TouchesOnlyListed ram r ↔ storeElems ram.mem r.item.elements = storeElems ram.mem r.listed := by
  have hmem : (simulate ramAlwaysFirst (driverIteration r.item) (init D A ram)).mem
      = storeElems ram.mem r.item.elements := by
    rw [(simulate_driverIteration ramAlwaysFirst r.item (quiet_init ram)).mem]
    simp [memAfter, hr]
  have hnone (a : BitVec A) : a ∉ r.item.transAddr ↔ lastWrite r.listed a = none := by
    rw [lastWrite_eq_none_iff, ← r.map_fst_listed]
    simp only [List.mem_map, not_exists, not_and, ne_eq]
  have hsome (a : BitVec A) (d : BitVec D) : lastWrite r.listed a = some d ↔
      ∃ pre post, r.listed = pre ++ (a, d) :: post ∧ a ∉ post.map Prod.fst := by
    rw [lastWrite_eq_some_iff]
    simp only [List.mem_map, not_exists, not_and, ne_eq]
  simp only [TouchesOnlyListed, hr, hmem]
  rw [← absMem_injective.eq_iff, funext_iff]
  simp only [absMem_storeElems_apply _ r.listed]
  constructor
  · rintro ⟨hframe, hlast⟩ a
    cases hl : lastWrite r.listed a with
    | none => exact hframe a ((hnone a).mpr hl)
    | some d =>
        obtain ⟨pre, post, hsplit, hpost⟩ := (hsome a d).mp hl
        exact hlast pre a d post hsplit hpost
  · intro h
    refine ⟨?_, ?_⟩
    · intro a ha
      rw [h a, (hnone a).mp ha]
      rfl
    · intro pre a d post hsplit hpost
      rw [h a, (hsome a d).mpr ⟨pre, post, hsplit, hpost⟩]
      rfl

/-- The driver's stores come to the same as the listed ones if dropping the rest of them, or adding
zeros to them, changes nothing. -/
lemma storeElems_elements_eq_iff (m : RamWords (fittingParams D A)) (r : RandomItem D A) :
    storeElems m r.item.elements = storeElems m r.listed ↔
      (∀ a d, lastWrite (r.listed.drop r.item.transLength.toNat) a = some d →
        absMem (storeElems m (r.listed.take r.item.transLength.toNat)) a = LogicVec.ofBits d) ∧
      (r.item.transAddr.length < r.item.transLength.toNat →
        absMem (storeElems m r.listed) 0#A = LogicVec.ofBits 0#D) := by
  rw [r.elements_eq]
  set n := r.item.transLength.toNat with hn
  by_cases hlt : r.item.transAddr.length < n
  · have htake : r.listed.take n = r.listed :=
      List.take_of_length_le (by rw [r.length_listed]; exact hlt.le)
    have hdrop : r.listed.drop n = [] :=
      List.drop_eq_nil_of_le (by rw [r.length_listed]; exact hlt.le)
    rw [htake, hdrop, storeElems_append, storeElems_eq_self_iff]
    simp only [lastWrite_replicate (Nat.sub_ne_zero_of_lt hlt), lastWrite_nil, hlt]
    simp
  · have hzero : n - r.item.transAddr.length = 0 := Nat.sub_eq_zero_of_le (Nat.le_of_not_lt hlt)
    rw [hzero, List.replicate_zero, List.append_nil]
    conv_lhs => rhs; rw [← List.take_append_drop n r.listed, storeElems_append]
    rw [eq_comm, storeElems_eq_self_iff, iff_self_and]
    exact fun _ h => absurd h hlt

lemma touchesOnlyListed_read_iff {ram : BlkRam (fittingParams D A)} {r : RandomItem D A}
    (hr : r.item.transType = .READ) :
    TouchesOnlyListed ram r ↔ r.item.transLength.toNat = r.item.transAddr.length := by
  have hserves := simulate_driverIteration ramAlwaysFirst r.item (quiet_init ram)
  have hmem : (simulate ramAlwaysFirst (driverIteration r.item) (init D A ram)).mem = ram.mem := by
    rw [hserves.mem]
    simp [memAfter, hr]
  obtain ⟨ds, hds, hlen⟩ : ∃ ds,
      (simulate ramAlwaysFirst (driverIteration r.item) (init D A ram)).vip.served
        = [r.item.pushDatao ds] ∧ ds.length = r.item.transLength.toNat := by
    refine ⟨_, hserves.served, ?_⟩
    simp [captured, hr]
  simp only [TouchesOnlyListed, hr, hmem, hds, ← hlen]
  constructor
  · rintro ⟨-, es, hes, hlen'⟩
    have hdatao := congrArg SequenceItem.transDatao (List.cons.inj hes).1
    rw [List.append_cancel_left hdatao, hlen']
  · exact fun h => ⟨trivial, ds, rfl, h⟩

/-- **The randomised items that touch only what they list** are those whose length fits. -/
theorem touchesOnlyListed_iff (ram : BlkRam (fittingParams D A)) (r : RandomItem D A) :
    TouchesOnlyListed ram r ↔ LengthFits (absMem ram.mem) r := by
  rw [LengthFits]
  cases hr : r.item.transType with
  | WRITE =>
      rw [touchesOnlyListed_write_iff hr, storeElems_elements_eq_iff]
      simp only [absMem_storeElems_apply]
  | READ => exact touchesOnlyListed_read_iff hr

/-- An item without any address, but with a length, clears the word at address `0`. -/
theorem empty_write_clears_zero :
    ¬ TouchesOnlyListed (D := 16) (A := 8) ⟨.ofBits 0, fun _ => .ofBits 7⟩
      ⟨{ transType := .WRITE, transLength := 1, transAddr := [], transDatai := [] }, rfl⟩ := by
  intro h
  exact absurd (h.1 0 (by decide)) (by decide)

end SinglePortRam
