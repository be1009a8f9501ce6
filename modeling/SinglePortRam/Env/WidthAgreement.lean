import SinglePortRam.Env.AbstractMemory

/-!
# The widths of the interface and of the RAM

The package may be compiled with any `DATA_WIDTH` and `ADDR_WIDTH`, and the items, the interface
and the slave's memory follow.  `dut_wrapper` instantiates the RAM with literals.  Its ports
truncate what the interface drives and extend what the RAM returns.

* `portElement` — an element of an item as it arrives behind the ports.
* **`readsBackWritten_iff`** — the bursts that are read back as they were written: no datum needs
  more bits than the RAM has, and addresses that are the same to the RAM carry the same datum.
* `widthsAgree_iff` — the widths with which every burst is.
-/

namespace SinglePortRam

open FourState Clocked LastWrite Testbench

variable {D A : ℕ} {P : RamParams}

/-! ## Behind the ports -/

/-- An element behind ports of the widths of the RAM. -/
def portElement (P : RamParams) : BitVec A × BitVec D → BitVec P.AWIDTH × BitVec P.DWIDTH :=
  Prod.map (BitVec.setWidth P.AWIDTH) (BitVec.setWidth P.DWIDTH)

lemma storeElem_portElement (m : RamWords P) (e : BitVec A × BitVec D) :
    storeElem m (portElement P e) = storeElem m e := by
  simp [storeElem, portElement]

lemma storeElems_map_portElement (m : RamWords P) (es : List (BitVec A × BitVec D)) :
    storeElems m (es.map (portElement P)) = storeElems m es := by
  simp only [storeElems, List.foldl_map, storeElem_portElement]

/-- What the interface gets to read from a RAM of the widths `V` and `W`. -/
lemma readBits_fitting {V W : ℕ} (m : RamWords (fittingParams V W)) (e : BitVec A × BitVec D) :
    readBits m e = (absMem m (e.1.setWidth W)).toBits.setWidth D := by
  rw [readBits, loadElem, LogicVec.toBits_resize, ← loadElem_fitting m (e.1.setWidth W, 0#V)]
  simp only [loadElem, BitVec.setWidth_eq, LogicVec.resize_self]

/-! ## Reading back what was written -/

/-- A `WRITE` of distinct addresses, and a `READ` of the same addresses. -/
structure WriteReadBack (D A : ℕ) where
  write : Burst D A
  read : Burst D A
  isWrite : write.item.transType = .WRITE
  isRead : read.item.transType = .READ
  distinct : write.item.transAddr.Nodup
  sameAddr : read.item.transAddr = write.item.transAddr
  fresh : read.item.transDatao = []

/-- The `READ` comes back with the data of the `WRITE`. -/
def ReadsBackWritten (ram : BlkRam P) (gap gap' : ℕ) (x : WriteReadBack D A) : Prop :=
  (simulate ramAlwaysFirst (masterLoop [(gap, x.write.item), (gap', x.read.item)])
      (init D A ram)).vip.served.getLast?.map SequenceItem.transDatao
    = some x.write.item.transDatai

/-- No datum has more than `V` bits, and elements whose addresses agree in the last `W` bits carry
the same datum. -/
def FitsWidths (V W : ℕ) (x : WriteReadBack D A) : Prop :=
  (∀ d ∈ x.write.item.transDatai, d.toNat < 2 ^ V) ∧
  ∀ e ∈ x.write.item.elements, ∀ f ∈ x.write.item.elements,
    e.1.toNat % 2 ^ W = f.1.toNat % 2 ^ W → e.2 = f.2

/-- The `READ` gets, for every address, what the array holds after the `WRITE`. -/
lemma readsBackWritten_iff_map {ram : BlkRam P} {gap gap' : ℕ} {x : WriteReadBack D A} :
    ReadsBackWritten ram gap gap' x ↔
      x.read.item.elements.map (readBits (storeElems ram.mem x.write.item.elements))
        = x.write.item.transDatai := by
  obtain ⟨-, -, hserved⟩ := simulate_masterLoop ramAlwaysFirst
    [(gap, x.write.item), (gap', x.read.item)] _ (quiet_init ram)
  have hinit : (init D A ram).vip.served = [] := rfl
  rw [ReadsBackWritten, hserved, hinit, mem_init]
  simp [itemsAfter, itemAfter, captured, memAfter, x.isWrite, x.isRead, x.fresh,
    SequenceItem.pushDatao]

/-- Reading back is reading what was written last behind the ports, element by element. -/
lemma readsBackWritten_iff_lastWrite {V W : ℕ} {ram : BlkRam (fittingParams V W)} {gap gap' : ℕ}
    {x : WriteReadBack D A} :
    ReadsBackWritten ram gap gap' x ↔
      ∀ e ∈ x.write.item.elements,
        (lastWrite (x.write.item.elements.map
          (Prod.map (BitVec.setWidth W) (BitVec.setWidth V))) (e.1.setWidth W)).map
            (BitVec.setWidth D) = some e.2 := by
  set es := x.write.item.elements with hes
  set m := storeElems ram.mem es with hm
  have hread : x.read.item.elements.map (readBits m)
      = es.map fun e => (absMem m (e.1.setWidth W)).toBits.setWidth D := by
    calc x.read.item.elements.map (readBits m)
        = (x.read.item.elements.map Prod.fst).map
            fun a => (absMem m (a.setWidth W)).toBits.setWidth D := by
          rw [List.map_map]
          exact List.map_congr_left fun e _ => readBits_fitting m e
      _ = (es.map Prod.fst).map fun a => (absMem m (a.setWidth W)).toBits.setWidth D := by
          rw [x.read.map_fst_elements, x.sameAddr, ← x.write.map_fst_elements]
      _ = es.map fun e => (absMem m (e.1.setWidth W)).toBits.setWidth D := List.map_map
  rw [readsBackWritten_iff_map, hread, ← x.write.map_snd_elements, List.map_inj_left]
  refine forall₂_congr ?_
  intro e he
  have hword : absMem m (e.1.setWidth W)
      = ((lastWrite (es.map (Prod.map (BitVec.setWidth W) (BitVec.setWidth V)))
          (e.1.setWidth W)).map LogicVec.ofBits).getD (absMem ram.mem (e.1.setWidth W)) := by
    rw [← absMem_storeElems_apply]
    exact congrFun (congrArg absMem (storeElems_map_portElement ram.mem es).symm) _
  rw [hword]
  cases hl : lastWrite (es.map (Prod.map (BitVec.setWidth W) (BitVec.setWidth V)))
      (e.1.setWidth W) with
  | none => exact absurd rfl (lastWrite_eq_none_iff.mp hl _ (List.mem_map_of_mem he))
  | some d => simp

lemma setWidth_setWidth_eq_iff {V : ℕ} (d : BitVec D) :
    (d.setWidth V).setWidth D = d ↔ d.toNat < 2 ^ V := by
  rw [← BitVec.toNat_inj, BitVec.toNat_setWidth, BitVec.toNat_setWidth]
  constructor
  · intro h
    rw [← h]
    exact lt_of_le_of_lt (Nat.mod_le _ _) (Nat.mod_lt _ (Nat.two_pow_pos V))
  · intro h
    rw [Nat.mod_eq_of_lt h, Nat.mod_eq_of_lt d.isLt]

lemma setWidth_eq_setWidth_iff {W : ℕ} (a b : BitVec A) :
    a.setWidth W = b.setWidth W ↔ a.toNat % 2 ^ W = b.toNat % 2 ^ W := by
  rw [← BitVec.toNat_inj, BitVec.toNat_setWidth, BitVec.toNat_setWidth]

/-- **Any burst, behind ports of any widths**, is read back as it was written exactly if it fits
them. -/
theorem readsBackWritten_fitting_iff {V W : ℕ} (ram : BlkRam (fittingParams V W)) (gap gap' : ℕ)
    (x : WriteReadBack D A) : ReadsBackWritten ram gap gap' x ↔ FitsWidths V W x := by
  rw [readsBackWritten_iff_lastWrite, forall_lastWrite_map_iff, FitsWidths,
    ← x.write.map_snd_elements, List.forall_mem_map]
  simp only [setWidth_setWidth_eq_iff, setWidth_eq_setWidth_iff]

/-- **The wrapped RAM reads back what was written** exactly if no datum has more than 16 bits and
addresses with the same last 8 bits carry the same datum. -/
theorem readsBackWritten_iff (ram : BlkRam dutParams) (gap gap' : ℕ) (x : WriteReadBack D A) :
    ReadsBackWritten ram gap gap' x ↔ FitsWidths 16 8 x :=
  readsBackWritten_fitting_iff (V := 16) (W := 8) ram gap gap' x

/-- A burst of nine-bit addresses, two of which are the same to the RAM, comes back with the second
datum twice. -/
theorem aliased_read_back :
    ¬ ReadsBackWritten (P := dutParams) ⟨.ofBits 0, fun _ => .ofBits 0⟩ 0 0
      (⟨⟨{ transType := .WRITE, transLength := 2, transAddr := [0, 256], transDatai := [1, 2] },
          rfl, rfl⟩,
        ⟨{ transType := .READ, transLength := 2, transAddr := [0, 256], transDatai := [0, 0] },
          rfl, rfl⟩, rfl, rfl, by decide, rfl, rfl⟩ : WriteReadBack 16 9) := by
  rw [ReadsBackWritten]
  decide

/-! ## The widths that agree -/

/-- The burst of a list of elements, and a `READ` of their addresses. -/
def WriteReadBack.ofElements (es : List (BitVec A × BitVec D)) (hlen : es.length < 2 ^ D)
    (hnodup : (es.map Prod.fst).Nodup) : WriteReadBack D A where
  write :=
    { item :=
        { transType := .WRITE
          transLength := BitVec.ofNat D es.length
          transAddr := es.map Prod.fst
          transDatai := es.map Prod.snd }
      size_addr := by simp [Nat.mod_eq_of_lt hlen]
      size_datai := by simp [Nat.mod_eq_of_lt hlen] }
  read :=
    { item :=
        { transType := .READ
          transLength := BitVec.ofNat D es.length
          transAddr := es.map Prod.fst
          transDatai := es.map Prod.snd }
      size_addr := by simp [Nat.mod_eq_of_lt hlen]
      size_datai := by simp [Nat.mod_eq_of_lt hlen] }
  isWrite := rfl
  isRead := rfl
  distinct := hnodup
  sameAddr := rfl
  fresh := rfl

lemma WriteReadBack.fitsWidths_ofElements {V W : ℕ} {es : List (BitVec A × BitVec D)}
    {hlen : es.length < 2 ^ D} {hnodup : (es.map Prod.fst).Nodup} :
    FitsWidths V W (ofElements es hlen hnodup) ↔
      (∀ e ∈ es, e.2.toNat < 2 ^ V) ∧
      ∀ e ∈ es, ∀ f ∈ es, e.1.toNat % 2 ^ W = f.1.toNat % 2 ^ W → e.2 = f.2 := by
  have helems : (ofElements es hlen hnodup).write.item.elements = es := by
    rw [Burst.elements_eq]
    exact (List.zip_of_prod rfl rfl).symm
  rw [FitsWidths, ← Burst.map_snd_elements, List.forall_mem_map, helems]

/-- A datum with one bit too many. -/
lemma exists_not_fitsWidths_of_data {V : ℕ} (W : ℕ) (hD : V < D) :
    ∃ x : WriteReadBack D A, ¬ FitsWidths V W x := by
  have hlen : [(0#A, BitVec.ofNat D (2 ^ V))].length < 2 ^ D :=
    Nat.one_lt_two_pow (Nat.ne_of_gt (Nat.zero_lt_of_lt hD))
  refine ⟨.ofElements _ hlen (List.nodup_singleton _), ?_⟩
  rw [WriteReadBack.fitsWidths_ofElements]
  rintro ⟨hdata, -⟩
  have hlt := hdata _ (List.mem_singleton_self _)
  rw [BitVec.toNat_ofNat, Nat.mod_eq_of_lt (Nat.pow_lt_pow_right one_lt_two hD)] at hlt
  exact lt_irrefl _ hlt

/-- Two addresses that differ in a bit the RAM does not have. -/
lemma exists_not_fitsWidths_of_addr (V : ℕ) {W : ℕ} (hA : W < A) (hD : 1 < D) :
    ∃ x : WriteReadBack D A, ¬ FitsWidths V W x := by
  have hpow : (BitVec.ofNat A (2 ^ W)).toNat = 2 ^ W := by
    rw [BitVec.toNat_ofNat, Nat.mod_eq_of_lt (Nat.pow_lt_pow_right one_lt_two hA)]
  have hlen : [(0#A, 0#D), (BitVec.ofNat A (2 ^ W), 1#D)].length < 2 ^ D :=
    Nat.pow_lt_pow_right one_lt_two hD
  have hne : (0#A) ≠ BitVec.ofNat A (2 ^ W) := by
    intro h
    have hnat := congrArg BitVec.toNat h
    rw [hpow, BitVec.toNat_ofNat, Nat.zero_mod] at hnat
    exact (Nat.two_pow_pos W).ne hnat
  refine ⟨.ofElements _ hlen (by simpa using hne), ?_⟩
  rw [WriteReadBack.fitsWidths_ofElements]
  rintro ⟨-, hsame⟩
  have hmod : (0#A).toNat % 2 ^ W = (BitVec.ofNat A (2 ^ W)).toNat % 2 ^ W := by
    rw [hpow, Nat.mod_self, BitVec.toNat_ofNat, Nat.zero_mod, Nat.zero_mod]
  have hdata := congrArg BitVec.toNat (hsame (0#A, 0#D) (by simp) (_, 1#D) (by simp) hmod)
  rw [BitVec.toNat_ofNat, BitVec.toNat_ofNat, Nat.zero_mod,
    Nat.mod_eq_of_lt (Nat.one_lt_two_pow (Nat.ne_of_gt (Nat.zero_lt_of_lt hD)))] at hdata
  exact zero_ne_one hdata

/-- With as many bits as the RAM has, or with bursts of one element, no two elements of a burst get
in each other's way. -/
lemma WriteReadBack.fitsWidths {V W : ℕ} (hD : D ≤ V) (hA : A ≤ W ∨ D ≤ 1)
    (x : WriteReadBack D A) : FitsWidths V W x := by
  refine ⟨?_, ?_⟩
  · intro d _
    exact lt_of_lt_of_le d.isLt (Nat.pow_le_pow_right two_pos hD)
  · intro e he f hf hmod
    rcases hA with hA | hA
    · have hlt (a : BitVec A) : a.toNat < 2 ^ W :=
        lt_of_lt_of_le a.isLt (Nat.pow_le_pow_right two_pos hA)
      rw [Nat.mod_eq_of_lt (hlt _), Nat.mod_eq_of_lt (hlt _), BitVec.toNat_inj] at hmod
      have hnodup : (x.write.item.elements.map Prod.fst).Nodup := by
        rw [x.write.map_fst_elements]
        exact x.distinct
      rw [List.inj_on_of_nodup_map hnodup he hf hmod]
    · have hlen : x.write.item.elements.length ≤ 1 := by
        have hpow : 2 ^ D ≤ 2 ^ 1 := Nat.pow_le_pow_right two_pos hA
        have hlt := x.write.item.transLength.isLt
        rw [SequenceItem.length_elements]
        omega
      obtain ⟨i, hi, rfl⟩ := List.mem_iff_getElem.mp he
      obtain ⟨j, hj, rfl⟩ := List.mem_iff_getElem.mp hf
      obtain rfl : i = j := by omega
      rfl

/-- **The widths agree**, for all bursts and all contents of the RAM, up to 16 data bits and, unless
`trans_length` is too narrow for a burst of two elements, up to 8 address bits. -/
theorem widthsAgree_iff :
    (∀ (ram : BlkRam dutParams) (gap gap' : ℕ) (x : WriteReadBack D A),
        ReadsBackWritten ram gap gap' x) ↔ D ≤ 16 ∧ (A ≤ 8 ∨ D ≤ 1) := by
  have hiff (ram : BlkRam dutParams) (gap gap' : ℕ) (x : WriteReadBack D A) :
      ReadsBackWritten ram gap gap' x ↔ FitsWidths 16 8 x :=
    readsBackWritten_fitting_iff (V := 16) (W := 8) ram gap gap' x
  simp only [hiff]
  constructor
  · intro h
    have hfits (x : WriteReadBack D A) : FitsWidths 16 8 x :=
      h ⟨.ofBits 0, fun _ => .ofBits 0⟩ 0 0 x
    refine ⟨?_, ?_⟩
    · by_contra hD
      obtain ⟨x, hx⟩ := exists_not_fitsWidths_of_data (A := A) 8 (Nat.lt_of_not_le hD)
      exact hx (hfits x)
    · by_contra hA
      rw [not_or, Nat.not_le, Nat.not_le] at hA
      obtain ⟨x, hx⟩ := exists_not_fitsWidths_of_addr 16 hA.1 hA.2
      exact hx (hfits x)
  · rintro ⟨hD, hA⟩ _ _ _ x
    exact x.fitsWidths hD hA

end SinglePortRam
