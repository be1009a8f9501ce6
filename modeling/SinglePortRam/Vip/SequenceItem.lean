import SinglePortRam.Core.FourState

/-!
# Items, and the interface they are driven on

`block_ram_sequence_item.sv`, `block_ram_pkg.sv` and `block_ram_if.sv`.  The two macros the package
may be compiled with, `DATA_WIDTH` and `ADDR_WIDTH`, are the parameters `D` and `A`.

Queues are lists.  An index outside a queue reads the default of its element type, which for a
`bit` vector is `0`.
-/

namespace SinglePortRam

open FourState

/-- `transaction_type`. -/
inductive TransactionType where
  | WRITE
  | READ
  deriving DecidableEq, Repr

/-- `block_ram_sequence_item`, with the sequence id it inherits from `uvm_sequence_item`. -/
structure SequenceItem (D A : ℕ) where
  transType : TransactionType := .WRITE
  transLength : BitVec D := 0#D
  transAddr : List (BitVec A) := []
  transDatai : List (BitVec D) := []
  transDatao : List (BitVec D) := []
  sequenceId : ℤ := -1
  deriving DecidableEq

variable {D A : ℕ}

namespace SequenceItem

/-- `copy`: the fields registered with the field macros, which the ids are not. -/
def copy (dst src : SequenceItem D A) : SequenceItem D A :=
  { src with sequenceId := dst.sequenceId }

/-- `set_id_info`. -/
def setIdInfo (dst src : SequenceItem D A) : SequenceItem D A :=
  { dst with sequenceId := src.sequenceId }

/-- A copy with the ids set as well is the item itself. -/
@[simp] lemma setIdInfo_copy (dst src : SequenceItem D A) :
    (dst.copy src).setIdInfo src = src := rfl

/-- `trans_datao.push_back` of a list of data. -/
def pushDatao (it : SequenceItem D A) (ds : List (BitVec D)) : SequenceItem D A :=
  { it with transDatao := it.transDatao ++ ds }

/-- The constraint under which `randomize` chooses the fields. -/
def addrSizeDataSize (it : SequenceItem D A) : Prop :=
  it.transAddr.length = it.transDatai.length

/-- The address and the datum the driver finds at index `i`. -/
def element (it : SequenceItem D A) (i : ℕ) : BitVec A × BitVec D :=
  (it.transAddr.getD i 0#A, it.transDatai.getD i 0#D)

/-- The elements a loop over the `m` indices from `i` on meets. -/
def elementsFrom (it : SequenceItem D A) (i m : ℕ) : List (BitVec A × BitVec D) :=
  (List.range' i m).map it.element

/-- The elements a loop bounded by `trans_length` meets. -/
def elements (it : SequenceItem D A) : List (BitVec A × BitVec D) :=
  it.elementsFrom 0 it.transLength.toNat

@[simp] lemma pushDatao_nil (it : SequenceItem D A) : it.pushDatao [] = it := by
  simp [pushDatao]

@[simp] lemma pushDatao_pushDatao (it : SequenceItem D A) (ds es : List (BitVec D)) :
    (it.pushDatao ds).pushDatao es = it.pushDatao (ds ++ es) := by
  simp [pushDatao]

@[simp] lemma elementsFrom_zero (it : SequenceItem D A) (i : ℕ) : it.elementsFrom i 0 = [] := rfl

lemma elementsFrom_succ (it : SequenceItem D A) (i m : ℕ) :
    it.elementsFrom i (m + 1) = it.element i :: it.elementsFrom (i + 1) m := by
  simp [elementsFrom, List.range'_succ]

@[simp] lemma length_elements (it : SequenceItem D A) :
    it.elements.length = it.transLength.toNat := by
  simp [elements, elementsFrom]

end SequenceItem

/-- An item of the shape the read and the write sequence build: as long as both its queues. -/
structure Burst (D A : ℕ) where
  item : SequenceItem D A
  size_addr : item.transAddr.length = item.transLength.toNat
  size_datai : item.transDatai.length = item.transLength.toNat

/-- The elements of such an item are its two queues side by side. -/
theorem Burst.elements_eq (b : Burst D A) :
    b.item.elements = b.item.transAddr.zip b.item.transDatai := by
  refine List.ext_getElem ?_ ?_
  · simp [b.size_addr, b.size_datai]
  · intro i hi hi'
    have hlt : i < b.item.transLength.toNat := by simpa using hi
    simp [SequenceItem.elements, SequenceItem.elementsFrom, SequenceItem.element,
      b.size_addr, b.size_datai, hlt]

lemma Burst.map_fst_elements (b : Burst D A) :
    b.item.elements.map Prod.fst = b.item.transAddr := by
  rw [b.elements_eq, List.map_fst_zip (by rw [b.size_addr, b.size_datai])]

lemma Burst.map_snd_elements (b : Burst D A) :
    b.item.elements.map Prod.snd = b.item.transDatai := by
  rw [b.elements_eq, List.map_snd_zip (by rw [b.size_addr, b.size_datai])]

/-! ## The interface -/

/-- What the master side drives in one clock cycle. -/
@[ext] structure BusCycle (D A : ℕ) where
  bramEn : Bool
  bramWen : Bool
  bramAddr : BitVec A
  bramDatai : BitVec D
  deriving DecidableEq

/-- `block_ram_if`.  The signals of the master side are two-state here: before they are first
driven they are `x`, on which every test for `1'b1` in the source fails, as it does on `0`. -/
structure BlockRamIf (D A : ℕ) where
  reset : Bool
  bus : BusCycle D A
  bramDatao : LogicVec D

/-- The signals of a request for an element. -/
def BusCycle.request (wen : Bool) (e : BitVec A × BitVec D) : BusCycle D A :=
  ⟨true, wen, e.1, e.2⟩

/-- The cleared input signals. -/
def BusCycle.idle (D A : ℕ) : BusCycle D A := ⟨false, false, 0#A, 0#D⟩

@[simp] lemma BusCycle.bramEn_idle : (BusCycle.idle D A).bramEn = false := rfl

end SinglePortRam
