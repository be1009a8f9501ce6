import SinglePortRam.Core.BitStream
import SinglePortRam.Vip.Sequences

/-!
# The packer, and how an item is packed

`uvm_packer.svh`, the pack methods of `uvm_object.svh`, and what the field macros of
`uvm_object_defines.svh` make of the fields of `block_ram_sequence_item`.  `m_bits` has
`UVM_PACKER_MAX_BYTES * 8` bits, a macro that may be set; it is the parameter `N` here.

* `UvmPacker` — the policy object; `packOf`, `unpackOf`, `getBits`, `putBits`, `getWords`,
  `putWords` — its methods.
* `ItemFields` — the fields of an item, with the type as an `int`.
* `ItemFields.pack`, `ItemFields.unpack` — with their variants for bytes and for ints.
-/

namespace SinglePortRam

open BitStream

variable {D A N : ℕ}

/-- The reports of the methods below. -/
inductive PackerReport where
  | notEnoughBits (needed : ℕ) (available : ℤ)
  | unpackUnsuccessful (unpacked total : ℕ)
  deriving DecidableEq

/-- The report as it is printed; only integral fields are unpacked. -/
def PackerReport.text : PackerReport → UvmError
  | notEnoughBits needed available => ⟨"PCKSZ", toString needed ++ " bits needed to unpack " ++
      "integral" ++ ", yet only " ++ toString available ++ " available."⟩
  | unpackUnsuccessful unpacked total => ⟨"BDUNPK", "Unpack operation unsuccessful: unpacked " ++
      toString unpacked ++ " bits from a total of " ++ toString total ++ " bits"⟩

/-- The variables of a `uvm_packer`. -/
structure UvmPacker (N : ℕ) where
  useMetadata : Bool := false
  bigEndian : Bool := true
  mBits : Vector Bool N := Vector.replicate N false
  count : ℕ := 0
  mPackedSize : ℕ := 0
  /-- The reports so far. -/
  reports : List PackerReport := []
  deriving DecidableEq

/-- `UVM_STREAMBITS`, the width of a `uvm_bitstream_t`. -/
def streamBits : ℕ := 4096

namespace UvmPacker

/-- `reset`, which keeps the settings. -/
def reset (p : UvmPacker N) : UvmPacker N :=
  { p with count := 0, mBits := Vector.replicate N false, mPackedSize := 0 }

/-- `set_packed_size`: what has been packed is there to be unpacked. -/
def setPackedSize (p : UvmPacker N) : UvmPacker N :=
  { p with mPackedSize := p.count, count := 0 }

/-- A report is issued. -/
def report (r : PackerReport) (p : UvmPacker N) : UvmPacker N :=
  { p with reports := p.reports ++ [r] }

/-! ## Packing and unpacking a field -/

/-- `pack_field` and `pack_field_int`, which differ in the width `w` of their argument. -/
def packOf {w : ℕ} (value : BitVec w) (size : ℕ) (p : UvmPacker N) : UvmPacker N :=
  { p with
    mBits := store p.mBits p.count (field p.bigEndian size value)
    count := p.count + size }

/-- `pack_field`, for a `uvm_bitstream_t`. -/
def packField (value : BitVec streamBits) (size : ℕ) (p : UvmPacker N) : UvmPacker N :=
  p.packOf value size

/-- `pack_field_int`, for a `uvm_integral_t`. -/
def packFieldInt (value : BitVec 64) (size : ℕ) (p : UvmPacker N) : UvmPacker N :=
  p.packOf value size

/-- `unpack_field` and `unpack_field_int`; `enough_bits` is the condition, with its report. -/
def unpackOf (w size : ℕ) (p : UvmPacker N) : BitVec w × UvmPacker N :=
  if (p.mPackedSize : ℤ) - p.count < size then
    (0#w, p.report (.notEnoughBits size (p.mPackedSize - p.count)))
  else (ofField w p.bigEndian (load p.mBits p.count size), { p with count := p.count + size })

/-- `unpack_field`. -/
def unpackField (size : ℕ) (p : UvmPacker N) : BitVec streamBits × UvmPacker N :=
  p.unpackOf streamBits size

/-- `unpack_field_int`. -/
def unpackFieldInt (size : ℕ) (p : UvmPacker N) : BitVec 64 × UvmPacker N :=
  p.unpackOf 64 size

/-! ## The stream in the packer -/

/-- `get_bits`. -/
def getBits (p : UvmPacker N) : List Bool := load p.mBits 0 p.mPackedSize

/-- `put_bits`, whose loop runs downwards with `big_endian`. -/
def putBits (bitstream : List Bool) (p : UvmPacker N) : UvmPacker N :=
  { p with
    mBits := if p.bigEndian then storeDown p.mBits 0 bitstream else store p.mBits 0 bitstream
    mPackedSize := bitstream.length
    count := 0 }

/-- The order of the bits in a byte or an int of the stream. -/
def orderBits {k : ℕ} (bigEndian : Bool) (v : BitVec k) : BitVec k :=
  if bigEndian then v.reverse else v

/-- `get_bytes` and `get_ints`, for words of `k` bits.  The last word is masked. -/
def getWords (k : ℕ) (p : UvmPacker N) : List (BitVec k) :=
  let sz := (p.mPackedSize + (k - 1)) / k
  (List.range sz).map fun i =>
    let v := ofBits k fun j => bitAt p.mBits (i * k + j)
    orderBits p.bigEndian (if i ≠ sz - 1 ∨ p.mPackedSize % k = 0 then v
      else v &&& (BitVec.allOnes k >>> (k - p.mPackedSize % k)))

/-- The loop of `put_bytes` and `put_ints`, from the word `i` on. -/
def putWordsLoop {k : ℕ} (bigEndian : Bool) (m : Vector Bool N) (i : ℕ) :
    List (BitVec k) → Vector Bool N
  | [] => m
  | v :: vs => putWordsLoop bigEndian
      (store m (i * k) (field false k (orderBits bigEndian v))) (i + 1) vs

/-- `put_bytes` and `put_ints`. -/
def putWords {k : ℕ} (stream : List (BitVec k)) (p : UvmPacker N) : UvmPacker N :=
  { p with
    mBits := putWordsLoop p.bigEndian p.mBits 0 stream
    mPackedSize := stream.length * k
    count := 0 }

/-! ## The fields of an object -/

/-- What the macros make of an integral field, or of an element of a queue, of `s` bits. -/
def packElement {s : ℕ} (p : UvmPacker N) (v : BitVec s) : UvmPacker N :=
  if s ≤ 64 then p.packFieldInt (v.setWidth 64) s else p.packField (v.setWidth streamBits) s

/-- What the macros make of an integral field, or of an element, when it is unpacked. -/
def unpackElement (s : ℕ) (p : UvmPacker N) : BitVec s × UvmPacker N :=
  if s ≤ 64 then ((p.unpackFieldInt s).1.setWidth s, (p.unpackFieldInt s).2)
  else ((p.unpackField s).1.setWidth s, (p.unpackField s).2)

/-- The size of a queue comes first, if metadata are used. -/
def packQueue {s : ℕ} (q : List (BitVec s)) (p : UvmPacker N) : UvmPacker N :=
  q.foldl packElement
    (if p.useMetadata then p.packFieldInt (BitVec.ofNat 64 q.length) 32 else p)

/-- `M_UVM_QUEUE_RESIZE`: elements are appended, or removed from the front.  The second loop does
not end when the size it is to come to is negative. -/
def resizeQueue {s : ℕ} (sz : ℤ) (q : List (BitVec s)) : Option (List (BitVec s)) :=
  if sz < 0 then none
  else some ((q ++ List.replicate (sz.toNat - q.length) 0#s).drop (q.length - sz.toNat))

/-- The loop over the elements of a queue. -/
def unpackElements (s : ℕ) : ℕ → UvmPacker N → List (BitVec s) × UvmPacker N
  | 0, p => ([], p)
  | n + 1, p =>
      let (v, p') := p.unpackElement s
      let (vs, p'') := unpackElements s n p'
      (v :: vs, p'')

/-- The size that a queue of `size` elements is to have. -/
def unpackSize (size : ℕ) (p : UvmPacker N) : ℤ × UvmPacker N :=
  if p.useMetadata then
    (((p.unpackFieldInt 32).1.setWidth 32).toInt, (p.unpackFieldInt 32).2)
  else (size, p)

/-- A queue is brought to its size and its elements are unpacked one after the other. -/
def unpackQueue {s : ℕ} (q : List (BitVec s)) (p : UvmPacker N) :
    Option (List (BitVec s) × UvmPacker N) := do
  let (sz, p') := p.unpackSize q.length
  let q' ← if sz ≠ q.length then resizeQueue sz q else some q
  some (unpackElements s q'.length p')

end UvmPacker

/-! ## The item -/

/-- The value of the `enum`, an `int`. -/
def TransactionType.toBits : TransactionType → BitVec 32
  | .WRITE => 0#32
  | .READ => 1#32

/-- The fields of an item as they are packed.  A variable of an `enum` is the `int` it is stored in:
`T'()` assigns whatever is unpacked, which need not be a value of the type. -/
structure ItemFields (D A : ℕ) where
  transType : BitVec 32 := TransactionType.WRITE.toBits
  transLength : BitVec D := 0#D
  transAddr : List (BitVec A) := []
  transDatai : List (BitVec D) := []
  transDatao : List (BitVec D) := []
  sequenceId : ℤ := -1
  deriving DecidableEq

/-- The fields of an item whose type has a value. -/
def SequenceItem.fields (it : SequenceItem D A) : ItemFields D A :=
  ⟨it.transType.toBits, it.transLength, it.transAddr, it.transDatai, it.transDatao, it.sequenceId⟩

namespace ItemFields

open UvmPacker

/-- `copy`, as for an item. -/
def copy (dst src : ItemFields D A) : ItemFields D A := { src with sequenceId := dst.sequenceId }

/-- To copy an item is to copy its fields. -/
lemma fields_copy (dst src : SequenceItem D A) :
    (dst.copy src).fields = dst.fields.copy src.fields := rfl

/-- `__m_uvm_field_automation` for `UVM_PACK`. -/
def packFields (it : ItemFields D A) (p : UvmPacker N) : UvmPacker N :=
  (((p.packField (it.transType.setWidth streamBits) 32).packElement it.transLength
    |>.packQueue it.transAddr).packQueue it.transDatai).packQueue it.transDatao

/-- `__m_uvm_field_automation` for `UVM_UNPACK`.  There is no result when it does not return. -/
def unpackFields (it : ItemFields D A) (p : UvmPacker N) :
    Option (ItemFields D A × UvmPacker N) := do
  let (v, p) := p.unpackFieldInt 32
  let (transLength, p) := p.unpackElement D
  let (transAddr, p) ← p.unpackQueue it.transAddr
  let (transDatai, p) ← p.unpackQueue it.transDatai
  let (transDatao, p) ← p.unpackQueue it.transDatao
  some (⟨v.setWidth 32, transLength, transAddr, transDatai, transDatao, it.sequenceId⟩, p)

/-- `m_pack`. -/
def mPack (it : ItemFields D A) (p : UvmPacker N) : UvmPacker N :=
  (it.packFields p.reset).setPackedSize

/-- `pack`: the stream of the packer. -/
def pack (it : ItemFields D A) (p : UvmPacker N) : List Bool := (it.mPack p).getBits

/-- `pack_bytes`. -/
def packBytes (it : ItemFields D A) (p : UvmPacker N) : List (BitVec 8) :=
  (it.mPack p).getWords 8

/-- `pack_ints`. -/
def packInts (it : ItemFields D A) (p : UvmPacker N) : List (BitVec 32) :=
  (it.mPack p).getWords 32

/-- `m_unpack_post`, and the rest of the unpack methods. -/
def mUnpackPost (it : ItemFields D A) (p : UvmPacker N) :
    Option (ItemFields D A × UvmPacker N) := do
  let (it, p') ← it.unpackFields p
  let p' := if p'.mPackedSize ≠ p.mPackedSize then
      p'.report (.unpackUnsuccessful p'.mPackedSize p.mPackedSize)
    else p'
  some (it, p'.setPackedSize)

/-- `unpack`. -/
def unpack (it : ItemFields D A) (bitstream : List Bool) (p : UvmPacker N) :
    Option (ItemFields D A × UvmPacker N) :=
  it.mUnpackPost (p.reset.putBits bitstream)

/-- `unpack_bytes`. -/
def unpackBytes (it : ItemFields D A) (bytestream : List (BitVec 8)) (p : UvmPacker N) :
    Option (ItemFields D A × UvmPacker N) :=
  it.mUnpackPost (p.reset.putWords bytestream)

/-- `unpack_ints`. -/
def unpackInts (it : ItemFields D A) (intstream : List (BitVec 32)) (p : UvmPacker N) :
    Option (ItemFields D A × UvmPacker N) :=
  it.mUnpackPost (p.reset.putWords intstream)

end ItemFields

end SinglePortRam
