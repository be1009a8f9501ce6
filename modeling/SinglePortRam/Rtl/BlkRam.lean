import SinglePortRam.Core.FourState
import SinglePortRam.Core.LastWrite

/-!
# The single-port RAM

`rtl/dut.v`: one always block, woken by a rising edge of `clk` or of `rst`, updates the output
register `r_data` and the array `mem` with nonblocking assignments.  `BlkRam.always` is one
execution of that block: it maps the contents of the registers before the edge to their contents
after the nonblocking updates.

The control and address ports carry two-state values.  Data words are four-state, since `mem` and
`r_data` are `reg`s: they start as `x`, and reading a word the array does not have yields `x`.
-/

namespace SinglePortRam

open FourState

/-- The parameters of `blk_ram`, with the defaults of the source. -/
structure RamParams where
  DWIDTH : ℕ := 8
  AWIDTH : ℕ := 8
  MEM_DEPTH : ℕ := 256

variable {P : RamParams}

/-- The values at the input ports. -/
structure RamPorts (P : RamParams) where
  rst : Bool
  en : Bool
  wen : Bool
  addr : BitVec P.AWIDTH
  datai : LogicVec P.DWIDTH

/-- The contents of the array `mem`. -/
abbrev RamWords (P : RamParams) := Fin P.MEM_DEPTH → LogicVec P.DWIDTH

/-- The registers of the module. -/
@[ext] structure BlkRam (P : RamParams) where
  rData : LogicVec P.DWIDTH
  mem : RamWords P

/-- The word of the array that an address selects, if the array has it. -/
def cell? (a : BitVec P.AWIDTH) : Option (Fin P.MEM_DEPTH) :=
  if h : a.toNat < P.MEM_DEPTH then some ⟨a.toNat, h⟩ else none

/-- `mem[addr] <= datai`; without effect when the address is out of range. -/
def storeMem (m : RamWords P) (a : BitVec P.AWIDTH) (d : LogicVec P.DWIDTH) : RamWords P :=
  match cell? a with
  | some i => Function.update m i d
  | none => m

/-- The value of `mem[addr]`. -/
def loadMem (m : RamWords P) (a : BitVec P.AWIDTH) : LogicVec P.DWIDTH :=
  match cell? a with
  | some i => m i
  | none => LogicVec.unknown P.DWIDTH

namespace BlkRam

/-- The always block. -/
def always (r : BlkRam P) (p : RamPorts P) : BlkRam P :=
  if p.rst then { r with rData := LogicVec.ofBits 0#_ }
  else if p.en then
    if p.wen then { r with mem := storeMem r.mem p.addr p.datai }
    else { r with rData := loadMem r.mem p.addr }
  else { r with rData := LogicVec.ofBits 0#_ }

/-- `assign datao = r_data`. -/
def datao (r : BlkRam P) : LogicVec P.DWIDTH := r.rData

variable {r : BlkRam P} {p : RamPorts P}

lemma always_of_rst (h : p.rst = true) : r.always p = ⟨LogicVec.ofBits 0#_, r.mem⟩ := by
  simp [always, h]

lemma always_of_disabled (h : p.rst = false) (he : p.en = false) :
    r.always p = ⟨LogicVec.ofBits 0#_, r.mem⟩ := by
  simp [always, h, he]

lemma always_of_write (h : p.rst = false) (he : p.en = true) (hw : p.wen = true) :
    r.always p = ⟨r.rData, storeMem r.mem p.addr p.datai⟩ := by
  simp [always, h, he, hw]

lemma always_of_read (h : p.rst = false) (he : p.en = true) (hw : p.wen = false) :
    r.always p = ⟨loadMem r.mem p.addr, r.mem⟩ := by
  simp [always, h, he, hw]

end BlkRam

lemma cell?_eq_some_iff {a : BitVec P.AWIDTH} {i : Fin P.MEM_DEPTH} :
    cell? a = some i ↔ a.toNat = i := by
  rw [cell?]
  split_ifs with h
  · rw [Option.some.injEq, Fin.ext_iff]
  · simp only [false_iff]
    omega

lemma cell?_eq_none_iff {a : BitVec P.AWIDTH} :
    (cell? a : Option (Fin P.MEM_DEPTH)) = none ↔ P.MEM_DEPTH ≤ a.toNat := by
  simp [cell?]

end SinglePortRam
