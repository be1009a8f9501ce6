import SinglePortRam.Rtl.BlkRam
import SinglePortRam.Vip.Driver

/-!
# The testbench around the driver

`env/dut_wrapper.sv` connects the interface to an instance of the RAM, and `tb_top.sv` gives both
the same clock.  A state of the testbench lies inside a time slot: the clock has risen, the
processes woken by it execute, and the RAM's nonblocking updates are applied when they are done.

At every edge the simulator is free to execute the RAM's always block before or after the driver
has gone on to its next wait.  `EdgeOrder` is that choice; a schedule makes it for every edge.
In both cases the driver still reads the data output from before the edge, since the RAM assigns
it with a nonblocking assignment.
-/

namespace SinglePortRam

open FourState Clocked

/-- Which of the two processes woken by a clock edge is executed first. -/
inductive EdgeOrder where
  | ramFirst
  | driverFirst
  deriving DecidableEq

/-- The parameters `dut_wrapper` instantiates the RAM with. -/
def dutParams : RamParams := ⟨16, 8, 256⟩

/-- A RAM that fits an interface of these widths. -/
abbrev fittingParams (D A : ℕ) : RamParams := ⟨D, A, 2 ^ A⟩

/-- The RAM's share of a time slot: the registers it is about to assign, or nothing yet when the
driver goes first. -/
inductive Slot (P : RamParams) where
  | sampled (next : BlkRam P)
  | waiting

/-- The state of the simulation: the master side, the RAM, and its share of the time slot. -/
structure Testbench (D A : ℕ) (P : RamParams) where
  vip : VipState D A
  ram : BlkRam P
  slot : Slot P
  /-- The clock edges so far. -/
  edges : ℕ
  /-- What the master side was driving when each of them arrived, oldest first. -/
  busLog : List (BusCycle D A)

variable {D A : ℕ} {P : RamParams}

/-- The input ports of the instance in `dut_wrapper`; a port of another width truncates or extends
with zeros. -/
def dutPorts (P : RamParams) (dutIf : BlockRamIf D A) : RamPorts P where
  rst := dutIf.reset
  en := dutIf.bus.bramEn
  wen := dutIf.bus.bramWen
  addr := dutIf.bus.bramAddr.setWidth P.AWIDTH
  datai := (LogicVec.ofBits dutIf.bus.bramDatai).resize P.DWIDTH

namespace Testbench

/-- The registers of the RAM when the time slot is over. -/
def settledRam (tb : Testbench D A P) : BlkRam P :=
  match tb.slot with
  | .sampled r => r
  | .waiting => tb.ram.always (dutPorts P tb.vip.msRamIf)

/-- The end of the time slot: the nonblocking updates are applied, and `datao` follows. -/
def settle (tb : Testbench D A P) : Testbench D A P :=
  { tb with
    vip := { tb.vip with
      msRamIf := { tb.vip.msRamIf with bramDatao := tb.settledRam.datao.resize D } }
    ram := tb.settledRam
    slot := .sampled tb.settledRam }

/-- The next rising edge of the clock. -/
def tick (sched : ℕ → EdgeOrder) (tb : Testbench D A P) : Testbench D A P :=
  { tb.settle with
    slot := match sched tb.edges with
      | .ramFirst => .sampled (tb.settledRam.always (dutPorts P tb.vip.msRamIf))
      | .driverFirst => .waiting
    edges := tb.edges + 1
    busLog := tb.busLog ++ [tb.vip.msRamIf.bus] }

/-- An assignment by a process of the master side.  If `reset` rises the always block is woken
again, unless it has not been executed in this slot anyway. -/
def assign (f : VipState D A → VipState D A) (tb : Testbench D A P) : Testbench D A P :=
  { tb with
    vip := f tb.vip
    slot := if !tb.vip.msRamIf.reset && (f tb.vip).msRamIf.reset then
        match tb.slot with
        | .sampled r => .sampled (r.always (dutPorts P (f tb.vip).msRamIf))
        | .waiting => .waiting
      else tb.slot }

/-- The processes of the master side are executed on the testbench. -/
def clock (sched : ℕ → EdgeOrder) : Clock (VipState D A) (Testbench D A P) where
  assign := assign
  tick := tick sched

/-- Before the first edge: nothing driven, `reset` low, and any contents of the RAM. -/
def init (D A : ℕ) (ram : BlkRam P) : Testbench D A P where
  vip :=
    { msRamIf := ⟨false, .idle D A, ram.datao.resize D⟩
      reqItem := {}
      rspItem := {}
      regSequences := fun _ => none
      served := []
      readBack := [] }
  ram := ram
  slot := .sampled ram
  edges := 0
  busLog := []

/-- The array when the time slot is over. -/
def mem (tb : Testbench D A P) : RamWords P := tb.settledRam.mem

end Testbench

/-- The schedule in which the RAM always samples first: what the driver assigns at an edge is
sampled at the next one. -/
def ramAlwaysFirst : ℕ → EdgeOrder := fun _ => .ramFirst

/-- Execution of a process of the master side. -/
def simulate (sched : ℕ → EdgeOrder) (p : Proc (VipState D A)) (tb : Testbench D A P) :
    Testbench D A P :=
  (Testbench.clock sched).run p tb

end SinglePortRam
