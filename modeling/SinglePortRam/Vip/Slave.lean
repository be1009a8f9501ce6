import SinglePortRam.Vip.SequenceItem

/-!
# The slave responder

`block_ram_driver.sv`: `receive_from_if` and the slave loop of `run_phase`.  One iteration forks two
threads.  Each waits for its levels on the bus, serves the request, and waits for a clock edge; the
first edge that ends a thread ends the iteration, and the next one starts with the bus as it is
then.

The slave is not clocked: it acts when the bus changes, `Slave.busChange`, and when the clock rises,
`Slave.posedge`.
-/

namespace SinglePortRam

open FourState

variable {D A : ℕ}

/-- What a thread of `receive_from_if` is waiting for. -/
inductive SlaveThread where
  | level
  | edge
  deriving DecidableEq

/-- The slave: its memory, the `bram_datao` it drives, and its two threads. -/
structure Slave (D A : ℕ) where
  /-- `bit [DATA_WIDTH-1:0] mem [2**ADDR_WIDTH:0]`. -/
  mem : Fin (2 ^ A + 1) → BitVec D
  bramDatao : LogicVec D
  readThread : SlaveThread
  writeThread : SlaveThread

/-- `bram_en == 1'b1 && bram_wen == 1'b0`. -/
def BusCycle.isRead (c : BusCycle D A) : Bool := c.bramEn && !c.bramWen

/-- `bram_en == 1'b1 && bram_wen == 1'b1`. -/
def BusCycle.isWrite (c : BusCycle D A) : Bool := c.bramEn && c.bramWen

lemma BusCycle.isWrite_eq_false_of_isRead {c : BusCycle D A} (h : c.isRead = true) :
    c.isWrite = false := by
  simp_all [isRead, isWrite]

namespace Slave

/-- The cell an address selects; the last cell of the array has no address. -/
def cell (a : BitVec A) : Fin (2 ^ A + 1) := a.toFin.castSucc

/-- The reading thread, if it waits for its levels, in the presence of the bus cycle `c`. -/
def wakeRead (c : BusCycle D A) (s : Slave D A) : Slave D A :=
  if s.readThread = .level ∧ c.isRead then
    { s with bramDatao := LogicVec.ofBits (s.mem (cell c.bramAddr)), readThread := .edge }
  else s

/-- The writing thread, likewise. -/
def wakeWrite (c : BusCycle D A) (s : Slave D A) : Slave D A :=
  if s.writeThread = .level ∧ c.isWrite then
    { s with mem := Function.update s.mem (cell c.bramAddr) c.bramDatai, writeThread := .edge }
  else s

/-- The bus changes to `c`: a thread that waits for its levels is woken if they are there. -/
def busChange (c : BusCycle D A) (s : Slave D A) : Slave D A := wakeWrite c (wakeRead c s)

/-- `receive_from_if` is called, with `c` on the bus. -/
def receiveFromIf (c : BusCycle D A) (s : Slave D A) : Slave D A :=
  busChange c { s with readThread := .level, writeThread := .level }

/-- The clock rises with `c` on the bus: `join_any` is over if a thread was waiting for the edge,
`disable fork` ends the other one, and the loop calls `receive_from_if` again. -/
def posedge (c : BusCycle D A) (s : Slave D A) : Slave D A :=
  if s.readThread = .edge ∨ s.writeThread = .edge then receiveFromIf c s else s

/-- The loop before its first request. -/
def start (mem : Fin (2 ^ A + 1) → BitVec D) (datao : LogicVec D) : Slave D A :=
  ⟨mem, datao, .level, .level⟩

/-- One cycle: the bus changes to `c`, and the next edge arrives. -/
def cycle (c : BusCycle D A) (s : Slave D A) : Slave D A := posedge c (busChange c s)

/-- The slave after the first `k` edges of a bus that shows `trace 0`, `trace 1`, … when they
arrive, and changes right after each of them. -/
def afterEdges (trace : ℕ → BusCycle D A) (s : Slave D A) : ℕ → Slave D A
  | 0 => s
  | k + 1 => cycle (trace k) (afterEdges trace s k)

/-! ## What one cycle does -/

/-- The memory once `c` has been served: a write is performed. -/
def serve (c : BusCycle D A) (mem : Fin (2 ^ A + 1) → BitVec D) : Fin (2 ^ A + 1) → BitVec D :=
  if c.isWrite then Function.update mem (cell c.bramAddr) c.bramDatai else mem

@[simp] lemma serve_serve (c : BusCycle D A) (mem : Fin (2 ^ A + 1) → BitVec D) :
    serve c (serve c mem) = serve c mem := by
  simp only [serve]
  split_ifs <;> simp

/-- A bus change serves the new cycle early, unless the writing thread waits for the edge. -/
lemma busChange_mem (c : BusCycle D A) (s : Slave D A) :
    (busChange c s).mem = if s.writeThread = .level then serve c s.mem else s.mem := by
  obtain ⟨mem, datao, reading, writing⟩ := s
  cases reading <;> cases writing <;> cases hr : c.isRead <;> cases hw : c.isWrite <;>
    simp [busChange, wakeWrite, wakeRead, serve, hr, hw]

lemma busChange_readThread (c : BusCycle D A) (s : Slave D A) :
    (busChange c s).readThread = .edge ↔ s.readThread = .edge ∨ c.isRead = true := by
  obtain ⟨mem, datao, reading, writing⟩ := s
  cases reading <;> cases writing <;> cases hr : c.isRead <;> cases hw : c.isWrite <;>
    simp [busChange, wakeWrite, wakeRead, hr, hw]

lemma busChange_writeThread (c : BusCycle D A) (s : Slave D A) :
    (busChange c s).writeThread = .edge ↔ s.writeThread = .edge ∨ c.isWrite = true := by
  obtain ⟨mem, datao, reading, writing⟩ := s
  cases reading <;> cases writing <;> cases hr : c.isRead <;> cases hw : c.isWrite <;>
    simp [busChange, wakeWrite, wakeRead, hr, hw]

/-- A reading thread that waits for the edge does not see the bus change. -/
lemma busChange_bramDatao {c : BusCycle D A} {s : Slave D A} (h : s.readThread = .edge) :
    (busChange c s).bramDatao = s.bramDatao := by
  have hread : wakeRead c s = s := if_neg (by simp [h])
  rw [busChange, hread, wakeWrite]
  split_ifs <;> rfl

/-- An edge either finds a thread that waits for it, and the loop starts again, or nothing is
requested. -/
lemma cycle_cases (c : BusCycle D A) (s : Slave D A) :
    cycle c s = receiveFromIf c (busChange c s) ∨
      cycle c s = busChange c s ∧ c.isRead = false ∧ c.isWrite = false ∧
        s.readThread = .level ∧ s.writeThread = .level := by
  rw [cycle, posedge]
  split_ifs with h
  · exact Or.inl rfl
  · rw [busChange_readThread, busChange_writeThread] at h
    refine Or.inr ⟨rfl, ?_⟩
    cases hr : s.readThread <;> cases hw : s.writeThread <;> simp_all

/-- The memory after the edge has served the cycle, early or not. -/
lemma cycle_mem (c : BusCycle D A) (s : Slave D A) : (cycle c s).mem = serve c s.mem := by
  have hserve : serve c (busChange c s).mem = serve c s.mem := by
    rw [busChange_mem]
    split_ifs <;> simp
  rcases cycle_cases c s with h | ⟨h, -, -, -, hlevel⟩
  · rw [h, receiveFromIf, busChange_mem, if_pos rfl]
    exact hserve
  · rw [h, busChange_mem, if_pos hlevel]

lemma cycle_readThread (c : BusCycle D A) (s : Slave D A) :
    (cycle c s).readThread = .edge ↔ c.isRead = true := by
  rcases cycle_cases c s with h | ⟨h, hread, -, hlevel, -⟩
  · rw [h, receiveFromIf, busChange_readThread]
    simp
  · rw [h, busChange_readThread]
    simp [hread, hlevel]

lemma cycle_writeThread (c : BusCycle D A) (s : Slave D A) :
    (cycle c s).writeThread = .edge ↔ c.isWrite = true := by
  rcases cycle_cases c s with h | ⟨h, -, hwrite, -, hlevel⟩
  · rw [h, receiveFromIf, busChange_writeThread]
    simp
  · rw [h, busChange_writeThread]
    simp [hwrite, hlevel]

/-- The edge that ends a reading cycle starts a thread that reads once more. -/
lemma cycle_bramDatao {c : BusCycle D A} (hread : c.isRead = true) (s : Slave D A) :
    (cycle c s).bramDatao = LogicVec.ofBits (s.mem (cell c.bramAddr)) := by
  have hwrite : c.isWrite = false := BusCycle.isWrite_eq_false_of_isRead hread
  have hmem : (busChange c s).mem = s.mem := by
    rw [busChange_mem]
    simp [serve, hwrite]
  rcases cycle_cases c s with h | ⟨-, hidle, -⟩
  · rw [h, ← hmem]
    simp [receiveFromIf, busChange, wakeRead, wakeWrite, hread, hwrite]
  · rw [hread] at hidle
    exact absurd hidle (by decide)

end Slave

end SinglePortRam
