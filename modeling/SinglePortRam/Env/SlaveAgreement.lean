import SinglePortRam.Env.AbstractMemory
import SinglePortRam.Vip.Slave

/-!
# The slave responder and the RAM

The slave stands in for the RAM behind the interface.  It may serve a request a cycle early, when
the bus changes and not when the edge arrives, and serve it once more at the edge.  Neither shows at
the edges, where the RAM samples.

* `Agree` — the slave and the RAM after an edge: same contents, the threads of the slave wait as the
  last cycle tells, and the data output is the same if that cycle was a read.
* **`slave_agrees`** — on every bus trace.
-/

namespace SinglePortRam

open FourState

variable {D A : ℕ}

/-- The RAM at an edge at which the bus shows `c` and `reset` is low. -/
def ramCycle (c : BusCycle D A) (r : BlkRam (fittingParams D A)) : BlkRam (fittingParams D A) :=
  r.always (dutPorts _ ⟨false, c, r.datao⟩)

/-- The RAM after the first `k` edges of a bus trace. -/
def ramAfterEdges (trace : ℕ → BusCycle D A) (r : BlkRam (fittingParams D A)) :
    ℕ → BlkRam (fittingParams D A)
  | 0 => r
  | k + 1 => ramCycle (trace k) (ramAfterEdges trace r k)

/-- The contents of the slave's memory at the addresses, as an array of the RAM. -/
def ramWords (mem : Fin (2 ^ A + 1) → BitVec D) : RamWords (fittingParams D A) :=
  fun i => LogicVec.ofBits (mem i.castSucc)

/-- After an edge at which the bus showed `c`. -/
structure Agree (c : BusCycle D A) (s : Slave D A) (r : BlkRam (fittingParams D A)) : Prop where
  mem : r.mem = ramWords s.mem
  readThread : s.readThread = .edge ↔ c.isRead = true
  writeThread : s.writeThread = .edge ↔ c.isWrite = true
  datao : c.isRead = true → s.bramDatao = r.datao

lemma ramWords_serve (c : BusCycle D A) (mem : Fin (2 ^ A + 1) → BitVec D) :
    ramWords (Slave.serve c mem)
      = if c.isWrite then storeElem (ramWords mem) (c.bramAddr, c.bramDatai) else ramWords mem := by
  rw [Slave.serve]
  split_ifs with h
  · apply absMem_injective
    rw [absMem_storeElem]
    funext a
    by_cases ha : a = c.bramAddr
    · subst ha
      simp [absMem, ramWords, Slave.cell]
    · have hcell : a.toFin.castSucc ≠ Slave.cell c.bramAddr := fun hc =>
        ha (BitVec.eq_of_toFin_eq (Fin.castSucc_injective _ hc))
      simp [absMem, ramWords, hcell, ha]
  · rfl

lemma ramCycle_mem (c : BusCycle D A) (r : BlkRam (fittingParams D A)) :
    (ramCycle c r).mem
      = if c.isWrite then storeElem r.mem (c.bramAddr, c.bramDatai) else r.mem := by
  rw [ramCycle, BusCycle.isWrite]
  cases he : c.bramEn <;> cases hw : c.bramWen <;>
    simp [BlkRam.always, dutPorts, storeElem, he, hw]

lemma ramCycle_datao {c : BusCycle D A} (h : c.isRead = true) (r : BlkRam (fittingParams D A)) :
    (ramCycle c r).datao = absMem r.mem c.bramAddr := by
  simp only [BusCycle.isRead, Bool.and_eq_true, Bool.not_eq_true'] at h
  simp [ramCycle, BlkRam.always, BlkRam.datao, dutPorts, h.1, h.2, loadMem, cell?_fitting, absMem]

/-- **One cycle** of any kind makes the slave and the RAM agree about it, if their contents were the
same. -/
lemma agree_cycle (c : BusCycle D A) {s : Slave D A} {r : BlkRam (fittingParams D A)}
    (h : r.mem = ramWords s.mem) : Agree c (s.cycle c) (ramCycle c r) where
  mem := by rw [ramCycle_mem, s.cycle_mem, ramWords_serve, h]
  readThread := s.cycle_readThread c
  writeThread := s.cycle_writeThread c
  datao := fun hread => by
    rw [Slave.cycle_bramDatao hread, ramCycle_datao hread, h]
    rfl

lemma mem_afterEdges (trace : ℕ → BusCycle D A) {s : Slave D A}
    {r : BlkRam (fittingParams D A)} (h : r.mem = ramWords s.mem) (k : ℕ) :
    (ramAfterEdges trace r k).mem = ramWords (s.afterEdges trace k).mem := by
  induction k with
  | zero => exact h
  | succ k ih => exact (agree_cycle (trace k) ih).mem

/-- **The slave and the RAM agree** on every bus trace.  Started with the same contents, they hold
the same word at every address after every edge; and after an edge at which a read was sampled, the
data output is the same when the next edge arrives, the bus having changed in between. -/
theorem slave_agrees (mem : Fin (2 ^ A + 1) → BitVec D) (rData datao : LogicVec D)
    (trace : ℕ → BusCycle D A) (k : ℕ) :
    let slave := (Slave.start mem datao).afterEdges trace
    let ram := ramAfterEdges trace ⟨rData, ramWords mem⟩
    (∀ a, absMem (ram (k + 1)).mem a = LogicVec.ofBits ((slave (k + 1)).mem (Slave.cell a))) ∧
    ((trace k).isRead = true →
      ((slave (k + 1)).busChange (trace (k + 1))).bramDatao = (ram (k + 1)).datao) := by
  intro slave ram
  have hagree : Agree (trace k) (slave (k + 1)) (ram (k + 1)) :=
    agree_cycle (trace k) (mem_afterEdges trace rfl k)
  refine ⟨?_, ?_⟩
  · intro a
    rw [hagree.mem]
    rfl
  · intro hread
    rw [Slave.busChange_bramDatao (hagree.readThread.mpr hread)]
    exact hagree.datao hread

end SinglePortRam
