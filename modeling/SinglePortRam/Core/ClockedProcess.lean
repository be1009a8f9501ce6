import Mathlib.Tactic

/-!
# Processes that wait for a clock

The procedural code of a testbench runs in zero time until it reaches an `@(posedge clk)`, and
goes on at the next rising edge.  A process is modelled by what is left of it to execute: an
assignment and the code after it, a wait for the next edge and the code after that, or nothing.
`fork … join` starts two threads at the same moment and lets them wait for the same edges.

* `Proc` — processes over a store `σ`, with sequential composition `++`, `forLoop` and `fork`.
* `Clock` — what surrounds the process: how an assignment acts on the simulation state and what
  happens when time advances to the next edge.
* `run` — execution to the end, with the invariant rule and the frame rule.
* **`run_fork_comm`** — the order in which the two threads of a `fork` are executed at an edge does
  not matter when their assignments commute.
-/

namespace Clocked

/-- What a process has left to execute. -/
inductive Proc (σ : Type*) where
  | halt : Proc σ
  | step (f : σ → σ) (k : Proc σ) : Proc σ
  | wait (k : Proc σ) : Proc σ

namespace Proc

variable {σ : Type*}

/-- A single assignment. -/
def assign (f : σ → σ) : Proc σ := step f halt

/-- `@(posedge clk)`. -/
def posedge : Proc σ := wait halt

/-- One process after the other. -/
def seq : Proc σ → Proc σ → Proc σ
  | halt, q => q
  | step f p, q => step f (seq p q)
  | wait p, q => wait (seq p q)

instance : Append (Proc σ) := ⟨seq⟩

@[simp] lemma halt_append (q : Proc σ) : halt ++ q = q := rfl
@[simp] lemma step_append (f : σ → σ) (p q : Proc σ) : step f p ++ q = step f (p ++ q) := rfl
@[simp] lemma wait_append (p q : Proc σ) : wait p ++ q = wait (p ++ q) := rfl
@[simp] lemma assign_append (f : σ → σ) (q : Proc σ) : assign f ++ q = step f q := rfl
@[simp] lemma posedge_append (q : Proc σ) : posedge ++ q = wait q := rfl

@[simp] lemma append_halt (p : Proc σ) : p ++ halt = p := by
  induction p with
  | halt => rfl
  | step f p ih => rw [step_append, ih]
  | wait p ih => rw [wait_append, ih]

lemma append_assoc (p q r : Proc σ) : p ++ q ++ r = p ++ (q ++ r) := by
  induction p with
  | halt => rfl
  | step f p ih => simp only [step_append, ih]
  | wait p ih => simp only [wait_append, ih]

/-- The iterations `i, i + 1, …` of a loop that has `m` of them left. -/
def forFrom (body : ℕ → Proc σ) : ℕ → ℕ → Proc σ
  | _, 0 => halt
  | i, m + 1 => body i ++ forFrom body (i + 1) m

/-- `for (i = 0; i < n; i = i + 1) body`. -/
def forLoop (n : ℕ) (body : ℕ → Proc σ) : Proc σ := forFrom body 0 n

/-- The iterations of a body that does not look at the counter. -/
lemma forFrom_const (p : Proc σ) (i m : ℕ) :
    forFrom (fun _ => p) i m = forFrom (fun _ => p) 0 m := by
  induction m generalizing i with
  | zero => rfl
  | succ m ih => rw [forFrom, forFrom, ih, ih 1]

/-- The second thread of a `fork` while the first one, with `p` to do, waits for the edge;
`rest q` is the fork of `p` and `q`. -/
def forkWait (p : Proc σ) (rest : Proc σ → Proc σ) : Proc σ → Proc σ
  | halt => wait p
  | step g q => step g (forkWait p rest q)
  | wait q => wait (rest q)

/-- `fork p q join`: at every edge the first thread is executed up to its next wait and then the
second one; the fork is over when both are. -/
def fork : Proc σ → Proc σ → Proc σ
  | halt => fun q => q
  | step f p => fun q => step f (fork p q)
  | wait p => fun q => forkWait p (fork p) q

@[simp] lemma fork_halt_left (q : Proc σ) : fork halt q = q := rfl
@[simp] lemma fork_step (f : σ → σ) (p q : Proc σ) : fork (step f p) q = step f (fork p q) := rfl
@[simp] lemma fork_wait_halt (p : Proc σ) : fork (wait p) halt = wait p := rfl
@[simp] lemma fork_wait_step (p : Proc σ) (g : σ → σ) (q : Proc σ) :
    fork (wait p) (step g q) = step g (fork (wait p) q) := rfl
@[simp] lemma fork_wait_wait (p q : Proc σ) : fork (wait p) (wait q) = wait (fork p q) := rfl

@[simp] lemma fork_halt_right (p : Proc σ) : fork p halt = p := by
  induction p with
  | halt => rfl
  | step f p ih => rw [fork_step, ih]
  | wait p _ => rfl

/-- The number of edges a process waits for. -/
def edges : Proc σ → ℕ
  | halt => 0
  | step _ p => edges p
  | wait p => edges p + 1

@[simp] lemma edges_halt : (halt : Proc σ).edges = 0 := rfl
@[simp] lemma edges_step (f : σ → σ) (p : Proc σ) : (step f p).edges = p.edges := rfl
@[simp] lemma edges_wait (p : Proc σ) : (wait p).edges = p.edges + 1 := rfl
@[simp] lemma edges_assign (f : σ → σ) : (assign f).edges = 0 := rfl
@[simp] lemma edges_posedge : (posedge : Proc σ).edges = 1 := rfl

@[simp] lemma edges_append (p q : Proc σ) : (p ++ q).edges = p.edges + q.edges := by
  induction p with
  | halt => simp
  | step f p ih => simpa using ih
  | wait p ih => simp only [wait_append, edges_wait, ih]; omega

/-- A fork waits as long as the thread that waits longer. -/
theorem edges_fork (p q : Proc σ) : (fork p q).edges = max p.edges q.edges := by
  induction p generalizing q with
  | halt => simp
  | step f p ih => simpa using ih q
  | wait p ihp =>
      induction q with
      | halt => simp
      | step g q ihq => simpa using ihq
      | wait q _ => simp [ihp]

/-- Every assignment of the process satisfies `P`. -/
def All (P : (σ → σ) → Prop) : Proc σ → Prop
  | halt => True
  | step f p => P f ∧ All P p
  | wait p => All P p

variable {P : (σ → σ) → Prop}

/-- A weaker condition holds of all assignments as well. -/
lemma All.mono {Q : (σ → σ) → Prop} (h : ∀ f, P f → Q f) {p : Proc σ} (hp : p.All P) :
    p.All Q := by
  induction p with
  | halt => trivial
  | step f p ih => exact ⟨h f hp.1, ih hp.2⟩
  | wait p ih => exact ih hp

@[simp] lemma All_step {f : σ → σ} {p : Proc σ} : (step f p).All P ↔ P f ∧ p.All P := Iff.rfl

@[simp] lemma All_wait {p : Proc σ} : (wait p).All P ↔ p.All P := Iff.rfl

@[simp] lemma All_assign {f : σ → σ} : (assign f).All P ↔ P f := by simp [assign, All]

@[simp] lemma All_posedge : (posedge : Proc σ).All P := trivial

@[simp] lemma All_append {p q : Proc σ} : (p ++ q).All P ↔ p.All P ∧ q.All P := by
  induction p with
  | halt => simp [All]
  | step f p ih => simp [All, ih, and_assoc]
  | wait p ih => simpa [All] using ih

lemma All_forFrom {body : ℕ → Proc σ} (h : ∀ i, (body i).All P) (i m : ℕ) :
    (forFrom body i m).All P := by
  induction m generalizing i with
  | zero => trivial
  | succ m ih => exact All_append.mpr ⟨h i, ih (i + 1)⟩

lemma All_forLoop {n : ℕ} {body : ℕ → Proc σ} (h : ∀ i, (body i).All P) :
    (forLoop n body).All P := All_forFrom h 0 n

lemma All_fork {p q : Proc σ} (hp : p.All P) (hq : q.All P) : (fork p q).All P := by
  induction p generalizing q with
  | halt => exact hq
  | step f p ih => exact ⟨hp.1, ih hp.2 hq⟩
  | wait p ihp =>
      induction q with
      | halt => exact hp
      | step g q ihq => exact ⟨hq.1, ihq hq.2⟩
      | wait q _ => exact ihp hp hq

end Proc

/-! ## Execution -/

/-- The surroundings of a process: the effect of its assignments on the simulation state, and the
passage of time to the next rising edge. -/
structure Clock (σ S : Type*) where
  assign : (σ → σ) → S → S
  tick : S → S

namespace Clock

open Proc

variable {σ S : Type*} (c : Clock σ S)

/-- Execution of a process to its end. -/
def run : Proc σ → S → S
  | halt, s => s
  | step f p, s => run p (c.assign f s)
  | wait p, s => run p (c.tick s)

@[simp] lemma run_halt (s : S) : c.run halt s = s := rfl
@[simp] lemma run_step (f : σ → σ) (p : Proc σ) (s : S) :
    c.run (step f p) s = c.run p (c.assign f s) := rfl
@[simp] lemma run_wait (p : Proc σ) (s : S) : c.run (wait p) s = c.run p (c.tick s) := rfl
@[simp] lemma run_assign (f : σ → σ) (s : S) : c.run (Proc.assign f) s = c.assign f s := rfl
@[simp] lemma run_posedge (s : S) : c.run posedge s = c.tick s := rfl

@[simp] theorem run_append (p q : Proc σ) (s : S) : c.run (p ++ q) s = c.run q (c.run p s) := by
  induction p generalizing s with
  | halt => rfl
  | step f p ih => exact ih _
  | wait p ih => exact ih _

/-- **The invariant rule.**  What every assignment of the process and every edge preserve holds
after the process if it holds before. -/
theorem run_invariant {I : S → Prop} {P : (σ → σ) → Prop}
    (hassign : ∀ f, P f → ∀ s, I s → I (c.assign f s)) (htick : ∀ s, I s → I (c.tick s)) :
    ∀ {p : Proc σ}, p.All P → ∀ {s}, I s → I (c.run p s)
  | halt, _, _, hs => hs
  | step f p, hp, s, hs => run_invariant hassign htick (p := p) hp.2 (hassign f hp.1 s hs)
  | wait p, hp, s, hs => run_invariant hassign htick (p := p) hp (htick s hs)

/-- **The frame rule.**  A change of the state that commutes with every assignment of the process
and with every edge may be made before the process or after it. -/
theorem run_comm {g : S → S} {P : (σ → σ) → Prop}
    (hassign : ∀ f, P f → ∀ s, c.assign f (g s) = g (c.assign f s))
    (htick : ∀ s, c.tick (g s) = g (c.tick s)) :
    ∀ {p : Proc σ}, p.All P → ∀ s, c.run p (g s) = g (c.run p s)
  | halt, _, _ => rfl
  | step f p, hp, s => by
      rw [run_step, hassign f hp.1, run_comm hassign htick (p := p) hp.2, run_step]
  | wait p, hp, s => by
      rw [run_wait, htick, run_comm hassign htick (p := p) hp, run_wait]

/-! ## The order of the threads of a fork -/

variable {c} {P Q : (σ → σ) → Prop}

/-- An assignment that commutes with the first thread can be executed before it. -/
lemma run_fork_step_right {f : σ → σ}
    (hcomm : ∀ g, Q g → ∀ s, c.assign f (c.assign g s) = c.assign g (c.assign f s))
    {q : Proc σ} (hq : q.All Q) (p : Proc σ) (s : S) :
    c.run (fork q (step f p)) s = c.run (fork q p) (c.assign f s) := by
  induction q generalizing s with
  | halt => rfl
  | step g q ih =>
      rw [fork_step, fork_step, run_step, run_step, ih hq.2, hcomm g hq.1]
  | wait q _ => rfl

/-- **Commuting threads may be executed in either order** at every edge they are both woken by. -/
theorem run_fork_comm
    (hcomm : ∀ f g, P f → Q g → ∀ s, c.assign f (c.assign g s) = c.assign g (c.assign f s))
    {p q : Proc σ} (hp : p.All P) (hq : q.All Q) (s : S) :
    c.run (fork p q) s = c.run (fork q p) s := by
  induction p generalizing q s with
  | halt => simp
  | step f p ih =>
      rw [run_fork_step_right (fun g hg s => hcomm f g hp.1 hg s) hq, fork_step, run_step,
        ih hp.2 hq]
  | wait p ihp =>
      induction q generalizing s with
      | halt => rfl
      | step g q ihq =>
          rw [fork_wait_step, fork_step, run_step, run_step]
          exact ihq hq.2 _
      | wait q _ =>
          rw [fork_wait_wait, fork_wait_wait, run_wait, run_wait]
          exact ihp (q := q) hp hq _

end Clock

end Clocked
