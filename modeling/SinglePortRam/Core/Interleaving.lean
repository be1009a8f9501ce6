import SinglePortRam.Core.ClockedProcess

/-!
# Two processes side by side

The threads of a `fork` belong to one process.  Two processes that know nothing of each other share
the clock: an edge wakes both, and in the time before the next one their assignments are executed in
any order, also one by one in turns.

* `Alongside` — one process is executed to its end, and another one as far as it gets meanwhile.
* `advance`, `beside` — the order in which the other process always goes first.
* **`Alongside.run_beside`** — if the assignments of the two processes commute, every order comes to
  the same.
-/

namespace Clocked

open Proc

variable {σ S : Type*}

/-- `Alongside c q p s q' s'`: in some order of their assignments, the process `p` is executed from
`s` to its end in `s'`, while of the process `q` beside it the rest `q'` is left. -/
inductive Alongside (c : Clock σ S) : Proc σ → Proc σ → S → Proc σ → S → Prop where
  | done {q s} : Alongside c q halt s q s
  | own {f q p s q' s'} (h : Alongside c q p (c.assign f s) q' s') :
      Alongside c q (step f p) s q' s'
  | other {f q p s q' s'} (h : Alongside c q p (c.assign f s) q' s') :
      Alongside c (step f q) p s q' s'
  | wait {q p s q' s'} (h : Alongside c q p (c.tick s) q' s') :
      Alongside c (wait q) (wait p) s q' s'
  | alone {p s q' s'} (h : Alongside c halt p (c.tick s) q' s') :
      Alongside c halt (wait p) s q' s'

namespace Clock

variable (c : Clock σ S)

/-- Execute a process up to its next wait. -/
def advance : Proc σ → S → Proc σ × S
  | halt, s => (halt, s)
  | step f q, s => advance q (c.assign f s)
  | wait q, s => (wait q, s)

/-- The clock for a process beside which another one is executed: at every edge, what is left of the
other process goes first. -/
def beside : Clock σ (Proc σ × S) where
  assign f x := (x.1, c.assign f x.2)
  tick x :=
    match x.1 with
    | wait q => c.advance q (c.tick x.2)
    | q => (q, c.tick x.2)

variable {c} {P Q : (σ → σ) → Prop}

/-- An assignment may be executed before or after what the other process does without waiting. -/
lemma advance_assign {f : σ → σ}
    (hcomm : ∀ g, Q g → ∀ s, c.assign f (c.assign g s) = c.assign g (c.assign f s)) :
    ∀ {q : Proc σ}, q.All Q → ∀ s,
      c.advance q (c.assign f s) = c.beside.assign f (c.advance q s)
  | halt, _, _ => rfl
  | step g q, hq, s => by
      rw [advance, advance, ← hcomm g hq.1 s, advance_assign hcomm (q := q) hq.2]
  | wait _, _, _ => rfl

/-- What the assignments of a process preserve holds when it waits, if it held before. -/
lemma advance_invariant {I : S → Prop} (hassign : ∀ f, Q f → ∀ s, I s → I (c.assign f s)) :
    ∀ {q : Proc σ}, q.All Q → ∀ {s}, I s → I (c.advance q s).2
  | halt, _, _, hs => hs
  | step f q, hq, s, hs => advance_invariant hassign (q := q) hq.2 (hassign f hq.1 s hs)
  | wait _, _, _, hs => hs

end Clock

namespace Alongside

variable {c : Clock σ S} {P Q : (σ → σ) → Prop} {q p q' : Proc σ} {s s' : S}

/-- What is left of the other process is a part of it. -/
lemma all (h : Alongside c q p s q' s') (hq : q.All Q) : q'.All Q := by
  induction h with
  | done => exact hq
  | own _ ih => exact ih hq
  | other _ ih => exact ih hq.2
  | wait _ ih => exact ih hq
  | alone _ ih => exact ih hq

/-- **The invariant rule** for two processes. -/
theorem invariant {I : S → Prop} (hp : ∀ f, P f → ∀ s, I s → I (c.assign f s))
    (hq : ∀ f, Q f → ∀ s, I s → I (c.assign f s)) (htick : ∀ s, I s → I (c.tick s))
    (h : Alongside c q p s q' s') (hpP : p.All P) (hqQ : q.All Q) (hs : I s) : I s' := by
  induction h with
  | done => exact hs
  | @own f _ _ s _ _ _ ih => exact ih hpP.2 hqQ (hp f hpP.1 s hs)
  | @other f _ _ s _ _ _ ih => exact ih hpP hqQ.2 (hq f hqQ.1 s hs)
  | @wait _ _ s _ _ _ ih => exact ih hpP hqQ (htick s hs)
  | @alone _ s _ _ _ ih => exact ih hpP hqQ (htick s hs)

/-- **Every order comes to the same**, if the assignments of the two processes commute: as soon as
the other process waits again, the state is the one to which the canonical order leads. -/
theorem run_beside
    (hcomm : ∀ f g, P f → Q g → ∀ s, c.assign f (c.assign g s) = c.assign g (c.assign f s))
    (h : Alongside c q p s q' s') (hp : p.All P) (hq : q.All Q) :
    c.beside.run p (c.advance q s) = c.advance q' s' := by
  induction h with
  | done => rfl
  | own _ ih =>
      rw [Clock.run_step, ← ih hp.2 hq,
        Clock.advance_assign (fun g hg s => hcomm _ g hp.1 hg s) hq]
  | other _ ih => exact ih hp hq.2
  | wait _ ih => exact ih hp hq
  | alone _ ih => exact ih hp hq

end Alongside

/-- Neither process keeps the other one from going on. -/
theorem exists_alongside (c : Clock σ S) (q p : Proc σ) (s : S) :
    ∃ q' s', Alongside c q p s q' s' := by
  induction p generalizing q s with
  | halt => exact ⟨q, s, .done⟩
  | step f p ih =>
      obtain ⟨q', s', h⟩ := ih q (c.assign f s)
      exact ⟨q', s', h.own⟩
  | wait p ihp =>
      induction q generalizing s with
      | halt =>
          obtain ⟨q', s', h⟩ := ihp halt (c.tick s)
          exact ⟨q', s', h.alone⟩
      | step g q ihq =>
          obtain ⟨q', s', h⟩ := ihq (c.assign g s)
          exact ⟨q', s', h.other⟩
      | wait q _ =>
          obtain ⟨q', s', h⟩ := ihp q (c.tick s)
          exact ⟨q', s', h.wait⟩

end Clocked
