import Mathlib.Tactic

/-!
# Systems that do one action after the other

A system is a partial function that performs an action on a state.  A run is a list of actions; an
action that is not possible when its turn comes is left out, so that a list of actions stands for
any interleaving of the parties that perform them.

* `run_invariant` — what every possible action preserves holds after every run.
* **`Simulates.run`** — if one system follows every action of another one with some actions of its
  own, it follows every run.
* `Inevitable` — whichever actions of a kind are chosen, they lead to a goal.
* **`inevitable_of_rank`** — if they lower a rank, and one of them is possible before the goal.
-/

namespace Transition

variable {S T A B : Type*} {step : S → A → Option S} {step' : T → B → Option T}

/-- The state after a list of actions. -/
def run (step : S → A → Option S) (s : S) (actions : List A) : S :=
  actions.foldl (fun s a => (step s a).getD s) s

@[simp] lemma run_nil (s : S) : run step s [] = s := rfl

@[simp] lemma run_cons (s : S) (a : A) (actions : List A) :
    run step s (a :: actions) = run step ((step s a).getD s) actions := rfl

/-- One run after the other. -/
lemma run_append (s : S) (as bs : List A) :
    run step s (as ++ bs) = run step (run step s as) bs := by
  simp [run]

/-- A run of one possible action. -/
lemma run_singleton {s s' : S} {a : A} (h : step s a = some s') : run step s [a] = s' := by
  rw [run_cons, h, Option.getD_some, run_nil]

/-- **The invariant rule.** -/
theorem run_invariant {I : S → Prop} (hstep : ∀ s a s', I s → step s a = some s' → I s') {s : S}
    (hs : I s) (actions : List A) : I (run step s actions) := by
  induction actions generalizing s with
  | nil => exact hs
  | cons a actions ih =>
      refine ih (s := (step s a).getD s) ?_
      cases h : step s a with
      | none => exact hs
      | some s' => exact hstep s a s' hs h

/-- The system `step'` follows the system `step`: a possible action leads from related states to
related states again, for some actions of the follower. -/
def Simulates (step : S → A → Option S) (step' : T → B → Option T) (R : S → T → Prop) : Prop :=
  ∀ s a s' t, R s t → step s a = some s' → ∃ bs, R s' (run step' t bs)

/-- **Simulation**: what one system does in a run, the other one can do. -/
theorem Simulates.run {R : S → T → Prop} (h : Simulates step step' R) {s : S} {t : T} (hR : R s t)
    (actions : List A) : ∃ bs, R (run step s actions) (run step' t bs) := by
  induction actions generalizing s t with
  | nil => exact ⟨[], hR⟩
  | cons a actions ih =>
      cases ha : step s a with
      | none =>
          obtain ⟨bs, hbs⟩ := ih hR
          exact ⟨bs, by rwa [run_cons, ha]⟩
      | some s' =>
          obtain ⟨bs, hbs⟩ := h s a s' t hR ha
          obtain ⟨cs, hcs⟩ := ih hbs
          refine ⟨bs ++ cs, ?_⟩
          rwa [run_cons, ha, run_append]

/-! ## What is bound to happen -/

/-- Whichever possible actions of the kind `own` are performed, one after the other, they lead to a
state of the set `goal`. -/
inductive Inevitable (step : S → A → Option S) (own : S → A → Prop) (goal : S → Prop) :
    S → Prop where
  | now {s} (h : goal s) : Inevitable step own goal s
  | later {s} (possible : ∃ a s', own s a ∧ step s a = some s')
      (h : ∀ a s', own s a → step s a = some s' → Inevitable step own goal s') :
      Inevitable step own goal s

variable {own : S → A → Prop} {goal : S → Prop}

/-- **The rank rule.** -/
theorem inevitable_of_rank {α : Type*} [LT α] [WellFoundedLT α] {I : S → Prop} (rank : S → α)
    (hstep : ∀ s a s', I s → own s a → step s a = some s' → I s')
    (hrank : ∀ s a s', I s → own s a → step s a = some s' → rank s' < rank s)
    (hpossible : ∀ s, I s → ¬ goal s → ∃ a s', own s a ∧ step s a = some s') {s : S} (hs : I s) :
    Inevitable step own goal s := by
  induction hr : rank s using WellFoundedLT.induction generalizing s with
  | ind r ih =>
      by_cases hgoal : goal s
      · exact .now hgoal
      refine .later (hpossible s hs hgoal) ?_
      intro a s' hown ha
      exact ih _ (hr ▸ hrank s a s' hs hown ha) (hstep s a s' hs hown ha) rfl

end Transition
