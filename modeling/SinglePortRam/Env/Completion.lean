import SinglePortRam.Core.Transition
import SinglePortRam.Env.SerialOrder

/-!
# How long the driver takes, and that every sequence completes

An item is on the bus for exactly as many edges as it has elements, and one or two more, whatever
the sequences do meanwhile.  And whatever order their steps are done in, every sequence comes to its
end: no choice of the next action leads into a deadlock or goes on forever.

* `serviceEdgesAll`, **`run_serviceTime`** — the edges of the items, in every run.
* `SequenceState.rank`, `DriverPhase.rank` — how much is left to do.
* **`run_completes`** — what is left to do is bound to be done.
-/

namespace SinglePortRam

open FourState Clocked Proc VipState Testbench

variable {D A : ℕ} {P : RamParams} {sched : ℕ → EdgeOrder}

/-! ## The edges of an item -/

/-- The driver changes neither the type nor the length of an item. -/
lemma serviceEdges_after (t : Taken D A P) :
    (t.after sched).serviceEdges = t.item.serviceEdges := rfl

/-- The edges that all of the items take. -/
def serviceEdgesAll (items : List (SequenceItem D A)) : ℕ :=
  (items.map SequenceItem.serviceEdges).sum

lemma serviceEdgesAll_concat (items : List (SequenceItem D A)) (it : SequenceItem D A) :
    serviceEdgesAll (items ++ [it]) = serviceEdgesAll items + it.serviceEdges := by
  simp [serviceEdgesAll]

/-- The driver, with `left` edges to wait for, works on the item `t` of the sequence `i`, which it
took when all that has been served had had its edges. -/
def OnTime (s : Sequencer D A P) (i left : ℕ) : Prop :=
  ∃ st t, s.seqs[i]? = some st ∧ st.phase = .inFlight t ∧
    s.tb.edges + left = t.edges + t.item.serviceEdges ∧
    serviceEdgesAll s.tb.vip.served ≤ t.edges ∧ t.edges ≤ s.tb.edges

/-- The driver is on time with the item it has: what is left of it waits for the edges that are
left. -/
def TimeInv (s : Sequencer D A P) : Prop :=
  match s.driver with
  | .sending i p => OnTime s i p.edges ∧ p.All IgnoresBooks
  | .waiting i p => OnTime s i (p.edges + 1) ∧ p.All IgnoresBooks
  | .itemDone i => OnTime s i 0
  | _ => serviceEdgesAll s.tb.vip.served ≤ s.tb.edges

/-- The actions of the sequences. -/
def Action.OfSequence : Action D A → Prop
  | .start _ => True
  | .proceed _ _ => True
  | .getResponse _ => True
  | .exit _ => True
  | _ => False

/-- What the sequences do concerns the response queues and the sequences, and no item in flight. -/
lemma Sequencer.step_ofSequence {s s' : Sequencer D A P} {a : Action D A} (ha : a.OfSequence)
    (hs : s.step sched a = some s') :
    ∃ r seqs, s' = { s with tb := s.tb.setQueues r, seqs := seqs } ∧
      ∀ (i : ℕ) (st : SequenceState D A P) (t : Taken D A P), s.seqs[i]? = some st →
        st.phase = .inFlight t → ∃ st' : SequenceState D A P, seqs[i]? = some st' ∧
          st'.phase = .inFlight t := by
  have hset {j : ℕ} {stj stj' : SequenceState D A P} (hj : s.seqs[j]? = some stj)
      (hflight : ∀ t, stj.phase ≠ .inFlight t) (i : ℕ) (st : SequenceState D A P)
      (t : Taken D A P) (hi : s.seqs[i]? = some st) (hp : st.phase = .inFlight t) :
      ∃ st' : SequenceState D A P, (s.seqs.set j stj')[i]? = some st' ∧
        st'.phase = .inFlight t := by
    have hne : j ≠ i := by
      rintro rfl
      obtain rfl := Option.some.inj (hi.symm.trans hj)
      exact hflight t hp
    exact ⟨st, (List.getElem?_set_ne hne).trans hi, hp⟩
  cases a with
  | start kind =>
      obtain rfl := Option.some.inj hs
      refine ⟨_, _, congrArg (fun tb => ({ s with tb := tb, seqs := _ } : Sequencer D A P))
        (assign_startSequence_eq _ s.tb), ?_⟩
      intro i st t hi hp
      exact ⟨st, (List.getElem?_append_left (List.getElem?_eq_some_iff.mp hi).1).trans hi, hp⟩
  | proceed j r =>
      simp only [Sequencer.step, Sequencer.proceed] at hs
      split at hs
      · next kind req hj =>
        obtain rfl := Option.some.inj hs
        exact ⟨s.tb.vip.regSequences, _, rfl, hset hj (by simp)⟩
      · cases hs
  | grant j => exact ha.elim
  | execute => exact ha.elim
  | getResponse j =>
      simp only [Sequencer.step, Sequencer.getResponse] at hs
      split at hs
      · next kind t req r rest hj hqueue =>
        obtain rfl := Option.some.inj hs
        rw [assign_popResponse_eq]
        exact ⟨_, _, rfl, hset hj (by simp)⟩
      · cases hs
  | exit j =>
      simp only [Sequencer.step, Sequencer.exit] at hs
      split at hs
      · next kind req hj =>
        obtain rfl := Option.some.inj hs
        rw [assign_exitSequence_eq]
        exact ⟨_, _, rfl, hset hj (by simp)⟩
      · cases hs
  | posedge => exact ha.elim

namespace TimeInv

variable {s s' : Sequencer D A P}

/-- What the sequences do takes no time. -/
lemma ofSequence (h : TimeInv s) {a : Action D A} (hs : s.step sched a = some s')
    (ha : a.OfSequence) : TimeInv s' := by
  obtain ⟨r, seqs, rfl, hkept⟩ := Sequencer.step_ofSequence ha hs
  have hframe {i left : ℕ} (h : OnTime s i left) :
      OnTime { s with tb := s.tb.setQueues r, seqs := seqs } i left := by
    obtain ⟨st, t, hi, hp, htime⟩ := h
    obtain ⟨st', hi', hp'⟩ := hkept i st t hi hp
    exact ⟨st', t, hi', hp', htime⟩
  rw [TimeInv] at h ⊢
  cases hd : s.driver with
  | getNextItem =>
      simp only [hd] at h
      exact h
  | sending i p =>
      simp only [hd] at h
      exact ⟨hframe h.1, h.2⟩
  | waiting i p =>
      simp only [hd] at h
      exact ⟨hframe h.1, h.2⟩
  | itemDone i =>
      simp only [hd] at h
      exact hframe h
  | setIdInfo i =>
      simp only [hd] at h
      exact h
  | putResponse i =>
      simp only [hd] at h
      exact h

/-- When an item is granted, the time of its transfer begins. -/
lemma grant {i : ℕ} (h : TimeInv s) (hs : s.grant i = some s') : TimeInv s' := by
  rw [Sequencer.grant] at hs
  split at hs
  case h_2 => cases hs
  case h_1 kind req hd hi =>
    obtain rfl := Option.some.inj hs
    have hbefore : serviceEdgesAll s.tb.vip.served ≤ s.tb.edges := by
      simpa only [TimeInv, hd] using h
    have hlt : i < s.seqs.length := (List.getElem?_eq_some_iff.mp hi).1
    refine ⟨⟨_, _, List.getElem?_set_self hlt, rfl, ?_, hbefore, le_refl _⟩,
      all_ignoresBooks_sendToIf req⟩
    exact congrArg (s.tb.edges + ·) (edges_sendToIf req)

/-- What is executed between two edges takes no time. -/
lemma execute (hinv : Inv sched s) (h : TimeInv s) (hs : s.execute = some s') : TimeInv s' := by
  cases hd : s.driver with
  | getNextItem => simp [Sequencer.execute, hd] at hs
  | sending i p =>
      rw [TimeInv, hd] at h
      obtain ⟨⟨st, t, hi, hp, htime, hbefore, hle⟩, hall⟩ := h
      cases p with
      | step f p =>
          simp only [Sequencer.execute, hd, Option.some.injEq] at hs
          subst hs
          have hserved : (s.tb.assign f).vip.served = s.tb.vip.served := (hall.1.2 s.tb.vip).2
          exact ⟨⟨st, t, hi, hp, htime, hserved ▸ hbefore, hle⟩, hall.2⟩
      | wait p =>
          simp only [Sequencer.execute, hd, Option.some.injEq] at hs
          subst hs
          exact ⟨⟨st, t, hi, hp, htime, hbefore, hle⟩, hall⟩
      | halt =>
          simp only [Sequencer.execute, hd, Option.some.injEq] at hs
          subst hs
          exact ⟨st, t, hi, hp, htime, hbefore, hle⟩
  | waiting i p => simp [Sequencer.execute, hd] at hs
  | itemDone i =>
      rw [TimeInv, hd] at h
      obtain ⟨st, t, hi, hp, htime, hbefore, hle⟩ := h
      have hsent := hinv.driver
      rw [hd] at hsent
      obtain ⟨st', t', hi', hp', -, hsent⟩ := hsent
      obtain rfl := Option.some.inj (hi.symm.trans hi')
      obtain rfl := SequencePhase.inFlight.inj (hp.symm.trans hp')
      simp only [Sequencer.execute, hd, hi, Option.some.injEq] at hs
      subst hs
      show serviceEdgesAll (s.tb.vip.served ++ [s.tb.vip.reqItem]) ≤ s.tb.edges
      rw [serviceEdgesAll_concat, hsent.reqItem, serviceEdges_after]
      omega
  | setIdInfo i =>
      rw [TimeInv, hd] at h
      simp only [Sequencer.execute, hd, Option.some.injEq] at hs
      subst hs
      exact h
  | putResponse i =>
      rw [TimeInv, hd] at h
      simp only [Sequencer.execute, hd, Option.some.injEq] at hs
      subst hs
      exact h

/-- An edge is one of those that the transfer waits for. -/
lemma posedge (h : TimeInv s) (hs : s.posedge sched = some s') : TimeInv s' := by
  rw [Sequencer.posedge] at hs
  split_ifs at hs
  split at hs
  case h_1 hd =>
    obtain rfl := Option.some.inj hs
    rw [TimeInv, hd] at h ⊢
    exact Nat.le_succ_of_le h
  case h_2 i p hd =>
    obtain rfl := Option.some.inj hs
    rw [TimeInv, hd] at h
    obtain ⟨⟨st, t, hi, hp, htime, hbefore, hle⟩, hall⟩ := h
    refine ⟨⟨st, t, hi, hp, ?_, hbefore, Nat.le_succ_of_le hle⟩, hall⟩
    show s.tb.edges + 1 + p.edges = _
    omega
  case h_3 => cases hs

theorem step {a : Action D A} (hinv : Inv sched s) (h : TimeInv s)
    (hs : s.step sched a = some s') : TimeInv s' := by
  cases a with
  | start kind => exact h.ofSequence hs trivial
  | proceed i r => exact h.ofSequence hs trivial
  | grant i => exact h.grant hs
  | execute => exact h.execute hinv hs
  | getResponse i => exact h.ofSequence hs trivial
  | exit i => exact h.ofSequence hs trivial
  | posedge => exact h.posedge hs

end TimeInv

/-- The driver keeps an item for the edges of its elements and one more, or two for a `READ`, and it
serves one item at a time. -/
structure ServiceTime (s : Sequencer D A P) : Prop where
  exact : ∀ i, s.driver = .itemDone i → ∃ st t, s.seqs[i]? = some st ∧ st.phase = .inFlight t ∧
    s.tb.edges = t.edges + t.item.serviceEdges
  total : serviceEdgesAll s.tb.vip.served ≤ s.tb.edges

/-- The invariant bounds the edges of every item. -/
lemma TimeInv.serviceTime {s : Sequencer D A P} (h : TimeInv s) : ServiceTime s where
  exact i hd := by
    rw [TimeInv, hd] at h
    obtain ⟨st, t, hi, hp, htime, -⟩ := h
    exact ⟨st, t, hi, hp, htime⟩
  total := by
    have hbusy {i left : ℕ} (h : OnTime s i left) :
        serviceEdgesAll s.tb.vip.served ≤ s.tb.edges := by
      obtain ⟨_, _, _, _, _, hbefore, hle⟩ := h
      exact hbefore.trans hle
    rw [TimeInv] at h
    cases hd : s.driver with
    | getNextItem => simpa only [hd] using h
    | sending i p =>
        simp only [hd] at h
        exact hbusy h.1
    | waiting i p =>
        simp only [hd] at h
        exact hbusy h.1
    | itemDone i =>
        simp only [hd] at h
        exact hbusy h
    | setIdInfo i => simpa only [hd] using h
    | putResponse i => simpa only [hd] using h

/-- **The time of an item** does not depend on what the sequences do meanwhile. -/
theorem run_serviceTime (sched : ℕ → EdgeOrder) (ram : BlkRam P) (actions : List (Action D A)) :
    ServiceTime ((Sequencer.initial D A ram).run sched actions) :=
  (Transition.run_invariant (I := fun s => Inv sched s ∧ TimeInv s)
    (fun _ _ _ h hs => ⟨h.1.step hs, h.2.step h.1 hs⟩)
    ⟨Inv.initial ram, Nat.zero_le _⟩ actions).2.serviceTime

/-! ## What is left to do -/

/-- The requests a sequence has yet to see through. -/
def SequenceKind.left : SequenceKind → ℕ
  | .random left => left
  | .read _ => 1
  | .write _ => 1

/-- A bound on the actions of a sequence. -/
def SequenceState.rank (st : SequenceState D A P) : ℕ :=
  match st.phase with
  | .body => 4 * st.kind.left + 2
  | .offered => 4 * (st.kind.left - 1) + 5
  | .inFlight _ => 4 * (st.kind.left - 1) + 4
  | .collecting _ => 4 * (st.kind.left - 1) + 3
  | .ended => 1
  | .exited => 0

/-- The statements and the edges of a process. -/
def procRank {σ : Type*} : Proc σ → ℕ
  | .halt => 0
  | .step _ p => procRank p + 1
  | .wait p => procRank p + 2

/-- How far the driver is from `get_next_item`. -/
def DriverPhase.rank : DriverPhase D A → ℕ
  | .getNextItem => 0
  | .sending _ p => procRank p + 4
  | .waiting _ p => procRank p + 5
  | .itemDone _ => 3
  | .setIdInfo _ => 2
  | .putResponse _ => 1

/-- A granted item is new work for the driver, so the work of the sequences comes first. -/
def Sequencer.rank (s : Sequencer D A P) : ℕ ×ₗ ℕ :=
  toLex ((s.seqs.map SequenceState.rank).sum, s.driver.rank)

/-- An action that is part of the work: no further sequence is started, and the driver does not wait
for its next item. -/
def Sequencer.Working (s : Sequencer D A P) : Action D A → Prop
  | .start _ => False
  | .posedge => s.driver ≠ .getNextItem
  | _ => True

/-- Every sequence is over, and the driver waits for a next item. -/
structure Sequencer.Done (s : Sequencer D A P) : Prop where
  driver : s.driver = .getNextItem
  seqs : ∀ (i : ℕ) (st : SequenceState D A P), s.seqs[i]? = some st → st.phase = .exited

lemma sum_map_set_lt {α : Type*} {f : α → ℕ} {l : List α} {i : ℕ} {a b : α} (hi : l[i]? = some a)
    (h : f b < f a) : ((l.set i b).map f).sum < (l.map f).sum := by
  induction l generalizing i with
  | nil => cases hi
  | cons c l ih =>
      cases i with
      | zero =>
          obtain rfl := Option.some.inj hi
          simpa using h
      | succ i => simpa using ih hi

/-- A sequence that has less to do lowers the rank. -/
lemma rank_lt_of_set {s s' : Sequencer D A P} {i : ℕ} {st st' : SequenceState D A P}
    (hi : s.seqs[i]? = some st) (hseqs : s'.seqs = s.seqs.set i st') (h : st'.rank < st.rank) :
    s'.rank < s.rank := by
  rw [Sequencer.rank, Sequencer.rank, Prod.Lex.toLex_lt_toLex, hseqs]
  exact Or.inl (sum_map_set_lt hi h)

/-- So does a driver that has less to do. -/
lemma rank_lt_of_driver {s s' : Sequencer D A P} (hseqs : s'.seqs = s.seqs)
    (h : s'.driver.rank < s.driver.rank) : s'.rank < s.rank := by
  rw [Sequencer.rank, Sequencer.rank, Prod.Lex.toLex_lt_toLex, hseqs]
  exact Or.inr ⟨rfl, h⟩

namespace SequenceState

lemma rank_proceed_lt (i : ℕ) (r : RandomItem D A) (kind : SequenceKind) (req : SequenceItem D A) :
    (SequenceState.proceed (P := P) i r ⟨kind, .body, req⟩).rank
      < (⟨kind, .body, req⟩ : SequenceState D A P).rank := by
  rw [SequenceState.proceed]
  cases hreq : kind.request r with
  | none =>
      simp only [rank]
      omega
  | some it =>
      have hleft : 0 < kind.left := by
        cases kind with
        | random left =>
            cases left with
            | zero => cases hreq
            | succ left => exact Nat.succ_pos left
        | read q => exact Nat.one_pos
        | write q => exact Nat.one_pos
      simp only [rank]
      omega

lemma rank_itemDone_lt (object : SequenceItem D A) {st : SequenceState D A P} {t : Taken D A P}
    (hp : st.phase = .inFlight t) : (st.itemDone object).rank < st.rank := by
  obtain ⟨kind, phase, req⟩ := st
  obtain rfl : phase = .inFlight t := hp
  cases hc : kind.collects with
  | true => simp [SequenceState.itemDone, hc, rank]
  | false => simp [SequenceState.itemDone, hc, rank]

lemma rank_collect_lt (rsp : SequenceItem D A) (kind : SequenceKind) (t : Taken D A P)
    (req : SequenceItem D A) :
    (SequenceState.collect rsp ⟨kind, .collecting t, req⟩).rank
      < (⟨kind, .collecting t, req⟩ : SequenceState D A P).rank := by
  cases kind with
  | random left => exact Nat.lt_succ_self _
  | read q => simp [SequenceState.collect, rank]
  | write q => simp [SequenceState.collect, rank]

end SequenceState

/-- The driver lowers the rank whenever it goes on. -/
lemma rank_execute_lt {s s' : Sequencer D A P} (hinv : Inv sched s) (hs : s.execute = some s') :
    s'.rank < s.rank := by
  cases hd : s.driver with
  | getNextItem => simp [Sequencer.execute, hd] at hs
  | sending i p =>
      cases p with
      | step f p =>
          simp only [Sequencer.execute, hd, Option.some.injEq] at hs
          subst hs
          exact rank_lt_of_driver rfl (by simp [hd, DriverPhase.rank, procRank])
      | wait p =>
          simp only [Sequencer.execute, hd, Option.some.injEq] at hs
          subst hs
          exact rank_lt_of_driver rfl (by simp [hd, DriverPhase.rank, procRank])
      | halt =>
          simp only [Sequencer.execute, hd, Option.some.injEq] at hs
          subst hs
          exact rank_lt_of_driver rfl (by simp [hd, DriverPhase.rank])
  | waiting i p => simp [Sequencer.execute, hd] at hs
  | itemDone i =>
      have hdriver := hinv.driver
      rw [hd] at hdriver
      obtain ⟨st, t, hi, hp, -⟩ := hdriver
      simp only [Sequencer.execute, hd, hi, Option.some.injEq] at hs
      subst hs
      exact rank_lt_of_set hi rfl (SequenceState.rank_itemDone_lt _ hp)
  | setIdInfo i =>
      simp only [Sequencer.execute, hd, Option.some.injEq] at hs
      subst hs
      exact rank_lt_of_driver rfl (by simp [hd, DriverPhase.rank])
  | putResponse i =>
      simp only [Sequencer.execute, hd, Option.some.injEq] at hs
      subst hs
      exact rank_lt_of_driver rfl (by simp [hd, DriverPhase.rank])

/-- Work does not go on forever. -/
lemma rank_lt_of_working {s s' : Sequencer D A P} {a : Action D A} (hinv : Inv sched s)
    (ha : s.Working a) (hs : s.step sched a = some s') : s'.rank < s.rank := by
  cases a with
  | start kind => exact ha.elim
  | proceed i r =>
      simp only [Sequencer.step, Sequencer.proceed] at hs
      split at hs
      · next kind req hi =>
        obtain rfl := Option.some.inj hs
        exact rank_lt_of_set hi rfl (SequenceState.rank_proceed_lt i r kind req)
      · cases hs
  | grant i =>
      simp only [Sequencer.step, Sequencer.grant] at hs
      split at hs
      · next kind req hd hi =>
        obtain rfl := Option.some.inj hs
        exact rank_lt_of_set hi rfl (Nat.lt_succ_self _)
      · cases hs
  | execute => exact rank_execute_lt hinv hs
  | getResponse i =>
      simp only [Sequencer.step, Sequencer.getResponse] at hs
      split at hs
      · next kind t req r rest hi hqueue =>
        obtain rfl := Option.some.inj hs
        exact rank_lt_of_set hi rfl (SequenceState.rank_collect_lt _ kind t req)
      · cases hs
  | exit i =>
      simp only [Sequencer.step, Sequencer.exit] at hs
      split at hs
      · next kind req hi =>
        obtain rfl := Option.some.inj hs
        exact rank_lt_of_set hi rfl Nat.one_pos
      · cases hs
  | posedge =>
      simp only [Sequencer.step, Sequencer.posedge] at hs
      split_ifs at hs
      split at hs
      · next hd => exact absurd hd ha
      · next i p hd =>
        obtain rfl := Option.some.inj hs
        exact rank_lt_of_driver rfl (by simp [hd, DriverPhase.rank])
      · cases hs

/-- A sequence that waits for the driver is not forgotten. -/
lemma exists_working_of_getNextItem {s : Sequencer D A P} (hinv : Inv sched s)
    (hd : s.driver = .getNextItem) {i : ℕ} {st : SequenceState D A P} (hi : s.seqs[i]? = some st)
    (hp : st.phase ≠ .exited) : ∃ a s', s.Working a ∧ s.step sched a = some s' := by
  have hseq := hinv.seqs i st hi
  obtain ⟨kind, phase, req⟩ := st
  cases phase with
  | body =>
      exact ⟨.proceed i ⟨{}, rfl⟩, _, trivial, by simp [Sequencer.step, Sequencer.proceed, hi]; rfl⟩
  | offered => exact ⟨.grant i, _, trivial, by simp [Sequencer.step, Sequencer.grant, hd, hi]; rfl⟩
  | inFlight t =>
      simp only [SeqInv, hd] at hseq
      exact hseq.2.elim
  | collecting t =>
      simp only [SeqInv, hd] at hseq
      rcases hseq with ⟨-, ⟨-, hanswers⟩ | ⟨hqueue, -⟩⟩
      · exact hanswers.elim
      · exact ⟨.getResponse i, _, trivial,
          by simp [Sequencer.step, Sequencer.getResponse, hi, hqueue]; rfl⟩
  | ended => exact ⟨.exit i, _, trivial, by simp [Sequencer.step, Sequencer.exit, hi]; rfl⟩
  | exited => exact absurd rfl hp

/-- No deadlock: as long as something is left to do, something can be done. -/
lemma exists_working {s : Sequencer D A P} (hinv : Inv sched s) (h : ¬ s.Done) :
    ∃ a s', s.Working a ∧ s.step sched a = some s' := by
  have hdriver := hinv.driver
  cases hd : s.driver with
  | getNextItem =>
      have hleft : ∃ (i : ℕ) (st : SequenceState D A P), s.seqs[i]? = some st ∧
          st.phase ≠ .exited := by
        by_contra hnone
        push Not at hnone
        exact h ⟨hd, hnone⟩
      obtain ⟨i, st, hi, hp⟩ := hleft
      exact exists_working_of_getNextItem hinv hd hi hp
  | sending i p =>
      refine ⟨.execute, ?_⟩
      cases p with
      | step f p => exact ⟨_, trivial, by simp [Sequencer.step, Sequencer.execute, hd]; rfl⟩
      | wait p => exact ⟨_, trivial, by simp [Sequencer.step, Sequencer.execute, hd]; rfl⟩
      | halt => exact ⟨_, trivial, by simp [Sequencer.step, Sequencer.execute, hd]; rfl⟩
  | waiting i p =>
      by_cases hurgent : s.urgent = true
      · rw [Sequencer.urgent, hd] at hurgent
        obtain ⟨j, -, hj⟩ := List.any_eq_true.mp hurgent
        obtain ⟨s', hs'⟩ := Option.isSome_iff_exists.mp hj
        exact ⟨.getResponse j, s', trivial, hs'⟩
      · exact ⟨.posedge, _, by simp [Sequencer.Working, hd],
          by simp [Sequencer.step, Sequencer.posedge, hurgent, hd]; rfl⟩
  | itemDone i =>
      rw [hd] at hdriver
      obtain ⟨st, t, hi, hp, -⟩ := hdriver
      exact ⟨.execute, _, trivial, by simp [Sequencer.step, Sequencer.execute, hd, hi]; rfl⟩
  | setIdInfo i =>
      exact ⟨.execute, _, trivial, by simp [Sequencer.step, Sequencer.execute, hd]; rfl⟩
  | putResponse i =>
      exact ⟨.execute, _, trivial, by simp [Sequencer.step, Sequencer.execute, hd]; rfl⟩

/-- **Every sequence completes**: after every run, whatever work is done next, all of it is bound to
be done. -/
theorem run_completes (sched : ℕ → EdgeOrder) (ram : BlkRam P) (actions : List (Action D A)) :
    Transition.Inevitable (Sequencer.step sched) Sequencer.Working Sequencer.Done
      ((Sequencer.initial D A ram).run sched actions) :=
  Transition.inevitable_of_rank (I := Inv sched) Sequencer.rank (fun _ _ _ h _ hs => h.step hs)
    (fun _ _ _ h ha hs => rank_lt_of_working h ha hs) (fun _ h hgoal => exists_working h hgoal)
    (Transition.run_invariant (I := Inv sched) (fun _ _ _ h hs => h.step hs) (Inv.initial ram)
      actions)

end SinglePortRam
