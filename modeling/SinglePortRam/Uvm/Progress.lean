import SinglePortRam.Env.Completion
import SinglePortRam.Uvm.Refinement

/-!
# The handshake loses no wake-up

Every process that waits in the handshake waits for a variable that another one changes.  Whatever
is executed next, in every arbitration mode, the sequences that have been started come to their end,
unless a fatal report ends the simulation first.

* `Handshake.rank` — what is left to do, for the sequences, for the driver, and for the sequences
  that have been woken in vain.
* **`Handshake.run_progress`** — all of it is bound to be done.
-/

namespace SinglePortRam

open VipState

variable {D A : ℕ} {P : RamParams} {mode : UvmSequencerArbMode} {sched : ℕ → EdgeOrder}

/-! ## What is left to do -/

/-- A bound on the actions of a sequence. -/
def UvmSequence.rank (st : UvmSequence D A) : ℕ :=
  match st.phase with
  | .body => 4 * st.kind.left + 2
  | .waitForGrant _ _ => 4 * (st.kind.left - 1) + 5
  | .waitForItemDone => 4 * (st.kind.left - 1) + 4
  | .getResponse => 4 * (st.kind.left - 1) + 3
  | .ended => 1
  | .exited => 0

/-- A sequence that has a change of the queue to look at counts one. -/
def UvmSequence.woken (lockArbSize : ℤ) (st : UvmSequence D A) : ℕ :=
  match st.phase with
  | .waitForGrant _ seen => if seen = some lockArbSize then 0 else 1
  | _ => 0

namespace Handshake

/-- How far the driver is from its next wait for a request; in `peek`, with the item there. -/
def driverRank (h : Handshake D A P) : ℕ :=
  match h.driver with
  | .getNextItem => 2
  | .waitForSequences => 1
  | .waitForAvailableSequence => if h.sqr.arbSize = h.sqr.lockArbSize then 0 else 2
  | .peek =>
      match h.sqr.reqFifo with
      | [] => 0
      | i :: _ => ((h.seqs[i]?).map fun st => procRank (sendToIf st.req) + 9).getD 0
  | .busy .getNextItem => 0
  | .busy (.sending _ p) => procRank p + 6
  | .busy (.waiting _ p) => procRank p + 7
  | .busy (.itemDone _) => 5
  | .busy (.setIdInfo _) => 4
  | .busy (.putResponse _) => 3

/-- After a fatal report the driver has nothing left to do. -/
def rank (h : Handshake D A P) : ℕ ×ₗ ℕ ×ₗ ℕ :=
  toLex ((h.seqs.map UvmSequence.rank).sum, toLex (if h.finished then 0 else h.driverRank,
    (h.seqs.map (UvmSequence.woken h.sqr.lockArbSize)).sum))

/-- An action that is part of the work: no further sequence is started, and the driver does not wait
for its next item. -/
def Working (h : Handshake D A P) : HandshakeAction D A → Prop
  | .start _ _ => False
  | .posedge => ∃ i p, h.driver = .busy (.waiting i p)
  | _ => True

/-- Every sequence is over, and the driver waits for a next request. -/
structure Done (h : Handshake D A P) : Prop where
  driver : h.driver = .waitForAvailableSequence
  seqs : ∀ (i : ℕ) (st : UvmSequence D A), h.seqs[i]? = some st → st.phase = .exited

end Handshake

section Rank

variable {h h' : Handshake D A P}

/-- One sequence has less to do, and the driver as much as before. -/
lemma rank_lt_of_seqs {i : ℕ} {st st' : UvmSequence D A} (hi : h.seqs[i]? = some st)
    (hseqs : h'.seqs = h.seqs.set i st') (hlt : st'.rank < st.rank) : h'.rank < h.rank := by
  rw [Handshake.rank, Handshake.rank, Prod.Lex.toLex_lt_toLex, hseqs]
  exact Or.inl (sum_map_set_lt hi hlt)

/-- The driver has less to do, and the sequences as much as before. -/
lemma rank_lt_of_driverRank (hseqs : h'.seqs.map UvmSequence.rank = h.seqs.map UvmSequence.rank)
    (hfinished : h.finished ≠ true) (hlt : h'.finished = true ∧ 0 < h.driverRank ∨
      h'.driverRank < h.driverRank) : h'.rank < h.rank := by
  rw [Handshake.rank, Handshake.rank, Prod.Lex.toLex_lt_toLex, hseqs, Prod.Lex.toLex_lt_toLex,
    if_neg hfinished]
  refine Or.inr ⟨rfl, Or.inl ?_⟩
  dsimp only
  rcases hlt with ⟨hfatal, hpos⟩ | hlt
  · rwa [if_pos hfatal]
  · split_ifs <;> omega

end Rank

namespace UvmSequence

/-- A request is one of those that are left. -/
lemma rank_request_lt {kind : SequenceKind} {r : RandomItem D A} {it : SequenceItem D A}
    (hreq : kind.request r = some it) (req : SequenceItem D A) (requestId : ℕ) (priority : ℤ)
    (semaphore : ℕ) :
    (⟨kind, .waitForGrant requestId none, it, priority, semaphore⟩ : UvmSequence D A).rank
      < (⟨kind, .body, req, priority, semaphore⟩ : UvmSequence D A).rank := by
  have hleft : 0 < kind.left := by
    cases kind with
    | random left =>
        cases left with
        | zero => cases hreq
        | succ left => exact Nat.succ_pos left
    | read q => exact Nat.one_pos
    | write q => exact Nat.one_pos
  simp only [rank]
  omega

/-- A response is the end of a request. -/
lemma rank_collect_lt (rsp : SequenceItem D A) (kind : SequenceKind) (req : SequenceItem D A)
    (priority : ℤ) (semaphore : ℕ) :
    (Handshake.collect rsp ⟨kind, .getResponse, req, priority, semaphore⟩).rank
      < (⟨kind, .getResponse, req, priority, semaphore⟩ : UvmSequence D A).rank := by
  cases kind with
  | random left => exact Nat.lt_succ_self _
  | read q => simp [Handshake.collect, rank]
  | write q => simp [Handshake.collect, rank]

end UvmSequence

namespace Refines

variable {turn : Turn} {h h' : Handshake D A P} {s : Sequencer D A P}

/-! ## Work does not go on forever -/

/-- A sequence goes on with its body. -/
lemma rank_proceed {i : ℕ} {r : RandomItem D A} (hs : h.proceed i r = some h') :
    h'.rank < h.rank := by
  rw [Handshake.proceed] at hs
  split at hs
  case h_2 => cases hs
  case h_1 kind req priority semaphore hi =>
    cases hreq : kind.request r with
    | none =>
        rw [hreq] at hs
        obtain rfl := Option.some.inj hs
        refine rank_lt_of_seqs hi rfl ?_
        simp only [UvmSequence.rank]
        omega
    | some it =>
        rw [hreq] at hs
        obtain rfl := Option.some.inj hs
        exact rank_lt_of_seqs hi rfl (UvmSequence.rank_request_lt hreq req _ priority semaphore)

/-- A sequence that is woken in vain does not look at the same state of the queue again. -/
lemma rank_waitForArbitrationCompleted (hr : Refines mode sched turn h s) {i : ℕ}
    (hs : h.waitForArbitrationCompleted i = some h') : h'.rank < h.rank := by
  rw [Handshake.waitForArbitrationCompleted] at hs
  split at hs
  case h_2 => cases hs
  case h_1 kind requestId n req priority semaphore hi =>
    split_ifs at hs with hwoken hcompleted
    · obtain rfl := hr.turns.turn_of_completed ⟨_, n, hi, rfl⟩ hcompleted
      rw [Handshake.sendRequest_eq hr.turns.vars.1] at hs
      obtain rfl := Option.some.inj hs
      exact rank_lt_of_seqs hi rfl (Nat.lt_succ_self _)
    · obtain rfl := Option.some.inj hs
      set st' : UvmSequence D A :=
        ⟨kind, .waitForGrant requestId (some h.sqr.lockArbSize), req, priority, semaphore⟩
      have hrank : (h.seqs.set i st').map UvmSequence.rank = h.seqs.map UvmSequence.rank :=
        map_set_of_eq hi rfl
      have hdriver : Handshake.driverRank { h with seqs := h.seqs.set i st' } = h.driverRank := by
        have hreq (j : ℕ) : ((h.seqs.set i st')[j]?).map (fun st => procRank (sendToIf st.req) + 9)
            = (h.seqs[j]?).map fun st => procRank (sendToIf st.req) + 9 := by
          have hmap : (h.seqs.set i st').map (fun st => procRank (sendToIf st.req) + 9)
              = h.seqs.map fun st => procRank (sendToIf st.req) + 9 := map_set_of_eq hi rfl
          rw [← List.getElem?_map, ← List.getElem?_map, hmap]
        simp only [Handshake.driverRank, hreq]
      have hwoken' : st'.woken h.sqr.lockArbSize
          < (⟨kind, .waitForGrant requestId n, req, priority, semaphore⟩ : UvmSequence D A).woken
            h.sqr.lockArbSize := by
        simp [UvmSequence.woken, st', hwoken]
      have hfinished : Handshake.finished { h with seqs := h.seqs.set i st' } = h.finished := rfl
      rw [Handshake.rank, Handshake.rank, Prod.Lex.toLex_lt_toLex, hrank, Prod.Lex.toLex_lt_toLex,
        hfinished, hdriver]
      exact Or.inr ⟨rfl, Or.inr ⟨rfl, sum_map_set_lt hi hwoken'⟩⟩

lemma rank_waitForItemDone {i : ℕ} (hs : h.waitForItemDone i = some h') : h'.rank < h.rank := by
  rw [Handshake.waitForItemDone] at hs
  split at hs
  case h_2 => cases hs
  case h_1 kind req priority semaphore hi =>
    split_ifs at hs
    · obtain rfl := Option.some.inj hs
      exact rank_lt_of_seqs hi rfl (Nat.lt_succ_self _)
    · obtain rfl := Option.some.inj hs
      refine rank_lt_of_seqs hi rfl ?_
      simp only [UvmSequence.rank]
      omega

lemma rank_getResponse {i : ℕ} (hs : h.getResponse i = some h') : h'.rank < h.rank := by
  rw [Handshake.getResponse] at hs
  split at hs
  case h_2 => cases hs
  case h_1 kind req priority semaphore r rest hi hqueue =>
    obtain rfl := Option.some.inj hs
    exact rank_lt_of_seqs hi rfl (UvmSequence.rank_collect_lt _ kind req priority semaphore)

lemma rank_exit {i : ℕ} (hs : h.exit i = some h') : h'.rank < h.rank := by
  rw [Handshake.exit] at hs
  split at hs
  case h_2 => cases hs
  case h_1 kind req priority semaphore hi =>
    obtain rfl := Option.some.inj hs
    exact rank_lt_of_seqs hi rfl Nat.one_pos

/-- The driver goes on, towards the end of the item. -/
lemma rank_execute (hr : Refines mode sched turn h s) (hfinished : h.finished ≠ true)
    (hs : h.execute = some h') : h'.rank < h.rank := by
  have hlower {h'' : Handshake D A P} (hseqs : h''.seqs = h.seqs)
      (hlt : h''.driverRank < h.driverRank) : h''.rank < h.rank :=
    rank_lt_of_driverRank (by rw [hseqs]) hfinished (Or.inr hlt)
  rw [Handshake.execute] at hs
  split at hs
  case h_1 hd =>
    obtain rfl := Option.some.inj hs
    obtain rfl := hr.turns.turn_of_between (by rw [hd]; trivial)
    have hcall : h.getNextItem = { h with driver := .waitForSequences } := by
      simp [Handshake.getNextItem, hr.turns.vars.2.2.1, hr.turns.vars.2.2.2.1]
    rw [hcall]
    exact hlower rfl (by simp [Handshake.driverRank, hd])
  case h_2 => cases hs
  case h_3 hd =>
    split_ifs at hs with hne
    obtain rfl := Option.some.inj hs
    exact hlower rfl (by simp [Handshake.driverRank, hd, hne])
  case h_4 hd =>
    rw [Handshake.peek] at hs
    split at hs
    case h_1 => cases hs
    case h_2 i rest hfifo =>
      split at hs
      case h_1 => cases hs
      case h_2 st hi =>
        obtain rfl := Option.some.inj hs
        exact hlower rfl (by simp [Handshake.driverRank, hd, hfifo, hi])
  case h_5 => cases hs
  case h_6 i f p hd =>
    obtain rfl := Option.some.inj hs
    exact hlower rfl (by simp [Handshake.driverRank, hd, procRank])
  case h_7 i p hd =>
    obtain rfl := Option.some.inj hs
    exact hlower rfl (by simp [Handshake.driverRank, hd, procRank])
  case h_8 i hd =>
    obtain rfl := Option.some.inj hs
    exact hlower rfl (by simp [Handshake.driverRank, hd])
  case h_9 => cases hs
  case h_10 i hd =>
    obtain rfl := Option.some.inj hs
    have hdriver : (h.itemDone i).driver = .busy (.setIdInfo i) := by
      rw [Handshake.itemDone]
      split <;> rfl
    have hseqs : (h.itemDone i).seqs = h.seqs.modify i fun st =>
        { st with req := h.tb.vip.reqItem } := by
      rw [Handshake.itemDone]
      split <;> rfl
    refine rank_lt_of_driverRank ?_ hfinished (Or.inr ?_)
    · rw [hseqs]
      refine map_modify_of_eq ?_ h.seqs i
      intro st
      rfl
    · simp [Handshake.driverRank, hdriver, hd]
  case h_11 i hd =>
    obtain rfl := Option.some.inj hs
    exact hlower rfl (by simp [Handshake.driverRank, hd])
  case h_12 i hd =>
    obtain rfl := Option.some.inj hs
    exact hlower rfl (by simp [Handshake.driverRank, hd])

/-- A grant is issued, or a fatal report. -/
lemma rank_nba (hr : Refines mode sched turn h s) (hfinished : h.finished ≠ true) {draw : ℕ}
    (hs : h.nba mode draw = some h') : h'.rank < h.rank := by
  rw [Handshake.nba] at hs
  by_cases hidle : h.runnable = true
  · rw [if_pos hidle] at hs
    cases hs
  rw [if_neg hidle] at hs
  split at hs
  case h_2 => cases hs
  case h_1 hd =>
    obtain rfl := hr.turns.turn_of_between (by rw [hd]; trivial)
    have hone : h.driverRank = 1 := by
      simp [Handshake.driverRank, hd]
    split at hs
    case h_1 r hchoice =>
      obtain rfl := Option.some.inj hs
      -- a report of the arbitration ends the simulation
      have hjust := hr.turns.justified_of_arbitration hr.checks.nonneg hchoice
      have hfatal : r.severity = .fatal := by
        cases r <;> first | rfl | exact hjust.elim
      refine rank_lt_of_driverRank rfl hfinished (Or.inl ⟨?_, hone ▸ Nat.one_pos⟩)
      simp [Handshake.finished, Handshake.report, hfatal]
    case h_2 hchoice =>
      obtain rfl := Option.some.inj hs
      exact rank_lt_of_driverRank rfl hfinished (Or.inr (by simp [Handshake.driverRank, hd]))
    case h_3 k hchoice =>
      obtain rfl := Option.some.inj hs
      have hfifo : (h.sqr.issueGrant k).itemRequested.reqFifo = [] := hr.turns.vars.1
      exact rank_lt_of_driverRank rfl hfinished
        (Or.inr (by simp [Handshake.driverRank, hd, hfifo]))

/-- **Work does not go on forever.** -/
lemma rank_step (hr : Refines mode sched turn h s) {a : HandshakeAction D A} (ha : h.Working a)
    (hs : h.step mode sched a = some h') : h'.rank < h.rank := by
  have hfinished : h.finished ≠ true := by
    intro hfinished
    cases a <;> simp [Handshake.step, hfinished] at hs
  cases a <;> simp only [Handshake.step, if_neg hfinished] at hs
  case start kind thisPriority => exact ha.elim
  case proceed i r => exact rank_proceed hs
  case waitForArbitrationCompleted i => exact hr.rank_waitForArbitrationCompleted hs
  case waitForItemDone i => exact rank_waitForItemDone hs
  case getResponse i => exact rank_getResponse hs
  case exit i => exact rank_exit hs
  case execute => exact hr.rank_execute hfinished hs
  case nba draw => exact hr.rank_nba hfinished hs
  case posedge =>
    obtain ⟨i, p, hd⟩ := ha
    simp only [Handshake.posedge, hd] at hs
    split_ifs at hs
    obtain rfl := Option.some.inj hs
    exact rank_lt_of_driverRank rfl hfinished (Or.inr (by simp [Handshake.driverRank, hd]))

/-! ## No deadlock -/

/-- A sequence that has something to execute can execute it. -/
lemma exists_step_of_runnableSequence (hfinished : h.finished ≠ true) {i : ℕ}
    {st : UvmSequence D A} (hi : h.seqs[i]? = some st) (hrun : h.runnableSequence i st = true) :
    ∃ a h', h.Working a ∧ h.step mode sched a = some h' := by
  obtain ⟨kind, phase, req, priority, semaphore⟩ := st
  cases phase with
  | body =>
      refine ⟨.proceed i ⟨{}, rfl⟩, ?_⟩
      cases hreq : kind.request (⟨{}, rfl⟩ : RandomItem D A) with
      | none =>
          exact ⟨_, trivial, by simp [Handshake.step, hfinished, Handshake.proceed, hi, hreq]; rfl⟩
      | some it =>
          exact ⟨_, trivial, by simp [Handshake.step, hfinished, Handshake.proceed, hi, hreq]; rfl⟩
  | waitForGrant requestId n =>
      refine ⟨.waitForArbitrationCompleted i, ?_⟩
      have hn : n ≠ some h.sqr.lockArbSize := by
        simpa [Handshake.runnableSequence] using hrun
      by_cases hcompleted : h.sqr.arbCompleted requestId = true
      · exact ⟨_, trivial, by
          simp [Handshake.step, hfinished, Handshake.waitForArbitrationCompleted, hi, hn,
            hcompleted]; rfl⟩
      · exact ⟨_, trivial, by
          simp [Handshake.step, hfinished, Handshake.waitForArbitrationCompleted, hi, hn,
            hcompleted]; rfl⟩
  | waitForItemDone =>
      have hid : h.sqr.waitForItemSequenceId = seqId i := by
        simpa [Handshake.runnableSequence] using hrun
      exact ⟨.waitForItemDone i, _, trivial, by
        simp [Handshake.step, hfinished, Handshake.waitForItemDone, hi, hid]; rfl⟩
  | getResponse =>
      simp only [Handshake.runnableSequence] at hrun
      split at hrun
      case h_2 => cases hrun
      case h_1 r rest hqueue =>
        exact ⟨.getResponse i, _, trivial, by
          simp [Handshake.step, hfinished, Handshake.getResponse, hi, hqueue]; rfl⟩
  | ended =>
      exact ⟨.exit i, _, trivial, by simp [Handshake.step, hfinished, Handshake.exit, hi]; rfl⟩
  | exited => cases hrun

/-- The sequence that has been granted a request has not seen the change of the queue yet. -/
lemma exists_step_of_granted {i requestId : ℕ} (hfinished : h.finished ≠ true)
    (hr : Refines mode sched (.granted i requestId) h s) :
    ∃ a h', h.Working a ∧ h.step mode sched a = some h' := by
  obtain ⟨st, n, hi, hp⟩ := hr.turns.held
  have hwaits := (hr.turns.waits i st hi).1
  simp only [SeqTurn, hp] at hwaits
  have hn : n ≠ some h.sqr.lockArbSize := by
    rcases hwaits.2 with ⟨-, hn⟩ | hmem
    · exact hn
    · exact absurd rfl ((hr.turns.queue _ hmem).2 requestId)
  exact exists_step_of_runnableSequence hfinished hi (by simp [Handshake.runnableSequence, hp, hn])

/-- When the driver waits for a request and none is in the queue, a sequence that is not over is not
waiting for the driver. -/
lemma runnableSequence_of_idle (hr : Refines mode sched turn h s)
    (hd : h.driver = .waitForAvailableSequence) (hnil : h.sqr.arbSequenceQ = []) {i : ℕ}
    {st : UvmSequence D A} (hi : h.seqs[i]? = some st) (hp : st.phase ≠ .exited) :
    h.runnableSequence i st = true := by
  obtain rfl := hr.turns.turn_of_between (by rw [hd]; trivial)
  have hwaits := (hr.turns.waits i st hi).1
  obtain ⟨st', hi', -, hphase⟩ := hr.get hi
  cases hph : st.phase with
  | body => simp [Handshake.runnableSequence, hph]
  | waitForGrant requestId n =>
      simp only [SeqTurn, hph, hnil] at hwaits
      rcases hwaits.2 with ⟨hturn, -⟩ | hmem
      · cases hturn
      · cases hmem
  | waitForItemDone =>
      simp only [SeqTurn, hph] at hwaits
      rcases hwaits with ⟨hturn, -⟩ | ⟨-, -, hne⟩
      · cases hturn
      · exact absurd hd hne
  | getResponse =>
      simp only [hph] at hphase
      obtain ⟨t, ht⟩ := hphase
      have hseq := hr.inv.seqs i st' hi'
      have hdriver : s.driver = .getNextItem := hr.driver.trans (congrArg UvmDriver.abs hd)
      simp only [SeqInv, ht, hdriver] at hseq
      rcases hseq with ⟨-, ⟨-, hanswers⟩ | ⟨hqueue, -⟩⟩
      · exact hanswers.elim
      · rw [hr.tb] at hqueue
        simp [Handshake.runnableSequence, hph, hqueue]
  | ended => simp [Handshake.runnableSequence, hph]
  | exited => exact absurd hph hp

/-- A sequence that holds back the simulator can go on. -/
lemma exists_step_of_runnable (hfinished : h.finished ≠ true) (hrun : h.runnable = true)
    (hd : h.runnableDriver ≠ true) : ∃ a h', h.Working a ∧ h.step mode sched a = some h' := by
  rw [Handshake.runnable, Bool.or_eq_true] at hrun
  obtain ⟨i, -, hi⟩ := List.any_eq_true.mp (hrun.resolve_left hd)
  obtain ⟨st, hst, hrun⟩ := (Option.any_eq_true _ _).mp hi
  exact exists_step_of_runnableSequence hfinished hst hrun

/-- A driver with an item goes on, when the sequences let the edge arrive. -/
lemma exists_step_of_busy (hr : Refines mode sched turn h s) (hfinished : h.finished ≠ true)
    {d : DriverPhase D A} (hd : h.driver = .busy d) :
    ∃ a h', h.Working a ∧ h.step mode sched a = some h' := by
  cases d with
  | getNextItem =>
      have hvars := hr.turns.vars
      rw [hd] at hvars
      cases turn with
      | free => exact hvars.2.2.2.2.elim
      | granted i requestId => cases hvars.2.2.2.2
      | sent i => exact hvars.2.2.2.2.2.elim
  | waiting i p =>
      by_cases hrun : h.runnable = true
      · exact exists_step_of_runnable hfinished hrun (by simp [Handshake.runnableDriver, hd])
      · exact ⟨.posedge, _, ⟨i, p, hd⟩, by
          simp [Handshake.step, hfinished, Handshake.posedge, hrun, hd]; rfl⟩
  | sending i p =>
      refine ⟨.execute, ?_⟩
      cases p with
      | step f p =>
          exact ⟨_, trivial, by simp [Handshake.step, hfinished, Handshake.execute, hd]; rfl⟩
      | wait p =>
          exact ⟨_, trivial, by simp [Handshake.step, hfinished, Handshake.execute, hd]; rfl⟩
      | halt => exact ⟨_, trivial, by simp [Handshake.step, hfinished, Handshake.execute, hd]; rfl⟩
  | itemDone i =>
      exact ⟨.execute, _, trivial, by simp [Handshake.step, hfinished, Handshake.execute, hd]; rfl⟩
  | setIdInfo i =>
      exact ⟨.execute, _, trivial, by simp [Handshake.step, hfinished, Handshake.execute, hd]; rfl⟩
  | putResponse i =>
      exact ⟨.execute, _, trivial, by simp [Handshake.step, hfinished, Handshake.execute, hd]; rfl⟩

/-- **No deadlock**: as long as something is left to do, something can be done. -/
lemma exists_step (hr : Refines mode sched turn h s) (hgoal : ¬ (h.Done ∨ h.finished = true)) :
    ∃ a h', h.Working a ∧ h.step mode sched a = some h' := by
  rw [not_or] at hgoal
  obtain ⟨hdone, hfinished⟩ := hgoal
  cases hd : h.driver with
  | getNextItem =>
      exact ⟨.execute, _, trivial, by simp [Handshake.step, hfinished, Handshake.execute, hd]; rfl⟩
  | waitForSequences =>
      by_cases hrun : h.runnable = true
      · exact exists_step_of_runnable hfinished hrun (by simp [Handshake.runnableDriver, hd])
      · refine ⟨.nba 0, ?_⟩
        cases hchoice : chooseNextRequest mode (fun _ => true) h.getPriority 0
            h.sqr.arbSequenceQ with
        | error r =>
            exact ⟨_, trivial, by
              simp [Handshake.step, hfinished, Handshake.nba, hrun, hd, hchoice]; rfl⟩
        | ok k =>
            cases k with
            | none =>
                exact ⟨_, trivial, by
                  simp [Handshake.step, hfinished, Handshake.nba, hrun, hd, hchoice]; rfl⟩
            | some k =>
                exact ⟨_, trivial, by
                  simp [Handshake.step, hfinished, Handshake.nba, hrun, hd, hchoice]; rfl⟩
  | waitForAvailableSequence =>
      by_cases hsize : h.sqr.arbSize = h.sqr.lockArbSize
      · have hnil := (hr.turns.available hd).2 hsize
        have hleft : ∃ (i : ℕ) (st : UvmSequence D A), h.seqs[i]? = some st ∧
            st.phase ≠ .exited := by
          by_contra hnone
          push Not at hnone
          exact hdone ⟨hd, hnone⟩
        obtain ⟨i, st, hi, hp⟩ := hleft
        exact exists_step_of_runnableSequence hfinished hi
          (hr.runnableSequence_of_idle hd hnil hi hp)
      · exact ⟨.execute, _, trivial, by
          simp [Handshake.step, hfinished, Handshake.execute, hd, hsize]; rfl⟩
  | peek =>
      cases hfifo : h.sqr.reqFifo with
      | nil =>
          cases turn with
          | free =>
              have hbetween := hr.turns.vars.2.2.2.2
              rw [hd] at hbetween
              exact hbetween.elim
          | granted i requestId => exact exists_step_of_granted hfinished hr
          | sent i =>
              have hone := hr.turns.vars.1
              rw [hfifo] at hone
              cases hone
      | cons i rest =>
          obtain ⟨rfl, -⟩ := hr.turns.turn_of_fifo hfifo
          obtain ⟨st, hi, -⟩ := hr.turns.held
          exact ⟨.execute, _, trivial, by
            simp [Handshake.step, hfinished, Handshake.execute, hd, Handshake.peek, hfifo, hi]; rfl⟩
  | busy d => exact hr.exists_step_of_busy hfinished hd

end Refines

/-! ## Progress -/

/-- **Progress**: after every run, whatever is executed next, all sequences come to their end,
unless there is a fatal report. -/
theorem Handshake.run_progress (mode : UvmSequencerArbMode) (sched : ℕ → EdgeOrder) (ram : BlkRam P)
    (actions : List (HandshakeAction D A)) :
    Transition.Inevitable (Handshake.step mode sched) Handshake.Working
      (fun h => h.Done ∨ h.finished = true) ((initial D A ram).run mode sched actions) := by
  refine Transition.inevitable_of_rank
    (I := fun h => ∃ s turn, Refines mode sched turn h s) Handshake.rank ?_ ?_ ?_ ?_
  · rintro h a h' ⟨s, turn, hr⟩ - hs
    obtain ⟨bs, hfollowed⟩ := hr.step hs
    exact ⟨_, hfollowed⟩
  · rintro h a h' ⟨s, turn, hr⟩ ha hs
    exact hr.rank_step ha hs
  · rintro h ⟨s, turn, hr⟩ hgoal
    exact hr.exists_step hgoal
  · obtain ⟨bs, hfollowed⟩ := follows_run mode sched ram actions
    exact ⟨_, hfollowed⟩

end SinglePortRam
