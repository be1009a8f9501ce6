import SinglePortRam.Uvm.Checks

/-!
# The handshake refines the sequencer

`Sequencer` lets the sequences and the driver take their steps in any order, as long as the driver
has one item at a time.  Here the handshake of the library is shown to do nothing else: every run of
it, in every arbitration mode, is followed by a run of `Sequencer`, so that what holds for all runs
of that one holds for the handshake.

* `SeqMatch`, `Refines` — the relation.
* **`Handshake.run_refines`** — every run is followed.
-/

namespace SinglePortRam

open FourState Clocked Proc VipState Testbench

variable {D A : ℕ} {P : RamParams} {mode : UvmSequencerArbMode} {sched : ℕ → EdgeOrder}

/-! ## The relation -/

/-- The driver of `Sequencer` is blocked in `get_next_item` until an item is there. -/
def UvmDriver.abs : UvmDriver D A → DriverPhase D A
  | .busy d => d
  | _ => .getNextItem

/-- A sequence of the handshake, and the same sequence in `Sequencer`, where a sequence that is
waiting for its item to be done goes on as soon as it is. -/
def SeqMatch (turn : Turn) (d : UvmDriver D A) (i : ℕ) (st : UvmSequence D A)
    (st' : SequenceState D A P) : Prop :=
  st'.kind = st.kind ∧
  match st.phase with
  | .body => st'.phase = .body
  | .waitForGrant _ _ => st'.phase = .offered ∧ st'.req = st.req.sentBy (seqId i)
  | .waitForItemDone =>
      (turn = .sent i ∧ d = .peek ∧ st'.phase = .offered ∧ st'.req = st.req) ∨
      (turn = .sent i ∧ d ≠ .peek ∧ ∃ t, st'.phase = .inFlight t) ∨
      (turn = .free ∧
        if st.kind.collects then ∃ t, st'.phase = .collecting t else st'.phase = .ended)
  | .getResponse => ∃ t, st'.phase = .collecting t
  | .ended => st'.phase = .ended
  | .exited => st'.phase = .exited

/-- The handshake `h` does what the sequencer `s` does, `turn` being whose turn it is. -/
structure Refines (mode : UvmSequencerArbMode) (sched : ℕ → EdgeOrder) (turn : Turn)
    (h : Handshake D A P) (s : Sequencer D A P) : Prop where
  turns : TurnInv turn h.sqr h.seqs h.driver
  inv : Inv sched s
  tb : s.tb = h.tb
  driver : s.driver = h.driver.abs
  length : s.seqs.length = h.seqs.length
  seqs : ∀ i st st', h.seqs[i]? = some st → s.seqs[i]? = some st' →
    SeqMatch turn h.driver i st st'
  history : History mode turn h.tb.vip.served h.requested h.granted h.sqr.arbSequenceQ
  checks : Checks mode (h.seqs.map UvmSequence.priority) h.reports

namespace Refines

variable {turn : Turn} {h h' : Handshake D A P} {s : Sequencer D A P}

/-- The same sequence on both sides. -/
lemma get (hr : Refines mode sched turn h s) {i : ℕ} {st : UvmSequence D A}
    (hi : h.seqs[i]? = some st) :
    ∃ st' : SequenceState D A P, s.seqs[i]? = some st' ∧ SeqMatch turn h.driver i st st' := by
  have hlt : i < s.seqs.length := by
    rw [hr.length]
    exact (List.getElem?_eq_some_iff.mp hi).1
  exact ⟨s.seqs[i], List.getElem?_eq_getElem hlt,
    hr.seqs i st _ hi (List.getElem?_eq_getElem hlt)⟩

/-- The sequence `i` takes a step in both. -/
lemma seqs_set (hr : Refines mode sched turn h s) {i : ℕ} {st : UvmSequence D A}
    {st' : SequenceState D A P} (hm : SeqMatch turn h.driver i st st') :
    ∀ j stj stj', (h.seqs.set i st)[j]? = some stj → (s.seqs.set i st')[j]? = some stj' →
      SeqMatch turn h.driver j stj stj' := by
  intro j stj stj' hj hj'
  rcases getElem?_set_cases hj with ⟨rfl, rfl⟩ | ⟨hij, hj⟩
  · rcases getElem?_set_cases hj' with ⟨-, rfl⟩ | ⟨hne, -⟩
    · exact hm
    · exact absurd rfl hne
  · rcases getElem?_set_cases hj' with ⟨heq, -⟩ | ⟨-, hj'⟩
    · exact absurd heq hij
    · exact hr.seqs j stj stj' hj hj'

/-- The sequence `i` takes a step that `Sequencer` does not see. -/
lemma seqs_set_left (hr : Refines mode sched turn h s) {turn' : Turn} {d' : UvmDriver D A} {i : ℕ}
    {st : UvmSequence D A}
    (hm : ∀ st' : SequenceState D A P, s.seqs[i]? = some st' → SeqMatch turn' d' i st st')
    (hother : ∀ j stj (stj' : SequenceState D A P), j ≠ i → h.seqs[j]? = some stj →
      SeqMatch turn h.driver j stj stj' → SeqMatch turn' d' j stj stj') :
    ∀ j stj stj', (h.seqs.set i st)[j]? = some stj → s.seqs[j]? = some stj' →
      SeqMatch turn' d' j stj stj' := by
  intro j stj stj' hj hj'
  rcases getElem?_set_cases hj with ⟨rfl, rfl⟩ | ⟨hij, hj⟩
  · exact hm stj' hj'
  · exact hother j stj stj' hij hj (hr.seqs j stj stj' hj hj')

/-- A justified report changes nothing else. -/
lemma report (hr : Refines mode sched turn h s) {r : UvmReport}
    (hp : r.Justified mode (h.seqs.map UvmSequence.priority)) :
    Refines mode sched turn (h.report r) s :=
  ⟨hr.turns, hr.inv, hr.tb, hr.driver, hr.length, hr.seqs, hr.history, hr.checks.report hp⟩

end Refines

/-- Only a sequence that waits for its item to be done depends on the turn. -/
lemma SeqMatch.of_ne {turn turn' : Turn} {d d' : UvmDriver D A} {i : ℕ} {st : UvmSequence D A}
    {st' : SequenceState D A P} (h : SeqMatch turn d i st st')
    (hp : st.phase ≠ .waitForItemDone) : SeqMatch turn' d' i st st' := by
  rw [SeqMatch] at h ⊢
  cases hph : st.phase with
  | waitForItemDone => exact absurd hph hp
  | body => simpa only [hph] using h
  | waitForGrant requestId n => simpa only [hph] using h
  | getResponse => simpa only [hph] using h
  | ended => simpa only [hph] using h
  | exited => simpa only [hph] using h

/-- It does not matter where the driver is, as long as it has no item to get. -/
lemma SeqMatch.move {turn : Turn} {d d' : UvmDriver D A} {i : ℕ} {st : UvmSequence D A}
    {st' : SequenceState D A P} (h : SeqMatch turn d i st st')
    (hturn : turn = .free ∨ (d ≠ .peek ∧ d' ≠ .peek)) : SeqMatch turn d' i st st' := by
  by_cases hp : st.phase = .waitForItemDone
  · rw [SeqMatch, hp] at h ⊢
    obtain ⟨hkind, ⟨hsent, hd, hreq⟩ | ⟨hsent, -, hflight⟩ | hfree⟩ := h
    · rcases hturn with rfl | ⟨hd', -⟩
      · cases hsent
      · exact absurd hd hd'
    · rcases hturn with rfl | ⟨-, hd'⟩
      · cases hsent
      · exact ⟨hkind, Or.inr (Or.inl ⟨hsent, hd', hflight⟩)⟩
    · exact ⟨hkind, Or.inr (Or.inr hfree)⟩
  · exact h.of_ne hp

/-- The handshake in a state that some state of `Sequencer` matches. -/
def Followed (mode : UvmSequencerArbMode) (sched : ℕ → EdgeOrder) (h : Handshake D A P)
    (s : Sequencer D A P) : Prop :=
  ∃ turn, Refines mode sched turn h s

/-- Some actions of `Sequencer` lead to a state that matches. -/
def Follows (mode : UvmSequencerArbMode) (sched : ℕ → EdgeOrder) (h : Handshake D A P)
    (s : Sequencer D A P) : Prop :=
  ∃ bs, Followed mode sched h (Transition.run (Sequencer.step sched) s bs)

/-- The follower does nothing. -/
lemma Follows.none {h : Handshake D A P} {s : Sequencer D A P} (turn : Turn)
    (hr : Refines mode sched turn h s) : Follows mode sched h s :=
  ⟨[], turn, hr⟩

/-- The follower does one action. -/
lemma Follows.one {h : Handshake D A P} {s s' : Sequencer D A P} {a : Action D A}
    (ha : s.step sched a = some s') (turn : Turn) (hr : Refines mode sched turn h s') :
    Follows mode sched h s :=
  ⟨[a], turn, by rwa [Transition.run_singleton ha]⟩

/-! ## The steps of the sequences -/

namespace Refines

variable {turn : Turn} {h h' : Handshake D A P} {s : Sequencer D A P}

/-- A sequence is started on both sides, or its priority is reported. -/
lemma start (hr : Refines mode sched turn h s) (kind : SequenceKind) (thisPriority : ℤ) :
    Follows mode sched (h.start kind thisPriority) s := by
  rw [Handshake.start]
  by_cases hp : thisPriority < -1
  · rw [if_pos hp]
    exact Follows.none turn (hr.report hp)
  · rw [if_neg hp]
    have hlen : s.seqs.length = h.seqs.length := hr.length
    have hstep : s.step sched (.start kind) = some (s.start kind) := rfl
    refine Follows.one hstep turn ⟨hr.turns.start kind _ _, hr.inv.step hstep, ?_, hr.driver, ?_,
      ?_, hr.history, ?_⟩
    · simp only [Sequencer.start, hr.tb, hlen]
    · simp [Sequencer.start, hlen]
    · intro i st st' hi hi'
      rcases getElem?_concat_cases hi with hi | ⟨rfl, rfl⟩
      · rcases getElem?_concat_cases hi' with hi' | ⟨rfl, -⟩
        · exact hr.seqs i st st' hi hi'
        · exact absurd (List.getElem?_eq_some_iff.mp hi).1 (hlen ▸ lt_irrefl _)
      · rcases getElem?_concat_cases hi' with hi' | ⟨-, rfl⟩
        · exact absurd (List.getElem?_eq_some_iff.mp hi').1 (hlen ▸ lt_irrefl _)
        · exact ⟨rfl, rfl⟩
    · rw [List.map_append]
      refine hr.checks.start ?_
      dsimp only
      split_ifs <;> omega

/-- The request is offered. -/
lemma proceed (hr : Refines mode sched turn h s) {i : ℕ} {r : RandomItem D A}
    (hs : h.proceed i r = some h') : Follows mode sched h' s := by
  rw [Handshake.proceed] at hs
  split at hs
  case h_2 => cases hs
  case h_1 kind req priority semaphore hi =>
    obtain ⟨⟨kind', phase', req'⟩, hi', hkind, hphase⟩ := hr.get hi
    obtain rfl : kind' = kind := hkind
    obtain rfl : phase' = .body := hphase
    have hstep : s.step sched (.proceed i r)
        = some { s with seqs := s.seqs.set i (.proceed i r ⟨kind', .body, req'⟩) } := by
      simp [Sequencer.step, Sequencer.proceed, hi']
    refine Follows.one hstep turn ?_
    cases hreq : kind'.request r with
    | none =>
        rw [hreq] at hs
        obtain rfl := Option.some.inj hs
        refine ⟨hr.turns.outside hi (Or.inl trivial) trivial rfl, hr.inv.step hstep, hr.tb,
          hr.driver, by simp [hr.length], hr.seqs_set ?_, hr.history, hr.checks.set hi rfl⟩
        simp [SeqMatch, SequenceState.proceed, hreq]
    | some it =>
        rw [hreq] at hs
        obtain rfl := Option.some.inj hs
        refine ⟨hr.turns.request hi trivial it, hr.inv.step hstep, hr.tb,
          hr.driver, by simp [hr.length], hr.seqs_set ?_, hr.history.request i _ priority,
          hr.checks.set hi rfl⟩
        simp [SeqMatch, SequenceState.proceed, hreq]

/-- A request that is granted is sent, and one that is not is waited for, which `Sequencer` does not
see. -/
lemma waitForArbitrationCompleted (hr : Refines mode sched turn h s) {i : ℕ}
    (hs : h.waitForArbitrationCompleted i = some h') : Follows mode sched h' s := by
  rw [Handshake.waitForArbitrationCompleted] at hs
  split at hs
  case h_2 => cases hs
  case h_1 kind requestId n req priority semaphore hi =>
    obtain ⟨st', hi', hkind, hphase, hreq⟩ := hr.get hi
    have hsame {st : SequenceState D A P} (hst : s.seqs[i]? = some st) : st = st' :=
      Option.some.inj (hst.symm.trans hi')
    split_ifs at hs with hwoken hcompleted
    · obtain rfl := hr.turns.turn_of_completed ⟨_, n, hi, rfl⟩ hcompleted
      obtain ⟨hfifo, -, -, -, hd⟩ := hr.turns.vars
      have hnone (j : ℕ) (stj : UvmSequence D A) (hj : h.seqs[j]? = some stj) :
          stj.phase ≠ .waitForItemDone := by
        intro hpj
        have hwaits := (hr.turns.waits j stj hj).1
        simp [SeqTurn, hpj] at hwaits
      rw [Handshake.sendRequest_eq hfifo] at hs
      obtain rfl := Option.some.inj hs
      refine Follows.none (.sent i) ⟨hr.turns.send hi, hr.inv, hr.tb, hr.driver,
        by simp [hr.length], hr.seqs_set_left ?_ ?_, hr.history.send, hr.checks.set hi rfl⟩
      · intro st hst
        rw [hsame hst]
        exact ⟨hkind, Or.inl ⟨rfl, hd, hphase, hreq⟩⟩
      · intro j stj stj' _ hj hm
        exact hm.of_ne (hnone j stj hj)
    · obtain rfl := Option.some.inj hs
      refine Follows.none turn ⟨hr.turns.waitAgain hi rfl (by simpa using hcompleted), hr.inv,
        hr.tb, hr.driver, by simp [hr.length], hr.seqs_set_left ?_ fun j _ _ _ _ hm => hm,
        hr.history, hr.checks.set hi rfl⟩
      intro st hst
      rw [hsame hst]
      exact ⟨hkind, hphase, hreq⟩

/-- The follower has left the wait before, at `item_done`. -/
lemma waitForItemDone (hr : Refines mode sched turn h s) {i : ℕ}
    (hs : h.waitForItemDone i = some h') : Follows mode sched h' s := by
  rw [Handshake.waitForItemDone] at hs
  split at hs
  case h_2 => cases hs
  case h_1 kind req priority semaphore hi =>
    by_cases hid : h.sqr.waitForItemSequenceId = seqId i
    case neg =>
      rw [if_neg hid] at hs
      cases hs
    rw [if_pos hid] at hs
    obtain rfl := Option.some.inj hs
    obtain ⟨st', hi', hkind, hphase⟩ := hr.get hi
    have hturn : turn = .free := by
      rcases (hr.turns.waits i _ hi).1 with ⟨hsent, -⟩ | ⟨hfree, -⟩
      · subst hsent
        have hnone : h.sqr.waitForItemSequenceId = -1 := hr.turns.vars.2.2.2.2.1
        rw [hnone, seqId] at hid
        omega
      · exact hfree
    subst hturn
    have hover : if kind.collects then ∃ t, st'.phase = .collecting t else st'.phase = .ended := by
      rcases hphase with ⟨hsent, -⟩ | ⟨hsent, -⟩ | ⟨-, hover⟩
      · cases hsent
      · cases hsent
      · exact hover
    refine Follows.none .free ⟨hr.turns.outside hi (Or.inr ⟨rfl, rfl⟩) ?_ rfl, hr.inv, hr.tb,
      hr.driver, by simp [hr.length], hr.seqs_set_left ?_ fun j _ _ _ _ hm => hm, hr.history,
      hr.checks.set hi rfl⟩
    · cases kind.collects <;> trivial
    · intro st hst
      rw [Option.some.inj (hst.symm.trans hi')]
      refine ⟨hkind, ?_⟩
      cases hc : kind.collects with
      | true => simpa [hc] using hover
      | false => simpa [hc] using hover

/-- The response is collected on both sides. -/
lemma getResponse (hr : Refines mode sched turn h s) {i : ℕ} (hs : h.getResponse i = some h') :
    Follows mode sched h' s := by
  rw [Handshake.getResponse] at hs
  split at hs
  case h_2 => cases hs
  case h_1 kind req priority semaphore r rest hi hqueue =>
    obtain rfl := Option.some.inj hs
    obtain ⟨⟨kind', phase', req'⟩, hi', hkind, t, hphase⟩ := hr.get hi
    obtain rfl : kind' = kind := hkind
    obtain rfl : phase' = .collecting t := hphase
    have hqueue' : s.tb.vip.regSequences (seqId i) = some (r :: rest) := by rw [hr.tb, hqueue]
    have hstep : s.step sched (.getResponse i) = some { s with
        tb := s.tb.assign (popResponse (seqId i) rest)
        seqs := s.seqs.set i (.collect (s.tb.vip.deref r) ⟨kind', .collecting t, req'⟩) } := by
      simp [Sequencer.step, Sequencer.getResponse, hi', hqueue']
    refine Follows.one hstep turn ⟨hr.turns.outside hi (Or.inl trivial) ?_ ?_, hr.inv.step hstep,
      ?_, hr.driver, by simp [hr.length], hr.seqs_set ?_, hr.history, hr.checks.set hi ?_⟩
    · cases kind' <;> trivial
    · cases kind' <;> rfl
    · rw [hr.tb]
    · rw [hr.tb]
      cases kind' with
      | random left => exact ⟨rfl, rfl⟩
      | read q => exact ⟨rfl, rfl⟩
      | write q => exact ⟨rfl, rfl⟩
    · cases kind' <;> rfl

/-- The sequence exits on both sides. -/
lemma exit (hr : Refines mode sched turn h s) {i : ℕ} (hs : h.exit i = some h') :
    Follows mode sched h' s := by
  rw [Handshake.exit] at hs
  split at hs
  case h_2 => cases hs
  case h_1 kind req priority semaphore hi =>
    obtain rfl := Option.some.inj hs
    obtain ⟨⟨kind', phase', req'⟩, hi', hkind, hphase⟩ := hr.get hi
    obtain rfl : kind' = kind := hkind
    obtain rfl : phase' = .ended := hphase
    have hstep : s.step sched (.exit i) = some { s with
        tb := s.tb.assign (exitSequence (seqId i))
        seqs := s.seqs.set i ⟨kind', .exited, req'⟩ } := by
      simp [Sequencer.step, Sequencer.exit, hi']
    refine Follows.one hstep turn ⟨hr.turns.outside hi (Or.inl trivial) trivial rfl,
      hr.inv.step hstep, ?_, hr.driver, by simp [hr.length], hr.seqs_set ⟨rfl, rfl⟩, hr.history,
      hr.checks.set hi rfl⟩
    rw [hr.tb]

/-! ## The steps of the driver -/

/-- The driver goes on without an item. -/
lemma wander (hr : Refines mode sched turn h s) (hd : h.driver.Between) {d' : UvmDriver D A}
    (habs : d'.abs = h.driver.abs) (hd' : d'.Between) (hne : d' ≠ .waitForAvailableSequence) :
    Refines mode sched turn { h with driver := d' } s := by
  obtain rfl := hr.turns.turn_of_between hd
  obtain ⟨hfifo, hcompleted, hrequested, hcalled, -⟩ := hr.turns.vars
  exact ⟨hr.turns.move hne ⟨hfifo, hcompleted, hrequested, hcalled, hd'⟩, hr.inv, hr.tb,
    hr.driver.trans habs.symm, hr.length,
    fun i st st' hi hi' => (hr.seqs i st st' hi hi').move (Or.inl rfl), hr.history, hr.checks⟩

/-- `get_next_item` returns the item of the sequence whose turn it is. -/
lemma peek (hr : Refines mode sched turn h s) (hd : h.driver = .peek) (hs : h.peek = some h') :
    Follows mode sched h' s := by
  rw [Handshake.peek] at hs
  cases hfifo : h.sqr.reqFifo with
  | nil =>
      rw [hfifo] at hs
      cases hs
  | cons i rest =>
      rw [hfifo] at hs
      obtain ⟨rfl, rfl⟩ := hr.turns.turn_of_fifo hfifo
      obtain ⟨st, hi, hp⟩ := hr.turns.held
      simp only [hi, Option.some.injEq] at hs
      subst hs
      obtain ⟨⟨kind', phase', req'⟩, hi', hkind, hphase⟩ := hr.get hi
      simp only [hp, hd] at hphase
      obtain ⟨-, -, rfl, rfl⟩ | ⟨-, hne, -⟩ | ⟨hturn, -⟩ := hphase
      case inr.inl => exact absurd rfl hne
      case inr.inr => cases hturn
      have hdriver : s.driver = .getNextItem := hr.driver.trans (congrArg UvmDriver.abs hd)
      have hstep : s.step sched (.grant i) = some
          { tb := s.tb.assign (VipState.getNextItem st.req)
            seqs := s.seqs.set i ⟨kind', .inFlight ⟨st.req, s.tb.edges, s.tb.mem⟩, st.req⟩
            driver := .sending i (sendToIf st.req) } := by
        simp [Sequencer.step, Sequencer.grant, hdriver, hi']
      obtain ⟨-, hcompleted, hrequested, hcalled, hid, -⟩ := hr.turns.vars
      refine Follows.one hstep (.sent i)
        ⟨hr.turns.move (by simp) ⟨hfifo, hcompleted, hrequested, hcalled, hid, rfl⟩,
          hr.inv.step hstep, by rw [hr.tb], rfl, by simp [hr.length], ?_, hr.history, hr.checks⟩
      intro j stj stj' hj hj'
      rcases getElem?_set_cases hj' with ⟨rfl, rfl⟩ | ⟨hji, hj'⟩
      · obtain rfl := Option.some.inj (hi.symm.trans hj)
        refine ⟨hkind, ?_⟩
        simp [hp]
      · refine (hr.seqs j stj stj' hj hj').of_ne fun hpj => hji ?_
        exact (hr.turns.eq_of_waitForItemDone hj hpj).1

/-- The driver goes on with its item. -/
lemma work (hr : Refines mode sched turn h s) {i : ℕ} {d d' : DriverPhase D A}
    (hd : h.driver = .busy d) (hserves : d.Serves i) (hserves' : d'.Serves i)
    {tb : Testbench D A P} (hserved : tb.vip.served = h.tb.vip.served) {a : Action D A}
    (hstep : s.step sched a = some { s with tb := tb, driver := d' }) :
    Follows mode sched { h with tb := tb, driver := .busy d' } s := by
  obtain rfl := (hd ▸ hr.turns : TurnInv turn h.sqr h.seqs (.busy d)).turn_of_serves hserves
  obtain ⟨hfifo, hcompleted, hrequested, hcalled, hid, -⟩ := hr.turns.vars
  refine Follows.one hstep (.sent i)
    ⟨hr.turns.move (by simp) ⟨hfifo, hcompleted, hrequested, hcalled, hid, hserves'⟩,
      hr.inv.step hstep, rfl, rfl, hr.length, ?_, by rw [hserved]; exact hr.history,
      hr.checks⟩
  intro j st st' hj hj'
  exact (hr.seqs j st st' hj hj').move (Or.inr ⟨by simp [hd], by simp⟩)

/-- The driver answers. -/
lemma answer (hr : Refines mode sched turn h s) (hd : h.driver.Between) {d' : UvmDriver D A}
    (hne : d' ≠ .waitForAvailableSequence) (hd' : d'.Between) {tb : Testbench D A P}
    (hserved : tb.vip.served = h.tb.vip.served) {a : Action D A}
    (hstep : s.step sched a = some { s with tb := tb, driver := d'.abs }) :
    Follows mode sched { h with tb := tb, driver := d' } s := by
  obtain rfl := hr.turns.turn_of_between hd
  obtain ⟨hfifo, hcompleted, hrequested, hcalled, -⟩ := hr.turns.vars
  exact Follows.one hstep .free
    ⟨hr.turns.move hne ⟨hfifo, hcompleted, hrequested, hcalled, hd'⟩, hr.inv.step hstep, rfl, rfl,
      hr.length, fun i st st' hi hi' => (hr.seqs i st st' hi hi').move (Or.inl rfl),
      by rw [hserved]; exact hr.history, hr.checks⟩

/-- `item_done` wakes the sequence whose item it is. -/
lemma itemDone (hr : Refines mode sched turn h s) {i : ℕ} (hd : h.driver = .busy (.itemDone i)) :
    Follows mode sched (h.itemDone i) s := by
  have hdriver : s.driver = .itemDone i := hr.driver.trans (congrArg UvmDriver.abs hd)
  have hserves : (DriverPhase.itemDone i : DriverPhase D A).Serves i := rfl
  obtain rfl := (hd ▸ hr.turns : TurnInv turn h.sqr h.seqs (.busy _)).turn_of_serves hserves
  obtain ⟨st, hi, hp⟩ := hr.turns.held
  obtain ⟨st', hi', hkind, hphase⟩ := hr.get hi
  simp only [hp] at hphase
  obtain ⟨-, hpeek, -⟩ | ⟨-, -, t, ht⟩ | ⟨hturn, -⟩ := hphase
  case inl =>
    rw [hd] at hpeek
    cases hpeek
  case inr.inr => cases hturn
  have hfifo : h.sqr.reqFifo = [i] := hr.turns.vars.1
  have hreq : st.req.sequenceId = seqId i := (hr.turns.eq_of_waitForItemDone hi hp).2
  have hdone : h.itemDone i = { h with
      tb := h.tb.assign VipState.itemDone
      sqr := { h.sqr with
        sequenceItemRequested := false
        getNextItemCalled := false
        reqFifo := []
        waitForItemSequenceId := seqId i }
      seqs := h.seqs.modify i fun st => { st with req := h.tb.vip.reqItem }
      driver := .busy (.setIdInfo i) } := by
    simp only [Handshake.itemDone, hfifo, hi, Option.map_some, Option.getD_some, hreq]
  have hstep : s.step sched .execute = some
      { tb := s.tb.assign VipState.itemDone
        seqs := s.seqs.set i (st'.itemDone s.tb.vip.reqItem)
        driver := .setIdInfo i } := by
    simp [Sequencer.step, Sequencer.execute, hdriver, hi']
  have hid : h.tb.vip.reqItem.sequenceId = seqId i := by
    have hsent := hr.inv.driver
    rw [hdriver] at hsent
    obtain ⟨-, t', -, -, hid, hsent⟩ := hsent
    rw [← hr.tb, hsent.reqItem]
    exact hid
  rw [hdone]
  refine Follows.one hstep .free ⟨hr.turns.itemDone _, hr.inv.step hstep, by rw [hr.tb], rfl,
    by simp [hr.length], ?_, hr.history.itemDone hid, hr.checks.itemDone i _⟩
  intro j stj stj' hj hj'
  rw [List.getElem?_modify, Option.map_eq_map, Option.map_eq_some_iff] at hj
  obtain ⟨stj₀, hj, rfl⟩ := hj
  rcases getElem?_set_cases hj' with ⟨rfl, rfl⟩ | ⟨hji, hj'⟩
  · obtain rfl := Option.some.inj (hi.symm.trans hj)
    rw [if_pos rfl]
    obtain ⟨kind', phase', req'⟩ := st'
    obtain rfl : phase' = .inFlight t := ht
    obtain rfl : kind' = st.kind := hkind
    refine ⟨rfl, ?_⟩
    simp only [hp]
    refine Or.inr (Or.inr ⟨trivial, ?_⟩)
    cases hc : st.kind.collects with
    | true => simp [SequenceState.itemDone, hc]
    | false => simp [SequenceState.itemDone, hc]
  · rw [if_neg fun heq => hji heq.symm]
    refine (hr.seqs j stj₀ stj' hj hj').of_ne fun hpj => hji ?_
    exact (hr.turns.eq_of_waitForItemDone hj hpj).1

/-- A response finds a queue with room, or a sequence that has exited. -/
lemma responseReports_eq_nil {i : ℕ} (hinv : Inv sched s) (hd : s.driver = .putResponse i) :
    Handshake.responseReports s.tb.vip = [] := by
  have hdriver := hinv.driver
  rw [hd] at hdriver
  obtain ⟨st, hi, hp, -, hid, hrsp⟩ := hdriver
  have hseq := hinv.seqs i st hi
  rw [hd, SeqInv] at hseq
  have hne : seqId i ≠ -1 := by
    rw [seqId]
    omega
  rw [Handshake.responseReports, hrsp, hid, if_neg hne]
  cases hphase : st.phase with
  | body => simp [hphase, SequencePhase.Answerable] at hp
  | offered => simp [hphase, SequencePhase.Answerable] at hp
  | inFlight t => simp [hphase, SequencePhase.Answerable] at hp
  | collecting t =>
      simp only [hphase] at hseq
      rcases hseq with ⟨-, ⟨hqueue, -⟩ | ⟨-, he, -⟩⟩
      · simp [hqueue, responseQueueDepth]
      · exact he.elim
  | ended =>
      simp only [hphase] at hseq
      obtain ⟨q, hqueue, -, hnil⟩ := hseq
      simp [hqueue, hnil rfl, responseQueueDepth]
  | exited =>
      simp only [hphase] at hseq
      rw [hseq]

/-- The driver goes on: the follower grants when the item comes out of the FIFO. -/
lemma execute (hr : Refines mode sched turn h s) (hs : h.execute = some h') :
    Follows mode sched h' s := by
  have hdriver := hr.driver
  rw [Handshake.execute] at hs
  split at hs
  case h_1 hd =>
    obtain rfl := Option.some.inj hs
    obtain rfl := hr.turns.turn_of_between (by rw [hd]; trivial)
    obtain ⟨-, -, hrequested, hcalled, -⟩ := hr.turns.vars
    have hcall : h.getNextItem = { h with driver := .waitForSequences } := by
      simp [Handshake.getNextItem, hrequested, hcalled]
    rw [hcall]
    exact Follows.none .free (hr.wander (by rw [hd]; trivial) (by rw [hd]; rfl) trivial (by simp))
  case h_2 => cases hs
  case h_3 hd =>
    split_ifs at hs
    obtain rfl := Option.some.inj hs
    exact Follows.none turn (hr.wander (by rw [hd]; trivial) (by rw [hd]; rfl) trivial (by simp))
  case h_4 hd => exact hr.peek hd hs
  case h_5 => cases hs
  case h_6 i f p hd =>
    obtain rfl := Option.some.inj hs
    rw [hd] at hdriver
    have hserves : (DriverPhase.sending i p).Serves i := rfl
    have hserved : (f h.tb.vip).served = h.tb.vip.served := by
      have hsending := hr.inv.driver
      rw [hdriver] at hsending
      obtain ⟨-, t, -, -, -, hsending⟩ := hsending
      rw [← hr.tb]
      exact hsending.served_step
    refine hr.work (i := i) hd rfl hserves hserved (a := .execute) ?_
    simp [Sequencer.step, Sequencer.execute, hdriver, UvmDriver.abs, hr.tb]
  case h_7 i p hd =>
    obtain rfl := Option.some.inj hs
    rw [hd] at hdriver
    have hserves : (DriverPhase.waiting i p).Serves i := rfl
    refine hr.work (i := i) hd rfl hserves rfl (a := .execute) ?_
    simp [Sequencer.step, Sequencer.execute, hdriver, UvmDriver.abs, ← hr.tb]
  case h_8 i hd =>
    obtain rfl := Option.some.inj hs
    rw [hd] at hdriver
    have hserves : (DriverPhase.itemDone i : DriverPhase D A).Serves i := rfl
    refine hr.work (i := i) hd rfl hserves rfl (a := .execute) ?_
    simp [Sequencer.step, Sequencer.execute, hdriver, UvmDriver.abs, ← hr.tb]
  case h_9 => cases hs
  case h_10 i hd =>
    obtain rfl := Option.some.inj hs
    exact hr.itemDone hd
  case h_11 i hd =>
    obtain rfl := Option.some.inj hs
    rw [hd] at hdriver
    have hbetween : (UvmDriver.busy (.putResponse i) : UvmDriver D A).Between := trivial
    refine hr.answer (by rw [hd]; trivial) (by simp) hbetween rfl (a := .execute) ?_
    simp [Sequencer.step, Sequencer.execute, hdriver, UvmDriver.abs, hr.tb]
  case h_12 i hd =>
    rw [hd] at hdriver
    have hnil : Handshake.responseReports h.tb.vip = [] := by
      rw [← hr.tb]
      exact responseReports_eq_nil hr.inv hdriver
    rw [hnil, List.append_nil] at hs
    obtain rfl := Option.some.inj hs
    have hbetween : (UvmDriver.getNextItem : UvmDriver D A).Between := trivial
    refine hr.answer (by rw [hd]; trivial) (by simp) hbetween rfl (a := .execute) ?_
    simp [Sequencer.step, Sequencer.execute, hdriver, UvmDriver.abs, hr.tb]

/-! ## The steps of the simulator -/

/-- When nothing is left to execute, no sequence waits for its last item to be done. -/
lemma not_waitForItemDone (hr : Refines mode sched .free h s) (hidle : h.runnable ≠ true) {i : ℕ}
    {st : UvmSequence D A} (hi : h.seqs[i]? = some st) : st.phase ≠ .waitForItemDone := by
  intro hp
  have hwaits := (hr.turns.waits i st hi).1
  simp only [SeqTurn, hp] at hwaits
  rcases hwaits with ⟨hturn, -⟩ | ⟨-, hid, -⟩
  · cases hturn
  · refine Handshake.not_runnableSequence hidle hi ?_
    simp [Handshake.runnableSequence, hp, hid]

/-- A grant, or a wait for a request; `Sequencer` does not see them. -/
lemma nba (hr : Refines mode sched turn h s) {draw : ℕ} (hs : h.nba mode draw = some h') :
    Follows mode sched h' s := by
  rw [Handshake.nba] at hs
  by_cases hidle : h.runnable = true
  · rw [if_pos hidle] at hs
    cases hs
  rw [if_neg hidle] at hs
  split at hs
  case h_2 => cases hs
  case h_1 hd =>
    obtain rfl := hr.turns.turn_of_between (by rw [hd]; trivial)
    have hnone (i : ℕ) (st : UvmSequence D A) (hi : h.seqs[i]? = some st) :
        st.phase ≠ .waitForItemDone := hr.not_waitForItemDone hidle hi
    have hsound : SoundChoice mode (availSequences (fun _ => true) h.sqr.arbSequenceQ)
        (chooseNextRequest mode (fun _ => true) h.getPriority draw h.sqr.arbSequenceQ) :=
      chooseNextRequest_sound
    split at hs
    case h_1 r hchoice =>
      obtain rfl := Option.some.inj hs
      rw [hchoice] at hsound
      exact Follows.none .free
        (hr.report (hr.turns.justified_of_arbitration hr.checks.nonneg hchoice))
    case h_2 hchoice =>
      obtain rfl := Option.some.inj hs
      rw [hchoice] at hsound
      have hnil : h.sqr.arbSequenceQ = [] := by
        simpa [SoundChoice, availSequences_true] using hsound
      refine Follows.none .free ⟨hr.turns.noChoice hnil hnone, hr.inv, hr.tb,
        hr.driver.trans (by rw [hd]; rfl), hr.length, ?_, hr.history, hr.checks⟩
      intro i st st' hi hi'
      exact (hr.seqs i st st' hi hi').of_ne (hnone i st hi)
    case h_3 k hchoice =>
      obtain rfl := Option.some.inj hs
      rw [hchoice] at hsound
      obtain ⟨e, he, -⟩ := mem_availSequences.mp hsound
      refine Follows.none (.granted e.sequencePtr e.requestId)
        ⟨hr.turns.issueGrant he hnone, hr.inv, hr.tb, hr.driver.trans (by rw [hd]; rfl), hr.length,
          ?_, hr.history.issueGrant he fun hmode => index_eq_zero_of_inOrder hmode hchoice,
          hr.checks⟩
      intro i st st' hi hi'
      exact (hr.seqs i st st' hi hi').of_ne (hnone i st hi)

/-- When the handshake has nothing left to execute, neither has `Sequencer`, unless it is about to
execute the driver. -/
lemma not_urgent (hr : Refines mode sched turn h s) (hidle : h.runnable ≠ true) (i : ℕ) :
    (s.getResponse i).isSome ≠ true := by
  intro hsome
  obtain ⟨s', hs'⟩ := Option.isSome_iff_exists.mp hsome
  rw [Sequencer.getResponse] at hs'
  split at hs'
  case h_2 => cases hs'
  case h_1 kind t req r rest hi' hqueue =>
    have hlt : i < h.seqs.length := by
      rw [← hr.length]
      exact (List.getElem?_eq_some_iff.mp hi').1
    have hi : h.seqs[i]? = some h.seqs[i] := List.getElem?_eq_getElem hlt
    have hnot := Handshake.not_runnableSequence hidle hi
    obtain ⟨-, hphase⟩ := hr.seqs i _ _ hi hi'
    cases hp : h.seqs[i].phase with
    | body => simp [Handshake.runnableSequence, hp] at hnot
    | waitForGrant requestId n =>
        simp only [hp] at hphase
        cases hphase.1
    | waitForItemDone =>
        simp only [hp] at hphase
        obtain ⟨-, -, hoffered, -⟩ | ⟨-, -, t', hflight⟩ | ⟨rfl, -⟩ := hphase
        · cases hoffered
        · cases hflight
        · exact hr.not_waitForItemDone hidle hi hp
    | getResponse =>
        rw [hr.tb] at hqueue
        simp [Handshake.runnableSequence, hp, hqueue] at hnot
    | ended => simp [Handshake.runnableSequence, hp] at hnot
    | exited =>
        simp only [hp] at hphase
        cases hphase

/-- The driver may wait for a request over an edge, or for the edge itself. -/
lemma posedge (hr : Refines mode sched turn h s) (hs : h.posedge sched = some h') :
    Follows mode sched h' s := by
  have hdriver := hr.driver
  rw [Handshake.posedge] at hs
  by_cases hidle : h.runnable = true
  · rw [if_pos hidle] at hs
    cases hs
  rw [if_neg hidle] at hs
  have hurgent (hd : (∃ i p, s.driver = .waiting i p) ∨ s.driver = .getNextItem) :
      s.urgent = false := by
    have hany : ((List.range s.seqs.length).any fun i => (s.getResponse i).isSome) = false := by
      rw [List.any_eq_false]
      intro i _
      exact hr.not_urgent hidle i
    rcases hd with ⟨i, p, hd⟩ | hd
    · simp only [Sequencer.urgent, hd, hany]
    · simp only [Sequencer.urgent, hd, hany]
  have hbusy : h.runnableDriver ≠ true := by
    intro hrun
    exact hidle (by rw [Handshake.runnable, hrun, Bool.true_or])
  have hwait (habs : h.driver.abs = .getNextItem)
      (hs : some { h with tb := h.tb.tick sched } = some h') : Follows mode sched h' s := by
    obtain rfl := Option.some.inj hs
    have hd := hdriver.trans habs
    have hstep : s.step sched .posedge = some { s with tb := s.tb.tick sched } := by
      simp [Sequencer.step, Sequencer.posedge, hd, hurgent (Or.inr hd)]
    exact Follows.one hstep turn ⟨hr.turns, hr.inv.step hstep, by rw [hr.tb], hdriver, hr.length,
      hr.seqs, hr.history, hr.checks⟩
  cases hd : h.driver with
  | getNextItem => simp [Handshake.runnableDriver, hd] at hbusy
  | waitForSequences => simp [hd] at hs
  | waitForAvailableSequence =>
      simp only [hd] at hs
      exact hwait (by rw [hd]; rfl) (by rwa [← hd] at hs)
  | peek =>
      simp only [hd] at hs
      exact hwait (by rw [hd]; rfl) (by rwa [← hd] at hs)
  | busy d =>
      rw [hd] at hdriver
      cases d with
      | waiting i p =>
          simp only [hd, Option.some.injEq] at hs
          subst hs
          have hserves : (DriverPhase.waiting i p).Serves i := rfl
          have hserves' : (DriverPhase.sending i p).Serves i := rfl
          refine hr.work hd hserves hserves' rfl (a := .posedge) ?_
          have hd' : s.driver = .waiting i p := hdriver
          simp [Sequencer.step, Sequencer.posedge, hd', hurgent (Or.inl ⟨i, p, hd'⟩), hr.tb]
      | getNextItem => simp [Handshake.runnableDriver, hd] at hbusy
      | sending i p => simp [Handshake.runnableDriver, hd] at hbusy
      | itemDone i => simp [Handshake.runnableDriver, hd] at hbusy
      | setIdInfo i => simp [Handshake.runnableDriver, hd] at hbusy
      | putResponse i => simp [Handshake.runnableDriver, hd] at hbusy

/-- **Simulation step.** -/
lemma step (hr : Refines mode sched turn h s) {a : HandshakeAction D A}
    (hs : h.step mode sched a = some h') : Follows mode sched h' s := by
  have hfinished : h.finished ≠ true := by
    intro hfinished
    cases a <;> simp [Handshake.step, hfinished] at hs
  cases a <;> simp only [Handshake.step, if_neg hfinished] at hs
  case start kind thisPriority =>
    obtain rfl := Option.some.inj hs
    exact hr.start kind thisPriority
  case proceed i r => exact hr.proceed hs
  case waitForArbitrationCompleted i => exact hr.waitForArbitrationCompleted hs
  case waitForItemDone i => exact hr.waitForItemDone hs
  case getResponse i => exact hr.getResponse hs
  case exit i => exact hr.exit hs
  case execute => exact hr.execute hs
  case nba draw => exact hr.nba hs
  case posedge => exact hr.posedge hs

lemma initial (ram : BlkRam P) :
    Refines mode sched .free (Handshake.initial D A ram) (Sequencer.initial D A ram) where
  turns := TurnInv.initial
  inv := Inv.initial ram
  tb := rfl
  driver := rfl
  length := rfl
  seqs i st st' hi _ := by cases hi
  history := ⟨rfl, List.Perm.refl _, fun _ => rfl⟩
  checks := ⟨fun p hp => (by cases hp), fun r hr => (by cases hr)⟩

end Refines

/-! ## The runs -/

/-- Every action is followed. -/
lemma simulates_handshake (mode : UvmSequencerArbMode) (sched : ℕ → EdgeOrder) :
    Transition.Simulates (Handshake.step mode sched) (Sequencer.step sched)
      (Followed mode sched : Handshake D A P → Sequencer D A P → Prop) := by
  rintro h a h' s ⟨turn, hr⟩ hs
  exact hr.step hs

namespace Handshake

/-- Every run is followed. -/
lemma follows_run (mode : UvmSequencerArbMode) (sched : ℕ → EdgeOrder) (ram : BlkRam P)
    (actions : List (HandshakeAction D A)) :
    Follows mode sched ((initial D A ram).run mode sched actions) (Sequencer.initial D A ram) :=
  (simulates_handshake mode sched).run ⟨.free, Refines.initial ram⟩ actions

/-- **The handshake refines the sequencer**: in every arbitration mode, every run of the handshake
is followed by a run of `Sequencer`, which has the same testbench, the same item in the same place
of the driver, and the sequences in the same places of their bodies. -/
theorem run_refines (mode : UvmSequencerArbMode) (sched : ℕ → EdgeOrder) (ram : BlkRam P)
    (actions : List (HandshakeAction D A)) :
    ∃ bs turn, Refines mode sched turn ((initial D A ram).run mode sched actions)
      ((Sequencer.initial D A ram).run sched bs) :=
  follows_run mode sched ram actions

end Handshake

end SinglePortRam
