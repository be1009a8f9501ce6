import SinglePortRam.Env.Sequencer

/-!
# No cross-talk between concurrent sequences

Every response is a handle to the same object, which the next `send_to_if` overwrites.  What keeps
the sequences apart is time: an item holds the driver for at least one edge before its response is
copied, and an edge arrives only when the last response has been collected.

* `DriverPhase.Early` — the driver has not got to the edge before which a response can be collected.
* `SeqInv`, `DriverInv`, `Inv` — the invariant, for one sequence, for the driver, and for both.
* **`run_noCrossTalk`** — after every run, a sequence whose response is there finds the answer to
  its own last request in it.
-/

namespace SinglePortRam

open FourState Clocked Proc VipState Testbench

variable {D A : ℕ} {P : RamParams} {sched : ℕ → EdgeOrder}

/-! ## Changes of the response queues -/

namespace Testbench

/-- The testbench with other response queues. -/
def setQueues (r : ℤ → Option (List RspHandle)) (tb : Testbench D A P) : Testbench D A P :=
  tb.setVip { tb.vip with regSequences := r }

lemma assign_startSequence_eq (id : ℤ) (tb : Testbench D A P) :
    tb.assign (startSequence id)
      = tb.setQueues (Function.update tb.vip.regSequences id (some [])) :=
  assign_eq_setVip (startSequence id) (fun _ => rfl) tb

lemma assign_exitSequence_eq (id : ℤ) (tb : Testbench D A P) :
    tb.assign (exitSequence id) = tb.setQueues (Function.update tb.vip.regSequences id none) :=
  assign_eq_setVip (exitSequence id) (fun _ => rfl) tb

lemma assign_popResponse_eq (id : ℤ) (rest : List RspHandle) (tb : Testbench D A P) :
    tb.assign (popResponse id rest)
      = tb.setQueues (Function.update tb.vip.regSequences id (some rest)) :=
  assign_eq_setVip (popResponse id rest) (fun _ => rfl) tb

lemma assign_putResponse_eq (tb : Testbench D A P) :
    tb.assign putResponse
      = tb.setQueues (deliver tb.vip.rspItem.sequenceId tb.vip.regSequences) :=
  assign_eq_setVip putResponse (fun _ => rfl) tb

end Testbench

/-- The transfer of an item does not see the response queues. -/
lemma simulate_setQueues {p : Proc (VipState D A)} (hp : p.All TransferAssign)
    (r : ℤ → Option (List RspHandle)) (tb : Testbench D A P) :
    simulate sched p (tb.setQueues r) = (simulate sched p tb).setQueues r := by
  refine Clock.run_comm (clock sched) (g := setQueues r) (P := TransferAssign) ?_ ?_ hp tb
  case refine_2 =>
    intro s
    rfl
  rintro f (⟨c, rfl⟩ | rfl) s
  · exact (assign_drive c (s.setQueues r)).trans (congrArg (setQueues r) (assign_drive c s).symm)
  · exact (assign_captureDatao (s.setQueues r)).trans
      (congrArg (setQueues r) (assign_captureDatao s).symm)

/-! ## The invariant -/

/-- The item the driver took, when it has been served. -/
def Taken.after (sched : ℕ → EdgeOrder) (t : Taken D A P) : SequenceItem D A :=
  itemAfter sched t.edges t.mem t.item

namespace DriverPhase

/-- The driver is not past an edge since it last handed out a response. -/
def Early : DriverPhase D A → Prop
  | .getNextItem => True
  | .sending _ (.wait _) => True
  | .waiting _ _ => True
  | _ => False

/-- The driver has the item of the sequence `i`. -/
def Serves (i : ℕ) : DriverPhase D A → Prop
  | .sending j _ => j = i
  | .waiting j _ => j = i
  | .itemDone j => j = i
  | _ => False

/-- The driver is about to send the sequence `i` its response. -/
def Answers (i : ℕ) : DriverPhase D A → Prop
  | .setIdInfo j => j = i
  | .putResponse j => j = i
  | _ => False

/-- An early driver is not about to answer anyone. -/
lemma Early.not_answers {d : DriverPhase D A} (h : d.Early) (i : ℕ) : ¬ d.Answers i := by
  cases d <;> simp_all [Early, Answers]

end DriverPhase

/-- A sequence in one of these phases may be sent a response. -/
def SequencePhase.Answerable : SequencePhase D A P → Prop
  | .collecting _ => True
  | .ended => True
  | .exited => True
  | _ => False

/-- The invariant of the sequence `i`, which depends on where the driver is, on the response object
and on its own response queue. -/
def SeqInv (sched : ℕ → EdgeOrder) (d : DriverPhase D A) (rsp : SequenceItem D A)
    (queue : Option (List RspHandle)) (i : ℕ) (st : SequenceState D A P) : Prop :=
  match st.phase with
  | .body => queue = some []
  | .offered => queue = some [] ∧ st.req.sequenceId = seqId i
  | .inFlight _ => queue = some [] ∧ d.Serves i
  | .collecting t =>
      st.req = t.after sched ∧
        ((queue = some [] ∧ d.Answers i) ∨ (queue = some [.rspItem] ∧ d.Early ∧ rsp = st.req))
  | .ended => ∃ q, queue = some q ∧ q.length ≤ 1 ∧ (d.Answers i → q = [])
  | .exited => queue = none

/-- The item `t` has been on the bus, and its answer is in the response. -/
structure Sent (sched : ℕ → EdgeOrder) (t : Taken D A P) (tb : Testbench D A P) : Prop where
  quiet : tb.Quiet
  reqItem : tb.vip.reqItem = t.after sched
  rspItem : tb.vip.rspItem = tb.vip.rspItem.copy tb.vip.reqItem

/-- The code `p` is what is left of `send_to_if` for the item `t`: either it leads to the answer
`t.after`, and the copy into the response comes last, or the copy has been made. -/
inductive Sending (sched : ℕ → EdgeOrder) (t : Taken D A P) :
    Proc (VipState D A) → Testbench D A P → Prop where
  | transfer {p tb} (hp : p.All TransferAssign) (quiet : (simulate sched p tb).Quiet)
      (reqItem : (simulate sched p tb).vip.reqItem = t.after sched) :
      Sending sched t (p ++ Proc.assign copyResponse) tb
  | copied {tb} (h : Sent sched t tb) : Sending sched t halt tb

/-- What the driver is doing is about the item of the sequence it was granted to. -/
def DriverInv (sched : ℕ → EdgeOrder) (d : DriverPhase D A) (seqs : List (SequenceState D A P))
    (tb : Testbench D A P) : Prop :=
  match d with
  | .getNextItem => tb.Quiet
  | .sending i p => ∃ st t, seqs[i]? = some st ∧ st.phase = .inFlight t ∧
      t.item.sequenceId = seqId i ∧ Sending sched t p tb
  | .waiting i p => ∃ st t, seqs[i]? = some st ∧ st.phase = .inFlight t ∧
      t.item.sequenceId = seqId i ∧ Sending sched t (.wait p) tb
  | .itemDone i => ∃ st t, seqs[i]? = some st ∧ st.phase = .inFlight t ∧
      t.item.sequenceId = seqId i ∧ Sent sched t tb
  | .setIdInfo i => ∃ st, seqs[i]? = some st ∧ st.phase.Answerable ∧ tb.Quiet ∧
      st.req.sequenceId = seqId i ∧ tb.vip.reqItem = st.req ∧
      tb.vip.rspItem = tb.vip.rspItem.copy tb.vip.reqItem
  | .putResponse i => ∃ st, seqs[i]? = some st ∧ st.phase.Answerable ∧ tb.Quiet ∧
      st.req.sequenceId = seqId i ∧ tb.vip.rspItem = st.req

/-- The invariant: the driver is at the item of one sequence, and every sequence has its own
response. -/
structure Inv (sched : ℕ → EdgeOrder) (s : Sequencer D A P) : Prop where
  driver : DriverInv sched s.driver s.seqs s.tb
  seqs : ∀ i st, s.seqs[i]? = some st →
    SeqInv sched s.driver s.tb.vip.rspItem (s.tb.vip.regSequences (seqId i)) i st

/-! ## What a step does not concern -/

/-- A sequence that keeps its queue does not mind what the driver does, as long as its own item or
response is not concerned and its response, if it is there, is not touched. -/
lemma SeqInv.frame {d d' : DriverPhase D A} {rsp rsp' : SequenceItem D A}
    {queue : Option (List RspHandle)} {i : ℕ} {st : SequenceState D A P}
    (h : SeqInv sched d rsp queue i st) (hserves : d.Serves i → d'.Serves i)
    (hanswers : d'.Answers i ↔ d.Answers i)
    (hearly : (∃ t, st.phase = .collecting t) → queue = some [.rspItem] → d.Early →
      d'.Early ∧ rsp' = rsp) : SeqInv sched d' rsp' queue i st := by
  rw [SeqInv] at h ⊢
  cases hp : st.phase with
  | body => simpa only [hp] using h
  | offered => simpa only [hp] using h
  | inFlight t =>
      simp only [hp] at h ⊢
      exact ⟨h.1, hserves h.2⟩
  | collecting t =>
      simp only [hp] at h ⊢
      refine ⟨h.1, h.2.imp (fun h' => ⟨h'.1, hanswers.mpr h'.2⟩) ?_⟩
      rintro ⟨hqueue, he, hrsp⟩
      obtain ⟨he', hrsp'⟩ := hearly ⟨t, hp⟩ hqueue he
      exact ⟨hqueue, he', hrsp'.trans hrsp⟩
  | ended =>
      simp only [hp] at h ⊢
      obtain ⟨q, hqueue, hlen, hq⟩ := h
      exact ⟨q, hqueue, hlen, fun ha => hq (hanswers.mp ha)⟩
  | exited => simpa only [hp] using h

lemma Sending.setQueues {t : Taken D A P} {p : Proc (VipState D A)} {tb : Testbench D A P}
    (h : Sending sched t p tb) (r : ℤ → Option (List RspHandle)) :
    Sending sched t p (tb.setQueues r) := by
  cases h with
  | transfer hp quiet reqItem =>
      refine .transfer hp ?_ ?_
      · rw [simulate_setQueues hp]
        exact quiet.setVip rfl
      · rw [simulate_setQueues hp]
        exact reqItem
  | copied h => exact .copied ⟨h.quiet.setVip rfl, h.reqItem, h.rspItem⟩

/-- The driver does not mind what the sequences do, as long as the one it deals with keeps its
request and its phase. -/
lemma DriverInv.frame {d : DriverPhase D A} {seqs seqs' : List (SequenceState D A P)}
    {tb : Testbench D A P} (h : DriverInv sched d seqs tb) (r : ℤ → Option (List RspHandle))
    (hserved : ∀ (i : ℕ) (st : SequenceState D A P) t, seqs[i]? = some st →
      st.phase = .inFlight t → ∃ st' : SequenceState D A P, seqs'[i]? = some st' ∧
        st'.phase = .inFlight t)
    (hanswered : ∀ (i : ℕ) (st : SequenceState D A P), seqs[i]? = some st → d.Answers i →
      st.phase.Answerable → ∃ st' : SequenceState D A P, seqs'[i]? = some st' ∧
        st'.phase.Answerable ∧ st'.req = st.req) :
    DriverInv sched d seqs' (tb.setQueues r) := by
  cases d with
  | getNextItem => exact Quiet.setVip h rfl
  | sending i p =>
      obtain ⟨st, t, hi, hp, hid, hs⟩ := h
      obtain ⟨st', hi', hp'⟩ := hserved i st t hi hp
      exact ⟨st', t, hi', hp', hid, hs.setQueues r⟩
  | waiting i p =>
      obtain ⟨st, t, hi, hp, hid, hs⟩ := h
      obtain ⟨st', hi', hp'⟩ := hserved i st t hi hp
      exact ⟨st', t, hi', hp', hid, hs.setQueues r⟩
  | itemDone i =>
      obtain ⟨st, t, hi, hp, hid, hs⟩ := h
      obtain ⟨st', hi', hp'⟩ := hserved i st t hi hp
      exact ⟨st', t, hi', hp', hid, hs.quiet.setVip rfl, hs.reqItem, hs.rspItem⟩
  | setIdInfo i =>
      obtain ⟨st, hi, hp, hq, hid, hreq, hrsp⟩ := h
      obtain ⟨st', hi', hp', hreq'⟩ := hanswered i st hi rfl hp
      exact ⟨st', hi', hp', hq.setVip rfl, hreq' ▸ hid, hreq.trans hreq'.symm, hrsp⟩
  | putResponse i =>
      obtain ⟨st, hi, hp, hq, hid, hrsp⟩ := h
      obtain ⟨st', hi', hp', hreq'⟩ := hanswered i st hi rfl hp
      exact ⟨st', hi', hp', hq.setVip rfl, hreq' ▸ hid, hrsp.trans hreq'.symm⟩

/-! ## The steps of the driver -/

/-- An assignment of the transfer. -/
lemma Sending.step {t : Taken D A P} {f : VipState D A → VipState D A}
    {p : Proc (VipState D A)} {tb : Testbench D A P} (h : Sending sched t (.step f p) tb) :
    Sending sched t p (tb.assign f) ∧
      (tb.assign f).vip.regSequences = tb.vip.regSequences := by
  generalize hp' : Proc.step f p = p' at h
  cases h with
  | copied h => cases hp'
  | @transfer q tb hq quiet reqItem =>
      cases q with
      | halt =>
          obtain ⟨rfl, rfl⟩ := Proc.step.inj hp'
          rw [assign_eq_setVip copyResponse fun _ => rfl]
          exact ⟨.copied ⟨quiet.setVip rfl, reqItem, rfl⟩, rfl⟩
      | step g q =>
          obtain ⟨rfl, rfl⟩ := Proc.step.inj hp'
          refine ⟨.transfer hq.2 quiet reqItem, ?_⟩
          rcases hq.1 with ⟨c, rfl⟩ | rfl
          · rfl
          · rfl
      | wait q => cases hp'

/-- An edge of the transfer. -/
lemma Sending.wait {t : Taken D A P} {p : Proc (VipState D A)} {tb : Testbench D A P}
    (h : Sending sched t (.wait p) tb) : Sending sched t p (tb.tick sched) := by
  generalize hp' : Proc.wait p = p' at h
  cases h with
  | copied h => cases hp'
  | @transfer q tb hq quiet reqItem =>
      cases q with
      | halt => cases hp'
      | step g q => cases hp'
      | wait q =>
          obtain rfl := Proc.wait.inj hp'
          exact .transfer hq quiet reqItem

/-- A transfer that is over has made the copy into the response. -/
lemma Sending.halt {t : Taken D A P} {tb : Testbench D A P} (h : Sending sched t .halt tb) :
    Sent sched t tb := by
  generalize hp' : Proc.halt = p' at h
  cases h with
  | copied h => exact h
  | @transfer q tb hq quiet reqItem => cases q <;> cases hp'

/-- The transfer begins with a wait for the edge. -/
lemma sendToIf_eq_wait (it : SequenceItem D A) : ∃ p, sendToIf it = .wait p := by
  rw [sendToIf, transfer]
  cases it.transType with
  | READ => exact ⟨_, rfl⟩
  | WRITE => exact ⟨_, rfl⟩

/-- A response does not concern the queues of other sequences. -/
lemma deliver_of_ne {id id' : ℤ} (h : id' ≠ id) (qs : ℤ → Option (List RspHandle)) :
    deliver id qs id' = qs id' := by
  rw [deliver]
  cases qs id with
  | none => rfl
  | some q =>
      simp only
      split_ifs
      · exact Function.update_of_ne h _ _
      · rfl

lemma deliver_self_of_nil {id : ℤ} {qs : ℤ → Option (List RspHandle)} (h : qs id = some []) :
    deliver id qs id = some [.rspItem] := by
  simp [deliver, h, responseQueueDepth]

lemma deliver_self_of_none {id : ℤ} {qs : ℤ → Option (List RspHandle)} (h : qs id = none) :
    deliver id qs id = none := by
  simp [deliver, h]

lemma getElem?_set_cases {α : Type*} {l : List α} {i j : ℕ} {a b : α}
    (h : (l.set i a)[j]? = some b) : (j = i ∧ b = a) ∨ (j ≠ i ∧ l[j]? = some b) := by
  rw [List.getElem?_set] at h
  split_ifs at h with hij hlt
  · exact Or.inl ⟨hij.symm, (Option.some.inj h).symm⟩
  · exact Or.inr ⟨Ne.symm hij, h⟩

/-- A response that can be collected keeps the clock from rising. -/
lemma Sequencer.urgent_of_collecting {s : Sequencer D A P} {i : ℕ} {st : SequenceState D A P}
    {t : Taken D A P} {r : RspHandle} {rest : List RspHandle} (hi : s.seqs[i]? = some st)
    (hp : st.phase = .collecting t) (hqueue : s.tb.vip.regSequences (seqId i) = some (r :: rest)) :
    s.urgent = true := by
  obtain ⟨kind, phase, req⟩ := st
  obtain rfl : phase = .collecting t := hp
  have hlt : i < s.seqs.length := (List.getElem?_eq_some_iff.mp hi).1
  have hany : ((List.range s.seqs.length).any fun i => (s.getResponse i).isSome) = true := by
    refine List.any_eq_true.mpr ⟨i, List.mem_range.mpr hlt, ?_⟩
    simp [Sequencer.getResponse, hi, hqueue]
  rw [Sequencer.urgent]
  split
  · exact hany
  · exact hany
  · rfl

/-! ## Every action preserves the invariant -/

namespace Inv

variable {s s' : Sequencer D A P}

/-- A sequence is started. -/
lemma start (h : Inv sched s) (kind : SequenceKind) : Inv sched (s.start kind) := by
  have hlt {i : ℕ} {st : SequenceState D A P} (hi : s.seqs[i]? = some st) : i < s.seqs.length :=
    (List.getElem?_eq_some_iff.mp hi).1
  have hkept {i : ℕ} {st : SequenceState D A P} (hi : s.seqs[i]? = some st) :
      (s.seqs ++ [⟨kind, .body, {}⟩])[i]? = some st :=
    (List.getElem?_append_left (hlt hi)).trans hi
  refine ⟨?_, ?_⟩
  · simp only [Sequencer.start, assign_startSequence_eq]
    exact h.driver.frame _ (fun i st t hi hp => ⟨st, hkept hi, hp⟩)
      fun i st hi _ hp => ⟨st, hkept hi, hp, rfl⟩
  · intro i st hi
    simp only [Sequencer.start, assign_startSequence_eq] at hi ⊢
    by_cases hlen : i < s.seqs.length
    · rw [List.getElem?_append_left hlen] at hi
      have hid : seqId i ≠ seqId s.seqs.length := fun h => hlen.ne (seqId_injective h)
      have hqueue : Function.update s.tb.vip.regSequences (seqId s.seqs.length) (some []) (seqId i)
          = s.tb.vip.regSequences (seqId i) := Function.update_of_ne hid _ _
      simp only [setQueues, setVip_vip, hqueue]
      exact h.seqs i st hi
    · rw [List.getElem?_append_right (Nat.le_of_not_lt hlen)] at hi
      obtain ⟨hzero, rfl⟩ : i - s.seqs.length = 0 ∧ st = ⟨kind, .body, {}⟩ := by
        cases hk : i - s.seqs.length with
        | zero => simpa [hk, eq_comm] using hi
        | succ k => simp [hk] at hi
      obtain rfl : i = s.seqs.length := by omega
      simp [SeqInv, setQueues]

/-- A sequence does a step of its own, in which its queue becomes `queue`.  Its item is not in
flight, and if it is about to be sent a response, it stays so. -/
lemma set (h : Inv sched s) {i : ℕ} {st st' : SequenceState D A P} {queue : Option (List RspHandle)}
    (hi : s.seqs[i]? = some st) (hflight : ∀ t, st.phase ≠ .inFlight t)
    (hanswers : s.driver.Answers i → st.phase.Answerable → st'.phase.Answerable ∧ st'.req = st.req)
    (hst : SeqInv sched s.driver s.tb.vip.rspItem queue i st') :
    Inv sched
      { s with
        tb := s.tb.setQueues (Function.update s.tb.vip.regSequences (seqId i) queue)
        seqs := s.seqs.set i st' } := by
  have hlt : i < s.seqs.length := (List.getElem?_eq_some_iff.mp hi).1
  refine ⟨h.driver.frame _ ?_ ?_, ?_⟩
  · intro j stj t hj hp
    have hij : i ≠ j := by
      rintro rfl
      obtain rfl := Option.some.inj (hi.symm.trans hj)
      exact hflight t hp
    exact ⟨stj, (List.getElem?_set_ne hij).trans hj, hp⟩
  · intro j stj hj ha hp
    by_cases hij : i = j
    · subst hij
      obtain rfl := Option.some.inj (hi.symm.trans hj)
      exact ⟨st', List.getElem?_set_self hlt, hanswers ha hp⟩
    · exact ⟨stj, (List.getElem?_set_ne hij).trans hj, hp, rfl⟩
  · intro j stj hj
    simp only [setQueues, setVip_vip]
    rcases getElem?_set_cases hj with ⟨rfl, rfl⟩ | ⟨hne, hj⟩
    · rw [Function.update_self]
      exact hst
    · rw [Function.update_of_ne fun hid => hne (seqId_injective hid)]
      exact h.seqs j stj hj

/-- A sequence goes on to its next item, or to its end. -/
lemma proceed {i : ℕ} {r : RandomItem D A} (h : Inv sched s) (hs : s.proceed i r = some s') :
    Inv sched s' := by
  rw [Sequencer.proceed] at hs
  split at hs
  case h_2 => cases hs
  case h_1 kind req hi =>
    obtain rfl := Option.some.inj hs
    have hqueue : s.tb.vip.regSequences (seqId i) = some [] := h.seqs i _ hi
    have hsame : Function.update s.tb.vip.regSequences (seqId i) (some [])
        = s.tb.vip.regSequences := by
      rw [← hqueue, Function.update_eq_self]
    have hst : SeqInv (P := P) sched s.driver s.tb.vip.rspItem (some []) i
        (SequenceState.proceed i r ⟨kind, .body, req⟩) := by
      rw [SequenceState.proceed]
      cases hreq : kind.request r with
      | none => exact ⟨[], rfl, Nat.zero_le _, fun _ => rfl⟩
      | some it => exact ⟨rfl, rfl⟩
    have hset := h.set hi (by simp) (fun _ hp => hp.elim) hst
    rw [hsame] at hset
    exact hset

/-- A granted item holds the driver at its first edge, so that a response which is still to be
collected is not touched. -/
lemma grant {i : ℕ} (h : Inv sched s) (hs : s.grant i = some s') : Inv sched s' := by
  rw [Sequencer.grant] at hs
  split at hs
  case h_2 => cases hs
  case h_1 kind req hd hi =>
    obtain rfl := Option.some.inj hs
    have hquiet : s.tb.Quiet := by simpa only [hd, DriverInv] using h.driver
    obtain ⟨hqueue, hid⟩ : s.tb.vip.regSequences (seqId i) = some [] ∧ req.sequenceId = seqId i :=
      h.seqs i _ hi
    have htb : s.tb.assign (getNextItem req) = s.tb.setVip (getNextItem req s.tb.vip) :=
      assign_eq_setVip (getNextItem req) (fun _ => rfl) s.tb
    have hlt : i < s.seqs.length := (List.getElem?_eq_some_iff.mp hi).1
    refine ⟨?_, ?_⟩
    · have hmem : (s.tb.setVip (getNextItem req s.tb.vip)).mem = s.tb.mem := mem_setVip rfl
      obtain ⟨hq, -, hreq⟩ := simulate_transfer sched (hquiet.setVip rfl :
        (s.tb.setVip (getNextItem req s.tb.vip)).Quiet) rfl
      rw [hmem] at hreq
      rw [htb]
      exact ⟨_, _, List.getElem?_set_self hlt, rfl, hid, .transfer (all_transfer req) hq hreq⟩
    · intro j st hj
      rw [htb]
      rcases getElem?_set_cases hj with ⟨rfl, rfl⟩ | ⟨-, hj⟩
      · exact ⟨hqueue, rfl⟩
      · have hframe := h.seqs j st hj
        rw [hd] at hframe
        refine hframe.frame (fun hserves => hserves.elim) (iff_of_false ?_ ?_) ?_
        · exact id
        · exact id
        · intro _ _ _
          obtain ⟨p, hp⟩ := sendToIf_eq_wait req
          rw [hp]
          exact ⟨trivial, rfl⟩

/-- The driver goes on with the transfer. -/
lemma execute_sending {i : ℕ} {p : Proc (VipState D A)} (h : Inv sched s)
    (hd : s.driver = .sending i p) (hs : s.execute = some s') : Inv sched s' := by
  have hdriver := h.driver
  rw [hd] at hdriver
  obtain ⟨st, t, hi, hp, hid, hsending⟩ := hdriver
  have hother (j : ℕ) (stj : SequenceState D A P) (hj : s.seqs[j]? = some stj) :
      SeqInv sched (.sending i p) s.tb.vip.rspItem (s.tb.vip.regSequences (seqId j)) j stj := by
    rw [← hd]
    exact h.seqs j stj hj
  cases p with
  | step f p =>
      simp only [Sequencer.execute, hd, Option.some.injEq] at hs
      subst hs
      obtain ⟨hnext, hqueues⟩ := hsending.step
      refine ⟨⟨st, t, hi, hp, hid, hnext⟩, ?_⟩
      intro j stj hj
      simp only [hqueues]
      exact (hother j stj hj).frame id Iff.rfl fun _ _ he => he.elim
  | wait p =>
      simp only [Sequencer.execute, hd, Option.some.injEq] at hs
      subst hs
      refine ⟨⟨st, t, hi, hp, hid, hsending⟩, ?_⟩
      intro j stj hj
      exact (hother j stj hj).frame id Iff.rfl fun _ _ _ => ⟨trivial, rfl⟩
  | halt =>
      simp only [Sequencer.execute, hd, Option.some.injEq] at hs
      subst hs
      refine ⟨⟨st, t, hi, hp, hid, hsending.halt⟩, ?_⟩
      intro j stj hj
      exact (hother j stj hj).frame id Iff.rfl fun _ _ he => he.elim

/-- `item_done` leaves the sequence with the object the driver has served. -/
lemma execute_itemDone {i : ℕ} (h : Inv sched s) (hd : s.driver = .itemDone i)
    (hs : s.execute = some s') : Inv sched s' := by
  have hdriver := h.driver
  rw [hd] at hdriver
  obtain ⟨⟨kind, phase, req⟩, t, hi, rfl, hid, hsent⟩ := hdriver
  simp only [Sequencer.execute, hd, hi, Option.some.injEq] at hs
  subst hs
  have hlt : i < s.seqs.length := (List.getElem?_eq_some_iff.mp hi).1
  have hseq := h.seqs i _ hi
  obtain ⟨hqueue, -⟩ : s.tb.vip.regSequences (seqId i) = some [] ∧ s.driver.Serves i := hseq
  rw [assign_eq_setVip itemDone fun _ => rfl]
  refine ⟨⟨_, List.getElem?_set_self hlt, ?_, hsent.quiet.setVip rfl, ?_, rfl, hsent.rspItem⟩, ?_⟩
  · cases hc : kind.collects <;> simp [SequenceState.itemDone, hc, SequencePhase.Answerable]
  · show s.tb.vip.reqItem.sequenceId = seqId i
    rw [hsent.reqItem]
    exact hid
  · intro j stj hj
    rcases getElem?_set_cases hj with ⟨rfl, rfl⟩ | ⟨hne, hj⟩
    · cases hc : kind.collects with
      | true =>
          simp only [SequenceState.itemDone, hc, if_true, SeqInv]
          exact ⟨hsent.reqItem, Or.inl ⟨hqueue, rfl⟩⟩
      | false =>
          simp only [SequenceState.itemDone, hc, SeqInv]
          exact ⟨[], hqueue, Nat.zero_le _, fun _ => rfl⟩
    · have hframe := h.seqs j stj hj
      rw [hd] at hframe
      exact hframe.frame (fun hserves => absurd hserves.symm hne)
        (iff_of_false (fun hanswers => hne hanswers.symm) id) fun _ _ he => he.elim

lemma execute_setIdInfo {i : ℕ} (h : Inv sched s) (hd : s.driver = .setIdInfo i)
    (hs : s.execute = some s') : Inv sched s' := by
  have hdriver := h.driver
  rw [hd] at hdriver
  obtain ⟨st, hi, hp, hq, hid, hreq, hrsp⟩ := hdriver
  simp only [Sequencer.execute, hd, Option.some.injEq] at hs
  subst hs
  rw [assign_eq_setVip setIdInfo fun _ => rfl]
  refine ⟨⟨st, hi, hp, hq.setVip rfl, hid, ?_⟩, ?_⟩
  · show s.tb.vip.rspItem.setIdInfo s.tb.vip.reqItem = st.req
    rw [hrsp, SequenceItem.setIdInfo_copy, hreq]
  · intro j stj hj
    have hframe := h.seqs j stj hj
    rw [hd] at hframe
    exact hframe.frame id Iff.rfl fun _ _ he => he.elim

/-- The response goes to the queue of the sequence whose item was served. -/
lemma execute_putResponse {i : ℕ} (h : Inv sched s) (hd : s.driver = .putResponse i)
    (hs : s.execute = some s') : Inv sched s' := by
  have hdriver := h.driver
  rw [hd] at hdriver
  obtain ⟨st, hi, hp, hq, hid, hrsp⟩ := hdriver
  simp only [Sequencer.execute, hd, Option.some.injEq] at hs
  subst hs
  have haddr : s.tb.vip.rspItem.sequenceId = seqId i := by rw [hrsp, hid]
  rw [assign_putResponse_eq, haddr]
  refine ⟨hq.setVip rfl, ?_⟩
  intro j stj hj
  have hframe := h.seqs j stj hj
  rw [hd] at hframe
  simp only [setQueues, setVip_vip]
  by_cases hij : j = i
  · subst hij
    obtain rfl : st = stj := Option.some.inj (hi.symm.trans hj)
    rw [SeqInv] at hframe ⊢
    cases hphase : st.phase with
    | body => simp [hphase, SequencePhase.Answerable] at hp
    | offered => simp [hphase, SequencePhase.Answerable] at hp
    | inFlight t => simp [hphase, SequencePhase.Answerable] at hp
    | collecting t =>
        simp only [hphase] at hframe ⊢
        rcases hframe with ⟨hreq, ⟨hqueue, -⟩ | ⟨-, he, -⟩⟩
        · exact ⟨hreq, Or.inr ⟨deliver_self_of_nil hqueue, trivial, hrsp⟩⟩
        · exact he.elim
    | ended =>
        simp only [hphase] at hframe ⊢
        obtain ⟨q, hqueue, -, hnil⟩ := hframe
        rw [hnil rfl] at hqueue
        exact ⟨_, deliver_self_of_nil hqueue, le_refl 1, fun hanswers => hanswers.elim⟩
    | exited =>
        simp only [hphase] at hframe ⊢
        exact deliver_self_of_none hframe
  · rw [deliver_of_ne fun hseq => hij (seqId_injective hseq)]
    exact hframe.frame (fun hserves => hserves.elim)
      (iff_of_false id fun hanswers => hij hanswers.symm) fun _ _ he => he.elim

lemma execute (h : Inv sched s) (hs : s.execute = some s') : Inv sched s' := by
  cases hd : s.driver with
  | getNextItem => simp [Sequencer.execute, hd] at hs
  | sending i p => exact h.execute_sending hd hs
  | waiting i p => simp [Sequencer.execute, hd] at hs
  | itemDone i => exact h.execute_itemDone hd hs
  | setIdInfo i => exact h.execute_setIdInfo hd hs
  | putResponse i => exact h.execute_putResponse hd hs

/-- What a sequence finds that has a response to collect. -/
lemma of_collecting {i : ℕ} {st : SequenceState D A P} {t : Taken D A P} {r : RspHandle}
    {rest : List RspHandle} (h : Inv sched s) (hi : s.seqs[i]? = some st)
    (hp : st.phase = .collecting t) (hqueue : s.tb.vip.regSequences (seqId i) = some (r :: rest)) :
    rest = [] ∧ s.driver.Early ∧ s.tb.vip.rspItem = st.req ∧ st.req = t.after sched := by
  have hseq := h.seqs i st hi
  simp only [SeqInv, hp, hqueue] at hseq
  rcases hseq with ⟨hreq, ⟨hnil, -⟩ | ⟨hone, he, hrsp⟩⟩
  · simp at hnil
  · exact ⟨(List.cons.inj (Option.some.inj hone)).2, he, hrsp, hreq⟩

/-- A sequence that has collected its response waits for no other. -/
lemma getResponse {i : ℕ} (h : Inv sched s) (hs : s.getResponse i = some s') : Inv sched s' := by
  rw [Sequencer.getResponse] at hs
  split at hs
  case h_2 => cases hs
  case h_1 kind t req r rest hi hqueue =>
    obtain rfl := Option.some.inj hs
    obtain ⟨rfl, he, -, -⟩ := h.of_collecting hi rfl hqueue
    rw [assign_popResponse_eq]
    refine h.set hi (by simp) (fun ha _ => absurd ha (he.not_answers i)) ?_
    cases kind with
    | random left => exact rfl
    | read q => exact ⟨[], rfl, Nat.zero_le _, fun _ => rfl⟩
    | write q => exact ⟨[], rfl, Nat.zero_le _, fun _ => rfl⟩

/-- A sequence ends, and its queue is deleted. -/
lemma exit {i : ℕ} (h : Inv sched s) (hs : s.exit i = some s') : Inv sched s' := by
  rw [Sequencer.exit] at hs
  split at hs
  case h_2 => cases hs
  case h_1 kind req hi =>
    obtain rfl := Option.some.inj hs
    rw [assign_exitSequence_eq]
    exact h.set hi (by simp) (fun _ _ => ⟨trivial, rfl⟩) rfl

/-- The clock rises. -/
lemma posedge (h : Inv sched s) (hs : s.posedge sched = some s') : Inv sched s' := by
  rw [Sequencer.posedge] at hs
  split_ifs at hs with hurgent
  have hnone (j : ℕ) (st : SequenceState D A P) (hj : s.seqs[j]? = some st)
      (hp : ∃ t, st.phase = .collecting t) :
      s.tb.vip.regSequences (seqId j) ≠ some [.rspItem] := fun hqueue => by
    obtain ⟨t, hp⟩ := hp
    exact hurgent (Sequencer.urgent_of_collecting hj hp hqueue)
  have hdriver := h.driver
  split at hs
  case h_1 hd =>
    obtain rfl := Option.some.inj hs
    rw [hd] at hdriver
    have hq : s.tb.Quiet := hdriver
    refine ⟨?_, h.seqs⟩
    rw [hd]
    exact ⟨hq.reset, hq.bramEn⟩
  case h_2 i p hd =>
    obtain rfl := Option.some.inj hs
    rw [hd] at hdriver
    obtain ⟨st, t, hi, hp, hid, hsending⟩ := hdriver
    refine ⟨⟨st, t, hi, hp, hid, hsending.wait⟩, ?_⟩
    intro j stj hj
    have hframe := h.seqs j stj hj
    rw [hd] at hframe
    exact hframe.frame id Iff.rfl fun hc hqueue _ => absurd hqueue (hnone j stj hj hc)
  case h_3 => cases hs

/-- **One action** preserves the invariant. -/
theorem step {a : Action D A} (h : Inv sched s) (hs : s.step sched a = some s') :
    Inv sched s' := by
  cases a with
  | start kind =>
      obtain rfl := Option.some.inj hs
      exact h.start kind
  | proceed i r => exact h.proceed hs
  | grant i => exact h.grant hs
  | execute => exact h.execute hs
  | getResponse i => exact h.getResponse hs
  | exit i => exact h.exit hs
  | posedge => exact h.posedge hs

/-- Nothing has been started yet. -/
lemma initial (ram : BlkRam P) : Inv sched (Sequencer.initial D A ram) :=
  ⟨quiet_init ram, fun i st hi => by simp [Sequencer.initial] at hi⟩

end Inv

/-! ## No cross-talk -/

/-- No response queue holds more than one entry.  When a sequence has a response to collect, the
object behind the handle is the answer to its own last request, the driver having taken it from the
sequence and served it; and a read sequence that collects it copies the data of that answer. -/
structure NoCrossTalk (sched : ℕ → EdgeOrder) (s : Sequencer D A P) : Prop where
  queue : ∀ i < s.seqs.length, ∀ q, s.tb.vip.regSequences (seqId i) = some q → q.length ≤ 1
  response : ∀ i kind t req r rest, s.seqs[i]? = some ⟨kind, .collecting t, req⟩ →
    s.tb.vip.regSequences (seqId i) = some (r :: rest) →
      s.tb.vip.deref r = req ∧ req = t.after sched
  ramData : ∀ i q t req s', s.seqs[i]? = some ⟨.read q, .collecting t, req⟩ →
    s.getResponse i = some s' →
      ∃ q', s'.seqs[i]? = some ⟨.read q', .ended, req⟩ ∧
        q'.ramData = (t.after sched).transDatao.map bitsToInt

lemma SeqInv.length_le {d : DriverPhase D A} {rsp : SequenceItem D A} {q : List RspHandle} {i : ℕ}
    {st : SequenceState D A P} (h : SeqInv sched d rsp (some q) i st) : q.length ≤ 1 := by
  have hnil (hq : some q = some []) : q.length ≤ 1 := by
    rw [Option.some.inj hq]
    exact Nat.zero_le 1
  rw [SeqInv] at h
  cases hp : st.phase with
  | body =>
      simp only [hp] at h
      exact hnil h
  | offered =>
      simp only [hp] at h
      exact hnil h.1
  | inFlight t =>
      simp only [hp] at h
      exact hnil h.1
  | collecting t =>
      simp only [hp] at h
      rcases h with ⟨-, ⟨hq, -⟩ | ⟨hq, -⟩⟩
      · exact hnil hq
      · rw [Option.some.inj hq]
        exact le_refl 1
  | ended =>
      simp only [hp] at h
      obtain ⟨q', hq, hlen, -⟩ := h
      rwa [Option.some.inj hq]
  | exited =>
      simp only [hp] at h
      cases h

/-- The invariant excludes that a sequence gets what is not its own. -/
lemma Inv.noCrossTalk {s : Sequencer D A P} (h : Inv sched s) : NoCrossTalk sched s where
  queue i hi q hq := by
    have hseq := h.seqs i s.seqs[i] (List.getElem?_eq_getElem hi)
    rw [hq] at hseq
    exact hseq.length_le
  response i kind t req r rest hi hqueue := by
    obtain ⟨-, -, hrsp, hreq⟩ := h.of_collecting hi rfl hqueue
    cases r
    exact ⟨hrsp, hreq⟩
  ramData i q t req s' hi hs := by
    rw [Sequencer.getResponse] at hs
    split at hs
    case h_2 => cases hs
    case h_1 kind t' req' r rest hi' hqueue =>
      obtain rfl := Option.some.inj hs
      obtain ⟨rfl, rfl, rfl⟩ : kind = .read q ∧ t' = t ∧ req' = req := by
        simpa using (hi'.symm.trans hi)
      obtain ⟨-, -, hrsp, hreq⟩ := h.of_collecting hi rfl hqueue
      have hlt : i < s.seqs.length := (List.getElem?_eq_some_iff.mp hi).1
      refine ⟨q.collect (s.tb.vip.deref r), List.getElem?_set_self hlt, ?_⟩
      cases r
      show s.tb.vip.rspItem.transDatao.map bitsToInt = _
      rw [hrsp, ← hreq]

/-- **No cross-talk**, for any number of sequences, any order of the grants and any interleaving. -/
theorem run_noCrossTalk (sched : ℕ → EdgeOrder) (ram : BlkRam P) (actions : List (Action D A)) :
    NoCrossTalk sched ((Sequencer.initial D A ram).run sched actions) :=
  (Transition.run_invariant (I := Inv sched) (fun _ _ _ h hs => h.step hs) (Inv.initial ram)
    actions).noCrossTalk

-- One read sequence alone; the edge asked for before `get_response` does not arrive.
set_option maxRecDepth 8000 in
example :
    ((Sequencer.initial 4 1 (P := fittingParams 4 1) ⟨.ofBits 0, fun i => .ofBits i.val⟩).run
      ramAlwaysFirst
      [.start (.read ⟨[1], [0]⟩), .proceed 0 ⟨{}, rfl⟩, .grant 0, .execute, .posedge, .execute,
        .execute, .posedge, .execute, .posedge, .execute, .execute, .execute, .execute, .execute,
        .execute, .execute, .posedge, .getResponse 0]).seqs.map (fun st =>
          match st.kind with
          | .read q => q.ramData
          | _ => [])
      = [[1]] := by decide

end SinglePortRam
