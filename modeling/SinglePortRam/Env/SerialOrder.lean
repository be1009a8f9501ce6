import SinglePortRam.Env.CrossTalk

/-!
# The serial order of concurrent sequences

The driver serves one item after the other, so whatever the sequences do at once, the array and the
answers are those of some order of the items, in which no item sees a part of another one.

* `serialMem`, `Serial` — a list of items served one after the other.
* `SerialHistory` — what this means for the sequences: a finished read sequence has a snapshot of
  the array, and the burst of a finished write sequence is in the order as a whole.
* **`run_serialHistory`** — after every run.
-/

namespace SinglePortRam

open FourState Clocked Proc VipState Testbench

variable {D A : ℕ} {P : RamParams}

/-! ## Serial histories -/

/-- The array after an item. -/
def SequenceItem.applyTo (it : SequenceItem D A) (m : RamWords P) : RamWords P :=
  match it.transType with
  | .WRITE => storeElems m it.elements
  | .READ => m

/-- The array after a list of items, served one after the other. -/
def serialMem (m : RamWords P) (items : List (SequenceItem D A)) : RamWords P :=
  items.foldl (fun m it => it.applyTo m) m

/-- The data of every `READ` are the words that the items before it have left. -/
def Serial (m : RamWords P) (items : List (SequenceItem D A)) : Prop :=
  ∀ pre it post, items = pre ++ it :: post → it.transType = .READ →
    it.transDatao = it.elements.map (readBits (serialMem m pre))

/-- The item has been served, and it was served when the array was `m'`. -/
def ServedAt (m : RamWords P) (served : List (SequenceItem D A)) (it : SequenceItem D A)
    (m' : RamWords P) : Prop :=
  ∃ pre post, served = pre ++ it :: post ∧ serialMem m pre = m'

/-- The array after one more item. -/
lemma serialMem_concat (m : RamWords P) (items : List (SequenceItem D A)) (it : SequenceItem D A) :
    serialMem m (items ++ [it]) = it.applyTo (serialMem m items) := by
  simp [serialMem]

/-- With the RAM first at every edge, an item has its whole effect. -/
lemma memAfter_ramAlwaysFirst (t : ℕ) (m : RamWords P) (it : SequenceItem D A) :
    memAfter ramAlwaysFirst t m it = it.applyTo m := by
  rw [memAfter, SequenceItem.applyTo]
  cases it.transType with
  | WRITE => simp only [storedElems_ramAlwaysFirst]
  | READ => rfl

/-- A list that is one longer is split before its last element, or at it. -/
lemma concat_eq_append_cons {α : Type*} {l pre post : List α} {a b : α}
    (h : l ++ [a] = pre ++ b :: post) :
    (l = pre ∧ a = b) ∨ ∃ post', l = pre ++ b :: post' := by
  rcases List.eq_nil_or_concat post with rfl | ⟨post', c, rfl⟩
  · obtain ⟨hpre, hlast⟩ := List.append_inj' h rfl
    exact Or.inl ⟨hpre, (List.cons.inj hlast).1⟩
  · have hlast : l ++ [a] = (pre ++ b :: post') ++ [c] := by simpa using h
    exact Or.inr ⟨post', (List.append_inj' hlast rfl).1⟩

lemma getElem?_concat_cases {α : Type*} {l : List α} {a b : α} {i : ℕ}
    (h : (l ++ [a])[i]? = some b) : l[i]? = some b ∨ (i = l.length ∧ b = a) := by
  rcases lt_or_ge i l.length with hlt | hge
  · exact Or.inl ((List.getElem?_append_left hlt).symm.trans h)
  · rw [List.getElem?_append_right hge] at h
    obtain ⟨hzero, hb⟩ := List.getElem?_eq_some_iff.mp h
    have hi : i = l.length := by simp at hzero; omega
    subst hi
    exact Or.inr ⟨rfl, by simpa using hb.symm⟩

/-- A history is continued with an item that reads what it has left. -/
lemma Serial.concat {m : RamWords P} {items : List (SequenceItem D A)} {it : SequenceItem D A}
    (h : Serial m items)
    (hit : it.transType = .READ → it.transDatao = it.elements.map (readBits (serialMem m items))) :
    Serial m (items ++ [it]) := by
  intro pre it' post hsplit hread
  rcases concat_eq_append_cons hsplit with ⟨rfl, rfl⟩ | ⟨post', hitems⟩
  · exact hit hread
  · exact h pre it' post' hitems hread

/-- What was served at a point of the history stays there. -/
lemma ServedAt.concat {m m' : RamWords P} {served : List (SequenceItem D A)}
    {it : SequenceItem D A} (h : ServedAt m served it m') (it' : SequenceItem D A) :
    ServedAt m (served ++ [it']) it m' := by
  obtain ⟨pre, post, rfl, hm⟩ := h
  exact ⟨pre, post ++ [it'], by simp, hm⟩

lemma ServedAt.mem {m m' : RamWords P} {served : List (SequenceItem D A)} {it : SequenceItem D A}
    (h : ServedAt m served it m') : it ∈ served := by
  obtain ⟨pre, post, rfl, -⟩ := h
  exact List.mem_append_right pre List.mem_cons_self

/-! ## The items of the sequences -/

/-- The item is a request of the body of the sequence `i`. -/
def Requests (i : ℕ) (kind : SequenceKind) (it : SequenceItem D A) : Prop :=
  ∃ r it₀, kind.request r = some it₀ ∧ it = it₀.sentBy (seqId i)

lemma Requests.sequenceId {i : ℕ} {kind : SequenceKind} {it : SequenceItem D A}
    (h : Requests i kind it) : it.sequenceId = seqId i := by
  obtain ⟨r, it₀, -, rfl⟩ := h
  rfl

/-- The queue of a `READ` is empty when it is sent. -/
lemma Requests.transDatao {i : ℕ} {kind : SequenceKind} {it : SequenceItem D A}
    (h : Requests i kind it) (hread : it.transType = .READ) : it.transDatao = [] := by
  obtain ⟨r, it₀, hreq, rfl⟩ := h
  cases kind with
  | random left =>
      cases left with
      | zero => cases hreq
      | succ left =>
          obtain rfl := Option.some.inj hreq
          rfl
  | read q =>
      obtain rfl := Option.some.inj hreq
      rfl
  | write q =>
      simp only [SequenceKind.request, WriteSequence.body] at hreq
      split_ifs at hreq
      obtain rfl := Option.some.inj hreq
      cases hread

/-- The answer to a request. -/
lemma Requests.after {i : ℕ} {kind : SequenceKind} {t : Taken D A P}
    (h : Requests i kind t.item) (hread : t.item.transType = .READ) :
    (t.after ramAlwaysFirst).transDatao = t.item.elements.map (readBits t.mem) := by
  have hnil := h.transDatao hread
  simp only [Taken.after, itemAfter, captured, hread, capturedElems_ramAlwaysFirst,
    SequenceItem.pushDatao, hnil, List.nil_append]

/-- A sequence that is over.  A read sequence has the words of its addresses, as they were when one
of the items was served, which is its own; the burst of a write sequence has been served. -/
def Finished (m : RamWords P) (served : List (SequenceItem D A)) (i : ℕ) :
    SequenceKind → Prop
  | .random _ => True
  | .read q => ∃ it m', ServedAt m served it m' ∧ it.sequenceId = seqId i ∧
      it.transType = .READ ∧ it.transAddr = q.ramAddr.map (intToBits A) ∧
      q.ramData = it.elements.map fun e => bitsToInt (readBits m' e)
  | .write q => ∀ it, q.body D A = .ok it → it.sentBy (seqId i) ∈ served

/-- What a sequence has got stays right as the history goes on. -/
lemma Finished.concat {m : RamWords P} {served : List (SequenceItem D A)} {i : ℕ}
    {kind : SequenceKind} (h : Finished m served i kind) (it : SequenceItem D A) :
    Finished m (served ++ [it]) i kind := by
  cases kind with
  | random left => trivial
  | read q =>
      obtain ⟨it', m', hserved, hrest⟩ := h
      exact ⟨it', m', hserved.concat it, hrest⟩
  | write q => exact fun it' hbody => List.mem_append_left _ (h it' hbody)

/-- The burst of a write sequence is the same item before and after it is served. -/
lemma Requests.after_of_write {i : ℕ} {q : WriteSequence} {t : Taken D A P}
    (h : Requests i (.write q) t.item) {it : SequenceItem D A} (hbody : q.body D A = .ok it) :
    t.after ramAlwaysFirst = it.sentBy (seqId i) := by
  obtain ⟨r, it₀, hreq, hitem⟩ := h
  obtain rfl : it = it₀ := by simpa [SequenceKind.request, hbody] using hreq
  have hwrite : t.item.transType = .WRITE := by
    rw [WriteSequence.body] at hbody
    split_ifs at hbody
    rw [hitem, ← Except.ok.inj hbody]
    rfl
  rw [Taken.after, itemAfter_of_write _ _ _ hwrite, hitem]

/-! ## The invariant -/

/-- The assignment has nothing to do with the response queues and the items served. -/
def IgnoresBooks (f : VipState D A → VipState D A) : Prop :=
  (∀ r s, f { s with regSequences := r } = { f s with regSequences := r }) ∧
    ∀ s, (f s).msRamIf.reset = s.msRamIf.reset ∧ (f s).served = s.served

lemma mem_simulate_setQueues {sched : ℕ → EdgeOrder} {p : Proc (VipState D A)}
    (hp : p.All IgnoresBooks) (r : ℤ → Option (List RspHandle)) (tb : Testbench D A P) :
    (simulate sched p (tb.setQueues r)).mem = (simulate sched p tb).mem := by
  have hrun : simulate sched p (tb.setQueues r) = (simulate sched p tb).setQueues r := by
    refine Clock.run_comm (clock sched) (g := setQueues r) (P := IgnoresBooks) ?_
      (fun _ => rfl) hp tb
    rintro f ⟨hf, hkept⟩ s
    have hassign (s' : Testbench D A P) : (clock sched).assign f s' = { s' with vip := f s'.vip } :=
      assign_of_reset_eq (hkept s'.vip).1
    rw [hassign, hassign]
    exact congrArg (fun v => { s with vip := v }) (hf r s.vip)
  rw [hrun]
  exact mem_setVip rfl

/-- The transfer leaves the list of the items served alone. -/
lemma all_ignoresBooks_sendToIf (it : SequenceItem D A) : (sendToIf it).All IgnoresBooks := by
  have htransfer : (transfer it).All IgnoresBooks := by
    refine (all_transfer it).mono ?_
    rintro f (⟨c, rfl⟩ | rfl)
    · exact ⟨fun _ _ => rfl, fun _ => ⟨rfl, rfl⟩⟩
    · exact ⟨fun _ _ => rfl, fun _ => ⟨rfl, rfl⟩⟩
  rw [sendToIf, All_append, All_assign]
  exact ⟨htransfer, fun _ _ => rfl, fun _ => ⟨rfl, rfl⟩⟩

/-- The code `p` is what is left of `send_to_if` for the item `t`, which was taken when all of
`served` had been served and no more. -/
structure Carries (m : RamWords P) (served : List (SequenceItem D A)) (t : Taken D A P)
    (p : Proc (VipState D A)) (tb : Testbench D A P) : Prop where
  taken : t.mem = serialMem m served
  all : p.All IgnoresBooks
  mem : (simulate ramAlwaysFirst p tb).mem = t.item.applyTo t.mem

/-- The array when the driver is where it is. -/
def DriverSerial (m : RamWords P) (d : DriverPhase D A) (seqs : List (SequenceState D A P))
    (tb : Testbench D A P) : Prop :=
  match d with
  | .sending i p => ∃ st t, seqs[i]? = some st ∧ st.phase = .inFlight t ∧
      Carries m tb.vip.served t p tb
  | .waiting i p => ∃ st t, seqs[i]? = some st ∧ st.phase = .inFlight t ∧
      Carries m tb.vip.served t (.wait p) tb
  | .itemDone i => ∃ st t, seqs[i]? = some st ∧ st.phase = .inFlight t ∧
      Carries m tb.vip.served t .halt tb
  | _ => tb.mem = serialMem m tb.vip.served

/-- What has become of the requests of the sequence `i`. -/
def SeqSerial (m : RamWords P) (served : List (SequenceItem D A)) (i : ℕ)
    (st : SequenceState D A P) : Prop :=
  match st.phase with
  | .body => True
  | .offered => Requests i st.kind st.req
  | .inFlight t => Requests i st.kind t.item
  | .collecting t => Requests i st.kind t.item ∧
      ServedAt m served (t.after ramAlwaysFirst) t.mem
  | .ended => Finished m served i st.kind
  | .exited => Finished m served i st.kind

/-- The invariant: the items served form a serial history, and all that is still under way continues
it. -/
structure SerialInv (m : RamWords P) (s : Sequencer D A P) : Prop where
  serial : Serial m s.tb.vip.served
  driver : DriverSerial m s.driver s.seqs s.tb
  seqs : ∀ i st, s.seqs[i]? = some st → SeqSerial m s.tb.vip.served i st

lemma SeqSerial.concat {m : RamWords P} {served : List (SequenceItem D A)} {i : ℕ}
    {st : SequenceState D A P} (h : SeqSerial m served i st) (it : SequenceItem D A) :
    SeqSerial m (served ++ [it]) i st := by
  rw [SeqSerial] at h ⊢
  cases hp : st.phase with
  | body => trivial
  | offered => simpa only [hp] using h
  | inFlight t => simpa only [hp] using h
  | collecting t =>
      simp only [hp] at h ⊢
      exact ⟨h.1, h.2.concat it⟩
  | ended =>
      simp only [hp] at h ⊢
      exact h.concat it
  | exited =>
      simp only [hp] at h ⊢
      exact h.concat it

lemma Requests.itemDone {m : RamWords P} {served : List (SequenceItem D A)} {i : ℕ}
    {st : SequenceState D A P} {t : Taken D A P} {object : SequenceItem D A}
    (h : Requests i st.kind t.item) (hp : st.phase = .inFlight t)
    (ht : t.mem = serialMem m served) :
    SeqSerial m (served ++ [t.after ramAlwaysFirst]) i (st.itemDone object) := by
  obtain ⟨kind, phase, req⟩ := st
  obtain rfl : phase = .inFlight t := hp
  cases kind with
  | random left => exact ⟨h, served, [], rfl, ht.symm⟩
  | read q => exact ⟨h, served, [], rfl, ht.symm⟩
  | write q =>
      intro it hbody
      rw [← h.after_of_write hbody]
      exact List.mem_append_right _ (List.mem_singleton_self _)

lemma Requests.collect {m : RamWords P} {served : List (SequenceItem D A)} {i : ℕ}
    {kind : SequenceKind} {t : Taken D A P} {req : SequenceItem D A}
    (h : Requests i kind t.item) (hserved : ServedAt m served (t.after ramAlwaysFirst) t.mem) :
    SeqSerial m served i
      (SequenceState.collect (t.after ramAlwaysFirst) ⟨kind, .collecting t, req⟩) := by
  cases kind with
  | random left => trivial
  | read q =>
      obtain ⟨hread, haddr⟩ : t.item.transType = .READ ∧
          t.item.transAddr = q.ramAddr.map (intToBits A) := by
        obtain ⟨r, it₀, hreq, hitem⟩ := h
        obtain rfl := Option.some.inj hreq
        rw [hitem]
        exact ⟨rfl, rfl⟩
      refine ⟨_, _, hserved, h.sequenceId, hread, haddr, ?_⟩
      show (t.after ramAlwaysFirst).transDatao.map bitsToInt = _
      rw [h.after hread, List.map_map]
      rfl
  | write q =>
      intro it hbody
      rw [← h.after_of_write hbody]
      exact hserved.mem

/-- The driver does not mind what the sequences do, as long as the one it serves keeps its item. -/
lemma DriverSerial.frame {m : RamWords P} {d : DriverPhase D A}
    {seqs seqs' : List (SequenceState D A P)} {tb : Testbench D A P}
    (h : DriverSerial m d seqs tb) (r : ℤ → Option (List RspHandle))
    (hserved : ∀ (i : ℕ) (st : SequenceState D A P) t, seqs[i]? = some st →
      st.phase = .inFlight t → ∃ st' : SequenceState D A P, seqs'[i]? = some st' ∧
        st'.phase = .inFlight t) :
    DriverSerial m d seqs' (tb.setQueues r) := by
  have hcarries {t : Taken D A P} {p : Proc (VipState D A)}
      (hc : Carries m tb.vip.served t p tb) : Carries m tb.vip.served t p (tb.setQueues r) :=
    ⟨hc.taken, hc.all, (mem_simulate_setQueues hc.all r tb).trans hc.mem⟩
  cases d with
  | getNextItem => exact (mem_setVip rfl).trans h
  | sending i p =>
      obtain ⟨st, t, hi, hp, hc⟩ := h
      obtain ⟨st', hi', hp'⟩ := hserved i st t hi hp
      exact ⟨st', t, hi', hp', hcarries hc⟩
  | waiting i p =>
      obtain ⟨st, t, hi, hp, hc⟩ := h
      obtain ⟨st', hi', hp'⟩ := hserved i st t hi hp
      exact ⟨st', t, hi', hp', hcarries hc⟩
  | itemDone i =>
      obtain ⟨st, t, hi, hp, hc⟩ := h
      obtain ⟨st', hi', hp'⟩ := hserved i st t hi hp
      exact ⟨st', t, hi', hp', hcarries hc⟩
  | setIdInfo i => exact (mem_setVip rfl).trans h
  | putResponse i => exact (mem_setVip rfl).trans h

/-! ## Every action preserves the invariant -/

namespace SerialInv

variable {m : RamWords P} {s s' : Sequencer D A P}

/-- A sequence is started. -/
lemma start (h : SerialInv m s) (kind : SequenceKind) : SerialInv m (s.start kind) := by
  refine ⟨?_, ?_, ?_⟩
  · exact h.serial
  · simp only [Sequencer.start, assign_startSequence_eq]
    refine h.driver.frame _ ?_
    intro i st t hi hp
    exact ⟨st, (List.getElem?_append_left (List.getElem?_eq_some_iff.mp hi).1).trans hi, hp⟩
  · intro i st hi
    rcases getElem?_concat_cases hi with hi | ⟨-, rfl⟩
    · exact h.seqs i st hi
    · trivial

/-- A sequence does a step of its own, its item not being in flight. -/
lemma set (h : SerialInv m s) {i : ℕ} {st st' : SequenceState D A P}
    (r : ℤ → Option (List RspHandle)) (hi : s.seqs[i]? = some st)
    (hflight : ∀ t, st.phase ≠ .inFlight t) (hst : SeqSerial m s.tb.vip.served i st') :
    SerialInv m { s with tb := s.tb.setQueues r, seqs := s.seqs.set i st' } := by
  refine ⟨h.serial, h.driver.frame r ?_, ?_⟩
  · intro j stj t hj hp
    have hij : i ≠ j := by
      rintro rfl
      obtain rfl := Option.some.inj (hi.symm.trans hj)
      exact hflight t hp
    exact ⟨stj, (List.getElem?_set_ne hij).trans hj, hp⟩
  · intro j stj hj
    rcases getElem?_set_cases hj with ⟨rfl, rfl⟩ | ⟨-, hj⟩
    · exact hst
    · exact h.seqs j stj hj

lemma proceed {i : ℕ} {r : RandomItem D A} (h : SerialInv m s) (hs : s.proceed i r = some s') :
    SerialInv m s' := by
  rw [Sequencer.proceed] at hs
  split at hs
  case h_2 => cases hs
  case h_1 kind req hi =>
    obtain rfl := Option.some.inj hs
    refine h.set s.tb.vip.regSequences hi (by simp) ?_
    rw [SequenceState.proceed]
    cases hreq : kind.request r with
    | some it => exact ⟨r, it, hreq, rfl⟩
    | none =>
        cases kind with
        | random left => trivial
        | read q => cases hreq
        | write q =>
            intro it hbody
            simp [SequenceKind.request, hbody] at hreq

/-- A granted item finds the array as the items before it have left it. -/
lemma grant {i : ℕ} (hinv : Inv ramAlwaysFirst s) (h : SerialInv m s)
    (hs : s.grant i = some s') : SerialInv m s' := by
  rw [Sequencer.grant] at hs
  split at hs
  case h_2 => cases hs
  case h_1 kind req hd hi =>
    obtain rfl := Option.some.inj hs
    have hquiet : s.tb.Quiet := by simpa only [hd, DriverInv] using hinv.driver
    have hmem : s.tb.mem = serialMem m s.tb.vip.served := by
      simpa only [hd, DriverSerial] using h.driver
    have htb : s.tb.assign (getNextItem req) = s.tb.setVip (getNextItem req s.tb.vip) :=
      assign_eq_setVip (getNextItem req) (fun _ => rfl) s.tb
    have hlt : i < s.seqs.length := (List.getElem?_eq_some_iff.mp hi).1
    rw [htb]
    refine ⟨h.serial, ⟨_, _, List.getElem?_set_self hlt, rfl, hmem, all_ignoresBooks_sendToIf req,
      ?_⟩, ?_⟩
    · obtain ⟨hq, hafter, -⟩ := simulate_transfer ramAlwaysFirst (hquiet.setVip rfl :
        (s.tb.setVip (getNextItem req s.tb.vip)).Quiet) (rfl : _ = req)
      rw [memAfter_ramAlwaysFirst] at hafter
      have hcopy (tb : Testbench D A P) :
          (simulate ramAlwaysFirst (sendToIf req) tb).mem
            = (simulate ramAlwaysFirst (transfer req) tb).mem := by
        rw [sendToIf, simulate, Clock.run_append]
        show ((simulate ramAlwaysFirst (transfer req) tb).assign copyResponse).mem = _
        rw [assign_eq_setVip copyResponse fun _ => rfl]
        exact mem_setVip rfl
      rw [hcopy, hafter]
      exact congrArg req.applyTo (mem_setVip rfl)
    · intro j st hj
      rcases getElem?_set_cases hj with ⟨rfl, rfl⟩ | ⟨-, hj⟩
      · have hreq : SeqSerial m s.tb.vip.served j ⟨kind, .offered, req⟩ := h.seqs j _ hi
        exact hreq
      · exact h.seqs j st hj

lemma execute_sending {i : ℕ} {p : Proc (VipState D A)} (h : SerialInv m s)
    (hd : s.driver = .sending i p) (hs : s.execute = some s') : SerialInv m s' := by
  have hdriver := h.driver
  rw [hd] at hdriver
  obtain ⟨st, t, hi, hp, hc⟩ := hdriver
  cases p with
  | step f p =>
      simp only [Sequencer.execute, hd, Option.some.injEq] at hs
      subst hs
      have hserved : (s.tb.assign f).vip.served = s.tb.vip.served := (hc.all.1.2 s.tb.vip).2
      refine ⟨hserved ▸ h.serial, ⟨st, t, hi, hp, hserved ▸ hc.taken, hc.all.2, hc.mem⟩, ?_⟩
      intro j stj hj
      rw [hserved]
      exact h.seqs j stj hj
  | wait p =>
      simp only [Sequencer.execute, hd, Option.some.injEq] at hs
      subst hs
      exact ⟨h.serial, ⟨st, t, hi, hp, hc⟩, h.seqs⟩
  | halt =>
      simp only [Sequencer.execute, hd, Option.some.injEq] at hs
      subst hs
      exact ⟨h.serial, ⟨st, t, hi, hp, hc⟩, h.seqs⟩

/-- The item that is done is the next one in the order. -/
lemma execute_itemDone {i : ℕ} (hinv : Inv ramAlwaysFirst s) (h : SerialInv m s)
    (hd : s.driver = .itemDone i) (hs : s.execute = some s') : SerialInv m s' := by
  have hdriver := h.driver
  rw [hd] at hdriver
  obtain ⟨st, t, hi, hp, hc⟩ := hdriver
  have hsent := hinv.driver
  rw [hd] at hsent
  obtain ⟨st', t', hi', hp', -, hsent⟩ := hsent
  obtain rfl := Option.some.inj (hi.symm.trans hi')
  obtain rfl := SequencePhase.inFlight.inj (hp.symm.trans hp')
  simp only [Sequencer.execute, hd, hi, Option.some.injEq] at hs
  subst hs
  have hreq : Requests i st.kind t.item := by simpa only [SeqSerial, hp] using h.seqs i st hi
  have hmem : s.tb.mem = t.item.applyTo t.mem := hc.mem
  have hserved : (s.tb.assign itemDone).vip.served
      = s.tb.vip.served ++ [t.after ramAlwaysFirst] :=
    congrArg (fun it => s.tb.vip.served ++ [it]) hsent.reqItem
  refine ⟨?_, ?_, ?_⟩
  · rw [hserved]
    refine h.serial.concat fun hread => ?_
    rw [← hc.taken]
    exact hreq.after hread
  · show (s.tb.assign itemDone).mem = serialMem m (s.tb.assign itemDone).vip.served
    rw [hserved, serialMem_concat, ← hc.taken, assign_eq_setVip itemDone fun _ => rfl]
    exact (mem_setVip rfl).trans hmem
  · intro j stj hj
    rw [hserved]
    rcases getElem?_set_cases hj with ⟨rfl, rfl⟩ | ⟨-, hj⟩
    · exact hreq.itemDone hp hc.taken
    · exact (h.seqs j stj hj).concat _

lemma execute (hinv : Inv ramAlwaysFirst s) (h : SerialInv m s) (hs : s.execute = some s') :
    SerialInv m s' := by
  cases hd : s.driver with
  | getNextItem => simp [Sequencer.execute, hd] at hs
  | sending i p => exact h.execute_sending hd hs
  | waiting i p => simp [Sequencer.execute, hd] at hs
  | itemDone i => exact h.execute_itemDone hinv hd hs
  | setIdInfo i =>
      have hmem : s.tb.mem = serialMem m s.tb.vip.served := by
        simpa only [hd, DriverSerial] using h.driver
      simp only [Sequencer.execute, hd, Option.some.injEq] at hs
      subst hs
      rw [assign_eq_setVip setIdInfo fun _ => rfl]
      exact ⟨h.serial, (mem_setVip rfl).trans hmem, h.seqs⟩
  | putResponse i =>
      have hmem : s.tb.mem = serialMem m s.tb.vip.served := by
        simpa only [hd, DriverSerial] using h.driver
      simp only [Sequencer.execute, hd, Option.some.injEq] at hs
      subst hs
      rw [assign_putResponse_eq]
      exact ⟨h.serial, (mem_setVip rfl).trans hmem, h.seqs⟩

/-- A sequence collects the answer to the item that was served for it. -/
lemma getResponse {i : ℕ} (hinv : Inv ramAlwaysFirst s) (h : SerialInv m s)
    (hs : s.getResponse i = some s') : SerialInv m s' := by
  rw [Sequencer.getResponse] at hs
  split at hs
  case h_2 => cases hs
  case h_1 kind t req r rest hi hqueue =>
    obtain rfl := Option.some.inj hs
    obtain ⟨-, -, hrsp, hafter⟩ := hinv.of_collecting hi rfl hqueue
    obtain ⟨hreq, hserved⟩ : Requests i kind t.item ∧
        ServedAt m s.tb.vip.served (t.after ramAlwaysFirst) t.mem := h.seqs i _ hi
    have hderef : s.tb.vip.deref r = t.after ramAlwaysFirst := by
      cases r
      exact hrsp.trans hafter
    rw [assign_popResponse_eq, hderef]
    exact h.set _ hi (by simp) (hreq.collect hserved)

lemma exit {i : ℕ} (h : SerialInv m s) (hs : s.exit i = some s') : SerialInv m s' := by
  rw [Sequencer.exit] at hs
  split at hs
  case h_2 => cases hs
  case h_1 kind req hi =>
    obtain rfl := Option.some.inj hs
    have hended : Finished m s.tb.vip.served i kind := h.seqs i _ hi
    rw [assign_exitSequence_eq]
    exact h.set _ hi (by simp) hended

lemma posedge (hinv : Inv ramAlwaysFirst s) (h : SerialInv m s)
    (hs : s.posedge ramAlwaysFirst = some s') : SerialInv m s' := by
  rw [Sequencer.posedge] at hs
  split_ifs at hs
  split at hs
  case h_1 hd =>
    obtain rfl := Option.some.inj hs
    have hquiet : s.tb.Quiet := by simpa only [hd, DriverInv] using hinv.driver
    have hmem : s.tb.mem = serialMem m s.tb.vip.served := by
      simpa only [hd, DriverSerial] using h.driver
    have htick : (s.tb.tick ramAlwaysFirst).Quiet := ⟨hquiet.reset, hquiet.bramEn⟩
    refine ⟨h.serial, ?_, h.seqs⟩
    rw [hd]
    exact (htick.mem_eq.trans (hquiet.committed_tick _)).trans hmem
  case h_2 i p hd =>
    obtain rfl := Option.some.inj hs
    have hdriver := h.driver
    rw [hd] at hdriver
    obtain ⟨st, t, hi, hp, hc⟩ := hdriver
    exact ⟨h.serial, ⟨st, t, hi, hp, hc.taken, hc.all, hc.mem⟩, h.seqs⟩
  case h_3 => cases hs

/-- **One action** preserves the invariant. -/
theorem step {a : Action D A} (hinv : Inv ramAlwaysFirst s) (h : SerialInv m s)
    (hs : s.step ramAlwaysFirst a = some s') : SerialInv m s' := by
  cases a with
  | start kind =>
      obtain rfl := Option.some.inj hs
      exact h.start kind
  | proceed i r => exact h.proceed hs
  | grant i => exact h.grant hinv hs
  | execute => exact h.execute hinv hs
  | getResponse i => exact h.getResponse hinv hs
  | exit i => exact h.exit hs
  | posedge => exact h.posedge hinv hs

lemma initial (ram : BlkRam P) : SerialInv ram.mem (Sequencer.initial D A ram) :=
  ⟨fun pre it post h => by simp [Sequencer.initial, init] at h, mem_init ram,
    fun i st hi => by simp [Sequencer.initial] at hi⟩

end SerialInv

/-! ## The serial order -/

/-- The items served are a serial history that explains what the sequences see: every answer is that
of the history, the array is the one after it whenever the driver asks for an item, and a sequence
that is over has been answered in it. -/
structure SerialHistory (m : RamWords P) (s : Sequencer D A P) : Prop where
  answers : Serial m s.tb.vip.served
  array : s.driver = .getNextItem → s.tb.mem = serialMem m s.tb.vip.served
  finished : ∀ i st, s.seqs[i]? = some st → st.phase = .ended ∨ st.phase = .exited →
    Finished m s.tb.vip.served i st.kind

/-- The invariant states the history. -/
lemma SerialInv.serialHistory {m : RamWords P} {s : Sequencer D A P} (h : SerialInv m s) :
    SerialHistory m s where
  answers := h.serial
  array hd := by simpa only [hd, DriverSerial] using h.driver
  finished i st hi hover := by
    have hst := h.seqs i st hi
    rcases hover with hp | hp
    · simpa only [SeqSerial, hp] using hst
    · simpa only [SeqSerial, hp] using hst

/-- The invariant holds after every run. -/
lemma serialInv_run (ram : BlkRam P) (actions : List (Action D A)) :
    SerialInv ram.mem ((Sequencer.initial D A ram).run ramAlwaysFirst actions) :=
  (Transition.run_invariant (I := fun s => Inv ramAlwaysFirst s ∧ SerialInv ram.mem s)
    (fun _ _ _ h hs => ⟨h.1.step hs, h.2.step h.1 hs⟩)
    ⟨Inv.initial ram, SerialInv.initial ram⟩ actions).2

end SinglePortRam
