import SinglePortRam.Uvm.Turns

/-!
# The order of the requests

Every call of `wait_for_grant` puts one entry into the queue of the sequencer, and every grant takes
one out.  With the turns, this accounts for each request: it is waiting, or under way, or its item
has been served.

* `Turn.underWay`, `History` — the invariant.
* `History.request`, `History.issueGrant`, `History.itemDone` — the steps that write history.
-/

namespace SinglePortRam

open FourState Clocked Proc VipState

variable {D A : ℕ} {P : RamParams} {mode : UvmSequencerArbMode}

/-- The sequence whose request is granted, and not done yet. -/
def Turn.underWay : Turn → List ℤ
  | .free => []
  | .granted i _ => [seqId i]
  | .sent i => [seqId i]

/-- The sequences with a request in the queue. -/
def waitingIds (q : List SequenceRequest) : List ℤ := q.map fun e => seqId e.sequencePtr

/-- The modes that grant the oldest request: without a `user_priority_arbitration` of its own, the
user mode is one of them. -/
def UvmSequencerArbMode.InOrder : UvmSequencerArbMode → Prop
  | .fifo => True
  | .user => True
  | _ => False

/-- What has become of the requests. -/
structure History (mode : UvmSequencerArbMode) (turn : Turn) (served : List (SequenceItem D A))
    (requested granted : List ℤ) (q : List SequenceRequest) : Prop where
  grants : granted = served.map SequenceItem.sequenceId ++ turn.underWay
  requests : requested.Perm (granted ++ waitingIds q)
  inOrder : mode.InOrder → requested = granted ++ waitingIds q

lemma waitingIds_concat (q : List SequenceRequest) (e : SequenceRequest) :
    waitingIds (q ++ [e]) = waitingIds q ++ [seqId e.sequencePtr] := List.map_append

/-- A mode that grants in order selects the first entry. -/
lemma index_eq_zero_of_inOrder {getPriority : ℕ → ℤ} {draw k : ℕ} {q : List SequenceRequest}
    (hmode : mode.InOrder)
    (hchoice : chooseNextRequest mode (fun _ => true) getPriority draw q = .ok (some k)) :
    k = 0 := by
  have hhead (h : (.ok (availSequences (fun _ => true) q).head? : Except UvmReport (Option ℕ))
      = .ok (some k)) : k = 0 := by
    rw [availSequences_true, List.head?_range] at h
    split_ifs at h
    · cases h
    · exact (Option.some.inj (Except.ok.inj h)).symm
  cases mode with
  | fifo => exact hhead (chooseNextRequest_fifo.symm.trans hchoice)
  | user => exact hhead (chooseNextRequest_user.symm.trans hchoice)
  | weighted => exact hmode.elim
  | random => exact hmode.elim
  | strictFifo => exact hmode.elim
  | strictRandom => exact hmode.elim

namespace History

variable {turn : Turn} {served : List (SequenceItem D A)} {requested granted : List ℤ}
  {q : List SequenceRequest}

/-- The sequence `i` asks for a grant. -/
lemma request (h : History mode turn served requested granted q) (i requestId : ℕ) (p : ℤ) :
    History mode turn served (requested ++ [seqId i]) granted (q ++ [⟨i, requestId, p⟩]) := by
  refine ⟨h.grants, ?_, fun hmode => ?_⟩
  · rw [waitingIds_concat, ← List.append_assoc]
    exact h.requests.append_right _
  · rw [waitingIds_concat, ← List.append_assoc]
    exact congrArg (· ++ [seqId i]) (h.inOrder hmode)

/-- The sequence that has been granted its request sends the item. -/
lemma send {i requestId : ℕ} (h : History mode (.granted i requestId) served requested granted q) :
    History mode (.sent i) served requested granted q :=
  ⟨h.grants, h.requests, h.inOrder⟩

/-- The sequencer grants the request with the index `k`. -/
lemma issueGrant {k : ℕ} {e : SequenceRequest} (h : History mode .free served requested granted q)
    (hk : q[k]? = some e) (hzero : mode.InOrder → k = 0) :
    History mode (.granted e.sequencePtr e.requestId) served requested
      (granted ++ [seqId (requestAt q k).sequencePtr]) (q.eraseIdx k) := by
  have hat : requestAt q k = e := by
    rw [requestAt, List.getD_eq_getElem?_getD, hk]
    rfl
  obtain ⟨hlt, hget⟩ := List.getElem?_eq_some_iff.mp hk
  rw [hat]
  refine ⟨?_, ?_, fun hmode => ?_⟩
  · have hgranted : granted = served.map SequenceItem.sequenceId := by
      simpa [Turn.underWay] using h.grants
    exact congrArg (· ++ [seqId e.sequencePtr]) hgranted
  · rw [List.append_assoc]
    refine h.requests.trans (List.Perm.append_left _ ?_)
    have hperm := (List.getElem_cons_eraseIdx_perm hlt).symm
    rw [hget] at hperm
    exact hperm.map _
  · rw [List.append_assoc]
    refine (h.inOrder hmode).trans (congrArg (granted ++ ·) ?_)
    obtain rfl := hzero hmode
    cases q with
    | nil => cases hk
    | cons e' rest =>
        obtain rfl := Option.some.inj hk
        rfl

/-- The item of the sequence `i` has been served. -/
lemma itemDone {i : ℕ} (h : History mode (.sent i) served requested granted q)
    {it : SequenceItem D A} (hid : it.sequenceId = seqId i) :
    History mode .free (served ++ [it]) requested granted q := by
  refine ⟨?_, h.requests, h.inOrder⟩
  rw [List.map_append, List.map_singleton, hid, h.grants]
  exact (List.append_nil _).symm

end History

/-! ## The items the driver has -/

/-- `send_to_if` leaves the items that have been served alone. -/
lemma Sending.served_step {sched : ℕ → EdgeOrder} {t : Taken D A P}
    {f : VipState D A → VipState D A} {p : Proc (VipState D A)} {tb : Testbench D A P}
    (h : Sending sched t (.step f p) tb) : (f tb.vip).served = tb.vip.served := by
  generalize hq : Proc.step f p = q at h
  cases h with
  | copied h => cases hq
  | @transfer p' _ hp =>
      cases p' with
      | halt =>
          obtain ⟨rfl, -⟩ := Proc.step.inj hq
          rfl
      | wait p' => cases hq
      | step g p' =>
          obtain ⟨rfl, -⟩ := Proc.step.inj hq
          rcases hp.1 with ⟨c, rfl⟩ | rfl
          · rfl
          · rfl

end SinglePortRam
