import SinglePortRam.Env.SerialOrder
import SinglePortRam.Uvm.Handshake

/-!
# Whose turn it is

At any time at most one request is on its way from the grant to `item_done`.  `Turn` says whose, and
how far it is; the variables of the sequencer, the place of the driver and the waits of all
sequences follow from it.

* `Turn`, `TurnVars`, `SeqTurn`, `TurnInv` — the invariant.
* `TurnInv.request`, `TurnInv.issueGrant`, `TurnInv.send`, `TurnInv.itemDone` — a request
  on its way.
* `TurnInv.outside`, `TurnInv.waitAgain`, `TurnInv.move` — the steps that do not pass the turn on.
-/

namespace SinglePortRam

open FourState Clocked Proc VipState

variable {D A : ℕ} {P : RamParams}

/-! ## The invariant -/

/-- Whose turn it is. -/
inductive Turn where
  /-- No request is granted, or the last one is done. -/
  | free
  /-- The request of the sequence `i` is granted, and not sent yet. -/
  | granted (i requestId : ℕ)
  /-- The item of the sequence `i` is in the FIFO. -/
  | sent (i : ℕ)

namespace UvmDriver

/-- The driver has no item. -/
def Between : UvmDriver D A → Prop
  | .getNextItem => True
  | .waitForSequences => True
  | .waitForAvailableSequence => True
  | .peek => False
  | .busy (.setIdInfo _) => True
  | .busy (.putResponse _) => True
  | .busy _ => False

/-- The driver gets the item of the sequence `i` next, or has it. -/
def Serves (i : ℕ) : UvmDriver D A → Prop
  | .peek => True
  | .busy d => d.Serves i
  | _ => False

end UvmDriver

/-- What the variables of the sequencer are in this turn, and where the driver is. -/
def TurnVars (turn : Turn) (v : SequencerVars) (d : UvmDriver D A) : Prop :=
  match turn with
  | .free => v.reqFifo = [] ∧ v.arbCompleted = (fun _ => false) ∧
      v.sequenceItemRequested = false ∧ v.getNextItemCalled = false ∧ d.Between
  | .granted _ requestId => v.reqFifo = [] ∧
      v.arbCompleted = Function.update (fun _ => false) requestId true ∧
      v.sequenceItemRequested = true ∧ v.getNextItemCalled = true ∧ d = .peek
  | .sent i => v.reqFifo = [i] ∧ v.arbCompleted = (fun _ => false) ∧
      v.sequenceItemRequested = true ∧ v.getNextItemCalled = true ∧
      v.waitForItemSequenceId = -1 ∧ d.Serves i

/-- What the sequence `i` waits for in this turn. -/
def SeqTurn (turn : Turn) (v : SequencerVars) (d : UvmDriver D A) (i : ℕ)
    (st : UvmSequence D A) : Prop :=
  match st.phase with
  | .waitForGrant requestId lockArbSize => (∀ x, lockArbSize = some x → x ≤ v.lockArbSize) ∧
      ((turn = .granted i requestId ∧ lockArbSize ≠ some v.lockArbSize) ∨
        ⟨i, requestId, st.priority⟩ ∈ v.arbSequenceQ)
  | .waitForItemDone => (turn = .sent i ∧ st.req.sequenceId = seqId i) ∨
      (turn = .free ∧ v.waitForItemSequenceId = seqId i ∧ d ≠ .waitForAvailableSequence)
  | _ => True

/-- The sequence `i` waits for the grant of this request. -/
def WaitsForGrant (seqs : List (UvmSequence D A)) (i requestId : ℕ) : Prop :=
  ∃ st lockArbSize, seqs[i]? = some st ∧ st.phase = .waitForGrant requestId lockArbSize

/-- The sequence that has the turn is in the phase that goes with it. -/
def Turn.HeldBy (seqs : List (UvmSequence D A)) : Turn → Prop
  | .free => True
  | .granted i requestId => WaitsForGrant seqs i requestId
  | .sent i => ∃ st, seqs[i]? = some st ∧ st.phase = .waitForItemDone

/-- The invariant of the turns: the variables of the sequencer, the driver and the waiting sequences
agree on whose turn it is. -/
structure TurnInv (turn : Turn) (v : SequencerVars) (seqs : List (UvmSequence D A))
    (d : UvmDriver D A) : Prop where
  vars : TurnVars turn v d
  held : turn.HeldBy seqs
  waits : ∀ i st, seqs[i]? = some st → SeqTurn turn v d i st ∧ st.waitForGrantSemaphore = 0
  queue : ∀ e ∈ v.arbSequenceQ, WaitsForGrant seqs e.sequencePtr e.requestId ∧
    ∀ requestId, turn ≠ .granted e.sequencePtr requestId
  nodup : (v.arbSequenceQ.map SequenceRequest.sequencePtr).Nodup
  ids : ∀ i requestId, WaitsForGrant seqs i requestId → requestId < v.gRequestId ∧
    ∀ j, WaitsForGrant seqs j requestId → j = i
  available : d = .waitForAvailableSequence → v.arbSize ≤ v.lockArbSize ∧
    (v.arbSize = v.lockArbSize → v.arbSequenceQ = [])

/-- A sequence in one of these phases has no request under way. -/
def UvmSequencePhase.Outside : UvmSequencePhase → Prop
  | .body => True
  | .getResponse => True
  | .ended => True
  | .exited => True
  | _ => False

/-- A sequence that asks for nothing has no part in the turn. -/
lemma seqTurn_of_outside {turn : Turn} {v : SequencerVars} {d : UvmDriver D A} {i : ℕ}
    {st : UvmSequence D A} (h : st.phase.Outside) : SeqTurn turn v d i st := by
  rw [SeqTurn]
  cases hp : st.phase with
  | waitForGrant requestId lockArbSize => simp [hp, UvmSequencePhase.Outside] at h
  | waitForItemDone => simp [hp, UvmSequencePhase.Outside] at h
  | body => trivial
  | getResponse => trivial
  | ended => trivial
  | exited => trivial

/-! ## What a step of one sequence does not concern -/

/-- Another sequence waits as before. -/
lemma waitsForGrant_set_of_ne {seqs : List (UvmSequence D A)} {i j requestId : ℕ}
    {st : UvmSequence D A} (hij : j ≠ i) :
    WaitsForGrant (seqs.set i st) j requestId ↔ WaitsForGrant seqs j requestId := by
  simp only [WaitsForGrant, List.getElem?_set_ne (Ne.symm hij)]

lemma waitsForGrant_set_self {seqs : List (UvmSequence D A)} {i requestId : ℕ}
    {st st' : UvmSequence D A} (hi : seqs[i]? = some st) :
    WaitsForGrant (seqs.set i st') i requestId
      ↔ ∃ lockArbSize, st'.phase = .waitForGrant requestId lockArbSize := by
  have hset : (seqs.set i st')[i]? = some st' :=
    List.getElem?_set_self (List.getElem?_eq_some_iff.mp hi).1
  constructor
  · rintro ⟨st'', n, hst, hp⟩
    obtain rfl := Option.some.inj (hset.symm.trans hst)
    exact ⟨n, hp⟩
  · rintro ⟨n, hp⟩
    exact ⟨st', n, hset, hp⟩

/-- A sequence elsewhere in its body does not wait for a grant. -/
lemma not_waitsForGrant {seqs : List (UvmSequence D A)} {i requestId : ℕ} {st : UvmSequence D A}
    (hi : seqs[i]? = some st) (hp : ∀ n, st.phase ≠ .waitForGrant requestId n) :
    ¬ WaitsForGrant seqs i requestId := by
  rintro ⟨st', n, hi', hp'⟩
  obtain rfl := Option.some.inj (hi.symm.trans hi')
  exact hp n hp'

/-- A request wakes whoever looks for one. -/
lemma SeqTurn.waitForGrant {turn : Turn} {v : SequencerVars} {d : UvmDriver D A} {i j : ℕ}
    {st : UvmSequence D A} {p : ℤ} (h : SeqTurn turn v d i st) :
    SeqTurn turn (v.waitForGrant j p) d i st := by
  rw [SeqTurn] at h ⊢
  cases hp : st.phase with
  | waitForGrant requestId n =>
      simp only [hp] at h ⊢
      obtain ⟨hle, h⟩ := h
      have hlt (x : ℤ) (hx : n = some x) : x < v.lockArbSize + 1 := by
        have := hle x hx
        omega
      refine ⟨fun x hx => (hlt x hx).le, h.imp (fun h => ⟨h.1, fun hn => ?_⟩) fun h => ?_⟩
      · exact lt_irrefl _ (hlt _ hn)
      · exact List.mem_append_left _ h
  | waitForItemDone =>
      simp only [hp] at h ⊢
      exact h
  | body => trivial
  | getResponse => trivial
  | ended => trivial
  | exited => trivial

namespace TurnInv

variable {turn : Turn} {v : SequencerVars} {seqs : List (UvmSequence D A)} {d : UvmDriver D A}

/-- Before any sequence is started, it is nobody's turn. -/
lemma initial : TurnInv .free {} ([] : List (UvmSequence D A)) .getNextItem where
  vars := ⟨rfl, rfl, rfl, rfl, trivial⟩
  held := trivial
  waits i st hi := by simp at hi
  queue e he := by simp at he
  nodup := List.nodup_nil
  ids := by
    rintro i requestId ⟨st, n, hi, -⟩
    simp at hi
  available hd := by cases hd

/-- A change of the sequences that leaves the requests as they are. -/
lemma of_iff (h : TurnInv turn v seqs d) {seqs' : List (UvmSequence D A)}
    (hiff : ∀ j requestId, WaitsForGrant seqs' j requestId ↔ WaitsForGrant seqs j requestId)
    (hsent : ∀ j, turn = .sent j → ∃ st, seqs'[j]? = some st ∧ st.phase = .waitForItemDone)
    (hwaits : ∀ j st, seqs'[j]? = some st →
      SeqTurn turn v d j st ∧ st.waitForGrantSemaphore = 0) : TurnInv turn v seqs' d := by
  refine ⟨h.vars, ?_, hwaits, ?_, h.nodup, ?_, h.available⟩
  · cases turn with
    | free => trivial
    | granted j requestId => exact (hiff j requestId).mpr h.held
    | sent j => exact hsent j rfl
  · exact fun e he => ⟨(hiff _ _).mpr (h.queue e he).1, (h.queue e he).2⟩
  · intro j requestId hj
    obtain ⟨hlt, huniq⟩ := h.ids j requestId ((hiff j requestId).mp hj)
    exact ⟨hlt, fun k hk => huniq k ((hiff k requestId).mp hk)⟩

/-- A sequence that has sent its item waits for it to be done. -/
lemma sent_of_turn (h : TurnInv turn v seqs d) {j : ℕ} (hturn : turn = .sent j) :
    ∃ st, seqs[j]? = some st ∧ st.phase = .waitForItemDone := by
  subst hturn
  exact h.held

/-- A step that begins and ends without a request. -/
lemma outside (h : TurnInv turn v seqs d) {i : ℕ} {st st' : UvmSequence D A}
    (hi : seqs[i]? = some st) (hp : st.phase.Outside ∨ (st.phase = .waitForItemDone ∧ turn = .free))
    (hp' : st'.phase.Outside) (hsem : st'.waitForGrantSemaphore = st.waitForGrantSemaphore) :
    TurnInv turn v (seqs.set i st') d := by
  refine h.of_iff ?_ ?_ ?_
  · intro j requestId
    rcases eq_or_ne j i with rfl | hij
    · refine iff_of_false ?_ (not_waitsForGrant hi fun n hn => ?_)
      · rw [waitsForGrant_set_self hi]
        rintro ⟨n, hn⟩
        simp [hn, UvmSequencePhase.Outside] at hp'
      · rcases hp with hp | ⟨hp, -⟩
        · simp [hn, UvmSequencePhase.Outside] at hp
        · cases hn.symm.trans hp
    · exact waitsForGrant_set_of_ne hij
  · intro j hturn
    obtain ⟨stj, hj, hpj⟩ := h.sent_of_turn hturn
    have hij : i ≠ j := by
      rintro rfl
      obtain rfl := Option.some.inj (hi.symm.trans hj)
      rcases hp with hp | ⟨-, hp⟩
      · simp [hpj, UvmSequencePhase.Outside] at hp
      · cases hp.symm.trans hturn
    exact ⟨stj, (List.getElem?_set_ne hij).trans hj, hpj⟩
  · intro j stj hj
    rcases getElem?_set_cases hj with ⟨rfl, rfl⟩ | ⟨-, hj⟩
    · exact ⟨seqTurn_of_outside hp', hsem.trans (h.waits j st hi).2⟩
    · exact h.waits j stj hj

/-- A sequence that is started asks for nothing yet. -/
lemma start (h : TurnInv turn v seqs d) (kind : SequenceKind) (req : SequenceItem D A)
    (priority : ℤ) : TurnInv turn v (seqs ++ [⟨kind, .body, req, priority, 0⟩]) d := by
  have hkept {i : ℕ} {st : UvmSequence D A} (hi : seqs[i]? = some st) :
      (seqs ++ [⟨kind, .body, req, priority, 0⟩])[i]? = some st :=
    (List.getElem?_append_left (List.getElem?_eq_some_iff.mp hi).1).trans hi
  refine h.of_iff ?_ ?_ ?_
  · intro j requestId
    constructor
    · rintro ⟨st, n, hj, hp⟩
      rcases getElem?_concat_cases hj with hj | ⟨-, rfl⟩
      · exact ⟨st, n, hj, hp⟩
      · cases hp
    · rintro ⟨st, n, hj, hp⟩
      exact ⟨st, n, hkept hj, hp⟩
  · intro j hturn
    obtain ⟨st, hj, hp⟩ := h.sent_of_turn hturn
    exact ⟨st, hkept hj, hp⟩
  · intro j st hj
    rcases getElem?_concat_cases hj with hj | ⟨-, rfl⟩
    · exact h.waits j st hj
    · exact ⟨trivial, rfl⟩

/-! ## A request and its grant -/

/-- A request is put into the queue. -/
lemma request (h : TurnInv turn v seqs d) {i : ℕ} {st : UvmSequence D A} (hi : seqs[i]? = some st)
    (hp : st.phase.Outside) (it : SequenceItem D A) :
    TurnInv turn (v.waitForGrant i st.priority)
      (seqs.set i { st with phase := .waitForGrant v.gRequestId none, req := it }) d := by
  set st' : UvmSequence D A := { st with phase := .waitForGrant v.gRequestId none, req := it }
  have hlen : i < seqs.length := (List.getElem?_eq_some_iff.mp hi).1
  have hnot (requestId : ℕ) : ¬ WaitsForGrant seqs i requestId :=
    not_waitsForGrant hi fun n hn => by simp [hn, UvmSequencePhase.Outside] at hp
  have hself (requestId : ℕ) :
      WaitsForGrant (seqs.set i st') i requestId ↔ requestId = v.gRequestId := by
    rw [waitsForGrant_set_self hi]
    exact ⟨fun ⟨n, hn⟩ => (UvmSequencePhase.waitForGrant.inj hn).1.symm, fun h => ⟨none, h ▸ rfl⟩⟩
  have hother {j requestId : ℕ} (hj : WaitsForGrant seqs j requestId) :
      WaitsForGrant (seqs.set i st') j requestId := by
    have hij : j ≠ i := fun hij => hnot requestId (hij ▸ hj)
    exact (waitsForGrant_set_of_ne hij).mpr hj
  have hturn (requestId : ℕ) : turn ≠ .granted i requestId := by
    rintro rfl
    exact hnot requestId h.held
  refine ⟨?_, ?_, ?_, ?_, ?_, ?_, ?_⟩
  · exact h.vars
  · cases turn with
    | free => trivial
    | granted j requestId => exact hother h.held
    | sent j =>
        obtain ⟨stj, hj, hpj⟩ := h.held
        have hij : i ≠ j := by
          rintro rfl
          obtain rfl := Option.some.inj (hi.symm.trans hj)
          simp [hpj, UvmSequencePhase.Outside] at hp
        exact ⟨stj, (List.getElem?_set_ne hij).trans hj, hpj⟩
  · intro j stj hj
    rcases getElem?_set_cases hj with ⟨rfl, rfl⟩ | ⟨-, hj⟩
    · refine ⟨⟨fun x hx => (by cases hx), Or.inr ?_⟩, (h.waits j st hi).2⟩
      exact List.mem_append_right _ (List.mem_singleton_self _)
    · exact ⟨(h.waits j stj hj).1.waitForGrant, (h.waits j stj hj).2⟩
  · intro e he
    rcases List.mem_append.mp he with he | he
    · exact ⟨hother (h.queue e he).1, (h.queue e he).2⟩
    · obtain rfl := List.mem_singleton.mp he
      exact ⟨(hself _).mpr rfl, hturn⟩
  · show ((v.arbSequenceQ ++ [_]).map SequenceRequest.sequencePtr).Nodup
    rw [List.map_append, List.nodup_append]
    refine ⟨h.nodup, List.nodup_singleton _, ?_⟩
    intro j hj k hk
    obtain ⟨e, he, rfl⟩ := List.mem_map.mp hj
    obtain rfl := List.mem_singleton.mp hk
    rintro heq
    exact hnot e.requestId (heq ▸ (h.queue e he).1)
  · intro j requestId hj
    show requestId < v.gRequestId + 1 ∧ _
    rcases eq_or_ne j i with rfl | hij
    · obtain rfl := (hself requestId).mp hj
      refine ⟨Nat.lt_succ_self _, fun k hk => ?_⟩
      by_contra hki
      exact lt_irrefl _ (h.ids k _ ((waitsForGrant_set_of_ne hki).mp hk)).1
    · have hj := (waitsForGrant_set_of_ne hij).mp hj
      obtain ⟨hlt, huniq⟩ := h.ids j requestId hj
      refine ⟨Nat.lt_succ_of_lt hlt, fun k hk => ?_⟩
      rcases eq_or_ne k i with rfl | hki
      · exact absurd hlt ((hself requestId).mp hk ▸ lt_irrefl _)
      · exact huniq k ((waitsForGrant_set_of_ne hki).mp hk)
  · intro hd
    obtain ⟨hle, -⟩ := h.available hd
    refine ⟨hle.trans (Int.le_add_one (le_refl _)), fun heq => ?_⟩
    have : v.arbSize = v.lockArbSize + 1 := heq
    omega

/-- A sequence whose request has not been granted waits on. -/
lemma waitAgain (h : TurnInv turn v seqs d) {i requestId : ℕ} {n : Option ℤ}
    {st : UvmSequence D A} (hi : seqs[i]? = some st) (hp : st.phase = .waitForGrant requestId n)
    (hcompleted : v.arbCompleted requestId = false) :
    TurnInv turn v
      (seqs.set i { st with phase := .waitForGrant requestId (some v.lockArbSize) }) d := by
  have hturn : turn ≠ .granted i requestId := by
    rintro rfl
    rw [h.vars.2.1, Function.update_self] at hcompleted
    cases hcompleted
  refine h.of_iff ?_ ?_ ?_
  · intro j requestId'
    rcases eq_or_ne j i with rfl | hij
    · rw [waitsForGrant_set_self hi]
      constructor
      · rintro ⟨n', hn'⟩
        obtain ⟨rfl, -⟩ := UvmSequencePhase.waitForGrant.inj hn'
        exact ⟨st, n, hi, hp⟩
      · rintro ⟨st', n', hi', hp'⟩
        obtain rfl := Option.some.inj (hi.symm.trans hi')
        obtain ⟨rfl, -⟩ := UvmSequencePhase.waitForGrant.inj (hp.symm.trans hp')
        exact ⟨_, rfl⟩
    · exact waitsForGrant_set_of_ne hij
  · intro j hj
    obtain ⟨stj, hstj, hpj⟩ := h.sent_of_turn hj
    have hij : i ≠ j := by
      rintro rfl
      obtain rfl := Option.some.inj (hi.symm.trans hstj)
      cases hp.symm.trans hpj
    exact ⟨stj, (List.getElem?_set_ne hij).trans hstj, hpj⟩
  · intro j stj hj
    rcases getElem?_set_cases hj with ⟨rfl, rfl⟩ | ⟨-, hj⟩
    · obtain ⟨hwaits, hsem⟩ := h.waits j st hi
      simp only [SeqTurn, hp] at hwaits
      refine ⟨⟨fun x hx => (Option.some.inj hx).ge, Or.inr ?_⟩, hsem⟩
      exact hwaits.2.resolve_left fun hgranted => hturn hgranted.1
    · exact h.waits j stj hj

/-- A sequence finds its own grant and sends its item. -/
lemma send {i requestId : ℕ} {st : UvmSequence D A} (hi : seqs[i]? = some st)
    (h : TurnInv (.granted i requestId) v seqs d) :
    TurnInv (.sent i)
      { v with
        arbCompleted := Function.update v.arbCompleted requestId false
        reqFifo := v.reqFifo ++ [i]
        waitForItemSequenceId := -1 }
      (seqs.set i { st with phase := .waitForItemDone, req := st.req.sentBy (seqId i) }) d := by
  obtain ⟨hfifo, hcompleted, hrequested, hcalled, rfl⟩ := h.vars
  have hset : (seqs.set i { st with phase := .waitForItemDone, req := st.req.sentBy (seqId i) })[i]?
      = some { st with phase := .waitForItemDone, req := st.req.sentBy (seqId i) } :=
    List.getElem?_set_self (List.getElem?_eq_some_iff.mp hi).1
  have hiff {j requestId' : ℕ} :
      WaitsForGrant
        (seqs.set i { st with phase := .waitForItemDone, req := st.req.sentBy (seqId i) })
        j requestId' ↔ j ≠ i ∧ WaitsForGrant seqs j requestId' := by
    rcases eq_or_ne j i with rfl | hij
    · rw [waitsForGrant_set_self hi]
      exact iff_of_false (by simp) fun hj => hj.1 rfl
    · rw [waitsForGrant_set_of_ne hij]
      exact (and_iff_right hij).symm
  refine ⟨⟨?_, ?_, hrequested, hcalled, rfl, trivial⟩, ⟨_, hset, rfl⟩, ?_, ?_, h.nodup, ?_, ?_⟩
  · show v.reqFifo ++ [i] = [i]
    rw [hfifo, List.nil_append]
  · show Function.update v.arbCompleted requestId false = fun _ => false
    rw [hcompleted, Function.update_idem, Function.update_eq_self_iff]
  · intro j stj hj
    rcases getElem?_set_cases hj with ⟨rfl, rfl⟩ | ⟨hij, hj⟩
    · exact ⟨Or.inl ⟨rfl, rfl⟩, (h.waits j st hi).2⟩
    · obtain ⟨hwaits, hsem⟩ := h.waits j stj hj
      refine ⟨?_, hsem⟩
      rw [SeqTurn] at hwaits ⊢
      cases hpj : stj.phase with
      | waitForGrant requestId' n' =>
          simp only [hpj] at hwaits ⊢
          refine ⟨hwaits.1, Or.inr (hwaits.2.resolve_left ?_)⟩
          rintro ⟨hturn, -⟩
          exact hij (Turn.granted.inj hturn).1.symm
      | waitForItemDone =>
          simp only [hpj] at hwaits
          rcases hwaits with ⟨hturn, -⟩ | ⟨hturn, -⟩
          · cases hturn
          · cases hturn
      | body => trivial
      | getResponse => trivial
      | ended => trivial
      | exited => trivial
  · intro e he
    obtain ⟨hwaits, hturn⟩ := h.queue e he
    have hne : e.sequencePtr ≠ i := fun heq => hturn requestId (by rw [heq])
    exact ⟨hiff.mpr ⟨hne, hwaits⟩, fun _ hturn => by cases hturn⟩
  · intro j requestId' hj
    obtain ⟨hlt, huniq⟩ := h.ids j requestId' (hiff.mp hj).2
    exact ⟨hlt, fun k hk => huniq k (hiff.mp hk).2⟩
  · intro hd
    cases hd

/-- A grant that a sequence finds is its own. -/
lemma turn_of_completed (h : TurnInv turn v seqs d) {i requestId : ℕ}
    (hi : WaitsForGrant seqs i requestId) (hcompleted : v.arbCompleted requestId = true) :
    turn = .granted i requestId := by
  cases turn with
  | free =>
      rw [h.vars.2.1] at hcompleted
      cases hcompleted
  | granted j requestId' =>
      rw [h.vars.2.1, Function.update_apply] at hcompleted
      split_ifs at hcompleted with heq
      obtain rfl := heq
      rw [(h.ids i requestId hi).2 j h.held]
  | sent j =>
      rw [h.vars.2.1] at hcompleted
      cases hcompleted

/-- The sequencer grants the request with the index `k`.  When it does, no sequence waits for its
last item to be done: it would have to be executed first. -/
lemma issueGrant {k : ℕ} {e : SequenceRequest} (h : TurnInv .free v seqs d)
    (hk : v.arbSequenceQ[k]? = some e)
    (hidle : ∀ (i : ℕ) (st : UvmSequence D A), seqs[i]? = some st → st.phase ≠ .waitForItemDone) :
    TurnInv (.granted e.sequencePtr e.requestId) (v.issueGrant k).itemRequested seqs .peek := by
  obtain ⟨hfifo, hcompleted, -, -, -⟩ := h.vars
  have hat : requestAt v.arbSequenceQ k = e := by
    rw [requestAt, List.getD_eq_getElem?_getD, hk]
    rfl
  have hmem : e ∈ v.arbSequenceQ := List.mem_of_getElem? hk
  have hdistinct {j : ℕ} {e' : SequenceRequest} (hj : v.arbSequenceQ[j]? = some e') (hjk : j ≠ k) :
      e'.sequencePtr ≠ e.sequencePtr := by
    intro heq
    have hlt : j < (v.arbSequenceQ.map SequenceRequest.sequencePtr).length := by
      simpa using (List.getElem?_eq_some_iff.mp hj).1
    refine hjk ((List.getElem?_inj hlt h.nodup).mp ?_)
    rw [List.getElem?_map, List.getElem?_map, hj, hk]
    exact congrArg some heq
  refine ⟨⟨hfifo, ?_, rfl, rfl, rfl⟩, (h.queue e hmem).1, ?_, ?_, ?_, h.ids, fun hd => by cases hd⟩
  · show Function.update v.arbCompleted (requestAt v.arbSequenceQ k).requestId true = _
    rw [hcompleted, hat]
  · intro i st hi
    obtain ⟨hwaits, hsem⟩ := h.waits i st hi
    refine ⟨?_, hsem⟩
    rw [SeqTurn] at hwaits ⊢
    cases hp : st.phase with
    | waitForGrant requestId n =>
        simp only [hp] at hwaits ⊢
        obtain ⟨hle, hwaits⟩ := hwaits
        have hlt (x : ℤ) (hx : n = some x) : x < v.lockArbSize + 1 := by
          have := hle x hx
          omega
        refine ⟨fun x hx => (hlt x hx).le, ?_⟩
        have hqueued := hwaits.resolve_left fun hturn => by cases hturn.1
        obtain ⟨j, hj⟩ := List.mem_iff_getElem?.mp hqueued
        by_cases hjk : j = k
        · subst hjk
          obtain rfl := Option.some.inj (hk.symm.trans hj)
          exact Or.inl ⟨rfl, fun hn => lt_irrefl _ (hlt _ hn)⟩
        · exact Or.inr (List.mem_eraseIdx_iff_getElem?.mpr ⟨j, hjk, hj⟩)
    | waitForItemDone => exact absurd hp (hidle i st hi)
    | body => trivial
    | getResponse => trivial
    | ended => trivial
    | exited => trivial
  · intro e' he'
    obtain ⟨j, hjk, hj⟩ := List.mem_eraseIdx_iff_getElem?.mp he'
    refine ⟨(h.queue e' (List.mem_of_getElem? hj)).1, fun requestId hturn => ?_⟩
    exact hdistinct hj hjk (Turn.granted.inj hturn).1.symm
  · exact h.nodup.sublist ((List.eraseIdx_sublist _ _).map _)

/-- The sequencer finds no request, and waits for one. -/
lemma noChoice (h : TurnInv .free v seqs d) (hnil : v.arbSequenceQ = [])
    (hidle : ∀ (i : ℕ) (st : UvmSequence D A), seqs[i]? = some st → st.phase ≠ .waitForItemDone) :
    TurnInv .free { v with arbSize := v.lockArbSize } seqs .waitForAvailableSequence := by
  obtain ⟨hfifo, hcompleted, hrequested, hcalled, -⟩ := h.vars
  refine ⟨⟨hfifo, hcompleted, hrequested, hcalled, trivial⟩, trivial, ?_, h.queue, h.nodup, h.ids,
    fun _ => ⟨le_refl _, fun _ => hnil⟩⟩
  intro i st hi
  obtain ⟨hwaits, hsem⟩ := h.waits i st hi
  refine ⟨?_, hsem⟩
  rw [SeqTurn] at hwaits ⊢
  cases hp : st.phase with
  | waitForGrant requestId n =>
      simp only [hp] at hwaits ⊢
      exact hwaits
  | waitForItemDone => exact absurd hp (hidle i st hi)
  | body => trivial
  | getResponse => trivial
  | ended => trivial
  | exited => trivial

/-! ## The driver -/

/-- The driver moves on, with an item or without. -/
lemma move (h : TurnInv turn v seqs d) {d' : UvmDriver D A} (hd' : d' ≠ .waitForAvailableSequence)
    (hvars : TurnVars turn v d') : TurnInv turn v seqs d' := by
  refine ⟨hvars, h.held, ?_, h.queue, h.nodup, h.ids, fun hd => absurd hd hd'⟩
  intro i st hi
  obtain ⟨hwaits, hsem⟩ := h.waits i st hi
  refine ⟨?_, hsem⟩
  rw [SeqTurn] at hwaits ⊢
  cases hp : st.phase with
  | waitForGrant requestId n =>
      simp only [hp] at hwaits ⊢
      exact hwaits
  | waitForItemDone =>
      simp only [hp] at hwaits ⊢
      exact hwaits.imp id fun hfree => ⟨hfree.1, hfree.2.1, hd'⟩
  | body => trivial
  | getResponse => trivial
  | ended => trivial
  | exited => trivial

/-- A driver without an item. -/
lemma turn_of_between (h : TurnInv turn v seqs d) (hd : d.Between) : turn = .free := by
  cases turn with
  | free => rfl
  | granted i requestId =>
      rw [h.vars.2.2.2.2] at hd
      exact hd.elim
  | sent i =>
      have hserves := h.vars.2.2.2.2.2
      cases d with
      | busy d => cases d <;> simp_all [UvmDriver.Between, UvmDriver.Serves, DriverPhase.Serves]
      | getNextItem => exact hserves.elim
      | waitForSequences => exact hserves.elim
      | waitForAvailableSequence => exact hserves.elim
      | peek => exact hd.elim

/-- A driver with an item has that of the sequence whose turn it is. -/
lemma turn_of_serves {i : ℕ} {d : DriverPhase D A} (h : TurnInv turn v seqs (.busy d))
    (hd : d.Serves i) : turn = .sent i := by
  cases turn with
  | free =>
      have hbetween := h.vars.2.2.2.2
      cases d <;> simp_all [UvmDriver.Between, DriverPhase.Serves]
  | granted j requestId => cases h.vars.2.2.2.2
  | sent j =>
      have hserves : d.Serves j := h.vars.2.2.2.2.2
      cases d <;> simp_all [DriverPhase.Serves]

/-- The only item in the FIFO is that of the sequence whose turn it is. -/
lemma turn_of_fifo {i : ℕ} {rest : List ℕ} (h : TurnInv turn v seqs d)
    (hfifo : v.reqFifo = i :: rest) : turn = .sent i ∧ rest = [] := by
  cases turn with
  | free =>
      rw [h.vars.1] at hfifo
      cases hfifo
  | granted j requestId =>
      rw [h.vars.1] at hfifo
      cases hfifo
  | sent j =>
      rw [h.vars.1] at hfifo
      obtain ⟨rfl, hnil⟩ := List.cons.inj hfifo
      exact ⟨rfl, hnil.symm⟩

/-- While an item is under way, no other sequence waits for one to be done. -/
lemma eq_of_waitForItemDone {i j : ℕ} {st : UvmSequence D A} (h : TurnInv (.sent i) v seqs d)
    (hj : seqs[j]? = some st) (hp : st.phase = .waitForItemDone) :
    j = i ∧ st.req.sequenceId = seqId i := by
  have hwaits := (h.waits j st hj).1
  simp only [SeqTurn, hp] at hwaits
  rcases hwaits with ⟨hturn, hid⟩ | ⟨hturn, -⟩
  · obtain rfl := Turn.sent.inj hturn
    exact ⟨rfl, hid⟩
  · cases hturn

/-- `item_done` ends the turn, and wakes the sequence that has it. -/
lemma itemDone {i : ℕ} (h : TurnInv (.sent i) v seqs d) (object : SequenceItem D A) :
    TurnInv .free
      { v with
        sequenceItemRequested := false
        getNextItemCalled := false
        reqFifo := []
        waitForItemSequenceId := seqId i }
      (seqs.modify i fun st => { st with req := object }) (.busy (.setIdInfo i)) := by
  obtain ⟨-, hcompleted, -, -, -, -⟩ := h.vars
  have hmodify {j : ℕ} {st : UvmSequence D A}
      (hj : (seqs.modify i fun st => { st with req := object })[j]? = some st) :
      ∃ st', seqs[j]? = some st' ∧ st.phase = st'.phase ∧ st.priority = st'.priority ∧
        st.waitForGrantSemaphore = st'.waitForGrantSemaphore := by
    rw [List.getElem?_modify, Option.map_eq_map, Option.map_eq_some_iff] at hj
    obtain ⟨st', hj, rfl⟩ := hj
    refine ⟨st', hj, ?_, ?_, ?_⟩ <;> split_ifs <;> rfl
  have hiff {j requestId : ℕ} :
      WaitsForGrant (seqs.modify i fun st => { st with req := object }) j requestId
        ↔ WaitsForGrant seqs j requestId := by
    constructor
    · rintro ⟨st, n, hj, hp⟩
      obtain ⟨st', hj', hp', -⟩ := hmodify hj
      exact ⟨st', n, hj', hp'.symm.trans hp⟩
    · rintro ⟨st, n, hj, hp⟩
      refine ⟨_, n, by rw [List.getElem?_modify, hj]; rfl, ?_⟩
      split_ifs
      · exact hp
      · exact hp
  refine ⟨⟨rfl, hcompleted, rfl, rfl, trivial⟩, trivial, ?_, ?_, h.nodup, ?_, fun hd => by cases hd⟩
  · intro j st hj
    obtain ⟨st', hj', hp, hpriority, hsem⟩ := hmodify hj
    obtain ⟨hwaits, hsem'⟩ := h.waits j st' hj'
    refine ⟨?_, hsem.trans hsem'⟩
    rw [SeqTurn, hp, hpriority]
    rw [SeqTurn] at hwaits
    cases hp' : st'.phase with
    | waitForGrant requestId n =>
        simp only [hp'] at hwaits ⊢
        exact ⟨hwaits.1, Or.inr (hwaits.2.resolve_left fun hturn => by cases hturn.1)⟩
    | waitForItemDone =>
        simp only [hp'] at hwaits ⊢
        rcases hwaits with ⟨hturn, -⟩ | ⟨hturn, -⟩
        · obtain rfl := Turn.sent.inj hturn
          exact Or.inr ⟨trivial, rfl, fun hd => by cases hd⟩
        · cases hturn
    | body => trivial
    | getResponse => trivial
    | ended => trivial
    | exited => trivial
  · exact fun e he => ⟨hiff.mpr (h.queue e he).1, fun _ hturn => by cases hturn⟩
  · intro j requestId hj
    obtain ⟨hlt, huniq⟩ := h.ids j requestId (hiff.mp hj)
    exact ⟨hlt, fun k hk => huniq k (hiff.mp hk)⟩

end TurnInv

end SinglePortRam
