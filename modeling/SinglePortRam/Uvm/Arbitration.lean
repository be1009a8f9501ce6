import SinglePortRam.Core.Selection
import SinglePortRam.Vip.Sequences

/-!
# The arbitration of the sequencer

`uvm_sequencer_base.svh`: `m_choose_next_request` selects, from the queue of the requests, the one
that is granted next.  The mode is the one given to `set_arbitration`, and `$urandom_range` is an
argument.  No sequence of the program locks or grabs the sequencer, so `lock_list` is empty, and no
lock is ever granted from the queue.

* `UvmReport` — the reports of the sequencer, with their texts.
* `chooseNextRequest` — the selection.
* **`chooseNextRequest_spec`** — the selected request is one of those that may be granted, there is
  one whenever there is such a request, and only an illegal priority is reported.
* **`chooseNextRequest_fair`**, **`chooseNextRequest_strict`** — which request it is.
-/

namespace SinglePortRam

open Selection

/-! ## Reports -/

/-- The severities of these reports. -/
inductive UvmSeverity where
  | error
  | fatal
  deriving DecidableEq

/-- The reports that the calls between the sequences, the sequencer and the driver may issue.  A
sequence is referred to by its index. -/
inductive UvmReport where
  | startPriority (sequencePtr : ℕ) (priority : ℤ)
  | itemPriority (sequencePtr : ℕ) (priority : ℤ)
  | defaultPriority (sequencePtr : ℕ) (priority : ℤ)
  | weightedArbitration
  | userArbitration (selected : ℕ)
  | getNextItemTwice
  | itemDoneWithoutRequest
  | sendWithoutGrant
  | concurrentGetNextItem
  | nullSequenceId
  | responseOverflow
  deriving DecidableEq

namespace UvmReport

/-- Every one of them ends the simulation, except two. -/
def severity : UvmReport → UvmSeverity
  | getNextItemTwice => .error
  | responseOverflow => .error
  | _ => .fatal

end UvmReport

/-! ## The selection -/

/-- The modes of `set_arbitration`. -/
inductive UvmSequencerArbMode where
  | fifo
  | weighted
  | random
  | strictFifo
  | strictRandom
  | user
  deriving DecidableEq

/-- `uvm_sequence_request`, of the type `SEQ_TYPE_REQ`. -/
structure SequenceRequest where
  sequencePtr : ℕ
  requestId : ℕ
  itemPriority : ℤ
  deriving DecidableEq

/-- `convert2string` of the sequencer, whose `lock_list` is empty; it counts the sequences from
one. -/
def convert2string (q : List SequenceRequest) : String :=
  q.zipIdx.foldl
    (fun s e => s ++ " " ++ toString e.2 ++ "/" ++ toString (e.1.sequencePtr + 1)
      ++ "/SEQ_TYPE_REQ ")
    "  -- arb i/id/type: " ++ "\n -- lock_list i/id: "

/-- The report as it is printed, for the names of the sequencer and of the sequences and for the
queue of the requests. -/
def UvmReport.text (sqr : String) (seq : ℕ → String) (q : List SequenceRequest) :
    UvmReport → UvmError
  | startPriority i p =>
      ⟨"SEQPRI", "Sequence " ++ seq i ++ " start has illegal priority: " ++ toString p⟩
  | itemPriority i p =>
      ⟨"SEQITEMPRI", "Sequence item from " ++ seq i ++ " has illegal priority: " ++ toString p⟩
  | defaultPriority i p =>
      ⟨"SEQDEFPRI", "Sequence " ++ seq i ++ " has illegal priority: " ++ toString p⟩
  | weightedArbitration => ⟨"Sequencer", "UVM Internal error in weighted arbitration code"⟩
  | userArbitration i =>
      ⟨"Sequencer", "Error in User arbitration, sequence " ++ toString i ++ " not available\n"
        ++ convert2string q⟩
  | getNextItemTwice =>
      ⟨sqr, "Get_next_item called twice without item_done or get in between"⟩
  | itemDoneWithoutRequest => ⟨sqr, "Item_done() called with no outstanding requests. " ++
      "Each call to item_done() must be paired with a previous call to get_next_item()."⟩
  | sendWithoutGrant => ⟨"SNDREQ", "Send request called without wait_for_grant"⟩
  | concurrentGetNextItem => ⟨sqr, "Concurrent calls to get_next_item() not supported. " ++
      "Consider using a semaphore to ensure that concurrent processes take turns in the driver"⟩
  | nullSequenceId => ⟨"SQRPUT", "Driver put a response with null sequence_id"⟩
  | responseOverflow => ⟨sqr, "Response queue overflow, response was dropped"⟩

/-- An `int` after an operation. -/
def int32 (x : ℤ) : ℤ := x.bmod (2 ^ 32)

/-- `$urandom_range(maxval, 0)` as an `int`, for a random number `draw`. -/
def urandomRange (maxval : ℤ) (draw : ℕ) : ℤ := int32 (draw % (maxval % 2 ^ 32 + 1))

/-- `m_get_seq_item_priority`; `getPriority` is that of the sequences. -/
def getSeqItemPriority (getPriority : ℕ → ℤ) (e : SequenceRequest) : Except UvmReport ℤ :=
  if e.itemPriority ≠ -1 then
    if e.itemPriority ≤ 0 then .error (.itemPriority e.sequencePtr e.itemPriority)
    else .ok e.itemPriority
  else if getPriority e.sequencePtr < 0 then
    .error (.defaultPriority e.sequencePtr (getPriority e.sequencePtr))
  else .ok (getPriority e.sequencePtr)

/-- The loop that adds up the priorities `pri` of the entries. -/
def sumPriority (pri : ℕ → Except UvmReport ℤ) : List ℕ → ℤ → Except UvmReport ℤ
  | [], sum => .ok sum
  | i :: is, sum => do
      let p ← pri i
      sumPriority pri is (int32 (sum + p))

/-- The loop that looks for the entry in whose share `temp` is. -/
def weightedLoop (pri : ℕ → Except UvmReport ℤ) (temp : ℤ) : List ℕ → ℤ → Except UvmReport ℕ
  | [], _ => .error .weightedArbitration
  | i :: is, sum => do
      let p ← pri i
      if temp < int32 (p + sum) then .ok i else weightedLoop pri temp is (int32 (sum + p))

/-- The loop that builds the list of the entries of the highest priority. -/
def highestLoop (pri : ℕ → Except UvmReport ℤ) : List ℕ → ℤ → List ℕ → Except UvmReport (List ℕ)
  | [], _, highest => .ok highest
  | i :: is, highestPri, highest => do
      let p ← pri i
      if highestPri < p then highestLoop pri is p [i]
      else if p = highestPri then highestLoop pri is highestPri (highest ++ [i])
      else highestLoop pri is highestPri highest

/-- The entries that may be granted: those of the sequences that are not blocked by a lock and
relevant. -/
def availSequences (relevant : ℕ → Bool) (q : List SequenceRequest) : List ℕ :=
  (List.range q.length).filter fun i => (q[i]?).any fun e => relevant e.sequencePtr

/-- The choice among two or more entries. -/
def chooseAvail (mode : UvmSequencerArbMode) (pri : ℕ → Except UvmReport ℤ) (draw : ℕ)
    (avail : List ℕ) : Except UvmReport ℕ :=
  match mode with
  | .fifo => .ok (avail.getD 0 0)
  | .weighted => do
      let sum ← sumPriority pri avail 0
      weightedLoop pri (urandomRange (sum - 1) draw) avail 0
  | .random => .ok (avail.getD (urandomRange (avail.length - 1) draw).toNat 0)
  | .strictFifo => do
      let highest ← highestLoop pri avail 0 []
      .ok (highest.getD 0 0)
  | .strictRandom => do
      let highest ← highestLoop pri avail 0 []
      .ok (highest.getD (urandomRange (highest.length - 1) draw).toNat 0)
  | .user =>
      -- `user_priority_arbitration` is not overridden: it selects the first one
      let i := avail.getD 0 0
      if i ∈ avail then .ok i else .error (.userArbitration i)

/-- The entry with the index `i`. -/
def requestAt (q : List SequenceRequest) (i : ℕ) : SequenceRequest := q.getD i ⟨0, 0, 0⟩

/-- `m_choose_next_request`: an index of the queue `q`, if there is an entry to choose. -/
def chooseNextRequest (mode : UvmSequencerArbMode) (relevant : ℕ → Bool) (getPriority : ℕ → ℤ)
    (draw : ℕ) (q : List SequenceRequest) : Except UvmReport (Option ℕ) :=
  let avail := availSequences relevant q
  if mode = .fifo then .ok avail.head?
  else if avail.length < 1 then .ok none
  else if avail.length = 1 then .ok avail.head?
  else do
    let i ← chooseAvail mode (fun i => getSeqItemPriority getPriority (requestAt q i)) draw avail
    .ok (some i)

/-! ## Priorities -/

/-- The modes that look at the priorities. -/
def UvmSequencerArbMode.UsesPriority : UvmSequencerArbMode → Prop
  | .weighted => True
  | .strictFifo => True
  | .strictRandom => True
  | _ => False

/-- The priority of an entry: its own, or that of its sequence. -/
def SequenceRequest.priority (getPriority : ℕ → ℤ) (e : SequenceRequest) : ℤ :=
  if e.itemPriority ≠ -1 then e.itemPriority else getPriority e.sequencePtr

/-- An entry without a priority of its own may have the priority `0`. -/
def SequenceRequest.Legal (getPriority : ℕ → ℤ) (e : SequenceRequest) : Prop :=
  if e.itemPriority ≠ -1 then 0 < e.itemPriority else 0 ≤ getPriority e.sequencePtr

instance (getPriority : ℕ → ℤ) (e : SequenceRequest) : Decidable (e.Legal getPriority) :=
  inferInstanceAs (Decidable (if e.itemPriority ≠ -1 then _ else _))

/-- A legal priority is the one that is used. -/
lemma getSeqItemPriority_of_legal {getPriority : ℕ → ℤ} {e : SequenceRequest}
    (h : e.Legal getPriority) :
    getSeqItemPriority getPriority e = .ok (e.priority getPriority) := by
  rw [SequenceRequest.Legal] at h
  rw [getSeqItemPriority, SequenceRequest.priority]
  split_ifs at h ⊢
  · omega
  · rfl
  · omega
  · rfl

/-- Every other priority is reported. -/
lemma getSeqItemPriority_of_not_legal {getPriority : ℕ → ℤ} {e : SequenceRequest}
    (h : ¬ e.Legal getPriority) : ∃ r, getSeqItemPriority getPriority e = .error r := by
  rw [SequenceRequest.Legal] at h
  rw [getSeqItemPriority]
  split_ifs at h ⊢
  · exact ⟨_, rfl⟩
  · omega
  · exact ⟨_, rfl⟩
  · omega

/-- No legal priority is negative. -/
lemma SequenceRequest.Legal.priority_nonneg {getPriority : ℕ → ℤ} {e : SequenceRequest}
    (h : e.Legal getPriority) : 0 ≤ e.priority getPriority := by
  rw [SequenceRequest.Legal] at h
  rw [SequenceRequest.priority]
  split_ifs at h ⊢ <;> omega

/-! ## The loops -/

/-- An `int` that does not overflow. -/
lemma int32_eq_self {x : ℤ} (h : -2 ^ 31 ≤ x) (h' : x < 2 ^ 31) : int32 x = x :=
  Int.bmod_eq_of_le_mul_two (by omega) (by omega)

/-- A range of at most `2 ^ 31` numbers that begins with `0`. -/
lemma urandomRange_eq {n : ℕ} (hn : 0 < n) (hn' : n ≤ 2 ^ 31) (draw : ℕ) :
    urandomRange ((n : ℤ) - 1) draw = (draw % n : ℕ) := by
  have hmax : ((n : ℤ) - 1) % 2 ^ 32 + 1 = n := by
    rw [Int.emod_eq_of_lt (by omega) (by omega)]
    omega
  have hlt : draw % n < n := Nat.mod_lt draw hn
  rw [urandomRange, hmax, ← Int.natCast_mod, int32_eq_self (by omega) (by omega)]

variable {pri : ℕ → Except UvmReport ℤ} {w : ℕ → ℕ}

/-- One round of the loop that adds up. -/
lemma sumPriority_cons {i : ℕ} {p : ℤ} (hp : pri i = .ok p) (is : List ℕ) (sum : ℤ) :
    sumPriority pri (i :: is) sum = sumPriority pri is (int32 (sum + p)) := by
  rw [sumPriority, hp]
  rfl

/-- One round of the loop that looks for the share of `temp`. -/
lemma weightedLoop_cons {i : ℕ} {p : ℤ} (hp : pri i = .ok p) (temp : ℤ) (is : List ℕ) (sum : ℤ) :
    weightedLoop pri temp (i :: is) sum
      = if temp < int32 (p + sum) then .ok i
        else weightedLoop pri temp is (int32 (sum + p)) := by
  rw [weightedLoop, hp]
  rfl

/-- One round of the loop that keeps the highest priority so far. -/
lemma highestLoop_cons {i : ℕ} {p : ℤ} (hp : pri i = .ok p) (is : List ℕ) (m : ℤ)
    (highest : List ℕ) :
    highestLoop pri (i :: is) m highest
      = if m < p then highestLoop pri is p [i]
        else if p = m then highestLoop pri is m (highest ++ [i])
        else highestLoop pri is m highest := by
  rw [highestLoop, hp]
  rfl

/-- The loop adds up the weights, as long as the sum is an `int`. -/
lemma sumPriority_eq {is : List ℕ} (hw : ∀ i ∈ is, pri i = .ok (w i : ℤ)) (sum : ℕ)
    (hsum : sum + (is.map w).sum < 2 ^ 31) :
    sumPriority pri is sum = .ok ((sum + (is.map w).sum : ℕ) : ℤ) := by
  induction is generalizing sum with
  | nil => rfl
  | cons i is ih =>
      rw [List.map_cons, List.sum_cons] at hsum ⊢
      have hint : int32 ((sum : ℤ) + w i) = ((sum + w i : ℕ) : ℤ) := by
        rw [int32_eq_self (by omega) (by omega)]
        norm_cast
      rw [sumPriority_cons (hw i List.mem_cons_self), hint,
        ih (fun j hj => hw j (List.mem_cons_of_mem i hj)) _ (by omega), Nat.add_assoc]

/-- The loop finds the entry in whose share the number is. -/
lemma weightedLoop_eq {is : List ℕ} (hw : ∀ i ∈ is, pri i = .ok (w i : ℤ)) (sum t : ℕ)
    (hsum : sum + (is.map w).sum < 2 ^ 31) {i : ℕ} (hi : pick w is t = some i) :
    weightedLoop pri ((sum + t : ℕ) : ℤ) is sum = .ok i := by
  induction is generalizing sum t with
  | nil => cases hi
  | cons j is ih =>
      rw [List.map_cons, List.sum_cons] at hsum
      have hint : int32 ((w j : ℤ) + sum) = ((sum + w j : ℕ) : ℤ) := by
        rw [int32_eq_self (by omega) (by omega)]
        push_cast
        ring
      rw [weightedLoop_cons (hw j List.mem_cons_self), add_comm (sum : ℤ) (w j), hint]
      rw [pick] at hi
      split_ifs at hi with ht
      · rw [if_pos (by omega), Option.some.inj hi]
      · have htemp : sum + t = sum + w j + (t - w j) := by omega
        rw [if_neg (by omega), htemp]
        exact ih (fun k hk => hw k (List.mem_cons_of_mem j hk)) (sum + w j) (t - w j) (by omega) hi

/-- The loop is one pass that keeps the largest weight. -/
lemma highestLoop_eq {is : List ℕ} (hw : ∀ i ∈ is, pri i = .ok (w i : ℤ)) (m : ℕ)
    (highest : List ℕ) :
    highestLoop pri is m highest = .ok (is.foldl (scanStep w) (m, highest)).2 := by
  induction is generalizing m highest with
  | nil => rfl
  | cons i is ih =>
      have ih := ih fun j hj => hw j (List.mem_cons_of_mem i hj)
      rw [highestLoop_cons (hw i List.mem_cons_self), List.foldl_cons, scanStep]
      simp only [Nat.cast_lt, Nat.cast_inj]
      split_ifs
      · exact ih (w i) [i]
      · exact ih m (highest ++ [i])
      · exact ih m highest

/-- The loops stop at a priority that is reported. -/
lemma loop_error (pri : ℕ → Except UvmReport ℤ) {is : List ℕ} {i : ℕ} (hi : i ∈ is)
    {r : UvmReport} (hr : pri i = .error r) :
    (∀ sum, ∃ j ∈ is, ∃ r', pri j = .error r' ∧ sumPriority pri is sum = .error r') ∧
    ∀ m highest, ∃ j ∈ is, ∃ r', pri j = .error r' ∧ highestLoop pri is m highest = .error r' := by
  induction is with
  | nil => cases hi
  | cons j is ih =>
      cases hj : pri j with
      | error r' =>
          have hstop {β : Type} (f : ℤ → Except UvmReport β) : (pri j >>= f) = .error r' := by
            rw [hj]
            rfl
          exact ⟨fun sum => ⟨j, List.mem_cons_self, r', hj, hstop _⟩,
            fun m highest => ⟨j, List.mem_cons_self, r', hj, hstop _⟩⟩
      | ok p =>
          have hmem : i ∈ is := by
            rcases List.mem_cons.mp hi with rfl | hi
            · rw [hj] at hr
              cases hr
            · exact hi
          obtain ⟨hsum, hhighest⟩ := ih hmem
          refine ⟨fun sum => ?_, fun m highest => ?_⟩
          · obtain ⟨k, hk, r', hr', h⟩ := hsum (int32 (sum + p))
            refine ⟨k, List.mem_cons_of_mem j hk, r', hr', ?_⟩
            rw [sumPriority_cons hj]
            exact h
          · rw [highestLoop_cons hj]
            have hmono {m' highest'} : ∃ k ∈ j :: is, ∃ r', pri k = .error r' ∧
                highestLoop pri is m' highest' = .error r' := by
              obtain ⟨k, hk, h⟩ := hhighest m' highest'
              exact ⟨k, List.mem_cons_of_mem j hk, h⟩
            split_ifs
            · exact hmono
            · exact hmono
            · exact hmono

/-! ## The selected request -/

/-- An entry may be granted if its sequence is relevant. -/
lemma mem_availSequences {relevant : ℕ → Bool} {q : List SequenceRequest} {i : ℕ} :
    i ∈ availSequences relevant q ↔ ∃ e, q[i]? = some e ∧ relevant e.sequencePtr = true := by
  rw [availSequences, List.mem_filter, List.mem_range]
  constructor
  · rintro ⟨hi, hrel⟩
    rw [List.getElem?_eq_getElem hi] at hrel
    exact ⟨q[i], List.getElem?_eq_getElem hi, hrel⟩
  · rintro ⟨e, hi, hrel⟩
    exact ⟨(List.getElem?_eq_some_iff.mp hi).1, by rw [hi]; exact hrel⟩

/-- When all sequences are relevant, all entries may be granted. -/
lemma availSequences_true (q : List SequenceRequest) :
    availSequences (fun _ => true) q = List.range q.length := by
  rw [availSequences, List.filter_eq_self]
  intro i hi
  rw [List.getElem?_eq_getElem (List.mem_range.mp hi)]
  rfl

/-- The entries are in the order of the queue. -/
lemma pairwise_availSequences (relevant : ℕ → Bool) (q : List SequenceRequest) :
    (availSequences relevant q).Pairwise (· < ·) :=
  List.pairwise_lt_range.filter _

section Choice

variable (mode : UvmSequencerArbMode) (relevant : ℕ → Bool) (getPriority : ℕ → ℤ) (draw : ℕ)
  (q : List SequenceRequest)

/-- The priority of the entry with the index `i`, where it is legal. -/
def weight (i : ℕ) : ℕ := ((requestAt q i).priority getPriority).toNat

/-- The priorities of the entries that may be granted are legal. -/
def LegalPriorities : Prop :=
  ∀ i ∈ availSequences relevant q, (requestAt q i).Legal getPriority

variable {mode relevant getPriority draw q}

instance : Decidable (LegalPriorities relevant getPriority q) :=
  inferInstanceAs (Decidable (∀ i ∈ availSequences relevant q, _))

/-- The weight of a legal entry is its priority. -/
lemma LegalPriorities.weight_eq (h : LegalPriorities relevant getPriority q) :
    ∀ i ∈ availSequences relevant q,
      getSeqItemPriority getPriority (requestAt q i) = .ok (weight getPriority q i : ℤ) := by
  intro i hi
  rw [getSeqItemPriority_of_legal (h i hi), weight, Int.toNat_of_nonneg (h i hi).priority_nonneg]

/-- The first entry of the queue that may be granted. -/
lemma chooseNextRequest_fifo :
    chooseNextRequest .fifo relevant getPriority draw q
      = .ok (availSequences relevant q).head? := by
  simp [chooseNextRequest]

/-- Nothing is chosen among less than two entries. -/
lemma chooseNextRequest_few (h : (availSequences relevant q).length ≤ 1) :
    chooseNextRequest mode relevant getPriority draw q
      = .ok (availSequences relevant q).head? := by
  rw [chooseNextRequest]
  split_ifs with hmode hnil hone
  · rfl
  · rw [List.length_eq_zero_iff.mp (Nat.lt_one_iff.mp hnil)]
    rfl
  · rfl
  · omega

/-- Two or more entries: the mode decides. -/
lemma chooseNextRequest_many (hmode : mode ≠ .fifo)
    (h : 2 ≤ (availSequences relevant q).length) :
    chooseNextRequest mode relevant getPriority draw q
      = (chooseAvail mode (fun i => getSeqItemPriority getPriority (requestAt q i)) draw
          (availSequences relevant q)).map some := by
  rw [chooseNextRequest, if_neg hmode, if_neg (by omega), if_neg (by omega)]
  rfl

lemma getD_zero_eq_head? {l : List ℕ} (h : l ≠ []) : some (l.getD 0 0) = l.head? := by
  cases l with
  | nil => exact absurd rfl h
  | cons i l => rfl

/-- A random number selects the entry at its remainder. -/
lemma getD_urandomRange {l : List ℕ} (h : l ≠ []) (hlen : l.length ≤ 2 ^ 31) (draw : ℕ) :
    some (l.getD (urandomRange (l.length - 1) draw).toNat 0) = l[draw % l.length]? := by
  have hpos := List.length_pos_iff.mpr h
  have hlt := Nat.mod_lt draw hpos
  rw [urandomRange_eq hpos hlen, Int.toNat_natCast, List.getD_eq_getElem?_getD,
    List.getElem?_eq_getElem hlt]
  rfl

/-- Of at most one entry, every number selects the first. -/
lemma getElem?_mod_few {l : List ℕ} (h : l.length ≤ 1) (draw : ℕ) :
    l[draw % l.length]? = l.head? := by
  match l with
  | [] => rfl
  | [i] => simp [Nat.mod_one]
  | i :: j :: l => simp at h

/-- The default of the user mode selects the first entry, too. -/
lemma chooseNextRequest_user :
    chooseNextRequest .user relevant getPriority draw q
      = .ok (availSequences relevant q).head? := by
  rcases Nat.lt_or_ge 1 (availSequences relevant q).length with hmany | hfew
  · rw [chooseNextRequest_many (by simp) hmany, chooseAvail]
    match h : availSequences relevant q with
    | [] => simp [h] at hmany
    | i :: l => simp [Except.map]
  · exact chooseNextRequest_few hfew

/-- The entry at the remainder of the random number. -/
lemma chooseNextRequest_random (hlen : (availSequences relevant q).length ≤ 2 ^ 31) :
    chooseNextRequest .random relevant getPriority draw q
      = .ok (availSequences relevant q)[draw % (availSequences relevant q).length]? := by
  rcases Nat.lt_or_ge 1 (availSequences relevant q).length with hmany | hfew
  · have hne : availSequences relevant q ≠ [] := List.ne_nil_of_length_pos (by omega)
    rw [chooseNextRequest_many (by simp) hmany, chooseAvail, ← getD_urandomRange hne hlen]
    rfl
  · rw [chooseNextRequest_few hfew, getElem?_mod_few hfew]

/-- The loop leaves the entries of the highest priority. -/
lemma highestLoop_avail (hlegal : LegalPriorities relevant getPriority q) :
    highestLoop (fun i => getSeqItemPriority getPriority (requestAt q i))
        (availSequences relevant q) 0 []
      = .ok (maxima (weight getPriority q) (availSequences relevant q)) := by
  rw [← scan_eq_maxima]
  exact highestLoop_eq hlegal.weight_eq 0 []

lemma maxima_few {l : List ℕ} (w : ℕ → ℕ) (h : l.length ≤ 1) : maxima w l = l := by
  match l with
  | [] => rfl
  | [i] => simp [maxima]
  | i :: j :: l => simp at h

/-- The first of the entries of the highest priority. -/
lemma chooseNextRequest_strictFifo (hlegal : LegalPriorities relevant getPriority q) :
    chooseNextRequest .strictFifo relevant getPriority draw q
      = .ok (maxima (weight getPriority q) (availSequences relevant q)).head? := by
  rcases Nat.lt_or_ge 1 (availSequences relevant q).length with hmany | hfew
  · have hne : availSequences relevant q ≠ [] := List.ne_nil_of_length_pos (by omega)
    rw [chooseNextRequest_many (by simp) hmany, chooseAvail, highestLoop_avail hlegal,
      ← getD_zero_eq_head? (maxima_ne_nil _ hne)]
    rfl
  · rw [chooseNextRequest_few hfew, maxima_few _ hfew]

/-- Any of the entries of the highest priority. -/
lemma chooseNextRequest_strictRandom (hlegal : LegalPriorities relevant getPriority q)
    (hlen : (availSequences relevant q).length ≤ 2 ^ 31) :
    chooseNextRequest .strictRandom relevant getPriority draw q
      = .ok (maxima (weight getPriority q) (availSequences relevant q))[draw
          % (maxima (weight getPriority q) (availSequences relevant q)).length]? := by
  rcases Nat.lt_or_ge 1 (availSequences relevant q).length with hmany | hfew
  · have hne : availSequences relevant q ≠ [] := List.ne_nil_of_length_pos (by omega)
    have hle : (maxima (weight getPriority q) (availSequences relevant q)).length ≤ 2 ^ 31 :=
      (List.length_filter_le _ _).trans hlen
    rw [chooseNextRequest_many (by simp) hmany, chooseAvail, highestLoop_avail hlegal,
      ← getD_urandomRange (maxima_ne_nil _ hne) hle]
    rfl
  · rw [chooseNextRequest_few hfew, maxima_few _ hfew, getElem?_mod_few hfew]

/-- The entry in whose share the remainder of the random number is. -/
lemma chooseNextRequest_weighted_eq (hlegal : LegalPriorities relevant getPriority q)
    (hpos : 0 < ((availSequences relevant q).map (weight getPriority q)).sum)
    (hsum : ((availSequences relevant q).map (weight getPriority q)).sum < 2 ^ 31) :
    chooseNextRequest .weighted relevant getPriority draw q
      = .ok (pick (weight getPriority q) (availSequences relevant q)
          (draw % ((availSequences relevant q).map (weight getPriority q)).sum)) := by
  have hlt := Nat.mod_lt draw hpos
  obtain ⟨i, hi⟩ := exists_pick (weight getPriority q) hlt
  rcases Nat.lt_or_ge 1 (availSequences relevant q).length with hmany | hfew
  · have hsumPriority := sumPriority_eq hlegal.weight_eq 0 (by omega)
    have hloop := weightedLoop_eq hlegal.weight_eq 0 _ (by omega) hi
    simp only [Nat.zero_add, Nat.cast_zero] at hsumPriority hloop
    rw [chooseNextRequest_many (by simp) hmany, chooseAvail, hsumPriority, hi]
    show Except.map some (weightedLoop _ (urandomRange _ draw) _ 0) = _
    rw [urandomRange_eq hpos hsum.le, hloop]
    rfl
  · rw [chooseNextRequest_few hfew, hi]
    have hmem := mem_of_pick _ hi
    match h : availSequences relevant q with
    | [] => simp [h] at hmem
    | [j] =>
        rw [h] at hmem
        rw [List.mem_singleton.mp hmem]
        rfl
    | j :: k :: l => simp [h] at hfew

/-- A choice of the sequencer that grants a request, unless it reports a priority. -/
lemma chooseNextRequest_legal (draw : ℕ)
    (hlegal : mode.UsesPriority → LegalPriorities relevant getPriority q)
    (hlen : (availSequences relevant q).length ≤ 2 ^ 31)
    (hsum : mode = .weighted → availSequences relevant q ≠ [] →
      0 < ((availSequences relevant q).map (weight getPriority q)).sum ∧
        ((availSequences relevant q).map (weight getPriority q)).sum < 2 ^ 31)
    (hne : availSequences relevant q ≠ []) :
    ∃ i ∈ availSequences relevant q,
      chooseNextRequest mode relevant getPriority draw q = .ok (some i) := by
  have hhead : ∃ i ∈ availSequences relevant q, (availSequences relevant q).head? = some i :=
    ⟨_, List.head_mem hne, List.head?_eq_some_head hne⟩
  have hget {l : List ℕ} (hl : l ≠ []) (hsub : l ⊆ availSequences relevant q) :
      ∃ i ∈ availSequences relevant q, l[draw % l.length]? = some i := by
    have hlt := Nat.mod_lt draw (List.length_pos_iff.mpr hl)
    exact ⟨_, hsub (List.getElem_mem hlt), List.getElem?_eq_getElem hlt⟩
  have hmaxima := maxima_ne_nil (weight getPriority q) hne
  have hsub : maxima (weight getPriority q) (availSequences relevant q)
      ⊆ availSequences relevant q := List.filter_subset_self _
  cases mode with
  | fifo =>
      obtain ⟨i, hi, h⟩ := hhead
      exact ⟨i, hi, by rw [chooseNextRequest_fifo, h]⟩
  | weighted =>
      obtain ⟨hpos, hlt⟩ := hsum rfl hne
      obtain ⟨i, h⟩ := exists_pick (weight getPriority q) (Nat.mod_lt draw hpos)
      exact ⟨i, mem_of_pick _ h, by rw [chooseNextRequest_weighted_eq (hlegal trivial) hpos hlt, h]⟩
  | random =>
      obtain ⟨i, hi, h⟩ := hget hne (List.Subset.refl _)
      exact ⟨i, hi, by rw [chooseNextRequest_random hlen, h]⟩
  | strictFifo =>
      refine ⟨_, hsub (List.head_mem hmaxima), ?_⟩
      rw [chooseNextRequest_strictFifo (hlegal trivial), List.head?_eq_some_head hmaxima]
  | strictRandom =>
      obtain ⟨i, hi, h⟩ := hget hmaxima hsub
      exact ⟨i, hi, by rw [chooseNextRequest_strictRandom (hlegal trivial) hlen, h]⟩
  | user =>
      obtain ⟨i, hi, h⟩ := hhead
      exact ⟨i, hi, by rw [chooseNextRequest_user, h]⟩

/-- A priority that is not legal is reported, when there is a choice that depends on it. -/
lemma chooseNextRequest_illegal (draw : ℕ) (hmode : mode.UsesPriority)
    (hmany : 2 ≤ (availSequences relevant q).length)
    (h : ¬ LegalPriorities relevant getPriority q) :
    ∃ i ∈ availSequences relevant q, ∃ r,
      getSeqItemPriority getPriority (requestAt q i) = .error r ∧
      chooseNextRequest mode relevant getPriority draw q = .error r := by
  obtain ⟨i, hi, hlegal⟩ : ∃ i ∈ availSequences relevant q,
      ¬ (requestAt q i).Legal getPriority := by
    rw [LegalPriorities] at h
    push Not at h
    exact h
  obtain ⟨r, hr⟩ := getSeqItemPriority_of_not_legal hlegal
  obtain ⟨hsum, hhighest⟩ :=
    loop_error (fun i => getSeqItemPriority getPriority (requestAt q i)) hi hr
  cases mode with
  | fifo => exact hmode.elim
  | weighted =>
      obtain ⟨j, hj, r', hr', hloop⟩ := hsum 0
      refine ⟨j, hj, r', hr', ?_⟩
      rw [chooseNextRequest_many (by simp) hmany, chooseAvail, hloop]
      rfl
  | random => exact hmode.elim
  | strictFifo =>
      obtain ⟨j, hj, r', hr', hloop⟩ := hhighest 0 []
      refine ⟨j, hj, r', hr', ?_⟩
      rw [chooseNextRequest_many (by simp) hmany, chooseAvail, hloop]
      rfl
  | strictRandom =>
      obtain ⟨j, hj, r', hr', hloop⟩ := hhighest 0 []
      refine ⟨j, hj, r', hr', ?_⟩
      rw [chooseNextRequest_many (by simp) hmany, chooseAvail, hloop]
      rfl
  | user => exact hmode.elim

/-! ## Soundness, whatever the priorities add up to -/

/-- The reports of a selection by priorities. -/
def UvmReport.OfArbitration : UvmReport → Prop
  | .itemPriority _ _ => True
  | .defaultPriority _ _ => True
  | .weightedArbitration => True
  | _ => False

/-- The priority of an entry is reported as such. -/
lemma ofArbitration_of_getSeqItemPriority {e : SequenceRequest} {r : UvmReport}
    (h : getSeqItemPriority getPriority e = .error r) : r.OfArbitration := by
  rw [getSeqItemPriority] at h
  split_ifs at h
  · obtain rfl := Except.error.inj h
    trivial
  · obtain rfl := Except.error.inj h
    trivial

/-- A random number of the range `0` to `n - 1` is below `n`. -/
lemma urandomRange_toNat_lt {n : ℕ} (hn : 0 < n) (draw : ℕ) :
    (urandomRange ((n : ℤ) - 1) draw).toNat < n := by
  have hle : ((n : ℤ) - 1) % 2 ^ 32 ≤ n - 1 := by omega
  have hnonneg : 0 ≤ ((n : ℤ) - 1) % 2 ^ 32 := Int.emod_nonneg _ (by norm_num)
  rw [urandomRange]
  set m := ((n : ℤ) - 1) % 2 ^ 32 + 1
  have hlt : (draw : ℤ) % m < m := Int.emod_lt_of_pos _ (by omega)
  have hdraw : 0 ≤ (draw : ℤ) % m := Int.emod_nonneg _ (by omega)
  have hint : int32 ((draw : ℤ) % m) ≤ (draw : ℤ) % m := by
    rw [int32, Int.bmod_def]
    split_ifs <;> omega
  omega

/-- Whatever the random number, one of the entries is selected. -/
lemma getD_urandomRange_mem {l : List ℕ} (h : l ≠ []) (draw : ℕ) :
    l.getD (urandomRange (l.length - 1) draw).toNat 0 ∈ l := by
  have hlt := urandomRange_toNat_lt (List.length_pos_iff.mpr h) draw
  rw [List.getD_eq_getElem?_getD, List.getElem?_eq_getElem hlt]
  exact List.getElem_mem hlt

/-- What the loop finds is one of the entries. -/
lemma mem_of_weightedLoop {is : List ℕ} {temp sum : ℤ} {i : ℕ}
    (h : weightedLoop pri temp is sum = .ok i) : i ∈ is := by
  induction is generalizing sum with
  | nil => cases h
  | cons j is ih =>
      cases hj : pri j with
      | error r =>
          rw [weightedLoop, hj] at h
          cases h
      | ok p =>
          rw [weightedLoop_cons hj] at h
          split_ifs at h
          · rw [Except.ok.inj h]
            exact List.mem_cons_self
          · exact List.mem_cons_of_mem j (ih h)

/-- When all priorities are legal, the loops report nothing but a sum that is too large. -/
lemma weightedLoop_error {is : List ℕ} (hw : ∀ i ∈ is, pri i = .ok (w i : ℤ)) {temp sum : ℤ}
    {r : UvmReport} (h : weightedLoop pri temp is sum = .error r) : r = .weightedArbitration := by
  induction is generalizing sum with
  | nil => exact (Except.error.inj h).symm
  | cons j is ih =>
      rw [weightedLoop_cons (hw j List.mem_cons_self)] at h
      split_ifs at h
      exact ih (fun i hi => hw i (List.mem_cons_of_mem j hi)) h

lemma exists_sumPriority {is : List ℕ} (hw : ∀ i ∈ is, pri i = .ok (w i : ℤ)) (sum : ℤ) :
    ∃ total, sumPriority pri is sum = .ok total := by
  induction is generalizing sum with
  | nil => exact ⟨sum, rfl⟩
  | cons j is ih =>
      rw [sumPriority_cons (hw j List.mem_cons_self)]
      exact ih (fun i hi => hw i (List.mem_cons_of_mem j hi)) _

/-- Whatever the sum is, an entry is selected, or the error of the loop is reported. -/
lemma chooseNextRequest_weighted_cases (draw : ℕ) (hlegal : LegalPriorities relevant getPriority q)
    (hmany : 1 < (availSequences relevant q).length) :
    (∃ i ∈ availSequences relevant q,
        chooseNextRequest .weighted relevant getPriority draw q = .ok (some i)) ∨
      chooseNextRequest .weighted relevant getPriority draw q = .error .weightedArbitration := by
  obtain ⟨total, htotal⟩ := exists_sumPriority hlegal.weight_eq 0
  have hmap : chooseNextRequest .weighted relevant getPriority draw q
      = Except.map some (weightedLoop (fun i => getSeqItemPriority getPriority (requestAt q i))
          (urandomRange (total - 1) draw) (availSequences relevant q) 0) := by
    rw [chooseNextRequest_many (by simp) hmany, chooseAvail, htotal]
    rfl
  rw [hmap]
  cases hloop : weightedLoop (fun i => getSeqItemPriority getPriority (requestAt q i))
      (urandomRange (total - 1) draw) (availSequences relevant q) 0 with
  | ok i => exact Or.inl ⟨i, mem_of_weightedLoop hloop, rfl⟩
  | error r =>
      obtain rfl := weightedLoop_error hlegal.weight_eq hloop
      exact Or.inr rfl

/-- What is right about a choice: it selects an entry that may be granted, gives up only when there
is none, and reports nothing but priorities, in the modes that use them. -/
def SoundChoice (mode : UvmSequencerArbMode) (avail : List ℕ) : Except UvmReport (Option ℕ) → Prop
  | .ok none => avail = []
  | .ok (some i) => i ∈ avail
  | .error r => mode.UsesPriority ∧ r.OfArbitration

/-- Every choice is right, whatever the priorities are and add up to. -/
theorem chooseNextRequest_sound :
    SoundChoice mode (availSequences relevant q)
      (chooseNextRequest mode relevant getPriority draw q) := by
  rcases Nat.lt_or_ge 1 (availSequences relevant q).length with hmany | hfew
  case inr =>
    rw [chooseNextRequest_few hfew]
    cases h : availSequences relevant q with
    | nil => rfl
    | cons i l => exact List.mem_cons_self
  case inl =>
    have hne : availSequences relevant q ≠ [] := List.ne_nil_of_length_pos (by omega)
    by_cases hlegal : mode.UsesPriority → LegalPriorities relevant getPriority q
    case neg =>
      obtain ⟨hmode, hillegal⟩ := Classical.not_imp.mp hlegal
      obtain ⟨i, hi, r, hr, hchoice⟩ :=
        chooseNextRequest_illegal draw hmode hmany hillegal
      rw [hchoice]
      exact ⟨hmode, ofArbitration_of_getSeqItemPriority hr⟩
    case pos =>
      have hmaxima := maxima_ne_nil (weight getPriority q) hne
      have hsub : maxima (weight getPriority q) (availSequences relevant q)
          ⊆ availSequences relevant q := List.filter_subset_self _
      have hhead {l : List ℕ} (hl : l ≠ []) (hsub : l ⊆ availSequences relevant q) :
          SoundChoice mode (availSequences relevant q) (.ok l.head?) := by
        rw [List.head?_eq_some_head hl]
        exact hsub (List.head_mem hl)
      cases mode with
      | fifo =>
          rw [chooseNextRequest_fifo]
          exact hhead hne (List.Subset.refl _)
      | weighted =>
          rcases chooseNextRequest_weighted_cases draw (hlegal trivial) hmany with
            ⟨i, hi, h⟩ | h
          · rw [h]
            exact hi
          · rw [h]
            exact ⟨trivial, trivial⟩
      | random =>
          rw [chooseNextRequest_many (by simp) hmany]
          exact getD_urandomRange_mem hne draw
      | strictFifo =>
          rw [chooseNextRequest_strictFifo (hlegal trivial)]
          exact hhead hmaxima hsub
      | strictRandom =>
          rw [chooseNextRequest_many (by simp) hmany, chooseAvail,
            highestLoop_avail (hlegal trivial)]
          exact hsub (getD_urandomRange_mem hmaxima draw)
      | user =>
          rw [chooseNextRequest_user]
          exact hhead hne (List.Subset.refl _)

/-- What is behind a report: the priority of one of the entries, or a sum of priorities that an
`int` does not hold. -/
lemma error_of_chooseNextRequest {r : UvmReport}
    (h : chooseNextRequest mode relevant getPriority draw q = .error r) :
    mode.UsesPriority ∧
      ((∃ i ∈ availSequences relevant q,
          getSeqItemPriority getPriority (requestAt q i) = .error r) ∨
        (r = .weightedArbitration ∧ mode = .weighted ∧ LegalPriorities relevant getPriority q ∧
          availSequences relevant q ≠ [] ∧
          (((availSequences relevant q).map (weight getPriority q)).sum = 0 ∨
            2 ^ 31 ≤ ((availSequences relevant q).map (weight getPriority q)).sum))) := by
  have hsound : SoundChoice mode (availSequences relevant q)
      (chooseNextRequest mode relevant getPriority draw q) := chooseNextRequest_sound
  rw [h] at hsound
  obtain ⟨hmode, -⟩ := hsound
  have hmany : 2 ≤ (availSequences relevant q).length := by
    by_contra hfew
    rw [chooseNextRequest_few (by omega)] at h
    cases h
  refine ⟨hmode, ?_⟩
  by_cases hlegal : LegalPriorities relevant getPriority q
  case neg =>
    obtain ⟨i, hi, r', hr', hchoice⟩ := chooseNextRequest_illegal draw hmode hmany hlegal
    rw [h] at hchoice
    obtain rfl := Except.error.inj hchoice
    exact Or.inl ⟨i, hi, hr'⟩
  refine Or.inr ?_
  cases mode with
  | fifo => exact hmode.elim
  | random => exact hmode.elim
  | user => exact hmode.elim
  | strictFifo =>
      rw [chooseNextRequest_strictFifo hlegal] at h
      cases h
  | strictRandom =>
      rw [chooseNextRequest_many (by simp) hmany, chooseAvail, highestLoop_avail hlegal] at h
      cases h
  | weighted =>
      have hweighted : r = .weightedArbitration := by
        rcases chooseNextRequest_weighted_cases draw hlegal hmany with ⟨i, -, hi⟩ | hr
        · rw [h] at hi
          cases hi
        · rw [h] at hr
          exact Except.error.inj hr
      refine ⟨hweighted, rfl, hlegal, List.ne_nil_of_length_pos (by omega), ?_⟩
      by_contra hsum
      rw [chooseNextRequest_weighted_eq hlegal (by omega) (by omega)] at h
      cases h

/-- **The selection is sound and complete**, in every mode: an entry that may be granted is chosen
whenever there is one, and there is a report exactly if two or more entries are to be compared and
the priority of one of them is not legal. -/
theorem chooseNextRequest_spec (mode : UvmSequencerArbMode) (relevant : ℕ → Bool)
    (getPriority : ℕ → ℤ) (draw : ℕ) (q : List SequenceRequest)
    (hlen : (availSequences relevant q).length ≤ 2 ^ 31)
    (hsum : mode = .weighted → availSequences relevant q ≠ [] →
      0 < ((availSequences relevant q).map (weight getPriority q)).sum ∧
        ((availSequences relevant q).map (weight getPriority q)).sum < 2 ^ 31) :
    SoundChoice mode (availSequences relevant q)
      (chooseNextRequest mode relevant getPriority draw q) ∧
    ((∃ r, chooseNextRequest mode relevant getPriority draw q = .error r) ↔
      mode.UsesPriority ∧ 2 ≤ (availSequences relevant q).length ∧
        ¬ LegalPriorities relevant getPriority q) := by
  refine ⟨chooseNextRequest_sound, ?_, ?_⟩
  · rintro ⟨r, hr⟩
    have hmany : 2 ≤ (availSequences relevant q).length := by
      by_contra hfew
      rw [chooseNextRequest_few (by omega)] at hr
      cases hr
    have hillegal : ¬ (mode.UsesPriority → LegalPriorities relevant getPriority q) := by
      intro hlegal
      obtain ⟨i, -, hi⟩ := chooseNextRequest_legal draw hlegal hlen hsum
        (List.ne_nil_of_length_pos (by omega))
      rw [hr] at hi
      cases hi
    obtain ⟨hmode, hillegal⟩ := Classical.not_imp.mp hillegal
    exact ⟨hmode, hmany, hillegal⟩
  · rintro ⟨hmode, hmany, hillegal⟩
    obtain ⟨i, -, r, -, hr⟩ := chooseNextRequest_illegal draw hmode hmany hillegal
    exact ⟨r, hr⟩

theorem chooseNextRequest_spec_two :
    SoundChoice .weighted (availSequences (fun _ => true) [⟨0, 0, 100⟩, ⟨1, 1, 0⟩])
      (chooseNextRequest .weighted (fun _ => true) (fun _ => 100) 150 [⟨0, 0, 100⟩, ⟨1, 1, 0⟩]) ∧
    ((∃ r, chooseNextRequest .weighted (fun _ => true) (fun _ => 100) 150
        [⟨0, 0, 100⟩, ⟨1, 1, 0⟩] = .error r) ↔
      UvmSequencerArbMode.weighted.UsesPriority ∧
        2 ≤ (availSequences (fun _ => true) [⟨0, 0, 100⟩, ⟨1, 1, 0⟩]).length ∧
        ¬ LegalPriorities (fun _ => true) (fun _ => 100) [⟨0, 0, 100⟩, ⟨1, 1, 0⟩]) :=
  chooseNextRequest_spec .weighted (fun _ => true) (fun _ => 100) 150 [⟨0, 0, 100⟩, ⟨1, 1, 0⟩]
    (by decide) (fun _ _ => by decide)

/-- **The strict modes** grant an entry of the highest priority: the first one in the queue, or any
of them. -/
theorem chooseNextRequest_strict (relevant : ℕ → Bool) (getPriority : ℕ → ℤ)
    (q : List SequenceRequest) (hlegal : LegalPriorities relevant getPriority q)
    (hlen : (availSequences relevant q).length ≤ 2 ^ 31) (i : ℕ) :
    (∀ draw, chooseNextRequest .strictFifo relevant getPriority draw q = .ok (some i) ↔
      i ∈ availSequences relevant q ∧ ∀ j ∈ availSequences relevant q,
        weight getPriority q j ≤ weight getPriority q i ∧
        (j < i → weight getPriority q j < weight getPriority q i)) ∧
    ((∃ draw, chooseNextRequest .strictRandom relevant getPriority draw q = .ok (some i)) ↔
      i ∈ availSequences relevant q ∧
        ∀ j ∈ availSequences relevant q, weight getPriority q j ≤ weight getPriority q i) := by
  set w := weight getPriority q
  have hsorted : (maxima w (availSequences relevant q)).Pairwise (· < ·) :=
    (pairwise_availSequences relevant q).filter _
  refine ⟨fun draw => ?_, ?_⟩
  · rw [chooseNextRequest_strictFifo hlegal, Except.ok.injEq]
    constructor
    · intro hhead
      obtain ⟨hi, hmax⟩ := (mem_maxima w).mp (List.mem_of_head? hhead)
      refine ⟨hi, fun j hj => ⟨hmax j hj, fun hlt => ?_⟩⟩
      refine lt_of_le_of_ne (hmax j hj) fun heq => ?_
      have hj' : j ∈ maxima w (availSequences relevant q) :=
        (mem_maxima w).mpr ⟨hj, fun k hk => heq ▸ hmax k hk⟩
      obtain ⟨l, hl⟩ : ∃ l, maxima w (availSequences relevant q) = i :: l :=
        List.head?_eq_some_iff.mp hhead
      rw [hl] at hj' hsorted
      rcases List.mem_cons.mp hj' with rfl | hj'
      · exact lt_irrefl _ hlt
      · exact lt_asymm hlt ((List.pairwise_cons.mp hsorted).1 j hj')
    · rintro ⟨hi, hmax⟩
      have hi' : i ∈ maxima w (availSequences relevant q) :=
        (mem_maxima w).mpr ⟨hi, fun j hj => (hmax j hj).1⟩
      cases hl : maxima w (availSequences relevant q) with
      | nil => simp [hl] at hi'
      | cons j l =>
          obtain ⟨hj, hjmax⟩ := (mem_maxima w).mp (hl ▸ List.mem_cons_self :
            j ∈ maxima w (availSequences relevant q))
          rw [hl] at hi' hsorted
          rcases List.mem_cons.mp hi' with rfl | hi'
          · rfl
          · have hlt := (List.pairwise_cons.mp hsorted).1 i hi'
            exact absurd (hjmax i hi) (Nat.not_le_of_lt ((hmax j hj).2 hlt))
  · rw [← mem_maxima w]
    constructor
    · rintro ⟨draw, h⟩
      rw [chooseNextRequest_strictRandom hlegal hlen, Except.ok.injEq] at h
      exact List.mem_of_getElem? h
    · intro hi
      obtain ⟨draw, hlt, hdraw⟩ := List.getElem_of_mem hi
      refine ⟨draw, ?_⟩
      rw [chooseNextRequest_strictRandom hlegal hlen, Nat.mod_eq_of_lt hlt,
        List.getElem?_eq_getElem hlt, hdraw]

theorem chooseNextRequest_strict_three :
    (∀ draw, chooseNextRequest .strictFifo (fun _ => true) (fun _ => 7) draw
        [⟨0, 0, 2⟩, ⟨1, 1, -1⟩, ⟨2, 2, 7⟩] = .ok (some 1) ↔
      1 ∈ availSequences (fun _ => true) [⟨0, 0, 2⟩, ⟨1, 1, -1⟩, ⟨2, 2, 7⟩] ∧
        ∀ j ∈ availSequences (fun _ => true) [⟨0, 0, 2⟩, ⟨1, 1, -1⟩, ⟨2, 2, 7⟩],
          weight (fun _ => 7) [⟨0, 0, 2⟩, ⟨1, 1, -1⟩, ⟨2, 2, 7⟩] j
            ≤ weight (fun _ => 7) [⟨0, 0, 2⟩, ⟨1, 1, -1⟩, ⟨2, 2, 7⟩] 1 ∧
          (j < 1 → weight (fun _ => 7) [⟨0, 0, 2⟩, ⟨1, 1, -1⟩, ⟨2, 2, 7⟩] j
            < weight (fun _ => 7) [⟨0, 0, 2⟩, ⟨1, 1, -1⟩, ⟨2, 2, 7⟩] 1)) ∧
    ((∃ draw, chooseNextRequest .strictRandom (fun _ => true) (fun _ => 7) draw
        [⟨0, 0, 2⟩, ⟨1, 1, -1⟩, ⟨2, 2, 7⟩] = .ok (some 1)) ↔
      1 ∈ availSequences (fun _ => true) [⟨0, 0, 2⟩, ⟨1, 1, -1⟩, ⟨2, 2, 7⟩] ∧
        ∀ j ∈ availSequences (fun _ => true) [⟨0, 0, 2⟩, ⟨1, 1, -1⟩, ⟨2, 2, 7⟩],
          weight (fun _ => 7) [⟨0, 0, 2⟩, ⟨1, 1, -1⟩, ⟨2, 2, 7⟩] j
            ≤ weight (fun _ => 7) [⟨0, 0, 2⟩, ⟨1, 1, -1⟩, ⟨2, 2, 7⟩] 1) :=
  chooseNextRequest_strict _ _ _ (by decide) (by decide) 1

end Choice

end SinglePortRam
