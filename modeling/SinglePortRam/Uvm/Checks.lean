import SinglePortRam.Uvm.History

/-!
# The checks of the library

Of the checks that the handshake makes, only those of a priority can fail in this program.  The
priority is that of the sequence: `start` takes any from `-1` on, and makes `100` of `-1`, but an
item with the priority `0` is not legal in the modes that look at it.

* `UvmReport.Justified`, `Checks` — what a report says about the priorities.
* **`TurnInv.justified_of_arbitration`** — this holds for the reports of the arbitration.
-/

namespace SinglePortRam

open Selection

variable {D A : ℕ} {mode : UvmSequencerArbMode}

/-- The report is about what has been given to `start`; `priorities` are those of the sequences. -/
def UvmReport.Justified (mode : UvmSequencerArbMode) (priorities : List ℤ) : UvmReport → Prop
  | .startPriority _ p => p < -1
  | .itemPriority i p => mode.UsesPriority ∧ p = 0 ∧ priorities[i]? = some 0
  | .weightedArbitration => mode = .weighted ∧ 2 ^ 31 ≤ priorities.sum
  | _ => False

/-- All reports are about what has been given to `start`. -/
structure Checks (mode : UvmSequencerArbMode) (priorities : List ℤ)
    (reports : List UvmReport) : Prop where
  nonneg : ∀ p ∈ priorities, 0 ≤ p
  justified : ∀ r ∈ reports, r.Justified mode priorities

namespace Checks

variable {priorities : List ℤ} {reports : List UvmReport}

lemma report (h : Checks mode priorities reports) {r : UvmReport}
    (hr : r.Justified mode priorities) : Checks mode priorities (reports ++ [r]) := by
  refine ⟨h.nonneg, fun r' hr' => ?_⟩
  rcases List.mem_append.mp hr' with hr' | hr'
  · exact h.justified r' hr'
  · rwa [List.mem_singleton.mp hr']

/-- One more sequence is started. -/
lemma start (h : Checks mode priorities reports) {p : ℤ} (hp : 0 ≤ p) :
    Checks mode (priorities ++ [p]) reports := by
  refine ⟨fun p' hp' => ?_, fun r hr => ?_⟩
  · rcases List.mem_append.mp hp' with hp' | hp'
    · exact h.nonneg p' hp'
    · rwa [List.mem_singleton.mp hp']
  · have hjust := h.justified r hr
    cases r with
    | startPriority i p' => exact hjust
    | itemPriority i p' =>
        obtain ⟨hmode, hzero, hi⟩ := hjust
        have hlt := (List.getElem?_eq_some_iff.mp hi).1
        exact ⟨hmode, hzero, (List.getElem?_append_left hlt).trans hi⟩
    | weightedArbitration =>
        refine ⟨hjust.1, ?_⟩
        rw [List.sum_append, List.sum_singleton]
        exact hjust.2.trans (le_add_of_nonneg_right hp)
    | _ => exact hjust.elim

end Checks

/-- What a step of one element leaves unchanged. -/
lemma map_set_of_eq {α β : Type*} {f : α → β} {l : List α} {i : ℕ} {a b : α}
    (hi : l[i]? = some a) (h : f b = f a) : (l.set i b).map f = l.map f := by
  refine List.ext_getElem? fun j => ?_
  rw [List.getElem?_map, List.getElem?_map]
  rcases eq_or_ne i j with rfl | hij
  · rw [List.getElem?_set_self (List.getElem?_eq_some_iff.mp hi).1, hi]
    exact congrArg some h
  · rw [List.getElem?_set_ne hij]

lemma map_modify_of_eq {α β : Type*} {f : α → β} {g : α → α} (h : ∀ a, f (g a) = f a) (l : List α)
    (i : ℕ) : (l.modify i g).map f = l.map f := by
  refine List.ext_getElem? fun j => ?_
  rw [List.getElem?_map, List.getElem?_map, List.getElem?_modify]
  cases l[j]? with
  | none => rfl
  | some a =>
      show some (f (if i = j then g a else a)) = some (f a)
      split_ifs
      · rw [h]
      · rfl

/-- The sequence `i` goes on, with the priority it has. -/
lemma Checks.set {seqs : List (UvmSequence D A)} {reports : List UvmReport}
    (h : Checks mode (seqs.map UvmSequence.priority) reports) {i : ℕ} {st st' : UvmSequence D A}
    (hi : seqs[i]? = some st) (hp : st'.priority = st.priority) :
    Checks mode ((seqs.set i st').map UvmSequence.priority) reports := by
  rwa [map_set_of_eq hi hp]

/-- `item_done` changes the object of a sequence only. -/
lemma Checks.itemDone {seqs : List (UvmSequence D A)} {reports : List UvmReport}
    (h : Checks mode (seqs.map UvmSequence.priority) reports) (i : ℕ) (object : SequenceItem D A) :
    Checks mode ((seqs.modify i fun st => { st with req := object }).map UvmSequence.priority)
      reports := by
  have hmap : (seqs.modify i fun st => { st with req := object }).map UvmSequence.priority
      = seqs.map UvmSequence.priority := by
    refine map_modify_of_eq ?_ seqs i
    intro st
    rfl
  rwa [hmap]

namespace TurnInv

variable {turn : Turn} {v : SequencerVars} {seqs : List (UvmSequence D A)} {d : UvmDriver D A}

/-- An entry of the queue has the priority of its sequence. -/
lemma itemPriority (h : TurnInv turn v seqs d) {e : SequenceRequest} (he : e ∈ v.arbSequenceQ) :
    (seqs.map UvmSequence.priority)[e.sequencePtr]? = some e.itemPriority := by
  obtain ⟨⟨st, n, hi, hp⟩, hturn⟩ := h.queue e he
  have hwaits := (h.waits _ st hi).1
  simp only [SeqTurn, hp] at hwaits
  have hmem : ⟨e.sequencePtr, e.requestId, st.priority⟩ ∈ v.arbSequenceQ :=
    hwaits.2.resolve_left fun hgranted => hturn _ hgranted.1
  have heq : e = ⟨e.sequencePtr, e.requestId, st.priority⟩ :=
    List.inj_on_of_nodup_map h.nodup he hmem rfl
  rw [List.getElem?_map, hi, heq]
  rfl

/-- The priorities in the queue do not add up to more than those of all sequences. -/
lemma sum_weight_le (h : TurnInv turn v seqs d) (getPriority : ℕ → ℤ)
    (hnonneg : ∀ p ∈ seqs.map UvmSequence.priority, 0 ≤ p) :
    (((List.range v.arbSequenceQ.length).map (weight getPriority v.arbSequenceQ)).sum : ℤ)
      ≤ (seqs.map UvmSequence.priority).sum := by
  set ps := seqs.map UvmSequence.priority
  have hget {e : SequenceRequest} (he : e ∈ v.arbSequenceQ) :
      ps.getD e.sequencePtr 0 = e.itemPriority := by
    rw [List.getD_eq_getElem?_getD, h.itemPriority he, Option.getD_some]
  have hweight : (List.range v.arbSequenceQ.length).map (weight getPriority v.arbSequenceQ)
      = (v.arbSequenceQ.map SequenceRequest.sequencePtr).map fun i => (ps.getD i 0).toNat := by
    refine List.ext_getElem (by simp) fun k hk hk' => ?_
    have hlt : k < v.arbSequenceQ.length := by simpa using hk
    have he : v.arbSequenceQ[k] ∈ v.arbSequenceQ := List.getElem_mem hlt
    have hne : v.arbSequenceQ[k].itemPriority ≠ -1 := by
      have := hnonneg _ (List.mem_of_getElem? (h.itemPriority he))
      omega
    have hat : requestAt v.arbSequenceQ k = v.arbSequenceQ[k] := by
      rw [requestAt, List.getD_eq_getElem?_getD, List.getElem?_eq_getElem hlt, Option.getD_some]
    simp only [List.getElem_map, List.getElem_range, weight, hat]
    rw [SequenceRequest.priority, if_pos hne, hget he]
  rw [hweight, ← sum_range_getD hnonneg]
  refine Int.ofNat_le.mpr (sum_map_le_range _ h.nodup fun i hi => ?_)
  obtain ⟨e, he, rfl⟩ := List.mem_map.mp hi
  exact (List.getElem?_eq_some_iff.mp (h.itemPriority he)).1

/-- **The reports of the arbitration** are about the priorities of the sequences. -/
theorem justified_of_arbitration (h : TurnInv turn v seqs d)
    (hnonneg : ∀ p ∈ seqs.map UvmSequence.priority, 0 ≤ p) {getPriority : ℕ → ℤ} {draw : ℕ}
    {r : UvmReport}
    (hchoice : chooseNextRequest mode (fun _ => true) getPriority draw v.arbSequenceQ = .error r) :
    r.Justified mode (seqs.map UvmSequence.priority) := by
  have hmem {k : ℕ} (hk : k ∈ availSequences (fun _ => true) v.arbSequenceQ) :
      requestAt v.arbSequenceQ k ∈ v.arbSequenceQ := by
    obtain ⟨e, he, -⟩ := mem_availSequences.mp hk
    rw [requestAt, List.getD_eq_getElem?_getD, he]
    exact List.mem_of_getElem? he
  have hne {e : SequenceRequest} (he : e ∈ v.arbSequenceQ) : e.itemPriority ≠ -1 := by
    have := hnonneg _ (List.mem_of_getElem? (h.itemPriority he))
    omega
  obtain ⟨hmode, ⟨k, hk, hr⟩ | ⟨rfl, hweighted, hlegal, havail, hsum⟩⟩ :=
    error_of_chooseNextRequest hchoice
  · have he := hmem hk
    rw [getSeqItemPriority, if_pos (hne he)] at hr
    split_ifs at hr with hle
    obtain rfl := Except.error.inj hr
    have hp := h.itemPriority he
    have hzero : (requestAt v.arbSequenceQ k).itemPriority = 0 :=
      le_antisymm hle (hnonneg _ (List.mem_of_getElem? hp))
    rw [hzero] at hp ⊢
    exact ⟨hmode, rfl, hp⟩
  · refine ⟨hweighted, ?_⟩
    rcases hsum with hzero | hlarge
    · obtain ⟨k, hk⟩ := List.exists_mem_of_ne_nil _ havail
      have hpos : 0 < weight getPriority v.arbSequenceQ k := by
        have hl := hlegal k hk
        rw [SequenceRequest.Legal, if_pos (hne (hmem hk))] at hl
        rw [weight, SequenceRequest.priority, if_pos (hne (hmem hk))]
        omega
      have hle : weight getPriority v.arbSequenceQ k ≤ _ :=
        List.le_sum_of_mem (List.mem_map_of_mem hk)
      omega
    · rw [availSequences_true] at hlarge
      refine le_trans ?_ (h.sum_weight_le getPriority hnonneg)
      exact_mod_cast hlarge

end TurnInv

end SinglePortRam
