import SinglePortRam.Env.AbstractMemory

/-!
# What a target on the bus sees

The cycles the driver leaves on the bus, one for every edge.  A `WRITE` clears the input signals at
the edge that ends its last element.  A `READ` clears them after the join, and the capture loop
goes on for an edge after the address loop, so its last request stays on the bus for two cycles.

* `Drives` — a small proof system for the cycles a process leaves on the bus, with one rule for
  each kind of instruction; sequential composition and `fork` follow.
* `drives_masterLoop` — the cycles of a list of items.
* **`requestedOnce_iff`** — the lists of items every element of which is requested exactly once.
-/

namespace SinglePortRam

open FourState Clocked Proc VipState Testbench

variable {D A : ℕ} {P : RamParams}

/-! ## The cycles of a process -/

/-- The assignment does not drive the bus. -/
def KeepsBus (f : VipState D A → VipState D A) : Prop :=
  ∀ s, (f s).msRamIf.bus = s.msRamIf.bus

/-- `Drives p c l d`: started with the cycle `c` on the bus, the process `p` leaves the cycles `l`
for the edges it waits for, and the cycle `d` when it ends. -/
inductive Drives : Proc (VipState D A) → BusCycle D A → List (BusCycle D A) →
    BusCycle D A → Prop where
  | halt {c} : Drives halt c [] c
  | drive {p c c' l d} (h : Drives p c' l d) : Drives (step (drive c') p) c l d
  | keep {f p c l d} (hf : KeepsBus f) (h : Drives p c l d) : Drives (step f p) c l d
  | edge {p c l d} (h : Drives p c l d) : Drives (wait p) c (c :: l) d

/-- The proof system is sound for the testbench, whatever the schedule. -/
theorem Drives.busLog (sched : ℕ → EdgeOrder) {p : Proc (VipState D A)}
    {c d : BusCycle D A} {l : List (BusCycle D A)} (h : Drives p c l d)
    (tb : Testbench D A P) (hc : tb.vip.msRamIf.bus = c) :
    (simulate sched p tb).busLog = tb.busLog ++ l ∧
    (simulate sched p tb).vip.msRamIf.bus = d := by
  induction h generalizing tb with
  | halt => exact ⟨(List.append_nil _).symm, hc⟩
  | drive _ ih => exact ih _ rfl
  | keep hf _ ih => exact ih _ ((hf tb.vip).trans hc)
  | edge _ ih =>
      obtain ⟨hlog, hbus⟩ := ih (tb.tick sched) hc
      refine ⟨hlog.trans ?_, hbus⟩
      show tb.busLog ++ [tb.vip.msRamIf.bus] ++ _ = _
      rw [hc, List.append_assoc, List.singleton_append]

lemma Drives.append {p q : Proc (VipState D A)} {c d e : BusCycle D A}
    {l k : List (BusCycle D A)} (hp : Drives p c l d) (hq : Drives q d k e) :
    Drives (p ++ q) c (l ++ k) e := by
  induction hp with
  | halt => exact hq
  | drive _ ih => exact .drive (ih hq)
  | keep hf _ ih => exact .keep hf (ih hq)
  | edge _ ih => exact .edge (ih hq)

lemma drives_of_all_keepsBus {p : Proc (VipState D A)} (hp : p.All KeepsBus)
    (c : BusCycle D A) : Drives p c (List.replicate p.edges c) c := by
  induction p with
  | halt => exact .halt
  | step f p ih => exact .keep hp.1 (ih hp.2)
  | wait p ih => exact .edge (ih hp)

/-- A second thread that does not drive the bus can only keep the last cycle on it for longer. -/
theorem Drives.fork {p q : Proc (VipState D A)} {c d : BusCycle D A}
    {l : List (BusCycle D A)} (hp : Drives p c l d) (hq : q.All KeepsBus) :
    Drives (fork p q) c (l ++ List.replicate (q.edges - p.edges) d) d := by
  induction hp generalizing q with
  | halt => exact drives_of_all_keepsBus hq _
  | drive _ ih => exact .drive (ih hq)
  | keep hf _ ih => exact .keep hf (ih hq)
  | @edge p c l d h ih =>
      induction q with
      | halt => simpa using h.edge
      | step g q ihq => exact .keep hq.1 (ihq hq.2)
      | wait q _ => simpa using (ih (q := q) hq).edge

/-! ## The cycles of an item -/

/-- The level of `bram_wen` an item asks for. -/
def TransactionType.wen : TransactionType → Bool
  | .WRITE => true
  | .READ => false

/-- The cycles that request the elements of an item. -/
def SequenceItem.requests (it : SequenceItem D A) : List (BusCycle D A) :=
  it.elements.map (.request it.transType.wen)

/-- The cycles between the first edge of an item and its end. -/
def SequenceItem.cycles (it : SequenceItem D A) : List (BusCycle D A) :=
  match it.transType with
  | .WRITE => it.requests
  | .READ => it.requests ++ [it.requests.getLastD (.idle D A)]

lemma drives_requestLoop (it : SequenceItem D A) (wen : Bool) (i m : ℕ) (c : BusCycle D A) :
    Drives (requestLoop it wen i m) c ((it.elementsFrom i m).map (.request wen))
      (((it.elementsFrom i m).map (.request wen)).getLastD c) := by
  induction m generalizing i c with
  | zero => exact .halt
  | succ m ih =>
      rw [requestLoop_succ, SequenceItem.elementsFrom_succ, List.map_cons, List.getLastD_cons]
      exact .drive (.edge (ih (i + 1) _))

lemma keepsBus_captureLoop (j m : ℕ) :
    (captureLoop (D := D) (A := A) j m).All KeepsBus :=
  All_forFrom (fun _ => All_append.mpr ⟨All_posedge, All_assign.mpr fun _ => rfl⟩) j m

lemma edges_captureLoop_sub (it : SequenceItem D A) :
    (wait (captureLoop 0 it.transLength.toNat) : Proc (VipState D A)).edges
      - (requestLoop it false 0 it.transLength.toNat).edges = 1 := by
  rw [edges_wait, edges_captureLoop, edges_requestLoop]
  omega

/-- The cycles of one item that finds the bus cleared: the one in which its first edge arrives, and
then its own. -/
theorem drives_transfer (it : SequenceItem D A) :
    Drives (transfer it) (.idle D A) (.idle D A :: it.cycles) (.idle D A) := by
  have hidle (c : BusCycle D A) : Drives (assign (drive (.idle D A))) c [] (.idle D A) :=
    .drive .halt
  cases hit : it.transType with
  | WRITE =>
      have hloop := drives_requestLoop it true 0 it.transLength.toNat (.idle D A)
      have hall := Drives.edge (c := .idle D A) (hloop.append (hidle _))
      simpa [transfer, SequenceItem.cycles, SequenceItem.requests, SequenceItem.elements, hit,
        TransactionType.wen] using hall
  | READ =>
      have hloop := (drives_requestLoop it false 0 it.transLength.toNat (.idle D A)).fork
        (q := wait (captureLoop 0 it.transLength.toNat)) (keepsBus_captureLoop 0 _)
      rw [edges_captureLoop_sub] at hloop
      have hall := Drives.edge (c := .idle D A) (hloop.append (hidle _))
      simpa [transfer, SequenceItem.cycles, SequenceItem.requests, SequenceItem.elements, hit,
        TransactionType.wen] using hall

lemma drives_driverIteration (it : SequenceItem D A) :
    Drives (driverIteration it) (.idle D A) (.idle D A :: it.cycles) (.idle D A) := by
  have hkeep {f : VipState D A → VipState D A} (hf : KeepsBus f) (c : BusCycle D A) :
      Drives (assign f) c [] c := .keep hf .halt
  have hget : KeepsBus (getNextItem it) := fun _ => rfl
  have hcopy : KeepsBus (copyResponse (D := D) (A := A)) := fun _ => rfl
  have hdone : KeepsBus (itemDone (D := D) (A := A)) := fun _ => rfl
  have hids : KeepsBus (setIdInfo (D := D) (A := A)) := fun _ => rfl
  have hput : KeepsBus (putResponse (D := D) (A := A)) := fun _ => rfl
  have hsend := (drives_transfer it).append (hkeep hcopy _)
  simpa [driverIteration, sendToIf] using
    ((((hkeep hget _).append hsend).append (hkeep hdone _)).append (hkeep hids _)).append
      (hkeep hput _)

/-- The cycles of a list of items, each with the idle cycles before it. -/
def busTrace (items : List (ℕ × SequenceItem D A)) : List (BusCycle D A) :=
  items.flatMap fun x => List.replicate x.1 (.idle D A) ++ .idle D A :: x.2.cycles

lemma busTrace_append (xs ys : List (ℕ × SequenceItem D A)) :
    busTrace (xs ++ ys) = busTrace xs ++ busTrace ys := List.flatMap_append

theorem drives_masterLoop (items : List (ℕ × SequenceItem D A)) :
    Drives (masterLoop items) (.idle D A) (busTrace items) (.idle D A) := by
  induction items with
  | nil => exact .halt
  | cons x items ih =>
      have hgap := drives_of_all_keepsBus (p := idleCycles (D := D) (A := A) x.1)
        (all_idleCycles _) (.idle D A)
      rw [edges_idleCycles] at hgap
      exact (hgap.append (drives_driverIteration x.2)).append ih

/-- **The cycles of a list of items**, as the testbench logs them. -/
theorem busLog_masterLoop (sched : ℕ → EdgeOrder) (items : List (ℕ × SequenceItem D A))
    (ram : BlkRam P) :
    (simulate sched (masterLoop items) (init D A ram)).busLog = busTrace items :=
  ((drives_masterLoop items).busLog sched (init D A ram) rfl).1

/-! ## Each element exactly once -/

/-- The enabled cycles of an item that its elements do not account for: a `READ` that is not empty
has one. -/
def SequenceItem.surplus (it : SequenceItem D A) : List (BusCycle D A) :=
  match it.transType with
  | .WRITE => []
  | .READ => it.requests.getLast?.toList

lemma SequenceItem.requests_of_write {it : SequenceItem D A} (h : it.transType = .WRITE) :
    it.requests = it.elements.map (.request true) := by
  rw [SequenceItem.requests, h]
  rfl

lemma SequenceItem.bramEn_of_mem_requests {it : SequenceItem D A} {c : BusCycle D A}
    (hc : c ∈ it.requests) : c.bramEn = true := by
  obtain ⟨e, -, rfl⟩ := List.mem_map.mp hc
  rfl

lemma filter_cycles (it : SequenceItem D A) :
    it.cycles.filter BusCycle.bramEn = it.requests ++ it.surplus := by
  have hreq : it.requests.filter BusCycle.bramEn = it.requests :=
    List.filter_eq_self.mpr fun _ => it.bramEn_of_mem_requests
  have hlast : [it.requests.getLastD (.idle D A)].filter BusCycle.bramEn
      = it.requests.getLast?.toList := by
    rw [List.getLastD_eq_getLast?]
    cases hl : it.requests.getLast? with
    | none => rfl
    | some c => simp [it.bramEn_of_mem_requests (List.mem_of_getLast? hl)]
  rw [SequenceItem.cycles, SequenceItem.surplus]
  cases it.transType with
  | WRITE => rw [hreq, List.append_nil]
  | READ => rw [List.filter_append, hreq, hlast]

lemma SequenceItem.surplus_eq_nil_iff (it : SequenceItem D A) :
    it.surplus = [] ↔ (it.transType = .READ → it.transLength = 0#D) := by
  have hlen : it.requests = [] ↔ it.transLength = 0#D := by
    rw [← List.length_eq_zero_iff, SequenceItem.requests, List.length_map, length_elements,
      BitVec.toNat_eq, BitVec.toNat_ofNat, Nat.zero_mod]
  rw [SequenceItem.surplus]
  cases it.transType with
  | WRITE => simp
  | READ => simp [hlen]

lemma filter_busTrace (items : List (ℕ × SequenceItem D A)) :
    (busTrace items).filter BusCycle.bramEn
      = items.flatMap fun x => x.2.requests ++ x.2.surplus := by
  rw [busTrace, List.filter_flatMap]
  congr 1
  funext x
  simp [List.filter_append, filter_cycles]

lemma filter_busTrace_eq_iff (items : List (ℕ × SequenceItem D A)) :
    (busTrace items).filter BusCycle.bramEn = items.flatMap (fun x => x.2.requests) ↔
      ∀ x ∈ items, x.2.surplus = [] := by
  rw [filter_busTrace]
  constructor
  · intro h x hx
    have hlen := congrArg List.length h
    simp only [List.length_flatMap, List.length_append, List.sum_map_add] at hlen
    have hsum : (items.map fun x => x.2.surplus.length).sum = 0 := by omega
    exact List.length_eq_zero_iff.mp
      (List.sum_eq_zero_iff.mp hsum _ (List.mem_map_of_mem hx))
  · intro h
    exact List.flatMap_congr fun x hx => by rw [h x hx, List.append_nil]

/-- The testbench requests each element of the items exactly once: the enabled cycles at successive
edges are the elements of the items, and the first edge after an item finds the bus idle. -/
def RequestedOnce (ram : BlkRam P) (items : List (ℕ × Burst D A)) : Prop :=
  let log (items : List (ℕ × Burst D A)) : List (BusCycle D A) :=
    (simulate ramAlwaysFirst (masterLoop (handed items)) (init D A ram)).busLog
  (log items).filter BusCycle.bramEn
      = items.flatMap (fun x => (x.2.item.transAddr.zip x.2.item.transDatai).map
          (.request x.2.item.transType.wen)) ∧
    ∀ i, 0 < i → i < items.length →
      ∃ c rest, log items = log (items.take i) ++ c :: rest ∧ c.bramEn = false

/-- **Each element exactly once, if no `READ` asks for anything.**  A `READ` that is not empty
leaves its last request on the bus for a second cycle. -/
theorem requestedOnce_iff (ram : BlkRam P) (items : List (ℕ × Burst D A)) :
    RequestedOnce ram items ↔
      ∀ x ∈ items, x.2.item.transType = .READ → x.2.item.transLength = 0#D := by
  have hreq : items.flatMap (fun x => (x.2.item.transAddr.zip x.2.item.transDatai).map
      (BusCycle.request x.2.item.transType.wen))
      = (handed items).flatMap fun x => x.2.requests := by
    rw [handed, List.flatMap_map]
    congr 1
    funext x
    rw [SequenceItem.requests, x.2.elements_eq]
  have hgap : ∀ i, 0 < i → i < items.length → ∃ c rest,
      busTrace (handed items) = busTrace (handed (items.take i)) ++ c :: rest ∧
        c.bramEn = false := by
    intro i _ hi
    have hsplit : handed items = handed (items.take i) ++
        (items[i].1, items[i].2.item) :: handed (items.drop (i + 1)) := by
      conv_lhs => rw [← List.take_append_drop i items, List.drop_eq_getElem_cons hi]
      exact List.map_append
    rw [hsplit, busTrace_append]
    cases hn : items[i].1 with
    | zero => exact ⟨.idle D A, _, rfl, rfl⟩
    | succ n => exact ⟨.idle D A, _, rfl, rfl⟩
  simp only [RequestedOnce, busLog_masterLoop]
  rw [hreq, filter_busTrace_eq_iff, and_iff_left hgap, handed, List.forall_mem_map]
  simp only [SequenceItem.surplus_eq_nil_iff]

/-- A `READ` of a single element requests it in two cycles. -/
theorem read_requested_twice :
    ¬ RequestedOnce (D := 16) (A := 8) (P := dutParams) ⟨.ofBits 0, fun _ => .ofBits 0⟩
      [(0, ⟨{ transType := .READ, transLength := 1, transAddr := [3], transDatai := [0] },
        rfl, rfl⟩)] := by
  intro h
  exact absurd h.1 (by decide)

end SinglePortRam
