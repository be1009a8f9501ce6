import SinglePortRam.Core.Interleaving
import SinglePortRam.Env.AbstractMemory
import SinglePortRam.Env.ResetLevels

/-!
# A reset beside the driver

The reset sequence sends no item, so the sequencer does not order it against the items of other
sequences.  Its body runs beside the driver: it raises `reset` right after some edge and lowers it a
hundred edges later, whatever the driver is doing then.

* `alongside_resetFrom` — every interleaving of the two comes to the driver under the levels of
  `reset`.
* **`completesUnderReset_iff`** — the runs in which every item has taken effect when the driver
  calls `item_done` for it.
* `completesUnderReset_of_apart` — a reset between the items does no harm.
-/

namespace SinglePortRam

open FourState Clocked LastWrite Proc VipState Testbench

variable {D A : ℕ} {P : RamParams}

/-! ## The reset sequence -/

/-- `body` of the reset sequence. -/
def resetBody : Proc (VipState D A) :=
  Proc.assign (setReset true) ++ idleCycles resetCycles ++ Proc.assign (setReset false)

lemma sequenceRun_reset (id : ℤ) :
    (sequenceRun id .reset : Proc (VipState D A))
      = Proc.assign (startSequence id) ++ resetBody ++ Proc.assign (exitSequence id) := by
  simp only [sequenceRun, resetBody, append_assoc]

/-- The reset sequence, begun in the slot after `start` edges. -/
def resetFrom (start : ℕ) : Proc (VipState D A) := idleCycles start ++ resetBody

/-- The level of `reset` in slot `k`, when the reset sequence has done its part of the slot. -/
def resetLevel (start k : ℕ) : Bool := decide (start ≤ k ∧ k < start + resetCycles)

/-- What is left of the reset sequence in slot `k`, when it has done its part of the slot. -/
def resetLeft (start k : ℕ) : Proc (VipState D A) :=
  if k < start then idleCycles (start - k) ++ resetBody
  else if k < start + resetCycles then
    idleCycles (start + resetCycles - k) ++ Proc.assign (setReset false)
  else halt

lemma resetLeft_before {start k n : ℕ} (h : start = k + (n + 1)) :
    (resetLeft start k : Proc (VipState D A)) = idleCycles (n + 1) ++ resetBody := by
  rw [resetLeft, if_pos (by omega), h, Nat.add_sub_cancel_left]

lemma resetLeft_during {start k n : ℕ} (hk : start ≤ k) (h : start + resetCycles = k + (n + 1)) :
    (resetLeft start k : Proc (VipState D A))
      = idleCycles (n + 1) ++ Proc.assign (setReset false) := by
  rw [resetLeft, if_neg (by omega), if_pos (by omega), h, Nat.add_sub_cancel_left]

lemma resetLeft_after {start k : ℕ} (h : start + resetCycles ≤ k) :
    (resetLeft start k : Proc (VipState D A)) = halt := by
  rw [resetLeft, if_neg (by omega), if_neg (by omega)]

lemma advance_idleCycles {c : Clock (VipState D A) (Testbench D A P)} {n : ℕ} (hn : 0 < n)
    (q : Proc (VipState D A)) (tb : Testbench D A P) :
    c.advance (idleCycles n ++ q) tb = (idleCycles n ++ q, tb) := by
  obtain ⟨k, rfl⟩ := Nat.exists_eq_succ_of_ne_zero hn.ne'
  rw [idleCycles_succ]
  rfl

lemma tick_idleCycles {c : Clock (VipState D A) (Testbench D A P)} (n : ℕ)
    (q : Proc (VipState D A)) (tb : Testbench D A P) :
    c.beside.tick (idleCycles (n + 1) ++ q, tb) = c.advance (idleCycles n ++ q) (c.tick tb) := by
  rw [idleCycles_succ]
  rfl

lemma advance_resetBody (tb : Testbench D A P) :
    (clock ramAlwaysFirst).advance resetBody tb
      = (idleCycles resetCycles ++ Proc.assign (setReset false), tb.assign (setReset true)) :=
  advance_idleCycles (by decide) _ _

lemma assign_setReset_self {b : Bool} {tb : Testbench D A P} (h : tb.vip.msRamIf.reset = b) :
    tb.assign (setReset b) = tb := by
  subst h
  rw [assign_of_reset_eq rfl]
  rfl

/-- The reset sequence begins with `reset` low. -/
lemma advance_resetFrom (start : ℕ) {tb : Testbench D A P} (h : tb.vip.msRamIf.reset = false) :
    (clock ramAlwaysFirst).advance (resetFrom start) tb
      = (resetLeft start 0, tb.assign (setReset (resetLevel start 0))) := by
  rw [resetFrom, resetLeft, resetLevel]
  cases start with
  | zero => exact advance_resetBody tb
  | succ n =>
      rw [advance_idleCycles (Nat.succ_pos n), if_pos (Nat.succ_pos n)]
      have hlow : decide (n + 1 ≤ 0 ∧ 0 < n + 1 + resetCycles) = false := by simp
      rw [hlow, assign_setReset_self h]
      rfl

/-- As long as the level stays the same, an edge is all that happens. -/
lemma tick_levelClock_of_eq {rst : ℕ → Bool} {tb : Testbench D A P}
    (h : tb.vip.msRamIf.reset = rst tb.edges) (hsame : rst (tb.edges + 1) = rst tb.edges) :
    (levelClock rst).tick tb = tb.tick ramAlwaysFirst := by
  have hreset : (tb.tick ramAlwaysFirst).vip.msRamIf.reset = rst (tb.edges + 1) :=
    h.trans hsame.symm
  exact assign_setReset_self hreset

lemma tick_idleCycles_succ (n : ℕ) (q : Proc (VipState D A)) (tb : Testbench D A P) :
    (clock ramAlwaysFirst).beside.tick (idleCycles (n + 2) ++ q, tb)
      = (idleCycles (n + 1) ++ q, tb.tick ramAlwaysFirst) := by
  rw [tick_idleCycles, advance_idleCycles (Nat.succ_pos n)]
  rfl

/-- From edge to edge, the reset sequence gives `reset` its level. -/
lemma tick_resetLeft (start : ℕ) {tb : Testbench D A P}
    (h : tb.vip.msRamIf.reset = resetLevel start tb.edges) :
    (clock ramAlwaysFirst).beside.tick (resetLeft start tb.edges, tb)
      = (resetLeft start (tb.edges + 1), (levelClock (resetLevel start)).tick tb) := by
  have hwait (hsame : resetLevel start (tb.edges + 1) = resetLevel start tb.edges) :=
    tick_levelClock_of_eq h hsame
  have htick : (levelClock (resetLevel start)).tick tb
      = (tb.tick ramAlwaysFirst).assign (setReset (resetLevel start (tb.edges + 1))) := rfl
  generalize tb.edges = k at hwait htick ⊢
  rcases lt_trichotomy (k + 1) start with hlt | rfl | hgt
  · -- before the reset
    obtain ⟨n, hn⟩ : ∃ n, start = k + (n + 2) := ⟨start - (k + 2), by omega⟩
    have hn' : start = k + 1 + (n + 1) := by omega
    rw [resetLeft_before hn, resetLeft_before hn', tick_idleCycles_succ, hwait]
    simp only [resetLevel, decide_eq_decide]
    omega
  · -- `reset` rises
    have hleft : resetLeft (D := D) (A := A) (k + 1) (k + 1)
        = idleCycles resetCycles ++ Proc.assign (setReset false) := resetLeft_during le_rfl rfl
    have hlevel : resetLevel (k + 1) (k + 1) = true := by simp [resetLevel, resetCycles]
    rw [resetLeft_before rfl, hleft, htick, hlevel, tick_idleCycles]
    exact advance_resetBody _
  rcases lt_trichotomy (k + 1) (start + resetCycles) with hlt' | heq | hgt'
  · -- `reset` stays high
    obtain ⟨n, hn⟩ : ∃ n, start + resetCycles = k + (n + 2) :=
      ⟨start + resetCycles - (k + 2), by omega⟩
    have hn' : start + resetCycles = k + 1 + (n + 1) := by omega
    rw [resetLeft_during (by omega) hn, resetLeft_during (by omega) hn', tick_idleCycles_succ,
      hwait]
    simp only [resetLevel, decide_eq_decide]
    omega
  · -- `reset` falls
    have hlevel : resetLevel start (k + 1) = false := by
      rw [resetLevel, decide_eq_false_iff_not]
      omega
    rw [resetLeft_during (by omega) (heq.symm : start + resetCycles = k + (0 + 1)),
      resetLeft_after heq.ge, htick, hlevel, tick_idleCycles]
    rfl
  · -- after the reset
    rw [resetLeft_after (by omega), resetLeft_after (by omega), hwait]
    · rfl
    · simp only [resetLevel, decide_eq_decide]
      omega

/-! ## Every interleaving -/

/-- The assignment has nothing to do with `reset`. -/
def KeepsReset (f : VipState D A → VipState D A) : Prop :=
  ∀ b s, f (setReset b s) = setReset b (f s)

lemma KeepsReset.reset_eq {f : VipState D A → VipState D A} (hf : KeepsReset f)
    (s : VipState D A) : (f s).msRamIf.reset = s.msRamIf.reset := by
  have h := hf s.msRamIf.reset s
  have hself : setReset s.msRamIf.reset s = s := rfl
  rw [hself] at h
  rw [h]
  rfl

/-- A change of `reset` and an assignment of the driver may come in any order. -/
lemma assign_setReset_comm {f : VipState D A → VipState D A} (hf : KeepsReset f) (b : Bool)
    (tb : Testbench D A P) :
    (tb.assign (setReset b)).assign f = (tb.assign f).assign (setReset b) := by
  rw [assign_of_reset_eq (hf.reset_eq _), assign_of_reset_eq (hf.reset_eq tb.vip)]
  simp only [Testbench.assign, ← hf b tb.vip, hf.reset_eq]
  cases b with
  | false => simp [setReset]
  | true =>
      have hrst (v : VipState D A) : (dutPorts P (setReset true v).msRamIf).rst = true := rfl
      rw [hf true tb.vip]
      cases tb.slot with
      | waiting => rfl
      | sampled r => simp only [BlkRam.always_of_rst (hrst _)]

lemma all_keepsReset_sendToIf (it : SequenceItem D A) :
    (Proc.assign (getNextItem it) ++ sendToIf it).All KeepsReset := by
  have htransfer : (transfer it).All KeepsReset := by
    refine (all_transfer it).mono ?_
    rintro f (⟨c, rfl⟩ | rfl)
    · exact fun _ _ => rfl
    · exact fun _ _ => rfl
  simp only [sendToIf, All_append, All_assign]
  exact ⟨fun _ _ => rfl, htransfer, fun _ _ => rfl⟩

lemma all_keepsReset_masterLoop (items : List (ℕ × SequenceItem D A)) :
    (masterLoop items).All KeepsReset := by
  induction items with
  | nil => trivial
  | cons x items ih =>
      have hsend := all_keepsReset_sendToIf x.2
      simp only [All_append, All_assign] at hsend
      simp only [masterLoop, driverIteration, All_append, All_assign]
      refine ⟨⟨all_idleCycles x.1, ⟨⟨hsend, ?_⟩, ?_⟩, ?_⟩, ih⟩
      · exact fun _ _ => rfl
      · exact fun _ _ => rfl
      · exact fun _ _ => rfl

lemma all_keepsReset_untilItemDone (pre : List (ℕ × SequenceItem D A)) (gap : ℕ)
    (it : SequenceItem D A) : (untilItemDone pre gap it).All KeepsReset := by
  rw [untilItemDone, All_append, All_append]
  exact ⟨⟨all_keepsReset_masterLoop pre, all_idleCycles gap⟩, all_keepsReset_sendToIf it⟩

/-- The assignments of the reset sequence. -/
def IsSetReset (f : VipState D A → VipState D A) : Prop := ∃ b, f = setReset b

lemma all_isSetReset_resetFrom (start : ℕ) :
    (resetFrom start).All (IsSetReset (D := D) (A := A)) := by
  simp only [resetFrom, resetBody, All_append, All_assign]
  exact ⟨all_idleCycles start, ⟨⟨true, rfl⟩, all_idleCycles resetCycles⟩, ⟨false, rfl⟩⟩

/-- The canonical interleaving is the driver under the levels of `reset`. -/
lemma run_beside_resetLeft (start : ℕ) :
    ∀ {p : Proc (VipState D A)}, p.All KeepsReset → ∀ (tb : Testbench D A P),
      tb.vip.msRamIf.reset = resetLevel start tb.edges →
      (clock ramAlwaysFirst).beside.run p (resetLeft start tb.edges, tb)
        = (resetLeft start ((levelClock (resetLevel start)).run p tb).edges,
            (levelClock (resetLevel start)).run p tb)
  | halt, _, _, _ => rfl
  | .step f p, hp, tb, h => by
      have hassign : (clock ramAlwaysFirst).beside.assign f (resetLeft start tb.edges, tb)
          = (resetLeft start (tb.assign f).edges, tb.assign f) := rfl
      rw [Clock.run_step, Clock.run_step, hassign]
      exact run_beside_resetLeft start (p := p) hp.2 _ ((hp.1.reset_eq tb.vip).trans h)
  | .wait p, hp, tb, h => by
      have hedges : ((levelClock (resetLevel start)).tick tb).edges = tb.edges + 1 := rfl
      rw [Clock.run_wait, Clock.run_wait, tick_resetLeft start h, ← hedges]
      exact run_beside_resetLeft start (p := p) hp _ rfl

/-- **Every interleaving of a reset and the driver** comes to the driver under the levels of
`reset`, up to what the reset sequence has still to do in the last slot. -/
theorem alongside_resetFrom (ram : BlkRam P) {start : ℕ} {p q : Proc (VipState D A)}
    (hp : p.All KeepsReset) {tb : Testbench D A P}
    (h : Alongside (clock ramAlwaysFirst) (resetFrom start) p (init D A ram) q tb) :
    ((clock ramAlwaysFirst).advance q tb).2
      = (levelClock (resetLevel start)).run p
          ((init D A ram).assign (setReset (resetLevel start 0))) := by
  have hcomm (f g : VipState D A → VipState D A) (hf : KeepsReset f) (hg : IsSetReset g)
      (s : Testbench D A P) : (s.assign g).assign f = (s.assign f).assign g := by
    obtain ⟨b, rfl⟩ := hg
    exact assign_setReset_comm hf b s
  have hrun := h.run_beside hcomm hp (all_isSetReset_resetFrom start)
  rw [advance_resetFrom start rfl] at hrun
  rw [← hrun]
  exact congrArg Prod.snd (run_beside_resetLeft start hp
    ((init D A ram).assign (setReset (resetLevel start 0))) rfl)

/-- In every slot the RAM has sampled before the two processes go on. -/
lemma exists_sampled_of_alongside {ram : BlkRam P} {start : ℕ} {p q : Proc (VipState D A)}
    (hp : p.All KeepsReset) {tb : Testbench D A P}
    (h : Alongside (clock ramAlwaysFirst) (resetFrom start) p (init D A ram) q tb) :
    ∃ r, tb.slot = .sampled r := by
  refine h.invariant (I := fun tb' : Testbench D A P => ∃ r, tb'.slot = .sampled r)
    (P := KeepsReset) ?_ ?_ (fun _ _ => ⟨_, rfl⟩) hp (all_isSetReset_resetFrom start) ⟨ram, rfl⟩
  · rintro f hf s ⟨r, hr⟩
    have hassign : (clock ramAlwaysFirst).assign f s = { s with vip := f s.vip } :=
      assign_of_reset_eq (hf.reset_eq s.vip)
    rw [hassign]
    exact ⟨r, hr⟩
  · rintro f ⟨b, rfl⟩ s ⟨r, hr⟩
    exact ⟨_, assign_setReset_of_sampled hr⟩

/-- Changes of `reset` touch neither the array nor the item. -/
lemma advance_of_isSetReset {q : Proc (VipState D A)} (hq : q.All IsSetReset) {r : BlkRam P}
    {tb : Testbench D A P} (hr : tb.slot = .sampled r) :
    ((clock ramAlwaysFirst).advance q tb).2.mem = tb.mem ∧
    ((clock ramAlwaysFirst).advance q tb).2.vip.reqItem = tb.vip.reqItem := by
  have hkept : (∃ r', ((clock ramAlwaysFirst).advance q tb).2.slot = .sampled r' ∧
      r'.mem = r.mem) ∧
      ((clock ramAlwaysFirst).advance q tb).2.vip.reqItem = tb.vip.reqItem := by
    refine Clock.advance_invariant (c := clock ramAlwaysFirst)
      (I := fun tb' : Testbench D A P => (∃ r', tb'.slot = .sampled r' ∧ r'.mem = r.mem) ∧
        tb'.vip.reqItem = tb.vip.reqItem) ?_ hq ⟨⟨r, hr, rfl⟩, rfl⟩
    rintro f ⟨b, rfl⟩ s ⟨⟨r', hr', hmem⟩, hreq⟩
    refine ⟨⟨_, assign_setReset_of_sampled hr', ?_⟩, hreq⟩
    split_ifs
    · exact hmem
    · exact hmem
  obtain ⟨⟨r', hr', hmem⟩, hreq⟩ := hkept
  refine ⟨?_, hreq⟩
  rw [mem, mem, settledRam, settledRam, hr, hr']
  exact hmem

/-- The array and the item are those of the driver under the levels of `reset`. -/
lemma alongside_resetFrom_eq (ram : BlkRam P) {start : ℕ} {p q : Proc (VipState D A)}
    (hp : p.All KeepsReset) {tb : Testbench D A P}
    (h : Alongside (clock ramAlwaysFirst) (resetFrom start) p (init D A ram) q tb) :
    tb.mem = ((levelClock (resetLevel start)).run p
        ((init D A ram).assign (setReset (resetLevel start 0)))).mem ∧
    tb.vip.reqItem = ((levelClock (resetLevel start)).run p
        ((init D A ram).assign (setReset (resetLevel start 0)))).vip.reqItem := by
  obtain ⟨r, hr⟩ := exists_sampled_of_alongside hp h
  obtain ⟨hmem, hreq⟩ := advance_of_isSetReset (h.all (all_isSetReset_resetFrom start)) hr
  rw [← alongside_resetFrom ram hp h]
  exact ⟨hmem.symm, hreq.symm⟩

/-! ## Completed items -/

/-- The item has taken effect: the elements of a `WRITE` are stored, a later one of them over an
earlier one at the same address, and the data of a `READ` are the words at its addresses. -/
def Completed (it : SequenceItem D A) (tb : Testbench D A (fittingParams D A)) : Prop :=
  match it.transType with
  | .WRITE => ∀ a d, lastWrite it.elements a = some d → absMem tb.mem a = LogicVec.ofBits d
  | .READ =>
      tb.vip.reqItem.transDatao
        = it.transDatao ++ it.transAddr.map fun a => (absMem tb.mem a).toBits

/-- Whenever the driver calls `item_done` for one of the items, in any interleaving with a reset
sequence that begins after `start` edges, the item has taken effect. -/
def CompletesUnderReset (start : ℕ) (ram : BlkRam (fittingParams D A))
    (items : List (ℕ × Burst D A)) : Prop :=
  ∀ pre x post, items = pre ++ x :: post →
    ∀ q tb, Alongside (clock ramAlwaysFirst) (resetFrom start)
      (untilItemDone (handed pre) x.1 x.2.item) (init D A ram) q tb → Completed x.2.item tb

/-- The reset does not show in an item that starts in slot `t` with the memory `m`.  An element of a
`WRITE` that falls on an edge under reset, and is not overwritten by a later one, is there already:
the last element before it at the address that is not under reset has the same datum, or there is
none and the memory has it.  A word of a `READ` that is lost reads as `0` anyway. -/
def SparedItem (rst : ℕ → Bool) (t : ℕ) (m : AbstractMemory D A) (it : SequenceItem D A) : Prop :=
  match it.transType with
  | .WRITE =>
      ∀ pre x post, it.elements.zipIdx (t + 1) = pre ++ x :: post → rst x.2 = true →
        (∀ y ∈ post, y.1.1 ≠ x.1.1) →
          ((lastWrite ((pre.filter fun y => !rst y.2).map Prod.fst) x.1.1).map
            LogicVec.ofBits).getD (m x.1.1) = LogicVec.ofBits x.1.2
  | .READ =>
      ∀ x ∈ it.elements.zipIdx (t + 1), lostRead rst x.2 = true → (m x.1.1).toBits = 0#D

/-- The reset does not show in any of a list of items, the first of which can start in slot `t`. -/
def SparedAll (rst : ℕ → Bool) :
    ℕ → RamWords (fittingParams D A) → List (ℕ × Burst D A) → Prop
  | _, _, [] => True
  | t, m, x :: items =>
      SparedItem rst (t + x.1) (absMem m) x.2.item ∧
        SparedAll rst (t + x.1 + (sendToIf x.2.item).edges) (memUnder rst (t + x.1) m x.2.item)
          items

lemma sparedAll_iff {rst : ℕ → Bool} {t : ℕ} {m : RamWords (fittingParams D A)}
    {items : List (ℕ × Burst D A)} :
    SparedAll rst t m items ↔
      ∀ pre x post, items = pre ++ x :: post →
        SparedItem rst (t + (masterLoop (handed pre)).edges + x.1)
          (absMem (memUnderAll rst t m (handed pre))) x.2.item := by
  induction items generalizing t m with
  | nil => simp [SparedAll]
  | cons y items ih =>
      have hcons (pre : List (ℕ × Burst D A)) :
          t + (masterLoop (handed (y :: pre))).edges
            = t + y.1 + (sendToIf y.2.item).edges + (masterLoop (handed pre)).edges := by
        simp only [handed_cons, masterLoop, driverIteration, edges_append, edges_idleCycles,
          edges_assign]
        omega
      rw [SparedAll, ih]
      constructor
      · rintro ⟨hy, hrest⟩ pre x post hsplit
        cases pre with
        | nil =>
            obtain ⟨rfl, rfl⟩ := List.cons.inj hsplit
            exact hy
        | cons z pre =>
            obtain ⟨rfl, hitems⟩ := List.cons.inj hsplit
            rw [hcons]
            exact hrest pre x post hitems
      · intro h
        refine ⟨h [] y items rfl, ?_⟩
        intro pre x post hsplit
        have hx := h (y :: pre) x post (congrArg (List.cons y) hsplit)
        rw [hcons] at hx
        exact hx

/-- What is left of a `WRITE` stores all its elements exactly if the reset does not show. -/
lemma stored_keptElems_iff {rst : ℕ → Bool} {t : ℕ} {m : RamWords (fittingParams D A)}
    {es : List (BitVec A × BitVec D)} :
    (∀ a d, lastWrite es a = some d →
        absMem (storeElems m (keptElems rst t es)) a = LogicVec.ofBits d) ↔
      ∀ pre x post, es.zipIdx t = pre ++ x :: post → rst x.2 = true →
        (∀ y ∈ post, y.1.1 ≠ x.1.1) →
          ((lastWrite ((pre.filter fun y => !rst y.2).map Prod.fst) x.1.1).map
            LogicVec.ofBits).getD (absMem m x.1.1) = LogicVec.ofBits x.1.2 := by
  have hlost := lastWrite_filter_iff (fun y : (BitVec A × BitVec D) × ℕ => !rst y.2)
    LogicVec.ofBits (absMem m) (es.zipIdx t)
  simp only [List.zipIdx_map_fst, Bool.not_eq_false'] at hlost
  rw [← hlost]
  simp only [absMem_storeElems_apply, keptElems]

/-- A `READ` pushes the words at its addresses exactly if the reset does not show. -/
lemma readElems_eq_iff {rst : ℕ → Bool} {t : ℕ} {m : RamWords (fittingParams D A)}
    {es : List (BitVec A × BitVec D)} :
    readElems rst m t es = (es.map Prod.fst).map (fun a => (absMem m a).toBits) ↔
      ∀ x ∈ es.zipIdx t, lostRead rst x.2 = true → (absMem m x.1.1).toBits = 0#D := by
  have hwords : (es.map Prod.fst).map (fun a => (absMem m a).toBits)
      = (es.zipIdx t).map fun x => (absMem m x.1.1).toBits := by
    rw [← List.zipIdx_map_fst t es, List.map_map, List.map_map, List.zipIdx_map_fst]
    rfl
  rw [hwords, readElems, List.map_inj_left]
  refine forall₂_congr ?_
  intro x _
  have hread : readBits m x.1 = (absMem m x.1.1).toBits :=
    congrArg LogicVec.toBits (loadElem_fitting m x.1)
  rw [hread]
  cases lostRead rst x.2 with
  | false => simp
  | true => simp [eq_comm]

/-- An item has taken effect exactly if the reset does not show in it. -/
lemma completed_iff {rst : ℕ → Bool} {t : ℕ} {m : RamWords (fittingParams D A)} (b : Burst D A)
    {tb : Testbench D A (fittingParams D A)} (hmem : tb.mem = memUnder rst t m b.item)
    (hreq : tb.vip.reqItem = b.item.pushDatao (dataUnder rst t m b.item)) :
    Completed b.item tb ↔ SparedItem rst t (absMem m) b.item := by
  rw [Completed, SparedItem, hmem, hreq]
  cases hb : b.item.transType with
  | WRITE =>
      simp only [memUnder, hb]
      exact stored_keptElems_iff
  | READ =>
      simp only [memUnder, dataUnder, hb, SequenceItem.pushDatao, List.append_cancel_left_eq]
      rw [← b.map_fst_elements]
      exact readElems_eq_iff

/-- In the first slot nothing is on the bus. -/
lemma unwritten_init (ram : BlkRam P) (rst : ℕ → Bool) :
    ∃ r, Unwritten rst r ((init D A ram).assign (setReset (rst 0))) ∧ r.mem = ram.mem := by
  refine ⟨_, ⟨⟨rfl, assign_setReset_of_sampled rfl⟩, rfl⟩, ?_⟩
  split_ifs <;> rfl

/-- In every interleaving an item has taken effect at its `item_done` exactly if the reset does not
show in it. -/
lemma completed_alongside_iff {start : ℕ} {ram : BlkRam (fittingParams D A)}
    {pre : List (ℕ × Burst D A)} {x : ℕ × Burst D A} {q : Proc (VipState D A)}
    {tb : Testbench D A (fittingParams D A)}
    (h : Alongside (clock ramAlwaysFirst) (resetFrom start)
      (untilItemDone (handed pre) x.1 x.2.item) (init D A ram) q tb) :
    Completed x.2.item tb ↔
      SparedItem (resetLevel start) (0 + (masterLoop (handed pre)).edges + x.1)
        (absMem (memUnderAll (resetLevel start) 0 ram.mem (handed pre))) x.2.item := by
  obtain ⟨hmem, hreq⟩ := alongside_resetFrom_eq ram (all_keepsReset_untilItemDone _ _ _) h
  obtain ⟨r, hr, hram⟩ := unwritten_init (D := D) (A := A) ram (resetLevel start)
  obtain ⟨hmem', hreq'⟩ := run_untilItemDone (handed pre) x.1 x.2.item hr
  rw [hram] at hmem' hreq'
  exact completed_iff x.2 (hmem.trans hmem') (hreq.trans hreq')

/-- **Every item has taken effect when the driver calls `item_done` for it**, in every interleaving
with a reset, exactly if the reset does not show in any of them. -/
theorem completesUnderReset_iff (start : ℕ) (ram : BlkRam (fittingParams D A))
    (items : List (ℕ × Burst D A)) :
    CompletesUnderReset start ram items ↔ SparedAll (resetLevel start) 0 ram.mem items := by
  rw [sparedAll_iff]
  constructor
  · intro h pre x post hitems
    obtain ⟨q, tb, hrun⟩ := exists_alongside (clock ramAlwaysFirst) (resetFrom start)
      (untilItemDone (handed pre) x.1 x.2.item) (init D A ram)
    exact (completed_alongside_iff hrun).mp (h pre x post hitems q tb hrun)
  · intro h pre x post hitems q tb hrun
    exact (completed_alongside_iff hrun).mpr (h pre x post hitems)

/-- A `WRITE` of one element is lost when `reset` rises right after the first edge. -/
theorem write_lost_under_reset :
    ¬ CompletesUnderReset (D := 16) (A := 8) 1 ⟨.ofBits 0, fun _ => .ofBits 0⟩
      [(0, ⟨{ transType := .WRITE, transLength := 1, transAddr := [3], transDatai := [7] },
        rfl, rfl⟩)] := by
  intro h
  obtain ⟨q, tb, hrun⟩ := exists_alongside (clock ramAlwaysFirst) (resetFrom 1)
    (untilItemDone (handed []) 0 _) (init 16 8 ⟨.ofBits 0, fun _ => .ofBits 0⟩)
  have hspared := (completed_alongside_iff hrun).mp (h [] _ [] rfl q tb hrun)
  have hword := hspared [] ((3, 7), 1) [] rfl (by decide) (by simp)
  exact absurd hword (by decide)

/-! ## A reset between the items -/

/-- The item that starts in slot `t` is done when `reset` rises, or drives its first element when
`reset` is low again. -/
def ApartFromReset (start t : ℕ) (it : SequenceItem D A) : Prop :=
  t + (sendToIf it).edges ≤ start ∨ start + resetCycles ≤ t + 1

lemma sparedItem_of_apart {start t : ℕ} {m : AbstractMemory D A} {it : SequenceItem D A}
    (h : ApartFromReset start t it) : SparedItem (resetLevel start) t m it := by
  have hlen := it.length_elements
  rw [ApartFromReset, edges_sendToIf, SequenceItem.serviceEdges, itemEdges] at h
  rw [SparedItem]
  cases hit : it.transType with
  | WRITE =>
      intro pre x post hsplit hx
      have hmem : x ∈ it.elements.zipIdx (t + 1) := by rw [hsplit]; simp
      have hlow := List.le_snd_of_mem_zipIdx hmem
      have hhigh := List.snd_lt_add_of_mem_zipIdx hmem
      rw [hit, if_neg (by decide)] at h
      rw [resetLevel, decide_eq_true_iff] at hx
      omega
  | READ =>
      intro x hmem hx
      have hlow := List.le_snd_of_mem_zipIdx hmem
      have hhigh := List.snd_lt_add_of_mem_zipIdx hmem
      rw [hit, if_pos rfl] at h
      rw [lostRead, Bool.or_eq_true, resetLevel, resetLevel, decide_eq_true_iff,
        decide_eq_true_iff] at hx
      omega

/-- **A reset between the items**, or before or after all of them, leaves every item its effect. -/
theorem completesUnderReset_of_apart {start : ℕ} {ram : BlkRam (fittingParams D A)}
    {items : List (ℕ × Burst D A)}
    (h : ∀ pre x post, items = pre ++ x :: post →
      ApartFromReset start ((masterLoop (handed pre)).edges + x.1) x.2.item) :
    CompletesUnderReset start ram items := by
  intro pre x post hitems q tb hrun
  have hapart := h pre x post hitems
  rw [← Nat.zero_add (masterLoop (handed pre)).edges] at hapart
  exact (completed_alongside_iff hrun).mpr (sparedItem_of_apart hapart)

end SinglePortRam
