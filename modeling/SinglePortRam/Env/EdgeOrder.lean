import SinglePortRam.Env.AbstractMemory

/-!
# Schedules that do not matter

The driver assigns the interface with blocking assignments right after `@(posedge clk)`, so whether
the RAM samples the bus before or after them is up to the simulator.  A schedule in which the RAM
always goes first is the one the driver is written for.

* `Harmless` — what another schedule has to satisfy on the edges of an item.  In a `WRITE` the order
  may change from the driver first to the RAM first, which stores an element twice, but not back,
  which skips one.  In a `READ` the RAM has to go first at every edge at which an address is
  replaced by the next one.
* `sameAfter_of_harmlessAll` — then the outcome is the one for which the driver is written.
* **`edgeOrderIndependent_iff`** — and nothing less will do: any other schedule makes a difference
  for some memory and some data.
-/

namespace SinglePortRam

open FourState Clocked LastWrite Testbench

variable {D A : ℕ} {P : RamParams} {sched : ℕ → EdgeOrder} {α : Type*}

/-! ## Which elements get through -/

theorem mem_storedElems {t : ℕ} {es : List α} {e : α} :
    e ∈ storedElems sched t es ↔ ∃ k, es[k]? = some e ∧
      (sched (t + k) = .driverFirst ∨ sched (t + k + 1) = .ramFirst) := by
  induction es generalizing t with
  | nil => simp [storedElems]
  | cons f es ih =>
      have hhead : (e ∈ (if sched t = .driverFirst then [f] else []) ++
            (if sched (t + 1) = .ramFirst then [f] else [])) ↔
          f = e ∧ (sched t = .driverFirst ∨ sched (t + 1) = .ramFirst) := by
        cases sched t <;> cases sched (t + 1) <;> simp [eq_comm]
      rw [storedElems, List.mem_append, hhead, ih]
      constructor
      · rintro (⟨rfl, h⟩ | ⟨k, hk, h⟩)
        · exact ⟨0, rfl, h⟩
        · exact ⟨k + 1, hk, by rwa [← Nat.add_assoc, Nat.add_right_comm t k 1]⟩
      · rintro ⟨k, hk, h⟩
        cases k with
        | zero => exact Or.inl ⟨Option.some.inj hk, h⟩
        | succ k => exact Or.inr ⟨k, hk, by rwa [Nat.add_right_comm t 1 k]⟩

/-- The element whose content is captured in the place of the one with index `k`. -/
theorem getElem?_capturedElems (t : ℕ) (es : List α) (k : ℕ) :
    (capturedElems sched t es)[k]?
      = if k + 1 < es.length ∧ sched (t + k + 1) = .driverFirst then es[k + 1]? else es[k]? := by
  induction es generalizing t k with
  | nil => simp [capturedElems]
  | cons e es ih =>
      cases es with
      | nil => simp [capturedElems]
      | cons f es =>
          cases k with
          | zero => cases h : sched (t + 1) <;> simp [capturedElems, h]
          | succ k =>
              simp only [capturedElems, List.getElem?_cons_succ, ih]
              simp [Nat.add_right_comm t 1 k, Nat.add_assoc]

/-! ## Harmless schedules -/

/-- What a schedule can depend on: after how many idle cycles an item comes, what its type is and
how long it is. -/
structure ItemShape (D : ℕ) where
  gap : ℕ
  transType : TransactionType
  transLength : BitVec D

/-- The shape of an item, with the idle cycles before it. -/
def shapeOf (x : ℕ × Burst D A) : ItemShape D := ⟨x.1, x.2.item.transType, x.2.item.transLength⟩

/-- The edges an item of this shape keeps the driver for. -/
def ItemShape.edges (s : ItemShape D) : ℕ := itemEdges s.transType s.transLength

/-- The schedule does no harm to an item whose first element is driven at edge `t`. -/
def Harmless (sched : ℕ → EdgeOrder) (t : ℕ) (s : ItemShape D) : Prop :=
  match s.transType with
  | .WRITE => ∀ k < s.transLength.toNat, sched (t + k) = .ramFirst → sched (t + k + 1) = .ramFirst
  | .READ => ∀ k < s.transLength.toNat - 1, sched (t + k + 1) = .ramFirst

/-- The schedule does no harm to any of a list of items, the first of which can start at edge
`t`. -/
def HarmlessAll (sched : ℕ → EdgeOrder) : ℕ → List (ItemShape D) → Prop
  | _, [] => True
  | t, s :: shapes =>
      Harmless sched (t + s.gap) s ∧ HarmlessAll sched (t + s.gap + s.edges) shapes

instance (sched : ℕ → EdgeOrder) (t : ℕ) (s : ItemShape D) : Decidable (Harmless sched t s) := by
  rw [Harmless]
  split <;> infer_instance

lemma edges_sendToIf_shape (x : ℕ × Burst D A) :
    (sendToIf x.2.item).edges = (shapeOf x).edges := edges_sendToIf x.2.item

@[simp] lemma storeElem_storeElem (m : RamWords P) (e : BitVec A × BitVec D) :
    storeElem (storeElem m e) e = storeElem m e := by
  simp only [storeElem, storeMem]
  cases cell? (P := P) (e.1.setWidth P.AWIDTH) <;> simp

/-- Storing elements twice, but in order, comes to the same as storing them once. -/
lemma storeElems_storedElems {t : ℕ} {es : List (BitVec A × BitVec D)}
    (h : ∀ k < es.length, sched (t + k) = .ramFirst → sched (t + k + 1) = .ramFirst)
    (m : RamWords P) : storeElems m (storedElems sched t es) = storeElems m es := by
  induction es generalizing t m with
  | nil => rfl
  | cons e es ih =>
      have htail : ∀ k < es.length,
          sched (t + 1 + k) = .ramFirst → sched (t + 1 + k + 1) = .ramFirst := fun k hk => by
        have hk' : k + 1 < (e :: es).length := Nat.succ_lt_succ hk
        simpa [Nat.add_assoc, Nat.add_comm 1 k] using h (k + 1) hk'
      have hhead := h 0 (Nat.zero_lt_succ _)
      have honce : storeElems m ((if sched t = .driverFirst then [e] else []) ++
          (if sched (t + 1) = .ramFirst then [e] else [])) = storeElem m e := by
        cases h₀ : sched t <;> cases h₁ : sched (t + 1) <;> simp_all [storeElems]
      rw [storedElems, storeElems_append, honce, ih htail]
      rfl

lemma capturedElems_eq_self {t : ℕ} {es : List α}
    (h : ∀ k < es.length - 1, sched (t + k + 1) = .ramFirst) : capturedElems sched t es = es := by
  apply List.ext_getElem?
  intro k
  rw [getElem?_capturedElems, if_neg]
  rintro ⟨hk, hd⟩
  rw [h k (by omega)] at hd
  exact absurd hd (by decide)

/-- A harmless schedule does not change what an item writes. -/
lemma memAfter_of_harmless {t : ℕ} {x : ℕ × Burst D A} (h : Harmless sched t (shapeOf x))
    (m : RamWords P) : memAfter sched t m x.2.item = memAfter ramAlwaysFirst t m x.2.item := by
  rw [Harmless] at h
  simp only [memAfter]
  cases hx : x.2.item.transType with
  | READ => rfl
  | WRITE =>
      simp only [shapeOf, hx] at h
      rw [storedElems_ramAlwaysFirst]
      exact storeElems_storedElems (by simpa using h) m

/-- Nor what it reads. -/
lemma itemAfter_of_harmless {t : ℕ} {x : ℕ × Burst D A} (h : Harmless sched t (shapeOf x))
    (m : RamWords P) : itemAfter sched t m x.2.item = itemAfter ramAlwaysFirst t m x.2.item := by
  rw [Harmless] at h
  simp only [itemAfter, captured]
  cases hx : x.2.item.transType with
  | WRITE => rfl
  | READ =>
      simp only [shapeOf, hx] at h
      rw [capturedElems_ramAlwaysFirst, capturedElems_eq_self (by simpa using h)]

/-- A list of items has the same outcome under this schedule as under the one in which the RAM
always goes first. -/
def SameAfter (sched : ℕ → EdgeOrder) (t : ℕ) (m : RamWords P) (items : List (ℕ × Burst D A)) :
    Prop :=
  memAfterAll sched t m (handed items) = memAfterAll ramAlwaysFirst t m (handed items) ∧
  itemsAfter sched t m (handed items) = itemsAfter ramAlwaysFirst t m (handed items)

/-- Harmless on every item, a schedule leaves the memory it should and returns the items it
should. -/
theorem sameAfter_of_harmlessAll {t : ℕ} {items : List (ℕ × Burst D A)}
    (h : HarmlessAll sched t (items.map shapeOf)) (m : RamWords P) : SameAfter sched t m items := by
  induction items generalizing t m with
  | nil => exact ⟨rfl, rfl⟩
  | cons x items ih =>
      obtain ⟨hx, hrest⟩ := h
      rw [← edges_sendToIf_shape] at hrest
      have hmem := memAfter_of_harmless hx m
      have hitem := itemAfter_of_harmless hx m
      simp only [shapeOf] at hmem hitem hrest
      obtain ⟨hm, hi⟩ := ih hrest (memAfter sched (t + x.1) m x.2.item)
      simp only [SameAfter, handed_cons, memAfterAll, itemsAfter]
      rw [hm, hi, hmem, hitem]
      exact ⟨rfl, rfl⟩

/-! ## Every other schedule does harm

An item of any shape is probed with a single element that stands out, in the midst of elements that
only touch the word at address `0`, which holds `0` already.
-/

lemma bitVec_one_ne_zero {w : ℕ} (hw : 0 < w) : (1#w) ≠ 0#w := by
  intro h
  have hnat := congrArg BitVec.toNat h
  rw [BitVec.toNat_ofNat, BitVec.toNat_ofNat, Nat.mod_eq_of_lt (Nat.one_lt_two_pow hw.ne'),
    Nat.zero_mod] at hnat
  exact absurd hnat one_ne_zero

lemma width_pos_of_lt_toNat {w k : ℕ} {n : BitVec w} (h : k < n.toNat) : 0 < w := by
  apply Nat.pos_of_ne_zero
  rintro rfl
  have hlt := n.isLt
  omega

/-- An item of the shape `s` with the element `(a, d)` at index `k` and zeros everywhere else. -/
def probe (s : ItemShape D) (k : ℕ) (a : BitVec A) (d : BitVec D) : ℕ × Burst D A :=
  (s.gap,
    { item :=
        { transType := s.transType
          transLength := s.transLength
          transAddr := (List.replicate s.transLength.toNat 0#A).set k a
          transDatai := (List.replicate s.transLength.toNat 0#D).set k d }
      size_addr := by simp
      size_datai := by simp })

/-- An item of the shape `s` with nothing but zeros. -/
def zeros (A : ℕ) (s : ItemShape D) : ℕ × Burst D A := probe s 0 0#A 0#D

@[simp] lemma shapeOf_probe (s : ItemShape D) (k : ℕ) (a : BitVec A) (d : BitVec D) :
    shapeOf (probe s k a d) = s := rfl

lemma getElem?_elements_probe (s : ItemShape D) (k : ℕ) (a : BitVec A) (d : BitVec D) (j : ℕ) :
    (probe s k a d).2.item.elements[j]?
      = if j < s.transLength.toNat then some (if k = j then (a, d) else (0#A, 0#D)) else none := by
  rw [Burst.elements_eq]
  simp only [probe, List.zip, List.getElem?_zipWith, List.getElem?_set, List.length_replicate,
    List.getElem?_replicate]
  split_ifs <;> simp_all

/-- What the RAM stores of a probe: the element that stands out, or zeros at address `0`. -/
lemma mem_storedElems_probe {s : ItemShape D} {k : ℕ} {a : BitVec A} {d : BitVec D} {t : ℕ}
    {e : BitVec A × BitVec D} (h : e ∈ storedElems sched t (probe s k a d).2.item.elements) :
    e = (0#A, 0#D) ∨
      e = (a, d) ∧ (sched (t + k) = .driverFirst ∨ sched (t + k + 1) = .ramFirst) := by
  obtain ⟨j, hj, hs⟩ := mem_storedElems.mp h
  rw [getElem?_elements_probe] at hj
  split_ifs at hj with hlt hk
  · subst hk
    exact Or.inr ⟨(Option.some.inj hj).symm, hs⟩
  · exact Or.inl (Option.some.inj hj).symm

/-- The memories the probes are made for. -/
def ZeroAtZero (m : RamWords (fittingParams D A)) : Prop := absMem m 0#A = LogicVec.ofBits 0#D

/-- The array with a zero in every cell. -/
def zeroMem (D A : ℕ) : RamWords (fittingParams D A) := fun _ => LogicVec.ofBits 0#D

lemma zeroAtZero_zeroMem : ZeroAtZero (zeroMem D A) := rfl

lemma storeElems_of_forall_zero {m : RamWords (fittingParams D A)} (hm : ZeroAtZero m)
    {es : List (BitVec A × BitVec D)} (h : ∀ e ∈ es, e = (0#A, 0#D)) : storeElems m es = m := by
  apply absMem_injective
  rw [absMem_storeElems]
  refine writeAll_eq_self (List.forall_mem_map.mpr ?_)
  intro e he
  rw [h e he]
  exact hm

lemma memAfter_zeros (t : ℕ) {m : RamWords (fittingParams D A)} (hm : ZeroAtZero m)
    (s : ItemShape D) : memAfter sched t m (zeros A s).2.item = m := by
  rw [memAfter]
  split
  · refine storeElems_of_forall_zero hm ?_
    intro e he
    rcases mem_storedElems_probe he with h | ⟨h, -⟩
    · exact h
    · exact h
  · rfl

lemma memAfterAll_zeros (t : ℕ) {m : RamWords (fittingParams D A)} (hm : ZeroAtZero m)
    (shapes : List (ItemShape D)) :
    memAfterAll sched t m (handed (shapes.map (zeros A))) = m := by
  induction shapes generalizing t with
  | nil => rfl
  | cons s shapes ih =>
      rw [List.map_cons, handed_cons, memAfterAll, memAfter_zeros _ hm]
      exact ih _

lemma zeroAtZero_memAfter_probe (t : ℕ) {m : RamWords (fittingParams D A)} (hm : ZeroAtZero m)
    (s : ItemShape D) (k : ℕ) {a : BitVec A} (ha : a ≠ 0#A) (d : BitVec D) :
    ZeroAtZero (memAfter sched t m (probe s k a d).2.item) := by
  rw [memAfter, ZeroAtZero]
  split
  · rw [absMem_storeElems]
    refine writeAll_apply_of_forall (List.forall_mem_map.mpr ?_) hm
    intro e he h
    rcases mem_storedElems_probe he with rfl | ⟨rfl, -⟩
    · rfl
    · exact absurd h ha
  · exact hm

/-- What a probe leaves in the memory is still there after items that write zeros. -/
lemma memAfterAll_probe_cons (t : ℕ) {m : RamWords (fittingParams D A)} (hm : ZeroAtZero m)
    (s : ItemShape D) (k : ℕ) {a : BitVec A} (ha : a ≠ 0#A) (d : BitVec D)
    (shapes : List (ItemShape D)) :
    memAfterAll sched t m (handed (probe s k a d :: shapes.map (zeros A)))
      = memAfter sched (t + s.gap) m (probe s k a d).2.item := by
  rw [handed_cons, memAfterAll]
  exact memAfterAll_zeros _ (zeroAtZero_memAfter_probe _ hm s k ha d) shapes

/-- An element of a `WRITE` that is skipped is missing from the memory. -/
lemma stored_of_sameAfter {t : ℕ} {s : ItemShape D} {shapes : List (ItemShape D)} {k : ℕ}
    (hA : 0 < A) (hs : s.transType = .WRITE) (hk : k < s.transLength.toNat)
    (h : SameAfter sched t (zeroMem D A) (probe s k 1#A 1#D :: shapes.map (zeros A))) :
    sched (t + s.gap + k) = .driverFirst ∨ sched (t + s.gap + k + 1) = .ramFirst := by
  by_contra hskip
  have hone : (1#A) ≠ 0#A := bitVec_one_ne_zero hA
  have hmem := h.1
  rw [memAfterAll_probe_cons t zeroAtZero_zeroMem s k hone,
    memAfterAll_probe_cons t zeroAtZero_zeroMem s k hone] at hmem
  have hit : (probe s k (1#A) 1#D).2.item.transType = .WRITE := hs
  simp only [memAfter, hit, storedElems_ramAlwaysFirst] at hmem
  have hleft : storeElems (zeroMem D A) (storedElems sched (t + s.gap)
      (probe s k 1#A 1#D).2.item.elements) = zeroMem D A := by
    refine storeElems_of_forall_zero zeroAtZero_zeroMem ?_
    intro e he
    rcases mem_storedElems_probe he with he' | ⟨-, hstored⟩
    · exact he'
    · exact absurd hstored hskip
  have hright : absMem (storeElems (zeroMem D A) (probe s k 1#A 1#D).2.item.elements) 1#A
      = LogicVec.ofBits 1#D := by
    rw [absMem_storeElems]
    refine writeAll_apply_of_mem (List.mem_map.mpr ⟨(1#A, 1#D), ?_, rfl⟩)
      (List.forall_mem_map.mpr ?_)
    · exact List.mem_of_getElem? (i := k) (by rw [getElem?_elements_probe, if_pos hk, if_pos rfl])
    · intro e he haddr
      rw [← storedElems_ramAlwaysFirst 0 (probe s k 1#A 1#D).2.item.elements] at he
      rcases mem_storedElems_probe he with rfl | ⟨rfl, -⟩
      · exact absurd haddr.symm hone
      · rfl
  rw [← hmem, hleft] at hright
  exact bitVec_one_ne_zero (width_pos_of_lt_toNat hk) (LogicVec.ofBits_injective hright).symm

lemma captured_eq_of_itemAfter_eq {o : ℕ → EdgeOrder} {t : ℕ} {m : RamWords P}
    {it : SequenceItem D A} (h : itemAfter sched t m it = itemAfter o t m it) :
    captured sched t m it = captured o t m it :=
  List.append_cancel_left (congrArg SequenceItem.transDatao h)

/-- In a `READ`, an element in the place of another shows in the data. -/
lemma captured_of_sameAfter {t : ℕ} {s : ItemShape D} {shapes : List (ItemShape D)} {k : ℕ}
    (hA : 0 < A) (hs : s.transType = .READ) (hk : k < s.transLength.toNat - 1)
    (h : SameAfter sched t (storeElem (zeroMem D A) (1#A, 1#D))
      (probe s k 1#A 0#D :: shapes.map (zeros A))) :
    sched (t + s.gap + k + 1) = .ramFirst := by
  have hk₀ : k < s.transLength.toNat := by omega
  by_contra hne
  have hdriver : sched (t + s.gap + k + 1) = .driverFirst := by
    cases ho : sched (t + s.gap + k + 1) with
    | driverFirst => rfl
    | ramFirst => exact absurd ho hne
  set m := storeElem (zeroMem D A) (1#A, 1#D) with hm
  set es := (probe s k 1#A 0#D).2.item.elements with hes
  have hlen : es.length = s.transLength.toNat := SequenceItem.length_elements _
  have hit : (probe s k (1#A) 0#D).2.item.transType = .READ := hs
  have hcap : (capturedElems sched (t + s.gap) es).map (readBits m) = es.map (readBits m) := by
    have hcaptured := captured_eq_of_itemAfter_eq (List.cons.inj h.2).1
    simp only [captured, hit, capturedElems_ramAlwaysFirst] at hcaptured
    exact hcaptured
  have hindex := congrArg (·[k]?) hcap
  simp only [List.getElem?_map, getElem?_capturedElems, hlen, hdriver, and_true] at hindex
  rw [if_pos (by omega), hes, getElem?_elements_probe, getElem?_elements_probe,
    if_pos (by omega), if_neg (by omega), if_pos (by omega), if_pos rfl] at hindex
  have hread : readBits m (0#A, 0#D) = readBits m (1#A, 0#D) := Option.some.inj hindex
  have hone : (1#A) ≠ 0#A := bitVec_one_ne_zero hA
  have hm₀ : absMem m 0#A = LogicVec.ofBits 0#D := by
    rw [hm, absMem_storeElem, Function.update_of_ne hone.symm]
    rfl
  have hm₁ : absMem m 1#A = LogicVec.ofBits 1#D := by
    rw [hm, absMem_storeElem, Function.update_self]
  simp only [readBits, loadElem_fitting, hm₀, hm₁, LogicVec.toBits_ofBits] at hread
  exact bitVec_one_ne_zero (width_pos_of_lt_toNat hk₀) hread.symm

/-- A schedule that does harm to some item shows in the outcome of a probe. -/
theorem harmlessAll_of_sameAfter (hA : 0 < A) {t : ℕ} {shapes : List (ItemShape D)}
    (h : ∀ m : RamWords (fittingParams D A), ZeroAtZero m → ∀ items : List (ℕ × Burst D A),
      items.map shapeOf = shapes → SameAfter sched t m items) :
    HarmlessAll sched t shapes := by
  induction shapes generalizing t with
  | nil => trivial
  | cons s shapes ih =>
      have hshape (k : ℕ) (a : BitVec A) (d : BitVec D) :
          (probe s k a d :: shapes.map (zeros A)).map shapeOf = s :: shapes := by
        rw [List.map_cons, shapeOf_probe, List.map_map]
        exact congrArg _ (List.map_id shapes)
      refine ⟨?_, ih ?_⟩
      · rw [Harmless]
        cases hs : s.transType with
        | WRITE =>
            intro k hk hfirst
            rcases stored_of_sameAfter hA hs hk (h _ zeroAtZero_zeroMem _ (hshape k _ _))
              with hd | hr
            · rw [hfirst] at hd
              exact absurd hd (by decide)
            · exact hr
        | READ =>
            intro k hk
            have hone : (1#A) ≠ 0#A := bitVec_one_ne_zero hA
            refine captured_of_sameAfter hA hs hk (h _ ?_ _ (hshape k _ _))
            rw [ZeroAtZero, absMem_storeElem, Function.update_of_ne hone.symm]
            rfl
      · intro m hm items hitems
        obtain ⟨hmem, hrest⟩ := h m hm (zeros A s :: items) (by rw [List.map_cons, hitems]; rfl)
        simp only [handed_cons, memAfterAll, itemsAfter, memAfter_zeros _ hm,
          edges_sendToIf_shape] at hmem hrest
        exact ⟨hmem, (List.cons.inj hrest).2⟩

/-! ## The condition -/

/-- For items of these shapes, handed out one after the other, the order in which the driver and
the RAM are executed at an edge does not matter: whatever the RAM holds and whatever the queues of
the items contain, the array and the items in the end are those of the schedule in which the RAM
always samples first. -/
def EdgeOrderIndependent (A : ℕ) (sched : ℕ → EdgeOrder) (shapes : List (ItemShape D)) : Prop :=
  ∀ (ram : BlkRam (fittingParams D A)) (items : List (ℕ × Burst D A)),
    items.map shapeOf = shapes →
      (simulate sched (masterLoop (handed items)) (init D A ram)).mem
        = (simulate ramAlwaysFirst (masterLoop (handed items)) (init D A ram)).mem ∧
      (simulate sched (masterLoop (handed items)) (init D A ram)).vip.served
        = (simulate ramAlwaysFirst (masterLoop (handed items)) (init D A ram)).vip.served

lemma edgeOrderIndependent_iff_sameAfter (shapes : List (ItemShape D)) :
    EdgeOrderIndependent A sched shapes ↔
      ∀ (m : RamWords (fittingParams D A)) (items : List (ℕ × Burst D A)),
        items.map shapeOf = shapes → SameAfter sched 0 m items := by
  have hrun (o : ℕ → EdgeOrder) (ram : BlkRam (fittingParams D A))
      (items : List (ℕ × Burst D A)) :=
    simulate_masterLoop o (handed items) (init D A ram) (quiet_init ram)
  constructor
  · intro h m items hitems
    obtain ⟨hmem, hserved⟩ := h ⟨LogicVec.ofBits 0#D, m⟩ items hitems
    rw [(hrun sched _ _).2.1, (hrun ramAlwaysFirst _ _).2.1] at hmem
    rw [(hrun sched _ _).2.2, (hrun ramAlwaysFirst _ _).2.2] at hserved
    exact ⟨hmem, List.append_cancel_left hserved⟩
  · intro h ram items hitems
    obtain ⟨hmem, hserved⟩ := h ram.mem items hitems
    rw [(hrun sched _ _).2.1, (hrun ramAlwaysFirst _ _).2.1, (hrun sched _ _).2.2,
      (hrun ramAlwaysFirst _ _).2.2]
    exact ⟨hmem, congrArg _ hserved⟩

/-- **The edge order does not matter exactly under a harmless schedule.** -/
theorem edgeOrderIndependent_iff (hA : 0 < A) (sched : ℕ → EdgeOrder)
    (shapes : List (ItemShape D)) :
    EdgeOrderIndependent A sched shapes ↔ HarmlessAll sched 0 shapes := by
  rw [edgeOrderIndependent_iff_sameAfter]
  refine ⟨fun h => harmlessAll_of_sameAfter hA fun m _ => h m, ?_⟩
  rintro h m items rfl
  exact sameAfter_of_harmlessAll h m

/-- The RAM goes first at every edge but the second, at which it finds the element of a `WRITE` of
one element already cleared. -/
def secondEdgeLate : ℕ → EdgeOrder := fun t => if t = 1 then .driverFirst else .ramFirst

/-- The condition for a `WRITE` of one element, at the widths of the wrapper. -/
theorem edgeOrderIndependent_write_iff :
    EdgeOrderIndependent 8 secondEdgeLate [(⟨0, .WRITE, 1#16⟩ : ItemShape 16)] ↔
      HarmlessAll secondEdgeLate 0 [(⟨0, .WRITE, 1#16⟩ : ItemShape 16)] :=
  edgeOrderIndependent_iff (by decide) secondEdgeLate _

/-- A `WRITE` of one element is lost under this schedule. -/
theorem write_lost_of_secondEdgeLate :
    ¬ EdgeOrderIndependent 8 secondEdgeLate [(⟨0, .WRITE, 1#16⟩ : ItemShape 16)] := by
  intro h
  have hmem := (h ⟨.ofBits 0, fun _ => .ofBits 0⟩
    [(0, ⟨{ transType := .WRITE, transLength := 1, transAddr := [3], transDatai := [7] },
      rfl, rfl⟩)] rfl).1
  exact absurd (congrFun hmem 3) (by decide)

end SinglePortRam
