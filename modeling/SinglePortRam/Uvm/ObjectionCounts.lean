import SinglePortRam.Uvm.Objection

/-!
# The counts of an objection

A total counts what the object and the objects below it have raised, and what these have dropped
again without having told their parents: the drains.  `Sound` says so up to a debt, which a call
leaves to the next one on the way to the top.

* `drains`, `draining` — the drains, and what they hold back.
* `Sound` — the invariant of the counts, up to a debt.
* **`mDrop_sound`**, **`mRaise_sound`** — a call pays the debt it is made with.
-/

namespace SinglePortRam

open Tally

variable {Obj : Type*}

/-- The objects as they propagate objections. -/
def ObjectTree.forest (T : ObjectTree Obj) [DecidableEq Obj] (propMode : Bool) : Forest Obj where
  up a := if a = T.mTop then none else some (T.next propMode a)
  depth := T.depth
  depth_up := by
    intro a b h
    split_ifs at h with ha
    obtain rfl := Option.some.inj h
    exact T.depth_next propMode ha

/-- The drains of different objects, each of an object at or above the one that dropped. -/
structure DrainsOk (T : ObjectTree Obj) (l : List (ObjectionContext Obj)) : Prop where
  nodup : (l.map ObjectionContext.obj).Nodup
  pos : ∀ c ∈ l, 0 < c.count
  fits : ∀ c ∈ l, c.count < 2 ^ 31
  source : ∀ c ∈ l, T.depth c.obj ≤ T.depth c.sourceObj

namespace DrainsOk

variable {T : ObjectTree Obj} {l l' : List (ObjectionContext Obj)} {c : ObjectionContext Obj}

/-- The order of the drains does not matter. -/
lemma perm (h : DrainsOk T l) (hp : l.Perm l') : DrainsOk T l' :=
  ⟨(hp.map _).nodup_iff.mp h.nodup, fun c hc => h.pos c (hp.mem_iff.mpr hc),
    fun c hc => h.fits c (hp.mem_iff.mpr hc), fun c hc => h.source c (hp.mem_iff.mpr hc)⟩

lemma of_cons (h : DrainsOk T (c :: l)) : DrainsOk T l :=
  ⟨(List.nodup_cons.mp h.nodup).2, fun d hd => h.pos d (List.mem_cons_of_mem c hd),
    fun d hd => h.fits d (List.mem_cons_of_mem c hd),
    fun d hd => h.source d (List.mem_cons_of_mem c hd)⟩

/-- A drain of an object that has none. -/
lemma cons (h : DrainsOk T l) (hne : ∀ d ∈ l, d.obj ≠ c.obj) (hpos : 0 < c.count)
    (hfits : c.count < 2 ^ 31) (hsource : T.depth c.obj ≤ T.depth c.sourceObj) :
    DrainsOk T (c :: l) := by
  refine ⟨List.nodup_cons.mpr ⟨?_, h.nodup⟩, ?_, ?_, ?_⟩
  · intro hmem
    obtain ⟨d, hd, heq⟩ := List.mem_map.mp hmem
    exact hne d hd heq
  · exact List.forall_mem_cons.mpr ⟨hpos, h.pos⟩
  · exact List.forall_mem_cons.mpr ⟨hfits, h.fits⟩
  · exact List.forall_mem_cons.mpr ⟨hsource, h.source⟩

/-- Without its one drain, nothing is held back at an object. -/
lemma heldBy_eq_zero [DecidableEq Obj] (h : DrainsOk T (c :: l)) :
    heldBy ObjectionContext.obj ObjectionContext.count l c.obj = 0 := by
  rw [heldBy_eq_zero_iff h.of_cons.pos]
  intro d hd hobj
  exact (List.nodup_cons.mp h.nodup).1 (List.mem_map.mpr ⟨d, hd, hobj⟩)

end DrainsOk

namespace UvmObjection

variable [DecidableEq Obj]

omit [DecidableEq Obj] in
/-- All drains, in the order in which a raise looks for one. -/
def drains (o : UvmObjection Obj) : List (ObjectionContext Obj) :=
  o.mScheduledList ++ o.mForkedList ++ o.mForkedContexts

/-- What is held back at an object. -/
def draining (o : UvmObjection Obj) : Obj → ℤ :=
  heldBy ObjectionContext.obj ObjectionContext.count o.drains

/-! ## The operations on counts -/

/-- A count that is still one of an `int` has not wrapped around. -/
lemma getD_addCount {a : Obj} {k : ℤ} {counts : Obj → Option ℤ}
    (hnonneg : 0 ≤ (counts a).getD 0 + k) (hfits : (counts a).getD 0 + k < 2 ^ 31) (b : Obj) :
    (addCount a k counts b).getD 0 = (counts b).getD 0 + (Pi.single a k : Obj → ℤ) b := by
  rw [addCount, int32_eq_self (by omega) hfits]
  by_cases hb : b = a
  · subst hb
    simp
  · simp [hb]

/-- The totals after a change that an `int` holds. -/
lemma getObjectionTotal_change {a : Obj} {k : ℤ} {o : UvmObjection Obj}
    (hnonneg : 0 ≤ o.getObjectionTotal a + k) (hfits : o.getObjectionTotal a + k < 2 ^ 31)
    (s : Obj) : (o.change a s k).getObjectionTotal = o.getObjectionTotal + Pi.single a k := by
  funext b
  exact getD_addCount hnonneg hfits b

/-- The counts after it: only that of the source changes. -/
lemma getObjectionCount_change {a s : Obj} {k : ℤ} {o : UvmObjection Obj}
    (hnonneg : s = a → 0 ≤ o.getObjectionCount a + k)
    (hfits : s = a → o.getObjectionCount a + k < 2 ^ 31) :
    (o.change a s k).getObjectionCount
      = o.getObjectionCount + Pi.single a (if s = a then k else 0) := by
  funext b
  rw [Pi.add_apply, getObjectionCount, getObjectionCount, change]
  split_ifs with hs
  · exact getD_addCount (hnonneg hs) (hfits hs) b
  · simp

lemma nonneg_add_single {f : Obj → ℤ} (hf : ∀ b, 0 ≤ f b) {a : Obj} {k : ℤ} (hk : 0 ≤ f a + k)
    (b : Obj) : 0 ≤ (f + (Pi.single a k : Obj → ℤ)) b := by
  rw [Pi.add_apply]
  by_cases hb : b = a
  · rwa [hb, Pi.single_eq_same]
  · rw [Pi.single_eq_of_ne hb, add_zero]
    exact hf b

omit [DecidableEq Obj] in
/-- There is less than what is dropped. -/
lemma belowZero_iff {a : Obj} {k : ℤ} {counts : Obj → Option ℤ} (hk : 0 < k) :
    belowZero a k counts = true ↔ (counts a).getD 0 < k := by
  rw [belowZero]
  cases counts a with
  | none => simpa using hk
  | some n => simp

/-- The entry of a count of zero is deleted, and no other one. -/
lemma deleteZero_apply {a : Obj} {counts : Obj → Option ℤ} (h : (counts a).getD 0 = 0) (b : Obj) :
    deleteZero a counts b = if b = a then none else counts b := by
  rw [deleteZero]
  by_cases hb : b = a
  · subst hb
    cases hc : counts b with
    | none => simp [hc]
    | some n => simp_all
  · split_ifs
    · exact Function.update_of_ne hb none counts
    · rfl

omit [DecidableEq Obj] in
/-- The entry that is found, and the list without it. -/
lemma perm_cons_eraseP {l : List (ObjectionContext Obj)} {p : ObjectionContext Obj → Bool}
    {c : ObjectionContext Obj} (h : l.find? p = some c) : l.Perm (c :: l.eraseP p) := by
  induction l with
  | nil => cases h
  | cons d l ih =>
      rw [List.find?_cons] at h
      cases hd : p d with
      | true =>
          rw [hd] at h
          obtain rfl := Option.some.inj h
          rw [List.eraseP_cons_of_pos hd]
      | false =>
          rw [hd] at h
          rw [List.eraseP_cons_of_neg (by simp [hd])]
          exact ((ih h).cons d).trans (.swap c d _)

/-- What a raise takes back: a drain of the object, if there is one. -/
lemma takeBack_spec (a : Obj) (o : UvmObjection Obj) :
    (o.takeBack a = (none, o) ∧ ∀ c ∈ o.drains, c.obj ≠ a) ∨
      ∃ c l₁ l₂ l₃, o.takeBack a
          = (some c, { o with mScheduledList := l₁, mForkedList := l₂, mForkedContexts := l₃ }) ∧
        c.obj = a ∧ o.drains.Perm (c :: (l₁ ++ l₂ ++ l₃)) ∧
        l₂.length ≤ o.mForkedList.length := by
  rw [takeBack]
  cases h₁ : o.mScheduledList.find? (·.obj = a) with
  | some c =>
      refine Or.inr ⟨c, _, o.mForkedList, o.mForkedContexts, rfl,
        by simpa using List.find?_some h₁, ?_, le_rfl⟩
      exact ((perm_cons_eraseP h₁).append_right _).append_right _
  | none =>
      cases h₂ : o.mForkedList.find? (·.obj = a) with
      | some c =>
          refine Or.inr ⟨c, o.mScheduledList, _, o.mForkedContexts, rfl,
            by simpa using List.find?_some h₂, ?_, (List.eraseP_sublist).length_le⟩
          exact (((perm_cons_eraseP h₂).append_left _).trans List.perm_middle).append_right _
      | none =>
          cases h₃ : o.mForkedContexts.find? (·.obj = a) with
          | some c =>
              refine Or.inr ⟨c, o.mScheduledList, o.mForkedList, _, rfl,
                by simpa using List.find?_some h₃, ?_, le_rfl⟩
              exact ((perm_cons_eraseP h₃).append_left _).trans List.perm_middle
          | none =>
              refine Or.inl ⟨rfl, ?_⟩
              intro c hc
              rw [drains, List.mem_append, List.mem_append] at hc
              rcases hc with (hc | hc) | hc
              · simpa using List.find?_eq_none.mp h₁ c hc
              · simpa using List.find?_eq_none.mp h₂ c hc
              · simpa using List.find?_eq_none.mp h₃ c hc

/-! ## The invariant -/

variable [Fintype Obj] (T : ObjectTree Obj)

/-- The totals are what they should be, once the objects with a debt have been told of it. -/
structure Sound (debt : Obj → ℤ) (o : UvmObjection Obj) : Prop where
  balanced : Balanced (T.forest o.mPropMode) o.getObjectionTotal o.getObjectionCount o.draining debt
  count_nonneg : ∀ a, 0 ≤ o.getObjectionCount a
  total_nonneg : ∀ a, 0 ≤ o.getObjectionTotal a
  total_lt : ∀ a, o.getObjectionTotal a < 2 ^ 31
  drainsOk : DrainsOk T o.drains
  /-- An entry is zero exactly as long as there is a drain. -/
  zero : ∀ a, o.mTotalCount a = some 0 ↔ o.draining a ≠ 0
  entry : ∀ a, o.mTotalCount a = none → o.mSourceCount a = none
  forks : o.mForkedList.length ≤ o.forks
  allDropped : o.mTopAllDropped = true → o.mTotalCount T.mTop = none

variable {T} {debt : Obj → ℤ} {o : UvmObjection Obj}

namespace Sound

/-- Nothing negative is held back. -/
lemma draining_nonneg (h : Sound T debt o) (a : Obj) : 0 ≤ o.draining a :=
  heldBy_nonneg (fun c hc => (h.drainsOk.pos c hc).le) a

/-- Nothing is held back at an object without a drain. -/
lemma draining_eq_zero_iff (h : Sound T debt o) (a : Obj) :
    o.draining a = 0 ↔ ∀ c ∈ o.drains, c.obj ≠ a :=
  heldBy_eq_zero_iff h.drainsOk.pos a

/-- Where something is held back, the total is zero. -/
lemma draining_eq_zero (h : Sound T debt o) {a : Obj} (ha : o.getObjectionTotal a ≠ 0) :
    o.draining a = 0 := by
  by_contra hne
  exact ha (by rw [getObjectionTotal, (h.zero a).mpr hne, Option.getD_some])

/-- An object with a drain has a total of zero. -/
lemma getObjectionTotal_eq_zero (h : Sound T debt o) {c : ObjectionContext Obj}
    (hc : c ∈ o.drains) : o.getObjectionTotal c.obj = 0 := by
  by_contra hne
  exact (h.draining_eq_zero_iff c.obj).mp (h.draining_eq_zero hne) c hc rfl

/-- A report has no part in the counts. -/
lemma report (h : Sound T debt o) (r : ObjectionReport Obj) : Sound T debt (o.report r) :=
  ⟨h.balanced, h.count_nonneg, h.total_nonneg, h.total_lt, h.drainsOk, h.zero, h.entry, h.forks,
    h.allDropped⟩

/-- A call of `raise_objection` begins. -/
lemma reopen (h : Sound T debt o) :
    Sound T debt { o with mCleared := false, mTopAllDropped := false } :=
  ⟨h.balanced, h.count_nonneg, h.total_nonneg, h.total_lt, h.drainsOk, h.zero, h.entry, h.forks,
    by simp⟩

/-- The total of an object, with what it has to be told, is at least what it has raised itself. -/
lemma count_le (h : Sound T debt o) (a : Obj) :
    o.getObjectionCount a ≤ o.getObjectionTotal a + debt a := by
  rw [h.balanced a]
  refine le_add_of_nonneg_right (Finset.sum_nonneg ?_)
  intro c _
  exact add_nonneg (h.total_nonneg c) (h.draining_nonneg c)

end Sound

/-! ## What a call pays -/

/-- The debt with which a call for `a` is made: the source has none, and any other object has to be
told of `k`. -/
def Due (T : ObjectTree Obj) (a s : Obj) (k : ℤ) (debt : Obj → ℤ) : Prop :=
  s = a ∧ debt = 0 ∨ T.depth a < T.depth s ∧ debt = Pi.single a k

omit [Fintype Obj] in
/-- The change of a count and of a total pays the debt. -/
lemma Due.paid {a s : Obj} {k : ℤ} (h : Due T a s k debt) :
    debt + Pi.single a ((if s = a then k else 0) - k) = 0 := by
  rcases h with ⟨rfl, rfl⟩ | ⟨hlt, rfl⟩
  · simp
  · have hne : s ≠ a := by
      rintro rfl
      exact lt_irrefl _ hlt
    rw [if_neg hne, ← Pi.single_add]
    simp

omit [Fintype Obj] in
/-- The top has no parent to tell. -/
lemma send_top (propMode : Bool) (k : ℤ) : (T.forest propMode).send T.mTop k = 0 := by
  simp [Forest.send, ObjectTree.forest]

omit [Fintype Obj] in
lemma send_zero (propMode : Bool) (a : Obj) : (T.forest propMode).send a (0 : ℤ) = 0 := by
  rw [Forest.send]
  split
  · rfl
  · exact Pi.single_zero _

omit [Fintype Obj] in
/-- An object tells the next one. -/
lemma send_next (propMode : Bool) {a : Obj} (ha : a ≠ T.mTop) (k : ℤ) :
    (T.forest propMode).send a k = Pi.single (T.next propMode a) k := by
  simp [Forest.send, ObjectTree.forest, ha]

omit [Fintype Obj] in
/-- The parent is told on behalf of the same source. -/
lemma Due.next {a s : Obj} {k : ℤ} (h : Due T a s k debt) (propMode : Bool) (ha : a ≠ T.mTop)
    (k' : ℤ) : Due T (T.next propMode a) s k' (Pi.single (T.next propMode a) k') := by
  have hlt := T.depth_next propMode ha
  refine Or.inr ⟨?_, rfl⟩
  rcases h with ⟨rfl, -⟩ | ⟨has, -⟩
  · exact hlt
  · exact hlt.trans has

omit [Fintype Obj] in
/-- The source is never told of its own objections. -/
lemma Due.next_ne {a s : Obj} {k : ℤ} (h : Due T a s k debt) (propMode : Bool) (ha : a ≠ T.mTop) :
    s ≠ T.next propMode a := by
  have hlt := T.depth_next propMode ha
  intro hs
  rw [← hs] at hlt
  rcases h with ⟨rfl, -⟩ | ⟨has, -⟩
  · exact lt_irrefl _ hlt
  · exact hlt.asymm has

namespace Sound

variable {a s : Obj} {k : ℤ}

/-- The source of a call has raised no more than it knows of. -/
lemma count_le_total (h : Sound T debt o) (hdue : Due T a s k debt) (hs : s = a) :
    o.getObjectionCount a ≤ o.getObjectionTotal a := by
  have hle := h.count_le a
  rcases hdue with ⟨-, rfl⟩ | ⟨hlt, -⟩
  · rwa [Pi.zero_apply, add_zero] at hle
  · exact absurd hlt (hs ▸ lt_irrefl _)

/-- **A change of the counts of an object**, with a change of its drains. -/
lemma change (h : Sound T debt o) (hdue : Due T a s k debt) (z : ℤ)
    (l₁ l₂ l₃ : List (ObjectionContext Obj)) (hdrains : DrainsOk T (l₁ ++ l₂ ++ l₃))
    (hheld : heldBy ObjectionContext.obj ObjectionContext.count (l₁ ++ l₂ ++ l₃)
      = o.draining + Pi.single a z)
    (hzero : o.getObjectionTotal a + k = 0 ↔ o.draining a + z ≠ 0)
    (htotal : 0 ≤ o.getObjectionTotal a + k) (hfits : o.getObjectionTotal a + k < 2 ^ 31)
    (hcount : s = a → 0 ≤ o.getObjectionCount a + k) (hforks : l₂.length ≤ o.forks)
    (htop : o.mTopAllDropped = true → a ≠ T.mTop) :
    Sound T ((T.forest o.mPropMode).send a (k + z))
      { o.change a s k with mScheduledList := l₁, mForkedList := l₂, mForkedContexts := l₃ } := by
  set o' : UvmObjection Obj :=
    { o.change a s k with mScheduledList := l₁, mForkedList := l₂, mForkedContexts := l₃ } with ho'
  have htotal' : o'.getObjectionTotal = o.getObjectionTotal + Pi.single a k :=
    getObjectionTotal_change htotal hfits s
  have hcount' : o'.getObjectionCount
      = o.getObjectionCount + Pi.single a (if s = a then k else 0) :=
    getObjectionCount_change hcount fun hs => by
      have := h.count_le_total hdue hs
      omega
  have hdraining' : o'.draining = o.draining + Pi.single a z := hheld
  have hentry (b : Obj) (hb : b ≠ a) : o'.mTotalCount b = o.mTotalCount b :=
    Function.update_of_ne hb _ _
  have hentry_self : o'.mTotalCount a = some (o.getObjectionTotal a + k) := by
    rw [← int32_eq_self (by omega : -2 ^ 31 ≤ o.getObjectionTotal a + k) hfits]
    exact Function.update_self a _ _
  refine ⟨?_, ?_, ?_, ?_, hdrains, ?_, ?_, hforks, ?_⟩
  · have hbalanced := h.balanced.change a k (if s = a then k else 0) z
    rw [hdue.paid, zero_add] at hbalanced
    rwa [htotal', hcount', hdraining']
  · rw [hcount']
    refine nonneg_add_single h.count_nonneg ?_
    split_ifs with hs
    · exact hcount hs
    · simpa using h.count_nonneg a
  · rw [htotal']
    exact nonneg_add_single h.total_nonneg htotal
  · intro b
    rw [htotal', Pi.add_apply]
    by_cases hb : b = a
    · rwa [hb, Pi.single_eq_same]
    · rw [Pi.single_eq_of_ne hb, add_zero]
      exact h.total_lt b
  · intro b
    rw [hdraining', Pi.add_apply]
    by_cases hb : b = a
    · subst hb
      rw [hentry_self, Pi.single_eq_same, Option.some_inj]
      exact hzero
    · rw [hentry b hb, Pi.single_eq_of_ne hb, add_zero]
      exact h.zero b
  · intro b hb
    by_cases hba : b = a
    · subst hba
      rw [hentry_self] at hb
      cases hb
    · rw [hentry b hba] at hb
      have hnone := h.entry b hb
      change (if s = a then addCount a k o.mSourceCount else o.mSourceCount) b = none
      split_ifs
      · rwa [addCount, Function.update_of_ne hba]
      · exact hnone
  · intro hall
    rw [hentry T.mTop (htop hall).symm]
    exact h.allDropped hall

/-- What is dropped has been counted. -/
lemma le_total (h : Sound T debt o) (hdue : Due T a s (-k) debt)
    (hcount : s = a → k ≤ o.getObjectionCount a) : k ≤ o.getObjectionTotal a := by
  have hle := h.count_le a
  rcases hdue with ⟨hs, rfl⟩ | ⟨-, rfl⟩
  · rw [Pi.zero_apply, add_zero] at hle
    exact (hcount hs).trans hle
  · have := h.count_nonneg a
    simp only [Pi.single_eq_same] at hle
    omega

/-- What has been counted can be dropped. -/
lemma not_belowZero (h : Sound T debt o) (hdue : Due T a s (-k) debt) (hk : 0 < k)
    (hcount : s = a → k ≤ o.getObjectionCount a) :
    ¬ (belowZero a k o.mTotalCount || (a = s && belowZero a k o.mSourceCount)) = true := by
  intro hbelow
  simp only [Bool.or_eq_true, Bool.and_eq_true, decide_eq_true_eq, belowZero_iff hk] at hbelow
  rcases hbelow with hbelow | ⟨rfl, hbelow⟩
  · exact absurd (h.le_total hdue hcount) (not_le.mpr hbelow)
  · exact absurd (hcount rfl) (not_le.mpr hbelow)

/-- An object that drops is not the top after all has been dropped. -/
lemma ne_top_of_pos (h : Sound T debt o) (ha : 0 < o.getObjectionTotal a)
    (hall : o.mTopAllDropped = true) : a ≠ T.mTop := by
  rintro rfl
  rw [getObjectionTotal, h.allDropped hall] at ha
  exact lt_irrefl _ ha

/-- A drop that leaves a total above zero. -/
lemma change_drop (h : Sound T debt o) (hdue : Due T a s (-k) debt) (hk : 0 < k)
    (hcount : s = a → k ≤ o.getObjectionCount a)
    (hne : (o.change a s (-k)).getObjectionTotal a ≠ 0) :
    Sound T ((T.forest o.mPropMode).send a (-k)) (o.change a s (-k)) := by
  have hle := h.le_total hdue hcount
  have hlt := h.total_lt a
  have hzero : o.draining a = 0 := h.draining_eq_zero (by omega)
  rw [getObjectionTotal_change (by omega) (by omega), Pi.add_apply, Pi.single_eq_same] at hne
  have hchange := h.change hdue 0 o.mScheduledList o.mForkedList o.mForkedContexts h.drainsOk
    (by simp [draining, UvmObjection.drains]) (by simp [hne, hzero]) (by omega) (by omega)
    (fun hs => by have := hcount hs; omega) h.forks (h.ne_top_of_pos (by omega))
  rwa [add_zero] at hchange

/-- A drop that leaves a total of zero: the parent is not told yet. -/
lemma change_drain (h : Sound T debt o) (hdue : Due T a s (-k) debt) (hk : 0 < k)
    (hcount : s = a → k ≤ o.getObjectionCount a)
    (hzero : (o.change a s (-k)).getObjectionTotal a = 0) :
    Sound T 0 { o.change a s (-k) with mScheduledList := o.mScheduledList ++ [⟨a, s, k⟩] } := by
  have hle := h.le_total hdue hcount
  have hlt := h.total_lt a
  have hdraining : o.draining a = 0 := h.draining_eq_zero (by omega)
  have hperm : (⟨a, s, k⟩ :: o.drains).Perm
      (o.mScheduledList ++ [⟨a, s, k⟩] ++ o.mForkedList ++ o.mForkedContexts) := by
    rw [UvmObjection.drains, List.append_assoc o.mScheduledList [_], List.append_assoc,
      List.append_assoc o.mScheduledList]
    exact List.perm_middle.symm
  have hsource : T.depth a ≤ T.depth s := by
    rcases hdue with ⟨rfl, -⟩ | ⟨hlt, -⟩
    · exact le_rfl
    · exact hlt.le
  rw [getObjectionTotal_change (by omega) (by omega), Pi.add_apply, Pi.single_eq_same] at hzero
  have hdrains : DrainsOk T (⟨a, s, k⟩ :: o.drains) :=
    h.drainsOk.cons ((h.draining_eq_zero_iff a).mp hdraining) hk (hle.trans_lt hlt) hsource
  have hchange := h.change hdue k (o.mScheduledList ++ [⟨a, s, k⟩]) o.mForkedList
    o.mForkedContexts (hdrains.perm hperm)
    (by rw [← heldBy_perm _ _ hperm, heldBy_cons, add_comm, draining])
    (by simp only [hzero, hdraining, zero_add, true_iff]; exact hk.ne') (by omega) (by omega)
    (fun hs => by have := hcount hs; omega) h.forks (h.ne_top_of_pos (by omega))
  rwa [neg_add_cancel, send_zero] at hchange

end Sound

/-- **A drop pays its debt.**  Nothing is reported, and at most one drain begins, at the object or
above it. -/
theorem mDrop_sound {a s : Obj} {k : ℤ} (h : Sound T debt o) (hdue : Due T a s (-k) debt)
    (hk : 0 < k) (hcount : s = a → k ≤ o.getObjectionCount a) :
    Sound T 0 (mDrop T a s k o) ∧ ∃ totals l, mDrop T a s k o = { o with
        mTotalCount := totals
        mSourceCount := if s = a then addCount a (-k) o.mSourceCount else o.mSourceCount
        mScheduledList := o.mScheduledList ++ l } ∧
      (∀ b, o.mTotalCount b ≠ none → totals b ≠ none) ∧
      (l = [] ∨ ∃ c, l = [c] ∧ T.depth c.obj ≤ T.depth a) := by
  have hentry {a : Obj} {o : UvmObjection Obj} (b : Obj) (hb : o.mTotalCount b ≠ none) :
      (o.change a s (-k)).mTotalCount b ≠ none := by
    change addCount a (-k) o.mTotalCount b ≠ none
    rw [addCount]
    by_cases hba : b = a
    · simp [hba]
    · rwa [Function.update_of_ne hba]
  fun_induction mDrop T a s k o generalizing debt
  case case1 hzero => exact absurd hzero hk.ne'
  case case2 hbelow _ => exact absurd hbelow (h.not_belowZero hdue hk hcount)
  case case3 hbelow _ => exact absurd hbelow (h.not_belowZero hdue hk hcount)
  case case4 o _ _ o' hne =>
      have hsound := h.change_drop hdue hk hcount hne
      rw [send_top] at hsound
      exact ⟨hsound, o'.mTotalCount, [], by simp [o', change], hentry, Or.inl rfl⟩
  case case5 a o _ _ o' hne ha ih =>
      have hsound := h.change_drop hdue hk hcount hne
      rw [send_next o.mPropMode ha] at hsound
      have hnext := hdue.next_ne o.mPropMode ha
      obtain ⟨hsound', totals, l, heq, htotals, hl⟩ :=
        ih hsound (hdue.next o.mPropMode ha (-k)) fun hs => absurd hs hnext
      refine ⟨hsound', totals, l, ?_, fun b hb => htotals b (hentry b hb), ?_⟩
      · rw [heq, if_neg hnext]
        simp [o', change]
      · refine hl.imp id ?_
        rintro ⟨c, hc, hle⟩
        exact ⟨c, hc, hle.trans (T.depth_next o.mPropMode ha).le⟩
  case case6 a o _ _ o' hzero =>
      refine ⟨h.change_drain hdue hk hcount (not_not.mp hzero), o'.mTotalCount, [⟨a, s, k⟩], ?_,
        hentry, Or.inr ⟨_, rfl, le_rfl⟩⟩
      simp [o', change]

namespace Sound

variable {a s : Obj} {k : ℤ}

/-- A raise for an object without a drain. -/
lemma change_raise (h : Sound T debt o) (hdue : Due T a s k debt) (hk : 0 < k)
    (hfits : o.getObjectionTotal a + k < 2 ^ 31) (hall : o.mTopAllDropped = false)
    (hne : ∀ c ∈ o.drains, c.obj ≠ a) :
    Sound T ((T.forest o.mPropMode).send a k) (o.change a s k) := by
  have htotal := h.total_nonneg a
  have hcount := h.count_nonneg a
  have hzero := (h.draining_eq_zero_iff a).mpr hne
  have hchange := h.change hdue 0 o.mScheduledList o.mForkedList o.mForkedContexts h.drainsOk
    (by simp [draining, UvmObjection.drains])
    (by rw [hzero]; simp only [add_zero, ne_eq, not_true_eq_false, iff_false]; omega) (by omega)
    hfits (fun _ => by omega) h.forks (by simp [hall])
  rwa [add_zero] at hchange

/-- A raise for an object with a drain, which is taken back. -/
lemma change_takeBack (h : Sound T debt o) (hdue : Due T a s k debt) (hk : 0 < k)
    (hfits : o.getObjectionTotal a + k < 2 ^ 31) (hall : o.mTopAllDropped = false)
    {c : ObjectionContext Obj} {l₁ l₂ l₃ : List (ObjectionContext Obj)} (hc : c.obj = a)
    (hperm : o.drains.Perm (c :: (l₁ ++ l₂ ++ l₃))) (hlen : l₂.length ≤ o.mForkedList.length) :
    Sound T ((T.forest o.mPropMode).send a (k - c.count))
      { o.change a s k with mScheduledList := l₁, mForkedList := l₂, mForkedContexts := l₃ } := by
  subst hc
  have htotal := h.total_nonneg c.obj
  have hcount := h.count_nonneg c.obj
  have hdrains := h.drainsOk.perm hperm
  have hheld : o.draining = Pi.single c.obj c.count
      + heldBy ObjectionContext.obj ObjectionContext.count (l₁ ++ l₂ ++ l₃) := by
    rw [draining, heldBy_perm _ _ hperm, heldBy_cons]
  have hchange := h.change hdue (-c.count) l₁ l₂ l₃ hdrains.of_cons
    (by rw [hheld, Pi.single_neg]; abel)
    (by
      rw [hheld, Pi.add_apply, Pi.single_eq_same, hdrains.heldBy_eq_zero]
      simp only [add_zero, add_neg_cancel, ne_eq, not_true_eq_false, iff_false]
      omega)
    (by omega) hfits (fun _ => by omega) (hlen.trans h.forks) (by simp [hall])
  rwa [← sub_eq_add_neg] at hchange

/-- A raise leaves to the parent what is not made up for by a drain that it takes back. -/
lemma raise (h : Sound T debt o) (hdue : Due T a s k debt) (hk : 0 < k)
    (hfits : o.getObjectionTotal a + k < 2 ^ 31) (hall : o.mTopAllDropped = false)
    {ctxt : Option (ObjectionContext Obj)} {o' : UvmObjection Obj}
    (ht : (o.change a s k).takeBack a = (ctxt, o')) :
    Sound T ((T.forest o.mPropMode).send a (ctxt.elim k fun c => int32 (k - c.count))) o' ∧
      (∀ c ∈ ctxt, -2 ^ 31 < int32 (k - c.count) ∧ int32 (k - c.count) ≤ k) ∧
      ∃ l₁ l₂ l₃, o' = { o.change a s k with
        mScheduledList := l₁, mForkedList := l₂, mForkedContexts := l₃ } := by
  rcases takeBack_spec a (o.change a s k) with ⟨heq, hne⟩ | ⟨c, l₁, l₂, l₃, heq, hc, hperm, hlen⟩
  · obtain ⟨rfl, rfl⟩ := Prod.mk.inj (heq.symm.trans ht)
    exact ⟨h.change_raise hdue hk hfits hall hne, by simp, _, _, _, rfl⟩
  · obtain ⟨rfl, rfl⟩ := Prod.mk.inj (heq.symm.trans ht)
    have hmem : c ∈ o.drains := hperm.mem_iff.mpr List.mem_cons_self
    have hpos := h.drainsOk.pos c hmem
    have hlt := h.drainsOk.fits c hmem
    have htotal := h.total_nonneg a
    -- the difference of two counts is an `int`
    have hdiff : int32 (k - c.count) = k - c.count := int32_eq_self (by omega) (by omega)
    rw [Option.elim_some, hdiff]
    refine ⟨h.change_takeBack hdue hk hfits hall hc hperm hlen, ?_, l₁, l₂, l₃, rfl⟩
    intro d hd
    obtain rfl := Option.some.inj hd
    rw [hdiff]
    constructor <;> omega

end Sound

omit [Fintype Obj] in
/-- The objects above `a` have room for what they are told of. -/
lemma fits_next {a : Obj} {k k' : ℤ}
    (hfits : ∀ b, (T.forest o.mPropMode).Under a b → o.getObjectionTotal b + k < 2 ^ 31)
    (ha : a ≠ T.mTop) (hk' : k' ≤ k) (s b : Obj)
    (hb : (T.forest o.mPropMode).Under (T.next o.mPropMode a) b) :
    (o.change a s k).getObjectionTotal b + k' < 2 ^ 31 := by
  have hne : b ≠ a := by
    rintro rfl
    exact absurd hb.depth_le (not_le.mpr (T.depth_next o.mPropMode ha))
  have hlt := hfits b (.up (by simp [ObjectTree.forest, ha]) hb)
  have htotal : (o.change a s k).getObjectionTotal b = o.getObjectionTotal b :=
    congrArg (Option.getD · 0) (Function.update_of_ne hne _ _)
  rw [htotal]
  omega

/-- **A raise pays its debt**, if the objects it is told of have room for it.  Nothing is
reported. -/
theorem mRaise_sound {a s : Obj} {k : ℤ} (h : Sound T debt o) (hdue : Due T a s k debt)
    (hk : 0 < k)
    (hfits : ∀ b, (T.forest o.mPropMode).Under a b → o.getObjectionTotal b + k < 2 ^ 31)
    (hall : o.mTopAllDropped = false) :
    Sound T 0 (mRaise T a s k o) ∧ ∃ totals l₁ l₂ l₃, mRaise T a s k o = { o with
        mTotalCount := totals
        mSourceCount := if s = a then addCount a k o.mSourceCount else o.mSourceCount
        mScheduledList := l₁
        mForkedList := l₂
        mForkedContexts := l₃ } := by
  fun_induction mRaise T a s k o generalizing debt
  case case1 => exact absurd rfl hk.ne
  case case2 k o _ o' ht =>
      obtain ⟨hsound, -, l₁, l₂, l₃, rfl⟩ := h.raise hdue hk (hfits _ (.refl _)) hall ht
      rw [send_top] at hsound
      exact ⟨hsound, _, l₁, l₂, l₃, rfl⟩
  case case3 a k o _ o' ht ha ih =>
      obtain ⟨hsound, -, l₁, l₂, l₃, rfl⟩ := h.raise hdue hk (hfits a (.refl a)) hall ht
      rw [send_next o.mPropMode ha, Option.elim_none] at hsound
      obtain ⟨hsound', totals, l₁', l₂', l₃', heq⟩ :=
        ih hsound (hdue.next o.mPropMode ha k) hk (fits_next hfits ha le_rfl s) hall
      refine ⟨hsound', totals, l₁', l₂', l₃', ?_⟩
      rw [heq, if_neg (hdue.next_ne o.mPropMode ha)]
      rfl
  case case4 a k o _ ctxt o' ht diffCount hdiff =>
      obtain ⟨hsound, -, l₁, l₂, l₃, rfl⟩ := h.raise hdue hk (hfits a (.refl a)) hall ht
      refine ⟨?_, _, l₁, l₂, l₃, rfl⟩
      have hsend : (T.forest o.mPropMode).send a diffCount = 0 := by
        rw [hdiff, send_zero]
      rwa [← hsend]
  case case5 k o _ ctxt o' diffCount _ ht =>
      obtain ⟨hsound, -, l₁, l₂, l₃, rfl⟩ := h.raise hdue hk (hfits _ (.refl _)) hall ht
      rw [send_top] at hsound
      exact ⟨hsound, _, l₁, l₂, l₃, rfl⟩
  case case6 a k o _ ctxt o' ht diffCount _ ha hdiff ih =>
      obtain ⟨hsound, hbounds, l₁, l₂, l₃, rfl⟩ := h.raise hdue hk (hfits a (.refl a)) hall ht
      rw [send_next o.mPropMode ha, Option.elim_some] at hsound
      obtain ⟨hsound', totals, l₁', l₂', l₃', heq⟩ :=
        ih hsound (hdue.next o.mPropMode ha diffCount) hdiff
          (fits_next hfits ha (hbounds ctxt rfl).2 s) hall
      refine ⟨hsound', totals, l₁', l₂', l₃', ?_⟩
      rw [heq, if_neg (hdue.next_ne o.mPropMode ha)]
      rfl
  case case7 a k o _ ctxt o' ht diffCount hne ha hdiff =>
      -- the parent has counted more than is raised now
      obtain ⟨hsound, hbounds, l₁, l₂, l₃, rfl⟩ := h.raise hdue hk (hfits a (.refl a)) hall ht
      have hlt : -2 ^ 31 < diffCount := (hbounds ctxt rfl).1
      rw [send_next o.mPropMode ha, Option.elim_some] at hsound
      have hnext := hdue.next_ne o.mPropMode ha
      have hdue' := hdue.next o.mPropMode ha (- -diffCount)
      rw [neg_neg] at hdue'
      rw [int32_eq_self (by omega : -2 ^ 31 ≤ -diffCount) (by omega)]
      obtain ⟨hsound', totals, l, heq, -⟩ := mDrop_sound (k := -diffCount) hsound
        (by rw [neg_neg]; exact hdue') (by omega) fun hs => absurd hs hnext
      refine ⟨hsound', totals, l₁ ++ l, l₂, l₃, ?_⟩
      rw [heq, if_neg hnext]
      rfl

end UvmObjection

end SinglePortRam
