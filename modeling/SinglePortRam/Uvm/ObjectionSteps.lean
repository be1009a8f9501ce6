import SinglePortRam.Uvm.ObjectionCounts

/-!
# The actions on an objection

* `Sound.settle`, **`Sound.forkedDrain`** — the end of a drain.
* `ObjectionBook`, `objectionBook` — what an objection is meant to keep, from its calls only.
* **`Sound.step`** — every action preserves the invariant of the counts, and enters its call in the
  book.
* `run_sound`, `run_tracks` — the same for runs.
-/

namespace SinglePortRam

open Tally

variable {Obj : Type*} [DecidableEq Obj]

namespace UvmObjection

variable {T : ObjectTree Obj} {o o' : UvmObjection Obj}

/-! ## The calls -/

omit [DecidableEq Obj] in
@[simp] lemma finished_report (r : ObjectionReport Obj) (o : UvmObjection Obj) :
    (o.report r).finished = (o.finished || r.isFatal) := by
  simp [finished, report]

/-- More is dropped than there is. -/
lemma mDrop_belowZero {a : Obj} {k : ℤ} (hk : 0 < k) (h : o.getObjectionCount a < k) :
    mDrop T a a k o = if o.mCleared then o else o.report (.zero a) := by
  have hbelow :
      (belowZero a k o.mTotalCount || (a = a && belowZero a k o.mSourceCount)) = true := by
    simp only [Bool.or_eq_true, Bool.and_eq_true, decide_true, true_and]
    exact Or.inr ((belowZero_iff hk).mpr h)
  rw [mDrop, if_neg hk.ne', if_pos hbelow]

/-- A drop has nothing to do with the drains that are running. -/
lemma mDrop_mForkedContexts (a s : Obj) (k : ℤ) (o : UvmObjection Obj)
    (l : List (ObjectionContext Obj)) :
    mDrop T a s k { o with mForkedContexts := l }
      = { mDrop T a s k o with mForkedContexts := l } := by
  fun_induction mDrop T a s k o
  case case1 hk => rw [mDrop, if_pos hk]
  case case2 hk hbelow hcleared => rw [mDrop, if_neg hk, if_pos hbelow, if_pos hcleared]
  case case3 hk hbelow hcleared =>
      rw [mDrop, if_neg hk, if_pos hbelow, if_neg hcleared]
      rfl
  case case4 o hk hbelow o' hne =>
      rw [mDrop, if_neg hk, if_neg hbelow]
      exact (if_pos hne).trans (dif_pos rfl)
  case case5 a o hk hbelow o' hne ha ih =>
      rw [mDrop, if_neg hk, if_neg hbelow]
      exact ((if_pos hne).trans (dif_neg ha)).trans ih
  case case6 a o hk hbelow o' hzero =>
      rw [mDrop, if_neg hk, if_neg hbelow]
      exact if_neg hzero

/-- A drop leaves the running drains as they are. -/
lemma mForkedContexts_mDrop (a s : Obj) (k : ℤ) (o : UvmObjection Obj) :
    (mDrop T a s k o).mForkedContexts = o.mForkedContexts := by
  have h := congrArg mForkedContexts (mDrop_mForkedContexts (T := T) a s k o o.mForkedContexts)
  exact h

variable [Fintype Obj] {debt : Obj → ℤ}

omit [Fintype Obj] in
/-- Every object is below the top. -/
lemma under_top (propMode : Bool) (a : Obj) : (T.forest propMode).Under a T.mTop := by
  induction h : T.depth a using Nat.strong_induction_on generalizing a with
  | h n ih =>
      by_cases ha : a = T.mTop
      · rw [ha]
        exact .refl _
      · refine .up (b := T.next propMode a) ?_ (ih _ (h ▸ T.depth_next propMode ha) _ rfl)
        simp [ObjectTree.forest, ha]

namespace Sound

/-- Initially, and after everything has been cleared. -/
lemma of_none (hsource : ∀ a, o.mSourceCount a = none) (htotal : ∀ a, o.mTotalCount a = none)
    (hdrains : o.drains = []) (hforked : o.mForkedList = []) : Sound T 0 o := by
  have hcount' : o.getObjectionCount = 0 := funext fun a => by simp [getObjectionCount, hsource]
  have htotal' : o.getObjectionTotal = 0 := funext fun a => by simp [getObjectionTotal, htotal]
  have hdraining : o.draining = 0 := by rw [draining, hdrains, heldBy_nil]
  refine ⟨?_, ?_, ?_, ?_, ?_, ?_, fun a _ => hsource a, ?_, fun _ => htotal _⟩
  · intro a
    simp [hcount', htotal', hdraining, Forest.sumChildren]
  · simp [hcount']
  · simp [htotal']
  · simp [htotal']
  · rw [hdrains]
    exact ⟨List.nodup_nil, by simp, by simp, by simp⟩
  · simp [htotal, hdraining]
  · simp [hforked]

/-- The drains are handed from one list to the next. -/
lemma move (h : Sound T debt o) (l₁ l₂ l₃ : List (ObjectionContext Obj)) (n : ℕ)
    (hperm : o.drains.Perm (l₁ ++ l₂ ++ l₃)) (hlen : l₂.length ≤ n) :
    Sound T debt { o with
      mScheduledList := l₁, mForkedList := l₂, mForkedContexts := l₃, forks := n } := by
  have hdraining : draining { o with
      mScheduledList := l₁, mForkedList := l₂, mForkedContexts := l₃, forks := n } = o.draining :=
    (heldBy_perm _ _ hperm).symm
  refine ⟨?_, h.count_nonneg, h.total_nonneg, h.total_lt, h.drainsOk.perm hperm, ?_, h.entry, hlen,
    h.allDropped⟩
  · rw [hdraining]
    exact h.balanced
  · rw [hdraining]
    exact h.zero

/-- Where no objection is left at the top, none is left anywhere. -/
lemma eq_zero_of_top (h : Sound T 0 o) (htop : o.getObjectionTotal T.mTop = 0) (a : Obj) :
    o.getObjectionCount a = 0 ∧ o.getObjectionTotal a = 0 ∧ (a ≠ T.mTop → o.draining a = 0) := by
  have hzero := h.balanced.eq_zero h.count_nonneg h.draining_nonneg htop (under_top _ a)
  exact ⟨hzero.1, h.balanced.total_eq_zero h.count_nonneg h.draining_nonneg htop (under_top _ a),
    hzero.2⟩

/-- The mode changes only while nothing is counted. -/
lemma setPropagateMode (h : Sound T 0 o) (propMode : Bool) :
    Sound T 0 (setPropagateMode T propMode o) := by
  rw [UvmObjection.setPropagateMode]
  split_ifs with hraised
  · exact h.report _
  have htop : o.getObjectionTotal T.mTop = 0 := by
    cases hall : o.mTopAllDropped with
    | true => rw [getObjectionTotal, h.allDropped hall, Option.getD_none]
    | false => simpa [hall] using hraised
  refine ⟨?_, h.count_nonneg, h.total_nonneg, h.total_lt, h.drainsOk, h.zero, h.entry, h.forks,
    h.allDropped⟩
  -- nothing is counted, so the new parents have nothing to know
  intro a
  have hchildren : (T.forest propMode).sumChildren (o.getObjectionTotal + o.draining) a = 0 := by
    classical
    refine Finset.sum_eq_zero fun c hc => ?_
    have hne : c ≠ T.mTop := by
      rintro rfl
      simp [ObjectTree.forest] at hc
    obtain ⟨-, htotal, hdraining⟩ := h.eq_zero_of_top htop c
    rw [Pi.add_apply, htotal, hdraining hne, add_zero]
  obtain ⟨hcount, htotal, -⟩ := h.eq_zero_of_top htop a
  change o.getObjectionTotal a + 0 = o.getObjectionCount a
    + (T.forest propMode).sumChildren (o.getObjectionTotal + o.draining) a
  rw [hchildren, hcount, htotal]

/-- After everything has been forgotten. -/
lemma clear (a : Obj) (o : UvmObjection Obj) : Sound T 0 (clear T a o) := by
  rw [UvmObjection.clear]
  exact of_none (fun _ => rfl) (fun _ => rfl) rfl rfl

/-- What the top has room for, all objects have room for. -/
lemma fits_of_top (h : Sound T 0 o) {k : ℤ} (hfits : o.getObjectionTotal T.mTop + k < 2 ^ 31)
    (a : Obj) : o.getObjectionTotal a + k < 2 ^ 31 := by
  have hle := h.balanced.total_le h.count_nonneg h.draining_nonneg (under_top o.mPropMode a)
  omega

/-- What is raised is counted all the way to the top. -/
lemma raiseObjection (h : Sound T 0 o) {a : Obj} {k : ℤ} (hk : 0 ≤ k)
    (hfits : o.getObjectionTotal T.mTop + k < 2 ^ 31) : Sound T 0 (raiseObjection T a k o) := by
  rw [UvmObjection.raiseObjection]
  rcases hk.eq_or_lt with rfl | hk
  · rw [mRaise, if_pos rfl]
    exact h.reopen
  · exact (mRaise_sound h.reopen (Or.inl ⟨rfl, rfl⟩) hk (fun b _ => h.fits_of_top hfits b) rfl).1

/-- What is dropped is told to the first object that comes to zero, or reported. -/
lemma dropObjection (h : Sound T 0 o) {a : Obj} {k : ℤ} (hk : 0 ≤ k) :
    Sound T 0 (dropObjection T a k o) := by
  rw [UvmObjection.dropObjection]
  rcases hk.eq_or_lt with rfl | hk
  · rwa [mDrop, if_pos rfl]
  by_cases hcount : k ≤ o.getObjectionCount a
  · exact (mDrop_sound h (Or.inl ⟨rfl, rfl⟩) hk fun _ => hcount).1
  · rw [mDrop_belowZero hk (not_le.mp hcount)]
    split_ifs
    · exact h
    · exact h.report _

end Sound

/-! ## The processes -/

omit [DecidableEq Obj] [Fintype Obj] in
/-- The background process takes the oldest drain. -/
lemma executeScheduledFork_eq (hstep : o.executeScheduledFork = some o') :
    ∃ c rest, o.mScheduledList = c :: rest ∧ o' = { o with
      mScheduledList := rest
      mForkedList := o.mForkedList ++ [c]
      mForkedContexts := o.mForkedContexts
      forks := o.forks + 1 } := by
  rw [executeScheduledFork] at hstep
  cases hlist : o.mScheduledList with
  | nil => simp [hlist] at hstep
  | cons c rest =>
      rw [hlist] at hstep
      exact ⟨c, rest, rfl, (Option.some.inj hstep).symm⟩

/-- A process that starts finds a drain, or nothing to do. -/
lemma startFork_eq (h : Sound T debt o) (hstep : o.startFork = some o') :
    0 < o.forks ∧ ((o.mForkedList = [] ∧ o' = { o with forks := o.forks - 1 }) ∨
      ∃ c rest, o.mForkedList = c :: rest ∧ o' = { o with
        mScheduledList := o.mScheduledList
        mForkedList := rest
        mForkedContexts := o.mForkedContexts ++ [c]
        forks := o.forks - 1 }) := by
  rw [startFork] at hstep
  split_ifs at hstep with hforks
  refine ⟨Nat.pos_of_ne_zero hforks, ?_⟩
  cases hlist : o.mForkedList with
  | nil =>
      rw [hlist] at hstep
      exact Or.inl ⟨rfl, (Option.some.inj hstep).symm⟩
  | cons c rest =>
      rw [hlist] at hstep
      have hnodup := h.drainsOk.nodup
      rw [drains, hlist, List.map_append, List.nodup_append] at hnodup
      -- no other drain of the object is running
      have hfilter : o.mForkedContexts.filter (·.obj ≠ c.obj) = o.mForkedContexts := by
        refine List.filter_eq_self.mpr fun d hd => ?_
        simpa using (hnodup.2.2 c.obj (by simp) d.obj (List.mem_map_of_mem hd)).symm
      refine Or.inr ⟨c, rest, rfl, ?_⟩
      rw [← Option.some.inj hstep, hfilter]

variable (T) in
/-- The drain of `a` has ended, and its parent is still to be told. -/
def settle (a : Obj) (o : UvmObjection Obj) : UvmObjection Obj :=
  { o with
    mTopAllDropped := if a = T.mTop then true else o.mTopAllDropped
    mSourceCount := deleteZero a o.mSourceCount
    mTotalCount := deleteZero a o.mTotalCount
    mForkedContexts := o.mForkedContexts.eraseP (·.obj = a) }

omit [Fintype Obj] in
/-- The end of a drain: its counts are deleted, and the next object is told. -/
lemma forkedDrain_eq {a : Obj} (hstep : forkedDrain T a o = some o') :
    ∃ c, o.mForkedContexts.find? (·.obj = a) = some c ∧ o' = if a = T.mTop then settle T a o
      else mDrop T (T.next o.mPropMode a) c.sourceObj c.count (settle T a o) := by
  rw [forkedDrain] at hstep
  cases hfind : o.mForkedContexts.find? (·.obj = a) with
  | none => simp [hfind] at hstep
  | some c =>
      rw [hfind] at hstep
      refine ⟨c, rfl, ?_⟩
      rw [← Option.some.inj hstep]
      by_cases ha : a = T.mTop
      · simp only [settle, if_pos ha]
      · simp only [settle, if_neg ha]
        -- the drop does not change the list, from which the drain is deleted afterwards
        simp only [mForkedContexts_mDrop]
        exact (mDrop_mForkedContexts _ _ _ _ _).symm

namespace Sound

variable {a : Obj} {c : ObjectionContext Obj}

omit [Fintype Obj] in
/-- A drain that is running is one of the drains. -/
lemma mem_drains (hfind : o.mForkedContexts.find? (·.obj = a) = some c) :
    c ∈ o.drains ∧ c.obj = a :=
  ⟨List.mem_append_right _ (List.mem_of_find?_eq_some hfind), by simpa using List.find?_some hfind⟩

/-- An object with a drain has dropped everything. -/
lemma count_eq_zero (h : Sound T 0 o) (hc : c ∈ o.drains) : o.getObjectionCount c.obj = 0 := by
  have hle := h.count_le c.obj
  have := h.count_nonneg c.obj
  rw [h.getObjectionTotal_eq_zero hc, Pi.zero_apply] at hle
  omega

/-- The end of a drain changes no count. -/
lemma getObjectionCount_settle (h : Sound T 0 o)
    (hfind : o.mForkedContexts.find? (·.obj = a) = some c) :
    (UvmObjection.settle T a o).getObjectionCount = o.getObjectionCount := by
  obtain ⟨hmem, rfl⟩ := mem_drains hfind
  have hcount := h.count_eq_zero hmem
  funext b
  change (deleteZero c.obj o.mSourceCount b).getD 0 = _
  rw [deleteZero_apply hcount]
  split_ifs with hb
  · rw [hb, hcount, Option.getD_none]
  · rfl

/-- The end of a drain leaves a debt of the next object. -/
lemma settle (h : Sound T 0 o) (hfind : o.mForkedContexts.find? (·.obj = a) = some c) :
    Sound T ((T.forest o.mPropMode).send a (-c.count)) (settle T a o) := by
  have hcount' := h.getObjectionCount_settle hfind
  obtain ⟨hmem, rfl⟩ := mem_drains hfind
  have htotal := h.getObjectionTotal_eq_zero hmem
  have hcount := h.count_eq_zero hmem
  have hperm : o.drains.Perm (c :: (UvmObjection.settle T c.obj o).drains) :=
    ((perm_cons_eraseP hfind).append_left _).trans List.perm_middle
  have hdrains := h.drainsOk.perm hperm
  have hrest : (UvmObjection.settle T c.obj o).draining c.obj = 0 := hdrains.heldBy_eq_zero
  have hdraining : (UvmObjection.settle T c.obj o).draining
      = o.draining + Pi.single c.obj (-c.count) := by
    rw [draining, draining, heldBy_perm _ _ hperm, heldBy_cons, Pi.single_neg]
    abel
  have hentry (b : Obj) : (UvmObjection.settle T c.obj o).mTotalCount b
      = if b = c.obj then none else o.mTotalCount b := deleteZero_apply htotal b
  have hsource (b : Obj) : (UvmObjection.settle T c.obj o).mSourceCount b
      = if b = c.obj then none else o.mSourceCount b := deleteZero_apply hcount b
  have htotal' : (UvmObjection.settle T c.obj o).getObjectionTotal = o.getObjectionTotal := by
    funext b
    rw [getObjectionTotal, hentry]
    split_ifs with hb
    · rw [hb, htotal, Option.getD_none]
    · rfl
  refine ⟨?_, ?_, ?_, ?_, hdrains.of_cons, ?_, ?_, h.forks, ?_⟩
  · rw [htotal', hcount', hdraining]
    change Balanced (T.forest o.mPropMode) _ _ _ _
    simpa using h.balanced.change c.obj 0 0 (-c.count)
  · rw [hcount']
    exact h.count_nonneg
  · rw [htotal']
    exact h.total_nonneg
  · rw [htotal']
    exact h.total_lt
  · intro b
    by_cases hb : b = c.obj
    · simp [hentry, hb, hrest]
    · rw [hentry, if_neg hb, hdraining, Pi.add_apply, Pi.single_eq_of_ne hb, add_zero]
      exact h.zero b
  · intro b hb
    rw [hsource]
    split_ifs with hbc
    · rfl
    · rw [hentry, if_neg hbc] at hb
      exact h.entry b hb
  · intro hall
    rw [hentry]
    split_ifs with htop
    · rfl
    · refine h.allDropped ?_
      rwa [UvmObjection.settle, if_neg (Ne.symm htop)] at hall

/-- **A drain ends.**  At most one drain begins, above the object. -/
theorem forkedDrain (h : Sound T 0 o) (hstep : forkedDrain T a o = some o') :
    Sound T 0 o' ∧ ∃ c totals l, o.mForkedContexts.find? (·.obj = a) = some c ∧
      o' = { UvmObjection.settle T a o with
        mTotalCount := totals
        mScheduledList := o.mScheduledList ++ l } ∧
      (∀ b, b ≠ a → o.mTotalCount b ≠ none → totals b ≠ none) ∧
      (l = [] ∨ ∃ d, l = [d] ∧ T.depth d.obj < T.depth a) := by
  obtain ⟨c, hfind, rfl⟩ := forkedDrain_eq hstep
  have hsound := h.settle hfind
  obtain ⟨hmem, hobj⟩ := mem_drains hfind
  have hentry (b : Obj) (hb : b ≠ a) (hne : o.mTotalCount b ≠ none) :
      (UvmObjection.settle T a o).mTotalCount b ≠ none := by
    change deleteZero a o.mTotalCount b ≠ none
    rw [deleteZero]
    split_ifs
    · rwa [Function.update_of_ne hb]
    · exact hne
  split_ifs with ha
  · rw [ha, send_top] at hsound
    rw [ha]
    exact ⟨hsound, c, _, [], ha ▸ hfind, by rw [List.append_nil]; rfl, ha ▸ hentry, Or.inl rfl⟩
  · rw [send_next o.mPropMode ha] at hsound
    have hlt := T.depth_next o.mPropMode ha
    have hle := h.drainsOk.source c hmem
    rw [hobj] at hle
    have hne : c.sourceObj ≠ T.next o.mPropMode a := by
      intro heq
      rw [← heq] at hlt
      exact absurd hle (not_le.mpr hlt)
    obtain ⟨hsound', totals, l, heq, htotals, hl⟩ := mDrop_sound hsound
      (Or.inr ⟨hlt.trans_le hle, rfl⟩) (h.drainsOk.pos c hmem) fun hs => absurd hs hne
    refine ⟨hsound', c, totals, l, hfind, ?_, fun b hb hn => htotals b (hentry b hb hn), ?_⟩
    · rw [heq, if_neg hne]
      rfl
    · refine hl.imp id ?_
      rintro ⟨d, hd, hdepth⟩
      exact ⟨d, hd, hdepth.trans_lt hlt⟩

end Sound

end UvmObjection

/-! ## The books -/

/-- The actions of the processes of an objection. -/
def ObjectionAction.Process : ObjectionAction Obj → Prop
  | .executeScheduledFork | .startFork | .forkedDrain _ => True
  | _ => False

/-- What an objection is meant to keep: the objections that each object has raised and not dropped,
since they were last cleared. -/
structure ObjectionBook (Obj : Type*) where
  own : Obj → ℤ := 0
  cleared : Bool := false
  /-- More has been dropped than was there. -/
  failed : Bool := false

/-- A call is entered in the book.  The processes of the objection have no part in it. -/
def ObjectionBook.enter (b : ObjectionBook Obj) (x : ObjectionAction Obj) : ObjectionBook Obj :=
  if b.failed then b
  else match x with
    | .raise obj count => { b with own := b.own + Pi.single obj count, cleared := false }
    | .drop obj count =>
        if count ≤ b.own obj then { b with own := b.own - Pi.single obj count }
        else if b.cleared then b
        else { b with failed := true }
    | .clear _ => { b with own := 0, cleared := true }
    | _ => b

/-- The processes enter nothing. -/
lemma ObjectionBook.enter_process {b : ObjectionBook Obj} {x : ObjectionAction Obj}
    (hx : x.Process) : b.enter x = b := by
  cases x <;> first | exact hx.elim | exact ite_self b

/-- The book after some calls. -/
def objectionBook (actions : List (ObjectionAction Obj)) : ObjectionBook Obj :=
  actions.foldl ObjectionBook.enter {}

/-- The counts can take the call: its count is not negative, and with a raise the total of the top
stays below `2 ^ 31`. -/
def ObjectionAction.Legal (T : ObjectTree Obj) (o : UvmObjection Obj) : ObjectionAction Obj → Prop
  | .raise _ count => 0 ≤ count ∧ o.getObjectionTotal T.mTop + count < 2 ^ 31
  | .drop _ count => 0 ≤ count
  | _ => True

namespace UvmObjection

/-- Every action of a run is one that the counts can take. -/
def LegalRun (T : ObjectTree Obj) : UvmObjection Obj → List (ObjectionAction Obj) → Prop
  | _, [] => True
  | o, x :: actions => x.Legal T o ∧ LegalRun T ((step T o x).getD o) actions

variable {T : ObjectTree Obj} {o o' : UvmObjection Obj}

/-- The objection has the counts of the book. -/
structure Tracks (o : UvmObjection Obj) (b : ObjectionBook Obj) : Prop where
  count : o.getObjectionCount = b.own
  cleared : o.mCleared = b.cleared
  failed : o.finished = b.failed

variable [Fintype Obj] {b : ObjectionBook Obj}

namespace Sound

/-- A call changes the count of its object by what it raises or drops. -/
lemma getObjectionCount_call (h : Sound T 0 o) {a : Obj} {k : ℤ}
    (hnonneg : 0 ≤ o.getObjectionCount a + k) (hfits : o.getObjectionTotal a + k < 2 ^ 31) :
    (o.change a a k).getObjectionCount = o.getObjectionCount + Pi.single a k := by
  have hle := h.count_le_total (Or.inl ⟨rfl, rfl⟩ : Due T a a k 0) rfl
  rw [getObjectionCount_change (fun _ => hnonneg) (fun _ => by omega), if_pos rfl]

/-- A raise is entered. -/
lemma tracks_raise (h : Sound T 0 o) (ht : Tracks o b) (hb : b.failed = false) {a : Obj} {k : ℤ}
    (hk : 0 ≤ k) (hfits : o.getObjectionTotal T.mTop + k < 2 ^ 31) :
    Tracks (UvmObjection.raiseObjection T a k o) (b.enter (.raise a k)) := by
  rw [ObjectionBook.enter, if_neg (by simp [hb]), UvmObjection.raiseObjection]
  rcases hk.eq_or_lt with rfl | hk
  · rw [mRaise, if_pos rfl]
    refine ⟨?_, rfl, ht.failed⟩
    rw [Pi.single_zero, add_zero]
    exact ht.count
  · have hfits' := h.fits_of_top hfits
    obtain ⟨-, totals, l₁, l₂, l₃, heq⟩ :=
      mRaise_sound h.reopen (Or.inl ⟨rfl, rfl⟩) hk (fun d _ => hfits' d) rfl
    rw [heq]
    refine ⟨?_, rfl, ht.failed⟩
    rw [← ht.count]
    exact h.getObjectionCount_call (add_nonneg (h.count_nonneg a) hk.le) (hfits' a)

/-- A drop is entered, or it has failed in the book as well. -/
lemma tracks_drop (h : Sound T 0 o) (ht : Tracks o b) (hb : b.failed = false) {a : Obj} {k : ℤ}
    (hk : 0 ≤ k) : Tracks (UvmObjection.dropObjection T a k o) (b.enter (.drop a k)) := by
  have hown : b.own a = o.getObjectionCount a := by rw [ht.count]
  rw [ObjectionBook.enter, if_neg (by simp [hb]), UvmObjection.dropObjection]
  rcases hk.eq_or_lt with rfl | hk
  · rw [mDrop, if_pos rfl, hown, if_pos (h.count_nonneg a)]
    exact ⟨by simpa using ht.count, ht.cleared, ht.failed⟩
  by_cases hcount : k ≤ o.getObjectionCount a
  · obtain ⟨-, totals, l, heq, -⟩ := mDrop_sound h (Or.inl ⟨rfl, rfl⟩) hk fun _ => hcount
    have hlt := h.total_lt a
    rw [heq, hown, if_pos hcount]
    refine ⟨?_, ht.cleared, ht.failed⟩
    rw [← ht.count, sub_eq_add_neg, ← Pi.single_neg]
    exact h.getObjectionCount_call (by omega) (by omega)
  · rw [mDrop_belowZero hk (not_le.mp hcount), hown, if_neg hcount, ← ht.cleared]
    split_ifs
    · exact ht
    · exact ⟨ht.count, rfl, by simp [ObjectionReport.isFatal]⟩

omit [Fintype Obj] in
/-- A clear is entered. -/
lemma tracks_clear (ht : Tracks o b) (hb : b.failed = false) (a : Obj) :
    Tracks (UvmObjection.clear T a o) (b.enter (.clear a)) := by
  rw [ObjectionBook.enter, if_neg (by simp [hb])]
  refine ⟨rfl, rfl, ?_⟩
  change finished (if _ then o.report (.clear a) else o) = b.failed
  split_ifs
  · simp [ObjectionReport.isFatal, ht.failed]
  · exact ht.failed

omit [DecidableEq Obj] [Fintype Obj] in
/-- The mode is not in the book. -/
lemma tracks_setPropagateMode (ht : Tracks o b) (m : Bool) :
    Tracks (UvmObjection.setPropagateMode T m o) b := by
  rw [UvmObjection.setPropagateMode]
  split_ifs
  · exact ⟨ht.count, ht.cleared, by simp [ObjectionReport.isFatal, ht.failed]⟩
  · exact ⟨ht.count, ht.cleared, ht.failed⟩

/-- **One action.**  The counts stay sound, and go on as in the book. -/
theorem step (h : Sound T 0 o) (ht : Tracks o b) {x : ObjectionAction Obj} (hx : x.Legal T o)
    (hstep : UvmObjection.step T o x = some o') : Sound T 0 o' ∧ Tracks o' (b.enter x) := by
  unfold UvmObjection.step at hstep
  split_ifs at hstep with hfin
  have hb : b.failed = false := by
    rw [← ht.failed]
    simpa using hfin
  cases x with
  | raise a k =>
      obtain rfl := Option.some.inj hstep
      exact ⟨h.raiseObjection hx.1 hx.2, h.tracks_raise ht hb hx.1 hx.2⟩
  | drop a k =>
      obtain rfl := Option.some.inj hstep
      exact ⟨h.dropObjection hx, h.tracks_drop ht hb hx⟩
  | clear a =>
      obtain rfl := Option.some.inj hstep
      exact ⟨clear a o, tracks_clear ht hb a⟩
  | setPropagateMode m =>
      obtain rfl := Option.some.inj hstep
      rw [show b.enter (.setPropagateMode m) = b from ite_self b]
      exact ⟨h.setPropagateMode m, tracks_setPropagateMode ht m⟩
  | executeScheduledFork =>
      obtain ⟨c, rest, hlist, rfl⟩ := executeScheduledFork_eq hstep
      rw [ObjectionBook.enter_process (x := .executeScheduledFork) trivial]
      refine ⟨h.move rest _ _ _ ?_ ?_, ht.count, ht.cleared, ht.failed⟩
      · rw [drains, hlist, ← List.append_assoc rest]
        refine List.Perm.append_right _ ?_
        exact (List.perm_append_singleton c (rest ++ o.mForkedList)).symm
      · have := h.forks
        simp only [List.length_append, List.length_singleton]
        omega
  | startFork =>
      rw [ObjectionBook.enter_process (x := .startFork) trivial]
      obtain ⟨hforks, ⟨hlist, rfl⟩ | ⟨c, rest, hlist, rfl⟩⟩ := startFork_eq h hstep
      · refine ⟨h.move o.mScheduledList o.mForkedList o.mForkedContexts _ (.refl _) ?_, ht.count,
          ht.cleared, ht.failed⟩
        rw [hlist]
        exact Nat.zero_le _
      · refine ⟨h.move o.mScheduledList rest _ _ ?_ ?_, ht.count, ht.cleared, ht.failed⟩
        · rw [drains, hlist]
          refine (List.perm_middle.append_right _).trans ?_
          rw [← List.append_assoc]
          exact (List.perm_append_singleton c _).symm
        · have hlen := h.forks
          rw [hlist, List.length_cons] at hlen
          omega
  | forkedDrain a =>
      rw [ObjectionBook.enter_process (x := .forkedDrain a) trivial]
      obtain ⟨hsound, c, totals, l, hfind, rfl, -⟩ := h.forkedDrain hstep
      exact ⟨hsound, (h.getObjectionCount_settle hfind).trans ht.count, ht.cleared, ht.failed⟩

end Sound

omit [Fintype Obj] in
/-- What is not possible is not entered either. -/
lemma enter_of_step_eq_none (ht : Tracks o b) {x : ObjectionAction Obj}
    (hstep : step T o x = none) : b.enter x = b := by
  unfold step at hstep
  split_ifs at hstep with hfin
  · exact if_pos (ht.failed ▸ hfin)
  · cases x with
    | executeScheduledFork | startFork | forkedDrain => exact ObjectionBook.enter_process trivial
    | raise | drop | clear | setPropagateMode => cases hstep

variable {actions : List (ObjectionAction Obj)}

/-- The run lemma, by induction over the actions. -/
lemma run_sound_tracks (h : Sound T 0 o) (ht : Tracks o b) (hlegal : LegalRun T o actions) :
    Sound T 0 (Transition.run (step T) o actions) ∧
      Tracks (Transition.run (step T) o actions) (actions.foldl ObjectionBook.enter b) := by
  induction actions generalizing o b with
  | nil => exact ⟨h, ht⟩
  | cons x actions ih =>
      obtain ⟨hx, hlegal⟩ := hlegal
      rw [Transition.run_cons, List.foldl_cons]
      cases hstep : step T o x with
      | none =>
          rw [hstep] at hlegal
          rw [enter_of_step_eq_none ht hstep, Option.getD_none]
          exact ih h ht hlegal
      | some o' =>
          obtain ⟨h', ht'⟩ := h.step ht hx hstep
          rw [hstep] at hlegal
          rw [Option.getD_some]
          exact ih h' ht' hlegal

/-- After every run the objection has the counts of the book. -/
lemma run_tracks (hlegal : LegalRun T {} actions) :
    Tracks (run T actions) (objectionBook actions) :=
  (run_sound_tracks (T := T) (.of_none (fun _ => rfl) (fun _ => rfl) rfl rfl)
    ⟨rfl, rfl, rfl⟩ hlegal).2

end UvmObjection

end SinglePortRam
