import SinglePortRam.Core.Tally
import SinglePortRam.Core.Transition
import SinglePortRam.Uvm.Arbitration

/-!
# Objections

`uvm_objection.svh`.  The environment keeps the run phase from ending with an objection, which it
drops when its time is over.  Each object counts the objections it has raised itself, and a total,
to which those of the objects below it are propagated.  An object whose total becomes zero tells its
parent only when a process of its own has let the drain time pass; until then a raise may take the
drain back.

The background process and the processes it forks are executed at any time, and a drain ends at any
time after it has begun, which is all that is left here of the drain times.  `m_scheduled_list` is
shared between all objections; its entries for the other ones are left out, and so are the
callbacks, which do nothing here.  The objection of the run phase is a `uvm_test_done_objection`,
which adds only the stop tasks of components that ask for them; here none does.  The counts are of
the type `int`, so that each operation on them wraps around.

* `ObjectTree` — the objects objections are raised for.
* `UvmObjection`, `mRaise`, `mDrop` — the counts and the drains.
* `UvmObjection.step` — a call, or one of the processes goes on.
-/

namespace SinglePortRam

/-! ## The state -/

/-- The objects that objections are raised for, with `m_get_parent`. -/
structure ObjectTree (Obj : Type*) where
  mTop : Obj
  mGetParent : Obj → Obj
  getFullName : Obj → String
  depth : Obj → ℕ
  depth_parent : ∀ {a}, a ≠ mTop → depth (mGetParent a) < depth a

/-- `uvm_objection_context_object`: what is left to be done for an object whose total is zero. -/
structure ObjectionContext (Obj : Type*) where
  obj : Obj
  sourceObj : Obj
  count : ℤ

/-- The reports of an objection, with the object they are about. -/
inductive ObjectionReport (Obj : Type*) where
  | zero (obj : Obj)
  | clear (obj : Obj)
  | propMode
  deriving DecidableEq

/-- The variables of a `uvm_objection`.  An entry that does not exist is `none`. -/
structure UvmObjection (Obj : Type*) where
  mSourceCount : Obj → Option ℤ := fun _ => none
  mTotalCount : Obj → Option ℤ := fun _ => none
  mTopAllDropped : Bool := false
  mPropMode : Bool := true
  mCleared : Bool := false
  /-- The drains that the background process has not seen. -/
  mScheduledList : List (ObjectionContext Obj) := []
  /-- The drains that no forked process has taken. -/
  mForkedList : List (ObjectionContext Obj) := []
  /-- The entries of `m_forked_contexts`: the drains that are running. -/
  mForkedContexts : List (ObjectionContext Obj) := []
  /-- The number of processes that have been forked and have not started. -/
  forks : ℕ := 0
  reports : List (ObjectionReport Obj) := []

namespace ObjectionReport

variable {Obj : Type*}

/-- Only the drop of more than there is ends the simulation. -/
def isFatal : ObjectionReport Obj → Bool
  | zero _ => true
  | _ => false

/-- The report as it is printed, for the name of the objection. -/
def text (T : ObjectTree Obj) (name : String) : ObjectionReport Obj → UvmError
  | zero obj => ⟨"OBJTN_ZERO", "Object \"" ++ T.getFullName obj
      ++ "\" attempted to drop objection '" ++ name ++ "' count below zero"⟩
  | clear obj => ⟨"OBJTN_CLEAR", "Object '"
      ++ (if T.getFullName obj = "" then "uvm_top" else T.getFullName obj)
      ++ "' cleared objection counts for " ++ name⟩
  | propMode => ⟨"UVM/BASE/OBJTN/PROP_MODE", "The propagation mode of '" ++ name
      ++ "' cannot be changed while the objection is raised or draining!"⟩

end ObjectionReport

namespace ObjectTree

variable {Obj : Type*} (T : ObjectTree Obj)

/-- The top is the only object of its depth. -/
lemma depth_top_lt {a : Obj} (ha : a ≠ T.mTop) : T.depth T.mTop < T.depth a := by
  induction h : T.depth a using Nat.strong_induction_on generalizing a with
  | h n ih =>
      have hlt := T.depth_parent ha
      by_cases hp : T.mGetParent a = T.mTop
      · rwa [hp, h] at hlt
      · exact (ih _ (h ▸ hlt) hp rfl).trans (h ▸ hlt)

/-- The object that an object other than the top propagates an objection to. -/
def next (propMode : Bool) (obj : Obj) : Obj := if propMode then T.mGetParent obj else T.mTop

lemma depth_next (propMode : Bool) {obj : Obj} (h : obj ≠ T.mTop) :
    T.depth (T.next propMode obj) < T.depth obj := by
  rw [next]
  split_ifs
  · exact T.depth_parent h
  · exact T.depth_top_lt h

end ObjectTree

variable {Obj : Type*} [DecidableEq Obj]

/-- `counts[obj] += count`, for a count that may be absent. -/
def addCount (obj : Obj) (count : ℤ) (counts : Obj → Option ℤ) : Obj → Option ℤ :=
  Function.update counts obj (some (int32 ((counts obj).getD 0 + count)))

/-- `count` is more than there is to be dropped. -/
def belowZero (obj : Obj) (count : ℤ) (counts : Obj → Option ℤ) : Bool :=
  match counts obj with
  | none => true
  | some n => n < count

/-- Delete the entry of `obj` if it is zero. -/
def deleteZero (obj : Obj) (counts : Obj → Option ℤ) : Obj → Option ℤ :=
  if counts obj = some 0 then Function.update counts obj none else counts

namespace UvmObjection

omit [DecidableEq Obj] in
/-- A report is issued. -/
def report (r : ObjectionReport Obj) (o : UvmObjection Obj) : UvmObjection Obj :=
  { o with reports := o.reports ++ [r] }

/-- `get_objection_count`: what the object has raised itself. -/
def getObjectionCount (o : UvmObjection Obj) (obj : Obj) : ℤ := (o.mSourceCount obj).getD 0

/-- `get_objection_total`: what is known at the object. -/
def getObjectionTotal (o : UvmObjection Obj) (obj : Obj) : ℤ := (o.mTotalCount obj).getD 0

/-- An objection that is raised or dropped changes the total of `obj`, and the count if it is that
of `obj` itself. -/
def change (obj sourceObj : Obj) (count : ℤ) (o : UvmObjection Obj) : UvmObjection Obj :=
  { o with
    mTotalCount := addCount obj count o.mTotalCount
    mSourceCount :=
      if sourceObj = obj then addCount obj count o.mSourceCount else o.mSourceCount }

/-- `ctxt` of `m_raise`: a drain of `obj`, which is taken back. -/
def takeBack (obj : Obj) (o : UvmObjection Obj) :
    Option (ObjectionContext Obj) × UvmObjection Obj :=
  match o.mScheduledList.find? (·.obj = obj) with
  | some ctxt => (some ctxt, { o with mScheduledList := o.mScheduledList.eraseP (·.obj = obj) })
  | none =>
    match o.mForkedList.find? (·.obj = obj) with
    | some ctxt => (some ctxt, { o with mForkedList := o.mForkedList.eraseP (·.obj = obj) })
    | none =>
      match o.mForkedContexts.find? (·.obj = obj) with
      | some ctxt =>
          (some ctxt, { o with mForkedContexts := o.mForkedContexts.eraseP (·.obj = obj) })
      | none => (none, o)

/-! ## Raising and dropping -/

variable (T : ObjectTree Obj)

/-- `m_drop`, and `m_propagate` of a drop. -/
def mDrop (obj sourceObj : Obj) (count : ℤ) (o : UvmObjection Obj) : UvmObjection Obj :=
  if count = 0 then o
  else if belowZero obj count o.mTotalCount
      || (obj = sourceObj && belowZero obj count o.mSourceCount) then
    if o.mCleared then o else o.report (.zero obj)
  else
    let o' := o.change obj sourceObj (-count)
    if o'.getObjectionTotal obj ≠ 0 then
      if _h : obj = T.mTop then o'
      else mDrop (T.next o.mPropMode obj) sourceObj count o'
    else { o' with mScheduledList := o'.mScheduledList ++ [⟨obj, sourceObj, count⟩] }
termination_by T.depth obj
decreasing_by exact T.depth_next _ _h

/-- `m_raise`, and `m_propagate` of a raise. -/
def mRaise (obj sourceObj : Obj) (count : ℤ) (o : UvmObjection Obj) : UvmObjection Obj :=
  if count = 0 then o
  else
    match (o.change obj sourceObj count).takeBack obj with
    | (none, o') =>
        if _h : obj = T.mTop then o'
        else mRaise (T.next o.mPropMode obj) sourceObj count o'
    | (some ctxt, o') =>
        -- what the parent has still to be told of the raise and the drop together
        let diffCount := int32 (count - ctxt.count)
        if diffCount = 0 then o'
        else if _h : obj = T.mTop then o'
        else if diffCount > 0 then mRaise (T.next o.mPropMode obj) sourceObj diffCount o'
        else mDrop T (T.next o.mPropMode obj) sourceObj (int32 (-diffCount)) o'
termination_by T.depth obj
decreasing_by all_goals exact T.depth_next _ _h

/-! ## The calls -/

/-- `raise_objection`: the object is the source of what is raised. -/
def raiseObjection (obj : Obj) (count : ℤ) (o : UvmObjection Obj) : UvmObjection Obj :=
  mRaise T obj obj count { o with mCleared := false, mTopAllDropped := false }

/-- `drop_objection`: the object is the source of what is dropped. -/
def dropObjection (obj : Obj) (count : ℤ) (o : UvmObjection Obj) : UvmObjection Obj :=
  mDrop T obj obj count o

/-- `clear`: the counts and the drains are forgotten.  It is reported if the top has a total. -/
def clear (obj : Obj) (o : UvmObjection Obj) : UvmObjection Obj :=
  let o' :=
    if !o.mTopAllDropped && o.getObjectionTotal T.mTop ≠ 0 then o.report (.clear obj) else o
  { o' with
    mSourceCount := fun _ => none
    mTotalCount := fun _ => none
    mScheduledList := []
    mForkedList := []
    mForkedContexts := []
    mTopAllDropped := false
    mCleared := true }

/-- `set_propagate_mode`, which refuses to change the mode as long as the top has a total. -/
def setPropagateMode (propMode : Bool) (o : UvmObjection Obj) : UvmObjection Obj :=
  if !o.mTopAllDropped && o.getObjectionTotal T.mTop ≠ 0 then o.report .propMode
  else { o with mPropMode := propMode }

/-! ## The processes -/

omit [DecidableEq Obj] in
/-- One iteration of `m_execute_scheduled_forks`. -/
def executeScheduledFork (o : UvmObjection Obj) : Option (UvmObjection Obj) :=
  match o.mScheduledList with
  | [] => none
  | c :: rest => some { o with
      mScheduledList := rest
      mForkedList := o.mForkedList ++ [c]
      forks := o.forks + 1 }

/-- A forked process starts, and its drain begins, unless a raise has left it nothing to do. -/
def startFork (o : UvmObjection Obj) : Option (UvmObjection Obj) :=
  if o.forks = 0 then none
  else match o.mForkedList with
    | [] => some { o with forks := o.forks - 1 }
    | ctxt :: rest => some { o with
        mForkedList := rest
        mForkedContexts := o.mForkedContexts.filter (·.obj ≠ ctxt.obj) ++ [ctxt]
        forks := o.forks - 1 }

/-- The end of `m_forked_drain` for `obj`, and of its process. -/
def forkedDrain (obj : Obj) (o : UvmObjection Obj) : Option (UvmObjection Obj) :=
  match o.mForkedContexts.find? (·.obj = obj) with
  | none => none
  | some ctxt =>
      let o' := { o with
        mTopAllDropped := if obj = T.mTop then true else o.mTopAllDropped
        mSourceCount := deleteZero obj o.mSourceCount
        mTotalCount := deleteZero obj o.mTotalCount }
      let o'' := if obj = T.mTop then o'
        else mDrop T (T.next o.mPropMode obj) ctxt.sourceObj ctxt.count o'
      some { o'' with mForkedContexts := o''.mForkedContexts.eraseP (·.obj = obj) }

end UvmObjection

/-- What may happen to an objection: the calls, and the steps of its processes. -/
inductive ObjectionAction (Obj : Type*) where
  | raise (obj : Obj) (count : ℤ)
  | drop (obj : Obj) (count : ℤ)
  | clear (obj : Obj)
  | setPropagateMode (propMode : Bool)
  | executeScheduledFork
  | startFork
  | forkedDrain (obj : Obj)

namespace UvmObjection

variable (T : ObjectTree Obj)

omit [DecidableEq Obj] in
/-- A fatal report has ended the simulation. -/
def finished (o : UvmObjection Obj) : Bool := o.reports.any ObjectionReport.isFatal

/-- One action; a process has nothing to do if there is no result. -/
def step (o : UvmObjection Obj) (a : ObjectionAction Obj) : Option (UvmObjection Obj) :=
  if o.finished then none
  else match a with
    | .raise obj count => some (raiseObjection T obj count o)
    | .drop obj count => some (dropObjection T obj count o)
    | .clear obj => some (clear T obj o)
    | .setPropagateMode propMode => some (setPropagateMode T propMode o)
    | .executeScheduledFork => o.executeScheduledFork
    | .startFork => o.startFork
    | .forkedDrain obj => forkedDrain T obj o

/-- A run, in which the order of the calls and of the processes is chosen by the actions. -/
def run (actions : List (ObjectionAction Obj)) : UvmObjection Obj :=
  Transition.run (step T) {} actions

end UvmObjection

end SinglePortRam
