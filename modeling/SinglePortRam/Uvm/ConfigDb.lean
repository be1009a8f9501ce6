import SinglePortRam.Core.Selection
import SinglePortRam.Uvm.ReMatch
import SinglePortRam.Vip.Sequences

/-!
# The configuration database

`uvm_config_db.svh`, and what it uses of `uvm_resource.svh`.  The driver and the reset sequence find
their interface and their configuration in it.  A resource is an object; its handle is its place in
`resources`.

* `UvmComponent`, `ConfigSet` — who makes a setting, and the call that makes it.
* `ConfigDb`, `ConfigDb.set`, `ConfigDb.get` — the database.
-/

namespace SinglePortRam

open Selection

variable {τ V : Type*}

/-! ## Names -/

/-- A component: the handle of the object, and its full name. -/
structure UvmComponent where
  handle : ℕ
  mName : List Char
  deriving DecidableEq

/-- `uvm_root`, which has no name. -/
def uvmTop : UvmComponent := ⟨0, []⟩

/-- `get_depth`: the number of names in the full name. -/
def UvmComponent.getDepth (c : UvmComponent) : ℕ :=
  if c.mName = [] then 0 else 1 + c.mName.count '.'

/-- What `set` and `get` make of their first two arguments. -/
def fullInstName (cntxt : UvmComponent) (instName : List Char) : List Char :=
  if instName = [] then cntxt.mName
  else if cntxt.mName ≠ [] then cntxt.mName ++ ['.'] ++ instName
  else instName

/-- The token in the middle of a key. -/
def keyToken : List Char := ['_', '_', 'M', '_', 'U', 'V', 'M', '_', '_']

/-- The key of `m_rsc` for an instance name and a field name. -/
def lookupKey (instName fieldName : List Char) : List Char := instName ++ keyToken ++ fieldName

/-! ## Resources -/

/-- A `uvm_resource#(T)`, with the handle of its type. -/
structure UvmResource (τ V : Type*) where
  typ : τ
  name : List Char
  scope : List Char
  precedence : ℕ
  val : V

/-- `uvm_resource_base::default_precedence`. -/
def defaultPrecedence : ℕ := 1000

/-- `default_precedence - depth`, of the type `int unsigned`. -/
def precedenceAt (depth : ℕ) : ℕ := (defaultPrecedence + (2 ^ 32 - depth % 2 ^ 32)) % 2 ^ 32

namespace UvmResource

/-- `match_scope`: the scope of the resource, a glob, matches `s`. -/
def matchScope (r : UvmResource τ V) (s : List Char) : Prop := uvmReMatch r.scope s = 0

instance (r : UvmResource τ V) (s : List Char) : Decidable (r.matchScope s) :=
  inferInstanceAs (Decidable (_ = _))

/-- `write`, which leaves a value alone that is there already. -/
def write [DecidableEq V] (t : V) (r : UvmResource τ V) : UvmResource τ V :=
  if r.val = t then r else { r with val := t }

/-- To leave a value alone that is there already makes no difference. -/
lemma write_eq [DecidableEq V] (t : V) (r : UvmResource τ V) : r.write t = { r with val := t } := by
  rw [write]
  split_ifs with h
  · rw [← h]
  · rfl

end UvmResource

/-- The warnings that `set` may issue, with the name of the resource. -/
inductive ResourceReport where
  | noRegex (name : List Char)
  | nameNotFound (name : List Char)
  | noResource (name : List Char)
  deriving DecidableEq

/-- The warning as it is printed. -/
def ResourceReport.text : ResourceReport → UvmError
  | noRegex name => ⟨"UVM/RSRC/NOREGEX",
      "a resource with meta characters in the field name has been created \"" ++ String.ofList name
        ++ "\""⟩
  | nameNotFound name => ⟨"RNFNAME", "Resrouce named " ++ String.ofList name
      ++ " not found in name map; cannot change its search priority"⟩
  | noResource name => ⟨"NORSRC", "Handle for resource named " ++ String.ofList name
      ++ " is not in the name name; cannot change its priority"⟩

/-! ## The database -/

/-- `rtab` of the resource pool and `m_rsc` of the configuration database. -/
structure ConfigDb (τ V : Type*) where
  resources : List (UvmResource τ V) := []
  rtab : List Char → Option (List ℕ) := fun _ => none
  mRsc : τ → UvmComponent → List Char → Option ℕ := fun _ _ _ => none
  reports : List ResourceReport := []

/-- The arguments of a call of `set`, of the type parameter `typ`; `atBuild` is whether the current
phase is `build`. -/
structure ConfigSet (τ V : Type*) where
  atBuild : Bool
  typ : τ
  cntxt : Option UvmComponent
  instName : List Char
  fieldName : List Char
  value : V

namespace ConfigSet

/-- The context of a call: `null` stands for `uvm_top`. -/
def context (c : ConfigSet τ V) : UvmComponent := c.cntxt.getD uvmTop

/-- The scope of the resource that a call sets. -/
def scope (c : ConfigSet τ V) : List Char := fullInstName c.context c.instName

/-- During `build` the precedence of a setting depends on the depth of its context. -/
def precedence (c : ConfigSet τ V) : ℕ :=
  if c.atBuild then precedenceAt c.context.getDepth else defaultPrecedence

end ConfigSet

namespace ConfigDb

/-- A warning is issued. -/
def report (r : ResourceReport) (db : ConfigDb τ V) : ConfigDb τ V :=
  { db with reports := db.reports ++ [r] }

/-- `new` of a resource.  A name with a meta character is reported. -/
def newResource [Inhabited V] (typ : τ) (name scope : List Char) (db : ConfigDb τ V) :
    ConfigDb τ V :=
  let db := { db with
    resources := db.resources ++ [⟨typ, name, scope, defaultPrecedence, default⟩] }
  if name.any (fun c => c ∈ ['.', '/', '[', '*', '\x7b']) then db.report (.noRegex name) else db

/-- The new resource is the last one. -/
@[simp] lemma newResource_resources [Inhabited V] (typ : τ) (name scope : List Char)
    (db : ConfigDb τ V) :
    (db.newResource typ name scope).resources
      = db.resources ++ [⟨typ, name, scope, defaultPrecedence, default⟩] := by
  rw [newResource]
  split_ifs <;> rfl

/-- A new resource is not in the table of names yet. -/
@[simp] lemma newResource_rtab [Inhabited V] (typ : τ) (name scope : List Char)
    (db : ConfigDb τ V) :
    (db.newResource typ name scope).rtab = db.rtab := by
  rw [newResource]
  split_ifs <;> rfl

/-- A new resource has no key yet. -/
@[simp] lemma newResource_mRsc [Inhabited V] (typ : τ) (name scope : List Char)
    (db : ConfigDb τ V) :
    (db.newResource typ name scope).mRsc = db.mRsc := by
  rw [newResource]
  split_ifs <;> rfl

/-- The resource with the handle `h` is changed. -/
def modify (h : ℕ) (f : UvmResource τ V → UvmResource τ V) (db : ConfigDb τ V) : ConfigDb τ V :=
  { db with resources := db.resources.modify h f }

/-- `set_override`, on the table of names. -/
def setOverride (h : ℕ) (name : List Char) (db : ConfigDb τ V) : ConfigDb τ V :=
  if name ≠ [] then
    { db with rtab := Function.update db.rtab name (some (h :: (db.rtab name).getD [])) }
  else db

/-- The tables refer to the resources and do not change them. -/
@[simp] lemma setOverride_resources (h : ℕ) (name : List Char) (db : ConfigDb τ V) :
    (db.setOverride h name).resources = db.resources := by
  rw [setOverride]
  split_ifs <;> rfl

@[simp] lemma setOverride_mRsc (h : ℕ) (name : List Char) (db : ConfigDb τ V) :
    (db.setOverride h name).mRsc = db.mRsc := by
  rw [setOverride]
  split_ifs <;> rfl

/-- The queues of other names stay as they are. -/
lemma setOverride_rtab_of_ne (h : ℕ) {name name' : List Char} (hne : name' ≠ name)
    (db : ConfigDb τ V) : (db.setOverride h name).rtab name' = db.rtab name' := by
  rw [setOverride]
  split_ifs
  · exact Function.update_of_ne hne ..
  · rfl

/-- `set_priority_name` with `PRI_HIGH`, and `set_priority_queue`. -/
def setPriorityName (h : ℕ) (name : List Char) (db : ConfigDb τ V) : ConfigDb τ V :=
  match db.rtab name with
  | none => db.report (.nameNotFound name)
  | some q =>
      if h ∈ q then { db with rtab := Function.update db.rtab name (some (h :: q.erase h)) }
      else db.report (.noResource name)

/-- The order in a queue is no part of the resources. -/
@[simp] lemma setPriorityName_resources (h : ℕ) (name : List Char) (db : ConfigDb τ V) :
    (db.setPriorityName h name).resources = db.resources := by
  rw [setPriorityName]
  split
  · rfl
  · split_ifs <;> rfl

@[simp] lemma setPriorityName_mRsc (h : ℕ) (name : List Char) (db : ConfigDb τ V) :
    (db.setPriorityName h name).mRsc = db.mRsc := by
  rw [setPriorityName]
  split
  · rfl
  · split_ifs <;> rfl

/-- The queues of other names keep their order. -/
lemma setPriorityName_rtab_of_ne (h : ℕ) {name name' : List Char} (hne : name' ≠ name)
    (db : ConfigDb τ V) : (db.setPriorityName h name).rtab name' = db.rtab name' := by
  rw [setPriorityName]
  split
  · rfl
  · split_ifs
    · exact Function.update_of_ne hne ..
    · rfl

variable [DecidableEq τ] [DecidableEq V] [Inhabited V]

/-- `set`: a resource that exists for the key is changed and moved to the front of its queue, else a
new one is made. -/
def set (c : ConfigSet τ V) (db : ConfigDb τ V) : ConfigDb τ V :=
  let lookup := lookupKey c.scope c.fieldName
  let update (r : UvmResource τ V) := { r with precedence := c.precedence }.write c.value
  match db.mRsc c.typ c.context lookup with
  | none =>
      let h := db.resources.length
      let db := db.newResource c.typ c.fieldName c.scope
      let db := { db with
        mRsc := Function.update db.mRsc c.typ
          (Function.update (db.mRsc c.typ) c.context
            (Function.update (db.mRsc c.typ c.context) lookup (some h))) }
      (db.modify h update).setOverride h c.fieldName
  | some h =>
      let db := db.modify h update
      db.setPriorityName h ((db.resources[h]?).elim [] UvmResource.name)

/-- `lookup_name`, for a name and a type, in the order of the queue. -/
def lookupRegexNames (scope name : List Char) (typ : τ) (db : ConfigDb τ V) :
    List (UvmResource τ V) :=
  if name = [] then []
  else (((db.rtab name).getD []).filterMap fun h => db.resources[h]?).filter
    fun r => r.typ = typ ∧ r.matchScope scope

/-- `get`: the value of the first resource of the highest precedence. -/
def get (typ : τ) (cntxt : Option UvmComponent) (instName fieldName : List Char)
    (db : ConfigDb τ V) : Option V :=
  let scope := fullInstName (cntxt.getD uvmTop) instName
  (firstMax UvmResource.precedence (db.lookupRegexNames scope fieldName typ)).map UvmResource.val

/-- The database after calls of `set`. -/
def run (calls : List (ConfigSet τ V)) : ConfigDb τ V := calls.foldl (fun db c => db.set c) {}

end ConfigDb

end SinglePortRam
