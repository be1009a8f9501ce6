import SinglePortRam.Uvm.ConfigDb

/-!
# What the configuration database finds

A call of `set` stands until another one for the same instance and field, from the same context,
replaces it.  Of the settings that stand and concern a component, `get` finds one of the highest
precedence, and of these the latest.

* `Stands`, `Visible`, `Wins` — this, in terms of the calls alone.
* `Represents` — how the tables of the database hold the calls that stand.
* **`ConfigDb.run_get`** — what is found after any calls.
* **`ConfigDb.run_get_top`** — no component below overrides a setting of `uvm_top` during `build`.
-/

namespace SinglePortRam

open Glob Selection

variable {τ V : Type*}

/-! ## Calls -/

namespace ConfigSet

/-- What a later call has to share to replace this one. -/
def key (c : ConfigSet τ V) : τ × UvmComponent × List Char × List Char :=
  (c.typ, c.context, c.scope, c.fieldName)

/-- The key under which the setting is kept. -/
def lookup (c : ConfigSet τ V) : List Char := lookupKey c.scope c.fieldName

/-- The resource that the call makes. -/
def resource (c : ConfigSet τ V) : UvmResource τ V :=
  ⟨c.typ, c.fieldName, c.scope, c.precedence, c.value⟩

/-- The call concerns the field of this name in this scope. -/
def Visible (c : ConfigSet τ V) (typ : τ) (scope fieldName : List Char) : Prop :=
  c.typ = typ ∧ c.fieldName = fieldName ∧ fieldName ≠ [] ∧ GlobMatches c.scope scope

end ConfigSet

variable {calls : List (ConfigSet τ V)}

/-- `c` is the call `t`, and no later one has replaced it. -/
def Stands (calls : List (ConfigSet τ V)) (t : ℕ) (c : ConfigSet τ V) : Prop :=
  calls[t]? = some c ∧ ∀ t' c', t < t' → calls[t']? = some c' → c'.key ≠ c.key

/-- The call that is found. -/
structure Wins (calls : List (ConfigSet τ V)) (typ : τ) (scope fieldName : List Char) (t : ℕ)
    (c : ConfigSet τ V) : Prop where
  stands : Stands calls t c
  visible : c.Visible typ scope fieldName
  highest : ∀ t' c', Stands calls t' c' → c'.Visible typ scope fieldName →
    c'.precedence < c.precedence ∨ c'.precedence = c.precedence ∧ t' ≤ t

/-- Different names have different keys. -/
def NoCollision (calls : List (ConfigSet τ V)) : Prop :=
  ∀ c ∈ calls, ∀ c' ∈ calls, c.lookup = c'.lookup →
    c.scope = c'.scope ∧ c.fieldName = c'.fieldName

/-- A call that stands is one of the calls. -/
lemma Stands.lt {t : ℕ} {c : ConfigSet τ V} (h : Stands calls t c) : t < calls.length :=
  (List.getElem?_eq_some_iff.mp h.1).1

/-- After one more call, this one stands, and all that it does not replace. -/
lemma stands_concat_iff {t : ℕ} {c c' : ConfigSet τ V} :
    Stands (calls ++ [c]) t c'
      ↔ (t = calls.length ∧ c' = c) ∨ (Stands calls t c' ∧ c'.key ≠ c.key) := by
  constructor
  · rintro ⟨hget, hlater⟩
    rcases lt_trichotomy t calls.length with hlt | rfl | hgt
    · rw [List.getElem?_append_left hlt] at hget
      refine .inr ⟨⟨hget, fun t' c'' ht hc => hlater t' c'' ht ?_⟩, fun heq => ?_⟩
      · rwa [List.getElem?_append_left (List.getElem?_eq_some_iff.mp hc).1]
      · exact hlater calls.length c hlt List.getElem?_concat_length heq.symm
    · rw [List.getElem?_concat_length] at hget
      exact .inl ⟨rfl, (Option.some.inj hget).symm⟩
    · rw [List.getElem?_eq_none (by rw [List.length_append]; exact hgt)] at hget
      cases hget
  · rintro (⟨rfl, rfl⟩ | ⟨⟨hget, hlater⟩, hne⟩)
    · refine ⟨List.getElem?_concat_length, fun t' c'' ht hc => ?_⟩
      have hlt := (List.getElem?_eq_some_iff.mp hc).1
      rw [List.length_append, List.length_singleton] at hlt
      omega
    · have hlt := (List.getElem?_eq_some_iff.mp hget).1
      refine ⟨by rwa [List.getElem?_append_left hlt], fun t' c'' ht hc => ?_⟩
      rcases lt_or_ge t' calls.length with ht' | ht'
      · exact hlater t' c'' ht (by rwa [List.getElem?_append_left ht'] at hc)
      · rw [List.getElem?_append_right ht'] at hc
        have hc'' : c'' = c := by
          have hmem := List.mem_of_getElem? hc
          simpa using hmem
        rw [hc'']
        exact hne.symm

/-! ## Keys -/

/-- A name without the beginning of the token can be told from what follows it in a key. -/
lemma lookupKey_inj_of_le {i i' f f' : List Char} (hi' : ¬ keyToken.take 7 <:+: i')
    (hle : i.length ≤ i'.length) (h : lookupKey i f = lookupKey i' f') : i = i' ∧ f = f' := by
  rw [lookupKey, lookupKey, List.append_assoc, List.append_assoc] at h
  obtain ⟨a, rfl, ha⟩ | ⟨a, rfl, ha⟩ := List.append_eq_append_iff.mp h
  · rcases a with _ | ⟨x₁, _ | ⟨x₂, _ | ⟨x₃, _ | ⟨x₄, _ | ⟨x₅, _ | ⟨x₆, _ | ⟨x₇, a⟩⟩⟩⟩⟩⟩⟩
    case nil => exact ⟨by simp, by simpa using ha⟩
    all_goals simp only [keyToken, List.cons_append, List.nil_append, List.cons.injEq] at ha
    case cons.cons.cons.cons.cons.cons.cons =>
      obtain ⟨rfl, rfl, rfl, rfl, rfl, rfl, rfl, -⟩ := ha
      exact absurd ⟨i, a, by simp [keyToken]⟩ hi'
    all_goals simp_all
  · have hnil : a = [] := by
      rw [List.length_append] at hle
      exact List.eq_nil_of_length_eq_zero (by omega)
    subst hnil
    exact ⟨by simp, by simpa using ha.symm⟩

/-- Names run into the same key only if a scope has the token of the keys in it. -/
lemma noCollision_of_scopes (h : ∀ c ∈ calls, ¬ keyToken.take 7 <:+: c.scope) :
    NoCollision calls := by
  intro c hc c' hc' hlookup
  rcases Nat.le_total c.scope.length c'.scope.length with hle | hle
  · exact lookupKey_inj_of_le (h c' hc') hle hlookup
  · obtain ⟨hscope, hname⟩ := lookupKey_inj_of_le (h c hc) hle hlookup.symm
    exact ⟨hscope.symm, hname.symm⟩

/-! ## The tables -/

/-- A call that stands, with its time and the handle of its resource. -/
structure Entry (τ V : Type*) where
  handle : ℕ
  time : ℕ
  call : ConfigSet τ V

/-- The entries for a field, by their handles. -/
def handlesOf (entries : List (Entry τ V)) (name : List Char) : List ℕ :=
  (entries.filter fun x => x.call.fieldName = name).map Entry.handle

/-- The database holds the calls that stand, the latest one first. -/
structure Represents (calls : List (ConfigSet τ V)) (db : ConfigDb τ V)
    (entries : List (Entry τ V)) : Prop where
  resource : ∀ x ∈ entries, db.resources[x.handle]? = some x.call.resource
  nodup : (entries.map Entry.handle).Nodup
  mRsc : ∀ typ context lookup h, db.mRsc typ context lookup = some h
    ↔ ∃ x ∈ entries, x.handle = h ∧ x.call.typ = typ ∧ x.call.context = context
      ∧ x.call.lookup = lookup
  rtab : ∀ name ≠ [], (db.rtab name).getD [] = handlesOf entries name
  latest : entries.Pairwise fun x y => y.time < x.time
  stands : ∀ t c, Stands calls t c ↔ ∃ x ∈ entries, x.time = t ∧ x.call = c

/-- The entries after a call that has the resource `h`. -/
def replaceEntry (h t : ℕ) (c : ConfigSet τ V) (entries : List (Entry τ V)) : List (Entry τ V) :=
  ⟨h, t, c⟩ :: entries.filter fun x => x.handle ≠ h

/-- Without the entry of a handle, the handle is gone from its queue. -/
lemma handlesOf_filter_ne {entries : List (Entry τ V)} (h : ℕ) (name : List Char)
    (hnodup : (entries.map Entry.handle).Nodup) :
    handlesOf (entries.filter fun x => x.handle ≠ h) name = (handlesOf entries name).erase h := by
  have hsub : (handlesOf entries name).Nodup := hnodup.sublist (List.filter_sublist.map _)
  rw [hsub.erase_eq_filter, handlesOf, handlesOf, List.filter_map, List.filter_filter,
    List.filter_filter]
  congr 1
  refine List.filter_congr fun x _ => ?_
  by_cases hx : x.handle = h
  · simp [hx]
  · simp [hx, bne]

/-- An entry that is replaced comes to the front of its queue. -/
lemma handlesOf_replaceEntry_self {entries : List (Entry τ V)} {h t : ℕ} {c : ConfigSet τ V}
    (hnodup : (entries.map Entry.handle).Nodup) :
    handlesOf (replaceEntry h t c entries) c.fieldName
      = h :: (handlesOf entries c.fieldName).erase h := by
  rw [← handlesOf_filter_ne h _ hnodup, replaceEntry, handlesOf,
    List.filter_cons_of_pos (by simp)]
  rfl

/-- In the queues of other names a replaced entry is missing. -/
lemma handlesOf_replaceEntry_of_ne {entries : List (Entry τ V)} {h t : ℕ} {c : ConfigSet τ V}
    {name : List Char} (hnodup : (entries.map Entry.handle).Nodup) (hne : c.fieldName ≠ name) :
    handlesOf (replaceEntry h t c entries) name = (handlesOf entries name).erase h := by
  rw [← handlesOf_filter_ne h _ hnodup, replaceEntry, handlesOf,
    List.filter_cons_of_neg (by simpa using hne)]
  rfl

lemma update_update_update_of_ne {α β γ δ : Type*} [DecidableEq α] [DecidableEq β] [DecidableEq γ]
    {f : α → β → γ → δ} {a a' : α} {b b' : β} {c c' : γ} {d : δ}
    (h : ¬ (a' = a ∧ b' = b ∧ c' = c)) :
    Function.update f a (Function.update (f a) b (Function.update (f a b) c d)) a' b' c'
      = f a' b' c' := by
  by_cases ha : a' = a
  · subst ha
    rw [Function.update_self]
    by_cases hb : b' = b
    · subst hb
      rw [Function.update_self, Function.update_of_ne fun hc => h ⟨rfl, rfl, hc⟩]
    · rw [Function.update_of_ne hb]
  · rw [Function.update_of_ne ha]

namespace Represents

variable {db : ConfigDb τ V} {entries : List (Entry τ V)}

/-- The empty database represents no calls. -/
lemma initial : Represents ([] : List (ConfigSet τ V)) {} [] := by
  refine ⟨by simp, by simp, by simp, fun name _ => rfl, by simp, fun t c => ?_⟩
  exact iff_of_false (fun h => by cases h.1) (by simp)

/-- An entry is known by its handle. -/
lemma eq_of_handle (hr : Represents calls db entries) {x y : Entry τ V} (hx : x ∈ entries)
    (hy : y ∈ entries) (h : x.handle = y.handle) : x = y :=
  List.inj_on_of_nodup_map hr.nodup hx hy h

/-- A handle refers to a resource. -/
lemma handle_lt (hr : Represents calls db entries) {x : Entry τ V} (hx : x ∈ entries) :
    x.handle < db.resources.length :=
  (List.getElem?_eq_some_iff.mp (hr.resource x hx)).1

/-- An entry comes from a call. -/
lemma mem_calls (hr : Represents calls db entries) {x : Entry τ V} (hx : x ∈ entries) :
    x.call ∈ calls :=
  List.mem_of_getElem? ((hr.stands x.time x.call).mpr ⟨x, hx, rfl, rfl⟩).1

/-- The entry of the handle `h`, if there is one, is what the call replaces. -/
def Target (entries : List (Entry τ V)) (c : ConfigSet τ V) (h : ℕ) : Prop :=
  ∀ x ∈ entries, x.handle = h
    ↔ x.call.typ = c.typ ∧ x.call.context = c.context ∧ x.call.lookup = c.lookup

/-- Two calls have the same key exactly if they have the same key of `m_rsc`. -/
lemma key_eq_iff (hr : Represents calls db entries) {c : ConfigSet τ V}
    (hn : NoCollision (calls ++ [c])) {x : Entry τ V} (hx : x ∈ entries) :
    x.call.key = c.key
      ↔ x.call.typ = c.typ ∧ x.call.context = c.context ∧ x.call.lookup = c.lookup := by
  simp only [ConfigSet.key, Prod.mk.injEq]
  refine and_congr_right fun _ => and_congr_right fun _ => ⟨fun h => ?_, fun h => ?_⟩
  · rw [ConfigSet.lookup, ConfigSet.lookup, h.1, h.2]
  · exact hn x.call (List.mem_append_left _ (hr.mem_calls hx)) c (by simp) h

/-- What a call makes of the tables. -/
lemma replace (hr : Represents calls db entries) {c : ConfigSet τ V}
    (hn : NoCollision (calls ++ [c])) {h : ℕ} (ht : Target entries c h) {db' : ConfigDb τ V}
    (hnew : db'.resources[h]? = some c.resource)
    (hold : ∀ i ≠ h, i < db.resources.length → db'.resources[i]? = db.resources[i]?)
    (hsame : db'.mRsc c.typ c.context c.lookup = some h)
    (hother : ∀ typ context lookup, ¬ (typ = c.typ ∧ context = c.context ∧ lookup = c.lookup) →
      db'.mRsc typ context lookup = db.mRsc typ context lookup)
    (hfield : c.fieldName ≠ [] →
      (db'.rtab c.fieldName).getD [] = h :: ((db.rtab c.fieldName).getD []).erase h)
    (hfields : ∀ name ≠ c.fieldName, db'.rtab name = db.rtab name) :
    Represents (calls ++ [c]) db' (replaceEntry h calls.length c entries) := by
  refine ⟨?_, ?_, ?_, ?_, ?_, ?_⟩
  · rw [replaceEntry, List.forall_mem_cons]
    refine ⟨hnew, fun x hx => ?_⟩
    obtain ⟨hx, hne⟩ := List.mem_filter.mp hx
    rw [hold x.handle (by simpa using hne) (hr.handle_lt hx), hr.resource x hx]
  · rw [replaceEntry, List.map_cons, List.nodup_cons]
    refine ⟨?_, hr.nodup.sublist (List.filter_sublist.map _)⟩
    simp
  · intro typ context lookup i
    rw [replaceEntry]
    by_cases hc : typ = c.typ ∧ context = c.context ∧ lookup = c.lookup
    · obtain ⟨rfl, rfl, rfl⟩ := hc
      rw [hsame, Option.some.injEq, List.exists_mem_cons_iff]
      constructor
      · rintro rfl
        exact .inl ⟨rfl, rfl, rfl, rfl⟩
      · rintro (⟨hi, -⟩ | ⟨x, hx, -, hx'⟩)
        · exact hi
        · obtain ⟨hx, hne⟩ := List.mem_filter.mp hx
          exact absurd ((ht x hx).mpr hx') (by simpa using hne)
    · rw [hother typ context lookup hc, hr.mRsc, List.exists_mem_cons_iff]
      constructor
      · rintro ⟨x, hx, hi, rfl, rfl, rfl⟩
        refine .inr ⟨x, List.mem_filter.mpr ⟨hx, ?_⟩, hi, rfl, rfl, rfl⟩
        simpa using fun heq => hc ((ht x hx).mp heq)
      · rintro (⟨-, h₁, h₂, h₃⟩ | ⟨x, hx, hx'⟩)
        · exact absurd ⟨h₁.symm, h₂.symm, h₃.symm⟩ hc
        · exact ⟨x, List.mem_of_mem_filter hx, hx'⟩
  · intro name hname
    by_cases hc : name = c.fieldName
    · subst hc
      rw [hfield hname, hr.rtab _ hname, handlesOf_replaceEntry_self hr.nodup]
    · -- the entry that is replaced is not one of this name
      have hnone : h ∉ handlesOf entries name := by
        intro hmem
        obtain ⟨x, hx, hxh⟩ := List.mem_map.mp hmem
        obtain ⟨hx, hxname⟩ := List.mem_filter.mp hx
        have hkey := (hr.key_eq_iff hn hx).mpr ((ht x hx).mp hxh)
        simp only [ConfigSet.key, Prod.mk.injEq] at hkey
        exact hc ((by simpa using hxname : x.call.fieldName = name).symm.trans hkey.2.2.2)
      rw [hfields name hc, hr.rtab name hname, handlesOf_replaceEntry_of_ne hr.nodup (Ne.symm hc),
        List.erase_of_not_mem hnone]
  · rw [replaceEntry, List.pairwise_cons]
    refine ⟨fun x hx => ?_, hr.latest.sublist List.filter_sublist⟩
    exact Stands.lt ((hr.stands x.time x.call).mpr ⟨x, List.mem_of_mem_filter hx, rfl, rfl⟩)
  · intro t c'
    rw [stands_concat_iff, replaceEntry, List.exists_mem_cons_iff, hr.stands]
    refine or_congr ⟨fun h => ⟨h.1.symm, h.2.symm⟩, fun h => ⟨h.1.symm, h.2.symm⟩⟩ ?_
    constructor
    · rintro ⟨⟨x, hx, htime, rfl⟩, hne⟩
      refine ⟨x, List.mem_filter.mpr ⟨hx, ?_⟩, htime, rfl⟩
      simpa using fun heq => hne ((hr.key_eq_iff hn hx).mpr ((ht x hx).mp heq))
    · rintro ⟨x, hx, htime, rfl⟩
      obtain ⟨hx, hne⟩ := List.mem_filter.mp hx
      refine ⟨⟨x, hx, htime, rfl⟩, fun hkey => ?_⟩
      exact absurd ((ht x hx).mpr ((hr.key_eq_iff hn hx).mp hkey)) (by simpa using hne)

end Represents

/-! ## Who wins -/

/-- A component below `uvm_top` gives way to it during `build`. -/
lemma precedence_eq {c : ConfigSet τ V} (h : c.context.getDepth ≤ defaultPrecedence) :
    c.precedence = if c.atBuild then defaultPrecedence - c.context.getDepth
      else defaultPrecedence := by
  rw [ConfigSet.precedence, precedenceAt]
  simp only [defaultPrecedence] at h ⊢
  split_ifs
  · omega
  · rfl

/-- What concerns a scope is what `lookup_name` selects. -/
lemma visible_iff {c : ConfigSet τ V} {typ : τ} {scope fieldName : List Char}
    (hname : fieldName ≠ []) :
    c.Visible typ scope fieldName
      ↔ c.fieldName = fieldName ∧ c.resource.typ = typ ∧ c.resource.matchScope scope := by
  rw [ConfigSet.Visible, UvmResource.matchScope, globMatches_iff]
  exact ⟨fun ⟨htyp, hfield, _, hmatch⟩ => ⟨hfield, htyp, hmatch⟩,
    fun ⟨hfield, htyp, hmatch⟩ => ⟨htyp, hfield, hname, hmatch⟩⟩

/-- Of the calls that are visible, the first of the highest precedence is the one that wins. -/
lemma Represents.wins_of_firstMax {db : ConfigDb τ V} {entries found : List (Entry τ V)}
    (hr : Represents calls db entries) {typ : τ} {scope fieldName : List Char}
    (hsub : found.Sublist entries)
    (hfound : ∀ x, x ∈ found ↔ x ∈ entries ∧ x.call.Visible typ scope fieldName)
    {x : Entry τ V} (hx : firstMax (fun x => x.call.precedence) found = some x) :
    Wins calls typ scope fieldName x.time x.call := by
  obtain ⟨hmem, hmax⟩ := firstMax_spec _ (hr.latest.sublist hsub) hx
  obtain ⟨hentry, hvisible⟩ := (hfound x).mp hmem
  refine ⟨(hr.stands ..).mpr ⟨x, hentry, rfl, rfl⟩, hvisible, fun t' c' hstands hc' => ?_⟩
  obtain ⟨y, hy, rfl, rfl⟩ := (hr.stands t' c').mp hstands
  rcases hmax y ((hfound y).mpr ⟨hy, hc'⟩) with hlt | ⟨heq, rfl | hlater⟩
  · exact .inl hlt
  · exact .inr ⟨heq, le_rfl⟩
  · exact .inr ⟨heq, hlater.le⟩

/-- At most one call wins. -/
lemma Wins.unique {typ : τ} {scope fieldName : List Char} {t t' : ℕ} {c c' : ConfigSet τ V}
    (h : Wins calls typ scope fieldName t c) (h' : Wins calls typ scope fieldName t' c') :
    c = c' := by
  have htime : t = t' := by
    have h₁ := h.highest t' c' h'.stands h'.visible
    have h₂ := h'.highest t c h.stands h.visible
    omega
  subst htime
  exact Option.some.inj (h.stands.1.symm.trans h'.stands.1)

/-! ## Runs -/

/-- Fewer calls have no collision either. -/
lemma NoCollision.of_append {cs : List (ConfigSet τ V)} (h : NoCollision (calls ++ cs)) :
    NoCollision calls :=
  fun c hc c' hc' => h c (List.mem_append_left _ hc) c' (List.mem_append_left _ hc')

variable [DecidableEq τ]

/-- The entries that `get` chooses from. -/
lemma Represents.lookupRegexNames_eq {db : ConfigDb τ V} {entries : List (Entry τ V)}
    (hr : Represents calls db entries) (typ : τ) (scope : List Char) {fieldName : List Char}
    (hname : fieldName ≠ []) :
    ∃ found : List (Entry τ V), found.Sublist entries
      ∧ (∀ x, x ∈ found ↔ x ∈ entries ∧ x.call.Visible typ scope fieldName)
      ∧ db.lookupRegexNames scope fieldName typ = found.map fun x => x.call.resource := by
  have hresources : (handlesOf entries fieldName).filterMap (fun h => db.resources[h]?)
      = (entries.filter fun x => x.call.fieldName = fieldName).map fun x => x.call.resource := by
    rw [handlesOf, List.filterMap_map, ← List.filterMap_eq_map]
    refine List.filterMap_congr fun x hx => ?_
    exact hr.resource x (List.mem_of_mem_filter hx)
  refine ⟨(entries.filter fun x => x.call.fieldName = fieldName).filter fun x =>
    x.call.resource.typ = typ ∧ x.call.resource.matchScope scope,
    List.filter_sublist.trans List.filter_sublist, fun x => ?_, ?_⟩
  · rw [List.mem_filter, List.mem_filter, visible_iff hname]
    simp only [decide_eq_true_eq, and_assoc]
  · rw [ConfigDb.lookupRegexNames, if_neg hname, hr.rtab fieldName hname, hresources,
      List.filter_map]
    rfl

variable [DecidableEq V] [Inhabited V]

/-- A first call creates a resource. -/
lemma Represents.set_new {db : ConfigDb τ V} {entries : List (Entry τ V)}
    (hr : Represents calls db entries) {c : ConfigSet τ V}
    (hn : NoCollision (calls ++ [c])) (hnone : db.mRsc c.typ c.context c.lookup = none) :
    Represents (calls ++ [c]) (db.set c)
      (replaceEntry db.resources.length calls.length c entries) := by
  have hnone' : db.mRsc c.typ c.context (lookupKey c.scope c.fieldName) = none := hnone
  have ht : Target entries c db.resources.length := by
    intro x hx
    refine iff_of_false (hr.handle_lt hx).ne fun ⟨htyp, hcontext, hlookup⟩ => ?_
    have hfound := (hr.mRsc c.typ c.context c.lookup x.handle).mpr
      ⟨x, hx, rfl, htyp, hcontext, hlookup⟩
    rw [hnone] at hfound
    cases hfound
  rw [ConfigDb.set]
  simp only [hnone']
  refine hr.replace hn ht ?_ ?_ ?_ ?_ ?_ ?_
  · simp [ConfigDb.modify, UvmResource.write_eq, ConfigSet.resource]
  · intro i hne hlt
    simp [ConfigDb.modify, hne.symm, List.getElem?_append_left hlt]
  · simp [ConfigDb.modify, ConfigSet.lookup]
  · intro typ context lookup hne
    simp only [ConfigDb.setOverride_mRsc, ConfigDb.modify, ConfigDb.newResource_mRsc]
    exact update_update_update_of_ne hne
  · intro hname
    have hnotMem : db.resources.length ∉ (db.rtab c.fieldName).getD [] := by
      rw [hr.rtab c.fieldName hname]
      intro hmem
      obtain ⟨x, hx, hxh⟩ := List.mem_map.mp hmem
      exact (hr.handle_lt (List.mem_of_mem_filter hx)).ne hxh
    rw [List.erase_of_not_mem hnotMem, ConfigDb.setOverride, if_pos hname]
    simp [ConfigDb.modify]
  · intro name hne
    rw [ConfigDb.setOverride_rtab_of_ne _ hne]
    simp [ConfigDb.modify]

/-- A later one for the same key updates it. -/
lemma Represents.set_again {db : ConfigDb τ V} {entries : List (Entry τ V)}
    (hr : Represents calls db entries) {c : ConfigSet τ V}
    (hn : NoCollision (calls ++ [c])) {h : ℕ} (hsome : db.mRsc c.typ c.context c.lookup = some h) :
    Represents (calls ++ [c]) (db.set c) (replaceEntry h calls.length c entries) := by
  have hsome' : db.mRsc c.typ c.context (lookupKey c.scope c.fieldName) = some h := hsome
  obtain ⟨x, hx, hxh, htyp, hcontext, hlookup⟩ := (hr.mRsc ..).mp hsome
  have ht : Target entries c h := by
    intro y hy
    constructor
    · intro hyh
      rw [hr.eq_of_handle hy hx (hyh.trans hxh.symm)]
      exact ⟨htyp, hcontext, hlookup⟩
    · intro hkey
      have hfound := (hr.mRsc c.typ c.context c.lookup y.handle).mpr ⟨y, hy, rfl, hkey⟩
      exact Option.some.inj (hfound.symm.trans hsome)
  have hkey := (hr.key_eq_iff hn hx).mpr ⟨htyp, hcontext, hlookup⟩
  simp only [ConfigSet.key, Prod.mk.injEq] at hkey
  have hresource := hr.resource x hx
  rw [hxh] at hresource
  have hupdate : (db.resources.modify h fun r =>
      ({ r with precedence := c.precedence } : UvmResource τ V).write c.value)[h]?
      = some c.resource := by
    rw [List.getElem?_modify_eq, hresource]
    simp [UvmResource.write_eq, ConfigSet.resource, hkey]
  rw [ConfigDb.set]
  simp only [hsome', ConfigDb.modify, hupdate, Option.elim_some]
  refine hr.replace hn ht ?_ ?_ ?_ ?_ ?_ ?_
  · simpa using hupdate
  · intro i hne _
    simp [hne.symm]
  · simpa using hsome
  · intro typ context lookup _
    simp
  · intro hname
    have hmem : h ∈ (db.rtab c.fieldName).getD [] := by
      rw [hr.rtab c.fieldName hname, handlesOf, List.mem_map]
      exact ⟨x, List.mem_filter.mpr ⟨hx, by simp [hkey]⟩, hxh⟩
    cases hq : db.rtab c.fieldName with
    | none => simp [hq] at hmem
    | some q =>
        rw [hq, Option.getD_some] at hmem
        simp [ConfigDb.setPriorityName, ConfigSet.resource, hq, hmem]
  · intro name hne
    exact ConfigDb.setPriorityName_rtab_of_ne _ hne _

/-- Every run of calls is represented. -/
lemma exists_represents (hn : NoCollision calls) :
    ∃ entries, Represents calls (ConfigDb.run calls) entries := by
  induction calls using List.reverseRecOn with
  | nil => exact ⟨[], .initial⟩
  | append_singleton calls c ih =>
      obtain ⟨entries, hr⟩ := ih hn.of_append
      rw [ConfigDb.run, List.foldl_append]
      cases hlookup : (ConfigDb.run calls).mRsc c.typ c.context c.lookup with
      | none => exact ⟨_, hr.set_new hn hlookup⟩
      | some h => exact ⟨_, hr.set_again hn hlookup⟩

/-- **What is found** after any calls of `set` is the value of the call that wins, and nothing is
found if there is none. -/
theorem ConfigDb.run_get (hn : NoCollision calls) (typ : τ) (cntxt : Option UvmComponent)
    (instName fieldName : List Char) (v : V) :
    (ConfigDb.run calls).get typ cntxt instName fieldName = some v
      ↔ ∃ t c, Wins calls typ (fullInstName (cntxt.getD uvmTop) instName) fieldName t c
          ∧ c.value = v := by
  rcases eq_or_ne fieldName [] with rfl | hname
  · refine iff_of_false (by simp [ConfigDb.get, ConfigDb.lookupRegexNames, firstMax]) ?_
    rintro ⟨t, c, hwins, -⟩
    exact hwins.visible.2.2.1 rfl
  · obtain ⟨entries, hr⟩ := exists_represents hn
    obtain ⟨found, hsub, hfound, hlookup⟩ :=
      hr.lookupRegexNames_eq typ (fullInstName (cntxt.getD uvmTop) instName) hname
    rw [ConfigDb.get, hlookup, firstMax_map, Option.map_map, Option.map_eq_some_iff]
    constructor
    · rintro ⟨x, hx, rfl⟩
      exact ⟨x.time, x.call, hr.wins_of_firstMax hsub hfound hx, rfl⟩
    · rintro ⟨t, c, hwins, rfl⟩
      obtain ⟨y, hy, rfl, rfl⟩ := (hr.stands t c).mp hwins.stands
      cases hx : firstMax (UvmResource.precedence ∘ fun x => x.call.resource) found with
      | none =>
          have hmem := (hfound y).mpr ⟨hy, hwins.visible⟩
          rw [(firstMax_eq_none_iff _).mp hx] at hmem
          cases hmem
      | some x =>
          refine ⟨x, rfl, ?_⟩
          exact congrArg ConfigSet.value ((hr.wins_of_firstMax hsub hfound hx).unique hwins)

/-- The interface, set by `tb_top`, again for a component during `build`, and in the end for its
driver. -/
theorem ConfigDb.run_get_later :
    let calls : List (ConfigSet ℕ ℕ) := [⟨false, 0, none, ['*'], ['i', 'f'], 1⟩,
      ⟨true, 0, some ⟨1, ['e']⟩, ['*'], ['i', 'f'], 2⟩,
      ⟨false, 0, some ⟨1, ['e']⟩, ['d', '?'], ['i', 'f'], 3⟩]
    ∃ t c, Wins calls 0 ['e', '.', 'd', '0'] ['i', 'f'] t c ∧ c.value = 3 :=
  (ConfigDb.run_get (noCollision_of_scopes (by decide)) 0 (some ⟨1, ['e']⟩) ['d', '0'] ['i', 'f']
    3).mp (by decide +kernel)

/-! ## Settings of `uvm_top` -/

/-- **What `uvm_top` sets for all instances** is found from everywhere, as long as later settings of
the field are made during `build` by components below it. -/
theorem ConfigDb.run_get_top (pre post : List (ConfigSet τ V)) (c : ConfigSet τ V)
    (hn : NoCollision (pre ++ c :: post)) (htop : c.context = uvmTop) (hscope : c.scope = ['*'])
    (hname : c.fieldName ≠ [])
    (hpre : ∀ c' ∈ pre, c'.context.getDepth ≤ defaultPrecedence)
    (hpost : ∀ c' ∈ post, c'.typ = c.typ → c'.fieldName = c.fieldName → c'.atBuild = true
      ∧ 0 < c'.context.getDepth ∧ c'.context.getDepth ≤ defaultPrecedence)
    (cntxt : Option UvmComponent) (instName : List Char) :
    (ConfigDb.run (pre ++ c :: post)).get c.typ cntxt instName c.fieldName = some c.value := by
  have hdepth : c.context.getDepth = 0 := by rw [htop]; rfl
  have hprecedence : c.precedence = defaultPrecedence := by
    rw [precedence_eq (by omega), hdepth]
    split_ifs <;> rfl
  have hget : (pre ++ c :: post)[pre.length]? = some c := by simp
  have hlater {t' : ℕ} {c' : ConfigSet τ V} (ht : pre.length < t')
      (hc' : (pre ++ c :: post)[t']? = some c') : c' ∈ post := by
    obtain ⟨k, rfl⟩ := Nat.exists_eq_add_of_lt ht
    rw [List.getElem?_append_right (by omega),
      (by omega : pre.length + k + 1 - pre.length = k + 1), List.getElem?_cons_succ] at hc'
    exact List.mem_of_getElem? hc'
  refine (ConfigDb.run_get hn ..).mpr ⟨pre.length, c, ⟨⟨hget, ?_⟩, ⟨rfl, rfl, hname, ?_⟩, ?_⟩, rfl⟩
  · intro t' c' ht hc' hkey
    simp only [ConfigSet.key, Prod.mk.injEq] at hkey
    have hbelow := (hpost c' (hlater ht hc') hkey.1 hkey.2.2.2).2.1
    rw [hkey.2.1] at hbelow
    omega
  · rw [hscope]
    exact globMatches_star _
  · intro t' c' hstands hvisible
    rw [hprecedence]
    rcases lt_trichotomy t' pre.length with hlt | rfl | hgt
    · have hc' := hstands.1
      rw [List.getElem?_append_left hlt] at hc'
      rw [precedence_eq (hpre c' (List.mem_of_getElem? hc'))]
      split_ifs <;> omega
    · obtain rfl := Option.some.inj (hget.symm.trans hstands.1)
      exact .inr ⟨hprecedence, le_rfl⟩
    · obtain ⟨hbuild, hpos, hle⟩ := hpost c' (hlater hgt hstands.1) hvisible.1 hvisible.2.1
      rw [precedence_eq hle, if_pos hbuild]
      simp only [defaultPrecedence] at hle ⊢
      omega

/-- The interface of `tb_top`, as the driver gets it, although its environment sets another one. -/
theorem ConfigDb.run_get_top_driver :
    (ConfigDb.run [(⟨false, 0, none, ['*'], ['i', 'f'], 1⟩ : ConfigSet ℕ ℕ),
      ⟨true, 0, some ⟨1, ['e']⟩, ['*'], ['i', 'f'], 2⟩]).get 0 (some ⟨2, ['e', '.', 'd']⟩) []
      ['i', 'f'] = some 1 :=
  ConfigDb.run_get_top [] [⟨true, 0, some ⟨1, ['e']⟩, ['*'], ['i', 'f'], 2⟩]
    ⟨false, 0, none, ['*'], ['i', 'f'], 1⟩ (noCollision_of_scopes (by decide)) rfl rfl (by decide)
    (by decide) (by decide) (some ⟨2, ['e', '.', 'd']⟩) []

end SinglePortRam
