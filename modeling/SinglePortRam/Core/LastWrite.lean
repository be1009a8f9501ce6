import Mathlib.Tactic

/-!
# Memories under a sequence of writes

A memory is a function from addresses to data, and a sequence of writes is a list of pairs.
`writeAll` performs them in order; `lastWrite` looks up the datum that was written last to one
address.  The connection between the two, `writeAll_apply`, is what a proof about a store that is
overwritten many times comes down to: a cell holds the last datum written to it, or what it held
before if there is none.

* **`forall_lastWrite_map_iff`** — writes through a port that loses bits of addresses and data.
* **`lastWrite_filter_iff`** — writes of which some are lost.
-/

namespace LastWrite

variable {α β γ δ : Type*} [DecidableEq α] [DecidableEq γ]

/-- Perform the writes of a list, first to last. -/
def writeAll (m : α → β) (ws : List (α × β)) : α → β :=
  ws.foldl (fun m w => Function.update m w.1 w.2) m

/-- The datum of the last write to `a`, if there is one. -/
def lastWrite : List (α × β) → α → Option β
  | [], _ => none
  | w :: ws, a => (lastWrite ws a).or (if w.1 = a then some w.2 else none)

@[simp] lemma writeAll_nil (m : α → β) : writeAll m [] = m := rfl

@[simp] lemma writeAll_cons (m : α → β) (w : α × β) (ws : List (α × β)) :
    writeAll m (w :: ws) = writeAll (Function.update m w.1 w.2) ws := rfl

lemma writeAll_append (m : α → β) (ws vs : List (α × β)) :
    writeAll m (ws ++ vs) = writeAll (writeAll m ws) vs := by
  simp [writeAll]

@[simp] lemma lastWrite_nil (a : α) : lastWrite ([] : List (α × β)) a = none := rfl

@[simp] lemma lastWrite_cons (w : α × β) (ws : List (α × β)) (a : α) :
    lastWrite (w :: ws) a = (lastWrite ws a).or (if w.1 = a then some w.2 else none) := rfl

lemma lastWrite_append (ws vs : List (α × β)) (a : α) :
    lastWrite (ws ++ vs) a = (lastWrite vs a).or (lastWrite ws a) := by
  induction ws with
  | nil => simp
  | cons w ws ih => simp [ih, Option.or_assoc]

/-- **A cell holds the last datum written to it**, or its old content if nothing was. -/
theorem writeAll_apply (m : α → β) (ws : List (α × β)) (a : α) :
    writeAll m ws a = (lastWrite ws a).getD (m a) := by
  induction ws generalizing m with
  | nil => rfl
  | cons w ws ih =>
      rw [writeAll_cons, ih, lastWrite_cons]
      cases lastWrite ws a with
      | some d => rfl
      | none =>
          by_cases h : w.1 = a
          · subst h; simp
          · simp [h, Function.update_of_ne (Ne.symm h)]

lemma lastWrite_eq_none_iff {ws : List (α × β)} {a : α} :
    lastWrite ws a = none ↔ ∀ w ∈ ws, w.1 ≠ a := by
  induction ws with
  | nil => simp
  | cons w ws ih => simp [ih, and_comm]

/-- `lastWrite` finds the write after which the address is left alone. -/
theorem lastWrite_eq_some_iff {ws : List (α × β)} {a : α} {d : β} :
    lastWrite ws a = some d ↔ ∃ pre post, ws = pre ++ (a, d) :: post ∧ ∀ w ∈ post, w.1 ≠ a := by
  constructor
  · intro h
    induction ws with
    | nil => simp at h
    | cons w ws ih =>
        rw [lastWrite_cons] at h
        cases hl : lastWrite ws a with
        | some e =>
            rw [hl, Option.some_or, Option.some.injEq] at h
            obtain ⟨pre, post, rfl, hpost⟩ := ih (by rw [hl, h])
            exact ⟨w :: pre, post, rfl, hpost⟩
        | none =>
            rw [hl, Option.none_or] at h
            split_ifs at h with hw
            obtain rfl : w = (a, d) := Prod.ext hw (Option.some.inj h)
            exact ⟨[], ws, rfl, lastWrite_eq_none_iff.mp hl⟩
  · rintro ⟨pre, post, rfl, hpost⟩
    simp [lastWrite_append, lastWrite_eq_none_iff.mpr hpost]

lemma mem_of_lastWrite {ws : List (α × β)} {a : α} {d : β} (h : lastWrite ws a = some d) :
    (a, d) ∈ ws := by
  obtain ⟨pre, post, rfl, -⟩ := lastWrite_eq_some_iff.mp h
  exact List.mem_append_right pre List.mem_cons_self

lemma lastWrite_map {f : α → γ} (hf : Function.Injective f) (g : β → δ) (ws : List (α × β))
    (a : α) : lastWrite (ws.map (Prod.map f g)) (f a) = (lastWrite ws a).map g := by
  induction ws with
  | nil => rfl
  | cons w ws ih =>
      rw [List.map_cons, lastWrite_cons, lastWrite_cons, ih, Option.map_or]
      by_cases h : w.1 = a
      · simp [h]
      · simp [h, hf.eq_iff]

lemma lastWrite_replicate {n : ℕ} (hn : n ≠ 0) (w : α × β) (a : α) :
    lastWrite (List.replicate n w) a = if w.1 = a then some w.2 else none := by
  obtain ⟨k, rfl⟩ := Nat.exists_eq_succ_of_ne_zero hn
  induction k with
  | zero => simp
  | succ k ih =>
      rw [List.replicate_succ, lastWrite_cons, ih (Nat.succ_ne_zero k)]
      split_ifs <;> rfl

omit [DecidableEq α] in
lemma exists_of_lastWrite_map {f : α → γ} {g : β → δ} {ws : List (α × β)} {c : γ} {d : δ}
    (h : lastWrite (ws.map (Prod.map f g)) c = some d) : ∃ v ∈ ws, f v.1 = c ∧ g v.2 = d := by
  obtain ⟨v, hv, hvd⟩ := List.mem_map.mp (mem_of_lastWrite h)
  exact ⟨v, hv, congrArg Prod.fst hvd, congrArg Prod.snd hvd⟩

omit [DecidableEq α] in
/-- **Writes through a lossy port.**  A memory that gets `f a` for an address and `g d` for a datum
returns what was written, as far as `h` can recover it, to every address of the list exactly if no
datum is lost and addresses that become the same carry the same datum. -/
theorem forall_lastWrite_map_iff {f : α → γ} {g : β → δ} {h : δ → β} {ws : List (α × β)} :
    (∀ w ∈ ws, (lastWrite (ws.map (Prod.map f g)) (f w.1)).map h = some w.2) ↔
      (∀ w ∈ ws, h (g w.2) = w.2) ∧ ∀ w ∈ ws, ∀ v ∈ ws, f w.1 = f v.1 → w.2 = v.2 := by
  constructor
  · intro hall
    have hsame (w : α × β) (hw : w ∈ ws) (v : α × β) (hv : v ∈ ws) (hf : f w.1 = f v.1) :
        w.2 = v.2 := by
      have hread := hall w hw
      rw [hf, hall v hv] at hread
      exact (Option.some.inj hread).symm
    refine ⟨?_, hsame⟩
    intro w hw
    obtain ⟨d, hd, hread⟩ := Option.map_eq_some_iff.mp (hall w hw)
    obtain ⟨v, hv, hf, hg⟩ := exists_of_lastWrite_map hd
    rw [← hsame v hv w hw hf, hg, hread]
    exact (hsame v hv w hw hf).symm
  · rintro ⟨hdata, hsame⟩ w hw
    cases hl : lastWrite (ws.map (Prod.map f g)) (f w.1) with
    | none =>
        exact absurd rfl (lastWrite_eq_none_iff.mp hl _ (List.mem_map_of_mem hw))
    | some d =>
        obtain ⟨v, hv, hf, hg⟩ := exists_of_lastWrite_map hl
        rw [Option.map_some, ← hg, ← hsame v hv w hw hf]
        exact congrArg some (hdata v hv)

/-- A cell to which only `d` is written holds `d`, if it did before. -/
lemma writeAll_apply_of_forall {m : α → β} {ws : List (α × β)} {a : α} {d : β}
    (h : ∀ w ∈ ws, w.1 = a → w.2 = d) (hm : m a = d) : writeAll m ws a = d := by
  rw [writeAll_apply]
  cases hl : lastWrite ws a with
  | none => exact hm
  | some e => exact h (a, e) (mem_of_lastWrite hl) rfl

lemma writeAll_apply_of_mem {m : α → β} {ws : List (α × β)} {a : α} {d : β} (hmem : (a, d) ∈ ws)
    (h : ∀ w ∈ ws, w.1 = a → w.2 = d) : writeAll m ws a = d := by
  rw [writeAll_apply]
  cases hl : lastWrite ws a with
  | none => exact absurd rfl (lastWrite_eq_none_iff.mp hl (a, d) hmem)
  | some e => exact h (a, e) (mem_of_lastWrite hl) rfl

/-- Writes change nothing exactly if every cell holds what they write to it last. -/
theorem writeAll_eq_self_iff {m : α → β} {ws : List (α × β)} :
    writeAll m ws = m ↔ ∀ a d, lastWrite ws a = some d → m a = d := by
  constructor
  · intro h a d hd
    rw [← congrFun h a, writeAll_apply, hd, Option.getD_some]
  · intro h
    funext a
    rw [writeAll_apply]
    cases hl : lastWrite ws a with
    | none => rfl
    | some d => exact (h a d hl).symm

lemma writeAll_eq_self {m : α → β} {ws : List (α × β)} (h : ∀ w ∈ ws, m w.1 = w.2) :
    writeAll m ws = m :=
  writeAll_eq_self_iff.mpr fun a d hd => h (a, d) (mem_of_lastWrite hd)

/-! ## Lost writes -/

section Lost

variable {ι : Type*} (keep : (α × β) × ι → Bool)

/-- After a write to an address that is left alone by the writes after it, the last one that is kept
is this one or one before it. -/
lemma lastWrite_filter_split (pre : List ((α × β) × ι)) {post : List ((α × β) × ι)}
    {x : (α × β) × ι} (hpost : ∀ y ∈ post, y.1.1 ≠ x.1.1) :
    lastWrite (((pre ++ x :: post).filter keep).map Prod.fst) x.1.1
      = if keep x then some x.1.2 else lastWrite ((pre.filter keep).map Prod.fst) x.1.1 := by
  have hnone : lastWrite ((post.filter keep).map Prod.fst) x.1.1 = none := by
    rw [lastWrite_eq_none_iff, List.forall_mem_map]
    exact fun y hy => hpost y (List.mem_of_mem_filter hy)
  rw [List.filter_append, List.map_append, lastWrite_append]
  cases hk : keep x with
  | true => simp [hk, hnone]
  | false => simp [hk, hnone]

/-- **Writes of which some are lost** have the outcome of all of them exactly if every lost one that
is not overwritten by a later one finds its datum there already: it was the last one kept before it,
or, if there is none, the old content. -/
theorem lastWrite_filter_iff (g : β → δ) (m : α → δ) (ws : List ((α × β) × ι)) :
    (∀ a d, lastWrite (ws.map Prod.fst) a = some d →
        ((lastWrite ((ws.filter keep).map Prod.fst) a).map g).getD (m a) = g d) ↔
      ∀ pre x post, ws = pre ++ x :: post → keep x = false → (∀ y ∈ post, y.1.1 ≠ x.1.1) →
        ((lastWrite ((pre.filter keep).map Prod.fst) x.1.1).map g).getD (m x.1.1) = g x.1.2 := by
  constructor
  · rintro h pre x post rfl hk hpost
    have hlast : lastWrite ((pre ++ x :: post).map Prod.fst) x.1.1 = some x.1.2 := by
      refine lastWrite_eq_some_iff.mpr ⟨pre.map Prod.fst, post.map Prod.fst, by simp, ?_⟩
      exact List.forall_mem_map.mpr hpost
    have hread := h _ _ hlast
    rw [lastWrite_filter_split keep pre hpost, hk] at hread
    exact hread
  · intro h a d hl
    obtain ⟨pre', post', hws, hpost'⟩ := lastWrite_eq_some_iff.mp hl
    obtain ⟨pre, rest, rfl, rfl, hrest⟩ := List.map_eq_append_iff.mp hws
    obtain ⟨x, post, rfl, hx, rfl⟩ := List.map_eq_cons_iff.mp hrest
    have hpost (y : (α × β) × ι) (hy : y ∈ post) : y.1.1 ≠ x.1.1 := by
      rw [hx]
      exact hpost' _ (List.mem_map_of_mem hy)
    have hlost := h pre x post rfl
    have hsplit := lastWrite_filter_split keep pre hpost
    rw [hx] at hlost hsplit
    rw [hsplit]
    cases hk : keep x with
    | true => rfl
    | false => exact hlost hk (by rwa [hx] at hpost)

end Lost

end LastWrite
