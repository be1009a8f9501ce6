import Mathlib.Tactic

/-!
# Glob patterns

* `Token`, `Matches` — patterns of letters, of wildcards for one letter and of wildcards for any
  number of them, and the strings they match.
* **`matches_many_iff`** — what follows a wildcard may begin at any later place.
* **`matches_drop_of_append`** — the part of a pattern between two such wildcards takes as many
  letters as it is long, so that nothing is lost when the first of the two is not tried again.
-/

namespace Glob

variable {α : Type*}

/-- The tokens of a glob: a character, any one character, and any string. -/
inductive Token (α : Type*) where
  | lit (a : α)
  | any
  | many
  deriving DecidableEq

/-- The language of a glob. -/
inductive Matches : List (Token α) → List α → Prop where
  | nil : Matches [] []
  | lit {p s} (a : α) (h : Matches p s) : Matches (.lit a :: p) (a :: s)
  | any {p s} (a : α) (h : Matches p s) : Matches (.any :: p) (a :: s)
  | skip {p s} (h : Matches p s) : Matches (.many :: p) s
  | take {p s} (a : α) (h : Matches (.many :: p) s) : Matches (.many :: p) (a :: s)

@[simp] lemma matches_lit_cons_iff {a b : α} {p : List (Token α)} {s : List α} :
    Matches (.lit a :: p) (b :: s) ↔ a = b ∧ Matches p s := by
  constructor
  · rintro ⟨⟩
    exact ⟨rfl, by assumption⟩
  · rintro ⟨rfl, h⟩
    exact .lit a h

@[simp] lemma matches_any_cons_iff {b : α} {p : List (Token α)} {s : List α} :
    Matches (.any :: p) (b :: s) ↔ Matches p s := by
  constructor
  · rintro ⟨⟩
    assumption
  · exact .any b

/-- Without letters only wildcards for any number of them match. -/
lemma matches_nil_iff {p : List (Token α)} : Matches p [] ↔ ∀ t ∈ p, t = .many := by
  induction p with
  | nil => exact ⟨fun _ => by simp, fun _ => .nil⟩
  | cons t p ih =>
      rw [List.forall_mem_cons, ← ih]
      constructor
      · rintro ⟨⟩
        exact ⟨rfl, by assumption⟩
      · rintro ⟨rfl, h⟩
        exact .skip h

lemma not_matches_nil_cons {a : α} {s : List α} : ¬ Matches ([] : List (Token α)) (a :: s) := by
  rintro ⟨⟩

lemma matches_many_cons_iff {b : α} {p : List (Token α)} {s : List α} :
    Matches (.many :: p) (b :: s) ↔ Matches p (b :: s) ∨ Matches (.many :: p) s := by
  constructor
  · intro h
    cases h with
    | skip h => exact .inl h
    | take _ h => exact .inr h
  · rintro (h | h)
    · exact .skip h
    · exact .take b h

theorem matches_many_iff {p : List (Token α)} {s : List α} :
    Matches (.many :: p) s ↔ ∃ k ≤ s.length, Matches p (s.drop k) := by
  induction s with
  | nil => simp [matches_nil_iff]
  | cons b s ih =>
      rw [matches_many_cons_iff, ih]
      constructor
      · rintro (h | ⟨k, hk, h⟩)
        · exact ⟨0, Nat.zero_le _, h⟩
        · exact ⟨k + 1, Nat.succ_le_succ hk, h⟩
      · rintro ⟨k, hk, h⟩
        cases k with
        | zero => exact .inl h
        | succ k => exact .inr ⟨k, Nat.le_of_succ_le_succ hk, h⟩

/-- A last wildcard matches whatever is left. -/
lemma matches_many_nil (s : List α) : Matches [.many] s :=
  matches_many_iff.mpr ⟨s.length, le_rfl, by rw [List.drop_length]; exact .nil⟩

theorem matches_drop_of_append {q p : List (Token α)} {s : List α} (hq : ∀ t ∈ q, t ≠ .many)
    (h : Matches (q ++ p) s) : q.length ≤ s.length ∧ Matches p (s.drop q.length) := by
  induction q generalizing s with
  | nil => exact ⟨Nat.zero_le _, h⟩
  | cons t q ih =>
      obtain ⟨ht, hrest⟩ := List.forall_mem_cons.mp hq
      rw [List.cons_append] at h
      cases h with
      | lit a h => exact (ih hrest h).imp Nat.succ_le_succ id
      | any a h => exact (ih hrest h).imp Nat.succ_le_succ id
      | skip h => exact absurd rfl ht
      | take a h => exact absurd rfl ht

end Glob
