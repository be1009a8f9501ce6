import Mathlib.Tactic

/-!
# Counts along a tree

Each node of a forest has a count of its own, and a total.  What happens at a node is made known to
its parent, which may take a while, so the parent may still count something that the node does not
have any more: what is held back at the node.

* `Forest`, `Under` — the nodes, and which of them lie below which.
* `Balanced` — at every node the total is what the parent should know of, up to a debt.
* **`Balanced.total_eq`** — without a debt, a total is the sum over the nodes below.
* `Balanced.total_le`, `Balanced.eq_zero` — a total bounds the totals below; where it is zero, there
  is nothing below.
* `heldBy` — what is held back, as a list of amounts with their nodes.
-/

namespace Tally

/-- A forest: a parent is nearer to a root. -/
structure Forest (α : Type*) where
  up : α → Option α
  depth : α → ℕ
  depth_up : ∀ {a b}, up a = some b → depth b < depth a

namespace Forest

variable {α M : Type*} (F : Forest α)

/-! ## The nodes below a node -/

/-- The first node is the second one, or lies below it. -/
inductive Under : α → α → Prop
  | refl (a : α) : Under a a
  | up {d b a : α} : F.up d = some b → Under b a → Under d a

variable {F}

/-- What lies below is deeper. -/
lemma Under.depth_le {d a : α} (h : F.Under d a) : F.depth a ≤ F.depth d := by
  induction h with
  | refl a => exact le_rfl
  | up h _ ih => exact ih.trans (F.depth_up h).le

lemma Under.of_child {d c a : α} (h : F.Under d c) (hc : F.up c = some a) : F.Under d a := by
  induction h with
  | refl c => exact .up hc (.refl a)
  | up h _ ih => exact .up h (ih hc)

/-- A node lies below another one through one of its children. -/
lemma under_iff {d a : α} : F.Under d a ↔ d = a ∨ ∃ c, F.up c = some a ∧ F.Under d c := by
  constructor
  · intro h
    induction h with
    | refl a => exact Or.inl rfl
    | @up d b a h _ ih =>
        rcases ih with rfl | ⟨c, hc, hbc⟩
        · exact Or.inr ⟨d, h, .refl d⟩
        · exact Or.inr ⟨c, hc, .up h hbc⟩
  · rintro (rfl | ⟨c, hc, h⟩)
    · exact .refl d
    · exact h.of_child hc

/-- The nodes above a node form a chain. -/
lemma Under.chain {d a b : α} (ha : F.Under d a) (hb : F.Under d b) :
    F.Under a b ∨ F.Under b a := by
  induction ha with
  | refl a => exact Or.inl hb
  | @up d c a h hca ih =>
      cases hb with
      | refl => exact Or.inr (.up h hca)
      | @up _ c' _ h' hb =>
          obtain rfl : c = c' := Option.some.inj (h.symm.trans h')
          exact ih hb

/-- A node does not lie below its child. -/
lemma not_under_child {c a : α} (hc : F.up c = some a) : ¬ F.Under a c := by
  intro h
  exact absurd h.depth_le (not_le.mpr (F.depth_up hc))

/-- A node lies below at most one child of another node. -/
lemma child_unique {d c c' a : α} (hc : F.up c = some a) (hc' : F.up c' = some a)
    (h : F.Under d c) (h' : F.Under d c') : c = c' := by
  have key {c c' : α} (hc : F.up c = some a) (hc' : F.up c' = some a) (h : F.Under c c') :
      c = c' := by
    cases h with
    | refl => rfl
    | up hup h =>
        obtain rfl := Option.some.inj (hup.symm.trans hc)
        exact absurd h (not_under_child hc')
  rcases h.chain h' with h | h
  · exact key hc hc' h
  · exact (key hc' hc h).symm

/-! ## Sums over the tree -/

variable [Fintype α] [AddCommMonoid M]

variable (F) in
open scoped Classical in
/-- The sum over a node and the nodes below it. -/
noncomputable def sumUnder (f : α → M) (a : α) : M := ∑ d with F.Under d a, f d

variable (F) in
open scoped Classical in
/-- The sum over the nodes below a node. -/
noncomputable def sumBelow (f : α → M) (a : α) : M := ∑ d with F.Under d a ∧ d ≠ a, f d

variable (F) in
open scoped Classical in
/-- The sum over the children of a node. -/
noncomputable def sumChildren (f : α → M) (a : α) : M := ∑ c with F.up c = some a, f c

/-- The node itself and the nodes below. -/
lemma sumUnder_eq_add_sumBelow (f : α → M) (a : α) :
    F.sumUnder f a = f a + F.sumBelow f a := by
  classical
  have hsplit : Finset.univ.filter (fun d => F.Under d a)
      = insert a (Finset.univ.filter fun d => F.Under d a ∧ d ≠ a) := by
    ext d
    by_cases hd : d = a
    · simp [hd, Under.refl]
    · simp [hd]
  rw [sumUnder, sumBelow, hsplit, Finset.sum_insert (by simp)]

lemma sumUnder_add (f g : α → M) (a : α) :
    F.sumUnder (f + g) a = F.sumUnder f a + F.sumUnder g a :=
  Finset.sum_add_distrib

lemma sumChildren_add (f g : α → M) (a : α) :
    F.sumChildren (f + g) a = F.sumChildren f a + F.sumChildren g a :=
  Finset.sum_add_distrib

/-- A tree consists of its root and of the trees of the children. -/
lemma sumUnder_eq_add_sumChildren (f : α → M) (a : α) :
    F.sumUnder f a = f a + F.sumChildren (F.sumUnder f) a := by
  classical
  have hbelow : Finset.univ.filter (fun d => F.Under d a ∧ d ≠ a)
      = (Finset.univ.filter fun c => F.up c = some a).biUnion
        fun c => Finset.univ.filter fun d => F.Under d c := by
    ext d
    simp only [Finset.mem_filter, Finset.mem_univ, true_and, Finset.mem_biUnion]
    constructor
    · rintro ⟨h, hd⟩
      exact (under_iff.mp h).resolve_left hd
    · rintro ⟨c, hc, h⟩
      refine ⟨h.of_child hc, ?_⟩
      rintro rfl
      exact not_under_child hc h
  rw [sumUnder_eq_add_sumBelow, sumBelow, hbelow, Finset.sum_biUnion]
  · rfl
  intro c hc c' hc' hne
  refine Finset.disjoint_left.mpr fun d hd hd' => hne ?_
  simp only [Finset.coe_filter, Finset.mem_univ, true_and, Set.mem_ofPred_eq, Finset.mem_filter]
    at hc hc' hd hd'
  exact child_unique hc hc' hd hd'

/-- Induction from the leaves to the roots. -/
lemma leaves_induction {p : α → Prop} (h : ∀ a, (∀ c, F.up c = some a → p c) → p a) (a : α) :
    p a := by
  have hwf : WellFounded fun c a : α => F.depth a < F.depth c :=
    Finite.wellFounded_of_trans_of_irrefl _
  refine hwf.induction a ?_
  intro a ih
  exact h a fun c hc => ih c (F.depth_up hc)

end Forest

/-! ## The balance -/

variable {α M : Type*} [Fintype α] {F : Forest α}

section Balance

variable [AddCommGroup M]

/-- At each node the total is the sum of the own count and of what the children have made known,
up to a debt: what the node has still to be told of. -/
def Balanced (F : Forest α) (total own held debt : α → M) : Prop :=
  ∀ a, total a + debt a = own a + F.sumChildren (total + held) a

variable {total own held debt : α → M}

/-- **A total is the sum over the nodes below.** -/
theorem Balanced.total_eq (h : Balanced F total own held 0) (a : α) :
    total a = F.sumUnder own a + F.sumBelow held a := by
  classical
  have hsum : total a + held a = F.sumUnder (own + held) a := by
    induction a using F.leaves_induction with
    | h a ih =>
        have hchildren : F.sumChildren (total + held) a
            = F.sumChildren (F.sumUnder (own + held)) a := by
          refine Finset.sum_congr rfl ?_
          intro c hc
          exact ih c (Finset.mem_filter.mp hc).2
        have hbal := h a
        rw [Pi.zero_apply, add_zero, hchildren] at hbal
        rw [Forest.sumUnder_eq_add_sumChildren, hbal, Pi.add_apply]
        abel
  rw [Forest.sumUnder_add, Forest.sumUnder_eq_add_sumBelow held] at hsum
  refine add_right_cancel (b := held a) ?_
  rw [hsum]
  abel

variable [DecidableEq α]

/-- A debt of the parent of a node. -/
def Forest.send (F : Forest α) (a : α) (k : M) : α → M :=
  match F.up a with
  | none => 0
  | some b => Pi.single b k

/-- What is at one node is known to its parent. -/
lemma Forest.sumChildren_single (c : α) (k : M) (a : α) :
    F.sumChildren (Pi.single c k) a = F.send c k a := by
  classical
  rw [Forest.sumChildren, Forest.send, Finset.sum_filter]
  rw [Finset.sum_eq_single c (fun d _ hd => by simp [hd]) (fun hc => by simp at hc)]
  rw [Pi.single_eq_same]
  cases hup : F.up c with
  | none => simp
  | some b =>
      by_cases hba : b = a
      · simp [hba]
      · simp [hba, Ne.symm hba]

/-- Any change at a node changes the debts of the node and of its parent. -/
lemma Balanced.change (h : Balanced F total own held debt) (a : α) (x y z : M) :
    Balanced F (total + Pi.single a x) (own + Pi.single a y) (held + Pi.single a z)
      (debt + Pi.single a (y - x) + F.send a (x + z)) := by
  intro b
  have hbal := h b
  have hfun : total + Pi.single a x + (held + Pi.single a z)
      = total + held + Pi.single a (x + z) := by
    rw [Pi.single_add]
    abel
  rw [hfun, Forest.sumChildren_add, Forest.sumChildren_single]
  simp only [Pi.add_apply, Pi.single_sub, Pi.sub_apply]
  generalize (Pi.single a x : α → M) b = x', (Pi.single a y : α → M) b = y'
  calc total b + x' + (debt b + (y' - x') + F.send a (x + z) b)
      = total b + debt b + (y' + F.send a (x + z) b) := by abel
    _ = own b + y' + (F.sumChildren (total + held) b + F.send a (x + z) b) := by
        rw [hbal]
        abel

end Balance

section Order

variable [AddCommGroup M] [PartialOrder M] [IsOrderedAddMonoid M] {total own held f : α → M}

lemma Forest.sumUnder_nonneg (hf : ∀ a, 0 ≤ f a) (a : α) : 0 ≤ F.sumUnder f a :=
  Finset.sum_nonneg fun d _ => hf d

lemma Forest.sumBelow_nonneg (hf : ∀ a, 0 ≤ f a) (a : α) : 0 ≤ F.sumBelow f a :=
  Finset.sum_nonneg fun d _ => hf d

/-- A sum of zero leaves nothing below. -/
lemma Forest.eq_zero_of_sumUnder (hf : ∀ a, 0 ≤ f a) {a d : α} (h : F.sumUnder f a = 0)
    (hd : F.Under d a) : f d = 0 := by
  classical
  refine (Finset.sum_eq_zero_iff_of_nonneg fun d _ => hf d).mp h d ?_
  simpa using hd

lemma Forest.eq_zero_of_sumBelow (hf : ∀ a, 0 ≤ f a) {a d : α} (h : F.sumBelow f a = 0)
    (hd : F.Under d a) (hne : d ≠ a) : f d = 0 := by
  classical
  refine (Finset.sum_eq_zero_iff_of_nonneg fun d _ => hf d).mp h d ?_
  simpa using ⟨hd, hne⟩

namespace Balanced

variable (h : Balanced F total own held 0) (hown : ∀ a, 0 ≤ own a) (hheld : ∀ a, 0 ≤ held a)
include h hown hheld

/-- No total is negative. -/
lemma total_nonneg (a : α) : 0 ≤ total a := by
  rw [h.total_eq a]
  exact add_nonneg (Forest.sumUnder_nonneg hown a) (Forest.sumBelow_nonneg hheld a)

/-- Where a total is zero, no node below counts anything, and nothing is held back there. -/
theorem eq_zero {a d : α} (ha : total a = 0) (hd : F.Under d a) :
    own d = 0 ∧ (d ≠ a → held d = 0) := by
  have hsum := h.total_eq a
  rw [ha, eq_comm, add_eq_zero_iff_of_nonneg (Forest.sumUnder_nonneg hown a)
    (Forest.sumBelow_nonneg hheld a)] at hsum
  exact ⟨Forest.eq_zero_of_sumUnder hown hsum.1 hd, Forest.eq_zero_of_sumBelow hheld hsum.2 hd⟩

/-- A total is not less than the totals below. -/
lemma total_le {a d : α} (hd : F.Under d a) : total d ≤ total a := by
  classical
  induction hd with
  | refl a => exact le_rfl
  | @up d b a hup _ ih =>
      have hb := h b
      have hcarried (c : α) : 0 ≤ (total + held) c :=
        add_nonneg (h.total_nonneg hown hheld c) (hheld c)
      have hchild : (total + held) d ≤ F.sumChildren (total + held) b :=
        Finset.single_le_sum (fun c _ => hcarried c) (by simpa using hup)
      rw [Pi.zero_apply, add_zero] at hb
      calc total d ≤ total d + held d := le_add_of_nonneg_right (hheld d)
        _ ≤ F.sumChildren (total + held) b := hchild
        _ ≤ total b := by
            rw [hb]
            exact le_add_of_nonneg_left (hown b)
        _ ≤ total a := ih

/-- Where a total is zero, so are the totals below. -/
lemma total_eq_zero {a d : α} (ha : total a = 0) (hd : F.Under d a) : total d = 0 :=
  le_antisymm (ha ▸ h.total_le hown hheld hd) (h.total_nonneg hown hheld d)

end Balanced

end Order

/-! ## What is held back -/

section HeldBy

variable {α β M : Type*} [DecidableEq α] (node : β → α) (amount : β → M)

/-- The amounts in a list, each at its node. -/
def heldBy [AddCommMonoid M] (l : List β) : α → M :=
  (l.map fun c => Pi.single (node c) (amount c)).sum

@[simp] lemma heldBy_nil [AddCommMonoid M] : heldBy node amount [] = 0 := rfl

lemma heldBy_cons [AddCommMonoid M] (c : β) (l : List β) :
    heldBy node amount (c :: l) = Pi.single (node c) (amount c) + heldBy node amount l := by
  rw [heldBy, List.map_cons, List.sum_cons, heldBy]

/-- The order of the list does not matter. -/
lemma heldBy_perm [AddCommMonoid M] {l l' : List β} (h : l.Perm l') :
    heldBy node amount l = heldBy node amount l' :=
  (h.map _).sum_eq

variable [AddCommMonoid M] [PartialOrder M] [IsOrderedAddMonoid M] {node amount}

/-- Nothing negative is held back. -/
lemma heldBy_nonneg {l : List β} (h : ∀ c ∈ l, 0 ≤ amount c) (a : α) :
    0 ≤ heldBy node amount l a := by
  induction l with
  | nil => exact le_rfl
  | cons c l ih =>
      rw [heldBy_cons, Pi.add_apply]
      refine add_nonneg ?_ (ih fun d hd => h d (List.mem_cons_of_mem c hd))
      rw [Pi.single_apply]
      split_ifs
      · exact h c List.mem_cons_self
      · exact le_rfl

/-- Nothing is held back at a node exactly if no entry is for it. -/
lemma heldBy_eq_zero_iff {l : List β} (h : ∀ c ∈ l, 0 < amount c) (a : α) :
    heldBy node amount l a = 0 ↔ ∀ c ∈ l, node c ≠ a := by
  induction l with
  | nil => simp
  | cons c l ih =>
      have hl : ∀ d ∈ l, 0 < amount d := fun d hd => h d (List.mem_cons_of_mem c hd)
      have hc : 0 < amount c := h c List.mem_cons_self
      rw [heldBy_cons, Pi.add_apply, add_eq_zero_iff_of_nonneg
        (by rw [Pi.single_apply]; split_ifs; exacts [hc.le, le_rfl])
        (heldBy_nonneg (fun d hd => (hl d hd).le) a), ih hl, List.forall_mem_cons]
      refine and_congr_left fun _ => ?_
      rw [Pi.single_apply]
      split_ifs with hac
      · simp [hac, hc.ne']
      · simp [Ne.symm hac]

end HeldBy

end Tally
