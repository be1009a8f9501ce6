import Mathlib.Tactic

/-!
# Streams of bits

* `field`, `ofField` — the bits of a number in a stream, the most significant or the least
  significant one first, and back.
* `bitAt`, `store`, `load` — a vector that is written and read bit by bit.  Behind its end nothing
  is written, and `false` is read.
* **`ofField_field`**, **`field_ofField`**, **`load_store`** — what is written is read again.
-/

namespace BitStream

/-! ## Fields -/

/-- The number with these bits. -/
def ofBits (w : ℕ) (f : ℕ → Bool) : BitVec w :=
  (BitVec.ofBoolListLE ((List.range w).map f)).setWidth w

@[simp] lemma getLsbD_ofBits (w : ℕ) (f : ℕ → Bool) (i : ℕ) :
    (ofBits w f).getLsbD i = (decide (i < w) && f i) := by
  rw [ofBits, BitVec.getLsbD_setWidth, BitVec.getLsbD_ofBoolListLE, List.getD_eq_getElem?_getD,
    List.getElem?_map]
  by_cases h : i < w
  · rw [List.getElem?_range h]
    rfl
  · simp [h]

/-- The place of the bit `k` in a field of `size` bits, and the bit at the place `k`. -/
def place (big : Bool) (size k : ℕ) : ℕ := if big then size - 1 - k else k

/-- A place is inside the field. -/
lemma place_lt (big : Bool) {size k : ℕ} (h : k < size) : place big size k < size := by
  rw [place]
  split_ifs <;> omega

/-- The order of the bits is its own inverse. -/
lemma place_place {big : Bool} {size k : ℕ} (h : k < size) :
    place big size (place big size k) = k := by
  simp only [place]
  split_ifs <;> omega

/-- The lowest `size` bits of a number. -/
def field {w : ℕ} (big : Bool) (size : ℕ) (v : BitVec w) : List Bool :=
  (List.range size).map fun k => v.getLsbD (place big size k)

/-- The number in a field. -/
def ofField (w : ℕ) (big : Bool) (bs : List Bool) : BitVec w :=
  ofBits w fun i => decide (i < bs.length) && bs.getD (place big bs.length i) false

@[simp] lemma length_field {w : ℕ} (big : Bool) (size : ℕ) (v : BitVec w) :
    (field big size v).length = size := by
  simp [field]

/-- A bit of a field, by its place. -/
lemma getD_field {w : ℕ} (big : Bool) {size k : ℕ} (v : BitVec w) (h : k < size) :
    (field big size v).getD k false = v.getLsbD (place big size k) := by
  rw [field, List.getD_eq_getElem?_getD, List.getElem?_map, List.getElem?_range h]
  rfl

/-- The bits of a number do not depend on the width it is written with. -/
lemma field_setWidth {s w : ℕ} (h : s ≤ w) (big : Bool) (x : BitVec s) :
    field big s (x.setWidth w) = field big s x := by
  refine List.map_congr_left fun k hk => ?_
  have hplace := place_lt big (List.mem_range.mp hk)
  have hw : place big s k < w := by omega
  rw [BitVec.getLsbD_setWidth, decide_eq_true hw, Bool.true_and]

/-- The bits that are not asked for make no difference. -/
lemma field_truncate {s w : ℕ} (big : Bool) (x : BitVec w) :
    field big s (x.setWidth s) = field big s x := by
  refine List.map_congr_left fun k hk => ?_
  have hplace := place_lt big (List.mem_range.mp hk)
  rw [BitVec.getLsbD_setWidth, decide_eq_true hplace, Bool.true_and]

/-- A number of `s` bits that is read as one of `w` bits is the number that has been written. -/
theorem ofField_field {s w : ℕ} (h : s ≤ w) (big : Bool) (x : BitVec s) :
    (ofField w big (field big s x)).setWidth s = x := by
  refine BitVec.eq_of_getLsbD_eq fun i hi => ?_
  have hw : i < w := by omega
  have hplace := place_lt big hi
  rw [BitVec.getLsbD_setWidth, ofField, getLsbD_ofBits, length_field, getD_field big _ hplace,
    place_place hi]
  simp [hi, hw]

/-- A field that is read as a number of `w` bits is the field that is written for this number. -/
theorem field_ofField {s w : ℕ} (h : s ≤ w) (big : Bool) {bs : List Bool} (hbs : bs.length = s) :
    field big s ((ofField w big bs).setWidth s) = bs := by
  refine List.ext_getElem (by simp [hbs]) fun k hk hk' => ?_
  have hks : k < s := by simpa using hk
  have hplace := place_lt big hks
  have hget := getD_field big ((ofField w big bs).setWidth s) hks
  rw [List.getD_eq_getElem?_getD, List.getElem?_eq_getElem hk, Option.getD_some] at hget
  rw [hget, BitVec.getLsbD_setWidth, ofField, getLsbD_ofBits, hbs, place_place hks,
    List.getD_eq_getElem?_getD, List.getElem?_eq_getElem hk', Option.getD_some]
  have hw : place big s k < w := by omega
  simp [hplace, hw]

/-! ## Vectors of bits -/

variable {n : ℕ}

/-- A bit of the memory; behind its end there are zeros. -/
def bitAt (m : Vector Bool n) (i : ℕ) : Bool := (m[i]?).getD false

/-- A bit that is set, and the others. -/
lemma bitAt_setIfInBounds (m : Vector Bool n) (i : ℕ) (b : Bool) (j : ℕ) :
    bitAt (m.setIfInBounds i b) j = if i = j ∧ j < n then b else bitAt m j := by
  rw [bitAt, bitAt, Vector.getElem?_setIfInBounds]
  by_cases hij : i = j
  · subst hij
    by_cases hn : i < n
    · simp [hn]
    · simp [hn]
  · simp [hij]

/-- The bits of a list are written from the place `i` on, one after the other. -/
def store (m : Vector Bool n) (i : ℕ) : List Bool → Vector Bool n
  | [] => m
  | b :: bs => store (m.setIfInBounds i b) (i + 1) bs

/-- The same, the last one first. -/
def storeDown (m : Vector Bool n) (i : ℕ) : List Bool → Vector Bool n
  | [] => m
  | b :: bs => (storeDown m (i + 1) bs).setIfInBounds i b

/-- `len` bits from the place `i` on. -/
def load (m : Vector Bool n) (i len : ℕ) : List Bool :=
  (List.range len).map fun k => bitAt m (i + k)

/-- The bit that is at the place `j` when a list has been written from the place `i` on. -/
def overwritten (n i : ℕ) (bs : List Bool) (j : ℕ) (old : Bool) : Bool :=
  if i ≤ j ∧ j < i + bs.length ∧ j < n then bs.getD (j - i) false else old

lemma overwritten_cons (i : ℕ) (b : Bool) (bs : List Bool) (j : ℕ) (old : Bool) :
    overwritten n i (b :: bs) j old
      = if i = j ∧ j < n then b else overwritten n (i + 1) bs j old := by
  simp only [overwritten, List.length_cons]
  rcases Nat.lt_trichotomy i j with hlt | rfl | hgt
  · obtain ⟨k, rfl⟩ := Nat.exists_eq_add_of_lt hlt
    have hk : i + k + 1 - i = k + 1 := by omega
    have hk' : i + k + 1 - (i + 1) = k := by omega
    rw [if_neg (by omega : ¬ (i = i + k + 1 ∧ i + k + 1 < n)), hk, hk', List.getD_cons_succ]
    refine if_congr ?_ rfl rfl
    omega
  · rw [if_neg (by omega : ¬ (i + 1 ≤ i ∧ i < i + 1 + bs.length ∧ i < n)), Nat.sub_self,
      List.getD_cons_zero]
    refine if_congr ?_ rfl rfl
    omega
  · rw [if_neg (by omega : ¬ (i = j ∧ j < n)),
      if_neg (by omega : ¬ (i + 1 ≤ j ∧ j < i + 1 + bs.length ∧ j < n)),
      if_neg (by omega : ¬ (i ≤ j ∧ j < i + (bs.length + 1) ∧ j < n))]

/-- What lies before is not overwritten. -/
lemma overwritten_of_lt {i j : ℕ} (h : j < i) (bs : List Bool) (old : Bool) :
    overwritten n i bs j old = old :=
  if_neg (by omega)

/-- A bit after a store. -/
lemma bitAt_store (m : Vector Bool n) (i : ℕ) (bs : List Bool) (j : ℕ) :
    bitAt (store m i bs) j = overwritten n i bs j (bitAt m j) := by
  induction bs generalizing m i with
  | nil => exact (if_neg fun h => absurd h.2.1 (by simpa using h.1)).symm
  | cons b bs ih =>
      rw [store, ih, bitAt_setIfInBounds, overwritten_cons]
      by_cases hij : i = j ∧ j < n
      · rw [if_pos hij, if_pos hij, overwritten_of_lt (by omega)]
      · rw [if_neg hij, if_neg hij]

/-- The order of the writes does not matter. -/
lemma bitAt_storeDown (m : Vector Bool n) (i : ℕ) (bs : List Bool) (j : ℕ) :
    bitAt (storeDown m i bs) j = bitAt (store m i bs) j := by
  rw [bitAt_store]
  induction bs generalizing i with
  | nil => exact (if_neg fun h => absurd h.2.1 (by simpa using h.1)).symm
  | cons b bs ih => rw [storeDown, bitAt_setIfInBounds, ih, overwritten_cons]

@[simp] lemma length_load (m : Vector Bool n) (i len : ℕ) : (load m i len).length = len := by
  simp [load]

/-- A load in two parts. -/
lemma load_add (m : Vector Bool n) (i a b : ℕ) :
    load m i (a + b) = load m i a ++ load m (i + a) b := by
  rw [load, List.range_add, List.map_append, List.map_map]
  simp only [load, Function.comp_def, Nat.add_assoc]

/-- The beginning of a load. -/
lemma take_load (m : Vector Bool n) (i : ℕ) {a b : ℕ} (h : a ≤ b) :
    (load m i b).take a = load m i a := by
  obtain ⟨c, rfl⟩ := Nat.exists_eq_add_of_le h
  rw [load_add, List.take_left' (length_load ..)]

/-- Two vectors that agree on some places are read alike there. -/
lemma load_congr {k : ℕ} {m : Vector Bool n} {m' : Vector Bool k} {i len : ℕ}
    (h : ∀ j < len, bitAt m (i + j) = bitAt m' (i + j)) : load m i len = load m' i len :=
  List.map_congr_left fun j hj => h j (List.mem_range.mp hj)

lemma load_eq_iff {m : Vector Bool n} {i : ℕ} {bs : List Bool} :
    load m i bs.length = bs ↔ ∀ j < bs.length, bitAt m (i + j) = bs.getD j false := by
  constructor
  · intro h j hj
    rw [← h, load, List.getD_eq_getElem?_getD, List.getElem?_map, List.getElem?_range hj]
    rfl
  · intro h
    refine List.ext_getElem (by simp) fun j hj hj' => ?_
    simp only [load, List.getElem_map, List.getElem_range]
    rw [h j hj', List.getD_eq_getElem?_getD, List.getElem?_eq_getElem hj', Option.getD_some]

/-- What is stored is what is loaded. -/
theorem load_store (m : Vector Bool n) (i : ℕ) (bs : List Bool) (h : i + bs.length ≤ n) :
    load (store m i bs) i bs.length = bs := by
  rw [load_eq_iff]
  intro j hj
  rw [bitAt_store, overwritten, if_pos (by omega), Nat.add_sub_cancel_left]

/-- The direction of the loop does not matter. -/
lemma load_storeDown (m : Vector Bool n) (i : ℕ) (bs : List Bool) (j len : ℕ) :
    load (storeDown m i bs) j len = load (store m i bs) j len :=
  load_congr fun _ _ => bitAt_storeDown m i bs _

/-- What is written leaves the bits before it alone. -/
lemma load_store_of_le (m : Vector Bool n) {i j len : ℕ} (h : j + len ≤ i) (bs : List Bool) :
    load (store m i bs) j len = load m j len := by
  refine load_congr fun k hk => ?_
  rw [bitAt_store, overwritten_of_lt (by omega)]

end BitStream
