import SinglePortRam.Uvm.Packer

/-!
# Packed items

Without metadata the packer stores no sizes, so what is unpacked has the sizes that its queues had
before.  The default packer uses none.

* `ItemFields.encode` — the stream an item is packed into.
* **`unpack_pack_iff`** — when an item is unpacked again.
* **`unpack_canonical`** — a stream that is unpacked without a report begins with the stream of the
  result, and the check for bits that are left over never reports any.
-/

namespace SinglePortRam

open BitStream UvmPacker

variable {D A N : ℕ}

/-! ## The format -/

/-- The stream of a queue, with its size if metadata are used. -/
def encodeQueue {s : ℕ} (useMetadata big : Bool) (q : List (BitVec s)) : List Bool :=
  (if useMetadata then field big 32 (BitVec.ofNat 32 q.length) else []) ++ q.flatMap (field big s)

/-- With metadata the size comes first. -/
lemma encodeQueue_true {s : ℕ} (big : Bool) (q : List (BitVec s)) :
    encodeQueue true big q = field big 32 (BitVec.ofNat 32 q.length) ++ q.flatMap (field big s) :=
  rfl

/-- The stream of an item. -/
def ItemFields.encode (useMetadata big : Bool) (it : ItemFields D A) : List Bool :=
  field big 32 it.transType ++ field big D it.transLength
    ++ encodeQueue useMetadata big it.transAddr ++ encodeQueue useMetadata big it.transDatai
    ++ encodeQueue useMetadata big it.transDatao

/-- The number of its bits. -/
def ItemFields.packedSize (useMetadata : Bool) (it : ItemFields D A) : ℕ :=
  32 + D + (if useMetadata then 3 * 32 else 0) + it.transAddr.length * A
    + (it.transDatai.length + it.transDatao.length) * D

lemma length_flatMap_field {s : ℕ} (big : Bool) (q : List (BitVec s)) :
    (q.flatMap (field big s)).length = q.length * s := by
  induction q with
  | nil => simp
  | cons v q ih =>
      rw [List.flatMap_cons, List.length_append, length_field, ih, List.length_cons]
      ring

lemma length_encodeQueue {s : ℕ} (useMetadata big : Bool) (q : List (BitVec s)) :
    (encodeQueue useMetadata big q).length = (if useMetadata then 32 else 0) + q.length * s := by
  rw [encodeQueue, List.length_append, length_flatMap_field]
  split_ifs <;> simp

lemma ItemFields.length_encode (useMetadata big : Bool) (it : ItemFields D A) :
    (it.encode useMetadata big).length = it.packedSize useMetadata := by
  simp only [encode, packedSize, List.length_append, length_field, length_encodeQueue]
  split_ifs <;> ring

/-! ## Packing -/

/-- From `p₀` on, the packer has packed the bits `bs`; if there is room for them, they are in
`m_bits`. -/
structure Packed (p₀ p : UvmPacker N) (bs : List Bool) : Prop where
  useMetadata : p.useMetadata = p₀.useMetadata
  bigEndian : p.bigEndian = p₀.bigEndian
  reports : p.reports = p₀.reports
  count : p.count = bs.length
  bits : bs.length ≤ N → load p.mBits 0 bs.length = bs

namespace Packed

variable {p₀ p : UvmPacker N} {bs : List Bool}

/-- After `reset` nothing is packed. -/
lemma reset (p : UvmPacker N) : Packed p p.reset [] :=
  ⟨rfl, rfl, rfl, rfl, fun _ => rfl⟩

/-- A field is packed behind what is packed already. -/
lemma packOf (h : Packed p₀ p bs) {w : ℕ} (v : BitVec w) (size : ℕ) :
    Packed p₀ (p.packOf v size) (bs ++ field p₀.bigEndian size v) := by
  obtain ⟨hmetadata, hbig, hreports, hcount, hbits⟩ := h
  refine ⟨hmetadata, hbig, hreports, ?_, fun hle => ?_⟩
  · rw [List.length_append, length_field, ← hcount]
    rfl
  · rw [List.length_append, length_field] at hle ⊢
    show load (store p.mBits p.count (field p.bigEndian size v)) 0 (bs.length + size) = _
    have hfield : load (store p.mBits bs.length (field p.bigEndian size v)) bs.length size
        = field p.bigEndian size v := by
      have hstore := load_store p.mBits bs.length (field p.bigEndian size v)
        (by rwa [length_field])
      rwa [length_field] at hstore
    rw [load_add, hcount, load_store_of_le p.mBits (by omega), hbits (by omega), Nat.zero_add,
      hfield, hbig]

/-- An element is packed with its own width. -/
lemma packElement (h : Packed p₀ p bs) {s : ℕ} (hs : s ≤ streamBits) (v : BitVec s) :
    Packed p₀ (p.packElement v) (bs ++ field p₀.bigEndian s v) := by
  rw [UvmPacker.packElement]
  split_ifs with hsmall
  · rw [← field_setWidth hsmall]
    exact h.packOf _ s
  · rw [← field_setWidth hs]
    exact h.packOf _ s

/-- The elements are packed one after the other. -/
lemma packElements (h : Packed p₀ p bs) {s : ℕ} (hs : s ≤ streamBits) (q : List (BitVec s)) :
    Packed p₀ (q.foldl UvmPacker.packElement p) (bs ++ q.flatMap (field p₀.bigEndian s)) := by
  induction q generalizing p bs with
  | nil => simpa using h
  | cons v q ih =>
      rw [List.foldl_cons, List.flatMap_cons, ← List.append_assoc]
      exact ih (h.packElement hs v)

/-- A queue is packed as its stream. -/
lemma packQueue (h : Packed p₀ p bs) {s : ℕ} (hs : s ≤ streamBits) (q : List (BitVec s)) :
    Packed p₀ (p.packQueue q) (bs ++ encodeQueue p₀.useMetadata p₀.bigEndian q) := by
  rw [UvmPacker.packQueue, h.useMetadata]
  cases p₀.useMetadata with
  | false => exact h.packElements hs q
  | true =>
      have hsize : field p₀.bigEndian 32 (BitVec.ofNat 32 q.length)
          = field p₀.bigEndian 32 (BitVec.ofNat 64 q.length) := by
        rw [← field_truncate p₀.bigEndian (BitVec.ofNat 64 q.length),
          BitVec.setWidth_ofNat_of_le (by decide)]
      rw [if_pos rfl, encodeQueue_true, hsize, ← List.append_assoc]
      exact (h.packOf (BitVec.ofNat 64 q.length) 32).packElements hs q

end Packed

/-- **The stream of an item** is its fields, one after the other. -/
lemma packed_packFields (hD : D ≤ streamBits) (hA : A ≤ streamBits) (it : ItemFields D A)
    (p : UvmPacker N) :
    Packed p (it.packFields p.reset) (it.encode p.useMetadata p.bigEndian) := by
  have htype := (Packed.reset p).packOf (it.transType.setWidth streamBits) 32
  rw [field_setWidth (by decide), List.nil_append] at htype
  exact (((htype.packElement hD it.transLength).packQueue hA it.transAddr).packQueue hD
    it.transDatai).packQueue hD it.transDatao

/-- The size that is packed. -/
lemma mPackedSize_mPack (hD : D ≤ streamBits) (hA : A ≤ streamBits) (it : ItemFields D A)
    (p : UvmPacker N) : (it.mPack p).mPackedSize = it.packedSize p.useMetadata := by
  have hcount := (packed_packFields hD hA it p).count
  rwa [it.length_encode] at hcount

/-- The bits that are packed, if they fit. -/
lemma load_mPack (hD : D ≤ streamBits) (hA : A ≤ streamBits) (it : ItemFields D A)
    (p : UvmPacker N) (hfits : it.packedSize p.useMetadata ≤ N) :
    load (it.mPack p).mBits 0 (it.encode p.useMetadata p.bigEndian).length
      = it.encode p.useMetadata p.bigEndian :=
  (packed_packFields hD hA it p).bits (by rwa [it.length_encode])

/-- What `pack` returns is the stream of the item. -/
lemma pack_eq (hD : D ≤ streamBits) (hA : A ≤ streamBits) (it : ItemFields D A)
    (p : UvmPacker N) (hfits : it.packedSize p.useMetadata ≤ N) :
    it.pack p = it.encode p.useMetadata p.bigEndian := by
  rw [ItemFields.pack, getBits, mPackedSize_mPack hD hA,
    ← it.length_encode p.useMetadata p.bigEndian, load_mPack hD hA it p hfits]

/-! ## Unpacking what is there -/

/-- The packer after `n` more bits. -/
def UvmPacker.skip (n : ℕ) (p : UvmPacker N) : UvmPacker N := { p with count := p.count + n }

lemma UvmPacker.skip_skip (a b : ℕ) (p : UvmPacker N) : (p.skip a).skip b = p.skip (a + b) := by
  simp only [skip, Nat.add_assoc]

/-- The packer has the bits `bs` ahead of it. -/
structure Ahead (useMetadata big : Bool) (p : UvmPacker N) (bs : List Bool) : Prop where
  useMetadata : p.useMetadata = useMetadata
  bigEndian : p.bigEndian = big
  enough : p.count + bs.length ≤ p.mPackedSize
  bits : load p.mBits p.count bs.length = bs

namespace Ahead

variable {useMetadata big : Bool} {p : UvmPacker N} {bs cs : List Bool}

/-- The first bits are read, and the others are ahead. -/
lemma split (h : Ahead useMetadata big p (bs ++ cs)) :
    load p.mBits p.count bs.length = bs ∧ Ahead useMetadata big (p.skip bs.length) cs := by
  obtain ⟨hmetadata, hbig, henough, hbits⟩ := h
  rw [List.length_append] at henough hbits
  rw [load_add] at hbits
  obtain ⟨hfirst, hrest⟩ := List.append_inj hbits (length_load ..)
  refine ⟨hfirst, hmetadata, hbig, ?_, hrest⟩
  show p.count + bs.length + cs.length ≤ p.mPackedSize
  omega

lemma skip (h : Ahead useMetadata big p (bs ++ cs)) :
    Ahead useMetadata big (p.skip bs.length) cs :=
  h.split.2

/-- A field that is ahead is what is unpacked. -/
lemma unpackOf {s : ℕ} {v : BitVec s} (h : Ahead useMetadata big p (field big s v ++ cs)) (w : ℕ) :
    p.unpackOf w s = (ofField w big (field big s v), p.skip s) := by
  have hload := h.split.1
  obtain ⟨-, rfl, henough, -⟩ := h
  rw [List.length_append, length_field] at henough
  rw [length_field] at hload
  rw [UvmPacker.unpackOf, if_neg (by omega), hload]
  rfl

/-- An element that is ahead is what is unpacked. -/
lemma unpackElement {s : ℕ} (hs : s ≤ streamBits) {v : BitVec s}
    (h : Ahead useMetadata big p (field big s v ++ cs)) :
    p.unpackElement s = (v, p.skip s) := by
  rw [UvmPacker.unpackElement]
  split_ifs with hsmall
  · rw [unpackFieldInt, h.unpackOf, ofField_field hsmall]
  · rw [unpackField, h.unpackOf, ofField_field hs]

/-- The elements that are ahead are what is unpacked. -/
lemma unpackElements {s : ℕ} (hs : s ≤ streamBits) {q : List (BitVec s)}
    (h : Ahead useMetadata big p (q.flatMap (field big s) ++ cs)) :
    p.unpackElements s q.length = (q, p.skip (q.flatMap (field big s)).length) := by
  induction q generalizing p with
  | nil => rfl
  | cons v q ih =>
      rw [List.flatMap_cons, List.append_assoc] at h
      have hnext := h.skip
      rw [length_field] at hnext
      rw [List.flatMap_cons, List.length_append, length_field, ← skip_skip, List.length_cons,
        UvmPacker.unpackElements, h.unpackElement hs]
      simp only [ih hnext]

end Ahead

/-- A size that is not negative is the one the queue comes to. -/
lemma resizeQueue_natCast {s : ℕ} (n : ℕ) (q : List (BitVec s)) :
    ∃ q', resizeQueue n q = some q' ∧ q'.length = n := by
  refine ⟨_, if_neg (by omega), ?_⟩
  simp only [List.length_drop, List.length_append, List.length_replicate]
  omega

/-- Only the size that a queue has, or is to have, goes into what is unpacked. -/
lemma unpackQueue_eq_some_iff {s : ℕ} {q : List (BitVec s)} {p : UvmPacker N}
    {r : List (BitVec s) × UvmPacker N} :
    unpackQueue q p = some r
      ↔ ∃ n : ℕ, (p.unpackSize q.length).1 = n ∧
        unpackElements s n (p.unpackSize q.length).2 = r := by
  simp only [unpackQueue]
  rcases lt_or_ge (p.unpackSize q.length).1 0 with hneg | hpos
  · rw [if_pos (by omega), resizeQueue, if_pos hneg]
    refine ⟨fun h => (by cases h), fun h => ?_⟩
    obtain ⟨n, hn, -⟩ := h
    omega
  · obtain ⟨n, hn⟩ := Int.eq_ofNat_of_zero_le hpos
    simp only [hn, Nat.cast_inj, exists_eq_left', ne_eq]
    by_cases hlen : n = q.length
    · simp [hlen]
    · obtain ⟨q', hresize, hq'⟩ := resizeQueue_natCast n q
      rw [if_pos hlen, hresize]
      simp [hq']

namespace Ahead

variable {useMetadata big : Bool} {p : UvmPacker N} {bs cs : List Bool}

/-- A queue that is ahead is what is unpacked, if its size is known. -/
lemma unpackQueue {s : ℕ} (hs : s ≤ streamBits) {q old : List (BitVec s)}
    (hsize : useMetadata = true ∨ old.length = q.length) (hq : q.length < 2 ^ 31)
    (h : Ahead useMetadata big p (encodeQueue useMetadata big q ++ cs)) :
    p.unpackQueue old = some (q, p.skip (encodeQueue useMetadata big q).length) := by
  rw [unpackQueue_eq_some_iff]
  refine ⟨q.length, ?_⟩
  rw [UvmPacker.unpackSize, h.useMetadata]
  cases useMetadata with
  | false =>
      have hold : old.length = q.length := by simpa using hsize
      exact ⟨congrArg _ hold, h.unpackElements hs⟩
  | true =>
      rw [encodeQueue_true, List.append_assoc] at h
      have hnext := h.skip
      rw [length_field] at hnext
      rw [encodeQueue_true, List.length_append, length_field, ← skip_skip, if_pos rfl,
        unpackFieldInt, h.unpackOf, ofField_field (by decide)]
      refine ⟨?_, hnext.unpackElements hs⟩
      rw [BitVec.toInt_ofNat', Int.bmod_eq_of_le]
      all_goals omega

end Ahead

/-- The fields are unpacked one after the other. -/
lemma unpackFields_eq_some_iff {it target : ItemFields D A} {p p' : UvmPacker N} :
    target.unpackFields p = some (it, p')
      ↔ (p.unpackFieldInt 32).1.setWidth 32 = it.transType
        ∧ ∃ p₁ p₂ p₃, (p.unpackFieldInt 32).2.unpackElement D = (it.transLength, p₁)
          ∧ p₁.unpackQueue target.transAddr = some (it.transAddr, p₂)
          ∧ p₂.unpackQueue target.transDatai = some (it.transDatai, p₃)
          ∧ p₃.unpackQueue target.transDatao = some (it.transDatao, p')
          ∧ it.sequenceId = target.sequenceId := by
  simp only [ItemFields.unpackFields, Option.bind_eq_bind, Option.bind_eq_some_iff, Prod.exists,
    Option.some.injEq, Prod.mk.injEq]
  constructor
  · rintro ⟨qa, p₂, haddr, qi, p₃, hdatai, qo, p₄, hdatao, rfl, rfl⟩
    exact ⟨rfl, _, p₂, p₃, rfl, haddr, hdatai, hdatao, rfl⟩
  · rintro ⟨htype, p₁, p₂, p₃, hlength, haddr, hdatai, hdatao, hid⟩
    rw [hlength]
    refine ⟨_, p₂, haddr, _, p₃, hdatai, _, p', hdatao, ?_, rfl⟩
    rw [htype, ← hid]

/-- The queues of the two items have the same sizes. -/
def ItemFields.SameSizes (it target : ItemFields D A) : Prop :=
  target.transAddr.length = it.transAddr.length ∧ target.transDatai.length = it.transDatai.length
    ∧ target.transDatao.length = it.transDatao.length

/-- The sizes of the queues are values of `int`. -/
def ItemFields.IntSizes (it : ItemFields D A) : Prop :=
  it.transAddr.length < 2 ^ 31 ∧ it.transDatai.length < 2 ^ 31 ∧ it.transDatao.length < 2 ^ 31

/-- All fields of an item are found again, one after the other. -/
lemma Ahead.unpackFields {useMetadata big : Bool} {p : UvmPacker N} (hD : D ≤ streamBits)
    (hA : A ≤ streamBits) {it target : ItemFields D A}
    (hsize : useMetadata = true ∨ it.SameSizes target) (hint : it.IntSizes)
    (h : Ahead useMetadata big p (it.encode useMetadata big)) :
    target.unpackFields p = some (target.copy it, p.skip (it.packedSize useMetadata)) := by
  obtain ⟨hintAddr, hintDatai, hintDatao⟩ := hint
  have htype : Ahead useMetadata big p (field big 32 it.transType
      ++ (field big D it.transLength ++ (encodeQueue useMetadata big it.transAddr
      ++ (encodeQueue useMetadata big it.transDatai
      ++ (encodeQueue useMetadata big it.transDatao ++ []))))) := by
    simpa only [ItemFields.encode, List.append_assoc, List.append_nil] using h
  have hlength := htype.skip
  have haddr := hlength.skip
  have hdatai := haddr.skip
  have hdatao := hdatai.skip
  rw [ItemFields.copy, unpackFields_eq_some_iff, unpackFieldInt, htype.unpackOf]
  refine ⟨ofField_field (by decide) big _, _, _, _, ?_,
    haddr.unpackQueue hA (hsize.imp_right fun hs => hs.1) hintAddr,
    hdatai.unpackQueue hD (hsize.imp_right fun hs => hs.2.1) hintDatai, ?_, rfl⟩
  · rw [length_field] at hlength ⊢
    rw [hlength.unpackElement hD, length_field]
  · have hunpack := hdatao.unpackQueue hD (hsize.imp_right fun hs => hs.2.2) hintDatao
    rw [hunpack, ← it.length_encode useMetadata big]
    simp only [skip_skip, ItemFields.encode, List.length_append]

/-! ## Unpacking any stream -/

/-- From `p` to `p'`, and unless there is a report, `bs` is read. -/
structure Reads (p : UvmPacker N) (bs : List Bool) (p' : UvmPacker N) : Prop where
  useMetadata : p'.useMetadata = p.useMetadata
  bigEndian : p'.bigEndian = p.bigEndian
  mBits : p'.mBits = p.mBits
  mPackedSize : p'.mPackedSize = p.mPackedSize
  count : p.count ≤ p.mPackedSize → p'.count ≤ p.mPackedSize
  reports : ∃ rs, p'.reports = p.reports ++ rs ∧ ∀ u t, .unpackUnsuccessful u t ∉ rs
  bits : p'.reports = p.reports →
    p'.count = p.count + bs.length ∧ load p.mBits p.count bs.length = bs

namespace Reads

variable {p p' p'' : UvmPacker N} {bs cs : List Bool}

/-- Nothing is read. -/
lemma refl (p : UvmPacker N) : Reads p [] p :=
  ⟨rfl, rfl, rfl, rfl, id, ⟨[], by simp, by simp⟩, fun _ => ⟨rfl, rfl⟩⟩

/-- What is read after the other is read together. -/
lemma trans (h : Reads p bs p') (h' : Reads p' cs p'') : Reads p (bs ++ cs) p'' := by
  obtain ⟨rs, hrs, hshort⟩ := h.reports
  obtain ⟨rs', hrs', hshort'⟩ := h'.reports
  rw [hrs, List.append_assoc] at hrs'
  refine ⟨h'.useMetadata.trans h.useMetadata, h'.bigEndian.trans h.bigEndian,
    h'.mBits.trans h.mBits, h'.mPackedSize.trans h.mPackedSize, fun hcount => ?_,
    ⟨rs ++ rs', hrs', fun u t hmem => ?_⟩, fun hnone => ?_⟩
  · have hcount' := h'.count
    rw [h.mPackedSize] at hcount'
    exact hcount' (h.count hcount)
  · rcases List.mem_append.mp hmem with hmem | hmem
    · exact hshort u t hmem
    · exact hshort' u t hmem
  · -- no report at the end means none in either part
    rw [hrs', List.append_right_eq_self, List.append_eq_nil_iff] at hnone
    obtain ⟨rfl, rfl⟩ := hnone
    obtain ⟨hcount, hbits⟩ := h.bits (by simpa using hrs)
    obtain ⟨hcount', hbits'⟩ := h'.bits (by simpa [hrs] using hrs')
    rw [h.mBits, hcount] at hbits'
    rw [List.length_append, load_add, hbits, hbits', hcount', hcount, Nat.add_assoc]
    exact ⟨rfl, rfl⟩

/-- A field is read as it has been packed. -/
lemma unpackOf {s w : ℕ} (h : s ≤ w) (p : UvmPacker N) :
    Reads p (field p.bigEndian s ((p.unpackOf w s).1.setWidth s)) (p.unpackOf w s).2 := by
  rw [UvmPacker.unpackOf]
  split_ifs with hshort
  · refine ⟨rfl, rfl, rfl, rfl, id, ⟨_, rfl, by simp⟩, fun hnone => ?_⟩
    simp [report] at hnone
  · rw [field_ofField h p.bigEndian (length_load ..)]
    refine ⟨rfl, rfl, rfl, rfl, fun _ => ?_, ⟨[], by simp, by simp⟩, fun _ => ⟨?_, ?_⟩⟩
    · show p.count + s ≤ p.mPackedSize
      omega
    · rw [length_load]
    · rw [length_load]

/-- An element is read as it has been packed. -/
lemma unpackElement {s : ℕ} (hs : s ≤ streamBits) (p : UvmPacker N) :
    Reads p (field p.bigEndian s (p.unpackElement s).1) (p.unpackElement s).2 := by
  rw [UvmPacker.unpackElement]
  split_ifs with hsmall
  · exact .unpackOf hsmall p
  · exact .unpackOf hs p

/-- As many elements are read as are asked for. -/
lemma unpackElements {s : ℕ} (hs : s ≤ streamBits) (n : ℕ) (p : UvmPacker N) :
    (p.unpackElements s n).1.length = n ∧
      Reads p ((p.unpackElements s n).1.flatMap (field p.bigEndian s))
        (p.unpackElements s n).2 := by
  induction n generalizing p with
  | zero => exact ⟨rfl, .refl p⟩
  | succ n ih =>
      have hfirst := unpackElement hs p
      obtain ⟨hlength, hrest⟩ := ih (p.unpackElement s).2
      rw [hfirst.bigEndian] at hrest
      exact ⟨congrArg (· + 1) hlength, hfirst.trans hrest⟩

/-- Without metadata a queue keeps its size. -/
lemma unpackQueue {s : ℕ} (hs : s ≤ streamBits) {q old : List (BitVec s)}
    (h : p.unpackQueue old = some (q, p')) :
    (p.useMetadata = false → q.length = old.length)
      ∧ Reads p (encodeQueue p.useMetadata p.bigEndian q) p' := by
  obtain ⟨n, hn, hq⟩ := unpackQueue_eq_some_iff.mp h
  rw [unpackSize] at hn hq
  cases hmetadata : p.useMetadata with
  | false =>
      rw [hmetadata, if_neg (by decide)] at hn hq
      obtain ⟨hlength, hreads⟩ := unpackElements hs n p
      rw [hq] at hlength hreads
      exact ⟨fun _ => hlength.trans (Nat.cast_inj.mp hn).symm, hreads⟩
  | true =>
      rw [hmetadata, if_pos rfl] at hn hq
      have hsize : Reads p _ (p.unpackFieldInt 32).2 := unpackOf (by decide) p
      obtain ⟨hlength, hreads⟩ := unpackElements hs n (p.unpackFieldInt 32).2
      rw [hq] at hlength hreads
      rw [hsize.bigEndian] at hreads
      -- the size that is packed for the result is the one that has been unpacked
      have hsame : (p.unpackFieldInt 32).1.setWidth 32 = BitVec.ofNat 32 q.length := by
        rw [hlength, ← BitVec.ofInt_natCast, ← hn, BitVec.ofInt_toInt]
      refine ⟨fun hfalse => (by cases hfalse), ?_⟩
      rw [encodeQueue_true, ← hsame]
      exact hsize.trans hreads

end Reads

/-- What is read is the stream of the item that is unpacked. -/
lemma reads_unpackFields {p p' : UvmPacker N} (hD : D ≤ streamBits) (hA : A ≤ streamBits)
    {it target : ItemFields D A} (h : target.unpackFields p = some (it, p')) :
    (p.useMetadata = false → it.SameSizes target)
      ∧ Reads p (it.encode p.useMetadata p.bigEndian) p' := by
  obtain ⟨htype, p₁, p₂, p₃, hlength, haddr, hdatai, hdatao, -⟩ := unpackFields_eq_some_iff.mp h
  have hreadType : Reads p _ (p.unpackFieldInt 32).2 := .unpackOf (by decide) p
  have hreadLength := Reads.unpackElement hD (p.unpackFieldInt 32).2
  obtain ⟨hsizeAddr, hreadAddr⟩ := Reads.unpackQueue hA haddr
  obtain ⟨hsizeDatai, hreadDatai⟩ := Reads.unpackQueue hD hdatai
  obtain ⟨hsizeDatao, hreadDatao⟩ := Reads.unpackQueue hD hdatao
  change Reads p (field p.bigEndian 32 ((p.unpackFieldInt 32).1.setWidth 32)) _ at hreadType
  rw [htype] at hreadType
  rw [hlength, hreadType.bigEndian] at hreadLength
  have hread₁ := hreadType.trans hreadLength
  rw [hread₁.useMetadata, hread₁.bigEndian] at hreadAddr
  have hread₂ := hread₁.trans hreadAddr
  rw [hread₂.useMetadata, hread₂.bigEndian] at hreadDatai
  have hread₃ := hread₂.trans hreadDatai
  rw [hread₃.useMetadata, hread₃.bigEndian] at hreadDatao
  rw [hread₁.useMetadata] at hsizeAddr
  rw [hread₂.useMetadata] at hsizeDatai
  rw [hread₃.useMetadata] at hsizeDatao
  refine ⟨fun hfalse => ?_, hread₃.trans hreadDatao⟩
  exact ⟨(hsizeAddr hfalse).symm, (hsizeDatai hfalse).symm, (hsizeDatao hfalse).symm⟩

/-- `m_unpack_post` compares the size of the stream with itself. -/
lemma mUnpackPost_eq_some_iff {it target : ItemFields D A} {p q : UvmPacker N}
    (hD : D ≤ streamBits) (hA : A ≤ streamBits) :
    target.mUnpackPost p = some (it, q)
      ↔ ∃ p', target.unpackFields p = some (it, p') ∧ p'.setPackedSize = q := by
  simp only [ItemFields.mUnpackPost, Option.bind_eq_bind, Option.bind_eq_some_iff, Prod.exists,
    Option.some.injEq, Prod.mk.injEq]
  constructor
  · rintro ⟨it', p', hfields, rfl, rfl⟩
    rw [if_neg (not_not.mpr (reads_unpackFields hD hA hfields).2.mPackedSize)]
    exact ⟨p', hfields, rfl⟩
  · rintro ⟨p', hfields, rfl⟩
    refine ⟨it, p', hfields, rfl, ?_⟩
    rw [if_neg (not_not.mpr (reads_unpackFields hD hA hfields).2.mPackedSize)]

/-- A stream that fits is ahead of the packer that it is put into. -/
lemma ahead_putBits (bitstream : List Bool) (h : bitstream.length ≤ N) (p : UvmPacker N) :
    Ahead p.useMetadata p.bigEndian (p.reset.putBits bitstream) bitstream := by
  refine ⟨rfl, rfl, (Nat.zero_add _).le, ?_⟩
  show load (if p.bigEndian then _ else _) 0 bitstream.length = bitstream
  have hstore := load_store p.reset.mBits 0 bitstream (by omega)
  split_ifs
  · rw [load_storeDown, hstore]
  · exact hstore

/-- **Canonical form.**  Whatever the stream is, there is no report of bits that are left over, and
without a report of missing bits the stream begins with what the result is packed into. -/
theorem unpack_canonical (hD : D ≤ streamBits) (hA : A ≤ streamBits)
    (it target : ItemFields D A) (bitstream : List Bool) (p q : UvmPacker N)
    (hfits : bitstream.length ≤ N) (h : target.unpack bitstream p = some (it, q)) :
    q.mPackedSize ≤ bitstream.length
      ∧ (∃ rs, q.reports = p.reports ++ rs ∧ ∀ u t, .unpackUnsuccessful u t ∉ rs)
      ∧ (q.reports = p.reports → it.pack p = bitstream.take q.mPackedSize) := by
  obtain ⟨p', hfields, rfl⟩ := (mUnpackPost_eq_some_iff hD hA).mp h
  have hreads := (reads_unpackFields hD hA hfields).2
  have hcount := hreads.count (Nat.zero_le _)
  refine ⟨hcount, hreads.reports, fun hnone => ?_⟩
  obtain ⟨hlength, hbits⟩ := hreads.bits hnone
  change p'.count = 0 + (it.encode p.useMetadata p.bigEndian).length at hlength
  rw [Nat.zero_add] at hlength
  have hle : it.packedSize p.useMetadata ≤ N := by
    rw [← it.length_encode p.useMetadata p.bigEndian, ← hlength]
    exact hcount.trans hfits
  have hstream := (ahead_putBits bitstream hfits p).bits
  change load (p.reset.putBits bitstream).mBits 0 bitstream.length = bitstream at hstream
  change load (p.reset.putBits bitstream).mBits 0 (it.encode p.useMetadata p.bigEndian).length
    = it.encode p.useMetadata p.bigEndian at hbits
  calc it.pack p = it.encode p.useMetadata p.bigEndian := pack_eq hD hA it p hle
    _ = load (p.reset.putBits bitstream).mBits 0 p'.count := by rw [hlength, hbits]
    _ = (load (p.reset.putBits bitstream).mBits 0 bitstream.length).take p'.count :=
        (take_load _ 0 hcount).symm
    _ = bitstream.take p'.count := by rw [hstream]

/-- One bit is left over, and the code of the type is none of its values. -/
theorem unpack_canonical_code :
    (⟨3#32, 2#2, [], [], [], -1⟩ : ItemFields 2 1).pack ({} : UvmPacker 40)
      = List.replicate 30 false ++ [true, true, true, false] :=
  let bitstream := List.replicate 30 false ++ [true, true, true, false, true]
  let q := (({} : UvmPacker 40).putBits bitstream).skip 34
  (unpack_canonical (by decide) (by decide) ⟨3#32, 2#2, [], [], [], -1⟩ {} bitstream {}
    q.setPackedSize (by decide) (by decide +kernel)).2.2 rfl

/-! ## Streams of words -/

/-- The order is reversed twice. -/
lemma orderBits_orderBits {k : ℕ} (big : Bool) (v : BitVec k) :
    orderBits big (orderBits big v) = v := by
  rw [orderBits, orderBits]
  split_ifs
  · exact BitVec.reverse_reverse_eq
  · rfl

/-- Bit `b` of the word `a`. -/
lemma bitAt_putWordsLoop {k : ℕ} (big : Bool) (m : Vector Bool N) (i : ℕ) (vs : List (BitVec k))
    {a b : ℕ} (hb : b < k) :
    bitAt (putWordsLoop big m i vs) (a * k + b)
      = if i ≤ a ∧ a < i + vs.length ∧ a * k + b < N
        then (orderBits big (vs.getD (a - i) 0#k)).getLsbD b else bitAt m (a * k + b) := by
  induction vs generalizing m i with
  | nil => exact (if_neg fun h => absurd h.2.1 (by simpa using h.1)).symm
  | cons v vs ih =>
      rw [putWordsLoop, ih, bitAt_store, overwritten, length_field, List.length_cons]
      rcases Nat.lt_trichotomy a i with hlt | rfl | hgt
      · have hmul : (a + 1) * k ≤ i * k := Nat.mul_le_mul_right k hlt
        rw [Nat.succ_mul] at hmul
        rw [if_neg (by omega), if_neg (by omega), if_neg (by omega)]
      · rw [if_neg (by omega), Nat.sub_self, List.getD_cons_zero, Nat.add_sub_cancel_left,
          getD_field _ _ hb]
        refine if_congr ?_ rfl rfl
        omega
      · obtain ⟨c, rfl⟩ := Nat.exists_eq_add_of_lt hgt
        have hmul : (i + 1) * k ≤ (i + c + 1) * k := Nat.mul_le_mul_right k (by omega)
        rw [Nat.succ_mul] at hmul
        rw [if_neg (by omega : ¬ (i * k ≤ (i + c + 1) * k + b ∧ _)),
          (by omega : i + c + 1 - i = c + 1), (by omega : i + c + 1 - (i + 1) = c),
          List.getD_cons_succ]
        refine if_congr ?_ rfl rfl
        omega

/-- The mask of the last word keeps the bits that have been packed. -/
lemma getLsbD_getWords {k : ℕ} (p : UvmPacker N) {a b : ℕ} (hb : b < k)
    (h : a * k + b < p.mPackedSize) :
    a < (p.getWords k).length
      ∧ (orderBits p.bigEndian ((p.getWords k).getD a 0#k)).getLsbD b
        = bitAt p.mBits (a * k + b) := by
  have hk : 0 < k := by omega
  have ha : a < (p.mPackedSize + (k - 1)) / k := by
    rw [Nat.lt_iff_add_one_le, Nat.le_div_iff_mul_le hk, Nat.succ_mul]
    omega
  refine ⟨by simpa [getWords] using ha, ?_⟩
  simp only [getWords]
  rw [List.getD_eq_getElem?_getD, List.getElem?_map, List.getElem?_range ha]
  simp only [Option.map_some, Option.getD_some, orderBits_orderBits]
  split_ifs with hfull
  · rw [getLsbD_ofBits, decide_eq_true hb, Bool.true_and]
  · obtain ⟨hlast, hrest⟩ := not_or.mp hfull
    have hmask : k - p.mPackedSize % k + b < k := by
      have hdiv := Nat.div_add_mod' p.mPackedSize k
      have hsize : p.mPackedSize / k + 1 ≤ (p.mPackedSize + (k - 1)) / k := by
        rw [Nat.le_div_iff_mul_le hk, Nat.succ_mul]
        omega
      have hmul : p.mPackedSize / k * k ≤ a * k := Nat.mul_le_mul_right k (by omega)
      omega
    rw [BitVec.getLsbD_and, BitVec.getLsbD_ushiftRight, BitVec.getLsbD_allOnes,
      decide_eq_true hmask, Bool.and_true, getLsbD_ofBits, decide_eq_true hb, Bool.true_and]

/-- A packer reads the words of another one as the bits that this one has packed. -/
lemma bitAt_putWords {k : ℕ} (hk : 0 < k) (p p' : UvmPacker N) (hbig : p'.bigEndian = p.bigEndian)
    {j : ℕ} (hj : j < p.mPackedSize) (hN : j < N) :
    bitAt (p'.putWords (p.getWords k)).mBits j = bitAt p.mBits j := by
  obtain ⟨ha, hbit⟩ := getLsbD_getWords p (Nat.mod_lt j hk) (by rwa [Nat.div_add_mod'])
  have hput := bitAt_putWordsLoop p'.bigEndian p'.mBits 0 (p.getWords k) (a := j / k)
    (Nat.mod_lt j hk)
  rw [Nat.sub_zero, Nat.zero_add, hbig, hbit, Nat.div_add_mod',
    if_pos ⟨Nat.zero_le _, ha, hN⟩] at hput
  simpa only [putWords, hbig] using hput

/-! ## Round trip -/

/-- What an item is packed into. -/
inductive PackAs where
  | bits
  | bytes
  | ints

/-- The item is packed, and what it is packed into is unpacked into `target`. -/
def ItemFields.transfer (as : PackAs) (it target : ItemFields D A) (p : UvmPacker N) :
    Option (ItemFields D A × UvmPacker N) :=
  match as with
  | .bits => target.unpack (it.pack p) (it.mPack p)
  | .bytes => target.unpackBytes (it.packBytes p) (it.mPack p)
  | .ints => target.unpackInts (it.packInts p) (it.mPack p)

/-- The words of an item that fits are ahead of the packer they are put into. -/
lemma ahead_putWords {k : ℕ} (hk : 0 < k) (hD : D ≤ streamBits) (hA : A ≤ streamBits)
    (it : ItemFields D A) (p : UvmPacker N) (hfits : it.packedSize p.useMetadata ≤ N) :
    Ahead p.useMetadata p.bigEndian ((it.mPack p).reset.putWords ((it.mPack p).getWords k))
      (it.encode p.useMetadata p.bigEndian) := by
  have hpacked := packed_packFields hD hA it p
  have hsize := mPackedSize_mPack hD hA it p
  refine ⟨hpacked.useMetadata, hpacked.bigEndian, ?_, ?_⟩
  · have hwords : ((it.mPack p).getWords k).length
        = (it.packedSize p.useMetadata + (k - 1)) / k := by
      simp [getWords, hsize]
    have hdiv := Nat.div_add_mod' (it.packedSize p.useMetadata + (k - 1)) k
    have hmod := Nat.mod_lt (it.packedSize p.useMetadata + (k - 1)) hk
    show 0 + (it.encode p.useMetadata p.bigEndian).length ≤ ((it.mPack p).getWords k).length * k
    rw [it.length_encode, hwords]
    omega
  · refine .trans (load_congr fun j hj => ?_) (load_mPack hD hA it p hfits)
    rw [it.length_encode] at hj
    show bitAt _ (0 + j) = bitAt _ (0 + j)
    exact bitAt_putWords hk (it.mPack p) (it.mPack p).reset rfl (by omega) (by omega)

/-- Whatever an item is packed into, its fields are there when it is unpacked. -/
lemma ahead_transfer (as : PackAs) (hD : D ≤ streamBits) (hA : A ≤ streamBits)
    (it target : ItemFields D A) (p : UvmPacker N) (hfits : it.packedSize p.useMetadata ≤ N) :
    ∃ p', it.transfer as target p = target.mUnpackPost p' ∧ p'.count = 0 ∧ p'.reports = p.reports
      ∧ Ahead p.useMetadata p.bigEndian p' (it.encode p.useMetadata p.bigEndian) := by
  have hpacked := packed_packFields hD hA it p
  cases as with
  | bits =>
      refine ⟨_, rfl, rfl, hpacked.reports, ?_⟩
      have hahead := ahead_putBits (it.pack p) ?_ (it.mPack p)
      · rw [pack_eq hD hA it p hfits] at hahead ⊢
        rwa [show (it.mPack p).useMetadata = _ from hpacked.useMetadata,
          show (it.mPack p).bigEndian = _ from hpacked.bigEndian] at hahead
      · rwa [pack_eq hD hA it p hfits, it.length_encode]
  | bytes => exact ⟨_, rfl, rfl, hpacked.reports, ahead_putWords (by decide) hD hA it p hfits⟩
  | ints => exact ⟨_, rfl, rfl, hpacked.reports, ahead_putWords (by decide) hD hA it p hfits⟩

/-- **Round trip.**  To pack an item that fits into the packer and to unpack it again is to copy it,
exactly when the packer uses metadata or the queues of the target already have the sizes of its
queues. -/
theorem unpack_pack_iff (as : PackAs) (hD : D ≤ streamBits) (hA : A ≤ streamBits)
    (it target : ItemFields D A) (p : UvmPacker N) (hfits : it.packedSize p.useMetadata ≤ N)
    (hint : it.IntSizes) :
    (∃ q, it.transfer as target p = some (target.copy it, q) ∧ q.reports = p.reports
        ∧ q.mPackedSize = it.packedSize p.useMetadata)
      ↔ p.useMetadata = true ∨ it.SameSizes target := by
  obtain ⟨p', htransfer, hcount, hreports, hahead⟩ := ahead_transfer as hD hA it target p hfits
  rw [htransfer]
  constructor
  · rintro ⟨q, hpost, -, -⟩
    obtain ⟨p'', hfields, -⟩ := (mUnpackPost_eq_some_iff hD hA).mp hpost
    have hsame := (reads_unpackFields hD hA hfields).1
    rw [hahead.useMetadata] at hsame
    cases hmetadata : p.useMetadata with
    | false => exact .inr (hsame hmetadata)
    | true => exact .inl rfl
  · intro hsize
    refine ⟨(p'.skip (it.packedSize p.useMetadata)).setPackedSize,
      (mUnpackPost_eq_some_iff hD hA).mpr ⟨_, hahead.unpackFields hD hA hsize hint, rfl⟩,
      hreports, ?_⟩
    show p'.count + it.packedSize p.useMetadata = it.packedSize p.useMetadata
    rw [hcount, Nat.zero_add]

/-- An item with one address and one datum, packed into bytes with metadata. -/
theorem unpack_pack_bytes :
    ∃ q, (⟨.WRITE, 1#4, [2#2], [5#4], [], 7⟩ : SequenceItem 4 2).fields.transfer .bytes
        ({} : SequenceItem 4 2).fields ({ useMetadata := true } : UvmPacker 144)
          = some ((⟨.WRITE, 1#4, [2#2], [5#4], [], -1⟩ : SequenceItem 4 2).fields, q)
      ∧ q.reports = [] ∧ q.mPackedSize = 138 := by
  have h := (unpack_pack_iff .bytes (by decide) (by decide)
    (⟨.WRITE, 1#4, [2#2], [5#4], [], 7⟩ : SequenceItem 4 2).fields ({} : SequenceItem 4 2).fields
    ({ useMetadata := true } : UvmPacker 144) (by decide) ⟨by decide, by decide, by decide⟩).mpr
    (.inl rfl)
  rwa [← ItemFields.fields_copy] at h

end SinglePortRam
