import SinglePortRam.Core.Glob

/-!
# Matching of names

`uvm_regex.svh` without the DPI, which is how the `Makefile` compiles the library.  `uvm_re_match`
keeps one place to come back to, behind the last `*`; when the letters behind it do not match, it
tries them one letter later.

* `uvmReMatch` — the function, with its three loops.
* **`uvmReMatch_eq_zero_iff`** — it returns `0` exactly on the strings of the pattern.
-/

namespace SinglePortRam

open Glob

/-! ## The function -/

/-- Behind the end of a string `getc` is `0`, which is in no string. -/
def getc (str : List Char) (i : ℕ) : Option Char := str[i]?

lemma lt_of_getc {str : List Char} {i : ℕ} {a : Char} (h : getc str i = some a) :
    i < str.length :=
  (List.getElem?_eq_some_iff.mp h).1

/-- The loop up to the first `*`.  There is no result if `1` is returned. -/
def reMatchHead (re str : List Char) (e s : ℕ) (hs : s ≤ str.length) :
    Option (ℕ × { s : ℕ // s ≤ str.length }) :=
  if h : s ≠ str.length ∧ getc re e ≠ some '*' then
    if getc re e ≠ getc str s ∧ getc re e ≠ some '?' then none
    else reMatchHead re str (e + 1) (s + 1) (by omega)
  else some (e, ⟨s, hs⟩)
termination_by str.length - s
decreasing_by omega

/-- The variables of the second loop: the places in the pattern and in the string, and the ones to
come back to. -/
structure ReCursor (str : List Char) where
  e : ℕ
  s : ℕ
  es : ℕ
  ss : ℕ
  s_le : s ≤ str.length
  ss_le : ss ≤ s + 1

/-- What is left to do: to come back to later places, and from there, through the string and through
the pattern. -/
def ReCursor.left {str : List Char} (re : List Char) (c : ReCursor str) : ℕ :=
  (str.length + 1 - c.ss) * ((str.length + 1) * (re.length + 1))
    + (str.length - c.s) * (re.length + 1) + (re.length - c.e)

lemma ReCursor.left_lt_of_ss_lt {str : List Char} (re : List Char) {c c' : ReCursor str}
    (h : c.ss < c'.ss) (hle : c.ss ≤ str.length) : c'.left re < c.left re := by
  have hs : (str.length - c'.s) * (re.length + 1) ≤ str.length * (re.length + 1) :=
    Nat.mul_le_mul_right _ (Nat.sub_le ..)
  have hss : (str.length + 1 - c'.ss + 1) * ((str.length + 1) * (re.length + 1))
      ≤ (str.length + 1 - c.ss) * ((str.length + 1) * (re.length + 1)) :=
    Nat.mul_le_mul_right _ (by omega)
  have hround : (str.length + 1) * (re.length + 1)
      = str.length * (re.length + 1) + (re.length + 1) := Nat.succ_mul ..
  rw [Nat.succ_mul (str.length + 1 - c'.ss)] at hss
  rw [left, left]
  omega

lemma ReCursor.left_lt_of_s_lt {str : List Char} (re : List Char) {c c' : ReCursor str}
    (hss : c'.ss = c.ss) (h : c.s < c'.s) (he : c.e ≤ c'.e) : c'.left re < c.left re := by
  have hs : (str.length - c'.s + 1) * (re.length + 1) ≤ (str.length - c.s) * (re.length + 1) :=
    Nat.mul_le_mul_right _ (by have := c'.s_le; omega)
  rw [Nat.succ_mul] at hs
  rw [left, left, hss]
  omega

lemma ReCursor.left_lt_of_e_lt {str : List Char} (re : List Char) {c c' : ReCursor str}
    (hss : c.ss ≤ c'.ss) (hs : c'.s = c.s) (h : c.e < c'.e) (hle : c.e < re.length) :
    c'.left re < c.left re := by
  have hmul : (str.length + 1 - c'.ss) * ((str.length + 1) * (re.length + 1))
      ≤ (str.length + 1 - c.ss) * ((str.length + 1) * (re.length + 1)) :=
    Nat.mul_le_mul_right _ (by omega)
  rw [left, left, hs]
  omega

/-- The second loop.  There is no result if `0` is returned, and otherwise it is the place in the
pattern. -/
def reMatchLoop (re str : List Char) (c : ReCursor str) : Option ℕ :=
  if h : c.s ≠ str.length then
    if getc re c.e = some '*' then
      if c.e + 1 = re.length then none
      else reMatchLoop re str
        { c with e := c.e + 1, es := c.e + 1, ss := c.s + 1, ss_le := le_rfl }
    else if getc re c.e = getc str c.s ∨ getc re c.e = some '?' then
      reMatchLoop re str
        { c with
          e := c.e + 1
          s := c.s + 1
          s_le := lt_of_le_of_ne c.s_le h
          ss_le := Nat.le_succ_of_le c.ss_le }
    else
      reMatchLoop re str
        { e := c.es
          s := c.ss
          es := c.es
          ss := c.ss + 1
          s_le := c.ss_le.trans (lt_of_le_of_ne c.s_le h)
          ss_le := le_rfl }
  else some c.e
termination_by c.left re
decreasing_by
  · exact ReCursor.left_lt_of_e_lt re c.ss_le rfl (Nat.lt_succ_self _)
      (lt_of_getc (a := '*') (by assumption))
  · exact ReCursor.left_lt_of_s_lt re rfl (Nat.lt_succ_self _) (Nat.le_succ _)
  · exact ReCursor.left_lt_of_ss_lt re (Nat.lt_succ_self _)
      (c.ss_le.trans (lt_of_le_of_ne c.s_le h))

/-- The last loop, over the `*` at the end of the pattern. -/
def skipStars (re : List Char) (e : ℕ) : ℕ :=
  if e < re.length ∧ getc re e = some '*' then skipStars re (e + 1) else e
termination_by re.length - e
decreasing_by omega

/-- A `^` at the beginning is stripped. -/
def stripCaret (re : List Char) : List Char := if getc re 0 = some '^' then re.drop 1 else re

/-- `uvm_re_match` without the DPI: 0 if the string matches. -/
def uvmReMatch (re str : List Char) : ℕ :=
  if re.length = 0 then 0
  else
    let re := stripCaret re
    match reMatchHead re str 0 0 (Nat.zero_le _) with
    | none => 1
    | some (e, s) =>
        match reMatchLoop re str ⟨e, s, 0, 0, s.property, Nat.zero_le _⟩ with
        | none => 0
        | some e => if skipStars re e = re.length then 0 else 1

/-! ## The strings of a pattern -/

/-- What a character of a pattern stands for. -/
def globToken (c : Char) : Token Char := if c = '*' then .many else if c = '?' then .any else .lit c

/-- The pattern as a glob. -/
def globTokens (re : List Char) : List (Token Char) := re.map globToken

/-- What is left of the pattern at `e` matches what is left of the string at `s`. -/
def MatchesFrom (re str : List Char) (e s : ℕ) : Prop :=
  Matches (globTokens (re.drop e)) (str.drop s)

/-- Only `*` stands for any string. -/
lemma globToken_eq_many_iff {c : Char} : globToken c = .many ↔ c = '*' := by
  rw [globToken]
  split_ifs with hstar hany
  · exact iff_of_true rfl hstar
  · exact iff_of_false (by simp) hstar
  · exact iff_of_false (by simp) hstar

/-- A character that is there is the first of the rest. -/
lemma drop_of_getc {str : List Char} {i : ℕ} {a : Char} (h : getc str i = some a) :
    str.drop i = a :: str.drop (i + 1) := by
  obtain ⟨hi, rfl⟩ := List.getElem?_eq_some_iff.mp h
  exact List.drop_eq_getElem_cons hi

variable {re str : List Char} {e s : ℕ}

/-- A letter of the pattern that is no `*` stands for one letter of the string. -/
lemma matchesFrom_succ_iff (hs : s < str.length) (hstar : getc re e ≠ some '*') :
    MatchesFrom re str e s
      ↔ (getc re e = getc str s ∨ getc re e = some '?') ∧ MatchesFrom re str (e + 1) (s + 1) := by
  have hb : getc str s = some str[s] := List.getElem?_eq_getElem hs
  cases ha : getc re e with
  | none =>
      have hnil : re.drop e = [] := List.drop_eq_nil_of_le (List.getElem?_eq_none_iff.mp ha)
      rw [MatchesFrom, hnil, drop_of_getc hb, hb]
      exact iff_of_false not_matches_nil_cons (by simp)
  | some a =>
      have hne : a ≠ '*' := fun h => hstar (by rw [ha, h])
      rw [MatchesFrom, MatchesFrom, drop_of_getc ha, drop_of_getc hb, hb, globTokens, List.map_cons,
        globToken, if_neg hne]
      split_ifs with hany
      · rw [matches_any_cons_iff, hany]
        exact (and_iff_right (Or.inr rfl)).symm
      · rw [matches_lit_cons_iff]
        simp [hany, globTokens]

/-- The letters behind a `*` may begin at any later place. -/
lemma matchesFrom_star_iff (hstar : getc re e = some '*') (hs : s ≤ str.length) :
    MatchesFrom re str e s ↔ ∃ t, s ≤ t ∧ t ≤ str.length ∧ MatchesFrom re str (e + 1) t := by
  rw [MatchesFrom, drop_of_getc hstar, globTokens, List.map_cons, globToken, if_pos rfl,
    matches_many_iff, List.length_drop]
  constructor
  · rintro ⟨k, hk, h⟩
    rw [List.drop_drop] at h
    exact ⟨s + k, by omega, by omega, h⟩
  · rintro ⟨t, hst, ht, h⟩
    refine ⟨t - s, by omega, ?_⟩
    rwa [List.drop_drop, Nat.add_sub_cancel' hst]

/-- At the end of the string only stars may be left. -/
lemma matchesFrom_length_iff :
    MatchesFrom re str e str.length ↔ ∀ c ∈ re.drop e, c = '*' := by
  rw [MatchesFrom, List.drop_length, matches_nil_iff, globTokens, List.forall_mem_map]
  simp only [globToken_eq_many_iff]

/-- The letters between two `*` take as many letters of the string. -/
lemma matchesFrom_add {k : ℕ} (hs : s ≤ str.length) (he : e + k ≤ re.length)
    (hletters : ∀ i, e ≤ i → i < e + k → getc re i ≠ some '*') (h : MatchesFrom re str e s) :
    s + k ≤ str.length ∧ MatchesFrom re str (e + k) (s + k) := by
  have hlength : (globTokens ((re.drop e).take k)).length = k := by
    rw [globTokens, List.length_map, List.length_take, List.length_drop]
    omega
  have hmany : ∀ t ∈ globTokens ((re.drop e).take k), t ≠ .many := by
    rw [globTokens, List.forall_mem_map]
    intro c hc
    rw [ne_eq, globToken_eq_many_iff]
    rintro rfl
    obtain ⟨i, hi⟩ := List.mem_iff_getElem?.mp hc
    have hik : i < k := by
      have hlt := (List.getElem?_eq_some_iff.mp hi).1
      rw [List.length_take] at hlt
      omega
    rw [List.getElem?_take_of_lt hik, List.getElem?_drop] at hi
    exact hletters (e + i) (by omega) (by omega) hi
  rw [MatchesFrom, ← List.take_append_drop k (re.drop e), globTokens, List.map_append] at h
  obtain ⟨hle, hrest⟩ := matches_drop_of_append hmany h
  rw [hlength, List.length_drop] at hle
  rw [hlength, List.drop_drop, List.drop_drop] at hrest
  exact ⟨by omega, hrest⟩

/-! ## The first and the last loop -/

/-- The loop before the first star gives up only where nothing matches. -/
lemma reMatchHead_eq_none {hs : s ≤ str.length} (h : reMatchHead re str e s hs = none) :
    ¬ MatchesFrom re str e s := by
  fun_induction reMatchHead re str e s hs with
  | case1 e s hs hloop hmismatch =>
      rw [matchesFrom_succ_iff (lt_of_le_of_ne hs hloop.1) hloop.2]
      exact fun hm => hm.1.elim hmismatch.1 hmismatch.2
  | case2 e s hs hloop hmatch ih =>
      rw [matchesFrom_succ_iff (lt_of_le_of_ne hs hloop.1) hloop.2]
      exact fun hm => ih h hm.2
  | case3 e s hs hloop => cases h

/-- The first loop ends at a `*`, or with the string. -/
lemma reMatchHead_eq_some {hs : s ≤ str.length} {e' : ℕ} {s' : { s // s ≤ str.length }}
    (he : e ≤ re.length) (h : reMatchHead re str e s hs = some (e', s')) :
    e' ≤ re.length ∧ (s'.val = str.length ∨ getc re e' = some '*')
      ∧ (MatchesFrom re str e s ↔ MatchesFrom re str e' s') := by
  fun_induction reMatchHead re str e s hs with
  | case1 e s hs hloop hmismatch => cases h
  | case2 e s hs hloop hmatch ih =>
      have hlt := lt_of_le_of_ne hs hloop.1
      have hletter : getc re e = getc str s ∨ getc re e = some '?' := by
        simpa only [not_and_or, not_not] using hmatch
      have hsome : e < re.length := by
        rcases hletter with hletter | hany
        · exact lt_of_getc (hletter.trans (List.getElem?_eq_getElem hlt))
        · exact lt_of_getc hany
      obtain ⟨hle, hend, hiff⟩ := ih hsome h
      refine ⟨hle, hend, ?_⟩
      rw [matchesFrom_succ_iff hlt hloop.2, and_iff_right hletter, hiff]
  | case3 e s hs hloop =>
      cases h
      refine ⟨he, ?_, Iff.rfl⟩
      simpa only [not_and_or, not_not] using hloop

/-- The last loop comes to the end of a pattern of stars only. -/
lemma skipStars_eq_length_iff (he : e ≤ re.length) :
    skipStars re e = re.length ↔ ∀ c ∈ re.drop e, c = '*' := by
  fun_induction skipStars re e with
  | case1 e hloop ih =>
      rw [ih hloop.1, drop_of_getc hloop.2, List.forall_mem_cons, and_iff_right rfl]
  | case2 e hloop =>
      rcases eq_or_lt_of_le he with rfl | hlt
      · simp
      · refine iff_of_false hlt.ne fun hstars => hloop ⟨hlt, ?_⟩
        have hc : getc re e = some re[e] := List.getElem?_eq_getElem hlt
        rw [hc, hstars re[e] (by rw [drop_of_getc hc]; exact List.mem_cons_self)]

/-! ## The second loop -/

namespace ReCursor

/-- Since the last `*`, at `es - 1`, only letters have been passed, from `ss - 1` on. -/
structure Inv (re : List Char) (c : ReCursor str) : Prop where
  es_le : c.es ≤ c.e
  e_le : c.e ≤ re.length
  passed : c.s + 1 = c.ss + (c.e - c.es)
  letters : ∀ i, c.es ≤ i → i < c.e → getc re i ≠ some '*'

/-- What the loop may still find: a match from where it is, or from a later place to come back
to. -/
def Open (re : List Char) (c : ReCursor str) : Prop :=
  MatchesFrom re str c.e c.s
    ∨ ∃ t, c.ss ≤ t ∧ t ≤ str.length ∧ MatchesFrom re str c.es t

/-- The letters that have been passed have to be passed again from a later place. -/
lemma Inv.later {c : ReCursor str} (h : c.Inv re) {t : ℕ} (hss : c.ss ≤ t) (ht : t ≤ str.length)
    (hm : MatchesFrom re str c.es t) :
    ∃ u, c.s < u ∧ u ≤ str.length ∧ MatchesFrom re str c.e u := by
  have hadd : c.es + (c.e - c.es) = c.e := Nat.add_sub_cancel' h.es_le
  obtain ⟨hle, hrest⟩ := matchesFrom_add (k := c.e - c.es) ht (by rw [hadd]; exact h.e_le)
    (fun i hi hlt => h.letters i hi (by omega)) hm
  rw [hadd] at hrest
  have hpassed := h.passed
  exact ⟨t + (c.e - c.es), by omega, hle, hrest⟩

end ReCursor

/-- At a `*` the loop can give up the earlier one. -/
lemma open_star_iff {c : ReCursor str} (h : c.Inv re) (hstar : getc re c.e = some '*') :
    c.Open re ↔ ∃ t, c.s ≤ t ∧ t ≤ str.length ∧ MatchesFrom re str (c.e + 1) t := by
  rw [← matchesFrom_star_iff hstar c.s_le]
  constructor
  · rintro (hm | ⟨t, hss, ht, hm⟩)
    · exact hm
    · obtain ⟨u, hu, hle, hrest⟩ := h.later hss ht hm
      obtain ⟨v, hv, hvle, hvm⟩ := (matchesFrom_star_iff hstar hle).mp hrest
      exact (matchesFrom_star_iff hstar c.s_le).mpr ⟨v, by omega, hvle, hvm⟩
  · exact .inl

/-- The places from `i` on are `i` and those behind it. -/
lemma exists_le_iff {P : ℕ → Prop} {i n : ℕ} (hi : i ≤ n) :
    (∃ t, i ≤ t ∧ t ≤ n ∧ P t) ↔ P i ∨ ∃ t, i + 1 ≤ t ∧ t ≤ n ∧ P t := by
  constructor
  · rintro ⟨t, hit, ht, hP⟩
    rcases eq_or_lt_of_le hit with rfl | hlt
    · exact .inl hP
    · exact .inr ⟨t, hlt, ht, hP⟩
  · rintro (hP | ⟨t, hit, ht, hP⟩)
    · exact ⟨i, le_rfl, hi, hP⟩
    · exact ⟨t, by omega, ht, hP⟩

/-- The second loop ends only where nothing has been missed. -/
lemma reMatchLoop_spec {c : ReCursor str} (h : c.Inv re) :
    match reMatchLoop re str c with
    | none => c.Open re
    | some e => e ≤ re.length ∧ (c.Open re ↔ MatchesFrom re str e str.length) := by
  fun_induction reMatchLoop re str c with
  | case1 c hs hstar hlast =>
      left
      rw [MatchesFrom, drop_of_getc hstar, List.drop_eq_nil_of_le hlast.ge]
      exact matches_many_nil _
  | case2 c hs hstar hlast ih =>
      have hopen := open_star_iff h hstar
      rw [exists_le_iff c.s_le] at hopen
      rw [hopen]
      exact ih ⟨le_rfl, lt_of_getc hstar, by simp, fun i hi hlt => absurd hlt (not_lt.mpr hi)⟩
  | case3 c hs hstar hmatch ih =>
      have hlt := lt_of_le_of_ne c.s_le hs
      have hsome : c.e < re.length := by
        rcases hmatch with hletter | hany
        · exact lt_of_getc (hletter.trans (List.getElem?_eq_getElem hlt))
        · exact lt_of_getc hany
      have hopen : c.Open re ↔ MatchesFrom re str (c.e + 1) (c.s + 1)
          ∨ ∃ t, c.ss ≤ t ∧ t ≤ str.length ∧ MatchesFrom re str c.es t :=
        or_congr ((matchesFrom_succ_iff hlt hstar).trans (and_iff_right hmatch)) Iff.rfl
      rw [hopen]
      refine ih ⟨Nat.le_succ_of_le h.es_le, hsome, ?_, fun i hi hle => ?_⟩
      · have hes := h.es_le
        have hpassed := h.passed
        simp only
        omega
      · rcases eq_or_lt_of_le (Nat.le_of_lt_succ hle) with rfl | hi'
        · exact hstar
        · exact h.letters i hi hi'
  | case4 c hs hstar hmatch ih =>
      have hlt := lt_of_le_of_ne c.s_le hs
      have hss : c.ss ≤ str.length := c.ss_le.trans hlt
      -- the next place to come back to is the first of those that are left
      have hopen : c.Open re ↔ MatchesFrom re str c.es c.ss
          ∨ ∃ t, c.ss + 1 ≤ t ∧ t ≤ str.length ∧ MatchesFrom re str c.es t := by
        rw [ReCursor.Open, exists_le_iff hss]
        exact or_iff_right fun hm => hmatch ((matchesFrom_succ_iff hlt hstar).mp hm).1
      rw [hopen]
      refine ih ⟨le_rfl, h.es_le.trans h.e_le, by simp, fun i hi hle => ?_⟩
      exact absurd hle (not_lt.mpr hi)
  | case5 c hs =>
      have hend : c.s = str.length := not_not.mp hs
      refine ⟨h.e_le, ?_⟩
      rw [ReCursor.Open, hend]
      refine or_iff_left ?_
      rintro ⟨t, hss, ht, hm⟩
      obtain ⟨u, hu, hle, -⟩ := h.later hss ht hm
      omega

/-- Where the second loop begins there is no place to come back to yet, and none is asked for. -/
lemma reMatchLoop_start (hs : s ≤ str.length) (he : e ≤ re.length)
    (hend : s = str.length ∨ getc re e = some '*') :
    match reMatchLoop re str ⟨e, s, 0, 0, hs, Nat.zero_le _⟩ with
    | none => MatchesFrom re str e s
    | some e' => e' ≤ re.length ∧ (MatchesFrom re str e s ↔ MatchesFrom re str e' str.length) := by
  have hinv : ReCursor.Inv re (⟨e, s, e, s + 1, hs, le_rfl⟩ : ReCursor str) :=
    ⟨le_rfl, he, by simp, fun i hi hlt => absurd hlt (not_lt.mpr hi)⟩
  have hloop : reMatchLoop re str ⟨e, s, 0, 0, hs, Nat.zero_le _⟩
      = reMatchLoop re str ⟨e, s, e, s + 1, hs, le_rfl⟩ := by
    conv_lhs => rw [reMatchLoop]
    conv_rhs => rw [reMatchLoop]
    rcases hend with hend | hstar
    · rw [dif_neg (not_not.mpr hend), dif_neg (not_not.mpr hend)]
    · simp only [hstar, if_true]
  have hopen : ReCursor.Open re (⟨e, s, e, s + 1, hs, le_rfl⟩ : ReCursor str)
      ↔ MatchesFrom re str e s := by
    rcases hend with rfl | hstar
    · exact or_iff_left fun ⟨t, hlt, ht, _⟩ => absurd hlt (not_lt.mpr ht)
    · rw [open_star_iff hinv hstar, matchesFrom_star_iff hstar hs]
  have hspec := reMatchLoop_spec hinv
  rwa [← hloop, hopen] at hspec

/-- The strings of a pattern, as `uvm_re_match` takes it. -/
def GlobMatches (re str : List Char) : Prop :=
  re = [] ∨ Matches (globTokens (stripCaret re)) str

/-- The matcher decides the language of the pattern. -/
lemma globMatches_iff {re str : List Char} : uvmReMatch re str = 0 ↔ GlobMatches re str := by
  rw [uvmReMatch]
  split_ifs with hempty
  · exact iff_of_true rfl (.inl (List.length_eq_zero_iff.mp hempty))
  have hne : re ≠ [] := fun h => hempty (List.length_eq_zero_iff.mpr h)
  rw [GlobMatches, or_iff_right hne]
  change _ ↔ MatchesFrom (stripCaret re) str 0 0
  simp only
  split
  case h_1 hhead => exact iff_of_false one_ne_zero (reMatchHead_eq_none hhead)
  case h_2 e s hhead =>
    obtain ⟨he, hend, hiff⟩ := reMatchHead_eq_some (Nat.zero_le _) hhead
    have hstart := reMatchLoop_start s.property he hend
    rw [hiff]
    split
    case h_1 hloop =>
      rw [hloop] at hstart
      exact iff_of_true rfl hstart
    case h_2 e' hloop =>
      rw [hloop] at hstart
      obtain ⟨he', hiff'⟩ := hstart
      rw [hiff', matchesFrom_length_iff, ← skipStars_eq_length_iff he']
      split_ifs with hstars
      · exact iff_of_true rfl hstars
      · exact iff_of_false not_false hstars

/-- A star matches everything. -/
lemma globMatches_star (str : List Char) : GlobMatches ['*'] str :=
  .inr (matches_many_nil str)

/-- **Glob matching**: `uvm_re_match` returns `0` exactly if the pattern is empty or the string is
one of the pattern. -/
theorem uvmReMatch_eq_zero_iff (re str : List Char) :
    uvmReMatch re str = 0 ↔ re = [] ∨ Matches (globTokens (stripCaret re)) str :=
  globMatches_iff

end SinglePortRam
