import SinglePortRam.Rtl.BlkRam

/-!
# What a run of the RAM leaves behind

The always block is woken by two kinds of events, a rising edge of `clk` and a rising edge of
`rst`.  This file follows the two registers through an arbitrary sequence of such events.

* `mem_trace` — a cell holds the datum of the last clock edge that wrote it out of reset; neither
  resets nor idle cycles touch the array.
* `datao_trace_of_last` — the output is what the last event that is not a write made of it: writes
  hold `r_data`, every other branch of the block assigns it.
* **`blkRam_traceLaw`** — both together, and that accesses beyond the depth leave no trace in what
  later reads return.
-/

namespace SinglePortRam

open FourState

variable {P : RamParams}

/-- What wakes the always block: `posedgeClk` with the port values at that edge, and `posedgeRst`,
when `rst` becomes `1` between two clock edges. -/
inductive RamEvent (P : RamParams) where
  | posedgeClk (p : RamPorts P)
  | posedgeRst (p : RamPorts P)

namespace RamEvent

/-- A clock edge that takes the write branch. -/
def isWrite : RamEvent P → Bool
  | posedgeClk p => !p.rst && p.en && p.wen
  | posedgeRst _ => false

/-- A reset, or a clock edge with `en` low. -/
def clears : RamEvent P → Bool
  | posedgeClk p => p.rst || !p.en
  | posedgeRst _ => true

/-- The cell read by a clock edge that takes the read branch with an address in range. -/
def reads : RamEvent P → Option (Fin P.MEM_DEPTH)
  | posedgeClk p => if !p.rst && p.en && !p.wen then cell? p.addr else none
  | posedgeRst _ => none

/-- A clock edge at which the array is accessed beyond its depth. -/
def outOfRange : RamEvent P → Bool
  | posedgeClk p => !p.rst && p.en && decide (P.MEM_DEPTH ≤ p.addr.toNat)
  | posedgeRst _ => false

/-- The datum a write leaves in the cell `a`, for a write at that address. -/
def writesTo (a : Fin P.MEM_DEPTH) (e : RamEvent P) : Option (LogicVec P.DWIDTH) :=
  match e with
  | posedgeClk p =>
      if e.isWrite && decide (p.addr.toNat = a) then some p.datai else none
  | posedgeRst _ => none

end RamEvent

/-- The last datum written to a cell. -/
def lastWriteTo (a : Fin P.MEM_DEPTH) (es : List (RamEvent P)) : Option (LogicVec P.DWIDTH) :=
  es.reverse.findSome? (RamEvent.writesTo a)

namespace BlkRam

/-- One execution of the always block; a rising `rst` finds `rst` high. -/
def react (r : BlkRam P) : RamEvent P → BlkRam P
  | .posedgeClk p => r.always p
  | .posedgeRst p => r.always { p with rst := true }

/-- The RAM after a list of events. -/
def trace (r : BlkRam P) (es : List (RamEvent P)) : BlkRam P := es.foldl react r

@[simp] lemma trace_nil (r : BlkRam P) : r.trace [] = r := rfl

lemma trace_append (r : BlkRam P) (es fs : List (RamEvent P)) :
    r.trace (es ++ fs) = (r.trace es).trace fs := by
  simp [trace]

lemma trace_concat (r : BlkRam P) (es : List (RamEvent P)) (e : RamEvent P) :
    r.trace (es ++ [e]) = (r.trace es).react e := by
  simp [trace]

/-! ## One event -/

/-- The array after one event: the addressed cell has the new datum after a write, and nothing
else changes. -/
lemma mem_react (r : BlkRam P) (e : RamEvent P) (a : Fin P.MEM_DEPTH) :
    (r.react e).mem a = (e.writesTo a).getD (r.mem a) := by
  cases e with
  | posedgeRst p => simp [react, always, RamEvent.writesTo]
  | posedgeClk p =>
      cases hr : p.rst with
      | true => simp [react, always, RamEvent.writesTo, RamEvent.isWrite, hr]
      | false =>
          cases he : p.en with
          | false => simp [react, always, RamEvent.writesTo, RamEvent.isWrite, hr, he]
          | true =>
              cases hw : p.wen with
              | false => simp [react, always, RamEvent.writesTo, RamEvent.isWrite, hr, he, hw]
              | true =>
                  rw [react, always_of_write hr he hw]
                  simp only [RamEvent.writesTo, RamEvent.isWrite, hr, he, hw, storeMem]
                  cases hc : cell? p.addr with
                  | none =>
                      have hd := cell?_eq_none_iff.mp hc
                      have ha : p.addr.toNat ≠ a := by omega
                      simp [ha]
                  | some i =>
                      rw [cell?_eq_some_iff] at hc
                      by_cases ha : i = a
                      · subst ha; simp [hc]
                      · have : p.addr.toNat ≠ a := fun h => ha (Fin.ext (hc.symm.trans h))
                        simp [Function.update_of_ne (Ne.symm ha), this]

lemma rData_react_of_isWrite {r : BlkRam P} {e : RamEvent P} (h : e.isWrite = true) :
    (r.react e).rData = r.rData := by
  cases e with
  | posedgeRst p => simp [RamEvent.isWrite] at h
  | posedgeClk p =>
      simp only [RamEvent.isWrite, Bool.and_eq_true, Bool.not_eq_true'] at h
      rw [react, always_of_write h.1.1 h.1.2 h.2]

lemma rData_react_of_clears {r : BlkRam P} {e : RamEvent P} (h : e.clears = true) :
    (r.react e).rData = LogicVec.ofBits 0#_ := by
  cases e with
  | posedgeRst p => simp [react, always]
  | posedgeClk p =>
      simp only [RamEvent.clears, Bool.or_eq_true, Bool.not_eq_true'] at h
      cases hr : p.rst with
      | true => rw [react, always_of_rst hr]
      | false => rw [react, always_of_disabled hr (h.resolve_left (by simp [hr]))]

lemma rData_react_of_reads {r : BlkRam P} {e : RamEvent P} {a : Fin P.MEM_DEPTH}
    (h : e.reads = some a) : (r.react e).rData = r.mem a := by
  cases e with
  | posedgeRst p => simp [RamEvent.reads] at h
  | posedgeClk p =>
      simp only [RamEvent.reads] at h
      split_ifs at h with hp
      simp only [Bool.and_eq_true, Bool.not_eq_true'] at hp
      rw [react, always_of_read hp.1.1 hp.1.2 hp.2]
      simp [loadMem, h]

lemma writesTo_of_outOfRange {e : RamEvent P} (h : e.outOfRange = true) (a : Fin P.MEM_DEPTH) :
    e.writesTo a = none := by
  cases e with
  | posedgeRst p => rfl
  | posedgeClk p =>
      simp only [RamEvent.outOfRange, Bool.and_eq_true, decide_eq_true_eq] at h
      have ha : p.addr.toNat ≠ a := by have := h.2; omega
      simp [RamEvent.writesTo, ha]

/-! ## Whole runs -/

lemma lastWriteTo_concat (a : Fin P.MEM_DEPTH) (es : List (RamEvent P)) (e : RamEvent P) :
    lastWriteTo a (es ++ [e]) = (e.writesTo a).or (lastWriteTo a es) := by
  simp only [lastWriteTo, List.reverse_append, List.reverse_singleton, List.singleton_append,
    List.findSome?_cons]
  cases e.writesTo a <;> rfl

theorem mem_trace (r : BlkRam P) (es : List (RamEvent P)) (a : Fin P.MEM_DEPTH) :
    (r.trace es).mem a = (lastWriteTo a es).getD (r.mem a) := by
  induction es using List.reverseRecOn with
  | nil => rfl
  | append_singleton es e ih =>
      rw [trace_concat, mem_react, ih, lastWriteTo_concat]
      cases e.writesTo a <;> rfl

lemma rData_trace_of_writes (r : BlkRam P) {es : List (RamEvent P)}
    (h : ∀ e ∈ es, e.isWrite = true) : (r.trace es).rData = r.rData := by
  induction es generalizing r with
  | nil => rfl
  | cons e es ih =>
      have hes := ih (r.react e) fun e' he' => h e' (List.mem_cons_of_mem e he')
      rw [rData_react_of_isWrite (h e List.mem_cons_self)] at hes
      exact hes

/-- The output after a run is the one the last event that is not a write produced. -/
theorem datao_trace_of_last (r : BlkRam P) (pre : List (RamEvent P)) (e : RamEvent P)
    {post : List (RamEvent P)} (h : ∀ e ∈ post, e.isWrite = true) :
    (r.trace (pre ++ e :: post)).datao = ((r.trace pre).react e).rData := by
  rw [datao, trace_append]
  exact rData_trace_of_writes _ h

lemma lastWriteTo_filter (a : Fin P.MEM_DEPTH) (es : List (RamEvent P)) :
    lastWriteTo a (es.filter (!·.outOfRange)) = lastWriteTo a es := by
  induction es using List.reverseRecOn with
  | nil => rfl
  | append_singleton es e ih =>
      rw [List.filter_append, lastWriteTo_concat, ← ih]
      cases he : e.outOfRange with
      | false => simp [he, lastWriteTo_concat]
      | true => simp [he, writesTo_of_outOfRange he]

/-- **The trace law.**  Cells hold the last datum written to them out of reset; the output is
decided by the last event that is not such a write; and accesses beyond the depth can be struck
out without changing a cell or what a later read in range returns. -/
theorem blkRam_traceLaw (r : BlkRam P) (es : List (RamEvent P)) :
    (∀ a, (r.trace es).mem a = (lastWriteTo a es).getD (r.mem a)) ∧
    (∀ pre e post, es = pre ++ e :: post → e.isWrite = false → (∀ f ∈ post, f.isWrite = true) →
      (e.clears = true → (r.trace es).datao = LogicVec.ofBits 0#_) ∧
      (∀ a, e.reads = some a → (r.trace es).datao = (r.trace pre).mem a)) ∧
    ((∀ e ∈ es, e.isWrite = true) → (r.trace es).datao = r.rData) ∧
    (∀ e, e.outOfRange = true → (r.trace (es ++ [e])).mem = (r.trace es).mem) ∧
    (∀ e a, e.reads = some a →
      (r.trace (es ++ [e])).datao = (r.trace (es.filter (!·.outOfRange) ++ [e])).datao) := by
  refine ⟨mem_trace r es, ?_, rData_trace_of_writes r, ?_, ?_⟩
  · rintro pre e post rfl - hpost
    rw [datao_trace_of_last r pre e hpost]
    exact ⟨rData_react_of_clears, fun a ha => rData_react_of_reads ha⟩
  · intro e he
    funext a
    rw [trace_concat, mem_react, writesTo_of_outOfRange he, Option.getD_none]
  · intro e a he
    simp only [datao, trace_concat, rData_react_of_reads he, mem_trace, lastWriteTo_filter]

end BlkRam

end SinglePortRam
