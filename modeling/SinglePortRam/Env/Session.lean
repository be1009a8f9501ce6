import SinglePortRam.Env.SequenceRuns

/-!
# Sessions

Runs of sequences one after the other on the sequencer, from the `int` queues of the write sequences
through the items, the bus and the RAM back to the `int` queues of the read sequences.

* `simulate_session` — what a session does to the array and what it reads back, run by run.
* `memAfterRuns_eq` — the array after a session holds what its write sequences wrote.
* **`session_roundTrip`** — at the widths of the wrapper, every read sequence gets back the last
  datum written to each of its addresses.
-/

namespace SinglePortRam

open FourState Clocked LastWrite Testbench

variable {D A : ℕ} {P : RamParams}

/-! ## Run by run -/

/-- The array after runs of sequences one after the other. -/
def memAfterRuns (D A : ℕ) (m : RamWords P) (runs : List (ℕ × Run)) : RamWords P :=
  runs.foldl (fun m x => memAfterRun D A m x.2) m

/-- What these runs read back. -/
def readBackRuns (D A : ℕ) (m : RamWords P) : List (ℕ × Run) → List (List (BitVec 32))
  | [] => []
  | x :: runs => readBackOf D A m x.2 ++ readBackRuns D A (memAfterRun D A m x.2) runs

lemma readBackRuns_append (m : RamWords P) (xs ys : List (ℕ × Run)) :
    readBackRuns D A m (xs ++ ys)
      = readBackRuns D A m xs ++ readBackRuns D A (memAfterRuns D A m xs) ys := by
  induction xs generalizing m with
  | nil => rfl
  | cons x xs ih => simp only [List.cons_append, readBackRuns, ih, List.append_assoc]; rfl

lemma Leaves.trans {m m' : RamWords P} {ds ds' : List (List (BitVec 32))}
    {tb tb' tb'' : Testbench D A P} (h : Leaves m ds tb tb') (h' : Leaves m' ds' tb' tb'') :
    Leaves m' (ds ++ ds') tb tb'' where
  quiet := h'.quiet
  mem := h'.mem
  readBack := by rw [h'.readBack, h.readBack, List.append_assoc]

/-- **A session**, run by run, whatever the idle cycles between the runs. -/
theorem simulate_session (runs : List (ℕ × Run)) (id : ℤ) {tb : Testbench D A P}
    (hq : tb.Quiet) :
    Leaves (memAfterRuns D A tb.mem runs) (readBackRuns D A tb.mem runs) tb
      (simulate ramAlwaysFirst (session id runs) tb) := by
  induction runs generalizing id tb with
  | nil => exact ⟨hq, rfl, (List.append_nil _).symm⟩
  | cons x runs ih =>
      obtain ⟨gap, r⟩ := x
      obtain ⟨hq₁, -, hm₁, hbooks⟩ := simulate_idleCycles ramAlwaysFirst gap hq
      have hidle : Leaves tb.mem [] tb (simulate ramAlwaysFirst (idleCycles gap) tb) :=
        ⟨hq₁, hm₁, hbooks.readBack.trans (List.append_nil _).symm⟩
      have hrun := simulate_sequenceRun id r hq₁
      rw [hm₁] at hrun
      have hrest := ih (id + 1) hrun.quiet
      rw [hrun.mem] at hrest
      have hsession : simulate ramAlwaysFirst (session id ((gap, r) :: runs)) tb
          = simulate ramAlwaysFirst (session (id + 1) runs) (simulate ramAlwaysFirst
              (sequenceRun id r) (simulate ramAlwaysFirst (idleCycles gap) tb)) := by
        simp only [simulate, session, Clock.run_append]
      rw [hsession]
      exact (hidle.trans hrun).trans hrest

/-! ## Runs with queues of equal size -/

/-- The queues of a run are of equal size, and `trans_length` can hold it. -/
def Run.Sized (D : ℕ) : Run → Prop
  | .reset => True
  | .write q => q.ramData.length = q.ramAddr.length ∧ q.ramAddr.length < 2 ^ D
  | .read q => q.ramData.length = q.ramAddr.length ∧ q.ramAddr.length < 2 ^ D

/-- The runs of which a session is made. -/
abbrev SizedRun (D : ℕ) := { r : Run // r.Sized D }

/-- The read sequences among them. -/
abbrev SizedRead (D : ℕ) := { q : ReadSequence // (Run.read q).Sized D }

/-- The addresses and the data that a run writes, as its queues have them. -/
def Run.writes : Run → List (BitVec 32 × BitVec 32)
  | .reset => []
  | .write q => q.ramAddr.zip q.ramData
  | .read _ => []

/-- The runs of a session without the proofs that they are sized. -/
def sessionRuns (runs : List (ℕ × SizedRun D)) : List (ℕ × Run) :=
  runs.map (Prod.map id Subtype.val)

/-- All that a session writes, in order. -/
def sessionWrites (runs : List (ℕ × SizedRun D)) : List (BitVec 32 × BitVec 32) :=
  runs.flatMap fun x => x.2.val.writes

lemma memAfterRun_sized (m : RamWords P) (r : SizedRun D) :
    memAfterRun D A m r.val = storeElems m (r.val.writes.map (intElement D A)) := by
  obtain ⟨r, hr⟩ := r
  cases r with
  | reset => rfl
  | read q => rfl
  | write q =>
      have hbody : q.body D A = .ok (q.item D A) := by simp [WriteSequence.body, hr.1]
      simp only [memAfterRun, hbody, Run.writes, WriteSequence.elements_item hr.1 hr.2]

theorem memAfterRuns_eq (m : RamWords P) (runs : List (ℕ × SizedRun D)) :
    memAfterRuns D A m (sessionRuns runs)
      = storeElems m ((sessionWrites runs).map (intElement D A)) := by
  induction runs generalizing m with
  | nil => rfl
  | cons x runs ih =>
      have hcons : memAfterRuns D A m (sessionRuns (x :: runs))
          = memAfterRuns D A (memAfterRun D A m x.2.val) (sessionRuns runs) := rfl
      rw [hcons, ih, memAfterRun_sized, ← storeElems_append, ← List.map_append]
      rfl

lemma readBackOf_sized (m : RamWords (fittingParams D A)) (q : SizedRead D) :
    readBackOf D A m (.read q.val)
      = [q.val.ramAddr.map fun a => bitsToInt (absMem m (intToBits A a)).toBits] := by
  have hsize : q.val.ramData.length % 2 ^ D = q.val.ramAddr.length := by
    rw [q.property.1, Nat.mod_eq_of_lt q.property.2]
  simp only [readBackOf, readBits, loadElem_fitting]
  rw [ReadSequence.map_elements_request hsize fun a => bitsToInt (absMem m a).toBits]

/-! ## The round trip -/

/-- The writes of `int`s, with the addresses reduced modulo `2 ^ A`. -/
def residues (A : ℕ) (ws : List (BitVec 32 × BitVec 32)) : List (ℤ × BitVec 32) :=
  ws.map (Prod.map (fun a => a.toInt % 2 ^ A) id)

lemma toNat_intToBits (A : ℕ) (a : BitVec 32) :
    ((intToBits A a).toNat : ℤ) = a.toInt % 2 ^ A := by
  rw [intToBits, BitVec.signExtend, BitVec.toNat_ofInt,
    Int.toNat_of_nonneg (Int.emod_nonneg _ (by positivity))]
  push_cast
  rfl

/-- Two `int`s select the same word exactly if they are congruent. -/
lemma lastWrite_intElement (ws : List (BitVec 32 × BitVec 32)) (a : BitVec 32) :
    lastWrite (ws.map (intElement D A)) (intToBits A a)
      = (lastWrite (residues A ws) (a.toInt % 2 ^ A)).map (intToBits D) := by
  have hinj : Function.Injective fun b : BitVec A => (b.toNat : ℤ) :=
    fun b c h => BitVec.eq_of_toNat_eq (Int.ofNat_inj.mp h)
  have helems : ws.map (intElement D A)
      = (ws.map (Prod.map (intToBits A) id)).map (Prod.map id (intToBits D)) := by
    rw [List.map_map]
    rfl
  have hres : residues A ws
      = (ws.map (Prod.map (intToBits A) id)).map (Prod.map (fun b => (b.toNat : ℤ)) id) := by
    rw [residues, List.map_map]
    exact List.map_congr_left fun w _ => Prod.ext (toNat_intToBits A w.1).symm rfl
  have hid := lastWrite_map Function.injective_id (intToBits D)
    (ws.map (Prod.map (intToBits A) id)) (intToBits A a)
  have hcongr := lastWrite_map hinj (id : BitVec 32 → BitVec 32)
    (ws.map (Prod.map (intToBits A) id)) (intToBits A a)
  simp only [toNat_intToBits, Option.map_id, id_eq] at hid hcongr
  rw [helems, hres, hid, hcongr]

/-- What a read sequence has to get for the address `a` after the writes `ws`: the low 16 bits of
the last datum written to a congruent address, or what the RAM held there in the beginning. -/
def roundTrip (ram : BlkRam dutParams) (ws : List (BitVec 32 × BitVec 32)) (a : BitVec 32) :
    BitVec 32 :=
  match lastWrite (residues 8 ws) (a.toInt % 2 ^ 8) with
  | some d => (d.setWidth 16).setWidth 32
  | none => (ram.mem (BitVec.ofInt 8 a.toInt).toFin).toBits.setWidth 32

lemma bitsToInt_absMem_session (ram : BlkRam (fittingParams 16 8)) (runs : List (ℕ × SizedRun 16))
    (a : BitVec 32) :
    bitsToInt (absMem (memAfterRuns 16 8 ram.mem (sessionRuns runs)) (intToBits 8 a)).toBits
      = roundTrip ram (sessionWrites runs) a := by
  rw [memAfterRuns_eq, absMem_storeElems_apply, lastWrite_intElement]
  simp only [roundTrip]
  cases lastWrite (residues 8 (sessionWrites runs)) (a.toInt % 2 ^ 8) with
  | none => rfl
  | some d =>
      simp only [Option.map_some, Option.getD_some, LogicVec.toBits_ofBits, bitsToInt, intToBits]
      rw [BitVec.signExtend_eq_setWidth_of_le _ (by decide)]

/-- **The session round trip.**  After any session on the wrapped RAM that ends with a read
sequence, its `ram_data` has an entry for every address asked, in order: the last datum that a write
sequence has written there, or the initial content.  A reset sequence leaves what is stored
alone. -/
theorem session_roundTrip (ram : BlkRam dutParams) (runs : List (ℕ × SizedRun 16)) (gap : ℕ) :
    (∀ q : SizedRead 16,
      (simulate ramAlwaysFirst
          (session 1 (sessionRuns (runs ++ [(gap, ⟨.read q.val, q.property⟩)])))
          (init 16 8 ram)).vip.readBack.getLast?
        = some (q.val.ramAddr.map (roundTrip ram (sessionWrites runs)))) ∧
    (simulate ramAlwaysFirst (session 1 (sessionRuns (runs ++ [(gap, ⟨.reset, trivial⟩)])))
        (init 16 8 ram)).mem
      = (simulate ramAlwaysFirst (session 1 (sessionRuns runs)) (init 16 8 ram)).mem := by
  have happend (r : SizedRun 16) :
      sessionRuns (runs ++ [(gap, r)]) = sessionRuns runs ++ [(gap, r.val)] := List.map_append
  have hsession (rs : List (ℕ × Run)) :=
    simulate_session rs 1 (quiet_init (D := 16) (A := 8) ram)
  refine ⟨?_, ?_⟩
  · intro q
    rw [happend, (hsession _).readBack, readBackRuns_append]
    have hread : readBackRuns 16 8 (memAfterRuns 16 8 ram.mem (sessionRuns runs))
        [(gap, .read q.val)] = [q.val.ramAddr.map (roundTrip ram (sessionWrites runs))] := by
      refine (List.append_nil _).trans ((readBackOf_sized _ q).trans ?_)
      exact congrArg (fun f => [q.val.ramAddr.map f])
        (funext (bitsToInt_absMem_session ram runs))
    have hinit : (init 16 8 ram).mem = ram.mem := mem_init ram
    rw [hinit, hread, ← List.append_assoc, List.getLast?_concat]
  · rw [(hsession _).mem, (hsession _).mem, happend, memAfterRuns, List.foldl_append]
    rfl

end SinglePortRam
