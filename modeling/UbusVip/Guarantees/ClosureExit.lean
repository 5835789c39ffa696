import UbusVip.Guarantees.Targeting

namespace UbusVip

open Interaction (Prog)
open UbusTargetAddrDirSeqf
open UbusCoverage (binOf)

-- samples n: the packets ubus_coverage samples between operations n - 1 and n of the sequence
structure Surroundings where
  solver : Solver
  samples : Nat → List Packet
  response : Nat → Packet

inductive Event where
  | check (b : Bin) (covered : Bool)
  | send (p : Packet)
  | warn (w : Warning)
deriving DecidableEq

structure Observed where
  covered : CoveredBins
  clock : Nat
  sent : Nat
  trace : List Event

namespace Observed

def start (covered : CoveredBins) : Observed := ⟨covered, 0, 0, []⟩

def covers (m : Observed) (b : Bin) : Bool := UbusCoverage.isCovered m.covered b.addr b.dir b.size

def tick (e : Surroundings) (m : Observed) : Observed :=
  { m with
    covered := (e.samples m.clock).foldl UbusCoverage.write m.covered
    clock := m.clock + 1 }

def log (m : Observed) (ev : Event) : Observed := { m with trace := m.trace ++ [ev] }

def answer (e : Surroundings) : (op : Op) → Observed → Res op × Observed
  | .isCovered a d s, m =>
    let m := m.tick e
    (m.covers ⟨a, d, s⟩, m.log (.check ⟨a, d, s⟩ (m.covers ⟨a, d, s⟩)))
  | .doWith c, m =>
    let m := m.tick e
    ((), { m.log (.send (e.solver m.sent c).packet) with sent := m.sent + 1 })
  | .getResponse, m => (e.response m.clock, m.tick e)
  | .warning w, m => ((), (m.tick e).log (.warn w))

def Grows (m m' : Observed) : Prop := ∀ b, m.covers b = true → m'.covers b = true

variable {e : Surroundings} {m : Observed}

theorem grows_tick : Grows m (m.tick e) := by
  intro b hb
  exact (UbusCoverage.isCovered_foldl _ _ _ _ _).mpr (.inl hb)

theorem grows_answer (op : Op) : Grows m (answer e op m).2 := by
  cases op with
  | isCovered a d s | doWith c | getResponse | warning w => exact grows_tick

theorem grows_run {α : Type} (p : Seq α) : Grows m (p.run (answer e) m).2 := by
  induction p generalizing m with
  | ret a => exact fun _ hb => hb
  | call op next ih => exact fun b hb => ih _ b (grows_answer op b hb)

end Observed

structure Visit where
  target : Target
  sent : Option Packet

namespace Visit

def events (v : Visit) : List Event :=
  .check v.target.bin v.sent.isNone :: v.sent.toList.map .send

def Aimed (v : Visit) : Prop :=
  ∀ p, v.sent = some p → (binOf p).addr = v.target.i ∧ (binOf p).dir = v.target.dir

end Visit

abbrev Pass := List Visit

namespace Pass

def events (pass : Pass) : List Event := pass.flatMap Visit.events

def Quiet (pass : Pass) : Prop := ∀ v ∈ pass, v.sent = none

def quiet (pass : Pass) : Bool := pass.all (·.sent.isNone)

theorem quiet_iff (pass : Pass) : pass.quiet = true ↔ pass.Quiet := by
  simp [quiet, Quiet, List.all_eq_true]

end Pass

open Observed (answer start)

variable (e : Surroundings)

structure Visited (v : Visit) (m : Observed) (allCovered : Bool) (out : Bool × Observed) : Prop where
  trace : out.2.trace = m.trace ++ v.events
  flag : out.1 = (allCovered && v.sent.isNone)
  covered : v.sent = none → out.2.covers v.target.bin = true
  aimed : v.Aimed

theorem run_tryBin (t : Target) (allCovered : Bool) (m : Observed) :
    ∃ v : Visit, v.target = t ∧
      Visited v m allCovered ((tryBin t.i t.dir allCovered t.s).run (answer e) m) := by
  have hcheck : (isCovered t.i t.dir t.s).run (answer e) m =
      ((m.tick e).covers t.bin,
        (m.tick e).log (.check t.bin ((m.tick e).covers t.bin))) := rfl
  rw [tryBin, Prog.run_bind, hcheck]
  cases hc : (m.tick e).covers t.bin with
  | true =>
    refine ⟨⟨t, none⟩, rfl, rfl, (Bool.and_true _).symm, fun _ => hc, ?_⟩
    intro p hp
    cases hp
  | false =>
    let sol := e.solver m.sent (.target t.i t.dir)
    refine ⟨⟨t, some sol.packet⟩, rfl, ?_, (Bool.and_false _).symm, ?_, ?_⟩
    · exact List.append_assoc _ [_] [_]
    · intro hnone
      cases hnone
    · intro p hp
      cases hp
      rw [solution_bin sol]
      exact ⟨rfl, rfl⟩

structure Passed (pass : Pass) (m : Observed) (allCovered : Bool) (out : Bool × Observed) : Prop where
  trace : out.2.trace = m.trace ++ pass.events
  flag : out.1 = (allCovered && pass.quiet)
  covered : ∀ v ∈ pass, v.sent = none → out.2.covers v.target.bin = true
  aimed : ∀ v ∈ pass, v.Aimed

theorem run_targets (ts : List Target) (allCovered : Bool) (m : Observed) :
    ∃ pass : Pass, pass.map Visit.target = ts ∧
      Passed pass m allCovered
        ((ts.foldlM (fun b t => tryBin t.i t.dir b t.s) allCovered).run (answer e) m) := by
  induction ts generalizing allCovered m with
  | nil =>
    exact ⟨[], rfl, (List.append_nil _).symm, (Bool.and_true _).symm, List.forall_mem_nil _,
      List.forall_mem_nil _⟩
  | cons t ts ih =>
    obtain ⟨v, rfl, hv⟩ := run_tryBin e t allCovered m
    rw [Prog.run_foldlM_cons]
    generalize (tryBin v.target.i v.target.dir allCovered v.target.s).run (answer e) m = mid at hv ⊢
    obtain ⟨pass, rfl, hpass⟩ := ih mid.1 mid.2
    refine ⟨v :: pass, rfl, ?_, ?_, ?_, ?_⟩
    · rw [hpass.trace, hv.trace, List.append_assoc]; rfl
    · rw [hpass.flag, hv.flag, Bool.and_assoc]; rfl
    · intro u hu hnone
      rcases List.mem_cons.mp hu with rfl | hu
      · exact Observed.grows_run _ _ (hv.covered hnone)
      · exact hpass.covered u hu hnone
    · intro u hu
      rcases List.mem_cons.mp hu with rfl | hu
      · exact hv.aimed
      · exact hpass.aimed u hu

theorem onePass_targets :
    onePass = Target.all.foldlM (fun b t => tryBin t.i t.dir b t.s) true := by
  simp only [onePass, Target.all, Target.row, Prog.foldlM_flatMap, List.foldlM_map]

structure Exited (left maxAttempts : Nat) (passes : List Pass) (m : Observed)
    (out : (Nat × Bool) × Observed) : Prop where
  trace : out.2.trace = m.trace ++ passes.flatMap Pass.events
  bound : passes.length ≤ left
  full : ∀ pass ∈ passes, pass.map Visit.target = Target.all
  aimed : ∀ pass ∈ passes, ∀ v ∈ pass, v.Aimed
  closed : out.1.2 = true → (∀ t ∈ Target.all, out.2.covers t.bin = true) ∧
    ∃ earlier last, passes = earlier ++ [last] ∧ last.Quiet
  gaveUp : out.1.2 = false → out.1.1 = maxAttempts + left ∧ passes.length = left ∧
    ∀ pass ∈ passes, ¬pass.Quiet

theorem run_attempts (left maxAttempts : Nat) (m : Observed) :
    ∃ passes : List Pass, Exited left maxAttempts passes m
      ((attempts left maxAttempts false).run (answer e) m) := by
  induction left generalizing maxAttempts m with
  | zero =>
    exact ⟨[], (List.append_nil _).symm, le_rfl, List.forall_mem_nil _, List.forall_mem_nil _,
      fun h => absurd h Bool.false_ne_true, fun _ => ⟨rfl, rfl, List.forall_mem_nil _⟩⟩
  | succ left ih =>
    obtain ⟨pass, hfull, hpass⟩ := run_targets e Target.all true m
    rw [← onePass_targets] at hpass
    rw [attempts, Prog.run_bind]
    generalize onePass.run (answer e) m = mid at hpass ⊢
    have hflag : mid.1 = pass.quiet := hpass.flag
    cases hq : pass.quiet with
    | true =>
      have hquiet := pass.quiet_iff.mp hq
      rw [hflag, hq]
      refine ⟨[pass], ?_, Nat.succ_le_succ (Nat.zero_le _), by simpa, by simpa using hpass.aimed, ?_,
        fun h => absurd h.symm Bool.false_ne_true⟩
      · change mid.2.trace = _
        rw [hpass.trace, List.flatMap_singleton]
      · refine fun _ => ⟨?_, [], pass, rfl, hquiet⟩
        intro t ht
        rw [← hfull, List.mem_map] at ht
        obtain ⟨v, hv, rfl⟩ := ht
        exact hpass.covered v hv (hquiet v hv)
    | false =>
      have hloud : ¬pass.Quiet := fun h => absurd (pass.quiet_iff.mpr h) (by simp [hq])
      obtain ⟨passes, hex⟩ := ih (maxAttempts + 1) mid.2
      rw [hflag, hq]
      change ∃ passes, Exited (left + 1) maxAttempts passes m
        ((attempts left (maxAttempts + 1) false).run (answer e) mid.2)
      generalize (attempts left (maxAttempts + 1) false).run (answer e) mid.2 = out at hex ⊢
      refine ⟨pass :: passes, ?_, Nat.succ_le_succ hex.bound, ?_, ?_, ?_, ?_⟩
      · rw [hex.trace, hpass.trace, List.append_assoc]; rfl
      · exact List.forall_mem_cons.mpr ⟨hfull, hex.full⟩
      · exact List.forall_mem_cons.mpr ⟨hpass.aimed, hex.aimed⟩
      · intro hall
        obtain ⟨hcov, earlier, last, rfl, hlast⟩ := hex.closed hall
        exact ⟨hcov, pass :: earlier, last, rfl, hlast⟩
      · intro hall
        obtain ⟨hmax, hlen, hmiss⟩ := hex.gaveUp hall
        exact ⟨by omega, congrArg (· + 1) hlen, List.forall_mem_cons.mpr ⟨hloud, hmiss⟩⟩

theorem Visit.warn_not_mem (v : Visit) (w : Warning) : Event.warn w ∉ v.events := by
  simp [Visit.events]

theorem run_finish (out : (Nat × Bool) × Observed) (h : out.1.2 = false → out.1.1 = 100) :
    ((Master.finish out.1).run (answer e) out.2).2.trace =
      out.2.trace ++ if out.1.2 then [] else [.warn .maxAttempts] := by
  obtain ⟨⟨maxAttempts, allCovered⟩, m⟩ := out
  cases allCovered with
  | true =>
    rw [Master.finish, if_neg (by simp)]
    exact (List.append_nil _).symm
  | false =>
    rw [Master.finish, if_pos ⟨h rfl, rfl⟩]
    rfl

theorem closure_loop_exit (covered : CoveredBins) (nRepeat : Nat) :
    let out := (attempts 100 0 false).run (answer e) (start covered)
    let fin := (body nRepeat true).run (answer e) (start covered)
    ∃ passes : List Pass,
      fin.2.trace = passes.flatMap Pass.events ++ (if out.1.2 then [] else [.warn .maxAttempts]) ∧
      passes.length ≤ 100 ∧
      (∀ pass ∈ passes, pass.map Visit.target = Target.all ∧
        (pass.filterMap Visit.sent).length ≤ 46) ∧
      (∀ pass ∈ passes, ∀ v ∈ pass, v.Aimed) ∧
      (out.1.2 = true → (∀ t : Target, t.Legal → out.2.covers t.bin = true) ∧
        ∃ earlier last, passes = earlier ++ [last] ∧ last.Quiet) ∧
      (Event.warn .maxAttempts ∈ fin.2.trace ↔ out.1.2 = false) ∧
      (out.1.2 = false → passes.length = 100 ∧ ∀ pass ∈ passes, ¬pass.Quiet) := by
  obtain ⟨passes, hex⟩ := run_attempts e 100 0 (start covered)
  have hbody : body nRepeat true = attempts 100 0 false >>= Master.finish := rfl
  have htrace := run_finish e _ fun h => (hex.gaveUp h).1
  rw [← Prog.run_bind, ← hbody, hex.trace] at htrace
  intro out fin
  refine ⟨passes, htrace, hex.bound, ?_, hex.aimed, ?_, ?_, fun h => (hex.gaveUp h).2⟩
  · intro pass hpass
    have hfull := hex.full pass hpass
    have hlen := congrArg List.length hfull
    rw [List.length_map, show Target.all.length = 46 by decide] at hlen
    exact ⟨hfull, hlen ▸ List.length_filterMap_le ..⟩
  · intro h
    obtain ⟨hcov, hlast⟩ := hex.closed h
    exact ⟨fun t ht => hcov t ((Target.mem_all t).mpr ht), hlast⟩
  · have hquiet : Event.warn .maxAttempts ∉ passes.flatMap Pass.events := by
      simp only [List.mem_flatMap, Pass.events, not_exists, not_and]
      exact fun pass _ v _ => v.warn_not_mem _
    change Event.warn .maxAttempts ∈ fin.2.trace ↔ out.1.2 = false
    rw [show fin.2.trace = _ from htrace]
    cases hall : out.1.2 with
    | true => simpa [start] using hquiet
    | false => simp

end UbusVip
