import Mathlib.Data.List.FinRange
import Mathlib.Tactic.FinCases
import UbusVip.CommonVip.UbusCoverage
import UbusVip.CommonVip.UbusTargetAddrDirSeqf
import UbusVip.Library.Sweep

namespace UbusVip

open Interaction (Prog)
open UbusTargetAddrDirSeqf
open UbusCoverage (binOf)

structure Issue where
  bin : Bin
  packet : Packet

def Issue.Hits (e : Issue) : Prop := binOf e.packet = e.bin

structure Master where
  covered : CoveredBins
  sent : Nat
  probe : Bin
  log : List Issue

namespace Master

def start (covered : CoveredBins) : Master := ⟨covered, 0, ⟨0, 0, 0⟩, []⟩

-- each packet is sampled before the next check
def answer (solver : Solver) : (op : Op) → Master → Res op × Master
  | .isCovered a d s, m => (UbusCoverage.isCovered m.covered a d s, { m with probe := ⟨a, d, s⟩ })
  | .doWith c, m =>
    let p := (solver m.sent c).packet
    ((), ⟨UbusCoverage.write m.covered p, m.sent + 1, m.probe, m.log ++ [⟨m.probe, p⟩]⟩)
  | .getResponse, m => ((m.log.getLast?.map Issue.packet).getD .create, m)
  | .warning _, m => ((), m)

def covers (m : Master) (b : Bin) : Bool := UbusCoverage.isCovered m.covered b.addr b.dir b.size

def onePass (solver : Solver) (covered : CoveredBins) : Master :=
  (UbusTargetAddrDirSeqf.onePass.run (answer solver) (start covered)).2

def body (nRepeat : Nat) (solver : Solver) (covered : CoveredBins) : Master :=
  ((UbusTargetAddrDirSeqf.body nRepeat true).run (answer solver) (start covered)).2

def OnTarget (m : Master) : Prop := ∀ e ∈ m.log, e.Hits

theorem log_prefix_answer (solver : Solver) (op : Op) (m : Master) :
    m.log <+: (answer solver op m).2.log := by
  cases op with
  | doWith c => exact List.prefix_append _ _
  | isCovered a d s | getResponse | warning w => exact List.prefix_rfl

theorem log_prefix_run {α : Type} (solver : Solver) (p : Seq α) (m : Master) :
    m.log <+: (p.run (answer solver) m).2.log := by
  induction p generalizing m with
  | ret a => exact List.prefix_rfl
  | call op next ih => exact (log_prefix_answer solver op m).trans (ih _ _)

end Master

structure Target where
  i : Fin 6
  dir : Fin 2
  s : Nat
deriving DecidableEq

namespace Target

def bin (t : Target) : Bin := ⟨t.i, t.dir, t.s⟩

def Legal (t : Target) : Prop := t.s < (sizeArray t.i).length

def row (i : Fin 6) (dir : Fin 2) : List Target :=
  (List.range (sizeArray i).length).map (⟨i, dir, ·⟩)

def all : List Target := (List.finRange 6).flatMap fun i => (List.finRange 2).flatMap (row i)

theorem mem_all (t : Target) : t ∈ all ↔ t.Legal := by
  obtain ⟨i, dir, s⟩ := t
  simp [all, row, Legal]

example : all.length = 46 := by decide

theorem nodup_bins : (all.map bin).Nodup := by decide

def size (t : Target) : Nat := (sizeArray t.i).getD t.s 0

theorem Legal.size_eq {t : Target} (h : t.Legal) : t.size = 2 ^ t.s := by
  have hall : ∀ i : Fin 6, ∀ s < (sizeArray i).length, (sizeArray i).getD s 0 = 2 ^ s := by decide
  exact hall t.i t.s h

end Target

section Solution

variable {i : Fin 6} {dir : Fin 2}

theorem addrToIndex_of_mem {a : Nat} (hlo : (addrMaps i).startAddr ≤ a)
    (hhi : a ≤ (addrMaps i).endAddr) : UbusCoverage.addrToIndex a = i := by
  rw [UbusCoverage.addrToIndex]
  fin_cases i <;> simp only [addrMaps] at hlo hhi <;> split_ifs <;> first | rfl | omega

theorem dirToIndex_decide (dir : Fin 2) : UbusCoverage.dirToIndex (decide (dir = 1)) = dir := by
  fin_cases dir <;> rfl

theorem sizeToIndex_eq_iff {size : Nat} (hsize : size ∈ [1, 2, 4, 8]) (s : Nat) :
    UbusCoverage.sizeToIndex size = s ↔ size = 2 ^ s := by
  have hpow : 2 ^ UbusCoverage.sizeToIndex size = size := by
    simp only [List.mem_cons, List.not_mem_nil, or_false] at hsize
    rcases hsize with rfl | rfl | rfl | rfl <;> rfl
  constructor
  · rintro rfl; exact hpow.symm
  · intro h; exact Nat.pow_right_injective le_rfl (hpow.trans h)

theorem solution_bin (sol : Solution (.target i dir)) :
    binOf sol.packet = ⟨i, dir, UbusCoverage.sizeToIndex sol.packet.size⟩ := by
  obtain ⟨⟨hlo, hhi⟩, hread, -, -⟩ := sol.allows
  rw [binOf, addrToIndex_of_mem hlo hhi, hread, dirToIndex_decide]

theorem solution_hits_iff {t : Target} (h : t.Legal) (sol : Solution (.target t.i t.dir)) :
    binOf sol.packet = t.bin ↔ sol.packet.size = t.size := by
  rw [solution_bin sol, h.size_eq, ← sizeToIndex_eq_iff sol.legal.cSize]
  simp [Target.bin]

end Solution

namespace Master

variable (solver : Solver)

def visit (m : Master) (t : Target) : Master :=
  let m := { m with probe := t.bin }
  if m.covers t.bin then m else (answer solver (.doWith (.target t.i t.dir)) m).2

theorem run_tryBin (t : Target) (allCovered : Bool) (m : Master) :
    ((tryBin t.i t.dir allCovered t.s).run (answer solver) m).2 = visit solver m t := by
  have hcheck : (isCovered t.i t.dir t.s).run (answer solver) m =
      (m.covers t.bin, { m with probe := t.bin }) := rfl
  have hvisit : visit solver m t = if m.covers t.bin then { m with probe := t.bin }
      else (answer solver (.doWith (.target t.i t.dir)) { m with probe := t.bin }).2 := rfl
  rw [tryBin, Prog.run_bind, hcheck, hvisit]
  cases m.covers t.bin with
  | true => rfl
  | false => rfl

theorem run_onePass (m : Master) :
    (UbusTargetAddrDirSeqf.onePass.run (answer solver) m).2 = Target.all.foldl (visit solver) m := by
  have hrow (i : Fin 6) (dir : Fin 2) (b : Bool) (m : Master) :
      (((List.range (sizeArray i).length).foldlM (tryBin i dir) b).run (answer solver) m).2 =
        (Target.row i dir).foldl (visit solver) m := by
    rw [Target.row, List.foldl_map]
    exact Prog.run_foldlM_snd _ (fun b s m => run_tryBin solver ⟨i, dir, s⟩ b m) _ b m
  rw [Target.all, List.foldl_flatMap]
  refine Prog.run_foldlM_snd _ (fun b i m => ?_) _ true m
  rw [List.foldl_flatMap]
  exact Prog.run_foldlM_snd _ (fun b dir m => hrow i dir b m) _ b m

theorem visit_of_covered {m : Master} {t : Target} (h : m.covers t.bin = true) :
    visit solver m t = { m with probe := t.bin } := if_pos h

theorem visit_of_missing {m : Master} {t : Target} (h : m.covers t.bin = false) :
    visit solver m t =
      let p := (solver m.sent (.target t.i t.dir)).packet
      ⟨UbusCoverage.write m.covered p, m.sent + 1, t.bin, m.log ++ [⟨t.bin, p⟩]⟩ :=
  if_neg (Bool.eq_false_iff.mp h)

def sweep : Sweep Master Target Bin where
  key := Target.bin
  hit k t := binOf (solver k (.target t.i t.dir)).packet
  covers := covers
  count := sent
  visit := visit solver
  covers_visit m t b := by
    cases h : m.covers t.bin with
    | true => rw [visit_of_covered solver h]; simp [covers]
    | false =>
      rw [visit_of_missing solver h, covers, UbusCoverage.isCovered_write]
      simp [covers]
  count_visit m t := by
    cases h : m.covers t.bin with
    | true => rw [visit_of_covered solver h]; rfl
    | false => rw [visit_of_missing solver h]; rfl

@[simp] theorem sweep_visit : (sweep solver).visit = visit solver := rfl

@[simp] theorem sweep_covers (m : Master) (t : Target) :
    (sweep solver).covers m ((sweep solver).key t) = m.covers t.bin := rfl

theorem onTarget_foldl (ts : List Target) (m : Master) :
    (ts.foldl (visit solver) m).OnTarget ↔ m.OnTarget ∧ (sweep solver).OnTarget m ts := by
  induction ts generalizing m with
  | nil => exact (and_iff_left trivial).symm
  | cons t ts ih =>
    rw [List.foldl_cons, ih, Sweep.OnTarget, ← and_assoc]
    refine and_congr_left fun _ => ?_
    change (visit solver m t).OnTarget ↔ m.OnTarget ∧
      (m.covers t.bin = false → binOf (solver m.sent (.target t.i t.dir)).packet = t.bin)
    cases h : m.covers t.bin with
    | true => rw [visit_of_covered solver h]; simp [OnTarget]
    | false =>
      rw [visit_of_missing solver h]
      simp [OnTarget, Issue.Hits, or_imp, forall_and]

def missing (covered : CoveredBins) : List Target :=
  Target.all.filter fun t => !UbusCoverage.isCovered covered t.i t.dir t.s

def DrawsMissing (covered : CoveredBins) : Prop :=
  ∀ k t, (missing covered)[k]? = some t → (solver k (.target t.i t.dir)).packet.size = t.size

def Closed (m : Master) : Prop := ∀ t : Target, t.Legal → m.covers t.bin = true

theorem onePass_eq (covered : CoveredBins) :
    onePass solver covered = Target.all.foldl (visit solver) (start covered) :=
  run_onePass solver (start covered)

theorem sweep_iff (covered : CoveredBins) :
    (sweep solver).OnTarget (start covered) Target.all ↔ DrawsMissing solver covered := by
  rw [Sweep.onTarget_iff_missing Target.nodup_bins]
  refine forall₃_congr ?_
  intro k t hk
  have hmem : t ∈ Target.all := List.mem_of_mem_filter (List.mem_of_getElem? hk)
  change binOf (solver (0 + k) (.target t.i t.dir)).packet = t.bin ↔ _
  rw [Nat.zero_add]
  exact solution_hits_iff ((Target.mem_all t).mp hmem) _

theorem onePass_onTarget_iff (covered : CoveredBins) :
    (onePass solver covered).OnTarget ↔ DrawsMissing solver covered := by
  have hstart : (start covered).OnTarget := by intro e he; cases he
  rw [onePass_eq, onTarget_foldl, sweep_iff, and_iff_right hstart]

theorem onePass_closed_iff (covered : CoveredBins) :
    (onePass solver covered).Closed ↔ DrawsMissing solver covered := by
  rw [← sweep_iff, ← Sweep.closes_iff_onTarget Target.nodup_bins, onePass_eq]
  simp only [Target.mem_all, sweep_visit, sweep_covers]
  exact Iff.rfl

theorem Closed.foldl {m : Master} (h : m.Closed) {ts : List Target} (hts : ∀ t ∈ ts, t.Legal) :
    (ts.foldl (visit solver) m).Closed ∧ (ts.foldl (visit solver) m).log = m.log := by
  induction ts generalizing m with
  | nil => exact ⟨h, rfl⟩
  | cons t ts ih =>
    rw [List.foldl_cons, visit_of_covered solver (h t (hts t (List.mem_cons_self ..)))]
    exact ih h fun u hu => hts u (List.mem_cons_of_mem t hu)

theorem Closed.attempts {m : Master} (h : m.Closed) (left maxAttempts : Nat) (allCovered : Bool) :
    ((attempts left maxAttempts allCovered).run (answer solver) m).2.log = m.log := by
  induction left generalizing m maxAttempts allCovered with
  | zero => rfl
  | succ left ih =>
    have hpass := run_onePass solver m
    obtain ⟨hclosed, hlog⟩ := h.foldl solver fun t => (Target.mem_all t).mp
    rw [← hpass] at hclosed hlog
    rw [UbusTargetAddrDirSeqf.attempts, Prog.run_bind]
    split
    · exact hlog
    · exact (ih hclosed _ _).trans hlog

def finish : Nat × Bool → Seq Unit
  | (maxAttempts, allCovered) =>
    if maxAttempts = 100 ∧ allCovered = false then warning .maxAttempts else pure ()

def afterFirst (allCovered : Bool) : Seq Unit :=
  (if allCovered then pure (0, allCovered) else attempts 99 1 allCovered) >>= finish

theorem run_body (nRepeat : Nat) (covered : CoveredBins) :
    ∃ allCovered, body nRepeat solver covered =
      ((afterFirst allCovered).run (answer solver) (onePass solver covered)).2 := by
  refine ⟨(UbusTargetAddrDirSeqf.onePass.run (answer solver) (start covered)).1, ?_⟩
  have hbody : UbusTargetAddrDirSeqf.body nRepeat true = attempts 100 0 false >>= finish := rfl
  rw [body, hbody, Prog.run_bind, afterFirst, Prog.run_bind, UbusTargetAddrDirSeqf.attempts,
    Prog.run_bind]
  rfl

theorem Closed.afterFirst {m : Master} (h : m.Closed) (allCovered : Bool) :
    ((afterFirst allCovered).run (answer solver) m).2.log = m.log := by
  have hfinish (r : Nat × Bool) (m : Master) :
      ((finish r).run (answer solver) m).2.log = m.log := by
    obtain ⟨maxAttempts, allCovered⟩ := r
    rw [finish]
    split <;> rfl
  rw [Master.afterFirst, Prog.run_bind, hfinish]
  cases allCovered with
  | true => rfl
  | false => exact h.attempts solver 99 1 false

theorem body_onTarget_iff (nRepeat : Nat) (covered : CoveredBins) :
    (body nRepeat solver covered).OnTarget ↔ DrawsMissing solver covered := by
  obtain ⟨allCovered, hbody⟩ := run_body solver nRepeat covered
  rw [← onePass_onTarget_iff, hbody]
  constructor
  · intro h e he
    exact h e ((log_prefix_run solver (afterFirst allCovered) _).subset he)
  · intro h
    have hclosed := (onePass_closed_iff solver covered).mpr ((onePass_onTarget_iff solver covered).mp h)
    rw [OnTarget, hclosed.afterFirst solver]
    exact h

end Master

theorem targeting_closes_iff (nRepeat : Nat) (solver : Solver) (covered : CoveredBins) :
    ((Master.body nRepeat solver covered).OnTarget ∧ (Master.onePass solver covered).Closed ↔
        Master.DrawsMissing solver covered) ∧
      ((Master.body nRepeat solver covered).OnTarget ↔ Master.DrawsMissing solver covered) ∧
      ((Master.onePass solver covered).Closed ↔ Master.DrawsMissing solver covered) := by
  have htarget := Master.body_onTarget_iff solver nRepeat covered
  have hclosed := Master.onePass_closed_iff solver covered
  exact ⟨by rw [htarget, hclosed, and_self], htarget, hclosed⟩

theorem halfWords_off_target :
    (∃ e ∈ (Master.body 4 halfWords UbusCoverage.init).log,
        e.bin = ⟨0, 0, 0⟩ ∧ binOf e.packet = ⟨0, 0, 1⟩) ∧
      ¬(Master.onePass halfWords UbusCoverage.init).Closed := by
  constructor
  · have hfirst : ∃ e ∈ (Master.onePass halfWords UbusCoverage.init).log,
        e.bin = ⟨0, 0, 0⟩ ∧ binOf e.packet = ⟨0, 0, 1⟩ := by decide
    obtain ⟨e, he, hbin⟩ := hfirst
    obtain ⟨allCovered, hbody⟩ := Master.run_body halfWords 4 UbusCoverage.init
    refine ⟨e, ?_, hbin⟩
    rw [hbody]
    exact (Master.log_prefix_run halfWords (Master.afterFirst allCovered) _).subset he
  · intro h
    have hbin := h ⟨0, 0, 0⟩ (by decide : 0 < 4)
    revert hbin
    decide

end UbusVip
