import Mathlib.Tactic.IntervalCases
import UbusVip.CommonVip.CovGroup
import UbusVip.Guarantees.CoverageAgreement
import UbusVip.Guarantees.Delivery
import UbusVip.Guarantees.Rearrangement
import UbusVip.Guarantees.Repetition
import UbusVip.Guarantees.WaitState

namespace UbusVip

open CovTrans (CrossBin TransWaitState)
open UbusCoverage (binOf)

def bytes (read : Bool) (items : List Item) : Nat :=
  ((items.filter fun tr => tr.val.read == read).map (·.val.size)).sum

theorem bytes_concat (read : Bool) (items : List Item) (tr : Item) :
    bytes read (items ++ [tr]) =
      bytes read items + if tr.val.read = read then tr.val.size else 0 := by
  by_cases h : tr.val.read = read
  · simp [bytes, h]
  · simp [bytes, h]

theorem score_counts (ts : List Transfer) :
    (score (reports ts)).numWrites = BitVec.ofNat 32 (bytes false (ts.map (·.item))) ∧
      (score (reports ts)).numReads = BitVec.ofNat 32 (bytes true (ts.map (·.item))) := by
  induction ts using List.reverseRecOn with
  | nil => exact ⟨rfl, rfl⟩
  | append_singleton ts t ih =>
    let p := t.report ts.isEmpty
    obtain ⟨hwrites, hreads⟩ := UbusScoreboard.call_counts (score (reports ts)) (.writeMaster p)
    obtain ⟨hwrites', hreads'⟩ := UbusScoreboard.call_counts
      ((score (reports ts)).call (.writeMaster p)) (.writeSlave p)
    have hscore : score (reports (ts ++ [t])) =
        ((score (reports ts)).call (.writeMaster p)).call (.writeSlave p) := by
      rw [reports_concat, score_concat]
      rfl
    have hw : p.write = !t.read := t.item.write_eq
    have hr : p.read = t.read := rfl
    have hsize : p.size = t.size := rfl
    rw [hscore, hwrites', hreads', hwrites, hreads, ih.1, ih.2, List.map_append, List.map_singleton,
      bytes_concat, bytes_concat, BitVec.ofNat_add, BitVec.ofNat_add]
    simp only [UbusScoreboard.Call.writes, UbusScoreboard.Call.reads, hw, hr, hsize,
      Transfer.item_read, Transfer.item_size]
    rcases Bool.eq_false_or_eq_true t.read with h | h
    · simp [h]
    · simp [h]

theorem reported_items (env : Env) (k : Nat) :
    (Timeline.run env k).reported.map (·.item) =
      (Testbench.run env k).driven.take (Testbench.run env k).masterCollected.length := by
  have h := run_follows env k
  have hlen : (Testbench.run env k).masterCollected.length = (Timeline.run env k).reported.length := by
    rw [h.published.masterCollected]
    exact reportsFrom_length true _
  have hprefix : (Timeline.run env k).reported.map (·.item) <+: (Testbench.run env k).driven := by
    rw [h.driven]
    exact ((Timeline.run env k).reported_prefix_opened.map _).trans (List.prefix_append _ _)
  rw [hlen, ← List.length_map (f := fun t : Transfer => t.item)]
  exact List.prefix_iff_eq_take.mp hprefix

-- %0d prints the counters as signed numbers
def UbusScoreboard.finalReport (sb : UbusScoreboard) : Int × Int :=
  (sb.numWrites.toInt, sb.numReads.toInt)

def tally (items : List Item) : Int × Int :=
  ((BitVec.ofNat 32 (bytes false items)).toInt, (BitVec.ofNat 32 (bytes true items)).toInt)

theorem finalReport_eq (env : Env) (k : Nat) :
    (Testbench.run env k).scoreboard.finalReport =
      tally ((Testbench.run env k).driven.take (Testbench.run env k).masterCollected.length) := by
  obtain ⟨hwrites, hreads⟩ := score_counts (Timeline.run env k).reported
  rw [reported_items] at hwrites hreads
  rw [UbusScoreboard.finalReport, (run_follows env k).published.scoreboard, tally]
  exact congrArg₂ Prod.mk (congrArg BitVec.toInt hwrites) (congrArg BitVec.toInt hreads)

theorem final_report_counts_bytes (env : Env) (k : Nat) :
    let s := Testbench.run env k
    s.scoreboard.finalReport = tally (s.driven.take s.masterCollected.length) ∧
      ((∀ j, k ≤ j → env.offer j = none) →
        ∃ n, ∀ m, n ≤ m → (Testbench.run env m).scoreboard.finalReport = tally s.driven) := by
  refine ⟨finalReport_eq env k, ?_⟩
  intro hend
  obtain ⟨n, hn⟩ := finite_complete hend
  refine ⟨max n k, fun m hm => ?_⟩
  have hlen := congrArg List.length (hn m (by omega)).masterCollected
  simp only [headers, itemHeaders, List.length_map] at hlen
  obtain ⟨r, hr⟩ := (Testbench.run_grows env (show k ≤ m by omega)).driven
  rw [finalReport_eq, hlen, ← hr, List.take_left]

section Coverage

theorem legal_iff (a : Fin 6) (d : Fin 2) (s : Fin 4) :
    (⟨a, d, s⟩ : Target).Legal ↔ ¬(crossBin a d s).IgnSize8Addr := by
  have hlen : ∀ i : Fin 6, ∀ s : Fin 4,
      s.val < (UbusTargetAddrDirSeqf.sizeArray i).length ↔ ¬(i.val = 3 ∧ s.val = 3) := by decide
  rw [ignored_iff]
  exact hlen a s

theorem Target.Legal.lt {t : Target} (h : t.Legal) : t.s < 4 := by
  have hlen : ∀ i : Fin 6, (UbusTargetAddrDirSeqf.sizeArray i).length ≤ 4 := by decide
  exact Nat.lt_of_lt_of_le h (hlen t.i)

theorem reports_size (ts : List Transfer) : ∀ p ∈ reports ts, p.size ∈ [1, 2, 4, 8] := by
  intro p hp
  obtain ⟨j, hj⟩ := List.mem_iff_getElem?.mp hp
  rw [reports_get, Option.map_eq_some_iff] at hj
  obtain ⟨t, -, rfl⟩ := hj
  exact t.item.property.cSize

theorem cross_hit_iff (ts : List Transfer) :
    (∀ b : CrossBin, ¬b.IgnSize8Addr → ∃ p ∈ reports ts, b.Hit p) ↔
      ∀ t : Target, t.Legal → ∃ tr ∈ ts.map (·.item), binOf tr.val = t.bin := by
  have hbin (a : Fin 6) (d : Fin 2) (s : Fin 4) : (∃ p ∈ reports ts, (crossBin a d s).Hit p) ↔
      ∃ tr ∈ ts.map (·.item), binOf tr.val = ⟨a, d, s⟩ := by
    calc (∃ p ∈ reports ts, (crossBin a d s).Hit p)
        ↔ ∃ p ∈ reports ts, binOf p = ⟨a, d, s⟩ :=
          exists_congr fun p => and_congr_right fun hp => hit_iff a d s (reports_size ts p hp)
      _ ↔ (⟨a, d, s⟩ : Bin) ∈ (reports ts).map binOf := List.mem_map.symm
      _ ↔ _ := by rw [reports_bins]; simp
  constructor
  · rintro h ⟨i, dir, s⟩ ht
    exact (hbin i dir ⟨s, ht.lt⟩).mp (h _ ((legal_iff i dir ⟨s, ht.lt⟩).mp ht))
  · intro h b hb
    obtain ⟨a, d, s, rfl⟩ := crossBin_surjective b
    exact (hbin a d s).mpr (h ⟨a, d, s⟩ ((legal_iff a d s).mpr hb))

variable (env : Env) (k : Nat)

theorem collected_waits {j : Nat} {p : Packet}
    (hp : (Testbench.run env k).masterCollected[j]? = some p) :
    p.waitState = if j = 0 then 0 else (env.draw j).waitState + 1 := by
  obtain ⟨t, hopen, rfl⟩ := collected_get (.inl hp)
  rw [t.report_waits, opened_waits hopen]
  simp

theorem wait_hit_iff :
    (∀ w : TransWaitState, ∃ p ∈ (Testbench.run env k).masterCollected, p.waitState = w.value) ↔
      (Testbench.run env k).masterCollected ≠ [] ∧ ∀ w < 3, ∃ j, 0 < j ∧
        j < (Testbench.run env k).masterCollected.length ∧ (env.draw j).waitState = w := by
  have hlater {w : Nat} : (∃ p ∈ (Testbench.run env k).masterCollected, p.waitState = w + 1) ↔
      ∃ j, 0 < j ∧ j < (Testbench.run env k).masterCollected.length ∧ (env.draw j).waitState = w := by
    constructor
    · rintro ⟨p, hp, hw⟩
      obtain ⟨j, hj⟩ := List.mem_iff_getElem?.mp hp
      rw [collected_waits env k hj] at hw
      split at hw
      · cases hw
      · exact ⟨j, by omega, (List.getElem?_eq_some_iff.mp hj).1, by omega⟩
    · rintro ⟨j, hpos, hlt, rfl⟩
      have hj := List.getElem?_eq_getElem hlt
      refine ⟨_, List.getElem_mem hlt, ?_⟩
      rw [collected_waits env k hj, if_neg (by omega)]
  constructor
  · intro h
    refine ⟨?_, fun w hw => hlater.mp ?_⟩
    · obtain ⟨p, hp, -⟩ := h .noWait
      exact List.ne_nil_of_mem hp
    · interval_cases w
      · exact h .withWait1
      · exact h .withWait2
      · exact h .withWait3
  · rintro ⟨hne, h⟩ w
    cases w with
    | noWait =>
      have hj := List.getElem?_eq_getElem (List.length_pos_iff_ne_nil.mpr hne)
      exact ⟨_, List.getElem_mem _, by rw [collected_waits env k hj, if_pos rfl]; rfl⟩
    | withWait1 => exact hlater.mpr (h 0 (by decide))
    | withWait2 => exact hlater.mpr (h 1 (by decide))
    | withWait3 => exact hlater.mpr (h 2 (by decide))

-- the environment's collector is sampled by the master monitor, the virtual sequencer's never
theorem coverage_report_iff (env : Env) (k : Nat) :
    let s := Testbench.run env k
    let instances := [s.masterCollected, []]
    UbusCoverage.reportPhase false instances ≠ .success ∧
      (UbusCoverage.reportPhase true instances = .success ↔
        (∀ t : Target, t.Legal →
            ∃ tr ∈ s.driven.take s.masterCollected.length, binOf tr.val = t.bin) ∧
          ∀ w < 3, ∃ j, 0 < j ∧ j < s.masterCollected.length ∧ (env.draw j).waitState = w) := by
  intro s instances
  refine ⟨UbusCoverage.reportPhase_averaged (by simp [instances]), ?_⟩
  have hcollected : s.masterCollected = reports (Timeline.run env k).reported :=
    (run_follows env k).published.masterCollected
  have hcross := cross_hit_iff (Timeline.run env k).reported
  rw [reported_items, ← hcollected] at hcross
  rw [UbusCoverage.reportPhase_merged, hcross, wait_hit_iff]
  refine and_congr_right fun hbins => and_iff_right ?_
  obtain ⟨tr, htr, -⟩ := hbins ⟨0, 0, 0⟩ (by decide : 0 < 4)
  intro hnil
  rw [show s.masterCollected = [] from hnil] at htr
  cases htr

end Coverage

end UbusVip
