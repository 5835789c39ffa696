import Mathlib.Data.Fin.Basic
import Mathlib.Tactic.FinCases
import UbusVip.CommonVip.CovTrans
import UbusVip.CommonVip.UbusCoverage
import UbusVip.Guarantees.Targeting

namespace UbusVip

open CovTrans
open UbusCoverage (addrToIndex dirToIndex sizeToIndex isCovered write binOf)

def crossBin (a : Fin 6) (d : Fin 2) (s : Fin 4) : CrossBin where
  addr :=
    match a.val with
    | 0 => .configRegs
    | 1 => .internalSramLow
    | 2 => .internalSramHigh
    | 3 => .peripheralRegs
    | 4 => .externalCodeFlash
    | _ => .externalDataDdr
  dir := if d.val = 1 then .read else .write
  size := .sizes s

theorem crossBin_surjective (b : CrossBin) : ∃ a d s, crossBin a d s = b := by
  obtain ⟨addr, dir, ⟨s⟩⟩ := b
  have haddr : ∃ a, (crossBin a 0 0).addr = addr := by
    cases addr with
    | configRegs => exact ⟨0, rfl⟩
    | internalSramLow => exact ⟨1, rfl⟩
    | internalSramHigh => exact ⟨2, rfl⟩
    | peripheralRegs => exact ⟨3, rfl⟩
    | externalCodeFlash => exact ⟨4, rfl⟩
    | externalDataDdr => exact ⟨5, rfl⟩
  obtain ⟨a, rfl⟩ := haddr
  cases dir with
  | read => exact ⟨a, 1, s, rfl⟩
  | write => exact ⟨a, 0, s, rfl⟩

theorem crossBin_size (a : Fin 6) (d : Fin 2) (s : Fin 4) : (crossBin a d s).size.value = 2 ^ s.val := by
  fin_cases s <;> rfl

theorem ignored_iff (a : Fin 6) (d : Fin 2) (s : Fin 4) :
    (crossBin a d s).IgnSize8Addr ↔ a.val = 3 ∧ s.val = 3 := by
  revert a d s
  decide

theorem contains_iff (a : Fin 6) (d : Fin 2) (s : Fin 4) {addr : Nat} (h : addr < 65536) :
    (crossBin a d s).addr.values.Contains addr ↔ addrToIndex addr = a := by
  simp only [addrToIndex, ValueRange.Contains]
  fin_cases a <;> simp only [crossBin, TransAddr.values] <;> split_ifs <;> simp <;> omega

theorem dir_iff (d : Fin 2) (read : Bool) :
    read = (crossBin 0 d 0).dir.value ↔ dirToIndex read = d := by
  revert d read
  decide

theorem hit_iff (a : Fin 6) (d : Fin 2) (s : Fin 4) {trans : Packet}
    (h : trans.size ∈ [1, 2, 4, 8]) : (crossBin a d s).Hit trans ↔ binOf trans = ⟨a, d, s⟩ := by
  rw [CrossBin.Hit, contains_iff a d s trans.addr.isLt, crossBin_size, ← sizeToIndex_eq_iff h,
    binOf, Bin.mk.injEq, ← dir_iff]
  rfl

theorem is_covered_iff_cross {ts : List Packet} (h : ∀ t ∈ ts, t.size ∈ [1, 2, 4, 8])
    (a : Fin 6) (d : Fin 2) (s : Fin 4) :
    isCovered (ts.foldl write UbusCoverage.init) a d s = true ↔
      (∃ t ∈ ts, (crossBin a d s).Hit t) ∨ (crossBin a d s).IgnSize8Addr := by
  have hinit : isCovered UbusCoverage.init a d s = true ↔ a.val = 3 ∧ s.val = 3 := by
    rw [isCovered]
    split
    · simp [*]
    · simp [*, UbusCoverage.init]
  rw [UbusCoverage.isCovered_foldl, hinit, ← ignored_iff a d s, or_comm]
  refine or_congr (exists_congr fun t => and_congr_right fun ht => ?_) Iff.rfl
  exact (hit_iff a d s (h t ht)).symm

structure CoverageAgrees (ts : List Packet) : Prop where
  covered : ∀ (a : Fin 6) (d : Fin 2) (s : Fin 4),
    isCovered (ts.foldl write UbusCoverage.init) a d s = true ↔
      (∃ t ∈ ts, (crossBin a d s).Hit t) ∨ (crossBin a d s).IgnSize8Addr
  complete : (∀ (a : Fin 6) (d : Fin 2) (s : Fin 4),
      isCovered (ts.foldl write UbusCoverage.init) a d s = true) ↔
    ∀ b : CrossBin, ¬b.IgnSize8Addr → ∃ t ∈ ts, b.Hit t
  kept : ∀ (more : List Packet) (a d s : Nat),
    isCovered (ts.foldl write UbusCoverage.init) a d s = true →
      isCovered ((ts ++ more).foldl write UbusCoverage.init) a d s = true

theorem coverage_agrees {ts : List Packet} (h : ∀ t ∈ ts, t.size ∈ [1, 2, 4, 8]) :
    CoverageAgrees ts := by
  refine ⟨is_covered_iff_cross h, ?_, ?_⟩
  · simp only [is_covered_iff_cross h]
    constructor
    · intro hall b hb
      obtain ⟨a, d, s, rfl⟩ := crossBin_surjective b
      exact (hall a d s).resolve_right hb
    · intro hall a d s
      rcases em (crossBin a d s).IgnSize8Addr with hb | hb
      · exact .inr hb
      · exact .inl (hall _ hb)
  · intro more a d s hcov
    rw [List.foldl_append, UbusCoverage.isCovered_foldl]
    exact .inl hcov

theorem coverage_agrees_halfWord :
    CoverageAgrees [UbusTargetAddrDirSeqf.halfWord .blind, UbusTargetAddrDirSeqf.halfWord (.target 3 1)] :=
  coverage_agrees (by decide)

end UbusVip
