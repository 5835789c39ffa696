import Mathlib.Algebra.BigOperators.Ring.List
import UbusVip.Guarantees.ClosureEnds

namespace UbusVip

open Interaction (Prog)
open UbusCoverage (binOf)
open MasterSeq

abbrev Aim := Nat × Bool

def Aim.Met (tr : Item) (a : Aim) : Prop := inRegion a.1 a.2 tr.val

theorem addrToIndex_of_inRegion {i : Nat} (hi : i < 6) {read : Bool} {req : Packet}
    (h : inRegion i read req) : UbusCoverage.addrToIndex req.addr.toNat = i := by
  have hmap : ∀ j : Fin 6, addrMaps.getD j ⟨0, 0⟩ = UbusTargetAddrDirSeqf.addrMaps j := by decide
  obtain ⟨⟨hlo, hhi⟩, -⟩ := h
  have hregion := hmap ⟨i, hi⟩
  simp only at hregion
  rw [hregion] at hlo hhi
  exact addrToIndex_of_mem hlo hhi

theorem inRegion_iff_of_inRegion {i j : Nat} (hi : i < 6) (hj : j < 6) {read read' : Bool}
    {req : Packet} (h : inRegion i read req) : inRegion j read' req ↔ (i, read) = (j, read') := by
  constructor
  · intro h'
    rw [Prod.mk.injEq]
    exact ⟨(addrToIndex_of_inRegion hi h).symm.trans (addrToIndex_of_inRegion hj h'),
      h.2.1.symm.trans h'.2.1⟩
  · rintro ⟨⟩
    exact h

theorem countP_aims {xs : List Item} {as : List Aim} (h : List.Forall₂ Aim.Met xs as)
    (has : ∀ a ∈ as, a.1 < 6) {i : Nat} (hi : i < 6) (read : Bool) :
    xs.countP (fun tr => inRegion i read tr.val) = as.count (i, read) := by
  induction h with
  | nil => rfl
  | @cons tr a xs as ha _ ih =>
    have hiff : inRegion i read tr.val ↔ a = (i, read) :=
      inRegion_iff_of_inRegion (has a List.mem_cons_self) hi ha
    rw [List.countP_cons, List.count_cons, ih fun b hb => has b (List.mem_cons_of_mem a hb)]
    simp only [hiff, decide_eq_true_eq, beq_iff_eq]

theorem exists_aim_of_mem {xs : List Item} {as : List Aim} (h : List.Forall₂ Aim.Met xs as)
    {tr : Item} (htr : tr ∈ xs) : ∃ a ∈ as, inRegion a.1 a.2 tr.val := by
  induction h with
  | nil => cases htr
  | @cons x a xs as ha _ ih =>
    rcases List.mem_cons.mp htr with rfl | htr
    · exact ⟨a, List.mem_cons_self, ha⟩
    · obtain ⟨b, hb, hin⟩ := ih htr
      exact ⟨b, List.mem_cons_of_mem a hb, hin⟩

theorem dirToIndex_eq_iff (read : Bool) (dir : Fin 2) :
    UbusCoverage.dirToIndex read = dir ↔ read = decide (dir = 1) := by
  revert read dir
  decide

structure EvenAims (n : Nat) (as : List Aim) : Prop where
  regions : ∀ a ∈ as, a.1 < 6
  count : ∀ i < 6, ∀ read, as.count (i, read) = n
  length : as.length = 12 * n

def sweep (n : Nat) (is : List Nat) (read : Bool) : List Aim :=
  (List.range n).flatMap fun _ => is.flatMap fun i => [(i, read)]

theorem count_sweep (n : Nat) (is : List Nat) (read : Bool) (a : Aim) :
    (sweep n is read).count a = n * (is.flatMap fun i => [(i, read)]).count a := by
  rw [sweep, List.count_flatMap, Function.comp_def, List.map_const', List.sum_replicate,
    List.length_range]
  rfl

theorem length_sweep (n : Nat) (is : List Nat) (read : Bool) :
    (sweep n is read).length = n * is.length := by
  simp [sweep]

theorem fst_lt_of_mem_sweep {n : Nat} {is : List Nat} {read : Bool} (his : ∀ i ∈ is, i < 6) :
    ∀ a ∈ sweep n is read, a.1 < 6 := by
  intro a ha
  simp only [sweep, List.mem_flatMap, List.mem_singleton] at ha
  obtain ⟨_, _, i, hi, rfl⟩ := ha
  exact his i hi

namespace MasterSeq

variable {r : Randomizer} {e : Platform}

abbrev Aims (r : Randomizer) (e : Platform) {α : Type} (p : Seq α) (as : List Aim) : Prop :=
  p.Emits (handle r e) (fun m => m.account.items) Aim.Met as

theorem aims_transact {i : Nat} (hi : i < 6) (read : Bool) :
    Aims r e (transact i read) [(i, read)] := by
  have hsat := satisfiable_inRegion hi read
  have hsend : Aims r e (doWith (inRegion i read)) [(i, read)] :=
    fun m => ⟨_, items_doWith hsat, .cons (r.sound _ _ hsat).2.2 .nil⟩
  have htake : Aims r e getResponse [] := fun m => ⟨[], (List.append_nil _).symm, .nil⟩
  exact hsend.bind fun _ => htake.bind fun _ => .ret _

theorem aims_sweep (n : Nat) {is : List Nat} (his : ∀ i ∈ is, i < 6) (read : Bool) :
    Aims r e ((List.range n).forM fun _ => is.forM (transact · read)) (sweep n is read) :=
  .forM fun _ _ => .forM fun i hi => aims_transact (his i hi) read

theorem aims_repeat (n : Nat) {i : Nat} (hi : i < 6) (read : Bool) :
    Aims r e ((List.range n).forM fun _ => transact i read) (sweep n [i] read) :=
  .forM fun _ _ => aims_transact hi read

def mergedAims (n : Nat) : List Aim :=
  sweep n [0, 1, 2, 4, 5] false ++ (sweep n [3] false ++
    (sweep n [0, 1, 2, 4, 5] true ++ sweep n [3] true))

theorem aims_merged (n : Nat) : Aims r e (ubusTargetAddrDirSeq n) (mergedAims n) :=
  (aims_sweep n (by decide) false).bind fun _ => (aims_repeat n (by decide) false).bind fun _ =>
    (aims_sweep n (by decide) true).bind fun _ => aims_repeat n (by decide) true

def regionAims (n : Nat) : List Aim :=
  (List.range 6).flatMap fun i => sweep n [i] false ++ sweep n [i] true

theorem aims_regions (n : Nat) : Aims r e (targetSeqs n) (regionAims n) :=
  Prog.Emits.forM (f := fun i => targetRegion i n) fun _ hmem =>
    have hi := List.mem_range.mp hmem
    (aims_repeat n hi false).bind fun _ => aims_repeat n hi true

end MasterSeq

theorem evenAims_merged (n : Nat) : EvenAims n (mergedAims n) where
  regions := by
    intro a ha
    simp only [mergedAims, List.mem_append] at ha
    rcases ha with ha | ha | ha | ha <;> exact fst_lt_of_mem_sweep (by decide) a ha
  count := by
    intro i hi read
    have hcount : ∀ i : Fin 6, ∀ read : Bool,
        ([0, 1, 2, 4, 5].flatMap fun j => [(j, false)]).count (i.val, read) +
          (([3].flatMap fun j => [(j, false)]).count (i.val, read) +
            (([0, 1, 2, 4, 5].flatMap fun j => [(j, true)]).count (i.val, read) +
              ([3].flatMap fun j => [(j, true)]).count (i.val, read))) = 1 := by decide
    simp only [mergedAims, List.count_append, count_sweep, ← Nat.mul_add]
    rw [hcount ⟨i, hi⟩ read, Nat.mul_one]
  length := by
    simp only [mergedAims, List.length_append, length_sweep, List.length_cons, List.length_nil]
    omega

theorem evenAims_regions (n : Nat) : EvenAims n (regionAims n) where
  regions := by
    intro a ha
    simp only [regionAims, List.mem_flatMap, List.mem_append, List.mem_range] at ha
    obtain ⟨i, hi, ha | ha⟩ := ha <;>
      exact fst_lt_of_mem_sweep (by simpa using hi) a ha
  count := by
    intro i hi read
    have hcount : ∀ i : Fin 6, ∀ read : Bool, ((List.range 6).map fun j =>
        ([j].flatMap fun k => [(k, false)]).count (i.val, read) +
          ([j].flatMap fun k => [(k, true)]).count (i.val, read)).sum = 1 := by decide
    simp only [regionAims, List.count_flatMap, Function.comp_def, List.count_append, count_sweep,
      ← Nat.mul_add, List.sum_map_mul_left]
    have h := hcount ⟨i, hi⟩ read
    simp only [List.count_flatMap, Function.comp_def] at h
    rw [h, Nat.mul_one]
  length := by
    simp [regionAims, length_sweep, List.range_succ]
    omega

theorem length_le_countP {xs : List Item} {i : Nat} {read : Bool} {ss : List Nat} (hss : ss.Nodup)
    (h : ∀ s ∈ ss, ∃ tr ∈ xs, inRegion i read tr.val ∧ UbusCoverage.sizeToIndex tr.val.size = s) :
    ss.length ≤ xs.countP fun tr => inRegion i read tr.val := by
  have hsub : ss ⊆ (xs.filter fun tr => inRegion i read tr.val).map
      fun tr => UbusCoverage.sizeToIndex tr.val.size := by
    intro s hs
    obtain ⟨tr, htr, hreg, hsize⟩ := h s hs
    exact List.mem_map.mpr ⟨tr, List.mem_filter.mpr ⟨htr, decide_eq_true hreg⟩, hsize⟩
  have hle := (hss.subperm hsub).length_le
  rwa [List.length_map, ← List.countP_eq_length_filter] at hle

theorem region_counts (r : Randomizer) (e : Platform) (n : Nat) (merged : Bool) :
    let p := if merged then ubusTargetAddrDirSeq n else targetSeqs n
    let c := SequenceRun.run (client r) e (.init UbusCoverage.init) p
    ∃ K, ∀ k, K ≤ k → (c k).blocked = .ended ∧ (c k).tb.driven.length = 12 * n ∧
      (∀ i < 6, ∀ read, (c k).tb.driven.countP (fun tr => inRegion i read tr.val) = n) ∧
      ∀ (i : Fin 6) (dir : Fin 2),
        (List.range (UbusTargetAddrDirSeqf.sizeArray i).length).countP
          (fun s => UbusCoverage.isCovered (c k).tb.coverage i dir s) ≤ n := by
  intro p c
  obtain ⟨as, heven, haims, hpaired⟩ : ∃ as, EvenAims n as ∧ Aims r e p as ∧ Paired (client r) p := by
    cases merged with
    | true => exact ⟨_, evenAims_merged n, aims_merged n, paired_targetAddrDir n⟩
    | false => exact ⟨_, evenAims_regions n, aims_regions n, paired_targetSeqs n⟩
  obtain ⟨xs, hitems, hmet⟩ := haims (.start .init)
  obtain ⟨K, hK⟩ := SequenceRun.run_drained e hpaired.fed
  refine ⟨K, fun k hk => ?_⟩
  obtain ⟨hdone, -⟩ := hK k hk
  have hdriven : (c k).tb.driven = xs := hdone.driven.trans hitems
  have hcount {i : Nat} (hi : i < 6) (read : Bool) :
      xs.countP (fun tr => inRegion i read tr.val) = n := by
    rw [countP_aims hmet heven.regions hi, heven.count i hi]
  rw [hdriven]
  refine ⟨hdone.ended, hmet.length_eq.trans heven.length, fun i hi => hcount hi, ?_⟩
  intro i dir
  obtain ⟨env, -, -, henv⟩ := SequenceRun.run_env (client r) e p
  have hfollows : Follows UbusCoverage.init (Timeline.run env k) (c k).tb := by
    rw [show (c k).tb = Testbench.run env k from henv k]
    exact run_follows env k
  rw [← hcount i.isLt (decide (dir = 1)), List.countP_eq_length_filter]
  refine length_le_countP (List.nodup_range.filter _) fun s hs => ?_
  obtain ⟨hlt, hcov⟩ := List.mem_filter.mp hs
  obtain ⟨tr, htr, hbin⟩ := hfollows.driven_of_covered (t := ⟨i, dir, s⟩) (List.mem_range.mp hlt) hcov
  rw [hdriven] at htr
  obtain ⟨a, ha, hin⟩ := exists_aim_of_mem hmet htr
  simp only [binOf, Target.bin, Bin.mk.injEq] at hbin
  refine ⟨tr, htr, ?_, hbin.2.2⟩
  rw [inRegion_iff_of_inRegion (heven.regions a ha) i.isLt hin, Prod.mk.injEq,
    ← addrToIndex_of_inRegion (heven.regions a ha) hin, ← hin.2.1]
  exact ⟨hbin.1, (dirToIndex_eq_iff tr.val.read dir).mp hbin.2.1⟩

end UbusVip
