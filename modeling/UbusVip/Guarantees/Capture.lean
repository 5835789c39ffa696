import UbusVip.History
import UbusVip.Refinement.Run

namespace UbusVip

def Faithful (p : Packet) (tr : Item) (rsp : Packet) : Prop :=
  ∀ i < tr.val.size, p.byte i = if tr.val.read then rsp.byte i else tr.val.byte i

def ZeroBytes (earlier : List Item) (tr : Item) : Prop :=
  if tr.val.read then
    ∀ i < tr.val.size,
      ∃ w ∈ earlier, w.val.write = true ∧ Covers w (tr.val.addr.toNat + i)
  else ∀ i < tr.val.size, tr.val.byte i = 0

theorem reportsFrom_get (first : Bool) (ts : List Transfer) (j : Nat) :
    (reportsFrom first ts)[j]? = ts[j]?.map (Transfer.report (first && decide (j = 0))) := by
  induction ts generalizing first j with
  | nil => rfl
  | cons t ts ih =>
    cases j with
    | zero => simp [reportsFrom]
    | succ j => simp [reportsFrom, ih]

theorem reports_get (ts : List Transfer) (j : Nat) :
    (reports ts)[j]? = ts[j]?.map (Transfer.report (decide (j = 0))) :=
  (reportsFrom_get true ts j).trans (by rw [Bool.true_and])

namespace Transfer

theorem report_byte (first : Bool) (t : Transfer) {i : Nat} (hi : i < t.size) :
    (t.report first).byte i = t.sampled first i := by
  have hlen : i < (request t.item).data.length := by
    rw [show (request t.item).data.length = t.size from List.length_replicate]; exact hi
  exact ArrayFill.getD_fill_of_lt _ _ _ hi hlen

theorem sampled_faithful_iff (first : Bool) (t : Transfer) :
    (∀ i < t.size, t.sampled first i = t.byte i) ↔ first = true ∨ ∀ i < t.size, t.byte i = 0 := by
  cases first with
  | true => simp [sampled]
  | false =>
    constructor
    · intro h
      -- from the last byte, which reads the released bus, down to the first
      have hdown : ∀ d i, i + d + 1 = t.size → t.byte i = 0 := by
        intro d
        induction d with
        | zero =>
          intro i hi
          have hlast := h i (by omega)
          rw [← hlast, sampled, if_neg Bool.false_ne_true, if_neg (by omega)]
        | succ d ih =>
          intro i hi
          have hnext := h i (by omega)
          rw [← hnext, sampled, if_neg Bool.false_ne_true, if_pos (by omega)]
          exact ih (i + 1) (by omega)
      exact .inr fun i hi => hdown (t.size - i - 1) i (by omega)
    · rintro (h | h) i hi
      · cases h
      · rw [sampled, if_neg Bool.false_ne_true, h i hi]
        split
        · exact h (i + 1) (by omega)
        · rfl

theorem after_zero_iff (hist : List Stimulus) (x : Stimulus) :
    (∀ i < x.1.val.size, (after hist x).byte i = 0) ↔ ZeroBytes (hist.map Prod.fst) x.1 := by
  rw [ZeroBytes]
  cases hr : x.1.val.read with
  | true =>
    rw [if_pos rfl]
    refine forall₂_congr ?_
    intro i hi
    rw [after_byte_eq_zero hr hi, written_iff]
  | false =>
    rw [if_neg Bool.false_ne_true]
    refine forall₂_congr ?_
    intro i _
    rw [after_byte_write hr]

theorem faithful_iff (first : Bool) (t : Transfer) :
    Faithful (t.report first) t.item t.rsp ↔ first = true ∨ ∀ i < t.size, t.byte i = 0 := by
  rw [← t.sampled_faithful_iff]
  refine forall₂_congr ?_
  intro i hi
  rw [t.report_byte first hi]
  rfl

end Transfer

theorem get_of_prefix {ts us : List Transfer} (h : ts <+: us) {j : Nat} {t : Transfer}
    (ht : ts[j]? = some t) : us[j]? = some t := by
  obtain ⟨hj, rfl⟩ := List.getElem?_eq_some_iff.mp ht
  exact List.prefix_iff_getElem?.mp h j hj

theorem opened_after {env : Env} {k j : Nat} {t : Transfer}
    (h : (Timeline.run env k).opened[j]? = some t) :
    let xs := stimuli env.draw ((Timeline.run env k).opened.map (·.item))
    t = .after (xs.take j) (t.item, env.draw j) := by
  rw [(Timeline.run_recorded env k).opened, transfers_get, Option.map_eq_some_iff] at h
  obtain ⟨x, hx, rfl⟩ := h
  rw [stimuli, List.getElem?_mapIdx, Option.map_eq_some_iff] at hx
  obtain ⟨tr, -, rfl⟩ := hx
  rfl

theorem opened_get {env : Env} {k j : Nat} {t : Transfer}
    (h : (Timeline.run env k).opened[j]? = some t) :
    (Testbench.run env k).driven[j]? = some t.item ∧
      (Testbench.run env k).slave.responses[j]? = some t.rsp ∧
      ((∀ i < t.size, t.byte i = 0) ↔ ZeroBytes ((Testbench.run env k).driven.take j) t.item) := by
  have hs := run_follows env k
  have hj : j < (Timeline.run env k).opened.length := (List.getElem?_eq_some_iff.mp h).1
  have hitems : (Testbench.run env k).driven =
      (Timeline.run env k).opened.map (·.item) ++ (Timeline.run env k).pending := hs.driven
  refine ⟨?_, ?_, ?_⟩
  · rw [hitems, List.getElem?_append_left (by simpa using hj), List.getElem?_map, h]; rfl
  · rw [hs.served.responses]
    change ((Timeline.run env k).opened.map (·.rsp))[j]? = _
    rw [List.getElem?_map, h]; rfl
  · have htake : (Testbench.run env k).driven.take j =
        ((stimuli env.draw ((Timeline.run env k).opened.map (·.item))).take j).map Prod.fst := by
      rw [List.map_take, stimuli_fst, hitems, List.take_append_of_le_length (by simpa using hj.le)]
    have hzero := Transfer.after_zero_iff ((stimuli env.draw
      ((Timeline.run env k).opened.map (·.item))).take j) (t.item, env.draw j)
    rw [← opened_after h] at hzero
    rw [htake]
    exact hzero

theorem collected_get {env : Env} {k j : Nat} {p : Packet}
    (hp : (Testbench.run env k).masterCollected[j]? = some p ∨
      (Testbench.run env k).slaveCollected[j]? = some p) :
    ∃ t, (Timeline.run env k).opened[j]? = some t ∧ p = t.report (decide (j = 0)) := by
  have hs := run_follows env k
  rw [hs.published.masterCollected, hs.published.slaveCollected, or_self, reports_get,
    Option.map_eq_some_iff] at hp
  obtain ⟨t, ht, rfl⟩ := hp
  exact ⟨t, get_of_prefix (Timeline.run env k).reported_prefix_opened ht, rfl⟩

theorem capture_faithful_iff {env : Env} {k j : Nat} {p : Packet}
    (hp : (Testbench.run env k).masterCollected[j]? = some p ∨
      (Testbench.run env k).slaveCollected[j]? = some p) :
    ∃ tr rsp, (Testbench.run env k).driven[j]? = some tr ∧
      (Testbench.run env k).slave.responses[j]? = some rsp ∧
      (Faithful p tr rsp ↔ j = 0 ∨ ZeroBytes ((Testbench.run env k).driven.take j) tr) := by
  obtain ⟨t, hopen, rfl⟩ := collected_get hp
  obtain ⟨hdriven, hrsp, hzero⟩ := opened_get hopen
  exact ⟨t.item, t.rsp, hdriven, hrsp, by rw [t.faithful_iff, hzero, decide_eq_true_iff]⟩

theorem capture_faithful_iff_writeTwice :
    ∃ tr rsp, (Testbench.run .writeTwice 15).driven[1]? = some tr ∧
      (Testbench.run .writeTwice 15).slave.responses[1]? = some rsp ∧
      (Faithful ((Testbench.run .writeTwice 15).masterCollected.getD 1 .create) tr rsp ↔
        1 = 0 ∨ ZeroBytes ((Testbench.run .writeTwice 15).driven.take 1) tr) :=
  capture_faithful_iff (.inl (by decide))

theorem writeTwice_shifted :
    (Testbench.run .writeTwice 15).driven[1]? = some wordWrite ∧
      ∃ p, (Testbench.run .writeTwice 15).masterCollected[1]? = some p ∧
        (Testbench.run .writeTwice 15).slaveCollected[1]? = some p ∧
        ∀ rsp, ¬Faithful p wordWrite rsp := by
  refine ⟨by decide, (Testbench.run .writeTwice 15).masterCollected.getD 1 .create, by decide,
    by decide, fun rsp h => ?_⟩
  have hfirst : ((Testbench.run .writeTwice 15).masterCollected.getD 1 .create).byte 0 =
      wordWrite.val.byte 0 := h 0 (by decide)
  exact absurd hfirst (by decide)

end UbusVip
