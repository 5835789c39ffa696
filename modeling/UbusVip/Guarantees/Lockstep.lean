import UbusVip.Refinement.Step

namespace UbusVip

open FilledMemory (replay writes touches conflicts)
open SlaveSequence (Draw Mem respond fillAt readByte)

structure Transaction where
  packet : Item
  draw : Draw
  slaveFirst : Bool

def carried (m : Mem) (p : Packet) (draw : Draw) : Packet :=
  if p.read then { p with data := (respond m p draw).2.data } else p

def transact (s : Mem × UbusScoreboard) (t : Transaction) : Mem × UbusScoreboard :=
  let p := carried s.1 t.packet.val t.draw
  ((respond s.1 t.packet.val t.draw).1, Testbench.report t.slaveFirst [p] [p] s.2)

structure Lockstep (s : Mem × UbusScoreboard) : Prop where
  mem : s.1 = s.2.memExpected
  byte : ∀ a v, s.1 a = some v → v.toNat < 256
  clean : s.2.mismatches = []

theorem setWidth_byte {v : Word} (h : v.toNat < 256) : (v.setWidth 8).setWidth 32 = v := by
  apply BitVec.eq_of_toNat_eq
  rw [BitVec.toNat_setWidth, BitVec.toNat_setWidth, Nat.mod_eq_of_lt h]
  exact Nat.mod_eq_of_lt v.isLt

variable {m : Mem} {sb : UbusScoreboard} {p : Packet}

theorem lockstep_write (h : Lockstep (m, sb)) (hw : p.write = true) (hd : p.write = !p.read)
    (draw : Draw) (slaveFirst : Bool) :
    Lockstep ((respond m p draw).1, Testbench.report slaveFirst [p] [p] sb) := by
  obtain ⟨hmem, hmis⟩ := UbusScoreboard.report_spec hd sb
  have hacc : p.accesses = writes p.byteAt p.span := if_pos hw
  have hm : (respond m p draw).1 = replay m (writes p.byteAt p.span) := by
    rw [SlaveSequence.respond_mem hd, SlaveSequence.accesses_write hw]
  rw [report_pair slaveFirst hd, hm]
  rw [hacc] at hmem hmis
  refine ⟨?_, ?_, ?_⟩
  · exact hmem.symm ▸ congrArg (replay · _) h.mem
  · intro a v hv
    simp only [FilledMemory.replay_writes] at hv
    split at hv
    · obtain rfl : p.byteAt a = v := by simpa using hv
      rw [Packet.byteAt, BitVec.toNat_setWidth]
      have := (p.byte (a - p.addr.toNat)).isLt
      omega
    · exact h.byte a v hv
  · rw [hmis, FilledMemory.conflicts_writes, h.clean]
    rfl

theorem read_settles (h : ∀ a v, m a = some v → v.toNat < 256) (hr : p.read = true)
    (hd : p.write = !p.read) (hl : p.data.length = p.size) (draw : Draw) {a : Nat} (ha : a ∈ p.span) :
    (m a).or (some (fillAt p draw a)) =
      some ({ p with data := (respond m p draw).2.data }.byteAt a) := by
  have hw : p.write = false := by rw [hd, hr]; rfl
  obtain ⟨hlo, hhi⟩ := (p.mem_span a).mp ha
  obtain ⟨i, rfl⟩ := Nat.exists_eq_add_of_le hlo
  have hbyte : { p with data := (respond m p draw).2.data }.byteAt (p.addr.toNat + i) =
      ((readByte m p draw i)).setWidth 32 := by
    rw [← SlaveSequence.respond_read_byte hd hr hl draw m (by omega)]
    exact Packet.byteAt_add _ i
  have hcell := FilledMemory.replay_touches (fillAt p draw) m p.span (p.addr.toNat + i)
  rw [if_pos ha] at hcell
  rw [hbyte, readByte, SlaveSequence.accesses_read hw, hcell]
  cases hm : m (p.addr.toNat + i) with
  | some v => exact congrArg some (setWidth_byte (h _ v hm)).symm
  | none => exact congrArg some (setWidth_byte (SlaveSequence.fillAt_lt p draw _)).symm

theorem lockstep_read (h : Lockstep (m, sb)) (hr : p.read = true) (hd : p.write = !p.read)
    (hl : p.data.length = p.size) (draw : Draw) (slaveFirst : Bool) :
    let q := { p with data := (respond m p draw).2.data }
    Lockstep ((respond m p draw).1, Testbench.report slaveFirst [q] [q] sb) := by
  intro q
  have hw : p.write = false := by rw [hd, hr]; rfl
  obtain ⟨hmem, hmis⟩ := UbusScoreboard.report_spec (p := q) hd sb
  have hacc : q.accesses = touches q.byteAt p.span := if_neg (by simp [q, hw])
  have hm : (respond m p draw).1 = replay m (touches (fillAt p draw) p.span) := by
    rw [SlaveSequence.respond_mem hd, SlaveSequence.accesses_read hw]
  have hsettle {a : Nat} (ha : a ∈ p.span) : (m a).or (some (fillAt p draw a)) = some (q.byteAt a) :=
    read_settles h.byte hr hd hl draw ha
  have hcells (a : Nat) : replay m (touches (fillAt p draw) p.span) a =
      if a ∈ p.span then some (q.byteAt a) else m a := by
    rw [FilledMemory.replay_touches]
    by_cases ha : a ∈ p.span
    · rw [if_pos ha, if_pos ha, hsettle ha]
    · rw [if_neg ha, if_neg ha, Option.or_none]
  have hold {a : Nat} (ha : a ∈ p.span) {e : Word} (he : m a = some e) : e = q.byteAt a := by
    have hs := hsettle ha
    rw [he] at hs
    exact Option.some_inj.mp hs
  have hmem0 : sb.memExpected = m := h.mem.symm
  rw [hacc, hmem0] at hmem hmis
  rw [report_pair slaveFirst (p := q) hd, hm]
  refine ⟨?_, ?_, ?_⟩
  · rw [hmem]
    funext a
    refine (hcells a).trans ?_
    rw [FilledMemory.replay_touches]
    by_cases ha : a ∈ p.span
    · cases he : m a with
      | some e => simp [ha, ← hold ha he]
      | none => simp [ha]
    · simp [ha]
  · intro a v hv
    simp only [hcells] at hv
    split at hv
    · obtain rfl : q.byteAt a = v := by simpa using hv
      rw [Packet.byteAt, BitVec.toNat_setWidth]
      have := (q.byte (a - q.addr.toNat)).isLt
      omega
    · exact h.byte a v hv
  · rw [hmis, (FilledMemory.conflicts_touches q.byteAt m p.span).mpr fun a ha e he => hold ha he,
      h.clean]
    rfl

theorem transact_lockstep {s : Mem × UbusScoreboard} (h : Lockstep s) (t : Transaction) :
    Lockstep (transact s t) := by
  have hd := t.packet.write_eq
  rw [transact]
  cases hr : t.packet.val.read with
  | true =>
    rw [show carried s.1 t.packet.val t.draw = _ from if_pos hr]
    exact lockstep_read h hr hd t.packet.data_length t.draw t.slaveFirst
  | false =>
    rw [show carried s.1 t.packet.val t.draw = _ from if_neg (by simp [hr])]
    exact lockstep_write h (by rw [hd, hr]; rfl) hd t.draw t.slaveFirst

theorem transactions_lockstep (ts : List Transaction) :
    Lockstep (ts.foldl transact (fun _ => none, .init)) := by
  have hinit : Lockstep (fun _ => none, .init) := ⟨rfl, nofun, rfl⟩
  induction ts using List.reverseRecOn with
  | nil => exact hinit
  | append_singleton ts t ih =>
    rw [List.foldl_append, List.foldl_cons, List.foldl_nil]
    exact transact_lockstep ih t

theorem transactions_lockstep_writeThenRead :
    let s := [⟨wordWrite, .fixed 0, false⟩, ⟨wordRead, .fixed 0, true⟩].foldl transact
      (fun _ => none, .init)
    Lockstep s ∧ s.1 0x10 = some 0x5a ∧ s.2.memExpected 0x11 = some 0xa5 :=
  ⟨transactions_lockstep _, by decide, by decide⟩

end UbusVip
