import Mathlib.Data.List.Basic
import UbusVip.CommonVip.Packet
import UbusVip.Library.FilledMemory

namespace UbusVip

structure Mismatch where
  addr : Nat
  expected : Word
  got : Word
deriving DecidableEq, Repr

structure UbusScoreboard where
  numWrites : Word
  numReads : Word
  memExpected : Nat → Option Word
  mismatches : List Mismatch

namespace UbusScoreboard

def init : UbusScoreboard := ⟨0, 0, fun _ => none, []⟩

def masterByte (trans : Packet) (sb : UbusScoreboard) (i : Nat) : UbusScoreboard :=
  let addr := trans.addr.toNat + i
  let data : Word := (trans.byte i).setWidth 32
  if trans.write then
    { sb with
      memExpected := Function.update sb.memExpected addr (some data)
      numWrites := sb.numWrites + 1 }
  else sb

def slaveByte (trans : Packet) (sb : UbusScoreboard) (i : Nat) : UbusScoreboard :=
  let addr := trans.addr.toNat + i
  let data : Word := (trans.byte i).setWidth 32
  if trans.read then
    let sb := { sb with numReads := sb.numReads + 1 }
    match sb.memExpected addr with
    | some expected =>
      if expected = data then sb
      else { sb with mismatches := sb.mismatches ++ [⟨addr, expected, data⟩] }
    | none => { sb with memExpected := Function.update sb.memExpected addr (some data) }
  else sb

def writeMaster (sb : UbusScoreboard) (trans : Packet) : UbusScoreboard :=
  (List.range trans.size).foldl (masterByte trans) sb

def writeSlave (sb : UbusScoreboard) (trans : Packet) : UbusScoreboard :=
  (List.range trans.size).foldl (slaveByte trans) sb

inductive Call where
  | writeMaster (p : Packet)
  | writeSlave (p : Packet)
deriving DecidableEq, Repr

def call (sb : UbusScoreboard) : Call → UbusScoreboard
  | .writeMaster p => sb.writeMaster p
  | .writeSlave p => sb.writeSlave p

def calls (cs : List Call) : UbusScoreboard := cs.foldl call init

theorem writeMaster_read {p : Packet} (hw : p.write = false) (sb : UbusScoreboard) :
    sb.writeMaster p = sb :=
  List.foldl_fixed' (fun i => by simp [masterByte, hw]) _

theorem writeSlave_write {p : Packet} (hr : p.read = false) (sb : UbusScoreboard) :
    sb.writeSlave p = sb :=
  List.foldl_fixed' (fun i => by simp [slaveByte, hr]) _

end UbusScoreboard

open FilledMemory (Access writes touches replay conflicts)

def Packet.accesses (p : Packet) : List (Access Nat Word) :=
  if p.write then writes p.byteAt p.span else touches p.byteAt p.span

namespace UbusScoreboard

def mismatch (c : Nat × Word × Word) : Mismatch := ⟨c.1, c.2.1, c.2.2⟩

theorem slaveByte_touch {p : Packet} (hr : p.read = true) (sb : UbusScoreboard) (i : Nat) :
    let a := Access.touch (p.addr.toNat + i) ((p.byte i).setWidth 32)
    (slaveByte p sb i).memExpected = FilledMemory.apply sb.memExpected a ∧
      (slaveByte p sb i).mismatches =
        sb.mismatches ++ (FilledMemory.conflict sb.memExpected a).toList.map mismatch := by
  cases hm : sb.memExpected (p.addr.toNat + i) with
  | none => simp [slaveByte, hr, hm, FilledMemory.apply, FilledMemory.conflict]
  | some e =>
    by_cases he : e = (p.byte i).setWidth 32
    · simp [slaveByte, hr, hm, he, FilledMemory.apply, FilledMemory.conflict]
    · simp [slaveByte, hr, hm, he, FilledMemory.apply, FilledMemory.conflict, mismatch]

theorem foldl_slaveByte {p : Packet} (hr : p.read = true) (sb : UbusScoreboard) (n : Nat) :
    let as := touches p.byteAt ((List.range n).map (p.addr.toNat + ·))
    ((List.range n).foldl (slaveByte p) sb).memExpected = replay sb.memExpected as ∧
      ((List.range n).foldl (slaveByte p) sb).mismatches =
        sb.mismatches ++ (conflicts sb.memExpected as).map mismatch := by
  induction n with
  | zero => simp [touches, conflicts]
  | succ n ih =>
    obtain ⟨hmem, hmis⟩ := ih
    have has : touches p.byteAt ((List.range (n + 1)).map (p.addr.toNat + ·)) =
        touches p.byteAt ((List.range n).map (p.addr.toNat + ·)) ++
          [.touch (p.addr.toNat + n) ((p.byte n).setWidth 32)] := by
      simp [touches, List.range_succ]
    obtain ⟨hmem', hmis'⟩ := slaveByte_touch hr ((List.range n).foldl (slaveByte p) sb) n
    rw [has, List.range_succ, List.foldl_append, List.foldl_cons, List.foldl_nil, hmem', hmis',
      hmem, hmis]
    dsimp only
    rw [FilledMemory.conflicts_append, FilledMemory.replay_append]
    simp [conflicts]

theorem foldl_masterByte {p : Packet} (hw : p.write = true) (sb : UbusScoreboard) (n : Nat) :
    ((List.range n).foldl (masterByte p) sb).memExpected =
        replay sb.memExpected (writes p.byteAt ((List.range n).map (p.addr.toNat + ·))) ∧
      ((List.range n).foldl (masterByte p) sb).mismatches = sb.mismatches := by
  induction n with
  | zero => exact ⟨rfl, rfl⟩
  | succ n ih =>
    obtain ⟨hmem, hmis⟩ := ih
    rw [List.range_succ, List.foldl_append, List.foldl_cons, List.foldl_nil]
    simp only [masterByte, hw, if_true, hmem, hmis, and_true]
    simp [writes, FilledMemory.apply]

def Call.accesses : Call → List (Access Nat Word)
  | .writeMaster p => if p.write then writes p.byteAt p.span else []
  | .writeSlave p => if p.read then touches p.byteAt p.span else []

theorem call_spec (sb : UbusScoreboard) (c : Call) :
    (sb.call c).memExpected = replay sb.memExpected c.accesses ∧
      (sb.call c).mismatches =
        sb.mismatches ++ (conflicts sb.memExpected c.accesses).map mismatch := by
  cases c with
  | writeMaster p =>
    cases hw : p.write with
    | true =>
      simp only [call, Call.accesses, hw, if_true, FilledMemory.conflicts_writes, List.map_nil,
        List.append_nil]
      exact foldl_masterByte hw sb p.size
    | false => simp [call, Call.accesses, hw, writeMaster_read, conflicts]
  | writeSlave p =>
    cases hr : p.read with
    | true =>
      simp only [call, Call.accesses, hr, if_true]
      exact foldl_slaveByte hr sb p.size
    | false => simp [call, Call.accesses, hr, writeSlave_write, conflicts]

theorem calls_concat (cs : List Call) (c : Call) : calls (cs ++ [c]) = (calls cs).call c :=
  List.foldl_concat ..

theorem calls_spec (cs : List Call) :
    (calls cs).memExpected = replay FilledMemory.empty (cs.flatMap Call.accesses) ∧
      (calls cs).mismatches =
        (conflicts FilledMemory.empty (cs.flatMap Call.accesses)).map mismatch := by
  induction cs using List.reverseRecOn with
  | nil => exact ⟨rfl, rfl⟩
  | append_singleton cs c ih =>
    obtain ⟨hmem, hmis⟩ := ih
    obtain ⟨hmem', hmis'⟩ := (calls cs).call_spec c
    rw [calls_concat, hmem', hmis', hmem, hmis, List.flatMap_append, List.flatMap_singleton,
      FilledMemory.replay_append, FilledMemory.conflicts_append, List.map_append]
    exact ⟨rfl, rfl⟩

theorem report_accesses {p : Packet} (hd : p.write = !p.read) :
    (Call.writeMaster p).accesses ++ (Call.writeSlave p).accesses = p.accesses := by
  simp only [Call.accesses, Packet.accesses, hd]
  cases p.read with
  | true => rfl
  | false => exact List.append_nil _

theorem report_spec {p : Packet} (hd : p.write = !p.read) (sb : UbusScoreboard) :
    ((sb.writeMaster p).writeSlave p).memExpected = replay sb.memExpected p.accesses ∧
      ((sb.writeMaster p).writeSlave p).mismatches =
        sb.mismatches ++ (conflicts sb.memExpected p.accesses).map mismatch := by
  obtain ⟨hmem, hmis⟩ := sb.call_spec (.writeMaster p)
  obtain ⟨hmem', hmis'⟩ := (sb.writeMaster p).call_spec (.writeSlave p)
  rw [← report_accesses hd, FilledMemory.replay_append, FilledMemory.conflicts_append,
    List.map_append, ← List.append_assoc, ← hmis, ← hmem]
  exact ⟨hmem', hmis'⟩

end UbusScoreboard

end UbusVip
