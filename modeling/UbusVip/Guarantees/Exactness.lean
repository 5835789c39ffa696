import UbusVip.CommonVip.UbusScoreboard

namespace UbusVip.UbusScoreboard

open FilledMemory (replay touches conflicts reference)

namespace Call

def stored (a : Nat) : Call → Option Word
  | .writeMaster p => if p.write ∧ a ∈ p.span then some (p.byteAt a) else none
  | .writeSlave _ => none

def loaded (a : Nat) : Call → Option Word
  | .writeMaster _ => none
  | .writeSlave p => if p.read ∧ a ∈ p.span then some (p.byteAt a) else none

theorem lastWrite_accesses (c : Call) (a : Nat) :
    FilledMemory.lastWrite c.accesses a = c.stored a := by
  cases c with
  | writeMaster p =>
    cases hw : p.write with
    | true => simp [accesses, stored, hw, FilledMemory.lastWrite_writes]
    | false => simp [accesses, stored, hw, FilledMemory.lastWrite]
  | writeSlave p =>
    cases hr : p.read with
    | true => simp [accesses, stored, hr, FilledMemory.lastWrite_touches]
    | false => simp [accesses, stored, hr, FilledMemory.lastWrite]

theorem firstTouch_accesses (c : Call) (a : Nat) :
    FilledMemory.firstTouch c.accesses a = c.loaded a := by
  cases c with
  | writeMaster p =>
    cases hw : p.write with
    | true => simp [accesses, loaded, hw, FilledMemory.firstTouch_writes]
    | false => simp [accesses, loaded, hw, FilledMemory.firstTouch]
  | writeSlave p =>
    cases hr : p.read with
    | true => simp [accesses, loaded, hr, FilledMemory.firstTouch_touches]
    | false => simp [accesses, loaded, hr, FilledMemory.firstTouch]

end Call

def expected (cs : List Call) (a : Nat) : Option Word :=
  (cs.reverse.findSome? (Call.stored a)).or (cs.findSome? (Call.loaded a))

theorem reference_calls (cs : List Call) (a : Nat) :
    reference (cs.flatMap Call.accesses) a = expected cs a := by
  simp only [reference, expected, FilledMemory.lastWrite_flatMap, FilledMemory.firstTouch_flatMap,
    Call.lastWrite_accesses, Call.firstTouch_accesses]

theorem calls_memExpected (cs : List Call) (a : Nat) : (calls cs).memExpected a = expected cs a := by
  rw [(calls_spec cs).1, FilledMemory.replay_eq_reference, reference_calls]

def firstBytes (p : Packet) (i : Nat) : Packet := { p with size := i }

def byteMismatch (pre : List Call) (p : Packet) (i : Nat) : Option Mismatch :=
  let addr := p.addr.toNat + i
  let data : Word := (p.byte i).setWidth 32
  match expected (pre ++ [.writeSlave (firstBytes p i)]) addr with
  | some e => if e = data then none else some ⟨addr, e, data⟩
  | none => none

def callMismatches (pre : List Call) : Call → List Mismatch
  | .writeMaster _ => []
  | .writeSlave p => if p.read then (List.range p.size).filterMap (byteMismatch pre p) else []

def mismatchesFrom (pre : List Call) : List Call → List Mismatch
  | [] => []
  | c :: cs => callMismatches pre c ++ mismatchesFrom (pre ++ [c]) cs

theorem mismatchesFrom_concat (pre cs : List Call) (c : Call) :
    mismatchesFrom pre (cs ++ [c]) = mismatchesFrom pre cs ++ callMismatches (pre ++ cs) c := by
  induction cs generalizing pre with
  | nil => simp [mismatchesFrom]
  | cons d cs ih => simp [mismatchesFrom, ih]

theorem touch_mismatch (pre : List Call) {p : Packet} (hr : p.read = true) (i : Nat) :
    (FilledMemory.conflict
      (replay (calls pre).memExpected (touches p.byteAt ((List.range i).map (p.addr.toNat + ·))))
      (.touch (p.addr.toNat + i) (p.byteAt (p.addr.toNat + i)))).map mismatch =
      byteMismatch pre p i := by
  have hfirst : (Call.writeSlave (firstBytes p i)).accesses =
      touches p.byteAt ((List.range i).map (p.addr.toNat + ·)) := if_pos hr
  have hmem : replay (calls pre).memExpected
      (touches p.byteAt ((List.range i).map (p.addr.toNat + ·))) (p.addr.toNat + i) =
      expected (pre ++ [.writeSlave (firstBytes p i)]) (p.addr.toNat + i) := by
    rw [← hfirst, ← ((calls pre).call_spec _).1, ← calls_concat, calls_memExpected]
  simp only [FilledMemory.conflict, byteMismatch, hmem, p.byteAt_add]
  cases expected (pre ++ [.writeSlave (firstBytes p i)]) (p.addr.toNat + i) with
  | none => rfl
  | some e => by_cases he : e = (p.byte i).setWidth 32 <;> simp [he, mismatch]

theorem conflicts_call (pre : List Call) (c : Call) :
    (conflicts (calls pre).memExpected c.accesses).map mismatch = callMismatches pre c := by
  cases c with
  | writeMaster p =>
    cases hw : p.write with
    | true => simp [Call.accesses, hw, FilledMemory.conflicts_writes, callMismatches]
    | false => simp [Call.accesses, hw, conflicts, callMismatches]
  | writeSlave p =>
    cases hr : p.read with
    | true =>
      have hspan : (Call.writeSlave p).accesses = (List.range p.size).map fun i =>
          .touch (p.addr.toNat + i) (p.byteAt (p.addr.toNat + i)) := by
        simp [Call.accesses, hr, touches, Packet.span]
      have htouch (i : Nat) : ((List.range i).map fun i =>
          FilledMemory.Access.touch (p.addr.toNat + i) (p.byteAt (p.addr.toNat + i))) =
          touches p.byteAt ((List.range i).map (p.addr.toNat + ·)) := by
        simp [touches]
      rw [hspan, FilledMemory.conflicts_range, List.map_filterMap, callMismatches, if_pos hr]
      simp only [htouch, touch_mismatch pre hr]
    | false => simp [Call.accesses, hr, conflicts, callMismatches]

theorem calls_exact (cs : List Call) :
    (∀ a, (calls cs).memExpected a = expected cs a) ∧
      (calls cs).mismatches = mismatchesFrom [] cs := by
  refine ⟨calls_memExpected cs, ?_⟩
  induction cs using List.reverseRecOn with
  | nil => rfl
  | append_singleton cs c ih =>
    rw [calls_concat, ((calls cs).call_spec c).2, ih, conflicts_call, mismatchesFrom_concat]
    rfl

end UbusVip.UbusScoreboard
