import UbusVip.ClosureTest
import UbusVip.CommonVip.CoverageSeq
import UbusVip.Exchange
import UbusVip.MasterTest

namespace UbusVip

open Interaction (Prog)

theorem satisfiable_writeByte {c : Packet → Prop} {a : Nat}
    (hc : c { Packet.create with addr := .ofNat 16 a, write := true, size := 1, data := [0] }) :
    Satisfiable c :=
  ⟨_, ⟨rfl, by simp, rfl⟩, fun h => absurd h.2 (by simp), hc⟩

theorem satisfiable_readByte {c : Packet → Prop} {a : Nat}
    (hc : c { Packet.create with addr := .ofNat 16 a, read := true, size := 1, data := [0] }) :
    Satisfiable c :=
  ⟨_, ⟨rfl, by simp, rfl⟩, fun h => absurd h.2 (by simp), hc⟩

namespace MasterSeq

variable {r : Randomizer}

instance (i : Nat) (read : Bool) (req : Packet) : Decidable (inRegion i read req) := by
  unfold inRegion; infer_instance

theorem satisfiable_inRegion {i : Nat} (hi : i < 6) (read : Bool) : Satisfiable (inRegion i read) := by
  have hall : ∀ j : Fin 6, ∀ read, inRegion j read
      (UbusTargetAddrDirSeqf.halfWord (.target j (if read then 1 else 0))) := by decide
  let sol := UbusTargetAddrDirSeqf.halfWords 0 (.target ⟨i, hi⟩ (if read then 1 else 0))
  exact ⟨sol.packet, sol.legal, sol.legality, hall ⟨i, hi⟩ read⟩

theorem legal_readWord (i : Nat) : (readWord i).Legal := ⟨rfl, by simp [readWord], rfl⟩

theorem legal_readOf {req : Packet} (h : req.Legal) : (readOf req).Legal :=
  ⟨rfl, h.cSize, List.length_replicate⟩

theorem satisfiable_true : Satisfiable fun _ => True :=
  ⟨readWord 0, legal_readWord 0, by decide, trivial⟩

theorem waits_edges (n : Nat) : Waits (client r) (.edges n) := fun _ => ⟨id, id⟩

theorem waits_randomize : Waits (client r) .randomize := fun _ => ⟨id, id⟩

theorem takes_getResponse : Takes (client r) .getResponse := fun _ => trivial

theorem sends_doWith {c : Packet → Prop} (hc : Satisfiable c) : Sends (client r) (.doWith c) := by
  intro desk
  rw [client, issue_of_legal (r.sound desk.sent c hc).1]
  trivial

theorem sends_finishItem {req : Packet} (h : req.Legal) : Sends (client r) (.finishItem req) := by
  intro desk
  rw [client, issue_of_legal h]
  trivial

theorem neverTakes_doWith {c : Packet → Prop} (hc : Satisfiable c) :
    NeverTakes (client r) (.doWith c) := by
  intro desk
  rw [client, issue_of_legal (r.sound desk.sent c hc).1]
  exact id

theorem paired_doWith {c : Packet → Prop} (hc : Satisfiable c) :
    Paired (client r) (do doWith c; let _ ← getResponse : Seq Unit) :=
  .exchange (sends_doWith hc) takes_getResponse fun _ _ _ _ _ _ => .ret _

theorem paired_finishItem {req : Packet} (h : req.Legal) (n : Nat) :
    Paired (client r) (do finishItem req; let _ ← getResponse; edges n : Seq Unit) :=
  .exchange (sends_finishItem h) takes_getResponse fun _ _ _ _ _ _ =>
    .alone (waits_edges n) fun _ _ _ => .ret _

theorem paired_readWord (n : Nat) : Paired (client r) (ubusMasterReadWordSeq n) :=
  .forM fun i _ => paired_finishItem (legal_readWord i) _

theorem paired_readRandomSize (n : Nat) : Paired (client r) (ubusMasterReadRandomSizeSeq n) := by
  refine .forM fun _ _ => .alone waits_randomize fun desk req hreq => ?_
  have hlegal : req.Legal := by
    rw [show req = r.solve desk.sent fun _ => True from hreq]
    exact (r.sound desk.sent _ satisfiable_true).1
  exact paired_finishItem (legal_readOf hlegal) _

theorem paired_writeRandomSize (n : Nat) : Paired (client r) (ubusMasterWriteRandomSizeSeq n) :=
  .forM fun _ _ => paired_doWith (satisfiable_writeByte (a := 0) (by decide))

theorem paired_transact {i : Nat} (hi : i < 6) (read : Bool) : Paired (client r) (transact i read) :=
  paired_doWith (satisfiable_inRegion hi read)

theorem paired_targetAddrDir (n : Nat) : Paired (client r) (ubusTargetAddrDirSeq n) := by
  have hsweep (read : Bool) :
      Paired (client r) ((List.range n).forM fun _ => [0, 1, 2, 4, 5].forM (transact · read)) :=
    .forM fun _ _ => .forM fun i hi => paired_transact (by revert i; decide) read
  have hthree (read : Bool) : Paired (client r) ((List.range n).forM fun _ => transact 3 read) :=
    .forM fun _ _ => paired_transact (by decide) read
  exact (hsweep false).bind fun _ => (hthree false).bind fun _ =>
    (hsweep true).bind fun _ => hthree true

theorem paired_targetRegion {i : Nat} (hi : i < 6) (n : Nat) : Paired (client r) (targetRegion i n) :=
  (Exchanges.forM fun _ _ => paired_transact hi false).bind fun _ =>
    .forM fun _ _ => paired_transact hi true

theorem paired_targetSeqs (n : Nat) : Paired (client r) (targetSeqs n) :=
  Exchanges.forM (f := fun i => targetRegion i n) (l := List.range 6)
    fun _ hi => paired_targetRegion (List.mem_range.mp hi) n

theorem paired_readRange {c : Packet → Prop} (hc : Satisfiable c) (n : Nat) :
    Paired (client r) (readRange c n) := .forM fun _ _ => paired_doWith hc

theorem fed_doWith {c : Packet → Prop} (hc : Satisfiable c) : Fed (client r) (doWith c) :=
  .alone (neverTakes_doWith hc) fun _ _ _ => .ret _

end MasterSeq

namespace UbusTargetAddrDirSeqf

variable {solver : Solver}

theorem paired_tryBin (i : Fin 6) (dir : Fin 2) (allCovered : Bool) (s : Nat) :
    Paired (client solver) (tryBin i dir allCovered s) := by
  refine .alone (fun _ => ⟨id, id⟩) fun desk covered _ => ?_
  cases covered with
  | true => exact .ret _
  | false => exact .exchange (fun _ => trivial) (fun _ => trivial) fun _ _ _ _ _ _ => .ret _

theorem paired_onePass : Paired (client solver) onePass :=
  .foldlM (fun _ i => .foldlM (fun _ dir => .foldlM (paired_tryBin i dir) _ _) _ _) _ _

theorem paired_attempts (left maxAttempts : Nat) (allCovered : Bool) :
    Paired (client solver) (attempts left maxAttempts allCovered) := by
  induction left generalizing maxAttempts allCovered with
  | zero => exact .ret _
  | succ left ih =>
    refine paired_onePass.bind fun covered => ?_
    cases covered with
    | true => exact .ret _
    | false => exact ih _ _

theorem paired_body (nRepeat : Nat) : Paired (client solver) (body nRepeat true) := by
  refine (paired_attempts 100 0 false).bind fun out => ?_
  obtain ⟨maxAttempts, allCovered⟩ := out
  dsimp only
  split
  · exact .alone (fun _ => ⟨id, id⟩) fun _ _ _ => .ret _
  · exact .ret _

end UbusTargetAddrDirSeqf

namespace UbusVirtualSequence

variable {solver : UbusTargetAddrDirSeqf.Solver} {α : Type}

theorem paired_inl {p : Prog UbusTargetAddrDirSeqf.Op UbusTargetAddrDirSeqf.Res α}
    (h : Paired (UbusTargetAddrDirSeqf.client solver) p) : Paired (client solver) p.inl := by
  induction h with
  | ret a => exact .ret a
  | alone hop _ ih => exact .alone hop ih
  | exchange hop hop' _ ih => exact .exchange hop hop' ih

theorem paired_body (nRepeat : Nat) : Paired (client solver) (body nRepeat) :=
  (paired_inl (UbusTargetAddrDirSeqf.paired_body nRepeat)).bind fun _ =>
    .alone (fun _ => ⟨id, id⟩) fun _ _ _ => .ret _

end UbusVirtualSequence

end UbusVip
