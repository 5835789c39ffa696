import UbusVip.Library.Mailbox
import UbusVip.MasterVip.MasterSeq
import UbusVip.Sequencer

namespace UbusVip

open Interaction (Prog)
open Mailbox (Balanced NoneDropped Puts)

namespace MasterSeq

def kind : Op → Mailbox.Kind
  | .doWith _ => .put
  | .finishItem _ => .put
  | .getResponse => .take
  | .randomize => .other
  | .edges _ => .other

variable {E : Type} {h : (op : Op) → E → Res op × E}

theorem balanced_readWord (nRepeat : Nat) :
    Balanced responseDepth kind h (ubusMasterReadWordSeq nRepeat) :=
  .forM (fun _ => .exchange (by decide) rfl rfl fun _ _ => .other rfl .ret) _

theorem balanced_writeRandomSize (nRepeat : Nat) :
    Balanced responseDepth kind h (ubusMasterWriteRandomSizeSeq nRepeat) :=
  .forM (fun _ => .exchange (by decide) rfl rfl fun _ _ => .ret _) _

theorem balanced_readRandomSize (nRepeat : Nat) :
    Balanced responseDepth kind h (ubusMasterReadRandomSizeSeq nRepeat) :=
  .forM (fun _ => .other rfl fun _ =>
    .exchange (by decide) rfl rfl fun _ _ => .other rfl .ret) _

theorem balanced_transact (i : Nat) (read : Bool) :
    Balanced responseDepth kind h (transact i read) :=
  .exchange (by decide) rfl rfl fun _ _ => .ret _

theorem balanced_targetAddrDir (nRepeat : Nat) :
    Balanced responseDepth kind h (ubusTargetAddrDirSeq nRepeat) := by
  have hregion (read : Bool) : Balanced responseDepth kind h ([0, 1, 2, 4, 5].forM (transact · read)) :=
    .forM (fun i => balanced_transact i read) _
  exact (Balanced.forM (fun _ => hregion false) _).bind fun _ =>
    (Balanced.forM (fun _ => balanced_transact 3 false) _).bind fun _ =>
      (Balanced.forM (fun _ => hregion true) _).bind fun _ =>
        .forM (fun _ => balanced_transact 3 true) _

theorem puts_doWith (c : Nat → Packet → Prop) : Puts kind fun i => doWith (c i) :=
  fun _ => ⟨_, rfl, rfl⟩

theorem noneDropped_writeWord (nRepeat : Nat) (e : E) :
    NoneDropped responseDepth kind h (ubusMasterWriteWordSeq nRepeat) e ↔ nRepeat ≤ 8 := by
  rw [ubusMasterWriteWordSeq, Mailbox.noneDropped_bind fun _ _ _ => rfl,
    Mailbox.noneDropped_puts_iff (puts_doWith _), List.length_range, responseDepth]

end MasterSeq

namespace UbusTargetAddrDirSeqf

def kind : Op → Mailbox.Kind
  | .doWith _ => .put
  | .getResponse => .take
  | .isCovered _ _ _ => .other
  | .warning _ => .other

variable {E : Type} {h : (op : Op) → E → Res op × E}

theorem balanced_tryBin (i : Fin 6) (dir : Fin 2) (allCovered : Bool) (s : Nat) :
    Balanced responseDepth kind h (tryBin i dir allCovered s) := by
  refine .other rfl fun covered => ?_
  cases covered with
  | true => exact .ret _
  | false => exact .exchange (by decide) rfl rfl fun _ _ => .ret _

theorem balanced_onePass : Balanced responseDepth kind h onePass :=
  .foldlM (fun _ i => .foldlM (fun _ dir => .foldlM (balanced_tryBin i dir) _ _) _ _) _ _

theorem balanced_attempts (left maxAttempts : Nat) (allCovered : Bool) :
    Balanced responseDepth kind h (attempts left maxAttempts allCovered) := by
  induction left generalizing maxAttempts allCovered with
  | zero => exact .ret _
  | succ left ih =>
    refine balanced_onePass.bind fun covered => ?_
    cases covered with
    | true => exact .ret _
    | false => exact ih _ _

theorem balanced_body (nRepeat : Nat) : Balanced responseDepth kind h (body nRepeat true) := by
  refine (balanced_attempts 100 0 false).bind fun out => ?_
  obtain ⟨maxAttempts, allCovered⟩ := out
  dsimp only
  split
  · exact .other rfl .ret
  · exact .ret _

theorem noneDropped_blind (nRepeat : Nat) (e : E) :
    NoneDropped responseDepth kind h (body nRepeat false) e ↔ nRepeat ≤ 8 := by
  refine (Mailbox.noneDropped_other rfl e).trans ?_
  refine (Mailbox.noneDropped_puts_iff (fun _ => ⟨_, rfl, rfl⟩) _ _).trans ?_
  rw [List.length_range, responseDepth]

end UbusTargetAddrDirSeqf

section Responses

variable {E E' : Type}
  (h : (op : MasterSeq.Op) → E → MasterSeq.Res op × E) (e : E)
  (h' : (op : UbusTargetAddrDirSeqf.Op) → E' → UbusTargetAddrDirSeqf.Res op × E') (e' : E')

theorem responses_kept_iff (nRepeat : Nat) :
    (NoneDropped responseDepth MasterSeq.kind h (MasterSeq.ubusMasterWriteWordSeq nRepeat) e ↔
        nRepeat ≤ 8) ∧
      NoneDropped responseDepth MasterSeq.kind h (MasterSeq.ubusMasterReadWordSeq nRepeat) e ∧
      NoneDropped responseDepth MasterSeq.kind h
        (MasterSeq.ubusMasterWriteRandomSizeSeq nRepeat) e ∧
      NoneDropped responseDepth MasterSeq.kind h
        (MasterSeq.ubusMasterReadRandomSizeSeq nRepeat) e ∧
      NoneDropped responseDepth MasterSeq.kind h (MasterSeq.ubusTargetAddrDirSeq nRepeat) e ∧
      NoneDropped responseDepth UbusTargetAddrDirSeqf.kind h'
        (UbusTargetAddrDirSeqf.body nRepeat true) e' ∧
      (NoneDropped responseDepth UbusTargetAddrDirSeqf.kind h'
        (UbusTargetAddrDirSeqf.body nRepeat false) e' ↔ nRepeat ≤ 8) := by
  have hdepth : 0 < responseDepth := by decide
  exact ⟨MasterSeq.noneDropped_writeWord nRepeat e,
    (MasterSeq.balanced_readWord nRepeat).noneDropped hdepth e,
    (MasterSeq.balanced_writeRandomSize nRepeat).noneDropped hdepth e,
    (MasterSeq.balanced_readRandomSize nRepeat).noneDropped hdepth e,
    (MasterSeq.balanced_targetAddrDir nRepeat).noneDropped hdepth e,
    (UbusTargetAddrDirSeqf.balanced_body nRepeat).noneDropped hdepth e',
    UbusTargetAddrDirSeqf.noneDropped_blind nRepeat e'⟩

end Responses

def MasterSeq.blankAnswer : (op : MasterSeq.Op) → Unit → MasterSeq.Res op × Unit
  | .doWith _, e => ((), e)
  | .randomize, e => (.create, e)
  | .finishItem _, e => ((), e)
  | .getResponse, e => (.create, e)
  | .edges _, e => ((), e)

theorem writeWord_drops :
    (Mailbox.runBox responseDepth MasterSeq.kind MasterSeq.blankAnswer
        (MasterSeq.ubusMasterWriteWordSeq 9) () .empty).arrivals = List.range 9 ∧
      ¬NoneDropped responseDepth MasterSeq.kind MasterSeq.blankAnswer
        (MasterSeq.ubusMasterWriteWordSeq 9) () := by
  have harrivals : (Mailbox.runBox responseDepth MasterSeq.kind MasterSeq.blankAnswer
      (MasterSeq.ubusMasterWriteWordSeq 9) () .empty).arrivals = List.range 9 := by decide
  refine ⟨harrivals, ?_⟩
  intro hkept
  rw [NoneDropped, harrivals] at hkept
  exact absurd (hkept 8 (by decide)) (by decide)

end UbusVip
