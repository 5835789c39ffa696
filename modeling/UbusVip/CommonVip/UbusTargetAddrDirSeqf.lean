import UbusVip.CommonVip.Packet
import UbusVip.Library.Interaction

namespace UbusVip.UbusTargetAddrDirSeqf

open Interaction (Prog)

structure AddrMap where
  startAddr : Nat
  endAddr : Nat
deriving DecidableEq, Repr

def addrMaps (i : Fin 6) : AddrMap :=
  match i with
  | 0 => ⟨0, 4095⟩
  | 1 => ⟨4096, 10239⟩
  | 2 => ⟨10240, 16383⟩
  | 3 => ⟨16384, 20479⟩
  | 4 => ⟨20480, 40959⟩
  | 5 => ⟨40960, 65535⟩

def sizeArray (i : Fin 6) : List Nat := if i = 3 then [1, 2, 4] else [1, 2, 4, 8]

inductive Inline where
  | target (i : Fin 6) (dir : Fin 2)
  | blind
deriving DecidableEq, Repr

def Inline.Allows : Inline → Packet → Prop
  | .target i dir, req =>
    ((addrMaps i).startAddr ≤ req.addr.toNat ∧ req.addr.toNat ≤ (addrMaps i).endAddr) ∧
      req.read = decide (dir = 1) ∧ req.write = decide (dir = 0) ∧ req.size ∈ sizeArray i
  | .blind, req => req.size ∈ [1, 2, 4, 8] ∧ (0 ≤ req.addr.toNat ∧ req.addr.toNat ≤ 65535)

instance (c : Inline) (req : Packet) : Decidable (c.Allows req) := by
  cases c <;> (unfold Inline.Allows; infer_instance)

-- what the solver may return: the class constraints and the inline ones hold together
structure Solution (c : Inline) where
  packet : Packet
  legal : packet.Legal
  legality : packet.globalLegality
  allows : c.Allows packet

abbrev Solver := Nat → (c : Inline) → Solution c

inductive Warning where
  | nullHandle
  | maxAttempts
deriving DecidableEq, Repr

inductive Op where
  | isCovered (a d s : Nat)
  | doWith (c : Inline)
  | getResponse
  | warning (w : Warning)
deriving DecidableEq, Repr

def Res : Op → Type
  | .isCovered _ _ _ => Bool
  | .doWith _ => Unit
  | .getResponse => Packet
  | .warning _ => Unit

abbrev Seq := Prog Op Res

def isCovered (a d s : Nat) : Seq Bool := Prog.perform (Op.isCovered a d s)

def doWith (c : Inline) : Seq Unit := Prog.perform (Op.doWith c)

def getResponse : Seq Packet := Prog.perform Op.getResponse

def warning (w : Warning) : Seq Unit := Prog.perform (Op.warning w)

def doTransaction (i : Fin 6) (dir : Fin 2) : Seq Unit := do
  doWith (.target i dir)
  let _ ← getResponse

def tryBin (i : Fin 6) (dir : Fin 2) (allCovered : Bool) (s : Nat) : Seq Bool := do
  let covered ← isCovered i dir s
  if covered then return allCovered
  doTransaction i dir
  return false

def onePass : Seq Bool :=
  (List.finRange 6).foldlM (fun allCovered i =>
    (List.finRange 2).foldlM (fun allCovered dir =>
      (List.range (sizeArray i).length).foldlM (tryBin i dir) allCovered) allCovered) true

-- the loop over max_attempts: its break leaves max_attempts and all_covered as they are
def attempts : Nat → Nat → Bool → Seq (Nat × Bool)
  | 0, maxAttempts, allCovered => return (maxAttempts, allCovered)
  | left + 1, maxAttempts, _ => do
    let allCovered ← onePass
    if allCovered then return (maxAttempts, allCovered)
    attempts left (maxAttempts + 1) allCovered

def body (nRepeat : Nat) (cov : Bool) : Seq Unit := do
  if cov then
    let (maxAttempts, allCovered) ← attempts 100 0 false
    if maxAttempts = 100 ∧ allCovered = false then warning .maxAttempts
  else
    warning .nullHandle
    (List.range nRepeat).forM fun _ => doWith .blind

def halfWord : Inline → Packet
  | .target i dir =>
    { Packet.create with
      addr := .ofNat 16 (addrMaps i).startAddr
      read := decide (dir = 1)
      write := decide (dir = 0)
      size := 2
      data := [0, 0] }
  | .blind => { Packet.create with write := true, size := 2, data := [0, 0] }

def halfWords : Solver := fun _ c =>
  { packet := halfWord c
    legal := by
      cases c with
      | target i dir => revert i dir; decide
      | blind => decide
    legality := by
      cases c with
      | target i dir => revert i dir; decide
      | blind => decide
    allows := by
      cases c with
      | target i dir => revert i dir; decide
      | blind => decide }

end UbusVip.UbusTargetAddrDirSeqf
