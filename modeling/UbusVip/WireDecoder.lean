import UbusVip.CommonVip.UbusIf

namespace UbusVip

open FourState

structure WireTransfer where
  addr : LogicVec 16
  read : Bool
  data : List (LogicVec 8)
deriving DecidableEq, Repr

structure WireDecoder where
  closed : List WireTransfer
  current : Option (WireTransfer × Nat)
deriving DecidableEq, Repr

namespace WireDecoder

def init : WireDecoder := ⟨[], none⟩

def openTransfer (d : WireDecoder) (b : Bus) : Option WireDecoder :=
  if b.ubusRead = .one ∧ b.ubusWrite = .one ∨ b.ubusWait = .zero then none
  else some { d with
    current := some (⟨b.ubusAddr, b.ubusRead.toBool, []⟩, 2 ^ b.ubusSize.toBits.toNat) }

def takeByte (d : WireDecoder) (t : WireTransfer) (n : Nat) (b : Bus) : Option WireDecoder :=
  let t := { t with data := t.data ++ [b.ubusData] }
  if t.data.length < n then
    if b.ubusBip = .one then some { d with current := some (t, n) } else none
  else if b.ubusBip = .zero then some ⟨d.closed ++ [t], none⟩
  else none

-- none is a breach of the protocol: a byte outside a transfer, a command inside one, a wrong bip
def sample (d : WireDecoder) (b : Bus) : Option WireDecoder :=
  match d.current with
  | none =>
    if b.command then openTransfer d b
    else if b.ubusWait = .zero then none
    else some d
  | some (t, n) =>
    if b.command then none
    else if b.ubusWait = .zero then takeByte d t n b
    else some d

def decode (bs : List Bus) : Option WireDecoder := bs.foldlM sample init

theorem decode_concat (bs : List Bus) (b : Bus) :
    decode (bs ++ [b]) = (decode bs).bind (sample · b) := by
  simp [decode, List.foldlM_append]

end WireDecoder

end UbusVip
