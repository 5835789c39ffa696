import UbusVip.CommonVip.Packet

namespace UbusVip.CovTrans

structure ValueRange where
  first : Nat
  last : Nat
deriving DecidableEq, Repr

namespace ValueRange

def Contains (r : ValueRange) (v : Nat) : Prop := r.first ≤ v ∧ v ≤ r.last

def Intersects (r r' : ValueRange) : Prop := r.first ≤ r'.last ∧ r'.first ≤ r.last

instance (r : ValueRange) (v : Nat) : Decidable (r.Contains v) := inferInstanceAs (Decidable (_ ∧ _))

instance (r r' : ValueRange) : Decidable (r.Intersects r') := inferInstanceAs (Decidable (_ ∧ _))

end ValueRange

inductive TransAddr where
  | configRegs
  | internalSramLow
  | internalSramHigh
  | peripheralRegs
  | externalCodeFlash
  | externalDataDdr
deriving DecidableEq, Repr

def TransAddr.values : TransAddr → ValueRange
  | configRegs => ⟨0, 4095⟩
  | internalSramLow => ⟨4096, 10239⟩
  | internalSramHigh => ⟨10240, 16383⟩
  | peripheralRegs => ⟨16384, 20479⟩
  | externalCodeFlash => ⟨20480, 40959⟩
  | externalDataDdr => ⟨40960, 65535⟩

inductive TransDir where
  | read
  | write
deriving DecidableEq, Repr

def TransDir.value : TransDir → Bool
  | read => true
  | write => false

inductive TransSize where
  | sizes (v : Fin 4)
deriving DecidableEq, Repr

def TransSize.value : TransSize → Nat
  | sizes v => [1, 2, 4, 8].get v

structure CrossBin where
  addr : TransAddr
  dir : TransDir
  size : TransSize
deriving DecidableEq, Repr

namespace CrossBin

def Hit (b : CrossBin) (trans : Packet) : Prop :=
  b.addr.values.Contains trans.addr.toNat ∧ trans.read = b.dir.value ∧ trans.size = b.size.value

def IgnSize8Addr (b : CrossBin) : Prop :=
  b.addr.values.Intersects ⟨16384, 20479⟩ ∧ b.size.value = 8

instance (b : CrossBin) (trans : Packet) : Decidable (b.Hit trans) :=
  inferInstanceAs (Decidable (_ ∧ _))

instance (b : CrossBin) : Decidable b.IgnSize8Addr := inferInstanceAs (Decidable (_ ∧ _))

end CrossBin

end UbusVip.CovTrans
