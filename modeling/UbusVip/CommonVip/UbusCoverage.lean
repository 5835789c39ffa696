import UbusVip.CommonVip.Packet

namespace UbusVip

abbrev CoveredBins := Nat → Nat → Nat → Bool

structure Bin where
  addr : Nat
  dir : Nat
  size : Nat
deriving DecidableEq, Repr

namespace UbusCoverage

def init : CoveredBins := fun _ _ _ => false

def addrToIndex (addr : Nat) : Nat :=
  if addr ≤ 4095 then 0
  else if addr ≤ 10239 then 1
  else if addr ≤ 16383 then 2
  else if addr ≤ 20479 then 3
  else if addr ≤ 40959 then 4
  else 5

def sizeToIndex (size : Nat) : Nat :=
  match size with
  | 1 => 0
  | 2 => 1
  | 4 => 2
  | 8 => 3
  | _ => 0

def dirToIndex (read : Bool) : Nat := if read then 1 else 0

def write (covered : CoveredBins) (t : Packet) : CoveredBins :=
  let a := addrToIndex t.addr.toNat
  let d := dirToIndex t.read
  let s := sizeToIndex t.size
  if a = 3 ∧ s = 3 then covered
  else fun a' d' s' => if a' = a ∧ d' = d ∧ s' = s then true else covered a' d' s'

def isCovered (covered : CoveredBins) (a d s : Nat) : Bool :=
  if a = 3 ∧ s = 3 then true else covered a d s

def binOf (t : Packet) : Bin := ⟨addrToIndex t.addr.toNat, dirToIndex t.read, sizeToIndex t.size⟩

theorem isCovered_write (covered : CoveredBins) (t : Packet) (a d s : Nat) :
    isCovered (write covered t) a d s = true ↔
      isCovered covered a d s = true ∨ binOf t = ⟨a, d, s⟩ := by
  by_cases hign : a = 3 ∧ s = 3
  · simp [isCovered, hign]
  · have hread (c : CoveredBins) : isCovered c a d s = c a d s := if_neg hign
    rw [hread, hread]
    by_cases ht : addrToIndex t.addr.toNat = 3 ∧ sizeToIndex t.size = 3
    · have hne : binOf t ≠ ⟨a, d, s⟩ := by
        intro h
        simp only [binOf, Bin.mk.injEq] at h
        omega
      simp [write, ht, hne]
    · by_cases hbin : a = addrToIndex t.addr.toNat ∧ d = dirToIndex t.read ∧ s = sizeToIndex t.size
      · obtain ⟨rfl, rfl, rfl⟩ := hbin
        simp [write, ht, binOf]
      · have hne : binOf t ≠ ⟨a, d, s⟩ := by
          intro h
          simp only [binOf, Bin.mk.injEq] at h
          exact hbin ⟨h.1.symm, h.2.1.symm, h.2.2.symm⟩
        simp [write, ht, hbin, hne]

theorem isCovered_foldl (covered : CoveredBins) (ts : List Packet) (a d s : Nat) :
    isCovered (ts.foldl write covered) a d s = true ↔
      isCovered covered a d s = true ∨ ∃ t ∈ ts, binOf t = ⟨a, d, s⟩ := by
  induction ts generalizing covered with
  | nil => simp
  | cons t ts ih => rw [List.foldl_cons, ih, isCovered_write]; simp [or_assoc]

end UbusCoverage

end UbusVip
