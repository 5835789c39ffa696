import UbusVip.Library.FourState

namespace UbusVip

open FourState

abbrev Byte := BitVec 8
abbrev Word := BitVec 32

structure Packet where
  addr : BitVec 16
  read : Bool
  write : Bool
  size : Nat
  data : List Byte
  waitState : Nat
  error : Bool
deriving DecidableEq, Repr

namespace Packet

def create : Packet := ⟨0, false, false, 0, [], 0, false⟩

-- wait_state is an int: what is left of the count in 32 bits
def waitStateInt (p : Packet) : Int := (BitVec.ofNat 32 p.waitState).toInt

-- an index outside the dynamic array reads the default of its element type
def byte (p : Packet) (i : Nat) : Byte := p.data.getD i 0

def span (p : Packet) : List Nat := (List.range p.size).map (p.addr.toNat + ·)

theorem mem_span (p : Packet) (a : Nat) :
    a ∈ p.span ↔ p.addr.toNat ≤ a ∧ a < p.addr.toNat + p.size := by
  simp only [span, List.mem_map, List.mem_range]
  constructor
  · rintro ⟨i, hi, rfl⟩; omega
  · rintro ⟨hle, hlt⟩; exact ⟨a - p.addr.toNat, by omega, by omega⟩

def byteAt (p : Packet) (a : Nat) : Word := (p.byte (a - p.addr.toNat)).setWidth 32

@[simp] theorem byteAt_add (p : Packet) (i : Nat) :
    p.byteAt (p.addr.toNat + i) = (p.byte i).setWidth 32 := by
  rw [byteAt, Nat.add_sub_cancel_left]

structure Legal (p : Packet) : Prop where
  cDir : (p.read ^^ p.write) = true
  cSize : p.size ∈ [1, 2, 4, 8]
  cDataSize : p.data.length = p.size

instance (p : Packet) : Decidable p.Legal :=
  decidable_of_iff ((p.read ^^ p.write) = true ∧ p.size ∈ [1, 2, 4, 8] ∧ p.data.length = p.size)
    ⟨fun ⟨hd, hs, hl⟩ => ⟨hd, hs, hl⟩, fun h => ⟨h.cDir, h.cSize, h.cDataSize⟩⟩

def globalLegality (p : Packet) : Prop :=
  ¬((16384 ≤ p.addr.toNat ∧ p.addr.toNat ≤ 20479) ∧ p.size = 8)

instance (p : Packet) : Decidable p.globalLegality := by
  unfold globalLegality; infer_instance

namespace Legal

variable {p : Packet}

theorem size_pos (h : p.Legal) : 0 < p.size := by
  have hs := h.cSize
  simp only [List.mem_cons, List.not_mem_nil, or_false] at hs
  omega

theorem write_eq (h : p.Legal) : p.write = !p.read := by
  have hd := h.cDir
  revert hd
  cases p.read <;> cases p.write <;> decide

end Legal

end Packet

abbrev Item := {p : Packet // p.Legal}

namespace Item

theorem size_pos (tr : Item) : 0 < tr.val.size := tr.property.size_pos

theorem write_eq (tr : Item) : tr.val.write = !tr.val.read := tr.property.write_eq

theorem write_of_read (tr : Item) (hr : tr.val.read = true) : tr.val.write = false := by
  rw [tr.write_eq, hr]; rfl

theorem write_of_not_read (tr : Item) (hr : tr.val.read = false) : tr.val.write = true := by
  rw [tr.write_eq, hr]; rfl

theorem read_of_write (tr : Item) (hw : tr.val.write = true) : tr.val.read = false := by
  rwa [tr.write_eq, Bool.not_eq_true'] at hw

theorem data_length (tr : Item) : tr.val.data.length = tr.val.size := tr.property.cDataSize

end Item

end UbusVip
