import Mathlib.Data.BitVec
import Mathlib.Tactic.Common

namespace FourState

inductive Logic where
  | zero
  | one
  | x
  | z
deriving DecidableEq, Repr

def Logic.ofBool : Bool → Logic
  | true => .one
  | false => .zero

def Logic.toBool : Logic → Bool
  | .one => true
  | _ => false

@[simp] theorem Logic.toBool_ofBool (b : Bool) : (Logic.ofBool b).toBool = b := by
  cases b <;> rfl

@[simp] theorem Logic.ofBool_eq_one (b : Bool) : Logic.ofBool b = .one ↔ b = true := by
  cases b <;> decide

@[simp] theorem Logic.toBool_eq_true (l : Logic) : l.toBool = true ↔ l = .one := by
  cases l <;> decide

@[simp] theorem Logic.toBool_eq_false (l : Logic) : l.toBool = false ↔ l ≠ .one := by
  cases l <;> decide

structure LogicVec (w : Nat) where
  aval : BitVec w
  bval : BitVec w
deriving DecidableEq, Repr

namespace LogicVec

variable {w : Nat}

-- a bit is 0, 1, z or x as its (aval, bval) pair is (0,0), (1,0), (0,1) or (1,1)
def known (v : BitVec w) : LogicVec w := ⟨v, 0⟩

def z : LogicVec w := ⟨0, BitVec.allOnes w⟩

def x : LogicVec w := ⟨BitVec.allOnes w, BitVec.allOnes w⟩

def toBits (v : LogicVec w) : BitVec w := v.aval &&& ~~~v.bval

@[simp] theorem toBits_known (v : BitVec w) : (known v).toBits = v := by
  ext i hi
  simp [toBits, known]

@[simp] theorem toBits_z : (z : LogicVec w).toBits = 0 := by
  simp [toBits, z]

@[simp] theorem known_inj (u v : BitVec w) : known u = known v ↔ u = v := by
  simp [known]

end LogicVec

end FourState
