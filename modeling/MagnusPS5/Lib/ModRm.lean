/-
Operands of x86-64 instructions: the ModRM byte, the SIB byte and the displacement.

`Rm` lists the forms of an operand. `mod` says how long the displacement is, but `rm = 4`
stands for a SIB byte, and without a displacement `5` stands for one of four bytes: behind
the instruction pointer in ModRM, without a base register in SIB. A form that is written
otherwise cannot be built. Each form has its bytes and its address.
-/
import Mathlib

namespace MagnusPS5.Lib.ModRm

abbrev Byte := BitVec 8

/-! ## Beginnings of byte sequences -/

def StartsWith : List Byte → (ℕ → Byte) → Prop
  | [], _ => True
  | b :: l, s => s 0 = b ∧ StartsWith l fun i => s (i + 1)

@[simp] theorem startsWith_nil (s : ℕ → Byte) : StartsWith [] s := trivial

@[simp] theorem startsWith_cons (b : Byte) (l : List Byte) (s : ℕ → Byte) :
    StartsWith (b :: l) s ↔ s 0 = b ∧ StartsWith l fun i => s (i + 1) := .rfl

theorem startsWith_append (l1 l2 : List Byte) (s : ℕ → Byte) :
    StartsWith (l1 ++ l2) s ↔ StartsWith l1 s ∧ StartsWith l2 fun i => s (i + l1.length) := by
  induction l1 generalizing s with
  | nil => exact (and_iff_right trivial).symm
  | cons b l ih =>
    rw [List.cons_append, startsWith_cons, startsWith_cons, ih, and_assoc]
    simp only [List.length_cons, Nat.add_right_comm, ← Nat.add_assoc]

/-! ## The forms of an operand -/

/-- Four bytes, the lowest first. -/
structure Dword where
  b0 : Byte
  b1 : Byte
  b2 : Byte
  b3 : Byte
  deriving DecidableEq

namespace Dword

def bytes (d : Dword) : List Byte := [d.b0, d.b1, d.b2, d.b3]

def value (d : Dword) : BitVec 32 := d.b3 ++ d.b2 ++ d.b1 ++ d.b0

end Dword

inductive Displacement
  | none
  | byte (b : Byte)
  | dword (d : Dword)
  deriving DecidableEq

namespace Displacement

def mod : Displacement → BitVec 2
  | none => 0
  | byte _ => 1
  | dword _ => 2

def bytes : Displacement → List Byte
  | none => []
  | byte b => [b]
  | dword d => d.bytes

def value : Displacement → BitVec 64
  | none => 0
  | byte b => b.signExtend 64
  | dword d => d.value.signExtend 64

end Displacement

inductive Rm
  | register (rm : BitVec 3)
  | ripRelative (disp : Dword)
  | base (rm : BitVec 3) (disp : Displacement) (hsib : rm ≠ 4) (hrip : disp = .none → rm ≠ 5)
  | sib (scale : BitVec 2) (index base : BitVec 3) (disp : Displacement)
    (hbase : disp = .none → base ≠ 5)
  | sibNoBase (scale : BitVec 2) (index : BitVec 3) (disp : Dword)

/-- The bits of a REX prefix. -/
structure Rex where
  w : Bool
  r : Bool
  x : Bool
  b : Bool
  deriving DecidableEq

def Rex.byte (rex : Rex) : Byte :=
  4#4 ++ BitVec.ofBool rex.w ++ BitVec.ofBool rex.r ++ BitVec.ofBool rex.x ++ BitVec.ofBool rex.b

/-- A register by three bits of the encoding and one of the prefix. -/
def registerNumber (extension : Bool) (low : BitVec 3) : ℕ :=
  low.toNat + if extension then 8 else 0

/-- `mod`, `reg` and `rm`. -/
def modRmByte (mod : BitVec 2) (reg rm : BitVec 3) : Byte := mod ++ reg ++ rm

/-- `scale`, `index` and `base`. -/
def sibByte (scale : BitVec 2) (index base : BitVec 3) : Byte := scale ++ index ++ base

namespace Rm

def bytes (reg : BitVec 3) : Rm → List Byte
  | register rm => [modRmByte 3 reg rm]
  | ripRelative disp => modRmByte 0 reg 5 :: disp.bytes
  | base rm disp _ _ => modRmByte disp.mod reg rm :: disp.bytes
  | sib scale index b disp _ => modRmByte disp.mod reg 4 :: sibByte scale index b :: disp.bytes
  | sibNoBase scale index disp => modRmByte 0 reg 4 :: sibByte scale index 5 :: disp.bytes

def isRegister : Rm → Bool
  | register _ => true
  | _ => false

/-- The part of an address that an index register adds. `4` is no index, but with the extension
it is a register. -/
def scaled (rex : Rex) (gpr : ℕ → BitVec 64) (scale : BitVec 2) (index : BitVec 3) : BitVec 64 :=
  if index = 4 ∧ rex.x = false then 0
  else gpr (registerNumber rex.x index) * BitVec.ofNat 64 (2 ^ scale.toNat)

/-- The effective address, with the address of the next instruction. -/
def address (rex : Rex) (gpr : ℕ → BitVec 64) (next : BitVec 64) : Rm → Option (BitVec 64)
  | register _ => none
  | ripRelative disp => some (next + disp.value.signExtend 64)
  | base rm disp _ _ => some (gpr (registerNumber rex.b rm) + disp.value)
  | sib scale index b disp _ =>
    some (gpr (registerNumber rex.b b) + scaled rex gpr scale index + disp.value)
  | sibNoBase scale index disp => some (scaled rex gpr scale index + disp.value.signExtend 64)

end Rm

/-! ## Fields of the bytes -/

theorem modRmByte_mod : ∀ mod reg rm, modRmByte mod reg rm >>> 6 = mod.setWidth 8 := by decide

theorem modRmByte_reg :
    ∀ mod reg rm, (modRmByte mod reg rm >>> 3) &&& 7#8 = reg.setWidth 8 := by decide

theorem modRmByte_rm : ∀ mod reg rm, modRmByte mod reg rm &&& 7#8 = rm.setWidth 8 := by decide

theorem modRmByte_fields : ∀ b : Byte,
    modRmByte (b.extractLsb' 6 2) (b.extractLsb' 3 3) (b.extractLsb' 0 3) = b := by decide

theorem rexByte_fields : ∀ b : Byte, b &&& 0xf0 = 0x40 →
    Rex.byte ⟨b.getLsbD 3, b.getLsbD 2, b.getLsbD 1, b.getLsbD 0⟩ = b := by decide

theorem exists_operand (s : ℕ → Byte) : ∃ reg rm, StartsWith (Rm.bytes reg rm) s := by
  obtain ⟨mod, reg, rm, h0⟩ : ∃ mod reg rm, s 0 = modRmByte mod reg rm :=
    ⟨_, _, _, (modRmByte_fields (s 0)).symm⟩
  obtain ⟨scale, index, base, h1⟩ : ∃ scale index base, s 1 = sibByte scale index base :=
    ⟨_, _, _, (modRmByte_fields (s 1)).symm⟩
  refine ⟨reg, ?_⟩
  have hmods : ∀ m : BitVec 2, m = 0 ∨ m = 1 ∨ m = 2 ∨ m = 3 := by decide
  -- with a SIB byte the displacement is one byte further on
  by_cases hrm : rm = 4
  · subst hrm
    rcases hmods mod with rfl | rfl | rfl | rfl
    · by_cases hbase : base = 5
      · subst hbase
        exact ⟨.sibNoBase scale index ⟨s 2, s 3, s 4, s 5⟩, h0, h1, rfl, rfl, rfl, rfl, trivial⟩
      · exact ⟨.sib scale index base .none fun _ => hbase, h0, h1, trivial⟩
    · exact ⟨.sib scale index base (.byte (s 2)) (by simp), h0, h1, rfl, trivial⟩
    · exact ⟨.sib scale index base (.dword ⟨s 2, s 3, s 4, s 5⟩) (by simp), h0, h1, rfl, rfl, rfl,
        rfl, trivial⟩
    · exact ⟨.register 4, h0, trivial⟩
  · rcases hmods mod with rfl | rfl | rfl | rfl
    · by_cases hrip : rm = 5
      · subst hrip
        exact ⟨.ripRelative ⟨s 1, s 2, s 3, s 4⟩, h0, rfl, rfl, rfl, rfl, trivial⟩
      · exact ⟨.base rm .none hrm fun _ => hrip, h0, trivial⟩
    · exact ⟨.base rm (.byte (s 1)) hrm (by simp), h0, rfl, trivial⟩
    · exact ⟨.base rm (.dword ⟨s 1, s 2, s 3, s 4⟩) hrm (by simp), h0, rfl, rfl, rfl, rfl, trivial⟩
    · exact ⟨.register rm, h0, trivial⟩

end MagnusPS5.Lib.ModRm
