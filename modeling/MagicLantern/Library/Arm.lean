import Mathlib.Data.BitVec

/-!
# Branches, loads and stores of the ARM

The part of the 32-bit ARM instruction set (version 5, ARM state, little endian) that refers to the
program counter: branches, and loads and stores of words and bytes with all their addressing modes.

Memory consists of words. A word access at an address that is no multiple of four uses the word the
address lies in. A load then rotates it so that the addressed byte comes first.

An instruction has an effect on registers and memory, and may set the program counter. The program
counter is read as the address of the instruction plus `8`, and stored as that address plus `12`.
-/

namespace Arm

open BitVec

abbrev Word := BitVec 32

/-! ### Memory -/

/-- The word that an address lies in. -/
def wordOf (a : Word) : BitVec 30 := a.extractLsb' 2 30

/-- The position of an address within its word. -/
def lane (a : Word) : ℕ := a.toNat % 4

abbrev Memory := BitVec 30 → Word

/-- Load a word. -/
def ldr (m : Memory) (a : Word) : Word := (m (wordOf a)).rotateRight (8 * lane a)

/-- Load a byte. -/
def ldrb (m : Memory) (a : Word) : Word := (m (wordOf a) >>> (8 * lane a)) &&& 0xFF#32

/-- Store a word. -/
def str (m : Memory) (a v : Word) : Memory := Function.update m (wordOf a) v

/-- Store a byte. -/
def strb (m : Memory) (a v : Word) : Memory :=
  Function.update m (wordOf a)
    ((m (wordOf a) &&& ~~~(0xFF#32 <<< (8 * lane a))) ||| ((v &&& 0xFF#32) <<< (8 * lane a)))

/-! ### Machines -/

/-- Registers other than the program counter, memory and the condition flags. -/
structure Machine where
  reg : BitVec 4 → Word
  mem : Memory
  n : Bool
  z : Bool
  c : Bool
  v : Bool

/-- What an instruction does. -/
structure Effect where
  machine : Machine
  /-- The address where execution continues, unless it is the next one. -/
  jump : Option Word

/-- Register `r`, read by the instruction at `pc`. -/
def Machine.read (s : Machine) (pc : Word) (r : BitVec 4) : Word :=
  if r = 15#4 then pc + 8#32 else s.reg r

/-- Register `r`, stored by the instruction at `pc`. -/
def Machine.stored (s : Machine) (pc : Word) (r : BitVec 4) : Word :=
  if r = 15#4 then pc + 12#32 else s.reg r

/-- Set a register. -/
def Effect.setReg (e : Effect) (r : BitVec 4) (x : Word) : Effect :=
  if r = 15#4 then { e with jump := some x }
  else { e with machine := { e.machine with reg := Function.update e.machine.reg r x } }

/-- Whether an instruction with a condition is executed. -/
def Machine.condPassed (s : Machine) (cond : BitVec 4) : Bool :=
  match cond.toNat with
  | 0 => s.z
  | 1 => !s.z
  | 2 => s.c
  | 3 => !s.c
  | 4 => s.n
  | 5 => !s.n
  | 6 => s.v
  | 7 => !s.v
  | 8 => s.c && !s.z
  | 9 => !s.c || s.z
  | 10 => s.n == s.v
  | 11 => s.n != s.v
  | 12 => !s.z && s.n == s.v
  | 13 => s.z || s.n != s.v
  | 14 => true
  | _ => false

/-! ### Loads and stores -/

/-- The fields of a load or store. -/
structure Access where
  registerOffset : Bool
  preIndexed : Bool
  up : Bool
  byte : Bool
  writeback : Bool
  load : Bool
  rn : BitVec 4
  rd : BitVec 4
  operand : BitVec 12

def decode (w : Word) : Access where
  registerOffset := w.getLsbD 25
  preIndexed := w.getLsbD 24
  up := w.getLsbD 23
  byte := w.getLsbD 22
  writeback := w.getLsbD 21
  load := w.getLsbD 20
  rn := w.extractLsb' 16 4
  rd := w.extractLsb' 12 4
  operand := w.extractLsb' 0 12

/-- The shift of a register offset, with the carry flag `c`. -/
def shift (c : Bool) (type : BitVec 2) (amount : ℕ) (x : Word) : Word :=
  match type.toNat with
  | 0 => x <<< amount
  | 1 => if amount = 0 then 0 else x >>> amount
  | 2 => if amount = 0 then x.sshiftRight 32 else x.sshiftRight amount
  | _ => if amount = 0 then (if c then 0x80000000#32 else 0) ||| x >>> 1 else x.rotateRight amount

namespace Access

variable (i : Access) (s : Machine) (pc : Word)

def offset : Word :=
  if i.registerOffset then
    shift s.c (i.operand.extractLsb' 5 2) (i.operand.extractLsb' 7 5).toNat
      (s.read pc (i.operand.extractLsb' 0 4))
  else i.operand.setWidth 32

/-- The base register plus or minus the offset. -/
def indexed : Word :=
  if i.up then s.read pc i.rn + i.offset s pc else s.read pc i.rn - i.offset s pc

def address : Word := if i.preIndexed then i.indexed s pc else s.read pc i.rn

/-- The value that is loaded from an address. -/
def loaded (m : Memory) (a : Word) : Word := if i.byte then ldrb m a else ldr m a

/-- Memory after a value has been stored. -/
def store (m : Memory) (a x : Word) : Memory := if i.byte then strb m a x else str m a x

/-- The effect on memory. -/
def transfer : Effect where
  machine := if i.load then s
    else { s with mem := i.store s.mem (i.address s pc) (s.stored pc i.rd) }
  jump := none

/-- The effect on memory and the base register. -/
def writtenBack : Effect :=
  if !i.preIndexed || i.writeback then (i.transfer s pc).setReg i.rn (i.indexed s pc)
  else i.transfer s pc

/-- The effect of a load or store; `none` for undefined instructions. -/
def exec : Option Effect :=
  if i.registerOffset && i.operand.getLsbD 4 then none
  else some (if i.load then
      (i.writtenBack s pc).setReg i.rd (i.loaded s.mem (i.address s pc))
    else i.writtenBack s pc)

end Access

/-! ### Execution -/

/-- Where a branch at `pc` leads. -/
def branchTarget (pc w : Word) : Word := pc + 8#32 + (w.extractLsb' 0 24).signExtend 32 <<< 2

/-- The instruction `w` at address `pc`, for branches, loads and stores. -/
def exec (s : Machine) (pc w : Word) : Option Effect :=
  if !s.condPassed (w.extractLsb' 28 4) then some ⟨s, none⟩
  else if w.extractLsb' 26 2 = 1#2 then (decode w).exec s pc
  else if w.extractLsb' 24 4 = 10#4 then some ⟨s, some (branchTarget pc w)⟩
  else none

/-- **Branches.** A displacement can be encoded if it is a multiple of four and less than
`2 ^ 25` in absolute value, or equal to `-2 ^ 25`. -/
theorem branch_eq_iff (d : Word) :
    (d.extractLsb' 2 24).signExtend 32 <<< 2 = d ↔
      d.toNat % 4 = 0 ∧ (d.toNat < 2 ^ 25 ∨ 2 ^ 32 - 2 ^ 25 ≤ d.toNat) := by
  rw [← toNat_inj, toNat_shiftLeft, toNat_signExtend]
  simp only [toNat_setWidth, msb_eq_decide, extractLsb'_toNat, decide_eq_true_eq]
  split_ifs <;> omega

theorem exec_branch {s : Machine} {pc w : Word} (h : w.extractLsb' 24 8 = 0xEA#8) :
    exec s pc w = some ⟨s, some (branchTarget pc w)⟩ := by
  have hbits (k l : ℕ) (hkl : k + l ≤ 8) :
      w.extractLsb' (24 + k) l = (0xEA#8).extractLsb' k l := by
    rw [← h]
    ext i hi
    have hlt : k + i < 8 := by omega
    simp [hlt, Nat.add_assoc]
  rw [exec, hbits 4 4 (by decide), hbits 2 2 (by decide), hbits 0 4 (by decide)]
  simp [Machine.condPassed]

end Arm
