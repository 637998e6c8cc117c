import MagicLantern.Library.Arm
import Mathlib.Tactic.Abel
import Mathlib.Tactic.IntervalCases

/-!
# The code of a function hook

`patch_hook_function` puts a branch to a slot of `function_hooks` at the patched address. The code
in the slot calls the hook function, executes the patched instruction, moved to a place where it has
the same effect, and branches back to the instruction behind the patched one.

Both branches are checked by `check_jump_range`. For the branch back, the check is made with the
address of the moved instruction, the one before the branch. A branch back over `2 ^ 25 + 4` bytes
passes it.

Source: `src/src/patch_cache.c`, `src/src/patch_cache.h`, `src/src/arm-mcr.h`.

## Main results

* `hook_branches_iff` — when both branches are right.
* `hook_branch_back_wrong`.
-/

namespace MagicLantern.Patching

open BitVec Arm

/-- `B_INSTR`. -/
def bInstr (pc dest : Word) : Word :=
  0xEA000000#32 ||| (((dest - pc - 8#32) >>> 2) &&& 0x00FFFFFF#32)

/-- `check_jump_range`. -/
def checkJumpRange (pc dest : Word) : Bool :=
  let offset := (bInstr pc dest &&& 0x00FFFFFF#32) <<< 8
  let newDest := ((((pc.setWidth 64 + 8#64) <<< 6) + offset.signExtend 64) >>> 6).setWidth 32
  dest == newDest

/-- `&hook->reloc_insn`. -/
def hookReloc (hook : Word) : Word := hook + 44#32

/-- `&hook->jump_back`. -/
def hookJumpBack (hook : Word) : Word := hook + 48#32

/-! ### Encoding of branches -/

section

variable (pc dest : Word)

theorem bInstr_class : (bInstr pc dest).extractLsb' 24 8 = 0xEA#8 := by
  ext i hi
  interval_cases i <;> simp [bInstr]

theorem bInstr_and : bInstr pc dest &&& 0x00FFFFFF#32 =
    ((dest - pc - 8#32).extractLsb' 2 24).setWidth 32 := by
  ext i hi
  interval_cases i <;> simp [bInstr]

theorem bInstr_displacement :
    (bInstr pc dest).extractLsb' 0 24 = (dest - pc - 8#32).extractLsb' 2 24 := by
  ext i hi
  interval_cases i <;> simp [bInstr]

/-- A branch leads to its destination if the displacement can be encoded. -/
theorem branchTarget_bInstr_iff :
    branchTarget pc (bInstr pc dest) = dest ↔ (dest - pc - 8#32).toNat % 4 = 0 ∧
      ((dest - pc - 8#32).toNat < 2 ^ 25 ∨ 2 ^ 32 - 2 ^ 25 ≤ (dest - pc - 8#32).toNat) := by
  rw [← branch_eq_iff, branchTarget, bInstr_displacement, sub_sub, eq_sub_iff_add_eq']

/-- The computation of `check_jump_range` in 64 bits, on the displacement `f`. -/
theorem newDest_eq (f : BitVec 24) :
    ((((pc.setWidth 64 + 8#64) <<< 6) + ((f.setWidth 32) <<< 8).signExtend 64) >>> 6).setWidth 32 =
      pc + 8#32 + f.signExtend 32 <<< 2 := by
  have hpc := pc.isLt
  have hf := f.isLt
  apply eq_of_toNat_eq
  simp only [toNat_setWidth, toNat_ushiftRight, toNat_add,
    toNat_shiftLeft, toNat_signExtend, msb_eq_decide, toNat_ofNat,
    Nat.shiftLeft_eq, Nat.shiftRight_eq_div_pow, decide_eq_true_eq]
  split_ifs <;> omega

/-- **The check of a branch.** It accepts the branches that lead to their destination. -/
theorem checkJumpRange_iff : checkJumpRange pc dest = true ↔
    branchTarget pc (bInstr pc dest) = dest := by
  rw [checkJumpRange]
  simp only [beq_iff_eq]
  rw [bInstr_and, newDest_eq, branchTarget, bInstr_displacement]
  exact eq_comm

theorem exec_bInstr_iff (s : Machine) :
    exec s pc (bInstr pc dest) = some ⟨s, some dest⟩ ↔ branchTarget pc (bInstr pc dest) = dest := by
  rw [exec_branch (bInstr_class pc dest)]
  simp

end

/-! ### The branches of a hook -/

/-- **The branches of a hook.** If both checks pass, the branch to the hook and the branch back lead
to their destinations, unless the hook is `2 ^ 25 - 48` bytes behind the patched address: then the
branch back is one instruction too long. -/
theorem hook_branches_iff (s : Machine) (hook addr : Word)
    (hback : checkJumpRange (hookReloc hook) (addr + 4#32) = true)
    (hto : checkJumpRange addr hook = true) :
    (exec s addr (bInstr addr hook) = some ⟨s, some hook⟩ ∧
      exec s (hookJumpBack hook) (bInstr (hookJumpBack hook) (addr + 4#32)) =
        some ⟨s, some (addr + 4#32)⟩) ↔
      hook - addr ≠ 0x2000000#32 - 48#32 := by
  rw [checkJumpRange_iff] at hback hto
  rw [exec_bInstr_iff, exec_bInstr_iff, and_iff_right hto, branchTarget_bInstr_iff]
  rw [branchTarget_bInstr_iff] at hback
  -- The branch back is one word behind the address that was checked.
  have hstep : addr + 4#32 - hookJumpBack hook - 8#32 =
      addr + 4#32 - hookReloc hook - 8#32 - 4#32 := by
    rw [hookJumpBack, hookReloc, show 48#32 = 44#32 + 4#32 from rfl, ← add_assoc, ← sub_sub,
      sub_right_comm]
  have hdist : hook - addr = -48#32 - (addr + 4#32 - hookReloc hook - 8#32) := by
    rw [hookReloc, show -48#32 = 4#32 - 44#32 - 8#32 from rfl]
    abel
  rw [hstep, hdist]
  generalize addr + 4#32 - hookReloc hook - 8#32 = e at hback ⊢
  bv_omega

/-- A hook one megabyte behind the patched address. -/
theorem hook_branches_near :
    let s : Machine := ⟨fun _ => 0#32, fun _ => 0#32, false, false, false, false⟩
    exec s 0x1000#32 (bInstr 0x1000#32 0x101000#32) = some ⟨s, some 0x101000#32⟩ ∧
      exec s (hookJumpBack 0x101000#32) (bInstr (hookJumpBack 0x101000#32) (0x1000#32 + 4#32)) =
        some ⟨s, some (0x1000#32 + 4#32)⟩ :=
  (hook_branches_iff ⟨fun _ => 0#32, fun _ => 0#32, false, false, false, false⟩ 0x101000#32
    0x1000#32 (by decide +kernel) (by decide +kernel)).2 (by decide +kernel)

/-- A hook `2 ^ 25 - 48` bytes behind the patched address: both checks pass, and the branch back
leads forward, to an address `2 ^ 26` bytes behind the right one. -/
theorem hook_branch_back_wrong :
    checkJumpRange (hookReloc 0x2000FD0#32) (0x1000#32 + 4#32) = true ∧
      checkJumpRange 0x1000#32 0x2000FD0#32 = true ∧
      ∀ s : Machine, exec s (hookJumpBack 0x2000FD0#32)
        (bInstr (hookJumpBack 0x2000FD0#32) (0x1000#32 + 4#32)) = some ⟨s, some 0x4001004#32⟩ := by
  refine ⟨by decide +kernel, by decide +kernel, fun s => ?_⟩
  have htarget : branchTarget (hookJumpBack 0x2000FD0#32)
      (bInstr (hookJumpBack 0x2000FD0#32) (0x1000#32 + 4#32)) = 0x4001004#32 := by decide +kernel
  rw [exec_branch (bInstr_class _ _), htarget]

end MagicLantern.Patching
