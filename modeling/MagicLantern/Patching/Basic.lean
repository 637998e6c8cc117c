import MagicLantern.Library.UndoLog

/-!
# The patch table

`patch.c` keeps the memory patches in force in one table and defines the interface shared by all
cameras; what it means to read a value, to write a patch or to undo it is supplied by a back end
(`patch_cache.c` on DIGIC 4/5, `patch_mmu.c` on DIGIC 7 and later, `patch_d6.c` on DIGIC 6). This
file is the shared part: the table, one iteration of the loop of `apply_patches`, the loop, and
the roll-back that runs after an error.

The loop keeps its own account of errors. An iteration that stops (`goto end`) and an iteration
that records its patch but leaves a cache error behind are different: in the second case the
loop goes on, and the next iteration overwrites the error (`Iteration.stop`).

Source: `src/src/patch.c`, `src/src/patch.h`.

## Main definitions

* `State`, `Backend`, `applyPatches`.
-/

namespace MagicLantern.Patching

open List

/-! ### Error codes -/

/-- `E_PATCH_OK` and `E_UNPATCH_OK`. -/
def ePatchOk : UInt32 := 0

def ePatchUnknownError : UInt32 := 0x1

def ePatchAlreadyPatched : UInt32 := 0x2

def ePatchTooManyPatches : UInt32 := 0x4

def ePatchOldValueMismatch : UInt32 := 0x8

def ePatchCacheCollision : UInt32 := 0x10

def ePatchCacheError : UInt32 := 0x20

def ePatchWrongCpu : UInt32 := 0x80

def ePatchMmuNotInit : UInt32 := 0x400

def ePatchBadMmuPage : UInt32 := 0x800

def ePatchCannotMalloc : UInt32 := 0x1000

def ePatchMalformed : UInt32 := 0x2000

def ePatchTooSmall : UInt32 := 0x4000

def ePatchBadAddr : UInt32 := 0x8000

def eUnpatchNotPatched : UInt32 := 0x10000

def eUnpatchOverwritten : UInt32 := 0x20000

/-! ### Patches and the state they act on -/

/-- `struct patch`. The two unions of the source are read as a word when `size` is at most `4`
and as a pointer to `size` bytes otherwise; `none` is the null pointer. -/
structure Patch where
  /-- The first address to patch. -/
  addr : UInt32
  /-- The value before the patch, for small patches. -/
  oldValue : UInt32 := 0
  /-- The value after the patch, for small patches. -/
  newValue : UInt32 := 0
  /-- The bytes before the patch, for patches of more than four bytes. -/
  oldValues : Option (List UInt8) := none
  /-- The bytes after the patch, for patches of more than four bytes. -/
  newValues : Option (List UInt8) := none
  /-- The number of bytes patched. -/
  size : UInt32
  /-- The help text shown in the menu. -/
  description : String := ""
  /-- Whether the patched bytes are code. -/
  isInstruction : Bool := false
deriving DecidableEq, Repr

/-- The bytes that a patch of at least four bytes writes. -/
def Patch.newBytes (p : Patch) : List UInt8 :=
  if p.size > 4 then (p.newValues.getD []).take p.size.toNat
  else ByteMemory.leBytes 4 p.newValue.toNat

/-- The bytes that a patch of at least four bytes writes when it is undone. -/
def Patch.oldBytes (p : Patch) : List UInt8 :=
  if p.size > 4 then (p.oldValues.getD []).take p.size.toNat
  else ByteMemory.leBytes 4 p.oldValue.toNat

/-- Memory, the used part of `patches_global` and whatever else the back end owns. -/
structure State (δ : Type) where
  /-- Physical memory. -/
  mem : ByteMemory
  /-- `patches_global[0]`, ..., `patches_global[num_patches - 1]`. -/
  patchesGlobal : List Patch
  /-- The state of the back end. -/
  dev : δ

/-- The value that `is_patch_still_applied` expects to read: the new value, or its first word. -/
def Patch.firstNewWord (p : Patch) : UInt32 :=
  if p.size > 4 then UInt32.ofNat (ByteMemory.leValue ((p.newValues.getD []).take 4))
  else p.newValue

/-- `is_patch_still_applied`, for a back end that reads with `readValue`. -/
def isPatchStillApplied (readValue : UInt32 → Bool → UInt32) (p : Patch) : Bool :=
  readValue p.addr p.isInstruction == p.firstNewWord

/-! ### Looking up an address in the table -/

variable {a : UInt32}

theorem findIdx?_addr {p : Patch} {l₁ l₂ : List Patch} (hl : ∀ q ∈ l₁, q.addr ≠ a)
    (hp : p.addr = a) : (l₁ ++ p :: l₂).findIdx? (·.addr == a) = some l₁.length := by
  have hnone : l₁.findIdx? (·.addr == a) = none := by
    simpa [findIdx?_eq_none_iff] using hl
  simp [hnone, findIdx?_cons, hp]

theorem exists_split {l : List Patch} {i : ℕ} (h : l.findIdx? (·.addr == a) = some i) :
    ∃ l₁ p l₂, l = l₁ ++ p :: l₂ ∧ p.addr = a ∧ ∀ q ∈ l₁, q.addr ≠ a := by
  obtain ⟨hi, ha, hlt⟩ := findIdx?_eq_some_iff_getElem.1 h
  refine ⟨l.take i, l[i], l.drop (i + 1), ?_, by simpa using ha, fun q hq => ?_⟩
  · rw [← drop_eq_getElem_cons hi, take_append_drop]
  · obtain ⟨j, hj, rfl⟩ := mem_iff_getElem.1 hq
    rw [length_take] at hj
    simpa using hlt j (by omega)

theorem getD_append_cons (l₁ l₂ : List Patch) (p q : Patch) :
    (l₁ ++ p :: l₂).getD l₁.length q = p := by
  simp

theorem eraseIdx_append_cons (l₁ l₂ : List Patch) (p : Patch) :
    (l₁ ++ p :: l₂).eraseIdx l₁.length = l₁ ++ l₂ := by
  simp [eraseIdx_append_of_length_le]

/-! ### Back ends -/

/-- What a back end supplies to `patch.c`. -/
structure Backend (δ : Type) where
  maxPatches : ℕ
  /-- The sizes that pass the first check of the loop. -/
  sizeOk : UInt32 → Bool
  /-- Whether patches of ROM addresses are refused outright. -/
  refusesRom : Bool
  isRomPtr : UInt32 → Bool
  readValue : State δ → UInt32 → Bool → UInt32
  /-- The bytes that `memcmp` sees at an address. -/
  readBlock : State δ → UInt32 → ℕ → List UInt8
  /-- Whether `malloc` succeeds. -/
  mallocOk : State δ → ℕ → Bool
  /-- `apply_patch`; the caller's patch is returned because its address may be rewritten. -/
  applyPatch : State δ → Patch → State δ × Patch × UInt32
  /-- The cache maintenance after a patch of RAM code. -/
  syncCaches : State δ → State δ × UInt32
  unpatchMemory : State δ → UInt32 → State δ × UInt32

namespace Backend

variable {δ : Type} (B : Backend δ)

/-! ### `apply_patches` -/

/-- Filling `patches_global[num_patches]`, with the comparison of the old contents. -/
def backup (s : State δ) (p : Patch) : Except UInt32 Patch :=
  if p.size > 4 then
    match p.newValues, p.oldValues with
    | some new, some old =>
      if !B.mallocOk s (2 * p.size.toNat) then .error ePatchCannotMalloc
      else if old.take p.size.toNat != B.readBlock s p.addr p.size.toNat then
        .error ePatchOldValueMismatch
      else .ok { p with
        newValues := some (new.take p.size.toNat)
        oldValues := some (old.take p.size.toNat) }
    | _, _ => .error ePatchMalformed
  else
    let old := B.readValue s p.addr p.isInstruction
    if old != p.oldValue then .error ePatchOldValueMismatch
    else .ok { p with oldValue := old }

/-- What one iteration of the loop leaves behind. -/
structure Iteration (δ : Type) where
  /-- The state after the iteration. -/
  state : State δ
  /-- `patches[c]`, whose address may have been rewritten. -/
  patch : Patch
  err : UInt32
  /-- Whether the iteration left the loop by `goto end`. -/
  stop : Bool

/-- One iteration of the loop over the patches of the array. -/
def patchOne (s : State δ) (p : Patch) : Iteration δ :=
  if !B.sizeOk p.size then ⟨s, p, ePatchUnknownError, true⟩
  else if B.refusesRom && B.isRomPtr p.addr then ⟨s, p, ePatchBadAddr, true⟩
  else if s.patchesGlobal.any (·.addr == p.addr) then ⟨s, p, ePatchAlreadyPatched, true⟩
  else if B.maxPatches ≤ s.patchesGlobal.length then ⟨s, p, ePatchTooManyPatches, true⟩
  else
    match B.backup s p with
    | .error e => ⟨s, p, e, true⟩
    | .ok newPatch =>
      let (s₁, p₁, e₁) := B.applyPatch s p
      if e₁ != 0 then ⟨s₁, p₁, e₁, true⟩
      else
        -- The result of the cache maintenance does not leave the loop.
        let (s₂, e₂) := if p₁.isInstruction && !B.isRomPtr p₁.addr then B.syncCaches s₁
          else (s₁, e₁)
        ⟨{ s₂ with patchesGlobal := s₂.patchesGlobal ++ [newPatch] }, p₁, e₂, false⟩

/-- The loop, returning the array with its rewritten addresses and the value of `err` at `end`. -/
def applyLoop : State δ → List Patch → UInt32 → State δ × List Patch × UInt32
  | s, [], err => (s, [], err)
  | s, p :: ps, _ =>
    let it := B.patchOne s p
    if it.stop then (it.state, it.patch :: ps, it.err)
    else
      let (s', ps', err') := applyLoop it.state ps it.err
      (s', it.patch :: ps', err')

/-- The loop after the label `end`: every address of the array is unpatched, in array order. -/
def rollback (s : State δ) (ps : List Patch) : State δ :=
  ps.foldl (fun s p => (B.unpatchMemory s p.addr).1) s

/-- `apply_patches`, returning the state and the error code. -/
def applyPatches (s : State δ) (ps : List Patch) : State δ × UInt32 :=
  let (s', ps', err) := B.applyLoop s ps ePatchOk
  if err != ePatchOk then (B.rollback s' ps', err) else (s', err)

end Backend

/-! ### Runs -/

/-- A call of one of the two public functions. -/
inductive Call
  | apply (ps : List Patch)
  | unpatch (addr : UInt32)

namespace Backend

variable {δ : Type} (B : Backend δ)

/-- The state after a call. -/
def call (s : State δ) : Call → State δ
  | .apply ps => (B.applyPatches s ps).1
  | .unpatch addr => (B.unpatchMemory s addr).1

/-- The state after a sequence of calls. -/
def run (s : State δ) (cs : List Call) : State δ := cs.foldl B.call s

/-- The value that a call returns. -/
def result (s : State δ) : Call → UInt32
  | .apply ps => (B.applyPatches s ps).2
  | .unpatch addr => (B.unpatchMemory s addr).2

/-- The values that a sequence of calls returns. -/
def results (s : State δ) : List Call → List UInt32
  | [] => []
  | c :: cs => B.result s c :: results (B.call s c) cs

/-! What each iteration of the loop and each removal of a patch keep, all calls keep. -/

section Invariant

variable {B} {I : State δ → Prop} {s : State δ} (hpatch : ∀ s p, I s → I (B.patchOne s p).state)
  (hunpatch : ∀ s a, I s → I (B.unpatchMemory s a).1)
include hpatch

theorem applyLoop_invariant (ps : List Patch) (e : UInt32) (h : I s) :
    I (B.applyLoop s ps e).1 := by
  induction ps generalizing s e with
  | nil => exact h
  | cons p ps ih =>
    rw [applyLoop]
    split_ifs
    · exact hpatch s p h
    · exact ih _ (hpatch s p h)

include hunpatch

theorem applyPatches_invariant (ps : List Patch) (h : I s) : I (B.applyPatches s ps).1 := by
  have hloop := applyLoop_invariant hpatch ps ePatchOk h
  simp only [applyPatches]
  split_ifs
  · exact foldlRecOn _ _ hloop fun t ht p _ => hunpatch t p.addr ht
  · exact hloop

theorem run_invariant (cs : List Call) (h : I s) : I (B.run s cs) := by
  refine foldlRecOn cs _ h fun t ht c _ => ?_
  cases c with
  | apply ps => exact applyPatches_invariant hpatch hunpatch ps ht
  | unpatch a => exact hunpatch t a ht

end Invariant

end Backend

end MagicLantern.Patching
