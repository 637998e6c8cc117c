import MagicLantern.Mmu.Remap
import MagicLantern.Patching.Digic45

/-!
# The back ends of DIGIC 6 and of DIGIC 7 and later

Both back ends write RAM in place, in blocks of any size from four bytes on. On DIGIC 7 and later
ROM is patched in remapped pages (`Mmu.applyDataPatch`) and then seen through the translation
tables; on DIGIC 6 it cannot be patched. Undoing a patch copies its saved block back, but
`is_patch_still_applied` has only looked at the first word of the block. A patch that overlaps a
later one without sharing its first word is therefore undone over the later one, and removing
both in that order need not restore memory (`digic678_leaves_overlapped_word`). When every patch
that is removed has its whole block in place, the two back ends are runs of the undo log, and
memory is restored (`digic678_restores_memory`).

Source: `src/src/patch_mmu.c`; `src/src/patch_d6.c`; `src/src/mem.h`.

## Main results

* `digic678_restores_memory`.
* `digic678_leaves_overlapped_word`.
-/

namespace MagicLantern.Patching

open List ByteMemory

/-- `_unpatch_memory`, for a back end that reads words with `readValue`, finds the memory behind
an address with `physMem` and ignores the addresses in `skip`. -/
def unpatchBlock {δ : Type} (readValue : State δ → UInt32 → Bool → UInt32)
    (physMem : State δ → UInt32 → Option ℕ) (skip : UInt32 → Bool) (s : State δ) (a : UInt32) :
    State δ × UInt32 :=
  match s.patchesGlobal.findIdx? (·.addr == a) with
  | none => (s, ePatchOk)
  | some i =>
    let p := s.patchesGlobal.getD i { addr := a, size := 0 }
    if skip a then (s, ePatchOk)
    else if !isPatchStillApplied (readValue s) p then (s, eUnpatchOverwritten)
    else
      match physMem s a with
      | none => (s, eUnpatchNotPatched)
      | some x =>
        -- A patch of fewer than four bytes is removed without being undone.
        ({ s with
            mem := if p.size < 4 then s.mem else s.mem.writeBytes x p.oldBytes
            patchesGlobal := s.patchesGlobal.eraseIdx i },
          if p.size < 4 then ePatchTooSmall else ePatchOk)

/-! ### DIGIC 7 and later -/

/-- What the back end with an MMU owns besides memory and the patch table. -/
structure MmuDevice where
  /-- `get_cpu_id()`: the processor that runs the calls. -/
  cpuId : ℕ
  /-- `mmu_globals_initialised`. -/
  globalsInitialised : Bool
  /-- Whether the processor has been switched to the edited tables. -/
  tablesChanged : Bool
  /-- `global_mmu_conf`. -/
  conf : Mmu.MmuConfig
  backingPageIndex : UInt32

namespace MmuDevice

/-- `IS_ROM_PTR` on DIGIC 7 and later. -/
def isRomPtr (a : UInt32) : Bool := a > 0xE0000000

/-- The physical address behind a ROM address. Canon's own tables map the ROM to itself. -/
def romCell (s : State MmuDevice) (a : UInt32) : ℕ :=
  if s.dev.tablesChanged then (Mmu.walk s.mem s.dev.conf.l1Table a).getD a.toNat else a.toNat

/-- The `n` bytes that loads see at address `a`. -/
def loadBytes (s : State MmuDevice) (a : UInt32) (n : ℕ) : List UInt8 :=
  if isRomPtr a then (List.range n).map fun i => s.mem (romCell s (a + UInt32.ofNat i))
  else s.mem.readBytes (cellOf a) n

/-- `read_value`. -/
def readValue (s : State MmuDevice) (a : UInt32) (_isInstruction : Bool) : UInt32 :=
  UInt32.ofNat (ByteMemory.leValue (loadBytes s a 4))

/-- `patch_memory_rom`. The tables are switched even when the patch could not be applied. -/
def patchMemoryRom (s : State MmuDevice) (p : Patch) : State MmuDevice × UInt32 :=
  if s.dev.cpuId != 0 then (s, ePatchWrongCpu)
  else if !s.dev.globalsInitialised then (s, ePatchMmuNotInit)
  else if p.size < 4 then (s, ePatchTooSmall)
  else
    let (t, err) := Mmu.applyDataPatch ⟨s.mem, s.dev.conf, s.dev.backingPageIndex⟩ p
    ({ s with
        mem := t.mem
        dev := { s.dev with
          conf := t.conf, backingPageIndex := t.backingPageIndex, tablesChanged := true } }, err)

/-- `patch_memory_ram`. -/
def patchMemoryRam (s : State MmuDevice) (p : Patch) : State MmuDevice × UInt32 :=
  if s.dev.cpuId != 0 then (s, ePatchWrongCpu)
  else if p.size < 4 then (s, ePatchTooSmall)
  else ({ s with mem := s.mem.writeBytes (cellOf p.addr) p.newBytes }, ePatchOk)

/-- `apply_patch`, which leaves the caller's patch alone. -/
def applyPatch (s : State MmuDevice) (p : Patch) : State MmuDevice × Patch × UInt32 :=
  let (s', err) := if isRomPtr p.addr then patchMemoryRom s p else patchMemoryRam s p
  (s', p, err)

/-- `find_phys_mem`. When no table maps the megabyte of the address, the loop of the source ends
at the last table and its page is looked up all the same. -/
def findPhysMem (s : State MmuDevice) (a : UInt32) : Option ℕ :=
  let conf := s.dev.conf
  if !isRomPtr a then some (cellOf a)
  else if conf.maxL2Tables == 0 then none
  else
    let t := ((List.range conf.maxL2Tables).find? fun i =>
      (conf.l2Tables i).virtPageMapped == a &&& 0xfff00000).getD (conf.maxL2Tables - 1)
    let page := (conf.l2Tables t).physMem (Mmu.pageNumber a)
    if page == 0 then none else some (page + (a &&& 0xffff)).toNat

/-- `_unpatch_memory`. -/
def unpatchMemory : State MmuDevice → UInt32 → State MmuDevice × UInt32 :=
  unpatchBlock readValue findPhysMem fun _ => false

end MmuDevice

/-- The back end of DIGIC 7 and later, with a table of `maxPatches` entries. -/
def mmu (maxPatches : ℕ) (mallocOk : State MmuDevice → ℕ → Bool) : Backend MmuDevice where
  maxPatches := maxPatches
  sizeOk size := size ≥ 4
  refusesRom := false
  isRomPtr := MmuDevice.isRomPtr
  readValue := MmuDevice.readValue
  readBlock := MmuDevice.loadBytes
  mallocOk := mallocOk
  applyPatch := MmuDevice.applyPatch
  syncCaches s := (s, 0)
  unpatchMemory := MmuDevice.unpatchMemory

/-! ### DIGIC 6 -/

namespace Digic6

/-- `read_value`. -/
def readValue (s : State Unit) (a : UInt32) (isInstruction : Bool) : UInt32 :=
  s.mem.readWord (cellOf (if isInstruction then uncacheable a else a))

/-- `patch_memory_ram`. -/
def patchMemoryRam (s : State Unit) (p : Patch) : State Unit × UInt32 :=
  if p.size < 4 then (s, ePatchTooSmall)
  else ({ s with mem := s.mem.writeBytes (cellOf p.addr) p.newBytes }, ePatchOk)

/-- `apply_patch`. -/
def applyPatch (s : State Unit) (p : Patch) : State Unit × Patch × UInt32 :=
  let p' := if p.isInstruction then { p with addr := uncacheable p.addr } else p
  if isRomPtr p'.addr then (s, p', ePatchBadAddr)
  else
    let (s', err) := patchMemoryRam s p'
    (s', p', err)

/-- `_unpatch_memory`. -/
def unpatchMemory : State Unit → UInt32 → State Unit × UInt32 :=
  unpatchBlock readValue (fun _ a => some (cellOf a)) isRomPtr

end Digic6

/-- The back end of DIGIC 6, with a table of `maxPatches` entries. -/
def digic6 (maxPatches : ℕ) (mallocOk : State Unit → ℕ → Bool) : Backend Unit where
  maxPatches := maxPatches
  sizeOk size := size ≥ 4
  refusesRom := true
  isRomPtr := isRomPtr
  readValue := Digic6.readValue
  readBlock s a n := s.mem.readBytes (cellOf a) n
  mallocOk := mallocOk
  applyPatch := Digic6.applyPatch
  syncCaches s := (s, 0)
  unpatchMemory := Digic6.unpatchMemory

/-! ### What the two back ends share -/

/-- On RAM, a back end that writes blocks in place and undoes them with `unpatchBlock`. -/
structure PatchesRam {δ : Type} (B : Backend δ) : Prop where
  sizeOk : ∀ size, B.sizeOk size = true → 4 ≤ size
  readValue : ∀ s a i, B.isRomPtr a = false → B.readValue s a i = s.mem.readWord (cellOf a)
  readBlock : ∀ s a n, B.isRomPtr a = false → B.readBlock s a n = s.mem.readBytes (cellOf a) n
  applyPatch : ∀ s p, B.isRomPtr p.addr = false → (B.applyPatch s p).2.2 = 0 →
    (B.applyPatch s p).1.mem = s.mem.writeBytes (cellOf p.addr) p.newBytes ∧
      (B.applyPatch s p).1.patchesGlobal = s.patchesGlobal
  syncCaches : ∀ s, (B.syncCaches s).1 = s
  unpatchMemory : ∃ physMem skip, B.unpatchMemory = unpatchBlock B.readValue physMem skip ∧
    ∀ s a, B.isRomPtr a = false → physMem s a = some (cellOf a) ∧ skip a = false

theorem mmu_patchesRam (n : ℕ) (mallocOk : State MmuDevice → ℕ → Bool) :
    PatchesRam (mmu n mallocOk) where
  sizeOk size h := by simpa [mmu] using h
  readValue s a i ha := by
    have ha' : MmuDevice.isRomPtr a = false := ha
    simp [mmu, MmuDevice.readValue, MmuDevice.loadBytes, ha', ByteMemory.readWord]
  readBlock s a n ha := by
    have ha' : MmuDevice.isRomPtr a = false := ha
    simp [mmu, MmuDevice.loadBytes, ha']
  applyPatch s p hp h := by
    have hp' : MmuDevice.isRomPtr p.addr = false := hp
    simp only [mmu, MmuDevice.applyPatch, hp', MmuDevice.patchMemoryRam, Bool.false_eq_true,
      if_false] at h ⊢
    split_ifs at h ⊢ with hcpu hsize
    · exact absurd h (show ePatchWrongCpu ≠ 0 by decide)
    · exact absurd h (show ePatchTooSmall ≠ 0 by decide)
    · exact ⟨rfl, rfl⟩
  syncCaches _ := rfl
  unpatchMemory := by
    refine ⟨_, _, rfl, fun s a ha => ⟨?_, rfl⟩⟩
    have ha' : MmuDevice.isRomPtr a = false := ha
    simp [MmuDevice.findPhysMem, ha']

theorem digic6_patchesRam (n : ℕ) (mallocOk : State Unit → ℕ → Bool) :
    PatchesRam (digic6 n mallocOk) where
  sizeOk size h := by simpa [digic6] using h
  readValue s a i _ := by cases i <;> simp [digic6, Digic6.readValue]
  readBlock _ _ _ _ := rfl
  applyPatch s p hp h := by
    have hp' : isRomPtr p.addr = false := hp
    · simp only [digic6, Digic6.applyPatch, Digic6.patchMemoryRam] at h ⊢
      split_ifs at h ⊢ with hsize <;> simp_all [ePatchTooSmall, ePatchOk, Patch.newBytes]
  syncCaches _ := rfl
  unpatchMemory := ⟨_, _, rfl, fun _ _ ha => ⟨rfl, ha⟩⟩

/-! ### Iterations that go on -/

namespace Backend

variable {δ : Type} {B : Backend δ} {s : State δ} {p : Patch} {e : UInt32}

theorem backup_error (h : B.backup s p = .error e) : e ≠ 0 := by
  rw [backup] at h
  by_cases hbig : p.size > 4
  · rw [if_pos hbig] at h
    split at h
    · split_ifs at h <;> cases h <;> decide
    · cases h
      decide
  · simp only [if_neg hbig] at h
    split_ifs at h
    cases h
    decide

/-- What an iteration that does not leave the loop has done. -/
theorem patchOne_inv (h : (B.patchOne s p).stop = false) :
    B.sizeOk p.size = true ∧ ∃ q, B.backup s p = .ok q ∧ (B.applyPatch s p).2.2 = 0 ∧
      ∃ s', (s' = (B.applyPatch s p).1 ∨ s' = (B.syncCaches (B.applyPatch s p).1).1) ∧
        (B.patchOne s p).state = { s' with patchesGlobal := s'.patchesGlobal ++ [q] } := by
  rw [patchOne] at h ⊢
  split_ifs at h ⊢ with hsize
  cases hb : B.backup s p with
  | error e => simp [hb] at h
  | ok q =>
    simp only [hb] at h ⊢
    split_ifs at h ⊢ with herr
    all_goals
      refine ⟨by simpa using hsize, q, rfl, by simpa using herr, _, ?_, rfl⟩
      simp

theorem patchOne_err_ne_zero (h : (B.patchOne s p).stop = true) : (B.patchOne s p).err ≠ 0 := by
  rw [patchOne] at h ⊢
  split_ifs at h ⊢
  · exact show ePatchUnknownError ≠ 0 by decide
  · exact show ePatchBadAddr ≠ 0 by decide
  · exact show ePatchAlreadyPatched ≠ 0 by decide
  · exact show ePatchTooManyPatches ≠ 0 by decide
  · cases hb : B.backup s p with
    | error e => exact backup_error hb
    | ok q =>
      simp only [hb] at h ⊢
      split_ifs at h ⊢ with herr
      simpa using herr

theorem applyLoop_cons_ok {ps : List Patch} (h : (B.applyLoop s (p :: ps) e).2.2 = 0) :
    (B.patchOne s p).stop = false ∧
      (B.applyLoop (B.patchOne s p).state ps (B.patchOne s p).err).2.2 = 0 ∧
      (B.applyLoop s (p :: ps) e).1 =
        (B.applyLoop (B.patchOne s p).state ps (B.patchOne s p).err).1 := by
  rw [applyLoop] at h ⊢
  cases hstop : (B.patchOne s p).stop with
  | true => exact absurd (by simpa [hstop] using h) (patchOne_err_ne_zero hstop)
  | false => simpa [hstop] using h

end Backend

/-! ### Block patches as an undo log -/

/-- A patch of more than four bytes comes with as many new bytes as its size says. -/
def Patch.HasNewBytes (p : Patch) : Prop :=
  4 < p.size → p.size.toNat ≤ (p.newValues.getD []).length
deriving Decidable

/-- The undo-log entry of a block patch. -/
def Patch.blockEntry (p : Patch) : UndoLog.Entry ℕ UInt8 :=
  UndoLog.blockEntry (cellOf p.addr) p.oldBytes p.newBytes

/-- An entry for RAM whose saved blocks have the size of the patch, at least four bytes. -/
structure Patch.Recorded {δ : Type} (B : Backend δ) (p : Patch) : Prop where
  ram : B.isRomPtr p.addr = false
  size : 4 ≤ p.size
  old : p.oldBytes.length = p.size.toNat
  new : p.newBytes.length = p.size.toNat

section

variable {δ : Type} {B : Backend δ} {s : State δ} {p : Patch} {cs : List Call}

/-- Memory and the patch table, for a table of block patches. -/
def blockConfig (s : State δ) : UndoLog.Config ℕ UInt8 where
  mem := s.mem
  log := s.patchesGlobal.map Patch.blockEntry

theorem toNat_size_of_le (h : 4 ≤ p.size) (h' : ¬ p.size > 4) : p.size.toNat = 4 := by
  have h₁ : 4 ≤ p.size.toNat := h
  have h₂ : ¬ 4 < p.size.toNat := h'
  omega

/-- A patch that has been backed up is recorded at its own address, with the bytes it replaces
and the bytes it writes. -/
theorem backup_ok (hB : PatchesRam B) (hrom : B.isRomPtr p.addr = false) (hnew : p.HasNewBytes)
    (hsize : 4 ≤ p.size) {q : Patch} (h : B.backup s p = .ok q) :
    q.Recorded B ∧ q.addr = p.addr ∧ q.newBytes = p.newBytes ∧
      s.mem.readBytes (cellOf p.addr) q.oldBytes.length = q.oldBytes := by
  rw [Backend.backup] at h
  by_cases hbig : p.size > 4
  · rw [if_pos hbig] at h
    have hlen := hnew hbig
    match hnews : p.newValues, holds : p.oldValues with
    | none, _ => simp [hnews] at h
    | some _, none => simp [holds] at h
    | some new, some old =>
      simp only [hnews, holds, Option.getD_some] at h hlen
      split_ifs at h with hmalloc hmem
      rw [hB.readBlock _ _ _ hrom] at hmem
      have hmem' : old.take p.size.toNat = s.mem.readBytes (cellOf p.addr) p.size.toNat := by
        simpa using hmem
      cases h
      have hq : (4 : UInt32) < p.size := hbig
      refine ⟨⟨hrom, hsize, ?_, ?_⟩, rfl, ?_, ?_⟩
      · simp [Patch.oldBytes, hq, hmem']
      · simp [Patch.newBytes, hq, hlen]
      · simp [Patch.newBytes, hq, hnews]
      · simp [Patch.oldBytes, hq, hmem']
  · simp only [if_neg hbig] at h
    split_ifs at h
    cases h
    have hread := hB.readValue s p.addr p.isInstruction hrom
    have hfour := toNat_size_of_le hsize hbig
    refine ⟨⟨hrom, hsize, ?_, ?_⟩, rfl, ?_, ?_⟩
    · simp [Patch.oldBytes, hbig, hfour]
    · simp [Patch.newBytes, hbig, hfour]
    · simp [Patch.newBytes]
    · have hlt := leValue_lt (s.mem.readBytes (cellOf p.addr) 4)
      have hbytes := leBytes_leValue (s.mem.readBytes (cellOf p.addr) 4)
      rw [length_readBytes] at hlt hbytes
      simp only [Patch.oldBytes, hbig, if_false, hread, length_leBytes,
        ByteMemory.readWord]
      rw [UInt32.toNat_ofNat_of_lt' hlt, hbytes]

/-- An iteration on a RAM patch that goes on records the change of its block. -/
theorem patchOne_blockConfig (hB : PatchesRam B) (hrom : B.isRomPtr p.addr = false)
    (hnew : p.HasNewBytes) (h : (B.patchOne s p).stop = false)
    (hs : ∀ q ∈ s.patchesGlobal, q.Recorded B) :
    UndoLog.Run (blockConfig s) (blockConfig (B.patchOne s p).state) ∧
      ∀ q ∈ (B.patchOne s p).state.patchesGlobal, q.Recorded B := by
  obtain ⟨hsize, q, hback, herr, s', hs', hstate⟩ := Backend.patchOne_inv h
  obtain ⟨hq, haddr, hbytes, hold⟩ := backup_ok hB hrom hnew (hB.sizeOk _ hsize) hback
  obtain ⟨hmem, htable⟩ := hB.applyPatch s p hrom herr
  have hs'' : s' = (B.applyPatch s p).1 := by
    rcases hs' with rfl | rfl
    · rfl
    · exact hB.syncCaches _
  subst hs''
  rw [hstate]
  constructor
  · have hstep := UndoLog.Step.record_block (l := (blockConfig s).log)
      (hq.new.trans hq.old.symm) hold
    refine .single ?_
    have hpost : blockConfig { (B.applyPatch s p).1 with
        patchesGlobal := (B.applyPatch s p).1.patchesGlobal ++ [q] } =
        ⟨s.mem.writeBytes (cellOf p.addr) q.newBytes,
          (blockConfig s).log ++ [UndoLog.blockEntry (cellOf p.addr) q.oldBytes q.newBytes]⟩ := by
      simp [blockConfig, hmem, htable, hbytes, Patch.blockEntry, haddr]
    rw [hpost]
    exact hstep
  · simp only [htable, mem_append, mem_singleton]
    rintro r (hr | rfl)
    · exact hs r hr
    · exact hq

theorem applyLoop_blockConfig (hB : PatchesRam B) (ps : List Patch) (s : State δ) (e : UInt32)
    (hps : ∀ p ∈ ps, B.isRomPtr p.addr = false ∧ p.HasNewBytes)
    (h : (B.applyLoop s ps e).2.2 = 0) (hs : ∀ q ∈ s.patchesGlobal, q.Recorded B) :
    UndoLog.Run (blockConfig s) (blockConfig (B.applyLoop s ps e).1) ∧
      ∀ q ∈ (B.applyLoop s ps e).1.patchesGlobal, q.Recorded B := by
  induction ps generalizing s e with
  | nil => exact ⟨.refl, hs⟩
  | cons p ps ih =>
    obtain ⟨hstop, hrest, hstate⟩ := Backend.applyLoop_cons_ok h
    obtain ⟨hrom, hnew⟩ := hps p mem_cons_self
    obtain ⟨hone, hs'⟩ := patchOne_blockConfig hB hrom hnew hstop hs
    obtain ⟨hmany, hs''⟩ := ih _ _ (fun q hq => hps q (mem_cons_of_mem p hq)) hrest hs'
    rw [hstate]
    exact ⟨hone.trans hmany, hs''⟩

theorem isPatchStillApplied_of_inPlace (hB : PatchesRam B) (hp : p.Recorded B)
    (h : s.mem.readBytes (cellOf p.addr) p.size.toNat = p.newBytes) :
    isPatchStillApplied (B.readValue s) p = true := by
  have hfirst : s.mem.readBytes (cellOf p.addr) 4 = p.newBytes.take 4 := by
    rw [← h]
    have : min 4 p.size.toNat = 4 := Nat.min_eq_left hp.size
    simp [ByteMemory.readBytes, ← map_take, this]
  rw [isPatchStillApplied, hB.readValue _ _ _ hp.ram, ByteMemory.readWord, hfirst,
    Patch.firstNewWord, Patch.newBytes]
  split_ifs with hbig
  · have : min 4 p.size.toNat = 4 := Nat.min_eq_left hp.size
    simp [take_take, this]
  · have hlt : p.newValue.toNat < 256 ^ 4 := p.newValue.toNat_lt
    have htake : (ByteMemory.leBytes 4 p.newValue.toNat).take 4 =
        ByteMemory.leBytes 4 p.newValue.toNat := take_of_length_le (by simp)
    rw [htake, leValue_leBytes, Nat.mod_eq_of_lt hlt, UInt32.ofNat_toNat,
      beq_self_eq_true]

/-- Removing a patch whose block is in place undoes its change. -/
theorem unpatchMemory_blockConfig (hB : PatchesRam B) (a : UInt32)
    (hs : ∀ q ∈ s.patchesGlobal, q.Recorded B)
    (hclean : ∀ q ∈ s.patchesGlobal, q.addr = a →
      s.mem.readBytes (cellOf a) q.size.toNat = q.newBytes) :
    UndoLog.Run (blockConfig s) (blockConfig (B.unpatchMemory s a).1) ∧
      ∀ q ∈ (B.unpatchMemory s a).1.patchesGlobal, q.Recorded B := by
  obtain ⟨physMem, skip, hunpatch, hram⟩ := hB.unpatchMemory
  rw [hunpatch, unpatchBlock]
  cases hfind : s.patchesGlobal.findIdx? (·.addr == a) with
  | none => exact ⟨.refl, hs⟩
  | some i =>
    obtain ⟨l₁, p, l₂, hsplit, rfl, hl⟩ := exists_split hfind
    obtain rfl : l₁.length = i := by
      rw [hsplit, findIdx?_addr hl rfl] at hfind
      exact Option.some.inj hfind
    have hmem : p ∈ s.patchesGlobal := by simp [hsplit]
    have hblock := hclean p hmem rfl
    have hp := hs p hmem
    have hstill := isPatchStillApplied_of_inPlace hB hp hblock
    have hsmall : ¬ p.size < 4 := UInt32.not_lt.2 hp.size
    obtain ⟨hphys, hskip⟩ := hram s p.addr hp.ram
    simp only [hsplit, getD_append_cons, eraseIdx_append_cons, hskip, hstill, hphys, hsmall,
      Bool.not_true, Bool.false_eq_true, if_false]
    refine ⟨.single ?_, fun q hq => hs q (by simp_all [or_left_comm])⟩
    have hpre : blockConfig s = ⟨s.mem, l₁.map Patch.blockEntry ++
        UndoLog.blockEntry (cellOf p.addr) p.oldBytes p.newBytes :: l₂.map Patch.blockEntry⟩ := by
      simp [blockConfig, hsplit, Patch.blockEntry]
    rw [hpre, blockConfig, map_append]
    exact UndoLog.Step.undo_block (hp.new.trans hp.old.symm) (by rw [hp.new, hblock])

/-! ### Runs -/

/-- A successful call of `apply_patches` on RAM, or a call of `unpatch_memory` for an address
whose recorded block is whole. -/
def CleanCall (B : Backend δ) (s : State δ) : Call → Prop
  | .apply ps => (B.applyPatches s ps).2 = ePatchOk ∧
      ∀ p ∈ ps, B.isRomPtr p.addr = false ∧ p.HasNewBytes
  | .unpatch a => ∀ q ∈ s.patchesGlobal, q.addr = a →
      s.mem.readBytes (cellOf a) q.size.toNat = q.newBytes

instance (B : Backend δ) (s : State δ) : DecidablePred (CleanCall B s)
  | .apply _ => inferInstanceAs (Decidable (_ ∧ _))
  | .unpatch a => inferInstanceAs (Decidable (∀ q ∈ s.patchesGlobal, q.addr = a → _))

/-- A sequence of calls that are all clean in the state they are made in. -/
def CleanRun (B : Backend δ) : State δ → List Call → Prop
  | _, [] => True
  | s, c :: cs => CleanCall B s c ∧ CleanRun B (B.call s c) cs

instance (B : Backend δ) (s : State δ) (cs : List Call) : Decidable (CleanRun B s cs) :=
  match cs with
  | [] => .isTrue trivial
  | c :: cs =>
    have : Decidable (CleanRun B (B.call s c) cs) := instDecidableCleanRun B (B.call s c) cs
    inferInstanceAs (Decidable (_ ∧ _))

theorem CleanCall.blockConfig (hB : PatchesRam B) {c : Call} (hc : CleanCall B s c)
    (hs : ∀ q ∈ s.patchesGlobal, q.Recorded B) :
    UndoLog.Run (blockConfig s) (Patching.blockConfig (B.call s c)) ∧
      ∀ q ∈ (B.call s c).patchesGlobal, q.Recorded B := by
  cases c with
  | apply ps =>
    obtain ⟨hok, hps⟩ := hc
    simp only [Backend.applyPatches] at hok
    by_cases herr : (B.applyLoop s ps ePatchOk).2.2 = 0
    · have hcall : B.call s (.apply ps) = (B.applyLoop s ps ePatchOk).1 := by
        simp only [Backend.call, Backend.applyPatches]
        rw [if_neg (by simpa [ePatchOk] using herr)]
      rw [hcall]
      exact applyLoop_blockConfig hB ps s ePatchOk hps herr hs
    · rw [if_pos (by simpa [ePatchOk] using herr)] at hok
      exact absurd hok herr
  | unpatch a => exact unpatchMemory_blockConfig hB a hs hc

/-- **Clean runs are runs of the undo log.** -/
theorem CleanRun.undoLog (hB : PatchesRam B) (hcs : CleanRun B s cs)
    (hs : ∀ q ∈ s.patchesGlobal, q.Recorded B) :
    UndoLog.Run (blockConfig s) (blockConfig (B.run s cs)) := by
  induction cs generalizing s with
  | nil => exact .refl
  | cons c cs ih =>
    obtain ⟨hstep, hs'⟩ := CleanCall.blockConfig hB hcs.1 hs
    exact hstep.trans (ih hcs.2 hs')

theorem CleanRun.restores_memory (hB : PatchesRam B) (hcs : CleanRun B s cs)
    (h₀ : s.patchesGlobal = []) (h₁ : (B.run s cs).patchesGlobal = []) : (B.run s cs).mem = s.mem :=
  UndoLog.eq_of_run_empty_log (hcs.undoLog hB (by simp [h₀])) (by simp [blockConfig, h₀])
    (by simp [blockConfig, h₁])

end

/-- **Undoing whole blocks restores memory.** On DIGIC 6 and on DIGIC 7 and later, from an empty
table, after any sequence of successful calls of `apply_patches` on RAM blocks and of calls of
`unpatch_memory` that leaves the table empty again, every byte of memory has its original value,
provided each patch that is removed has its whole block in place at that time. -/
theorem digic678_restores_memory (n : ℕ) (mallocOk : State MmuDevice → ℕ → Bool)
    (mallocOk' : State Unit → ℕ → Bool) (cs : List Call) :
    (∀ s : State MmuDevice, s.patchesGlobal = [] → CleanRun (mmu n mallocOk) s cs →
      ((mmu n mallocOk).run s cs).patchesGlobal = [] →
        ((mmu n mallocOk).run s cs).mem = s.mem) ∧
    (∀ s : State Unit, s.patchesGlobal = [] → CleanRun (digic6 n mallocOk') s cs →
      ((digic6 n mallocOk').run s cs).patchesGlobal = [] →
        ((digic6 n mallocOk').run s cs).mem = s.mem) :=
  ⟨fun _ h₀ hcs h₁ => hcs.restores_memory (mmu_patchesRam n mallocOk) h₀ h₁,
    fun _ h₀ hcs h₁ => hcs.restores_memory (digic6_patchesRam n mallocOk') h₀ h₁⟩

/-! ### Overlapping blocks -/

/-- A processor whose translation tables have not been set up, with memory `m` and no patches. -/
def mmuBoot (m : ByteMemory) : State MmuDevice where
  mem := m
  patchesGlobal := []
  dev :=
    { cpuId := 0
      globalsInitialised := false
      tablesChanged := false
      conf := ⟨0, 0, fun _ => ⟨fun _ => 0, 0, 0, false⟩, 0, 0⟩
      backingPageIndex := 0 }

/-- A camera with DIGIC 6, memory `m` and no patches. -/
def digic6Boot (m : ByteMemory) : State Unit := ⟨m, [], ()⟩

/-- The bytes of two words. -/
def twoWords (v w : UInt32) : List UInt8 :=
  ByteMemory.leBytes 4 v.toNat ++ ByteMemory.leBytes 4 w.toNat

/-- Two words at `0x1000` and two words at `0x1004`, patched over zeros. -/
def overlappingPatches : List Patch :=
  [{ addr := 0x1000, size := 8, oldValues := some (twoWords 0 0),
     newValues := some (twoWords 1 1) },
   { addr := 0x1004, size := 8, oldValues := some (twoWords 1 0),
     newValues := some (twoWords 0 5) }]

/-- Removing two overlapping blocks, the later one first, restores memory. -/
theorem digic678_restores_memory_overlap :
    let cs : List Call := [.apply overlappingPatches, .unpatch 0x1004, .unpatch 0x1000]
    ((mmu 32 fun _ _ => true).run (mmuBoot fun _ => 0) cs).mem = (fun _ => 0) ∧
      ((digic6 32 fun _ _ => true).run (digic6Boot fun _ => 0) cs).mem = fun _ => 0 := by
  intro cs
  have h := digic678_restores_memory 32 (fun _ _ => true) (fun _ _ => true) cs
  exact ⟨h.1 _ rfl (by decide) (by decide), h.2 _ rfl (by decide) (by decide)⟩

/-- **Only the first word is checked.** Removing the same two blocks, the earlier one first,
succeeds at every call and empties the table, but the word that both cover keeps a value that it
did not have before. -/
theorem digic678_leaves_overlapped_word :
    let cs : List Call := [.apply overlappingPatches, .unpatch 0x1000, .unpatch 0x1004]
    let s := (mmu 32 fun _ _ => true).run (mmuBoot fun _ => 0) cs
    let s' := (digic6 32 fun _ _ => true).run (digic6Boot fun _ => 0) cs
    ((mmu 32 fun _ _ => true).results (mmuBoot fun _ => 0) cs = [0, 0, 0] ∧
      s.patchesGlobal = [] ∧ s.mem.readWord 0x1004 = 1) ∧
    (digic6 32 fun _ _ => true).results (digic6Boot fun _ => 0) cs = [0, 0, 0] ∧
      s'.patchesGlobal = [] ∧ s'.mem.readWord 0x1004 = 1 := by
  decide

end MagicLantern.Patching
