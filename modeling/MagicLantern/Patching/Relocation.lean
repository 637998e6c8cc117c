import MagicLantern.Patching.HookCode

/-!
# Moving the patched instruction

`reloc_instr` moves the instruction at a patched address into the code of the hook. A load relative
to the program counter gets a copy of its data, the fixup word, and an offset to it.

The rewriting is applied to the whole class of loads and stores of words and bytes whose base
register is the program counter. It is right for loads with a constant offset that do not change the
base register, if the fixup word is aligned. Stores write the copy instead of the data. A register
offset or a post-indexed access reads another word than the one that was copied.

Source: `src/src/patch_cache.c`, `src/src/patch.h`.

## Main results

* `relocates_iff` — which instructions keep their effect.
* `relocated_store_wrong`.
-/

namespace MagicLantern.Patching

open Function Arm

/-- The new instruction: offset `newOffset`, added to the base register. -/
def relocated (instr newOffset : Word) : Word :=
  (1#32 <<< 23) ||| (instr &&& ~~~0xFFF#32) ||| (newOffset &&& 0xFFF#32)

/-- `reloc_instr`, with the memory it leaves. -/
def relocInstr (m : Memory) (pc newPc fixup : Word) : Word × Memory :=
  let instr := ldr m pc
  if instr &&& 0x0C000000#32 = 0x04000000#32 then
    if (instr >>> 16) &&& 0xF#32 ≠ 15#32 then (instr, m)
    else
      let offset := instr &&& 0xFFF#32
      let offset := if instr &&& (1#32 <<< 23) = 0#32 then -offset else offset
      let dest := pc + offset + 8#32
      let data := ldr m dest
      let newOffset := fixup - newPc - 8#32
      (relocated instr newOffset, str m fixup data)
  else (instr, m)

/-- Two instructions do the same to registers, to the program counter and to memory other than the
fixup word, or are both undefined. -/
def SameEffect (fixup : Word) : Option Effect → Option Effect → Prop
  | none, none => True
  | some e, some e' => { e.machine with mem := e'.machine.mem } = e'.machine ∧ e.jump = e'.jump ∧
      ∀ i, i ≠ wordOf fixup → e.machine.mem i = e'.machine.mem i
  | _, _ => False

/-- Whenever `reloc_instr` changes the instruction `w`, the new instruction has the same effect at
its new address as `w` at the patched one. -/
def Relocates (w fixup : Word) : Prop :=
  ∀ (s : Machine) (pc newPc : Word), ldr s.mem pc = w → (fixup - newPc - 8#32).toNat < 4096 →
    (relocInstr s.mem pc newPc fixup).1 ≠ w →
    SameEffect fixup (exec s pc w)
      (exec { s with mem := (relocInstr s.mem pc newPc fixup).2 } newPc
        (relocInstr s.mem pc newPc fixup).1)

/-! ### Fields of the instructions -/

section

variable (w o : Word)

theorem getLsbD_relocated {i : ℕ} (hi : i < 32) : (relocated w o).getLsbD i =
    if i < 12 then o.getLsbD i else if i = 23 then true else w.getLsbD i := by
  interval_cases i <;> simp [relocated]

theorem extractLsb'_relocated {k l : ℕ} (hk : 12 ≤ k) (hkl : k + l ≤ 32)
    (h23 : k + l ≤ 23 ∨ 23 < k) : (relocated w o).extractLsb' k l = w.extractLsb' k l := by
  ext i hi
  rw [BitVec.getElem_extractLsb', BitVec.getElem_extractLsb', getLsbD_relocated w o (by omega),
    if_neg (by omega), if_neg (by omega)]

theorem decode_relocated :
    decode (relocated w o) = { decode w with up := true, operand := o.extractLsb' 0 12 } := by
  have hoperand : (relocated w o).extractLsb' 0 12 = o.extractLsb' 0 12 := by
    ext i hi
    simp [getLsbD_relocated w o (show i < 32 by omega), hi]
  have hup : (relocated w o).getLsbD 23 = true := getLsbD_relocated w o (by decide)
  have hkeep {i : ℕ} (hi : i < 32) (h12 : 12 ≤ i) (h23 : i ≠ 23) :
      (relocated w o).getLsbD i = w.getLsbD i := by
    rw [getLsbD_relocated w o hi, if_neg (by omega), if_neg h23]
  have hfield {k : ℕ} (hk : 12 ≤ k) (hk' : k + 4 ≤ 23) :
      (relocated w o).extractLsb' k 4 = w.extractLsb' k 4 :=
    extractLsb'_relocated w o hk (by omega) (.inl hk')
  rw [decode, decode, hoperand, hup, hfield (show 12 ≤ 16 by decide) (by decide),
    hfield (le_refl 12) (by decide), hkeep (show 25 < 32 by decide) (by decide) (by decide),
    hkeep (show 24 < 32 by decide) (by decide) (by decide),
    hkeep (show 22 < 32 by decide) (by decide) (by decide),
    hkeep (show 21 < 32 by decide) (by decide) (by decide),
    hkeep (show 20 < 32 by decide) (by decide) (by decide)]

theorem and_class_iff : w &&& 0x0C000000#32 = 0x04000000#32 ↔ w.extractLsb' 26 2 = 1#2 := by
  constructor
  · intro h
    ext i hi
    have hbit := congrArg (BitVec.getLsbD · (26 + i)) h
    interval_cases i <;> simpa [BitVec.getElem_extractLsb'] using hbit
  · intro h
    have hbit (i : ℕ) := congrArg (BitVec.getLsbD · i) h
    ext i hi
    interval_cases i <;> simp <;> first | simpa using hbit 0 | simpa using hbit 1

theorem base_iff : (w >>> 16) &&& 0xF#32 = 15#32 ↔ (decode w).rn = 15#4 := by
  rw [decode]
  constructor
  · intro h
    ext i hi
    have hbit := congrArg (BitVec.getLsbD · i) h
    interval_cases i <;> simpa [BitVec.getElem_extractLsb'] using hbit
  · intro h
    have hbit (i : ℕ) := congrArg (BitVec.getLsbD · i) h
    ext i hi
    interval_cases i <;> simp <;>
      first | simpa using hbit 0 | simpa using hbit 1 | simpa using hbit 2 | simpa using hbit 3

theorem and_offset_eq : w &&& 0xFFF#32 = (decode w).operand.setWidth 32 := by
  ext i hi
  interval_cases i <;> simp [decode]

theorem and_up_iff : w &&& (1#32 <<< 23) = 0#32 ↔ (decode w).up = false := by
  rw [decode]
  constructor
  · intro h
    simpa using congrArg (BitVec.getLsbD · 23) h
  · intro h
    ext i hi
    interval_cases i <;> simp
    exact h

end

/-- The address of the data of a load or store relative to the program counter, with a constant
offset. -/
def literalAddress (i : Access) (pc : Word) : Word :=
  if i.up then pc + 8#32 + i.operand.setWidth 32 else pc + 8#32 - i.operand.setWidth 32

variable {m : Memory} {newPc : Word}

theorem relocInstr_of_ne {pc fixup w : Word} (hw : ldr m pc = w)
    (h : w.extractLsb' 26 2 ≠ 1#2 ∨ (decode w).rn ≠ 15#4) :
    (relocInstr m pc newPc fixup).1 = w := by
  simp only [relocInstr, hw, and_class_iff, ne_eq, base_iff]
  rcases h with h | h
  · rw [if_neg h]
  · simp [h]

theorem relocInstr_eq {pc fixup w : Word} (hw : ldr m pc = w) (hclass : w.extractLsb' 26 2 = 1#2)
    (hrn : (decode w).rn = 15#4) :
    relocInstr m pc newPc fixup = (relocated w (fixup - newPc - 8#32),
      str m fixup (ldr m (literalAddress (decode w) pc))) := by
  have hdest : pc + (if (decode w).up = false then -(decode w).operand.setWidth 32
      else (decode w).operand.setWidth 32) + 8#32 = literalAddress (decode w) pc := by
    rw [literalAddress]
    cases (decode w).up
    · simp only [if_true, Bool.false_eq_true, if_false]
      abel
    · simp only [Bool.true_eq_false, if_true, if_false]
      abel
  simp only [relocInstr, hw, and_class_iff, hclass, if_true, ne_eq, base_iff, hrn, not_true,
    if_false, and_up_iff, and_offset_eq, hdest]

/-- The new address of the instruction and its offset lead to the fixup word. -/
theorem newPc_add {fixup : Word} (h : (fixup - newPc - 8#32).toNat < 4096) :
    newPc + 8#32 + ((fixup - newPc - 8#32).extractLsb' 0 12).setWidth 32 = fixup := by
  have hoffset : ((fixup - newPc - 8#32).extractLsb' 0 12).setWidth 32 = fixup - newPc - 8#32 := by
    apply BitVec.eq_of_toNat_eq
    rw [BitVec.toNat_setWidth, BitVec.extractLsb'_toNat, Nat.shiftRight_zero,
      Nat.mod_eq_of_lt (show _ < 2 ^ 12 from h),
      Nat.mod_eq_of_lt (h.trans (by decide))]
  rw [hoffset]
  abel

/-! ### Loads with a constant offset -/

/-- A load with a constant offset that does not change its base register, or whose change of the
program counter is overwritten by the loaded value. -/
def LiteralLoad (i : Access) : Prop :=
  i.registerOffset = false ∧ i.preIndexed = true ∧ i.load = true ∧
    (i.writeback = false ∨ i.rd = 15#4)

variable {s : Machine} {i : Access} {pc w fixup a x : Word} {j : BitVec 30}

theorem indexed_of_const (hrn : i.rn = 15#4) (h : i.registerOffset = false) :
    i.indexed s pc = literalAddress i pc := by
  simp [Access.indexed, literalAddress, Access.offset, Machine.read, hrn, h]

theorem exec_of_literalLoad (hrn : i.rn = 15#4) (h : LiteralLoad i) :
    i.exec s pc = some (Effect.setReg ⟨s, none⟩ i.rd (i.loaded s.mem (literalAddress i pc))) := by
  obtain ⟨hreg, hpre, hload, hwb⟩ := h
  have haddr : i.address s pc = literalAddress i pc := by
    rw [Access.address, hpre, if_pos rfl, indexed_of_const hrn hreg]
  rw [Access.exec, haddr]
  rcases hwb with hwb | hrd
  · simp [hreg, hload, Access.writtenBack, hpre, hwb, Access.transfer]
  · simp only [hreg, hload, Access.writtenBack, hpre, Access.transfer, hrd, hrn, Effect.setReg]
    cases i.writeback <;> simp

@[simp] theorem str_self (m : Memory) (a x : Word) : str m a x (wordOf a) = x :=
  update_self _ _ _

theorem str_of_ne (h : j ≠ wordOf a) : str m a x j = m j :=
  update_of_ne h _ _

theorem lane_cases (a : Word) : lane a = 0 ∨ lane a = 1 ∨ lane a = 2 ∨ lane a = 3 := by
  rw [lane]
  omega

/-- A word is loaded with the addressed byte in front. -/
theorem ldr_and (m : Memory) (a : Word) : ldr m a &&& 0xFF#32 = ldrb m a := by
  rw [ldr, ldrb]
  rcases lane_cases a with h | h | h | h <;> rw [h] <;> ext j hj <;> interval_cases j <;>
    simp [BitVec.getElem_rotateRight]

/-- The copy in the fixup word is loaded like the data. -/
theorem loaded_str_fixup (hfixup : fixup.toNat % 4 = 0) (m : Memory) (a : Word) :
    i.loaded (str m fixup (ldr m a)) fixup = i.loaded m a := by
  have hlane : lane fixup = 0 := hfixup
  simp only [Access.loaded]
  split_ifs
  · rw [ldrb, hlane, ← ldr_and]
    simp
  · rw [ldr, hlane]
    ext j hj
    simp [hj]

theorem SameEffect.setReg (m m' : Memory) (h : ∀ j, j ≠ wordOf fixup → m j = m' j) (r : BitVec 4)
    (x : Word) : SameEffect fixup (some (Effect.setReg ⟨{ s with mem := m }, none⟩ r x))
      (some (Effect.setReg ⟨{ s with mem := m' }, none⟩ r x)) := by
  simp only [Effect.setReg]
  split_ifs
  · exact ⟨rfl, rfl, h⟩
  · exact ⟨rfl, rfl, h⟩

/-- A load with a constant offset keeps its effect. -/
theorem relocates_of_literalLoad (hclass : w.extractLsb' 26 2 = 1#2) (hrn : (decode w).rn = 15#4)
    (h : LiteralLoad (decode w)) (hfixup : fixup.toNat % 4 = 0) : Relocates w fixup := by
  intro s pc newPc hw hrange _
  rw [relocInstr_eq hw hclass hrn]
  set o := fixup - newPc - 8#32 with ho
  set m := str s.mem fixup (ldr s.mem (literalAddress (decode w) pc)) with hm
  have hmem (j : BitVec 30) (hj : j ≠ wordOf fixup) : s.mem j = m j := (str_of_ne hj).symm
  have hclass' := extractLsb'_relocated w o (show 12 ≤ 26 by decide) (show 26 + 2 ≤ 32 by decide)
    (by decide)
  have hcond' := extractLsb'_relocated w o (show 12 ≤ 28 by decide) (show 28 + 4 ≤ 32 by decide)
    (by decide)
  have hpassed : Machine.condPassed { s with mem := m } = s.condPassed := rfl
  simp only [exec, hclass', hcond', hclass, hpassed]
  split_ifs with hcond
  · exact ⟨rfl, rfl, hmem⟩
  have hlit' : LiteralLoad (decode (relocated w o)) := by rwa [decode_relocated]
  have hrn' : (decode (relocated w o)).rn = 15#4 := by rwa [decode_relocated]
  have haddr : literalAddress (decode (relocated w o)) newPc = fixup := by
    rw [literalAddress, decode_relocated]
    exact newPc_add hrange
  have hrd : (decode (relocated w o)).rd = (decode w).rd := by rw [decode_relocated]
  have hloaded : (decode (relocated w o)).loaded m fixup =
      (decode w).loaded s.mem (literalAddress (decode w) pc) := by
    rw [← loaded_str_fixup hfixup s.mem, decode_relocated]
    rfl
  rw [exec_of_literalLoad hrn h, exec_of_literalLoad hrn' hlit', haddr, hrd, hloaded]
  exact SameEffect.setReg s.mem m hmem _ _

theorem relocates_of_never (hclass : w.extractLsb' 26 2 = 1#2) (hrn : (decode w).rn = 15#4)
    (hnever : w.extractLsb' 28 4 = 15#4) : Relocates w fixup := by
  intro s pc newPc hw _ _
  rw [relocInstr_eq hw hclass hrn]
  have hcond' := extractLsb'_relocated w (fixup - newPc - 8#32) (show 12 ≤ 28 by decide)
    (show 28 + 4 ≤ 32 by decide) (by decide)
  have hfails (s : Machine) : s.condPassed 15#4 = false := rfl
  simp only [exec, hcond', hnever, hfails, Bool.not_false]
  exact ⟨rfl, rfl, fun j hj => (str_of_ne hj).symm⟩

/-! ### Other instructions -/

/-- The load or store with another constant or register as offset. -/
def withOperand (i : Access) (o : BitVec 12) : Access := { i with up := true, operand := o }

/-- A state and addresses where the new instruction has another effect. -/
theorem not_relocates (hclass : w.extractLsb' 26 2 = 1#2) (hrn : (decode w).rn = 15#4)
    {o : BitVec 12} (hw : ldr s.mem pc = w)
    (hcond : s.condPassed (w.extractLsb' 28 4) = true) (ho : o ≠ (decode w).operand)
    (h : ¬ SameEffect fixup ((decode w).exec s pc) ((withOperand (decode w) o).exec
      { s with mem := str s.mem fixup (ldr s.mem (literalAddress (decode w) pc)) }
      (fixup - 8#32 - o.setWidth 32))) : ¬ Relocates w fixup := by
  intro hrel
  set newPc := fixup - 8#32 - o.setWidth 32 with hnewPc
  have hoffset : fixup - newPc - 8#32 = o.setWidth 32 := by
    rw [hnewPc]
    abel
  have hrange : (fixup - newPc - 8#32).toNat < 4096 := by
    rw [hoffset, BitVec.toNat_setWidth]
    exact (Nat.mod_le _ _).trans_lt o.isLt
  have hoperand : (fixup - newPc - 8#32).extractLsb' 0 12 = o := by
    rw [hoffset]
    ext j hj
    simp [hj, show j < 32 by omega]
  have hdecode : decode (relocated w (fixup - newPc - 8#32)) = withOperand (decode w) o := by
    rw [decode_relocated, hoperand]
    rfl
  have hsame := hrel s pc newPc hw hrange
  rw [relocInstr_eq hw hclass hrn] at hsame
  refine h ?_
  have hne : relocated w (fixup - newPc - 8#32) ≠ w := by
    intro heq
    rw [heq] at hdecode
    exact ho (congrArg Access.operand hdecode).symm
  have hclass' := extractLsb'_relocated w (fixup - newPc - 8#32) (show 12 ≤ 26 by decide)
    (show 26 + 2 ≤ 32 by decide) (by decide)
  have hcond' := extractLsb'_relocated w (fixup - newPc - 8#32) (show 12 ≤ 28 by decide)
    (show 28 + 4 ≤ 32 by decide) (by decide)
  have hpassed (m : Memory) : Machine.condPassed { s with mem := m } = s.condPassed := rfl
  simpa only [exec, hclass', hcond', hclass, hcond, hpassed, if_true, Bool.not_true,
    Bool.false_eq_true, if_false, hdecode] using hsame hne

theorem exists_operand (x : BitVec 12) : ∃ o : BitVec 12, (o = 4#12 ∨ o = 8#12) ∧ o ≠ x := by
  by_cases h : x = 4#12
  · exact ⟨8#12, .inr rfl, by rw [h]; decide⟩
  · exact ⟨4#12, .inl rfl, Ne.symm h⟩

theorem exists_flags {cond : BitVec 4} (h : cond ≠ 15#4) :
    ∃ n z c v : Bool, ∀ reg mem, Machine.condPassed ⟨reg, mem, n, z, c, v⟩ cond = true := by
  have hsome : ∀ cond : BitVec 4, cond ≠ 15#4 → ∃ n z c v : Bool,
      Machine.condPassed ⟨fun _ => 0, fun _ => 0, n, z, c, v⟩ cond = true := by decide
  obtain ⟨n, z, c, v, hpassed⟩ := hsome cond h
  exact ⟨n, z, c, v, fun _ _ => hpassed⟩

/-! ### Accesses to another word -/

theorem wordOf_eq_iff {b : Word} : wordOf a = wordOf b ↔ a.toNat / 4 = b.toNat / 4 := by
  rw [← BitVec.toNat_inj, wordOf, wordOf, BitVec.extractLsb'_toNat, BitVec.extractLsb'_toNat]
  omega

theorem ldr_of_aligned (h : a.toNat % 4 = 0) : ldr m a = m (wordOf a) := by
  rw [ldr, show lane a = 0 from h]
  ext j hj
  simp [hj]

theorem ldr_update_of_aligned (h : a.toNat % 4 = 0) (x : Word) :
    ldr (update m (wordOf a) x) a = x := by
  rw [ldr_of_aligned h, update_self]

/-- A word of zeros and a word of ones are loaded differently. -/
theorem exists_loaded_ne (i : Access) (m : Memory) (a v : Word) :
    ∃ x, i.loaded (update m (wordOf a) x) a ≠ v := by
  have hzero : i.loaded (update m (wordOf a) 0#32) a = 0#32 := by
    rw [Access.loaded, ldrb, ldr, update_self]
    split_ifs
    · simp
    · ext j hj
      simp [BitVec.getElem_rotateRight]
  have hones : i.loaded (update m (wordOf a) (BitVec.allOnes 32)) a ≠ 0#32 := by
    intro h
    have hbit := congrArg (BitVec.getLsbD · 0) h
    rw [Access.loaded, ldrb, ldr] at hbit
    rcases lane_cases a with hl | hl | hl | hl <;> rw [hl] at hbit <;> split_ifs at hbit <;>
      simp at hbit
  by_cases h : v = 0#32
  · exact ⟨BitVec.allOnes 32, by rwa [h]⟩
  · exact ⟨0#32, by rw [hzero]; exact Ne.symm h⟩

theorem store_of_ne {i : Access} (h : j ≠ wordOf a) : i.store m a x j = m j := by
  rw [Access.store]
  split_ifs
  · exact update_of_ne h _ _
  · exact update_of_ne h _ _

theorem store_congr {i : Access} {m' : Memory} (h : m (wordOf a) = m' (wordOf a)) :
    i.store m a x (wordOf a) = i.store m' a x (wordOf a) := by
  simp only [Access.store, strb, h]
  split_ifs
  · rw [update_self, update_self]
  · rw [str_self, str_self]

/-- A word of zeros or a word of ones is changed by a store. -/
theorem exists_store_ne (i : Access) (m : Memory) (a v : Word) :
    ∃ x, i.store (update m (wordOf a) x) a v (wordOf a) ≠ x := by
  -- The first bit of the stored value arrives in the addressed byte.
  let x := if v.getLsbD 0 then 0#32 else BitVec.allOnes 32
  refine ⟨x, fun h => ?_⟩
  rw [Access.store] at h
  split_ifs at h
  · have hbit := congrArg (BitVec.getLsbD · (8 * lane a)) h
    rw [strb] at hbit
    rcases lane_cases a with hl | hl | hl | hl <;> rw [hl] at hbit <;> dsimp only [x] at hbit <;>
      split_ifs at hbit <;> simp_all
  · have hbit := congrArg (BitVec.getLsbD · 0) h
    dsimp only [x] at hbit
    split_ifs at hbit <;> simp_all

@[simp] theorem setReg_mem (e : Effect) (r : BitVec 4) (x : Word) :
    (e.setReg r x).machine.mem = e.machine.mem := by
  rw [Effect.setReg]
  split_ifs <;> rfl

theorem not_sameEffect_setReg {e e' : Effect} {r : BitVec 4} {x' : Word} (h : x ≠ x') :
    ¬ SameEffect fixup (some (e.setReg r x)) (some (e'.setReg r x')) := by
  rintro ⟨hmachine, hjump, -⟩
  simp only [Effect.setReg] at hmachine hjump
  by_cases hr : r = 15#4
  · rw [if_pos hr, if_pos hr] at hjump
    exact h (Option.some_inj.1 hjump)
  · rw [if_neg hr, if_neg hr] at hmachine
    have hreg := congrFun (congrArg Machine.reg hmachine) r
    simp only [update_self] at hreg
    exact h hreg

theorem exec_load (hdef : (i.registerOffset && i.operand.getLsbD 4) = false)
    (hload : i.load = true) : i.exec s pc =
      some ((i.writtenBack s pc).setReg i.rd (i.loaded s.mem (i.address s pc))) := by
  rw [Access.exec, hdef, hload]
  rfl

theorem exec_store (hdef : (i.registerOffset && i.operand.getLsbD 4) = false)
    (hload : i.load = false) : i.exec s pc = some (i.writtenBack s pc) := by
  rw [Access.exec, hdef, hload]
  rfl

theorem writtenBack_mem (hload : i.load = false) : (i.writtenBack s pc).machine.mem =
    i.store s.mem (i.address s pc) (s.stored pc i.rd) := by
  rw [Access.writtenBack]
  split_ifs
  · rw [setReg_mem, Access.transfer, hload]
    rfl
  · rw [Access.transfer, hload]
    rfl

theorem withOperand_defined {o : BitVec 12} (h : o.getLsbD 4 = false) :
    ((withOperand (decode w) o).registerOffset && (withOperand (decode w) o).operand.getLsbD 4) =
      false := by
  change ((decode w).registerOffset && o.getLsbD 4) = false
  rw [h, Bool.and_false]

/-- If the new instruction uses a word that neither holds the copy nor is used by the original
instruction, it has another effect. -/
theorem not_relocates_of_elsewhere (hclass : w.extractLsb' 26 2 = 1#2) (hrn : (decode w).rn = 15#4)
    {o : BitVec 12} (hcond : s.condPassed (w.extractLsb' 28 4) = true) (ho : o ≠ (decode w).operand)
    (hpc : pc.toNat % 4 = 0) (hdef : ((decode w).registerOffset && (decode w).operand.getLsbD 4) =
      false) (hdef' : o.getLsbD 4 = false)
        (ha : (withOperand (decode w) o).address s (fixup - 8#32 -
      o.setWidth 32) = a) (hfixup : wordOf a ≠ wordOf fixup) (hinstr : wordOf a ≠ wordOf pc)
    (horig : wordOf a ≠ wordOf ((decode w).address s pc)) : ¬ Relocates w fixup := by
  let m (x : Word) : Memory :=
    update (update (fun _ => 0#32) (wordOf pc) w) (wordOf a) x
  have hw (x : Word) : ldr (m x) pc = w := by
    rw [ldr_of_aligned hpc]
    simp [m, update_of_ne hinstr.symm]
  have hdef' := withOperand_defined (w := w) hdef'
  have haddr (t : Memory) : (withOperand (decode w) o).address { s with mem := t }
      (fixup - 8#32 - o.setWidth 32) = a := ha
  have haddr' (t : Memory) : (decode w).address { s with mem := t } pc =
      (decode w).address s pc := rfl
  cases hload : (decode w).load with
  | true =>
    -- The two loads see different words, one of which can be chosen.
    obtain ⟨x, hx⟩ := exists_loaded_ne (decode w)
      (update (fun _ => 0#32) (wordOf pc) w) a
      ((decode w).loaded (m 0#32) ((decode w).address s pc))
    have hcopy (d : Word) : str (m x) fixup d (wordOf a) = m x (wordOf a) := str_of_ne hfixup
    have hkeep : m x (wordOf ((decode w).address s pc)) =
        m 0#32 (wordOf ((decode w).address s pc)) := by
      simp [m, update_of_ne horig.symm]
    refine not_relocates (s := { s with mem := m x }) hclass hrn (hw x) hcond ho ?_
    rw [exec_load hdef hload, exec_load hdef' hload]
    refine not_sameEffect_setReg ?_
    rw [haddr, haddr']
    intro heq
    refine hx ?_
    simp only [Access.loaded, ldr, ldrb, hcopy, hkeep] at heq ⊢
    exact heq.symm
  | false =>
    obtain ⟨x, hx⟩ := exists_store_ne (decode w)
      (update (fun _ => 0#32) (wordOf pc) w) a
      (s.stored (fixup - 8#32 - o.setWidth 32) (decode w).rd)
    refine not_relocates (s := { s with mem := m x }) hclass hrn (hw x) hcond ho ?_
    rw [exec_store hdef hload, exec_store hdef' hload]
    rintro ⟨-, -, hmem⟩
    have hword := hmem (wordOf a) hfixup
    rw [writtenBack_mem hload, writtenBack_mem (i := withOperand (decode w) o) hload, haddr, haddr',
      store_of_ne horig, store_congr (str_of_ne hfixup)] at hword
    refine hx (hword.symm.trans ?_)
    exact update_self _ _ _

/-! ### Choosing addresses -/

/-- Each of two conditions excludes at most one of three addresses. -/
theorem exists_pc (t c : Word) :
    ∃ pc : Word, pc.toNat % 4 = 0 ∧ wordOf t ≠ wordOf pc ∧ wordOf t ≠ wordOf (pc + c) := by
  by_contra! h
  have h0 := h 0#32 (by decide)
  have h1 := h 16#32 (by decide)
  have h2 := h 32#32 (by decide)
  simp only [ne_eq, wordOf_eq_iff, BitVec.toNat_add, BitVec.toNat_ofNat] at h0 h1 h2
  omega

/-- Each of two words contains at most one of three addresses. -/
theorem exists_distance (t x y : Word) : ∃ d : Word, wordOf (t + d) ≠ wordOf t ∧
    wordOf (t + d) ≠ wordOf x ∧ wordOf (t + d) ≠ wordOf y := by
  by_contra! h
  have h0 := h 16#32
  have h1 := h 32#32
  have h2 := h 48#32
  simp only [ne_eq, wordOf_eq_iff, BitVec.toNat_add, BitVec.toNat_ofNat] at h0 h1 h2
  omega

/-- An address and another one at a given distance, in different words. -/
theorem exists_wordOf_add_ne (h : x ≠ 0#32) : ∃ pc : Word, wordOf (pc + x) ≠ wordOf pc := by
  rw [ne_eq, ← BitVec.toNat_inj, BitVec.toNat_ofNat] at h
  by_contra! hall
  have h0 := hall 0#32
  have h3 := hall 3#32
  simp only [wordOf_eq_iff, BitVec.toNat_add, BitVec.toNat_ofNat] at h0 h3
  omega

/-- Each of three conditions excludes at most one of four addresses. -/
theorem exists_store_pc (f x w : Word) (t : ℕ) : ∃ pc : Word, pc.toNat % 4 = 0 ∧
    wordOf (pc + x) ≠ wordOf f ∧ (pc + 12#32).toNat % 256 ≠ t ∧ (pc + 12#32).toNat % 256 ≠ 0 ∧
    pc + 12#32 ≠ w := by
  by_contra! h
  have h0 := h 16#32 (by decide)
  have h1 := h 32#32 (by decide)
  have h2 := h 48#32 (by decide)
  have h3 := h 64#32 (by decide)
  simp only [ne_eq, wordOf_eq_iff] at h0 h1 h2 h3
  simp only [← BitVec.toNat_inj, BitVec.toNat_add, BitVec.toNat_ofNat] at h0 h1 h2 h3
  omega

/-- The distance from an instruction to its data. -/
def literalDistance (i : Access) : Word :=
  if i.up then 8#32 + i.operand.setWidth 32 else 8#32 - i.operand.setWidth 32

theorem literalAddress_eq (i : Access) (pc : Word) :
    literalAddress i pc = pc + literalDistance i := by
  rw [literalAddress, literalDistance]
  split_ifs
  · rw [add_assoc]
  · rw [add_sub_assoc]

/-- With a constant offset, the new instruction uses the fixup word. -/
theorem literalAddress_withOperand (i : Access) (o : BitVec 12) :
    literalAddress (withOperand i o) (fixup - 8#32 - o.setWidth 32) = fixup := by
  rw [literalAddress, withOperand, if_pos rfl]
  abel

theorem address_of_const (hrn : i.rn = 15#4) (hpre : i.preIndexed = true)
    (hconst : i.registerOffset = false) : i.address s pc = literalAddress i pc := by
  rw [Access.address, if_pos hpre, indexed_of_const hrn hconst]

theorem strb_and (m : Memory) (a x : Word) :
    (strb m a x (wordOf a) >>> (8 * lane a)) &&& 0xFF#32 = x &&& 0xFF#32 := by
  rw [strb, update_self]
  rcases lane_cases a with h | h | h | h <;> rw [h] <;> ext j hj <;> interval_cases j <;> simp

theorem toNat_and_byte (x : Word) : (x &&& 0xFF#32).toNat = x.toNat % 256 := by
  exact Nat.and_two_pow_sub_one_eq_mod x.toNat 8

theorem loaded_and (i : Access) (m : Memory) (a : Word) : i.loaded m a &&& 0xFF#32 = ldrb m a := by
  rw [Access.loaded]
  split_ifs
  · rw [ldrb, BitVec.and_assoc, BitVec.and_self]
  · exact ldr_and m a

/-- Data at a distance of zero is the instruction itself. -/
theorem operand_of_literalDistance (h : literalDistance i = 0#32) : i.operand = 8#12 := by
  rw [literalDistance, ← BitVec.toNat_inj] at h
  apply BitVec.eq_of_toNat_eq
  split_ifs at h
  · simp only [BitVec.toNat_add, BitVec.toNat_setWidth, BitVec.toNat_ofNat] at h
    omega
  · simp only [BitVec.toNat_sub, BitVec.toNat_setWidth, BitVec.toNat_ofNat] at h
    simp only [BitVec.toNat_ofNat]
    omega

theorem ldr_update (m : Memory) (a x : Word) :
    ldr (update m (wordOf a) (x.rotateLeft (8 * lane a))) a = x := by
  rw [ldr, update_self]
  rcases lane_cases a with h | h | h | h <;> rw [h] <;> ext j hj <;> interval_cases j <;>
    simp [BitVec.getElem_rotateLeft]

/-! ### All other loads and stores -/

section

variable {n z c v : Bool} {o : BitVec 12} (hclass : w.extractLsb' 26 2 = 1#2)
  (hrn : (decode w).rn = 15#4) (ho : o ≠ (decode w).operand)
  (hcond : ∀ reg mem, Machine.condPassed ⟨reg, mem, n, z, c, v⟩ (w.extractLsb' 28 4) = true)

include hclass hrn ho hcond

section

variable (ho4 : o = 4#12 ∨ o = 8#12)

include ho4

/-- An undefined instruction becomes a load or store. -/
theorem not_relocates_of_undefined
    (hundef : ((decode w).registerOffset && (decode w).operand.getLsbD 4) = true) :
    ¬ Relocates w fixup := by
  have hbit : o.getLsbD 4 = false := by rcases ho4 with rfl | rfl <;> rfl
  have hw : ldr (update (fun _ => 0#32) (wordOf 0#32) w) 0#32 = w :=
    ldr_update_of_aligned rfl w
  refine not_relocates (s := ⟨fun _ => 0#32, _, n, z, c, v⟩) hclass hrn hw (hcond _ _) ho ?_
  have hnone (s : Machine) (pc : Word) : (decode w).exec s pc = none := by
    rw [Access.exec, hundef]
    rfl
  have hsome (s : Machine) (pc : Word) : ((withOperand (decode w) o).exec s pc).isSome = true := by
    rw [Access.exec, withOperand_defined hbit]
    rfl
  rw [hnone]
  obtain ⟨e, he⟩ := Option.isSome_iff_exists.1 (hsome _ _)
  rw [he]
  exact id

/-- A post-indexed access uses the word behind the instruction, whatever its offset. -/
theorem not_relocates_of_postIndexed
    (hdef : ((decode w).registerOffset && (decode w).operand.getLsbD 4) = false)
    (hpost : (decode w).preIndexed = false) : ¬ Relocates w fixup := by
  obtain ⟨pc, hpc, hinstr, horig⟩ := exists_pc (fixup - o.setWidth 32) 8#32
  let s : Machine := ⟨fun _ => 0#32, fun _ => 0#32, n, z, c, v⟩
  have hbit : o.getLsbD 4 = false := by rcases ho4 with rfl | rfl <;> rfl
  have hbase (i : Access) (pc : Word) (hrn : i.rn = 15#4) (hpost : i.preIndexed = false) :
      i.address s pc = pc + 8#32 := by
    rw [Access.address, hpost, Machine.read, if_pos hrn]
    rfl
  refine not_relocates_of_elsewhere (s := s) (a := fixup - o.setWidth 32) hclass hrn (hcond _ _) ho
    hpc hdef hbit ?_ ?_ hinstr ?_
  · rw [hbase (withOperand (decode w) o) _ hrn hpost]
    abel
  · rw [ne_eq, wordOf_eq_iff, BitVec.toNat_sub]
    rcases ho4 with rfl | rfl
    all_goals
      simp only [BitVec.toNat_setWidth, BitVec.toNat_ofNat]
      omega
  · rwa [hbase _ _ hrn hpost]

/-- With a register offset, the new instruction takes another register and another word. -/
theorem not_relocates_of_register
    (hdef : ((decode w).registerOffset && (decode w).operand.getLsbD 4) = false)
    (hpre : (decode w).preIndexed = true) (hreg : (decode w).registerOffset = true) :
    ¬ Relocates w fixup := by
  let s (r : Word) : Machine := ⟨fun _ => r, fun _ => 0#32, n, z, c, v⟩
  have hbit : o.getLsbD 4 = false := by rcases ho4 with rfl | rfl <;> rfl
  -- All registers have the same value, so that the new offset is known.
  have haddr (d : Word) : (withOperand (decode w) o).address (s (o.setWidth 32 + d))
      (fixup - 8#32 - o.setWidth 32) = fixup + d := by
    have hoffset (pc r : Word) : (withOperand (decode w) o).offset (s r) pc = r := by
      rcases ho4 with rfl | rfl <;>
        simp [Access.offset, withOperand, hreg, shift, Machine.read, s]
    rw [Access.address, show (withOperand (decode w) o).preIndexed = true from hpre, if_pos rfl,
      Access.indexed, hoffset, show (withOperand (decode w) o).up = true from rfl, if_pos rfl,
      Machine.read, show (withOperand (decode w) o).rn = 15#4 from hrn, if_pos rfl]
    abel
  by_cases hrm : (decode w).operand.extractLsb' 0 4 = 15#4
  · -- The original offset is the program counter, whatever the registers are.
    have hfixed (r : Word) : (decode w).address (s r) 0#32 = (decode w).address (s 0#32) 0#32 := by
      simp only [Access.address, Access.indexed, Access.offset, hrn, Machine.read, hrm,
        if_true, s]
    obtain ⟨d, hfixup, hinstr, horig⟩ :=
      exists_distance fixup 0#32 ((decode w).address (s 0#32) 0#32)
    refine not_relocates_of_elsewhere (s := s (o.setWidth 32 + d)) hclass hrn (hcond _ _) ho
      (by decide) hdef hbit (haddr d) hfixup hinstr ?_
    rwa [hfixed]
  · -- The original offset does not depend on the address of the instruction.
    have hmoves (r : Word) : ∃ x, ∀ pc, (decode w).address (s r) pc = pc + x := by
      have hread (pc : Word) : (s r).read pc ((decode w).operand.extractLsb' 0 4) = r := by
        rw [Machine.read, if_neg hrm]
      have hoffset (pc : Word) : (decode w).offset (s r) pc = (decode w).offset (s r) 0#32 := by
        simp only [Access.offset, hread]
      have hbase (pc : Word) : (s r).read pc (decode w).rn = pc + 8#32 := if_pos hrn
      refine ⟨if (decode w).up then 8#32 + (decode w).offset (s r) 0#32
        else 8#32 - (decode w).offset (s r) 0#32, fun pc => ?_⟩
      rw [Access.address, Access.indexed, hoffset, hbase]
      split_ifs
      · rw [add_assoc]
      · rw [add_sub_assoc]
    obtain ⟨x, hx⟩ := hmoves (o.setWidth 32 + 16#32)
    obtain ⟨pc, hpc, hinstr, horig⟩ := exists_pc (fixup + 16#32) x
    refine not_relocates_of_elsewhere (s := s (o.setWidth 32 + 16#32)) hclass hrn (hcond _ _) ho
      hpc hdef hbit (haddr 16#32) ?_ hinstr ?_
    · rw [ne_eq, wordOf_eq_iff, BitVec.toNat_add, BitVec.toNat_ofNat]
      omega
    · rwa [hx]

end

/-- A store changes the fixup word instead of the data. -/
theorem not_relocates_of_store (hconst : (decode w).registerOffset = false)
    (hpre : (decode w).preIndexed = true) (hstore : (decode w).load = false) :
    ¬ Relocates w fixup := by
  let x := literalDistance (decode w)
  obtain ⟨pc, hpc, hfixup, hbyte, hbyte0, hword⟩ :=
    exists_store_pc fixup x w ((w >>> (8 * lane x)) &&& 0xFF#32).toNat
  let m : Memory := update (fun _ => 0#32) (wordOf pc) w
  let s : Machine := ⟨fun _ => pc + 12#32, m, n, z, c, v⟩
  have hw : ldr m pc = w := ldr_update_of_aligned hpc w
  have hdef (o : BitVec 12) : ((decode w).registerOffset && o.getLsbD 4) = false := by
    rw [hconst, Bool.false_and]
  refine not_relocates (s := s) hclass hrn hw (hcond _ _) ho ?_
  rw [exec_store (hdef _) hstore, exec_store (i := withOperand (decode w) o) (hdef _) hstore]
  rintro ⟨-, -, hmem⟩
  have hdata := hmem (wordOf (pc + x)) hfixup
  have hstored : s.stored pc (decode w).rd = pc + 12#32 := by
    rw [Machine.stored]
    split_ifs <;> rfl
  rw [writtenBack_mem hstore, writtenBack_mem (i := withOperand (decode w) o) hstore,
    address_of_const hrn hpre hconst, literalAddress_eq, hstored,
    address_of_const (i := withOperand (decode w) o) hrn hpre hconst,
    literalAddress_withOperand, store_of_ne hfixup] at hdata
  change (decode w).store m (pc + x) (pc + 12#32) (wordOf (pc + x)) =
    str m fixup (ldr m (pc + x)) (wordOf (pc + x)) at hdata
  rw [str_of_ne hfixup, Access.store] at hdata
  -- Before the store, the word of the data is the instruction itself or zero.
  have hbefore : m (wordOf (pc + x)) = w ∨ m (wordOf (pc + x)) = 0#32 := by
    by_cases h : wordOf (pc + x) = wordOf pc
    · exact .inl (by rw [h]; exact update_self _ _ _)
    · exact .inr (update_of_ne h _ _)
  split_ifs at hdata with hb
  · have hlane : lane (pc + x) = lane x := by
      rw [lane, lane, BitVec.toNat_add]
      omega
    have hafter := congrArg BitVec.toNat (strb_and m (pc + x) (pc + 12#32))
    rw [hdata, toNat_and_byte (pc + 12#32), hlane] at hafter
    rcases hbefore with h | h
    · exact hbyte (hafter.symm.trans (by rw [← h]))
    · refine hbyte0 (hafter.symm.trans ?_)
      rw [h]
      simp
  · rw [str_self] at hdata
    rcases hbefore with h | h
    · exact hword (hdata.trans h)
    · refine hbyte0 ?_
      rw [hdata, h]
      rfl

/-- A load that changes the program counter continues at the fixup word. -/
theorem not_relocates_of_writeback (hconst : (decode w).registerOffset = false)
    (hload : (decode w).load = true) (hwb : (decode w).writeback = true)
    (hrd : (decode w).rd ≠ 15#4) : ¬ Relocates w fixup := by
  obtain ⟨pc, hpc, -, hne⟩ := exists_pc fixup (literalDistance (decode w))
  let m : Memory := update (fun _ => 0#32) (wordOf pc) w
  have hw : ldr m pc = w := ldr_update_of_aligned hpc w
  have hjump (i : Access) (s : Machine) (pc : Word) (hrn : i.rn = 15#4) (hwb : i.writeback = true)
      (hrd : i.rd ≠ 15#4) (hconst : i.registerOffset = false) (x : Word) :
      ((i.writtenBack s pc).setReg i.rd x).jump = some (literalAddress i pc) := by
    simp only [Effect.setReg, if_neg hrd, Access.writtenBack, hwb, Bool.or_true, if_true, hrn,
      indexed_of_const hrn hconst]
  have hdef (o : BitVec 12) : ((decode w).registerOffset && o.getLsbD 4) = false := by
    rw [hconst, Bool.false_and]
  refine not_relocates (s := ⟨fun _ => 0#32, m, n, z, c, v⟩) hclass hrn hw (hcond _ _) ho ?_
  rw [exec_load (hdef _) hload, exec_load (i := withOperand (decode w) o) (hdef _) hload]
  rintro ⟨-, hsame, -⟩
  rw [hjump (decode w) _ _ hrn hwb hrd hconst,
    hjump (withOperand (decode w) o) _ _ hrn hwb hrd hconst,
    literalAddress_withOperand, literalAddress_eq, Option.some_inj] at hsame
  exact hne (by rw [hsame])

/-- At an address that is not aligned, a load does not get back the word that was stored there. -/
theorem not_relocates_of_unaligned (hlit : LiteralLoad (decode w)) (hfixup : fixup.toNat % 4 ≠ 0) :
    ¬ Relocates w fixup := by
  -- It is enough that the addressed byte of the copy differs from the first byte of the data.
  have hbytes {m : Memory} {pc : Word} (hw : ldr m pc = w)
      (hne : ldrb m (literalAddress (decode w) pc) ≠
        (ldr m (literalAddress (decode w) pc) >>> (8 * lane fixup)) &&& 0xFF#32) :
      ¬ Relocates w fixup := by
    refine not_relocates (s := ⟨fun _ => 0#32, m, n, z, c, v⟩) hclass hrn hw (hcond _ _) ho ?_
    rw [exec_of_literalLoad hrn hlit, exec_of_literalLoad (i := withOperand (decode w) o) hrn hlit,
      literalAddress_withOperand]
    refine not_sameEffect_setReg fun heq => hne ?_
    have hfirst := congrArg (· &&& 0xFF#32) heq
    simp only [loaded_and] at hfirst
    rw [hfirst, ldrb, str_self]
  have hlane : lane fixup = 1 ∨ lane fixup = 2 ∨ lane fixup = 3 := by
    rw [lane]
    omega
  by_cases hx : literalDistance (decode w) = 0#32
  · -- The instruction loads itself, and its bytes are different.
    have hw : ldr (update (fun _ => 0#32) (wordOf 0#32) w) 0#32 = w :=
      ldr_update_of_aligned rfl w
    refine hbytes hw ?_
    rw [literalAddress_eq, hx, ← ldr_and, BitVec.add_zero, hw]
    have hoperand (j : ℕ) := congrArg (BitVec.getLsbD · j) (operand_of_literalDistance hx)
    have h0 : w[0] = false := by simpa [decode] using hoperand 0
    have h3 : w[3] = true := by simpa [decode] using hoperand 3
    have h11 : w[11] = false := by simpa [decode] using hoperand 11
    have h16 : w[16] = true := by simpa [decode] using congrArg (BitVec.getLsbD · 0) hrn
    have h24 : w[24] = true := by simpa [decode] using hlit.2.1
    intro heq
    have hbit (j : ℕ) := congrArg (BitVec.getLsbD · j) heq
    rcases hlane with h | h | h <;> rw [h] at hbit
    · simpa [h3, h11] using hbit 3
    · simpa [h0, h16] using hbit 0
    · simpa [h0, h24] using hbit 0
  · obtain ⟨pc, hne⟩ := exists_wordOf_add_ne hx
    let m : Memory := update (fun _ => 0#32) (wordOf pc) (w.rotateLeft (8 * lane pc))
    let a := pc + literalDistance (decode w)
    let m' : Memory := update m (wordOf a) ((1#32).rotateLeft (8 * lane a))
    have hw : ldr m' pc = w := by
      have hkeep : m' (wordOf pc) = m (wordOf pc) := update_of_ne hne.symm _ _
      rw [ldr, hkeep]
      exact ldr_update _ pc w
    refine hbytes hw ?_
    rw [literalAddress_eq, ← ldr_and, ldr_update]
    rcases hlane with h | h | h <;> rw [h] <;> decide

end

/-! ### Which instructions keep their effect -/

/-- **Moved instructions.** An instruction keeps its effect at every new address if and only if it
is not rewritten, is never executed, or is a load with a constant offset from the program counter
that leaves the program counter alone or loads it, and the fixup word is aligned. -/
theorem relocates_iff (w fixup : Word) : Relocates w fixup ↔
    w.extractLsb' 26 2 ≠ 1#2 ∨ (decode w).rn ≠ 15#4 ∨ w.extractLsb' 28 4 = 15#4 ∨
      LiteralLoad (decode w) ∧ fixup.toNat % 4 = 0 := by
  constructor
  · intro hrel
    by_contra! h
    obtain ⟨hclass, hrn, hnever, hlit⟩ := h
    obtain ⟨n, z, c, v, hcond⟩ := exists_flags hnever
    obtain ⟨o, ho4, ho⟩ := exists_operand (decode w).operand
    cases hdef : (decode w).registerOffset && (decode w).operand.getLsbD 4 with
    | true => exact not_relocates_of_undefined hclass hrn ho hcond ho4 hdef hrel
    | false =>
      cases hpre : (decode w).preIndexed with
      | false => exact not_relocates_of_postIndexed hclass hrn ho hcond ho4 hdef hpre hrel
      | true =>
        cases hreg : (decode w).registerOffset with
        | true => exact not_relocates_of_register hclass hrn ho hcond ho4 hdef hpre hreg hrel
        | false =>
          cases hload : (decode w).load with
          | false => exact not_relocates_of_store hclass hrn ho hcond hreg hpre hload hrel
          | true =>
            by_cases hwb : (decode w).writeback = false ∨ (decode w).rd = 15#4
            · have hload : LiteralLoad (decode w) := ⟨hreg, hpre, hload, hwb⟩
              exact not_relocates_of_unaligned hclass hrn ho hcond hload (hlit hload) hrel
            · rw [not_or, Bool.not_eq_false] at hwb
              exact not_relocates_of_writeback hclass hrn ho hcond hreg hload hwb.1 hwb.2 hrel
  · by_cases hclass : w.extractLsb' 26 2 = 1#2
    swap
    · exact fun _ s pc newPc hw _ hne => absurd (relocInstr_of_ne hw (.inl hclass)) hne
    by_cases hrn : (decode w).rn = 15#4
    swap
    · exact fun _ s pc newPc hw _ hne => absurd (relocInstr_of_ne hw (.inr hrn)) hne
    rintro (h | h | hnever | ⟨hlit, hfixup⟩)
    · exact absurd hclass h
    · exact absurd hrn h
    · exact relocates_of_never hclass hrn hnever
    · exact relocates_of_literalLoad hclass hrn hlit hfixup

/-- `STR R1, [PC, #16]` at `0x1000` stores to `0x1018`. Moved to `0x2000`, it stores to the fixup
word, and `0x1018` keeps its value. -/
theorem relocated_store_wrong :
    let w := 0xE58F1010#32
    let s : Machine := ⟨fun _ => 1#32, Function.update (fun _ => 0#32) (wordOf 0x1000#32) w,
      false, false, false, false⟩
    let r := relocInstr s.mem 0x1000#32 0x2000#32 0x200C#32
    ldr s.mem 0x1000#32 = w ∧ r.1 ≠ w ∧
      (exec s 0x1000#32 w).map (·.machine.mem (wordOf 0x1018#32)) = some 1#32 ∧
      (exec { s with mem := r.2 } 0x2000#32 r.1).map (·.machine.mem (wordOf 0x1018#32)) =
        some 0#32 := by
  decide +kernel

end MagicLantern.Patching
