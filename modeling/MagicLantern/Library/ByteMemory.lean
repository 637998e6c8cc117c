import Mathlib.Data.List.GetD
import Mathlib.Tactic

/-!
# Byte memories and little-endian words

A byte memory assigns a byte to every address. Blocks of bytes are read and written at an
address, and a word is the little-endian value of a block. The two facts used throughout are
that a block which is read back after being written is the block written
(`readBytes_writeBytes`), and that a write is invisible outside its own block
(`writeBytes_of_notMem`, `readBytes_writeBytes_of_disjoint`).
-/

/-- A memory: one byte for every address. -/
abbrev ByteMemory : Type := ℕ → UInt8

namespace ByteMemory

open List

/-! ### Blocks -/

/-- The block of `n` bytes at address `a`. -/
def readBytes (m : ByteMemory) (a n : ℕ) : List UInt8 :=
  (List.range n).map fun i => m (a + i)

/-- The memory after storing the block `bs` at address `a`. -/
def writeBytes (m : ByteMemory) (a : ℕ) (bs : List UInt8) : ByteMemory := fun x =>
  if a ≤ x ∧ x < a + bs.length then bs.getD (x - a) 0 else m x

@[simp] theorem length_readBytes (m : ByteMemory) (a n : ℕ) : (readBytes m a n).length = n := by
  simp [readBytes]

@[simp] theorem getElem_readBytes (m : ByteMemory) (a n i : ℕ) (h : i < (readBytes m a n).length) :
    (readBytes m a n)[i] = m (a + i) := by
  simp [readBytes]

@[simp] theorem writeBytes_nil (m : ByteMemory) (a : ℕ) : writeBytes m a [] = m := by
  funext x
  simp only [writeBytes, length_nil]
  exact if_neg (by omega)

variable {a x n b : ℕ} {bs : List UInt8} {m m' : ByteMemory}

theorem writeBytes_of_mem (m : ByteMemory) (hx : a ≤ x) (hx' : x < a + bs.length) :
    writeBytes m a bs x = bs.getD (x - a) 0 :=
  if_pos ⟨hx, hx'⟩

theorem writeBytes_of_notMem (m : ByteMemory) (hx : x < a ∨ a + bs.length ≤ x) :
    writeBytes m a bs x = m x :=
  if_neg (by omega)

theorem readBytes_eq_iff :
    readBytes m a bs.length = bs ↔
      ∀ x, a ≤ x → x < a + bs.length → m x = bs.getD (x - a) 0 := by
  constructor
  · intro h x hx hx'
    have hlt : x - a < bs.length := by omega
    have hlt' : x - a < (readBytes m a bs.length).length := by simpa using hlt
    have hget : (readBytes m a bs.length)[x - a] = bs[x - a] := by simp only [h]
    rw [getElem_readBytes, Nat.add_sub_cancel' hx] at hget
    rw [hget, getD_eq_getElem _ _ hlt]
  · intro h
    refine ext_getElem (by simp) fun i hi hi' => ?_
    rw [getElem_readBytes, h (a + i) (by omega) (by omega), Nat.add_sub_cancel_left,
      getD_eq_getElem _ _ hi']

theorem readBytes_congr (h : ∀ x, a ≤ x → x < a + n → m x = m' x) :
    readBytes m a n = readBytes m' a n :=
  map_congr_left fun i hi => h _ (by omega) (by have := mem_range.mp hi; omega)

theorem readBytes_writeBytes (m : ByteMemory) (a : ℕ) (bs : List UInt8) :
    readBytes (writeBytes m a bs) a bs.length = bs :=
  readBytes_eq_iff.2 fun _ hx hx' => writeBytes_of_mem m hx hx'

theorem readBytes_writeBytes_of_disjoint (m : ByteMemory) (h : b + n ≤ a ∨ a + bs.length ≤ b) :
    readBytes (writeBytes m a bs) b n = readBytes m b n :=
  readBytes_congr fun _ _ _ => writeBytes_of_notMem m (by omega)

theorem writeBytes_readBytes (m : ByteMemory) (a b : ℕ) (hx : x < n) :
    writeBytes m a (readBytes m b n) (a + x) = m (b + x) := by
  have hlt : x < (readBytes m b n).length := by simpa using hx
  rw [writeBytes_of_mem m (Nat.le_add_right a x) (Nat.add_lt_add_left hlt a),
    Nat.add_sub_cancel_left, getD_eq_getElem _ _ hlt, getElem_readBytes]

/-! ### Little-endian values -/

/-- The little-endian value of a block. -/
def leValue : List UInt8 → ℕ
  | [] => 0
  | b :: bs => b.toNat + 256 * leValue bs

/-- The `n` low bytes of `v`, least significant first. -/
def leBytes : ℕ → ℕ → List UInt8
  | 0, _ => []
  | n + 1, v => UInt8.ofNat v :: leBytes n (v / 256)

@[simp] theorem length_leBytes (n v : ℕ) : (leBytes n v).length = n := by
  induction n generalizing v with
  | zero => rfl
  | succ n ih => simp [leBytes, ih]

theorem leValue_lt (bs : List UInt8) : leValue bs < 256 ^ bs.length := by
  induction bs with
  | nil => simp [leValue]
  | cons b bs ih =>
    have hb := b.toNat_lt
    simp only [leValue, length_cons]
    omega

@[simp] theorem leBytes_leValue (bs : List UInt8) : leBytes bs.length (leValue bs) = bs := by
  induction bs with
  | nil => rfl
  | cons b bs ih =>
    have hb := b.toNat_lt
    have hdiv : (b.toNat + 256 * leValue bs) / 256 = leValue bs := by omega
    simp only [leValue, length_cons, leBytes, hdiv, ih, cons.injEq, and_true]
    apply UInt8.toNat_inj.mp
    simp only [UInt8.toNat_ofNat']
    omega

@[simp] theorem leValue_leBytes (n v : ℕ) : leValue (leBytes n v) = v % 256 ^ n := by
  induction n generalizing v with
  | zero => simp [leBytes, leValue, Nat.mod_one]
  | succ n ih =>
    have hv : (UInt8.ofNat v).toNat = v % 256 := by simp
    rw [leBytes, leValue, ih, hv, pow_succ', Nat.mod_mul]

/-- A block is determined by its value. -/
theorem leValue_append (bs bs' : List UInt8) :
    leValue (bs ++ bs') = leValue bs + 256 ^ bs.length * leValue bs' := by
  induction bs with
  | nil => simp [leValue]
  | cons b bs ih =>
    rw [cons_append, leValue, ih, leValue, length_cons]
    ring

theorem leValue_inj {bs' : List UInt8} (hl : bs.length = bs'.length)
    (h : leValue bs = leValue bs') : bs = bs' := by
  rw [← leBytes_leValue bs, ← leBytes_leValue bs', hl, h]

/-! ### Words -/

/-- The 32-bit word at address `a`. -/
def readWord (m : ByteMemory) (a : ℕ) : UInt32 := UInt32.ofNat (leValue (readBytes m a 4))

/-- The memory after storing the 32-bit word `v` at address `a`. -/
def writeWord (m : ByteMemory) (a : ℕ) (v : UInt32) : ByteMemory :=
  writeBytes m a (leBytes 4 v.toNat)

theorem writeWord_of_notMem (m : ByteMemory) (v : UInt32) (hx : x < a ∨ a + 4 ≤ x) :
    writeWord m a v x = m x :=
  writeBytes_of_notMem m (by simpa using hx)

theorem readWord_congr (h : ∀ x, a ≤ x → x < a + 4 → m x = m' x) :
    readWord m a = readWord m' a := by
  rw [readWord, readWord, readBytes_congr h]

@[simp] theorem readWord_writeWord_self (m : ByteMemory) (a : ℕ) (v : UInt32) :
    readWord (writeWord m a v) a = v := by
  have hb := readBytes_writeBytes m a (leBytes 4 v.toNat)
  rw [length_leBytes] at hb
  have hv : v.toNat < 256 ^ 4 := v.toNat_lt
  rw [readWord, writeWord, hb, leValue_leBytes, Nat.mod_eq_of_lt hv, UInt32.ofNat_toNat]

theorem readWord_writeWord_of_disjoint (m : ByteMemory) (v : UInt32) (h : b + 4 ≤ a ∨ a + 4 ≤ b) :
    readWord (writeWord m a v) b = readWord m b :=
  readWord_congr fun _ _ _ => writeWord_of_notMem m v (by omega)

/-- `m'` is `m` outside the `n` bytes from `a` on. -/
def EqOff (m m' : ByteMemory) (a n : ℕ) : Prop := ∀ x, x < a ∨ a + n ≤ x → m' x = m x

theorem EqOff.rfl : EqOff m m a n := fun _ _ => Eq.refl _

theorem EqOff.mono {a' n' : ℕ} (h : EqOff m m' a n) (ha : a' ≤ a) (hn : a + n ≤ a' + n') :
    EqOff m m' a' n' :=
  fun x hx => h x (by omega)

theorem EqOff.trans {m'' : ByteMemory} (h : EqOff m m' a n) (h' : EqOff m' m'' a n) :
    EqOff m m'' a n :=
  fun x hx => (h' x hx).trans (h x hx)

theorem EqOff.readWord_eq (h : EqOff m m' a n) (hb : b + 4 ≤ a ∨ a + n ≤ b) :
    readWord m' b = readWord m b :=
  readWord_congr fun x _ _ => h x (by omega)

theorem eqOff_writeBytes (m : ByteMemory) (a : ℕ) (bs : List UInt8) :
    EqOff m (m.writeBytes a bs) a bs.length :=
  fun _ hx => writeBytes_of_notMem m hx

theorem eqOff_copy (m : ByteMemory) (a b n : ℕ) :
    EqOff m (m.writeBytes a (m.readBytes b n)) a n := by
  have h := eqOff_writeBytes m a (m.readBytes b n)
  rwa [length_readBytes] at h

theorem eqOff_writeWord (m : ByteMemory) (a : ℕ) (v : UInt32) :
    EqOff m (m.writeWord a v) a 4 :=
  fun _ hx => writeWord_of_notMem m v hx

/-- The memory after storing the words `f 0`, ..., `f (n - 1)` from address `a` on. -/
def fillWords (m : ByteMemory) (a : ℕ) (f : ℕ → UInt32) (n : ℕ) : ByteMemory :=
  (List.range n).foldl (fun m k => m.writeWord (a + 4 * k) (f k)) m

theorem fillWords_succ (m : ByteMemory) (a : ℕ) (f : ℕ → UInt32) (n : ℕ) :
    m.fillWords a f (n + 1) = (m.fillWords a f n).writeWord (a + 4 * n) (f n) := by
  simp [fillWords, range_succ]

theorem eqOff_fillWords (m : ByteMemory) (a : ℕ) (f : ℕ → UInt32) (n : ℕ) :
    EqOff m (m.fillWords a f n) a (4 * n) := by
  induction n with
  | zero => exact .rfl
  | succ n ih =>
    rw [fillWords_succ]
    exact (ih.mono (by omega) (by omega)).trans
      ((eqOff_writeWord _ _ _).mono (by omega) (by omega))

theorem readWord_fillWords (m : ByteMemory) (a : ℕ) (f : ℕ → UInt32) {k : ℕ} (hk : k < n) :
    readWord (m.fillWords a f n) (a + 4 * k) = f k := by
  induction n with
  | zero => omega
  | succ n ih =>
    rw [fillWords_succ]
    rcases Nat.lt_succ_iff_lt_or_eq.1 hk with hk | rfl
    · rw [readWord_writeWord_of_disjoint _ _ (by omega), ih hk]
    · exact readWord_writeWord_self _ _ _

end ByteMemory
