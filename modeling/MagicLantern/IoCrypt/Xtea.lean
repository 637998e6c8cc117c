import MagicLantern.Library.ByteMemory
import MagicLantern.Library.KeyStream

/-!
# XTEA in counter mode

A file is encrypted with a key stream: the block cipher is applied to the number of each block of
eight bytes, and the result is combined with the bytes. A piece that begins or ends within a block
is processed byte by byte, whole blocks by words.

The processor (ARMv5TE) rotates a word that is loaded from an address which is not a multiple of 4,
and stores a word at the address rounded down. So whole blocks have to be at such multiples: the
address of the buffer and the position in the file have to be equal modulo 4.

Source: `src/modules/io_crypt/crypt_xtea.c`; `src/src/patch_cache.c` for the accesses.

## Main results

* `positionBased_iff` — when only the position matters.
* `not_positionBased_five`.
-/

namespace MagicLantern.IoCrypt

open List ByteMemory KeyStream

/-- `xtea_ctx_t`. -/
structure XteaCtx where
  password : Fin 4 → UInt32
  nonce : UInt64

/-- The rounds of `xtea_crypt_block`. -/
def xteaRounds (key : Fin 4 → UInt32) : ℕ → UInt32 → UInt32 → UInt32 → UInt32 × UInt32
  | 0, v0, v1, _ => (v0, v1)
  | rounds + 1, v0, v1, sum =>
    let v0 := v0 + ((((v1 <<< 4) ^^^ (v1 >>> 5)) + v1) ^^^
      (sum + key (Fin.ofNat 4 (sum &&& 3).toNat)))
    let sum := sum + 0x9E3779B9
    let v1 := v1 +
      ((((v0 <<< 4) ^^^ (v0 >>> 5)) + v0) ^^^ (sum + key (Fin.ofNat 4 ((sum >>> 11) &&& 3).toNat)))
    xteaRounds key rounds v0 v1 sum

/-- `xtea_crypt_block`. -/
def xteaCryptBlock (rounds : ℕ) (v : UInt32 × UInt32) (key : Fin 4 → UInt32) : UInt32 × UInt32 :=
  xteaRounds key rounds v.1 v.2 0

variable (ctx : XteaCtx)

/-- `ctr_block`, after encryption. -/
def ctrBlock (counter : UInt32) : UInt32 × UInt32 :=
  xteaCryptBlock 64 ((ctx.nonce >>> 32).toUInt32, counter ^^^ ctx.nonce.toUInt32) ctx.password

/-- `buf[i] ^= w` for a word at the address `a`. -/
def xorWord (m : ByteMemory) (a : ℕ) (w : UInt32) : ByteMemory :=
  writeBytes m (a - a % 4)
    (leBytes 4 (leValue ((readBytes m (a - a % 4) 4).rotate (a % 4)) ^^^ w.toNat))

/-- `ctr_xtea_block`. -/
def ctrXteaBlock (buf : ℕ) (counter : UInt32) (m : ByteMemory) : ByteMemory :=
  xorWord (xorWord m buf (ctrBlock ctx counter).1) (buf + 4) (ctrBlock ctx counter).2

/-- `ctr_xtea_block_partial`. -/
def ctrXteaBlockPartial (buf : ℕ) (counter : UInt32) (start len : ℕ) (m : ByteMemory) :
    ByteMemory :=
  writeBytes m buf ((readBytes m buf len).mapIdx fun i b =>
    if i + start < 4 then b ^^^ (leBytes 4 (ctrBlock ctx counter).1.toNat).getD (start + i) 0
    else b ^^^ (leBytes 4 (ctrBlock ctx counter).2.toNat).getD (start + i - 4) 0)

/-- The loop over whole blocks, and the rest. -/
def cryptBlocks : ℕ → ℕ → UInt32 → ℕ → ByteMemory → ByteMemory
  | 0, dst, counter, length, m =>
    if length ≠ 0 then ctrXteaBlockPartial ctx dst counter 0 length m else m
  | blocks + 1, dst, counter, length, m =>
    cryptBlocks blocks (dst + 8) (counter + 1) length (ctrXteaBlock ctx dst counter m)

/-- `crypt_xtea_encrypt`, and `crypt_xtea_decrypt`. -/
def cryptXteaEncrypt (dstIn srcIn inLength : ℕ) (offset : UInt32) (m : ByteMemory) : ByteMemory :=
  let m := if dstIn ≠ srcIn then writeBytes m dstIn (readBytes m srcIn inLength) else m
  let remain := (offset % 8).toNat
  if remain ≠ 0 then
    let remainLen := min inLength (8 - remain)
    cryptBlocks ctx ((inLength - remainLen) / 8) (dstIn + remainLen) ((offset >>> 3) + 1)
      ((inLength - remainLen) % 8) (ctrXteaBlockPartial ctx dstIn (offset >>> 3) remain remainLen m)
  else cryptBlocks ctx (inLength / 8) dstIn (offset >>> 3) (inLength % 8) m

/-! ### The key stream -/

/-- The bytes of a block of the key stream. -/
def ctrBytes (counter : UInt32) : List UInt8 :=
  leBytes 4 (ctrBlock ctx counter).1.toNat ++ leBytes 4 (ctrBlock ctx counter).2.toNat

/-- The key stream. -/
def XteaCtx.keyByte (o : ℕ) : UInt8 :=
  (ctrBytes ctx (UInt32.ofNat (o / 8))).getD (o % 8) 0

variable {a x : ℕ} {m : ByteMemory}

theorem leBytes_xor (n a b : ℕ) :
    leBytes n (a ^^^ b) = zipWith (· ^^^ ·) (leBytes n a) (leBytes n b) := by
  induction n generalizing a b with
  | zero => rfl
  | succ n ih =>
    have hdiv : (a ^^^ b) / 256 = a / 256 ^^^ b / 256 := Nat.xor_div_two_pow (n := 8)
    simp only [leBytes, zipWith_cons_cons, hdiv, ih]
    rw [UInt8.ofNat_xor]

theorem xorWord_of_mem (w : UInt32) {j : ℕ} (hj : j < 4) :
    xorWord m a w (a - a % 4 + j) =
      m (a - a % 4 + (j + a % 4) % 4) ^^^ (leBytes 4 w.toNat).getD j 0 := by
  have hlen : ((readBytes m (a - a % 4) 4).rotate (a % 4)).length = 4 := by simp
  have hbytes := leBytes_leValue ((readBytes m (a - a % 4) 4).rotate (a % 4))
  rw [hlen] at hbytes
  have hj' : j < (leBytes 4 w.toNat).length := by simpa using hj
  rw [xorWord, writeBytes_of_mem _ (Nat.le_add_right ..) (by simpa using hj),
    Nat.add_sub_cancel_left,
    leBytes_xor, hbytes, getD_eq_getElem _ _ (by simpa using hj), getElem_zipWith,
    getD_eq_getElem _ _ hj', getElem_rotate, getElem_readBytes]
  simp only [length_readBytes]

theorem xorWord_of_notMem (w : UInt32) (hx : x < a - a % 4 ∨ a - a % 4 + 4 ≤ x) :
    xorWord m a w x = m x :=
  writeBytes_of_notMem m (by simpa using hx)

/-- A word at a multiple of 4 is combined byte by byte. -/
theorem xorWord_eq {k : ℕ → UInt8} {o : ℕ} {w : UInt32} (ha : a % 4 = 0)
    (hk : ∀ i < 4, k (o + i) = (leBytes 4 w.toNat).getD i 0) : xorWord m a w = xorAt k a 4 o m := by
  funext x
  rw [xorAt]
  split_ifs with hx
  · have h := xorWord_of_mem (m := m) (a := a) w (j := x - a) (by omega)
    rwa [ha, show a - 0 + (x - a) = x by omega, show a - 0 + (x - a + 0) % 4 = x by omega,
      ← hk _ (by omega)] at h
  · exact xorWord_of_notMem w (by omega)

theorem keyByte_block (c i : ℕ) (hi : i < 8) :
    ctx.keyByte (8 * c + i) = (ctrBytes ctx (UInt32.ofNat c)).getD i 0 := by
  rw [XteaCtx.keyByte, show (8 * c + i) / 8 = c by omega, show (8 * c + i) % 8 = i by omega]

theorem getD_ctrBytes (counter : UInt32) (i : ℕ) :
    (ctrBytes ctx counter).getD i 0 =
      if i < 4 then (leBytes 4 (ctrBlock ctx counter).1.toNat).getD i 0
      else (leBytes 4 (ctrBlock ctx counter).2.toNat).getD (i - 4) 0 := by
  rw [ctrBytes]
  split_ifs with h
  · rw [getD_append _ _ _ _ (by simpa using h)]
  · rw [getD_append_right _ _ _ _ (by simpa using h), length_leBytes]

theorem ctrXteaBlock_eq (ha : a % 4 = 0) (c : ℕ) :
    ctrXteaBlock ctx a (UInt32.ofNat c) m = xorAt ctx.keyByte a 8 (8 * c) m := by
  rw [ctrXteaBlock, xorWord_eq (k := ctx.keyByte) (o := 8 * c) ha,
    xorWord_eq (k := ctx.keyByte) (o := 8 * c + 4) (by omega), xorAt_append]
  · intro i hi
    rw [Nat.add_assoc, keyByte_block ctx c _ (by omega), getD_ctrBytes, if_neg (by omega),
      Nat.add_sub_cancel_left]
  · intro i hi
    rw [keyByte_block ctx c i (by omega), getD_ctrBytes, if_pos hi]

theorem ctrXteaBlockPartial_eq {start len : ℕ} (hlen : start + len ≤ 8) (c : ℕ) :
    ctrXteaBlockPartial ctx a (UInt32.ofNat c) start len m =
      xorAt ctx.keyByte a len (8 * c + start) m := by
  funext x
  rw [ctrXteaBlockPartial, xorAt]
  split_ifs with hx
  · obtain ⟨i, rfl⟩ := Nat.exists_eq_add_of_le hx.1
    have hi : i < len := by omega
    rw [writeBytes_of_mem _ hx.1 (by simpa using hi), Nat.add_sub_cancel_left,
      getD_eq_getElem _ _ (by simpa using hi), getElem_mapIdx, getElem_readBytes, Nat.add_assoc,
      keyByte_block ctx c (start + i) (by omega), getD_ctrBytes, Nat.add_comm i start,
        apply_ite (m (a + i) ^^^ ·)]
  · exact writeBytes_of_notMem m (by simp; omega)

theorem cryptBlocks_eq {length : ℕ} (hlen : length ≤ 8) (blocks c : ℕ)
    (h : blocks = 0 ∨ a % 4 = 0) : cryptBlocks ctx blocks a (UInt32.ofNat c) length m =
      xorAt ctx.keyByte a (8 * blocks + length) (8 * c) m := by
  induction blocks generalizing a c m with
  | zero =>
    rw [cryptBlocks, Nat.mul_zero, Nat.zero_add]
    split_ifs with hzero
    · exact ctrXteaBlockPartial_eq ctx (by omega) c
    · rw [not_not.1 hzero, xorAt_zero]
  | succ blocks ih =>
    have ha := h.resolve_left (Nat.succ_ne_zero blocks)
    have hcounter : UInt32.ofNat c + 1 = UInt32.ofNat (c + 1) := by simp
    rw [cryptBlocks, hcounter, ih (c + 1) (.inr (by omega)), ctrXteaBlock_eq ctx ha, Nat.mul_succ,
      xorAt_append]
    congr 1
    ring

/-! ### Aligned buffers -/

/-- The bytes up to the next block. -/
def headLength (offset : UInt32) : ℕ := (8 - offset.toNat % 8) % 8

/-- The condition: whole blocks are at multiples of 4, or there is none. -/
def WordAligned (dstIn inLength : ℕ) (offset : UInt32) : Prop :=
  dstIn % 4 = offset.toNat % 4 ∨ inLength < headLength offset + 8

instance (dstIn inLength : ℕ) (offset : UInt32) : Decidable (WordAligned dstIn inLength offset) :=
  inferInstanceAs (Decidable (_ ∨ _))

variable {dstIn srcIn inLength : ℕ} {offset : UInt32}

/-- The memory after `memcpy`. -/
def copied (dstIn srcIn inLength : ℕ) (m : ByteMemory) : ByteMemory :=
  if dstIn ≠ srcIn then writeBytes m dstIn (readBytes m srcIn inLength) else m

theorem cryptXteaEncrypt_cases (dstIn srcIn inLength : ℕ) (offset : UInt32) (m : ByteMemory) :
    cryptXteaEncrypt ctx dstIn srcIn inLength offset m =
      let n := min inLength (headLength offset)
      cryptBlocks ctx ((inLength - n) / 8) (dstIn + n)
        (UInt32.ofNat ((offset.toNat + headLength offset) / 8)) ((inLength - n) % 8)
        (xorAt ctx.keyByte dstIn n offset.toNat (copied dstIn srcIn inLength m)) := by
  have hcounter : offset >>> 3 = UInt32.ofNat (offset.toNat / 8) := by
    rw [← UInt32.toNat_inj]
    have := offset.toNat_lt
    simp [Nat.shiftRight_eq_div_pow]
    omega
  have hremain : (offset % 8).toNat = offset.toNat % 8 := by simp
  have hoffset := Nat.div_add_mod offset.toNat 8
  rw [cryptXteaEncrypt, hcounter, hremain, ← copied]
  split_ifs with h
  · have hhead : headLength offset = 8 - offset.toNat % 8 := by
      rw [headLength]
      omega
    have hsucc : UInt32.ofNat (offset.toNat / 8) + 1 =
        UInt32.ofNat ((offset.toNat + headLength offset) / 8) := by
      rw [show (offset.toNat + headLength offset) / 8 = offset.toNat / 8 + 1 by omega]
      simp
    dsimp only
    rw [hsucc, ← hhead, ctrXteaBlockPartial_eq ctx (by omega), hoffset]
  · have hhead : headLength offset = 0 := by
      rw [headLength]
      omega
    simp [hhead]

/-- A piece is combined with the key stream at its position. -/
theorem cryptXteaEncrypt_eq (h : WordAligned dstIn inLength offset) :
    cryptXteaEncrypt ctx dstIn srcIn inLength offset m =
      xorAt ctx.keyByte dstIn inLength offset.toNat (copied dstIn srcIn inLength m) := by
  have hhead : headLength offset = (8 - offset.toNat % 8) % 8 := rfl
  rw [WordAligned] at h
  rw [cryptXteaEncrypt_cases]
  generalize hn : min inLength (headLength offset) = n
  dsimp only
  rw [cryptBlocks_eq ctx (by omega) _ _ (by omega)]
  rcases Nat.lt_or_ge inLength (headLength offset) with hlt | hge
  · -- the piece ends within the first block
    rw [show 8 * ((inLength - n) / 8) + (inLength - n) % 8 = 0 by omega, xorAt_zero,
      show n = inLength by omega]
  · rw [show 8 * ((offset.toNat + headLength offset) / 8) = offset.toNat + n by omega, xorAt_append]
    congr 1
    omega

theorem copied_of_lt (hx : x < inLength) :
    copied dstIn srcIn inLength m (dstIn + x) = m (srcIn + x) := by
  rw [copied]
  split_ifs with h
  · exact writeBytes_readBytes m dstIn srcIn hx
  · rw [not_not.1 h]

theorem copied_of_notMem (hx : x < dstIn ∨ dstIn + inLength ≤ x) :
    copied dstIn srcIn inLength m x = m x := by
  rw [copied]
  split_ifs
  · exact writeBytes_of_notMem m (by simpa)
  · rfl

theorem WordAligned.encrypt_of_lt (h : WordAligned dstIn inLength offset) (hx : x < inLength) :
    cryptXteaEncrypt ctx dstIn srcIn inLength offset m (dstIn + x) =
      m (srcIn + x) ^^^ ctx.keyByte (offset.toNat + x) := by
  rw [cryptXteaEncrypt_eq ctx h, xorAt, if_pos (by omega), copied_of_lt hx, Nat.add_sub_cancel_left]

theorem WordAligned.encrypt_of_notMem (h : WordAligned dstIn inLength offset)
    (hx : x < dstIn ∨ dstIn + inLength ≤ x) :
    cryptXteaEncrypt ctx dstIn srcIn inLength offset m x = m x := by
  rw [cryptXteaEncrypt_eq ctx h, xorAt, if_neg (by omega), copied_of_notMem hx]

/-- The whole blocks of a piece are whole blocks of the file. -/
theorem WordAligned.piece (h : WordAligned dstIn inLength offset)
    (hlen : offset.toNat + inLength < 2 ^ 32) {p : ℕ × ℕ} (hp : p.1 + p.2 ≤ inLength) :
    WordAligned (dstIn + p.1) p.2 (offset + UInt32.ofNat p.1) ∧
      (offset + UInt32.ofNat p.1).toNat = offset.toNat + p.1 := by
  have hoffset : (offset + UInt32.ofNat p.1).toNat = offset.toNat + p.1 := by
    rw [UInt32.toNat_add, UInt32.toNat_ofNat']
    omega
  rw [WordAligned, headLength] at h ⊢
  rw [hoffset]
  exact ⟨by omega, rfl⟩

/-! ### Calls for pieces -/

/-- The calls for pieces of a file, given by their positions in the buffers and their lengths. -/
def cryptXteaPieces (dstIn srcIn : ℕ) (offset : UInt32) (m : ByteMemory) (pieces : List (ℕ × ℕ)) :
    ByteMemory :=
  pieces.foldl (fun m p =>
    cryptXteaEncrypt ctx (dstIn + p.1) (srcIn + p.1) p.2 (offset + UInt32.ofNat p.1) m) m

variable {pieces : List (ℕ × ℕ)}

/-- The bytes that the pieces contain are combined once, and the others are not changed. -/
theorem WordAligned.pieces_apply (h : WordAligned dstIn inLength offset)
    (hlen : offset.toNat + inLength < 2 ^ 32)
    (hbuf : dstIn = srcIn ∨ dstIn + inLength ≤ srcIn ∨ srcIn + inLength ≤ dstIn)
    (hin : ∀ p ∈ pieces, p.1 + p.2 ≤ inLength)
    (hsep : pieces.Pairwise fun p q => p.1 + p.2 ≤ q.1 ∨ q.1 + q.2 ≤ p.1) (hx : x < inLength) :
    cryptXteaPieces ctx dstIn srcIn offset m pieces (dstIn + x) =
      if ∃ p ∈ pieces, p.1 ≤ x ∧ x < p.1 + p.2 then m (srcIn + x) ^^^ ctx.keyByte (offset.toNat + x)
      else m (dstIn + x) := by
  induction pieces generalizing m with
  | nil => simp [cryptXteaPieces]
  | cons p pieces ih =>
    obtain ⟨hp_in, hin⟩ := forall_mem_cons.1 hin
    obtain ⟨hp_sep, hsep⟩ := pairwise_cons.1 hsep
    obtain ⟨hp_aligned, hoffset⟩ := h.piece hlen hp_in
    rw [cryptXteaPieces, foldl_cons, ← cryptXteaPieces, ih hin hsep]
    by_cases hp : p.1 ≤ x ∧ x < p.1 + p.2
    · -- no later piece contains the byte
      have hrest : ¬ ∃ q ∈ pieces, q.1 ≤ x ∧ x < q.1 + q.2 := by
        rintro ⟨q, hq, hqx⟩
        have := hp_sep q hq
        omega
      rw [if_neg hrest, if_pos ⟨p, mem_cons_self, hp⟩]
      have hbyte : cryptXteaEncrypt ctx (dstIn + p.1) (srcIn + p.1)
          p.2 _ m (dstIn + p.1 + (x - p.1)) = _ :=
        hp_aligned.encrypt_of_lt ctx (by omega)
      rwa [hoffset, show dstIn + p.1 + (x - p.1) = dstIn + x by omega,
        show srcIn + p.1 + (x - p.1) = srcIn + x by omega,
        show offset.toNat + p.1 + (x - p.1) = offset.toNat + x by omega] at hbyte
    · have hdst : cryptXteaEncrypt ctx (dstIn + p.1) (srcIn + p.1) p.2 _ m (dstIn + x) =
          m (dstIn + x) :=
        hp_aligned.encrypt_of_notMem ctx (by omega)
      have hsrc : cryptXteaEncrypt ctx (dstIn + p.1) (srcIn + p.1) p.2 _ m (srcIn + x) =
          m (srcIn + x) :=
        hp_aligned.encrypt_of_notMem ctx (by omega)
      simp only [mem_cons, exists_eq_or_imp, hp, false_or, hdst, hsrc]

theorem WordAligned.pieces_of_notMem (h : WordAligned dstIn inLength offset)
    (hlen : offset.toNat + inLength < 2 ^ 32) (hin : ∀ p ∈ pieces, p.1 + p.2 ≤ inLength)
    (hx : x < dstIn ∨ dstIn + inLength ≤ x) :
    cryptXteaPieces ctx dstIn srcIn offset m pieces x = m x := by
  induction pieces generalizing m with
  | nil => rfl
  | cons p pieces ih =>
    obtain ⟨hp, hin⟩ := forall_mem_cons.1 hin
    rw [cryptXteaPieces, foldl_cons, ← cryptXteaPieces, ih hin]
    exact (h.piece hlen hp).1.encrypt_of_notMem ctx (by omega)

/-- What is expected of a call: each byte is combined with the byte of the key stream at its
position in the file. So the data may be split into calls in any way and order, and what is
encrypted twice, into any buffer that is aligned, is the input. -/
structure PositionBased (dstIn srcIn inLength : ℕ) (offset : UInt32) (m : ByteMemory) : Prop where
  bytes : ∀ x < inLength, cryptXteaEncrypt ctx dstIn srcIn inLength offset m (dstIn + x) =
    m (srcIn + x) ^^^ ctx.keyByte (offset.toNat + x)
  pieces : ∀ pieces : List (ℕ × ℕ), (∀ p ∈ pieces, p.1 + p.2 ≤ inLength) →
    (pieces.Pairwise fun p q => p.1 + p.2 ≤ q.1 ∨ q.1 + q.2 ≤ p.1) →
    (∀ x < inLength, ∃ p ∈ pieces, p.1 ≤ x ∧ x < p.1 + p.2) →
    cryptXteaPieces ctx dstIn srcIn offset m pieces =
      cryptXteaEncrypt ctx dstIn srcIn inLength offset m
  twice : ∀ dst, dst = dstIn ∨ dst + inLength ≤ dstIn ∨ dstIn + inLength ≤ dst →
    WordAligned dst inLength offset →
    readBytes (cryptXteaEncrypt ctx dst dstIn inLength offset
      (cryptXteaEncrypt ctx dstIn srcIn inLength offset m)) dst inLength =
        readBytes m srcIn inLength

theorem WordAligned.positionBased (h : WordAligned dstIn inLength offset)
    (hlen : offset.toNat + inLength < 2 ^ 32)
    (hbuf : dstIn = srcIn ∨ dstIn + inLength ≤ srcIn ∨ srcIn + inLength ≤ dstIn) :
    PositionBased ctx dstIn srcIn inLength offset m := by
  refine ⟨fun x hx => h.encrypt_of_lt ctx hx, fun pieces hin hsep hcover => ?_,
    fun dst _ hdst => ?_⟩
  · funext x
    by_cases hx : x < dstIn ∨ dstIn + inLength ≤ x
    · rw [h.pieces_of_notMem ctx hlen hin hx, h.encrypt_of_notMem ctx hx]
    · obtain ⟨y, rfl⟩ : ∃ y, x = dstIn + y := ⟨x - dstIn, by omega⟩
      have hy : y < inLength := by omega
      rw [h.pieces_apply ctx hlen hbuf hin hsep hy, if_pos (hcover y hy), h.encrypt_of_lt ctx hy]
  · refine ext_getElem (by simp) fun i h₁ h₂ => ?_
    have hi : i < inLength := by simpa using h₂
    rw [getElem_readBytes, getElem_readBytes, hdst.encrypt_of_lt ctx hi, h.encrypt_of_lt ctx hi,
      xor_xor_cancel]

/-! ### Other buffers -/

theorem ctrXteaBlock_of_lt (counter : UInt32) (hx : x < a - a % 4) :
    ctrXteaBlock ctx a counter m x = m x := by
  rw [ctrXteaBlock, xorWord_of_notMem _ (.inl (by omega)), xorWord_of_notMem _ (.inl hx)]

theorem cryptBlocks_of_lt (blocks : ℕ) (counter : UInt32) (length : ℕ) (hx : x < a - a % 4) :
    cryptBlocks ctx blocks a counter length m x = m x := by
  induction blocks generalizing a counter m with
  | zero =>
    rw [cryptBlocks]
    split_ifs
    · exact writeBytes_of_notMem m (.inl (by omega))
    · rfl
  | succ blocks ih => rw [cryptBlocks, ih _ (by omega), ctrXteaBlock_of_lt ctx counter hx]

/-- The first byte of a block is made from the byte that the rotated load puts there, which is
another one when the block is not at a multiple of 4. -/
theorem cryptBlocks_first (blocks : ℕ) (counter : UInt32) (length : ℕ) :
    cryptBlocks ctx (blocks + 1) a counter length m a =
      m (a - a % 4 + 2 * (a % 4) % 4) ^^^
        (leBytes 4 (ctrBlock ctx counter).1.toNat).getD (a % 4) 0 := by
  have h := xorWord_of_mem (m := m) (a := a) (ctrBlock ctx counter).1
    (Nat.mod_lt a (show 4 > 0 by decide))
  rw [Nat.sub_add_cancel (Nat.mod_le a 4), ← two_mul] at h
  rw [cryptBlocks, cryptBlocks_of_lt ctx _ _ _ (by omega), ctrXteaBlock,
    xorWord_of_notMem _ (.inl (by omega)), h]

/-- The first byte of the first whole block does not depend on the input. -/
theorem encrypt_update_of_unaligned (h : ¬ WordAligned dstIn inLength offset)
    (hbuf : dstIn = srcIn ∨ dstIn + inLength ≤ srcIn ∨ srcIn + inLength ≤ dstIn) (b : UInt8) :
    cryptXteaEncrypt ctx dstIn srcIn inLength offset
        (Function.update m (srcIn + headLength offset) b) (dstIn + headLength offset) =
      cryptXteaEncrypt ctx dstIn srcIn inLength offset m (dstIn + headLength offset) := by
  have hhead : headLength offset = (8 - offset.toNat % 8) % 8 := rfl
  rw [WordAligned, not_or] at h
  obtain ⟨hmod, hlong⟩ := h
  obtain ⟨blocks, hblocks⟩ : ∃ k, (inLength - headLength offset) / 8 = k + 1 :=
    Nat.exists_eq_succ_of_ne_zero (by omega)
  simp only [cryptXteaEncrypt_cases, show min inLength (headLength offset) = headLength offset by
    omega, hblocks]
  rw [cryptBlocks_first, cryptBlocks_first]
  congr 1
  generalize hy : dstIn + headLength offset - (dstIn + headLength offset) % 4 +
    2 * ((dstIn + headLength offset) % 4) % 4 = y
  have hcopied : copied dstIn srcIn inLength (Function.update m (srcIn + headLength offset) b) y =
      copied dstIn srcIn inLength m y := by
    by_cases hout : y < dstIn ∨ dstIn + inLength ≤ y
    · rw [copied_of_notMem hout, copied_of_notMem hout, Function.update_of_ne (by omega)]
    · obtain ⟨z, rfl⟩ : ∃ z, y = dstIn + z := ⟨y - dstIn, by omega⟩
      rw [copied_of_lt (by omega), copied_of_lt (by omega), Function.update_of_ne (by omega)]
  simp only [xorAt, hcopied]

/-- **Counter mode is based on positions**, in place or into another buffer, whatever one of the
input bytes is, if and only if whole blocks are at multiples of 4. -/
theorem positionBased_iff (hlen : offset.toNat + inLength < 2 ^ 32)
    (hbuf : dstIn = srcIn ∨ dstIn + inLength ≤ srcIn ∨ srcIn + inLength ≤ dstIn) :
    (∀ b, PositionBased ctx dstIn srcIn inLength offset
      (Function.update m (srcIn + headLength offset) b)) ↔ WordAligned dstIn inLength offset := by
  refine ⟨fun hall => ?_, fun h b => h.positionBased ctx hlen hbuf⟩
  by_contra h
  have hlong : headLength offset < inLength := by
    rw [WordAligned] at h
    omega
  have hbyte (b : UInt8) := (encrypt_update_of_unaligned ctx (m := m) h hbuf b).symm.trans
    ((hall b).bytes _ hlong)
  have heq := (hbyte 0).symm.trans (hbyte 1)
  simp only [Function.update_self] at heq
  exact absurd (UInt8.xor_left_inj _ |>.1 heq) (by decide)

/-- Eleven bytes from a position within a block, in a buffer with the same remainder. -/
theorem positionBased_five : PositionBased ⟨fun _ => 1, 2⟩ 101 101 11 5 fun _ => 7 := by
  have h : PositionBased ⟨fun _ => 1, 2⟩ 101 101 11 5
      (Function.update (fun _ => 7) (101 + headLength 5) 7) :=
    (positionBased_iff _ (by decide) (.inl rfl)).2 (by decide) 7
  rwa [Function.update_eq_self_iff.2 rfl] at h

/-- The same at the address 100: the last byte is not changed. -/
theorem not_positionBased_five : ¬ PositionBased ⟨fun _ => 1, 2⟩ 100 100 11 5 fun _ => 7 :=
  fun h => absurd (h.bytes 10 (by decide)) (by decide +kernel)

end MagicLantern.IoCrypt
