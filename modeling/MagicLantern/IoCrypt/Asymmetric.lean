import Mathlib.NumberTheory.LucasPrimality
import MagicLantern.Library.ByteMemory
import MagicLantern.Library.Rsa

/-!
# Asymmetric encryption

For each file the camera takes a block of random bytes, the first eight of which are the key of the
file. The block is encrypted with the public key and written to the header of the file. The tool on
the PC decrypts it with the private key.

A number is turned into bytes by words of 32 bits, without leading zeros. So a block that begins
with a word of zeros comes back shorter, and the first eight bytes are not those of the camera. If
the encrypted number has leading zeros, the tool refuses it. Both sides compute the size of the
header on their own, and the tool forgets four bytes; this has no effect for the sizes that occur.

The library for large numbers is taken to be correct: numbers are natural numbers, and a key in
hexadecimal digits is given by its numbers.

Source: `src/modules/io_crypt/io_crypt.c`, `crypt_rsa.c`, `io_decrypt.c`.

## Main results

* `ioDecrypt_asymInit_iff` — when the tool gets the key.
* `ioDecrypt_leadingZeros`.
-/

namespace MagicLantern.IoCrypt

open List ByteMemory

/-! ### Large numbers -/

/-- The number of hexadecimal digits, `bdConvToHex`. -/
def hexDigits (n : ℕ) : ℕ := (Nat.digits 16 n).length

/-- `bdSizeof`: the number of digits of 32 bits. -/
def bdSizeof (n : ℕ) : ℕ := (Nat.digits (2 ^ 32) n).length

/-- `bdConvFromOctets`: the most significant byte is the first one. -/
def bdConvFromOctets (bytes : List UInt8) : ℕ := leValue bytes.reverse

/-- `bdConvToOctets`. -/
def bdConvToOctets (n nbytes : ℕ) : List UInt8 := (leBytes nbytes n).reverse

/-! ### The cipher -/

/-- `t_crypt_key`. -/
structure RsaKey where
  primefac : ℕ
  key : ℕ

/-- `rsa_ctx_t`: the keys that were found. -/
structure RsaCtx where
  pub : Option RsaKey
  priv : Option RsaKey

namespace RsaCtx

variable (ctx : RsaCtx)

/-- `strlen` of the modulus of a key. -/
def nibbles (key : Option RsaKey) : ℕ :=
  key.elim 0 fun k => hexDigits k.primefac

/-- `crypt_rsa_get_keysize`, in bits. -/
def cryptRsaGetKeysize : ℕ :=
  let n := if nibbles ctx.pub ≠ 0 then nibbles ctx.pub else nibbles ctx.priv
  if n = 0 then 0 else (n - 1) * 4

/-- `crypt_rsa_blocksize`, in bytes. -/
def cryptRsaBlocksize : ℕ := ctx.cryptRsaGetKeysize / 8

end RsaCtx

/-- `crypt_rsa_crypt`. -/
def cryptRsaCrypt (src : List UInt8) (key : RsaKey) : List UInt8 :=
  let result := bdConvFromOctets src ^ key.key % key.primefac
  bdConvToOctets result (bdSizeof result * 4)

/-- `crypt_rsa_encrypt` and `crypt_rsa_decrypt`, with the key that they use; the number of bytes is
0 if there are too few. -/
def cryptRsa (ctx : RsaCtx) (key : Option RsaKey) (src : List UInt8) : List UInt8 :=
  if ctx.cryptRsaBlocksize > src.length then [] else cryptRsaCrypt src (key.getD ⟨0, 0⟩)

/-- `crypt_rsa_encrypt`. -/
def cryptRsaEncrypt (ctx : RsaCtx) (src : List UInt8) : List UInt8 := cryptRsa ctx ctx.pub src

/-- `crypt_rsa_decrypt`. -/
def cryptRsaDecrypt (ctx : RsaCtx) (src : List UInt8) : List UInt8 := cryptRsa ctx ctx.priv src

/-! ### The camera -/

/-- `rsaxtea_magic`. -/
def rsaxteaMagic : List UInt8 := [0xff, 0xd8, 0xff, 0xd9]

/-- `(used_header + 0x1FF) & ~0x1FF`. -/
def alignHeader (used : ℕ) : ℕ := (used + 0x1FF) / 0x200 * 0x200

/-- What the camera uses for a file. -/
structure AsymFile where
  header : List UInt8
  fileKey : ℕ
  headerSize : ℕ

/-- `iocrypt_asym_init`; `rand` are the bytes of `rand_fill`. -/
def asymInit (ctx : RsaCtx) (blockSize : ℕ) (rand filler : ℕ → UInt8) : Option AsymFile :=
  let blocksize := ctx.cryptRsaBlocksize
  if blocksize = 0 then none
  else
    let key := (List.range blocksize).map rand
    let encrypted := cryptRsaEncrypt ctx key
    let usedHeader := 4 + 4 + 4 + encrypted.length
    let remain := alignHeader usedHeader - usedHeader
    some {
      header := rsaxteaMagic ++ (leBytes 4 encrypted.length ++ (leBytes 4 (16 <<< blockSize) ++
        (encrypted ++ (List.range remain).map filler)))
      fileKey := leValue (key.take 8)
      headerSize := alignHeader usedHeader }

/-! ### The tool -/

/-- `fread` of all bytes. -/
def fread (n : ℕ) (file : List UInt8) : Option (List UInt8 × List UInt8) :=
  if n ≤ file.length then some (file.take n, file.drop n) else none

/-- `main` of the tool for a file with an encrypted key: the key and the offset of the data. It is
`none` if the tool ends with an error. -/
def ioDecrypt (ctx : RsaCtx) (file : List UInt8) : Option (ℕ × ℕ) := do
  let (magic, file) ← fread 4 file
  guard (magic = rsaxteaMagic)
  guard (64 ≤ ctx.cryptRsaGetKeysize)
  let (size, file) ← fread 4 file
  let (blocksize, file) ← fread 4 file
  let encryptedSize := leValue size
  guard (encryptedSize ≠ 0 ∧ encryptedSize ≤ 32768 * 4)
  guard (leValue blocksize ≠ 0 ∧ leValue blocksize ≤ 0x10000000)
  let (encrypted, _) ← fread encryptedSize file
  let decrypted := cryptRsaDecrypt ctx encrypted
  guard (decrypted.length ≠ 0 ∧ decrypted.length ≤ encryptedSize)
  -- the decrypted bytes are at the beginning of the buffer
  let buffer := decrypted ++ encrypted.drop decrypted.length
  return (leValue (buffer.take 8), alignHeader (4 + 4 + encryptedSize))

/-! ### Keys -/

/-- A pair of keys as generated by the module, from two primes with their two highest bits set. -/
structure KeyPair (keysize : ℕ) where
  p : ℕ
  q : ℕ
  e : ℕ
  d : ℕ
  prime_p : p.Prime
  prime_q : q.Prime
  le_p : 3 * 2 ^ (keysize / 2 - 1) ≤ p
  p_lt : p < 2 ^ (keysize / 2 + 1)
  le_q : 3 * 2 ^ (keysize / 2 - 2) ≤ q
  q_lt : q < 2 ^ (keysize / 2)
  mul_mod : e * d % ((p - 1) * (q - 1)) = 1

namespace KeyPair

variable {keysize : ℕ} (K : KeyPair keysize)

/-- The modulus. -/
def n : ℕ := K.p * K.q

/-- The public key. -/
def pub : RsaKey := ⟨K.n, K.e⟩

/-- The private key. -/
def priv : RsaKey := ⟨K.n, K.d⟩

end KeyPair

/-! ### Bytes and numbers -/

@[simp] theorem length_bdConvToOctets (n k : ℕ) : (bdConvToOctets n k).length = k := by
  simp [bdConvToOctets]

variable {n k m blockSize : ℕ} {l encrypted : List UInt8}

theorem bdConvFromOctets_bdConvToOctets (h : n < 256 ^ k) :
    bdConvFromOctets (bdConvToOctets n k) = n := by
  rw [bdConvFromOctets, bdConvToOctets, reverse_reverse, leValue_leBytes, Nat.mod_eq_of_lt h]

theorem bdConvToOctets_bdConvFromOctets (l : List UInt8) :
    bdConvToOctets (bdConvFromOctets l) l.length = l := by
  rw [bdConvToOctets, bdConvFromOctets, ← length_reverse, leBytes_leValue, reverse_reverse]

theorem bdConvFromOctets_lt (l : List UInt8) : bdConvFromOctets l < 256 ^ l.length := by
  simpa [bdConvFromOctets] using leValue_lt l.reverse

theorem bdConvFromOctets_append (l l' : List UInt8) :
    bdConvFromOctets (l ++ l') = bdConvFromOctets l * 256 ^ l'.length + bdConvFromOctets l' := by
  rw [bdConvFromOctets, reverse_append, leValue_append, length_reverse]
  simp only [bdConvFromOctets]
  ring

theorem bdSizeof_le_iff : bdSizeof n ≤ k ↔ n < 256 ^ (4 * k) := by
  rw [bdSizeof, Nat.digits_length_le_iff (by norm_num), pow_mul]
  norm_num

theorem lt_bdSizeof_iff : k < bdSizeof n ↔ 256 ^ (4 * k) ≤ n := by
  rw [← not_le, bdSizeof_le_iff, not_lt]

theorem lt_pow_bdSizeof (n : ℕ) : n < 256 ^ (bdSizeof n * 4) := by
  rw [mul_comm]
  exact bdSizeof_le_iff.1 le_rfl

/-- A number begins with a word of zeros exactly if it fits into the other bytes. -/
theorem take_four_eq_zero_iff (hlen : l.length = 4 * (k + 1)) :
    l.take 4 = [0, 0, 0, 0] ↔ bdConvFromOctets l < 256 ^ (4 * k) := by
  have hdrop : (l.drop 4).length = 4 * k := by
    rw [length_drop]
    omega
  have hvalue : bdConvFromOctets l =
      bdConvFromOctets (l.take 4) * 256 ^ (4 * k) + bdConvFromOctets (l.drop 4) := by
    conv_lhs => rw [← take_append_drop 4 l]
    rw [bdConvFromOctets_append, hdrop]
  have hlt := bdConvFromOctets_lt (l.drop 4)
  rw [hdrop] at hlt
  constructor
  · intro hzero
    rw [hvalue, hzero]
    simpa [bdConvFromOctets, leValue] using hlt
  · intro hsmall
    have hfirst : bdConvFromOctets (l.take 4) = 0 := by
      by_contra hne
      have : 1 * 256 ^ (4 * k) ≤ bdConvFromOctets (l.take 4) * 256 ^ (4 * k) :=
        Nat.mul_le_mul_right _ (Nat.pos_of_ne_zero hne)
      omega
    have hbytes := bdConvToOctets_bdConvFromOctets (l.take 4)
    rw [hfirst, length_take, hlen] at hbytes
    exact hbytes.symm

/-! ### The sizes of keys -/

section Sizes

variable {w : ℕ} (K : KeyPair (32 * w)) (hw : 2 ≤ w)

include hw

theorem KeyPair.le_n : 256 ^ (4 * w) ≤ K.n := by
  have hmul : (3 * 2 ^ (32 * w / 2 - 1)) * (3 * 2 ^ (32 * w / 2 - 2)) ≤ K.n :=
    Nat.mul_le_mul K.le_p K.le_q
  have heq : (3 * 2 ^ (32 * w / 2 - 1)) * (3 * 2 ^ (32 * w / 2 - 2)) = 9 * 2 ^ (32 * w - 3) := by
    rw [show 32 * w - 3 = (32 * w / 2 - 1) + (32 * w / 2 - 2) by omega]
    ring
  have hpow : 256 ^ (4 * w) = 8 * 2 ^ (32 * w - 3) := by
    rw [show (256 : ℕ) = 2 ^ 8 by norm_num, ← pow_mul, show 8 * (4 * w) = 3 + (32 * w - 3) by omega,
      pow_add]
    norm_num
  rw [heq] at hmul
  rw [hpow]
  exact (Nat.mul_le_mul_right _ (by norm_num)).trans hmul

omit hw in
theorem KeyPair.n_lt : K.n < 2 * 256 ^ (4 * w) := by
  have hmul : K.n < 2 ^ (32 * w / 2 + 1) * 2 ^ (32 * w / 2) :=
    Nat.mul_lt_mul_of_lt_of_lt K.p_lt K.q_lt
  have hpow : 2 * 256 ^ (4 * w) = 2 ^ (32 * w / 2 + 1) * 2 ^ (32 * w / 2) := by
    rw [show (256 : ℕ) = 2 ^ 8 by norm_num, ← pow_mul, ← pow_add, ← pow_succ']
    congr 1
    omega
  rw [hpow]
  exact hmul

theorem KeyPair.p_ne_q : K.p ≠ K.q := by
  have hle : 2 ^ (32 * w / 2) ≤ 3 * 2 ^ (32 * w / 2 - 1) := by
    rw [show 32 * w / 2 = (32 * w / 2 - 1) + 1 by omega, pow_succ']
    exact Nat.mul_le_mul_right _ (by norm_num)
  have hp := K.le_p
  have hq := K.q_lt
  omega

theorem KeyPair.hexDigits_n : hexDigits K.n = 8 * w + 1 := by
  have hpow : (16 : ℕ) ^ (8 * w) = 256 ^ (4 * w) := by
    rw [show (256 : ℕ) = 16 ^ 2 by norm_num, ← pow_mul]
    congr 1
    omega
  refine le_antisymm ((Nat.digits_length_le_iff (by norm_num) _).2 ?_)
    ((Nat.lt_digits_length_iff (by norm_num) _).2 ?_)
  · rw [pow_succ', hpow]
    exact K.n_lt.trans_le (Nat.mul_le_mul_right _ (by norm_num))
  · rw [hpow]
    exact K.le_n hw

theorem KeyPair.cryptRsaGetKeysize_eq {ctx : RsaCtx}
    (hctx : ctx.pub = some K.pub ∨ ctx.pub = none ∧ ctx.priv = some K.priv) :
    ctx.cryptRsaGetKeysize = 32 * w := by
  have hn := K.hexDigits_n hw
  have hnibbles : (if RsaCtx.nibbles ctx.pub ≠ 0 then RsaCtx.nibbles ctx.pub
      else RsaCtx.nibbles ctx.priv) = 8 * w + 1 := by
    rcases hctx with hpub | ⟨hpub, hpriv⟩
    · have hpub' : RsaCtx.nibbles ctx.pub = 8 * w + 1 := by
        rw [hpub]
        exact hn
      rw [hpub', if_pos (Nat.succ_ne_zero _)]
    · rw [hpub, hpriv]
      exact hn
  simp only [RsaCtx.cryptRsaGetKeysize, hnibbles, Nat.succ_ne_zero, if_false]
  omega

/-- The number of a block is smaller than the modulus, so that it comes back. -/
theorem KeyPair.decrypt_encrypt (hm : m < 256 ^ (4 * w)) : (m ^ K.e % K.n) ^ K.d % K.n = m :=
  Rsa.pow_pow_mod K.prime_p K.prime_q (K.p_ne_q hw) K.mul_mod (hm.trans_le (K.le_n hw))

theorem KeyPair.encrypt_decrypt {x : ℕ} (hx : x < 256 ^ (4 * w)) :
    (x ^ K.d % K.n) ^ K.e % K.n = x :=
  Rsa.pow_pow_mod K.prime_p K.prime_q (K.p_ne_q hw) (mul_comm K.e K.d ▸ K.mul_mod)
    (hx.trans_le (K.le_n hw))

end Sizes

/-! ### The header -/

theorem fread_append (hlen : l.length = n) (rest : List UInt8) :
    fread n (l ++ rest) = some (l, rest) := by
  subst hlen
  simp [fread]

theorem ioDecrypt_header {ctx : RsaCtx} (hsize : 64 ≤ ctx.cryptRsaGetKeysize)
    (hlen : encrypted.length ≤ 32768 * 4) (hblock : blockSize ≤ 9) (rest : List UInt8) :
    ioDecrypt ctx (rsaxteaMagic ++ (leBytes 4 encrypted.length ++ (leBytes 4 (16 <<< blockSize) ++
        (encrypted ++ rest)))) =
      if encrypted.length ≠ 0 ∧ (cryptRsaDecrypt ctx encrypted).length ≠ 0 ∧
          (cryptRsaDecrypt ctx encrypted).length ≤ encrypted.length then
        some (leValue ((cryptRsaDecrypt ctx encrypted ++
          encrypted.drop (cryptRsaDecrypt ctx encrypted).length).take 8),
          alignHeader (4 + 4 + encrypted.length))
      else none := by
  have henc : leValue (leBytes 4 encrypted.length) = encrypted.length := by
    rw [leValue_leBytes]
    exact Nat.mod_eq_of_lt (by omega)
  have hblock' : 16 <<< blockSize ≠ 0 ∧ 16 <<< blockSize ≤ 0x2000 := by
    interval_cases blockSize <;> decide
  have hvalue : leValue (leBytes 4 (16 <<< blockSize)) = 16 <<< blockSize := by
    rw [leValue_leBytes]
    exact Nat.mod_eq_of_lt (by omega)
  have hblock'' : 16 <<< blockSize ≠ 0 ∧ 16 <<< blockSize ≤ 0x10000000 := ⟨hblock'.1, by omega⟩
  simp only [ioDecrypt, fread_append (show rsaxteaMagic.length = 4 from rfl),
    fread_append (length_leBytes 4 _), henc, hvalue, fread_append rfl, hsize, hlen, hblock'',
    Option.bind_eq_bind, Option.bind_some, and_true]
  by_cases h₁ : encrypted.length ≠ 0
  · by_cases h₂ : (cryptRsaDecrypt ctx encrypted).length ≠ 0 ∧
        (cryptRsaDecrypt ctx encrypted).length ≤ encrypted.length
    · rw [if_pos ⟨h₁, h₂⟩]
      simp only [guard, if_pos h₁, if_pos h₂, if_pos hblock'.1]
      rfl
    · rw [if_neg fun h => h₂ h.2]
      simp only [guard, if_pos h₁, if_neg h₂, if_pos hblock'.1]
      rfl
  · rw [if_neg fun h => h₁ h.1]
    simp only [guard, if_neg h₁]
    rfl

/-! ### The camera and the tool -/

section EndToEnd

variable {w : ℕ} {K : KeyPair (32 * w)} {ctx ctx' : RsaCtx}

/-- The number that the camera encrypts. -/
def blockValue (w : ℕ) (rand : ℕ → UInt8) : ℕ :=
  bdConvFromOctets ((List.range (4 * w)).map rand)

theorem blockValue_lt (w : ℕ) (rand : ℕ → UInt8) : blockValue w rand < 256 ^ (4 * w) := by
  simpa [blockValue] using bdConvFromOctets_lt ((range (4 * w)).map rand)

theorem cryptRsaEncrypt_eq (hw : 2 ≤ w) (hctx : ctx.pub = some K.pub) (rand : ℕ → UInt8) :
    cryptRsaEncrypt ctx ((range (4 * w)).map rand) =
      bdConvToOctets (blockValue w rand ^ K.e % K.n)
        (bdSizeof (blockValue w rand ^ K.e % K.n) * 4) := by
  have hsize : ctx.cryptRsaBlocksize = 4 * w := by
    rw [RsaCtx.cryptRsaBlocksize, K.cryptRsaGetKeysize_eq hw (.inl hctx)]
    omega
  rw [cryptRsaEncrypt, cryptRsa, if_neg (by simp [hsize]), hctx]
  rfl

theorem cryptRsaDecrypt_eq (hw : 2 ≤ w) (hpub : ctx.pub = some K.pub ∨ ctx.pub = none)
    (hpriv : ctx.priv = some K.priv) (hm : m < 256 ^ (4 * w)) :
    cryptRsaDecrypt ctx (bdConvToOctets (m ^ K.e % K.n) (bdSizeof (m ^ K.e % K.n) * 4)) =
      if bdSizeof (m ^ K.e % K.n) < w then [] else bdConvToOctets m (bdSizeof m * 4) := by
  have hsize : ctx.cryptRsaBlocksize = 4 * w := by
    rw [RsaCtx.cryptRsaBlocksize, K.cryptRsaGetKeysize_eq hw (hpub.imp_right fun h => ⟨h, hpriv⟩)]
    omega
  rw [cryptRsaDecrypt, cryptRsa, length_bdConvToOctets]
  by_cases hlt : bdSizeof (m ^ K.e % K.n) < w
  · rw [if_pos (by omega), if_pos hlt]
  · have hresult : bdConvFromOctets
        (bdConvToOctets (m ^ K.e % K.n) (bdSizeof (m ^ K.e % K.n) * 4)) ^
        K.priv.key % K.priv.primefac = m := by
      rw [bdConvFromOctets_bdConvToOctets (lt_pow_bdSizeof _)]
      exact K.decrypt_encrypt hw hm
    rw [if_neg (by omega), if_neg hlt, hpriv, Option.getD_some, cryptRsaCrypt, hresult]

theorem take_decrypted_iff {block rest : List UInt8} (hlen : block.length = 4 * (k + 2))
    (hne : bdSizeof (bdConvFromOctets block) ≠ 0) :
    (bdConvToOctets (bdConvFromOctets block) (bdSizeof (bdConvFromOctets block) * 4) ++ rest).take
      8 = block.take 8 ↔ block.take 4 ≠ [0, 0, 0, 0] := by
  obtain ⟨j, hj⟩ := Nat.exists_eq_succ_of_ne_zero hne
  rw [hj]
  have hblock := take_four_eq_zero_iff (k := k + 1) hlen
  constructor
  · intro heq hzero
    -- the first word of the decrypted block is not zero
    have hfour := congrArg (take 4) heq
    rw [take_take, take_take, take_append_of_le_length (by simp)] at hfour
    have hfirst := (take_four_eq_zero_iff (length_bdConvToOctets _ (j.succ * 4) |>.trans
      (Nat.mul_comm _ _))).1 (hfour.trans hzero)
    rw [bdConvFromOctets_bdConvToOctets (hj ▸ lt_pow_bdSizeof _), ← bdSizeof_le_iff] at hfirst
    omega
  · intro hnonzero
    -- all words are there
    have hsize : j.succ = k + 2 := by
      refine le_antisymm ?_ ?_
      · rw [← hj, bdSizeof_le_iff, ← hlen]
        exact bdConvFromOctets_lt block
      · have hge := not_lt.1 fun h => hnonzero (hblock.2 h)
        have := lt_bdSizeof_iff.2 hge
        omega
    rw [hsize, Nat.mul_comm, ← hlen, bdConvToOctets_bdConvFromOctets,
      take_append_of_le_length (by omega)]

theorem take_four_block (hw : 1 ≤ w) (rand : ℕ → UInt8) :
    ((range (4 * w)).map rand).take 4 ≠ [0, 0, 0, 0] ↔ ∃ j < 4, rand j ≠ 0 := by
  rw [← map_take, take_range, show min 4 (4 * w) = 4 by omega]
  have hfour : (range 4).map rand = [rand 0, rand 1, rand 2, rand 3] := rfl
  rw [hfour]
  constructor
  · intro hne
    by_contra! hzero
    rw [hzero 0 (by decide), hzero 1 (by decide), hzero 2 (by decide), hzero 3 (by decide)] at hne
    exact hne rfl
  · rintro ⟨j, hj, hne⟩ hzero
    simp only [cons.injEq] at hzero
    interval_cases j
    · exact hne hzero.1
    · exact hne hzero.2.1
    · exact hne hzero.2.2.1
    · exact hne hzero.2.2.2.1

theorem KeyPair.bdSizeof_le (hw : 2 ≤ w) (c : ℕ) : bdSizeof (c % K.n) ≤ w + 1 := by
  have hpos : 0 < K.n := (Nat.pow_pos (by norm_num)).trans_le (K.le_n hw)
  rw [bdSizeof_le_iff]
  calc c % K.n < K.n := Nat.mod_lt _ hpos
    _ < 2 * 256 ^ (4 * w) := K.n_lt
    _ ≤ 256 ^ 4 * 256 ^ (4 * w) := Nat.mul_le_mul_right _ (by norm_num)
    _ = 256 ^ (4 * (w + 1)) := by rw [Nat.mul_succ, pow_add, mul_comm]

/-- The tool refuses the block exactly if it comes from a small number. -/
theorem KeyPair.lt_bdSizeof_iff_forall (hw : 2 ≤ w) (hm : m < 256 ^ (4 * w)) :
    w ≤ bdSizeof (m ^ K.e % K.n) ↔ ∀ x < 256 ^ (4 * (w - 1)), x ^ K.d % K.n ≠ m := by
  constructor
  · rintro hle x hx rfl
    have hx' : x < 256 ^ (4 * w) := hx.trans_le (Nat.pow_le_pow_right (by norm_num) (by omega))
    rw [K.encrypt_decrypt hw hx'] at hle
    have := bdSizeof_le_iff.2 hx
    omega
  · intro hno
    by_contra hlt
    refine hno (m ^ K.e % K.n) (bdSizeof_le_iff.1 ?_) (K.decrypt_encrypt hw hm)
    omega

theorem asymInit_eq (hblocksize : ctx.cryptRsaBlocksize = 4 * w) (hw : 2 ≤ w) (blockSize : ℕ)
    (rand filler : ℕ → UInt8) (hencrypted : cryptRsaEncrypt ctx ((range (4 * w)).map rand) =
      encrypted) :
    asymInit ctx blockSize rand filler = some {
      header := rsaxteaMagic ++ (leBytes 4 encrypted.length ++ (leBytes 4 (16 <<< blockSize) ++
        (encrypted ++ (range (alignHeader (4 + 4 + 4 + encrypted.length) -
          (4 + 4 + 4 + encrypted.length))).map filler)))
      fileKey := leValue (((range (4 * w)).map rand).take 8)
      headerSize := alignHeader (4 + 4 + 4 + encrypted.length) } := by
  rw [asymInit, hblocksize, if_neg (by omega)]
  simp only [hencrypted]

/-- The tool finds the key and the offset, for a number of words `w`. -/
theorem ioDecrypt_iff (ctx ctx' : RsaCtx) {keysize : ℕ} (hkeysize : keysize = 32 * w)
    (K : KeyPair keysize) (hw : 2 ≤ w) (hle : w ≤ 128)
    (halign : ∀ n, w ≤ n → n ≤ w + 1 →
      alignHeader (4 + 4 + n * 4) = alignHeader (4 + 4 + 4 + n * 4)) (hctx : ctx.pub = some K.pub)
    (hpub : ctx'.pub = some K.pub ∨ ctx'.pub = none) (hpriv : ctx'.priv = some K.priv)
    (hblock : blockSize ≤ 9) (rand filler : ℕ → UInt8) (payload : List UInt8) :
    ∃ file, asymInit ctx blockSize rand filler = some file ∧
      (ioDecrypt ctx' (file.header ++ payload) = some (file.fileKey, file.headerSize) ↔
        (∃ j < 4, rand j ≠ 0) ∧ ∀ x < 256 ^ (4 * (w - 1)), x ^ K.d % K.n ≠ blockValue w rand) := by
  subst hkeysize
  have hblocksize : ctx.cryptRsaBlocksize = 4 * w := by
    rw [RsaCtx.cryptRsaBlocksize, K.cryptRsaGetKeysize_eq hw (.inl hctx)]
    omega
  have hkeysize' : 64 ≤ ctx'.cryptRsaGetKeysize := by
    rw [K.cryptRsaGetKeysize_eq hw (hpub.imp_right fun h => ⟨h, hpriv⟩)]
    omega
  have hm := blockValue_lt w rand
  have hsize := K.bdSizeof_le hw (blockValue w rand ^ K.e)
  have hdecrypt := cryptRsaDecrypt_eq hw hpub hpriv hm
  have hlen : (bdConvToOctets (blockValue w rand ^ K.e % K.n)
      (bdSizeof (blockValue w rand ^ K.e % K.n) * 4)).length ≤ 32768 * 4 := by
    rw [length_bdConvToOctets]
    omega
  refine ⟨_, asymInit_eq hblocksize hw blockSize rand filler (cryptRsaEncrypt_eq hw hctx rand), ?_⟩
  simp only [append_assoc]
  rw [ioDecrypt_header hkeysize' hlen hblock, hdecrypt, length_bdConvToOctets,
    ← K.lt_bdSizeof_iff_forall hw hm, ← take_four_block (show 1 ≤ w by omega)]
  rcases Nat.lt_or_ge (bdSizeof (blockValue w rand ^ K.e % K.n)) w with hlt | hge
  · rw [if_pos hlt]
    exact iff_of_false (by simp) fun h => Nat.not_le.2 hlt h.2
  · rw [if_neg (Nat.not_lt.2 hge), length_bdConvToOctets, and_iff_left hge]
    -- the block as a list
    have hblock' : ((range (4 * w)).map rand).length = 4 * (w - 2 + 2) := by
      simp
      omega
    rcases Nat.eq_zero_or_pos (bdSizeof (blockValue w rand)) with hzero | hpos
    · rw [if_neg fun h => h.2.1 (by rw [hzero])]
      refine iff_of_false (by simp) fun hne => hne ?_
      rw [take_four_eq_zero_iff (k := w - 1) (by simp; omega)]
      exact bdSizeof_le_iff.1 (hzero ▸ Nat.zero_le _)
    · have hsize' : bdSizeof (blockValue w rand) ≤ w := bdSizeof_le_iff.2 hm
      rw [if_pos ⟨by omega, by omega, by omega⟩, halign _ hge hsize, Option.some.injEq,
        Prod.mk.injEq, and_iff_left rfl, ← take_decrypted_iff hblock' (Nat.ne_of_gt hpos)]
      refine ⟨leValue_inj ?_, fun heq => congrArg leValue heq⟩
      simp only [length_take, length_append, length_bdConvToOctets, length_drop,
        length_map, length_range]
      omega

end EndToEnd

/-- **Asymmetric encryption.** For each of the key sizes, the tool finds the key and the offset that
the camera has used exactly if the random block does not begin with a word of zeros, and is not one
of the numbers that are decrypted from a number with such a word. -/
theorem ioDecrypt_asymInit_iff (i : Fin 4) (K : KeyPair (512 <<< i.val)) (priv : Option RsaKey)
    (withPub : Bool) (blockSize : Fin 10) (rand filler : ℕ → UInt8) (payload : List UInt8) :
    ∃ file, asymInit ⟨some K.pub, priv⟩ blockSize rand filler = some file ∧
      (ioDecrypt ⟨if withPub then some K.pub else none, some K.priv⟩ (file.header ++ payload) =
          some (file.fileKey, file.headerSize) ↔
        (∃ j < 4, rand j ≠ 0) ∧
          ∀ x < 2 ^ (512 <<< i.val - 32), x ^ K.d % K.n ≠ blockValue (16 <<< i.val) rand) := by
  have hpow : 2 ^ (512 <<< i.val - 32) = 256 ^ (4 * (16 <<< i.val - 1)) := by
    rw [show (256 : ℕ) = 2 ^ 8 by norm_num, ← pow_mul]
    congr 1
    fin_cases i <;> rfl
  rw [hpow]
  refine ioDecrypt_iff _ _ ?_ K ?_ ?_ ?_ rfl ?_ rfl (Nat.le_of_lt_succ blockSize.isLt)
    rand filler payload
  · fin_cases i <;> rfl
  · fin_cases i <;> decide
  · fin_cases i <;> decide
  · intro n hle hle'
    rw [alignHeader, alignHeader]
    fin_cases i <;> simp only [Nat.shiftLeft_eq] at hle hle' <;> omega
  · cases withPub
    · exact .inr rfl
    · exact .inl rfl

/-! ### A block with leading zeros -/

theorem prime_103 : Nat.Prime (103 * 2 ^ 250 + 1) := by
  refine lucas_primality _ (3 : ZMod (103 * 2 ^ 250 + 1)) ?_ fun r hr hdvd => ?_
  · reduce_mod_char
  · have hdvd' : r ∣ 103 * 2 ^ 250 := by simpa using hdvd
    rcases (Nat.Prime.dvd_mul hr).1 hdvd' with h | h
    · rw [(Nat.prime_dvd_prime_iff_eq hr (by norm_num)).1 h]
      reduce_mod_char
      decide
    · rw [(Nat.prime_dvd_prime_iff_eq hr Nat.prime_two).1 (hr.dvd_of_dvd_pow h)]
      reduce_mod_char
      decide

theorem prime_207 : Nat.Prime (207 * 2 ^ 248 + 1) := by
  refine lucas_primality _ (5 : ZMod (207 * 2 ^ 248 + 1)) ?_ fun r hr hdvd => ?_
  · reduce_mod_char
  · have hdvd' : r ∣ 3 ^ 2 * 23 * 2 ^ 248 := by simpa using hdvd
    rcases (Nat.Prime.dvd_mul hr).1 hdvd' with h | h
    · rcases (Nat.Prime.dvd_mul hr).1 h with h | h
      · rw [(Nat.prime_dvd_prime_iff_eq hr Nat.prime_three).1 (hr.dvd_of_dvd_pow h)]
        reduce_mod_char
        decide
      · rw [(Nat.prime_dvd_prime_iff_eq hr (by norm_num)).1 h]
        reduce_mod_char
        decide
    · rw [(Nat.prime_dvd_prime_iff_eq hr Nat.prime_two).1 (hr.dvd_of_dvd_pow h)]
      reduce_mod_char
      decide

/-- A pair of keys of 512 bits. -/
def exampleKeys : KeyPair (512 <<< 0) where
  p := 103 * 2 ^ 250 + 1
  q := 207 * 2 ^ 248 + 1
  e := 5
  d := ((103 * 2 ^ 250) * (207 * 2 ^ 248) + 1) / 5
  prime_p := prime_103
  prime_q := prime_207
  le_p := by decide +kernel
  p_lt := by decide +kernel
  le_q := by decide +kernel
  q_lt := by decide +kernel
  mul_mod := by decide +kernel

/-- The tool does not find the key of a file if the random block begins with four zeros. -/
theorem ioDecrypt_leadingZeros :
    ∃ file, asymInit ⟨some exampleKeys.pub, none⟩ 4 (fun j => if j < 4 then 0 else 1) (fun _ => 0) =
        some file ∧
      ioDecrypt ⟨none, some exampleKeys.priv⟩ (file.header ++ []) ≠
        some (file.fileKey, file.headerSize) := by
  have halign (n : ℕ) (hle : 16 ≤ n) (hle' : n ≤ 16 + 1) :
      alignHeader (4 + 4 + n * 4) = alignHeader (4 + 4 + 4 + n * 4) := by
    rw [alignHeader, alignHeader]
    omega
  obtain ⟨file, hinit, hiff⟩ := ioDecrypt_iff ⟨some exampleKeys.pub, none⟩
    ⟨none, some exampleKeys.priv⟩ rfl exampleKeys (by decide) (by decide) halign rfl (.inr rfl) rfl
    (show 4 ≤ 9 by decide) (fun j => if j < 4 then 0 else 1) (fun _ => 0) []
  refine ⟨file, hinit, fun hfound => ?_⟩
  obtain ⟨⟨j, hj, hne⟩, -⟩ := hiff.1 hfound
  exact hne (if_pos hj)

end MagicLantern.IoCrypt
