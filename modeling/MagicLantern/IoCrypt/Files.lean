import MagicLantern.IoCrypt.Xtea
import MagicLantern.Library.Runs

/-!
# Transparent encryption

The calls for files are replaced by hooks. A picture that is created is given a header of 512 bytes,
and what is written to it is encrypted and stored behind the header. A picture that is opened for
reading is decrypted if its first four bytes are then those of a JPEG or CR2 file. The position of
the file does not count the header; it is added before each call and subtracted afterwards.

The camera's calls are those of a byte array with a position of 32 bits. There is a file with a name
in `CR2` or `JPG`; the contexts of the ciphers are always allocated. The cipher for files of the
other type (LFSR) is a parameter.

Behind the end of the file the hook for reading mixes up the size with and without header: a read
that crosses the end returns too many bytes, and the position afterwards is 512 too small. A file
with other first bytes is not decrypted at all, and data that does not fit the scratch buffer
overflows it. And the cipher is right only for buffers that are aligned like the position in the
file.

Source: `src/modules/io_crypt/io_crypt.c`.

## Main results

* `run_transparent` — all reads give what was written.
* `readFile_crossing` — a read over the end.
-/

namespace MagicLantern.IoCrypt

open List ByteMemory KeyStream

/-! ### The camera's files -/

/-- A file of the camera, with its position. -/
structure Iodev where
  bytes : ByteMemory
  size : ℕ
  position : UInt32

namespace Iodev

variable (d : Iodev)

/-- `iodev_SetPosition`. -/
def setPosition (position : UInt32) : Iodev :=
  { d with position }

/-- `ReadFile`: at most `length` bytes. -/
def readFile (length : ℕ) : List UInt8 × Iodev :=
  let n := min length (d.size - d.position.toNat)
  (readBytes d.bytes d.position.toNat n, d.setPosition (d.position + UInt32.ofNat n))

/-- `WriteFile`. -/
def writeFile (data : List UInt8) : Iodev where
  bytes := writeBytes d.bytes d.position.toNat data
  size := if data = [] then d.size else max d.size (d.position.toNat + data.length)
  position := d.position + UInt32.ofNat data.length

end Iodev

/-! ### The hooks -/

/-- The function of a cipher, for encryption and decryption: from the memory, the address of the
buffer, the data in it and its offset, the data afterwards. -/
abbrev Cipher := ByteMemory → ℕ → List UInt8 → UInt32 → List UInt8

/-- The cipher of `crypt_xtea_init`. -/
def XteaCtx.cipher (ctx : XteaCtx) : Cipher := fun ram addr data offset =>
  readBytes (cryptXteaEncrypt ctx addr addr data.length offset (writeBytes ram addr data)) addr
    data.length

theorem XteaCtx.length_cipher {ctx : XteaCtx} {ram : ByteMemory} {addr : ℕ} {data : List UInt8}
    {offset : UInt32} : (ctx.cipher ram addr data offset).length = data.length :=
  length_readBytes ..

theorem WordAligned.cipher_eq {ctx : XteaCtx} {ram : ByteMemory} {addr : ℕ} {data : List UInt8}
    {offset : UInt32} (h : WordAligned addr data.length offset) :
    ctx.cipher ram addr data offset = xorStream ctx.keyByte offset.toNat data := by
  refine ext_getElem (by simp [XteaCtx.length_cipher]) fun i h₁ h₂ => ?_
  have hi : i < data.length := by simpa using h₂
  rw [getElem_xorStream _ _ hi]
  simp only [XteaCtx.cipher, getElem_readBytes]
  rw [h.encrypt_of_lt ctx hi, writeBytes_of_mem _ (by omega) (by omega), Nat.add_sub_cancel_left,
    getD_eq_getElem _ _ hi]

/-- `CRYPT_SCRATCH_SIZE`. -/
def cryptScratchSize : ℕ := 0x800000

/-- `cr2_magic`. -/
def cr2Magic : List UInt8 := [0x49, 0x49, 0x2A, 0x00]

/-- `jpg_magic`. -/
def jpgMagic : List UInt8 := [0xff, 0xd8, 0xff, 0xe1]

/-- `lfsr_magic`. -/
def lfsrMagic : List UInt8 := [0xff, 0xd8, 0xff, 0x8d]

/-- `xtea_magic`. -/
def xteaMagic : List UInt8 := [0xff, 0xd8, 0xff, 0x8e]

/-- A file with its entry of `iocrypt_files`. -/
structure CryptFile where
  dev : Iodev
  /-- `crypt_ctx`, if there is one. -/
  cipher : Option Cipher
  headerSize : UInt32
  fileSize : UInt32

/-- The variables of the module. -/
structure Settings where
  /-- `iocrypt_key`. -/
  key : UInt64
  /-- `16 << iocrypt_block_size`. -/
  blockSize : UInt32
  /-- The address of `iocrypt_scratch`. -/
  scratch : ℕ
  /-- The random bytes of the header. -/
  filler : List UInt8
  length_filler : filler.length = 0x1F8
  /-- The cipher of `crypt_lfsr64_init`, from the key and the block size. -/
  lfsr : UInt64 → UInt32 → Cipher

/-- The context of `crypt_xtea_init`; the password is zero. -/
def Settings.xtea (cfg : Settings) : XteaCtx :=
  ⟨fun _ => 0, cfg.key⟩

namespace CryptFile

variable (s : CryptFile)

/-- `iocrypt_sym_init`. -/
def symInit (cfg : Settings) : CryptFile :=
  let dev := ((s.dev.writeFile xteaMagic).writeFile (leBytes 4 cfg.blockSize.toNat)).writeFile
    cfg.filler
  { s with
    dev := dev.setPosition 0
    cipher := some cfg.xtea.cipher
    headerSize := 0x200 }

/-- The check whether a file can be decrypted. The block size is read but used by `lfsr` only; `buf`
are the first bytes of the file, in the buffer at the address `addr`. -/
def tryCipher (cipherOf : UInt32 → Cipher) (ram : ByteMemory) (addr : ℕ) (buf : List UInt8) :
    CryptFile :=
  let (size, dev) := (s.dev.setPosition 4).readFile 4
  let cipher := cipherOf (UInt32.ofNat (leValue size))
  let (data, dev) := (dev.setPosition 0x200).readFile 4
  let start := cipher ram addr (data ++ buf.drop data.length) 0
  let dev := dev.setPosition 0
  if start = jpgMagic ∨ start = cr2Magic then
    { s with dev, cipher := some cipher, headerSize := 0x200 }
  else { s with dev }

/-- `hook_iodev_ReadFile` with the buffer at the address `addr`: the result, the buffer and the
file. -/
def hookReadFile (ram : ByteMemory) (addr length : ℕ) : UInt32 × List UInt8 × CryptFile :=
  let fdPos := s.dev.position
  match s.cipher with
  | none =>
    let (data, dev) := s.dev.readFile length
    (UInt32.ofNat data.length, data ++ (readBytes ram addr length).drop data.length, { s with dev })
  | some cipher =>
    let (data, dev) := (s.dev.setPosition (fdPos + s.headerSize)).readFile length
    if data.length < length then
      -- the buffer is filled with zeros, which are decrypted as well
      let ret := min (UInt32.ofNat length) (s.fileSize - fdPos)
      let dev := dev.setPosition (fdPos + ret)
      (ret, cipher ram addr (data ++ List.replicate (length - data.length) 0) fdPos,
        { s with dev := dev.setPosition (dev.position - s.headerSize) })
    else
      (UInt32.ofNat data.length, cipher ram addr data fdPos,
        { s with dev := dev.setPosition (dev.position - s.headerSize) })

/-- `hook_iodev_WriteFile` with the job `CRYPT_JOB_ENCRYPT_WRITE`: the result and the file. The data
is encrypted to the scratch buffer; it is `none` if this is too small. -/
def hookWriteFile (cfg : Settings) (ram : ByteMemory) (data : List UInt8) :
    Option (UInt32 × CryptFile) :=
  match s.cipher with
  | none => some (UInt32.ofNat data.length, { s with dev := s.dev.writeFile data })
  | some cipher =>
    if data.length ≤ cryptScratchSize then
      let fdPos := s.dev.position
      let dev := (s.dev.setPosition (fdPos + s.headerSize)).writeFile
        (cipher ram cfg.scratch data fdPos)
      some (UInt32.ofNat data.length,
        { s with dev := dev.setPosition (dev.position - s.headerSize) })
    else none

/-- The camera changes the position. -/
def seek (position : UInt32) : CryptFile :=
  { s with dev := s.dev.setPosition position }

end CryptFile

/-- `hook_iodev_OpenFile` for a new file, with symmetric encryption. `disk` is what there was on the
card before. -/
def create (cfg : Settings) (disk : ByteMemory) : CryptFile :=
  let s : CryptFile := ⟨⟨disk, 0, 0⟩, none, 0, 0⟩
  if cfg.key ≠ 0 then s.symInit cfg else s

/-- `hook_iodev_OpenFile` for reading; the first bytes are read to a buffer at the address `addr`.
-/
def openRead (cfg : Settings) (bytes : ByteMemory) (size : ℕ) (ram : ByteMemory) (addr : ℕ) :
    CryptFile :=
  let (data, dev) := Iodev.readFile ⟨bytes, size, 0⟩ 4
  let buf := data ++ (readBytes ram addr 4).drop data.length
  let s : CryptFile := ⟨dev.setPosition 0, none, 0, UInt32.ofNat size⟩
  if buf = jpgMagic ∨ buf = cr2Magic then s
  else if buf = lfsrMagic then s.tryCipher (cfg.lfsr cfg.key) ram addr buf
  else if buf = xteaMagic then s.tryCipher (fun _ => cfg.xtea.cipher) ram addr buf
  else s

/-! ### What was written -/

/-- A file as the camera sees it: the byte that was last written at each place. -/
structure PlainFile where
  bytes : ℕ → Option UInt8
  size : ℕ
  position : UInt32

namespace PlainFile

/-- The empty file. -/
def empty : PlainFile := ⟨fun _ => none, 0, 0⟩

variable (f : PlainFile)

/-- The file after data has been written. -/
def write (data : List UInt8) : PlainFile where
  bytes := fun i =>
    if f.position.toNat ≤ i ∧ i < f.position.toNat + data.length then data[i - f.position.toNat]?
    else f.bytes i
  size := if data = [] then f.size else max f.size (f.position.toNat + data.length)
  position := f.position + UInt32.ofNat data.length

/-- The file begins with the given bytes. -/
def BeginsWith (magic : List UInt8) : Prop :=
  ∀ i < 4, f.bytes i = magic[i]?

/-- The file begins like a picture. -/
def IsPicture : Prop :=
  f.BeginsWith jpgMagic ∨ f.BeginsWith cr2Magic

end PlainFile

/-! ### Runs -/

/-- A call for a file that is written, with the memory at that time. -/
inductive WriteOp
  | seek (position : UInt32)
  | write (ram : ByteMemory) (data : List UInt8)

namespace WriteOp

def step (cfg : Settings) (s : CryptFile) : WriteOp → Option CryptFile
  | seek position => some (s.seek position)
  | write ram data => (s.hookWriteFile cfg ram data).map Prod.snd

def plainStep (f : PlainFile) : WriteOp → PlainFile
  | seek position => { f with position }
  | write _ data => f.write data

/-- The data fits the scratch buffer, which is aligned like the position, and the file is smaller
than 4 GiB. -/
def Good (cfg : Settings) (s : CryptFile) : WriteOp → Prop
  | seek _ => True
  | write _ data =>
    data.length ≤ cryptScratchSize ∧ s.dev.position.toNat + data.length + 0x200 < 2 ^ 32 ∧
      WordAligned cfg.scratch data.length s.dev.position

/-- All data is written, and the position is behind it. -/
def Right (cfg : Settings) (s : CryptFile) : WriteOp → Prop
  | seek _ => True
  | write ram data =>
    ∃ t ret, s.hookWriteFile cfg ram data = some (ret, t) ∧ ret.toNat = data.length ∧
      t.dev.position.toNat = s.dev.position.toNat + data.length

instance (cfg : Settings) (s : CryptFile) : DecidablePred (Good cfg s) := fun op => by
  cases op <;> dsimp only [Good] <;> infer_instance

end WriteOp

/-- A call for a file that is read, with the memory at that time. -/
inductive ReadOp
  | seek (position : UInt32)
  | read (ram : ByteMemory) (addr length : ℕ)

namespace ReadOp

def step (s : CryptFile) : ReadOp → Option CryptFile
  | seek position => some (s.seek position)
  | read ram addr length => some (s.hookReadFile ram addr length).2.2

/-- The number of bytes from the position that a read can have. -/
def available (f : PlainFile) (s : CryptFile) (length : ℕ) : ℕ :=
  min length (f.size - s.dev.position.toNat)

/-- The bytes that are there are read, as they were written, and the position is behind them. -/
def Right (f : PlainFile) (s : CryptFile) : ReadOp → Prop
  | seek _ => True
  | read ram addr length =>
    (s.hookReadFile ram addr length).1.toNat = available f s length ∧
      (s.hookReadFile ram addr length).2.2.dev.position.toNat =
        s.dev.position.toNat + available f s length ∧
      ∀ i < available f s length, ∀ b ∈ f.bytes (s.dev.position.toNat + i),
        (s.hookReadFile ram addr length).2.1[i]? = some b

/-- The buffer is aligned like the position. -/
def Aligned (s : CryptFile) : ReadOp → Prop
  | seek _ => True
  | read _ addr length => WordAligned addr length s.dev.position

/-- The read does not cross the end of the file. -/
def Within (f : PlainFile) (s : CryptFile) : ReadOp → Prop
  | seek _ => True
  | read _ _ length => length = 0 ∨ s.dev.position.toNat + length ≤ f.size

end ReadOp

/-! ### The contents of a file -/

/-- The file has the data that was written, behind the header. -/
structure Holds (ctx : XteaCtx) (f : PlainFile) (d : Iodev) : Prop where
  magic : readBytes d.bytes 0 4 = xteaMagic
  size : d.size = f.size + 0x200
  size_lt : f.size + 0x200 < 2 ^ 32
  lt_size : ∀ p, f.bytes p ≠ none → p < f.size
  bytes : ∀ p, ∀ b ∈ f.bytes p, d.bytes (0x200 + p) = b ^^^ ctx.keyByte p

/-- A file that is written. -/
structure Writing (ctx : XteaCtx) (f : PlainFile) (s : CryptFile) : Prop where
  cipher : s.cipher = some ctx.cipher
  headerSize : s.headerSize = 0x200
  position : s.dev.position = f.position
  holds : Holds ctx f s.dev

variable {ctx : XteaCtx} {f : PlainFile} {d : Iodev} {s t : CryptFile} {p : UInt32} {cfg : Settings}

theorem toNat_add_header (hp : p.toNat + 0x200 < 2 ^ 32) : (p + 0x200).toNat = 0x200 + p.toNat := by
  exact (Nat.mod_eq_of_lt hp).trans (Nat.add_comm ..)

theorem toNat_add_ofNat {n : ℕ} (hp : p.toNat + n < 2 ^ 32) :
    (p + UInt32.ofNat n).toNat = p.toNat + n := by
  rw [UInt32.toNat_add, UInt32.toNat_ofNat_of_lt' (show n < 2 ^ 32 by omega), Nat.mod_eq_of_lt hp]

theorem add_header_sub (p : UInt32) (n : ℕ) :
    p + 0x200 + UInt32.ofNat n - 0x200 = p + UInt32.ofNat n := by
  rw [UInt32.add_assoc, UInt32.add_comm 0x200, ← UInt32.add_assoc, UInt32.add_sub_cancel]

theorem Holds.setPosition (h : Holds ctx f d) (position : UInt32) :
    Holds ctx f (d.setPosition position) :=
  { h with }

/-- Data is written behind the header. -/
theorem Holds.write (h : Holds ctx f d) {data : List UInt8}
    (hfits : f.position.toNat + data.length + 0x200 < 2 ^ 32) {addr : ℕ}
    (haligned : WordAligned addr data.length f.position) (ram : ByteMemory) :
    Holds ctx (f.write data)
      ((d.setPosition (f.position + 0x200)).writeFile (ctx.cipher ram addr data f.position)) := by
  have hpos : (f.position + 0x200).toNat = 0x200 + f.position.toNat := toNat_add_header (by omega)
  rw [haligned.cipher_eq]
  have hlen : (xorStream ctx.keyByte f.position.toNat data).length = data.length := length_xorStream
  refine ⟨?_, ?_, ?_, ?_, ?_⟩
  · rw [← h.magic]
    refine readBytes_congr fun x _ hx => ?_
    simp only [Iodev.writeFile, Iodev.setPosition]
    exact writeBytes_of_notMem _ (.inl (by omega))
  · have hnil : xorStream ctx.keyByte f.position.toNat data = [] ↔ data = [] := by
      rw [← length_eq_zero_iff, hlen, length_eq_zero_iff]
    simp only [Iodev.writeFile, Iodev.setPosition, PlainFile.write, hnil, h.size]
    split_ifs
    · rfl
    · omega
  · have := h.size_lt
    simp only [PlainFile.write]
    split_ifs
    · exact this
    · omega
  · intro p hp
    by_cases hin : f.position.toNat ≤ p ∧ p < f.position.toNat + data.length
    · have hne : data ≠ [] := by
        rintro rfl
        simp at hin
        omega
      simp only [PlainFile.write, if_neg hne]
      exact lt_max_of_lt_right hin.2
    · simp only [PlainFile.write, if_neg hin] at hp ⊢
      have hlt := h.lt_size p hp
      split_ifs
      · exact hlt
      · exact lt_max_of_lt_left hlt
  · intro p b hb
    simp only [Iodev.writeFile, Iodev.setPosition, hpos]
    simp only [PlainFile.write] at hb
    split_ifs at hb with hin
    · rw [writeBytes_of_mem _ (by omega) (by rw [hlen]; omega)]
      rw [getD_eq_getElem?_getD, show 0x200 + p - (0x200 + f.position.toNat) =
        p - f.position.toNat by omega, getElem?_xorStream, Option.mem_def.1 hb,
        Nat.add_sub_cancel' hin.1]
      rfl
    · rw [writeBytes_of_notMem _ (by rw [hlen]; omega)]
      exact h.bytes p b hb

theorem Writing.step (h : Writing ctx f s) {op : WriteOp} (hgood : op.Good cfg s) :
    ∃ t, op.step cfg s = some t ∧ op.Right cfg s ∧ Writing ctx (op.plainStep f) t := by
  cases op with
  | seek position =>
    exact ⟨_, rfl, trivial, h.cipher, h.headerSize, rfl, h.holds.magic, h.holds.size,
      h.holds.size_lt, h.holds.lt_size, h.holds.bytes⟩
  | write ram data =>
    obtain ⟨hle, hfits, haligned⟩ := hgood
    rw [h.position] at haligned
    have hfits' : f.position.toNat + data.length + 0x200 < 2 ^ 32 := h.position ▸ hfits
    have hwrite : s.hookWriteFile cfg ram data = some (UInt32.ofNat data.length, { s with
        dev := ((s.dev.setPosition (f.position + 0x200)).writeFile
          (ctx.cipher ram cfg.scratch data f.position)).setPosition
            (f.position + UInt32.ofNat data.length) }) := by
      simp only [CryptFile.hookWriteFile, h.cipher, h.headerSize, h.position, if_pos hle,
        Iodev.writeFile, Iodev.setPosition, XteaCtx.length_cipher, add_header_sub]
    refine ⟨_, congrArg (Option.map Prod.snd) hwrite, ⟨_, _, hwrite, ?_, ?_⟩, h.cipher,
      h.headerSize, rfl, (h.holds.write hfits' haligned ram).setPosition _⟩
    · exact UInt32.toNat_ofNat_of_lt' (show data.length < 2 ^ 32 by omega)
    · rw [h.position]
      exact toNat_add_ofNat (by omega)

theorem Writing.run (h : Writing ctx f s) {ws : List WriteOp}
    (hgood : Runs.Meets (WriteOp.step cfg) (fun s op => op.Good cfg s) s ws) :
    ∃ t, ws.foldlM (WriteOp.step cfg) s = some t ∧
      Runs.Meets (WriteOp.step cfg) (fun s op => op.Right cfg s) s ws ∧
      Writing ctx (ws.foldl WriteOp.plainStep f) t := by
  induction ws generalizing s f with
  | nil => exact ⟨s, rfl, trivial, h⟩
  | cons op ws ih =>
    obtain ⟨t, hstep, hright, ht⟩ := h.step hgood.1
    obtain ⟨u, hrun, hmeets, hu⟩ := ih ht (hgood.2 t hstep)
    refine ⟨u, ?_, ⟨hright, fun t' ht' => ?_⟩, hu⟩
    · rw [foldlM_cons, hstep]
      exact hrun
    · obtain rfl : t = t' := Option.some.inj (hstep.symm.trans ht')
      exact hmeets

theorem Writing.create (cfg : Settings) (hkey : cfg.key ≠ 0) (disk : ByteMemory) :
    Writing cfg.xtea .empty (create cfg disk) := by
  have hcreate : IoCrypt.create cfg disk =
      (⟨⟨disk, 0, 0⟩, none, 0, 0⟩ : CryptFile).symInit cfg := if_pos hkey
  rw [hcreate]
  have hfiller : cfg.filler ≠ [] := fun h => by simpa [h] using cfg.length_filler
  refine ⟨rfl, rfl, rfl, ?_, ?_, by decide, ?_, ?_⟩
  · -- the later pieces of the header are behind the first one
    refine (readBytes_congr fun x _ hx => ?_).trans (readBytes_writeBytes disk 0 xteaMagic)
    simp only [CryptFile.symInit, Iodev.setPosition, Iodev.writeFile]
    rw [writeBytes_of_notMem _ (.inl ?_), writeBytes_of_notMem _ (.inl ?_)]
    · rfl
    · simpa [xteaMagic] using hx
    · simp [xteaMagic]
      omega
  · simp [CryptFile.symInit, Iodev.setPosition, Iodev.writeFile, hfiller, cfg.length_filler,
      PlainFile.empty, xteaMagic, leBytes]
  · intro p hp
    exact absurd rfl hp
  · intro p b hb
    cases hb

/-! ### Reading -/

/-- A file that is read and decrypted. -/
structure Reading (ctx : XteaCtx) (f : PlainFile) (s : CryptFile) : Prop where
  cipher : s.cipher = some ctx.cipher
  headerSize : s.headerSize = 0x200
  holds : Holds ctx f s.dev

theorem Reading.step (h : Reading ctx f s) {op : ReadOp} (hs : op.step s = some t) :
    Reading ctx f t := by
  cases op with
  | seek position =>
    cases hs
    exact ⟨h.cipher, h.headerSize, h.holds.setPosition position⟩
  | read ram addr length =>
    cases hs
    simp only [CryptFile.hookReadFile, h.cipher]
    split_ifs
    all_goals exact ⟨rfl, h.headerSize, h.holds.setPosition _⟩

section Read

variable {ram : ByteMemory} {addr length : ℕ}

/-- The number of bytes that the camera reads. -/
def physical (s : CryptFile) (length : ℕ) : ℕ :=
  min length (s.dev.size - (s.dev.position + 0x200).toNat)

theorem Reading.hookReadFile_full (h : Reading ctx f s) (ram : ByteMemory) (addr : ℕ)
    (hfull : physical s length = length) :
    (s.hookReadFile ram addr length).1 = UInt32.ofNat length ∧
      (s.hookReadFile ram addr length).2.2.dev.position = s.dev.position + UInt32.ofNat length ∧
      (s.hookReadFile ram addr length).2.1 = ctx.cipher ram addr
        (readBytes s.dev.bytes (s.dev.position + 0x200).toNat length) s.dev.position := by
  rw [physical] at hfull
  simp only [CryptFile.hookReadFile, h.cipher, h.headerSize, Iodev.readFile, Iodev.setPosition,
    length_readBytes, hfull, Nat.lt_irrefl, if_false, add_header_sub, and_self]

/-- A read of fewer bytes: the header is subtracted from the position, but was not added. -/
theorem Reading.hookReadFile_short (h : Reading ctx f s) (ram : ByteMemory) (addr : ℕ)
    (hshort : physical s length < length) :
    (s.hookReadFile ram addr length).2.2.dev.position =
      s.dev.position + (s.hookReadFile ram addr length).1 - 0x200 := by
  rw [physical] at hshort
  simp only [CryptFile.hookReadFile, h.cipher, h.headerSize, Iodev.readFile, Iodev.setPosition,
    length_readBytes, if_pos hshort]

/-- A read that does not cross the end of the file gives what was written. -/
theorem Reading.right_of_within (h : Reading ctx f s)
    (haligned : WordAligned addr length s.dev.position)
    (hin : ReadOp.Within f s (.read ram addr length)) :
    ReadOp.Right f s (.read ram addr length) := by
  have hsize := h.holds.size
  have hlt := h.holds.size_lt
  rcases eq_or_ne length 0 with rfl | hne
  · obtain ⟨hret, hpos, -⟩ := h.hookReadFile_full ram addr (Nat.zero_min _)
    have hzero : ReadOp.available f s 0 = 0 := Nat.zero_min _
    refine ⟨?_, ?_, fun i hi => absurd hi (by simp [hzero])⟩
    · rw [hret]
      rfl
    · rw [hpos, hzero]
      simp
  · have hle : s.dev.position.toNat + length ≤ f.size := hin.resolve_left hne
    have hphys : (s.dev.position + 0x200).toNat = 0x200 + s.dev.position.toNat :=
      toNat_add_header (by omega)
    have hfull : physical s length = length := by
      rw [physical]
      omega
    have havail : ReadOp.available f s length = length := by
      rw [ReadOp.available]
      omega
    obtain ⟨hret, hpos, hbuf⟩ := h.hookReadFile_full ram addr hfull
    refine ⟨?_, ?_, fun i hi b hb => ?_⟩
    · rw [hret, havail]
      exact UInt32.toNat_ofNat_of_lt' (show length < 2 ^ 32 by omega)
    · rw [hpos, havail]
      exact toNat_add_ofNat (by omega)
    · rw [havail] at hi
      have hbyte := h.holds.bytes _ b hb
      rw [hbuf, WordAligned.cipher_eq (by simpa using haligned), getElem?_xorStream, hphys,
        getElem?_eq_getElem (by simpa using hi), getElem_readBytes, Nat.add_assoc, hbyte]
      exact congrArg some (xor_xor_cancel ..)

/-- A read that crosses the end of the file is not right. -/
theorem Reading.not_right (h : Reading ctx f s)
    (hout : ¬ ReadOp.Within f s (.read ram addr length)) :
    ¬ ReadOp.Right f s (.read ram addr length) := by
  obtain ⟨hne, hcross⟩ := not_or.1 hout
  have hlt : ReadOp.available f s length < length := by
    rw [ReadOp.available]
    omega
  rintro ⟨hret, hposition, -⟩
  rcases Nat.lt_or_ge (physical s length) length with hshort | hfull
  · -- the position would have to be the same with and without the header
    have heq := h.hookReadFile_short ram addr hshort
    rw [← UInt32.toNat_inj, UInt32.toNat_sub, UInt32.toNat_add,
      show UInt32.toNat 0x200 = 0x200 from rfl] at heq
    omega
  · have heq : physical s length = length := Nat.le_antisymm (Nat.min_le_left ..) hfull
    have hbound : length < 2 ^ 32 := by
      have hsize := h.holds.size
      have hsize' := h.holds.size_lt
      rw [physical] at heq
      omega
    rw [(h.hookReadFile_full ram addr heq).1, UInt32.toNat_ofNat_of_lt' hbound] at hret
    omega

end Read

theorem Reading.right_iff (h : Reading ctx f s) {op : ReadOp} (haligned : op.Aligned s) :
    op.Right f s ↔ op.Within f s := by
  cases op with
  | seek position => exact Iff.rfl
  | read ram addr length =>
    exact ⟨fun hright => not_not.1 fun hout => h.not_right hout hright, h.right_of_within haligned⟩

theorem Reading.meets_iff (h : Reading ctx f s) {rs : List ReadOp}
    (haligned : Runs.Meets ReadOp.step (fun s op => op.Aligned s) s rs) :
    Runs.Meets ReadOp.step (fun s op => op.Right f s) s rs ↔
      Runs.Meets ReadOp.step (fun s op => op.Within f s) s rs := by
  induction rs generalizing s with
  | nil => exact Iff.rfl
  | cons op rs ih =>
    refine and_congr (h.right_iff haligned.1) (forall_congr' fun t => forall_congr' fun ht => ?_)
    exact ih (h.step ht) (haligned.2 t ht)

/-! ### Opening a file again -/

section Open

variable {ram : ByteMemory} {addr : ℕ}

theorem Holds.start_eq_iff (h : Holds ctx f d) (hwritten : ∀ i < 4, f.bytes i ≠ none)
    {magic : List UInt8} (hmagic : magic.length = 4) :
    ctx.cipher ram addr (readBytes d.bytes 0x200 4) 0 = magic ↔ f.BeginsWith magic := by
  -- there is no whole block
  have haligned : WordAligned addr (readBytes d.bytes 0x200 4).length 0 :=
    .inr (by simp [headLength])
  have hstart (i : ℕ) (hi : i < 4) :
      (ctx.cipher ram addr (readBytes d.bytes 0x200 4) 0)[i]? = f.bytes i := by
    obtain ⟨b, hb⟩ := Option.ne_none_iff_exists'.1 (hwritten i hi)
    rw [haligned.cipher_eq, getElem?_xorStream, getElem?_eq_getElem (by simpa using hi),
      getElem_readBytes, h.bytes i b hb, hb]
    rw [Option.map_some, UInt8.xor_assoc, show UInt32.toNat 0 + i = i from Nat.zero_add i,
      UInt8.xor_self, UInt8.xor_zero]
  have hlen : (ctx.cipher ram addr (readBytes d.bytes 0x200 4) 0).length = 4 := by
    rw [XteaCtx.length_cipher, length_readBytes]
  constructor
  · rintro rfl i hi
    exact (hstart i hi).symm
  · intro hbegins
    refine ext_getElem? fun i => ?_
    rcases Nat.lt_or_ge i 4 with hi | hi
    · rw [hstart i hi, hbegins i hi]
    · rw [getElem?_eq_none (hlen.le.trans hi), getElem?_eq_none (hmagic.le.trans hi)]

theorem Holds.openRead_eq (h : Holds ctx f d) :
    openRead cfg d.bytes d.size ram addr =
      (⟨⟨d.bytes, d.size, 0⟩, none, 0, UInt32.ofNat d.size⟩ : CryptFile).tryCipher
        (fun _ => cfg.xtea.cipher) ram addr xteaMagic := by
  have hfour : min 4 (d.size - UInt32.toNat 0) = 4 := by
    rw [h.size]
    exact Nat.min_eq_left (by simp)
  have hbuf : readBytes d.bytes (UInt32.toNat 0) 4 = xteaMagic := h.magic
  have hdrop : (readBytes ram addr 4).drop xteaMagic.length = [] :=
    drop_eq_nil_of_le (by simp [xteaMagic])
  simp only [openRead, Iodev.readFile, Iodev.setPosition, hfour, hbuf, hdrop, append_nil]
  rw [if_neg (by decide), if_neg (by decide), if_pos trivial]

theorem Holds.tryCipher_eq (h : Holds ctx f d) (hwritten : ∀ i < 4, f.bytes i ≠ none)
    (cipher : Cipher) (buf : List UInt8) (hbuf : buf.length = 4) (fileSize : UInt32) :
    (⟨⟨d.bytes, d.size, 0⟩, none, 0, fileSize⟩ : CryptFile).tryCipher (fun _ => cipher)
      ram addr buf = if cipher ram addr (readBytes d.bytes 0x200 4) 0 = jpgMagic ∨
          cipher ram addr (readBytes d.bytes 0x200 4) 0 = cr2Magic then
        ⟨⟨d.bytes, d.size, 0⟩, some cipher, 0x200, fileSize⟩
      else ⟨⟨d.bytes, d.size, 0⟩, none, 0, fileSize⟩ := by
  have hlt : 3 < f.size := h.lt_size 3 (hwritten 3 (by decide))
  have hfour : min 4 (d.size - UInt32.toNat 0x200) = 4 := by
    rw [h.size]
    exact Nat.min_eq_left (by simpa using Nat.succ_le_of_lt hlt)
  have hdrop : buf.drop 4 = [] := drop_eq_nil_of_le hbuf.le
  simp only [CryptFile.tryCipher, Iodev.readFile, Iodev.setPosition, hfour, length_readBytes, hdrop]
  rfl

theorem Holds.isPicture_iff (h : Holds ctx f d) (hwritten : ∀ i < 4, f.bytes i ≠ none) :
    ctx.cipher ram addr (readBytes d.bytes 0x200 4) 0 = jpgMagic ∨
      ctx.cipher ram addr (readBytes d.bytes 0x200 4) 0 = cr2Magic ↔ f.IsPicture :=
  or_congr (h.start_eq_iff hwritten rfl) (h.start_eq_iff hwritten rfl)

theorem Holds.reading (h : Holds cfg.xtea f d) (hpicture : f.IsPicture) :
    Reading cfg.xtea f (openRead cfg d.bytes d.size ram addr) := by
  have hwritten (i : ℕ) (hi : i < 4) : f.bytes i ≠ none := by
    rcases hpicture with hbegins | hbegins <;>
      · rw [hbegins i hi, Ne, List.getElem?_eq_none_iff]
        exact Nat.not_le.2 hi
  rw [h.openRead_eq, h.tryCipher_eq hwritten _ _ rfl,
    if_pos ((h.isPicture_iff hwritten).2 hpicture)]
  exact ⟨rfl, rfl, h.setPosition 0⟩

theorem Holds.openRead_other (h : Holds cfg.xtea f d) (hwritten : ∀ i < 4, f.bytes i ≠ none)
    (hother : ¬ f.IsPicture) :
    openRead cfg d.bytes d.size ram addr =
      ⟨⟨d.bytes, d.size, 0⟩, none, 0, UInt32.ofNat d.size⟩ := by
  rw [h.openRead_eq, h.tryCipher_eq hwritten _ _ rfl,
    if_neg fun hstart => hother ((h.isPicture_iff hwritten).1 hstart)]

/-- A read at the end of a file that is not decrypted. -/
theorem Holds.not_right_other (h : Holds ctx f d) :
    ¬ ReadOp.Right f (⟨⟨d.bytes, d.size, UInt32.ofNat f.size⟩, none, 0, UInt32.ofNat d.size⟩ :
      CryptFile) (.read ram addr 1) := by
  have hlt := h.size_lt
  have hsize : (UInt32.ofNat f.size).toNat = f.size :=
    UInt32.toNat_ofNat_of_lt' (show f.size < 2 ^ 32 by omega)
  rintro ⟨hret, -, -⟩
  simp [CryptFile.hookReadFile, Iodev.readFile, ReadOp.available, hsize, h.size] at hret

end Open

/-- **Transparent encryption.** A file is created and written. All writes are right if the data fits
the scratch buffer, this is aligned like the position, and the file is smaller than 4 GiB. When it
is opened again for reading, and begins like a picture, then all reads to buffers that are aligned
like the position are right exactly if none crosses the end of the file. With other first bytes
there are reads that are not right. -/
theorem run_transparent (cfg : Settings) (hkey : cfg.key ≠ 0) (disk : ByteMemory)
    (ws : List WriteOp)
    (hgood : Runs.Meets (WriteOp.step cfg) (fun s op => op.Good cfg s) (create cfg disk) ws)
    (ram : ByteMemory) (addr : ℕ) :
    ∃ s, ws.foldlM (WriteOp.step cfg) (create cfg disk) = some s ∧
      Runs.Meets (WriteOp.step cfg) (fun s op => op.Right cfg s) (create cfg disk) ws ∧
      ((ws.foldl WriteOp.plainStep .empty).IsPicture → ∀ rs,
        Runs.Meets ReadOp.step (fun s op => op.Aligned s)
            (openRead cfg s.dev.bytes s.dev.size ram addr) rs →
        (Runs.Meets ReadOp.step (fun s op => op.Right (ws.foldl WriteOp.plainStep .empty) s)
            (openRead cfg s.dev.bytes s.dev.size ram addr) rs ↔
          Runs.Meets ReadOp.step (fun s op => op.Within (ws.foldl WriteOp.plainStep .empty) s)
            (openRead cfg s.dev.bytes s.dev.size ram addr) rs)) ∧
      ((∀ i < 4, (ws.foldl WriteOp.plainStep .empty).bytes i ≠ none) →
        ¬ (ws.foldl WriteOp.plainStep .empty).IsPicture →
        ∃ rs, ¬ Runs.Meets ReadOp.step (fun s op => op.Right (ws.foldl WriteOp.plainStep .empty) s)
          (openRead cfg s.dev.bytes s.dev.size ram addr) rs) := by
  obtain ⟨s, hrun, hright, hs⟩ := (Writing.create cfg hkey disk).run hgood
  refine ⟨s, hrun, hright, fun hpicture rs haligned => ?_, fun hwritten hother => ?_⟩
  · exact (hs.holds.reading hpicture).meets_iff haligned
  · refine ⟨[.seek (UInt32.ofNat (ws.foldl WriteOp.plainStep .empty).size), .read ram addr 1], ?_⟩
    rw [hs.holds.openRead_other hwritten hother]
    exact fun hmeets => hs.holds.not_right_other (hmeets.2 _ rfl).1

/-- Settings with a key. -/
def exampleSettings : Settings where
  key := 1
  blockSize := 256
  scratch := 0x1000
  filler := List.replicate 0x1F8 0
  length_filler := List.length_replicate
  lfsr := fun _ _ _ _ data _ => data

/-- Memory that is zero. -/
def exampleRam : ByteMemory := fun _ => 0

/-- A file in three writes, the second of which is not at the end: the third byte, which was first
written with the others, is then read. -/
theorem run_transparent_threeWrites :
    let ws : List WriteOp := [.write exampleRam jpgMagic, .seek 20, .write exampleRam [1, 2, 3],
      .seek 2, .write exampleRam [0xff]]
    ∃ s, ws.foldlM (WriteOp.step exampleSettings) (create exampleSettings fun _ => 0) = some s ∧
      Runs.Meets ReadOp.step (fun s op => op.Right (ws.foldl WriteOp.plainStep .empty) s)
        (openRead exampleSettings s.dev.bytes s.dev.size exampleRam 100)
        [.seek 1, .read exampleRam 201 22] := by
  obtain ⟨s, hs, -, hread, -⟩ := run_transparent exampleSettings (by decide) (fun _ => 0)
    [.write exampleRam jpgMagic, .seek 20, .write exampleRam [1, 2, 3], .seek 2,
      .write exampleRam [0xff]] (by decide +kernel) exampleRam 100
  have hpicture : PlainFile.BeginsWith (foldl WriteOp.plainStep .empty [.write exampleRam jpgMagic,
      .seek 20, .write exampleRam [1, 2, 3], .seek 2, .write exampleRam [0xff]]) jpgMagic := by
    unfold PlainFile.BeginsWith
    decide +kernel
  refine ⟨s, hs, (hread (.inl hpicture) [.seek 1, .read exampleRam 201 22] ⟨trivial, ?_⟩).2
    ⟨trivial, ?_⟩⟩
  all_goals
    rintro t ⟨⟩
    refine ⟨?_, fun _ _ => trivial⟩
  · exact .inl (show 201 % 4 = (1 : UInt32).toNat % 4 by decide)
  · exact .inr (show (1 : UInt32).toNat + 22 ≤ 23 by decide)

/-- A picture of four bytes is read with a buffer of eight bytes: the result is eight instead of
four, and the position is 8 - 512 instead of 4. -/
theorem readFile_crossing :
    ∃ s, [WriteOp.write exampleRam jpgMagic].foldlM (WriteOp.step exampleSettings)
        (create exampleSettings fun _ => 0) = some s ∧
      ((openRead exampleSettings s.dev.bytes s.dev.size exampleRam 100).hookReadFile
        exampleRam 200 8).1 = 8 ∧
      ((openRead exampleSettings s.dev.bytes s.dev.size exampleRam 100).hookReadFile
        exampleRam 200 8).2.2.dev.position = 8 - 512 ∧
      ¬ ReadOp.Right (PlainFile.empty.write jpgMagic)
        (openRead exampleSettings s.dev.bytes s.dev.size exampleRam 100)
          (.read exampleRam 200 8) := by
  refine ⟨_, rfl, ?_, ?_, fun h => absurd h.1 ?_⟩
  all_goals decide +kernel

end MagicLantern.IoCrypt
