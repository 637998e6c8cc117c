import MagicLantern.Library.Resources

/-!
# Copying and moving files

`FIO_CopyFile` reads a file in pieces of at most 128 KiB and writes them to another file;
`FIO_MoveFile` then removes the first one. What the operating system answers to each call is given:
`read i` is the answer to the `i`-th call of `FIO_ReadFile`, at most so many bytes, or `none` for an
error, for which the result is `-1`; and `write i` is the answer to the call of `FIO_WriteFile`
after it.

The loop ends when nothing is read. After an error it goes on: `FIO_WriteFile` is called for `-1`
bytes, and if this gives `-1` too, then both numbers are the same, as they are after a successful
write.

A file has its full name, with the drive, as `fixup_filename` makes it. Every state of the card is
recorded.

Source: `src/src/fio-ml.c`, `src/src/fio-ml.h`.
-/

namespace MagicLantern.Fio

/-! ### Names -/

/-- `FIO_MAX_PATH_LENGTH`. -/
def fioMaxPathLength : ℕ := 0x80

/-- The drive letters of `ML_CARD` and `SHOOTING_CARD`. -/
structure Drives where
  mlCard : Char
  shootingCard : Char

/-- `IS_IN_ML_DIR`. -/
def isInMlDir (name : List Char) : Bool :=
  name.take 3 = ['M', 'L', '/']

/-- `IS_IN_ROOT_DIR`. -/
def isInRootDir (name : List Char) : Bool :=
  name.head? = some '/' || '/' ∉ name

/-- `IS_DRV_PATH`. -/
def isDrvPath (name : List Char) : Bool :=
  name[1]? = some ':'

/-- `fixup_filename`. -/
def fixupFilename (drives : Drives) (name : List Char) : List Char :=
  if isDrvPath name then name.take (fioMaxPathLength - 1)
  else
    let drive := if isInMlDir name || isInRootDir name then drives.mlCard else drives.shootingCard
    (drive :: ':' :: '/' :: name).take (fioMaxPathLength - 1)

/-! ### The card -/

/-- The contents of the files, by their full names. -/
abbrev Files := List Char → Option (List UInt8)

/-- The files, and the handles that were opened and closed. -/
structure Card where
  files : Files
  handles : Resources
  /-- The files after each change. -/
  history : List Files

/-- What the operating system answers in a call of `FIO_CopyFile`. -/
structure CopyAnswers where
  opened : Bool
  /-- `_FIO_CreateFile`, and again after the directories have been created. -/
  created : Bool × Bool
  /-- `_FIO_GetFileSize`. -/
  sized : Bool
  allocated : Bool
  read : ℕ → Option ℕ
  write : ℕ → Option ℕ
  /-- What is in memory from the buffer on, when more is written than was read. -/
  memory : ℕ → UInt8

namespace Card

variable (s : Card) (drives : Drives) (answers : CopyAnswers)

/-- A file is created, changed or removed. -/
def setFile (name : List Char) (content : Option (List UInt8)) : Card :=
  { s with
    files := Function.update s.files name content
    history := Function.update s.files name content :: s.history }

/-- A handle is opened. -/
def openHandle : Card :=
  { s with handles := s.handles.create }

/-- `FIO_CloseFile`. -/
def closeFile (handle : ℕ) : Card :=
  { s with handles := s.handles.release (some handle) }

/-- What is in a file. -/
def content (name : List Char) : List UInt8 :=
  (s.files name).getD []

/-- `FIO_WriteFile` at the end of a file. -/
def appendFile (name : List Char) (bytes : List UInt8) : Card :=
  s.setFile name (some (s.content name ++ bytes))

/-- `_FIO_CreateFileEx`: an old file is removed first. -/
def fioCreateFileEx (name : List Char) : Card × Option ℕ :=
  let t := s.setFile name none
  if answers.created.1 || answers.created.2 then
    ((t.setFile name (some [])).openHandle, some t.handles.created)
  else (t, none)

/-! ### Copying -/

/-- `bufsize`. -/
def bufsize (src : List Char) : ℕ :=
  min (if answers.sized then (s.content src).length else 0xFFFFFFFF) (128 * 1024)

/-- The loop of `FIO_CopyFile`: the `i`-th call of `FIO_ReadFile` is made at the position `pos`. The
result is `err`. -/
def copyLoop (src dst : List Char) (bufsize : ℕ) : ℕ → ℕ → ℕ → Card → Option (Card × Bool)
  | 0, _, _, _ => none
  | fuel + 1, i, pos, s =>
    match answers.read i, answers.write i with
    | none, none => copyLoop src dst bufsize fuel (i + 1) pos s
    | none, some n => some (s.appendFile dst ((List.range n).map answers.memory), true)
    | some n, written =>
      let r := min n (min bufsize ((s.content src).length - pos))
      if r = 0 then some (s, false)
      else
        match written with
        | none => some (s, true)
        | some m =>
          let t := s.appendFile dst ((((s.content src).drop pos).take r).take m)
          if m < r then some (t, true) else copyLoop src dst bufsize fuel (i + 1) (pos + r) t

/-- `FIO_CopyFile` for full names. -/
def copyNamed (fuel : ℕ) (src dst : List Char) : Option (Card × ℤ) :=
  if (s.files src).isSome && answers.opened then
    let f := s.handles.created
    match s.openHandle.fioCreateFileEx answers dst with
    | (t, none) => some (t.closeFile f, -1)
    | (t, some g) =>
      if answers.allocated then
        (copyLoop answers src dst (t.bufsize answers src) fuel 0 0 t).map fun (u, err) =>
          let v := (u.closeFile f).closeFile g
          if err then (v.setFile dst none, -1) else (v, 0)
      else some (t, -1)
  else some (s, -1)

/-- `FIO_CopyFile`; `none` is `NULL`. -/
def fioCopyFile (fuel : ℕ) : Option (List Char) → Option (List Char) → Option (Card × ℤ)
  | some src, some dst =>
    s.copyNamed answers fuel (fixupFilename drives src) (fixupFilename drives dst)
  | _, _ => some (s, -1)

/-- `FIO_MoveFile`. -/
def fioMoveFile (fuel : ℕ) : Option (List Char) → Option (List Char) → Option (Card × ℤ)
  | some src, some dst =>
    (s.fioCopyFile drives answers fuel (some src) (some dst)).map fun (t, err) =>
      if err = 0 then (t.setFile (fixupFilename drives src) none, 0) else (t, err)
  | _, _ => some (s, -1)

/-! ### The property -/

/-- What `FIO_CopyFile` has to do: the copy is complete if the result is 0; the source is not
changed; no incomplete copy is left; and all handles that were opened are closed. -/
structure CopyRight (s t : Card) (src dst : List Char) (result : ℤ) : Prop where
  complete : result = 0 → t.files dst = s.files src
  source : t.files src = s.files src
  noPartial : result ≠ 0 → t.files dst = none ∨ t.files dst = s.files dst
  closed : s.handles.AllReleased t.handles

/-- What `FIO_MoveFile` has to do: the source is removed exactly if the result is 0, and then there
is a complete copy; and there was always one, in one of the two places. -/
structure MoveRight (s t : Card) (src dst : List Char) (result : ℤ) : Prop where
  moved : result = 0 → t.files src = none ∧ t.files dst = s.files src
  kept : result ≠ 0 → t.files src = s.files src
  always : ∀ files ∈ t.history, files ∈ s.history ∨ files src = s.files src ∨
    files dst = s.files src

end Card

/-! ### The condition -/

/-- The `i`-th call of `FIO_ReadFile` is made at the position `pos` of a file of `size` bytes. -/
inductive Reaches (answers : CopyAnswers) (bufsize size : ℕ) : ℕ → ℕ → Prop
  | zero : Reaches answers bufsize size 0 0
  /-- After an error. -/
  | retry {i pos : ℕ} : Reaches answers bufsize size i pos → answers.read i = none →
    answers.write i = none → Reaches answers bufsize size (i + 1) pos
  | next {i pos n m : ℕ} : Reaches answers bufsize size i pos → answers.read i = some n →
    answers.write i = some m → min n (min bufsize (size - pos)) ≠ 0 →
    min n (min bufsize (size - pos)) ≤ m →
    Reaches answers bufsize size (i + 1) (pos + min n (min bufsize (size - pos)))

/-- There is memory for the buffer. Before the end of the file, no call of `FIO_ReadFile` gives zero
bytes. Errors, of `FIO_ReadFile` and `FIO_WriteFile` together, do not go on for ever. -/
structure CopyAnswers.Good (answers : CopyAnswers) (bufsize size : ℕ) : Prop where
  allocated : answers.allocated = true
  read_ne_zero : ∀ i pos, Reaches answers bufsize size i pos → pos < size → answers.read i ≠ some 0
  ends : ∀ i pos, Reaches answers bufsize size i pos →
    ∃ j ≥ i, ¬ (answers.read j = none ∧ answers.write j = none)

/-- The condition: if the file can be opened and the other one can be created, then the answers are
good. -/
def CopyAnswers.GoodFor (answers : CopyAnswers) (s : Card) (src : List Char) : Prop :=
  (s.files src).isSome = true → answers.opened = true →
    (answers.created.1 || answers.created.2) = true →
    answers.Good (s.bufsize answers src) (s.content src).length

end MagicLantern.Fio
