import MagicLantern.Fio.CopyFile
import MagicLantern.Library.CString

/-!
# Deleting a movie

A movie consists of a main file, the chunks that follow it, and an index if it is an MLV. Its chunks
may be on both cards. `mlv_play_load_chunks` opens the chunks one after the other, from card A if
the chunk is there and from card B otherwise, until there is none. `mlv_play_delete_work` goes
through the possible names in its own way: the main file, the index and a hundred chunks, for an MLV
on both cards, and otherwise on the card of the main file.

Names are complete, and shorter than the buffers they are copied to. A file can be opened if it
exists; whether it can be removed is given. Whether there is an index is decided by the extension.

Source: `src/modules/raw_video/mlv_play/mlv_play.c`.

## Main results

* `deletesOnly_iff` — when exactly the movie is deleted.
* `delete_other_movie`.
-/

namespace MagicLantern.MlvPlay

open List Fio

/-! ### Names -/

/-- `strcpy(&name[strlen(name) - 3], ext)`. -/
def setExt (name ext : List Char) : List Char := name.take (name.length - 3) ++ ext

/-- `strcpy(&name[strlen(name) - 2], number)`. -/
def setNumber (name number : List Char) : List Char := name.take (name.length - 2) ++ number

/-- `name[0] = letter`. -/
def setDrive (name : List Char) (letter : Char) : List Char := letter :: name.tail

/-- `filename + strlen(filename) - 3`. -/
def mainExt (filename : List Char) : List Char := filename.drop (filename.length - 3)

/-- The conversion `%02d`. -/
def twoDigits (n : ℕ) : List Char := CString.formatPadded 2 n

/-! ### `mlv_play_delete_work` -/

/-- `state`. -/
inductive DeleteState
  | mainFile
  | index
  | chunk
  | nextChunk
  | done
  deriving DecidableEq

section

variable (removable : List Char → Bool) (filename : List Char)

/-- `is_mlv`. -/
def isMlv : Bool := mainExt filename = ['M', 'L', 'V'] || mainExt filename = ['m', 'l', 'v']

/-- The loop over the drives for one of them, with `current_file` and the files. The result is an
error if `0` is returned. -/
def deleteDrive (state : DeleteState) (ext : List Char) (letter : Char)
    (s : List Char × Files) : Except Files (List Char × Files) :=
  let currentFile := setDrive (setExt s.1 ext) letter
  if !isMlv filename && currentFile.head? ≠ filename.head? then .ok (currentFile, s.2)
  else if (s.2 currentFile).isNone then
    if state = .mainFile && currentFile.head? = filename.head? then .error s.2
    else .ok (currentFile, s.2)
  else if removable currentFile then .ok (currentFile, Function.update s.2 currentFile none)
  else .error s.2

/-- The loop over the drives. -/
def deleteDrives (state : DeleteState) (ext : List Char) (s : List Char × Files) :
    Except Files (List Char × Files) := do
  let s ← deleteDrive removable filename state ext 'B' s
  deleteDrive removable filename state ext 'A' s

/-- `current_ext`, where a file is deleted. -/
def currentExt (seqNumber : ℕ) : DeleteState → List Char
  | .mainFile => mainExt filename
  | .index => ['I', 'D', 'X']
  | _ => (mainExt filename).take 1 ++ twoDigits seqNumber

/-- The main loop. The result is the value that is returned, with the files. -/
def deleteLoop : ℕ → DeleteState → ℕ → List Char × Files → Option (Bool × Files)
  | 0, _, _, _ => none
  | fuel + 1, .mainFile, seqNumber, s =>
    match deleteDrives removable filename .mainFile (currentExt filename seqNumber .mainFile) s with
    | .error files => some (false, files)
    | .ok s => deleteLoop fuel .index seqNumber s
  | fuel + 1, .index, seqNumber, s =>
    if isMlv filename then
      match deleteDrives removable filename .index (currentExt filename seqNumber .index) s with
      | .error files => some (false, files)
      | .ok s => deleteLoop fuel .chunk seqNumber s
    else deleteLoop fuel .chunk seqNumber s
  | fuel + 1, .chunk, seqNumber, s =>
    match deleteDrives removable filename .chunk (currentExt filename seqNumber .chunk) s with
    | .error files => some (false, files)
    | .ok s => deleteLoop fuel .nextChunk seqNumber s
  | fuel + 1, .nextChunk, seqNumber, s =>
    if seqNumber ≥ 99 then deleteLoop fuel .done seqNumber s
    else deleteLoop fuel .chunk (seqNumber + 1) s
  | _ + 1, .done, _, s => some (true, s.2)

/-- `mlv_play_delete_work`. -/
def deleteWork (files : Files) : Option (Bool × Files) :=
  if (files filename).isNone then some (false, files)
  else deleteLoop removable filename 203 .mainFile 0 (filename, files)

end

/-! ### Playback -/

/-- The loop of `mlv_play_load_chunks`, with the number of chunks that may follow: the names of the
files that are opened. -/
def loadLoop (files : Files) (filename : List Char) : ℕ → ℕ → List (List Char)
  | 0, _ => []
  | n + 1, seqNumber =>
    let onA := setDrive (setNumber filename (twoDigits seqNumber)) 'A'
    let onB := setDrive (setNumber filename (twoDigits seqNumber)) 'B'
    if (files onA).isSome then onA :: loadLoop files filename n (seqNumber + 1)
    else if (files onB).isSome then onB :: loadLoop files filename n (seqNumber + 1)
    else []

/-- `mlv_play_load_chunks`: the names of the files that are opened. -/
def loadChunks (files : Files) (filename : List Char) : List (List Char) :=
  if (files filename).isNone then [] else filename :: loadLoop files filename 99 0

/-- The name in `mlv_play_load_index`. -/
def indexName (filename : List Char) : List Char := setExt filename ['I', 'D', 'X']

/-! ### Movies -/

/-- The two cards. -/
inductive Drive
  | A
  | B
  deriving DecidableEq

variable {d e : Drive} {x : List Char} {n fuel : ℕ}

namespace Drive

def letter : Drive → Char
  | .A => 'A'
  | .B => 'B'

def other : Drive → Drive
  | .A => .B
  | .B => .A

theorem letter_inj (h : d.letter = e.letter) : d = e := by
  cases d <;> cases e <;> first | rfl | simp [letter] at h

theorem other_ne (d : Drive) : d.other ≠ d := by
  cases d <;> simp [other]

theorem eq_or_eq_other (d e : Drive) : e = d ∨ e = d.other := by
  cases d <;> cases e <;> simp [other]

end Drive

/-- The types of movies, by their extensions. -/
inductive MovieType
  | MLV
  | mlv
  | RAW
  | raw
  deriving DecidableEq

/-- The extension. -/
def MovieType.ext : MovieType → List Char
  | .MLV => ['M', 'L', 'V']
  | .mlv => ['m', 'l', 'v']
  | .RAW => ['R', 'A', 'W']
  | .raw => ['r', 'a', 'w']

/-- The first letter of the extension. -/
def MovieType.initial : MovieType → Char
  | .MLV => 'M'
  | .mlv => 'm'
  | .RAW => 'R'
  | .raw => 'r'

/-- The movies with an index. -/
def MovieType.Spanned : MovieType → Prop
  | .MLV | .mlv => True
  | .RAW | .raw => False

instance : DecidablePred MovieType.Spanned := fun type => by
  cases type <;> dsimp only [MovieType.Spanned] <;> infer_instance

/-- A movie: the card of its main file, the name from the second character up to the extension, and
the type. -/
structure Movie where
  drive : Drive
  base : List Char
  type : MovieType

namespace Movie

variable (m : Movie)

/-- The file with the extension `ext` on a card. -/
def name (d : Drive) (ext : List Char) : List Char := d.letter :: (m.base ++ ext)

/-- The name of the main file. -/
def filename : List Char := m.name m.drive m.type.ext

/-- The extension of chunk `n`. -/
def chunkExt (n : ℕ) : List Char := m.type.initial :: twoDigits n

/-- The name of chunk `n` on a card. -/
def chunk (d : Drive) (n : ℕ) : List Char := m.name d (m.chunkExt n)

/-- The name of the index on a card. -/
def index (d : Drive) : List Char := m.name d ['I', 'D', 'X']

/-- The files that are used when the movie is played. -/
def used (files : Files) : List (List Char) :=
  loadChunks files m.filename ++ if isMlv m.filename then [indexName m.filename] else []

end Movie

/-- What is meant by deleting a movie, from the files before and after. -/
structure DeletesOnly (m : Movie) (files files' : Files) : Prop where
  /-- The files of the movie are gone. -/
  gone : ∀ name ∈ m.used files, files' name = none
  /-- All others are as before. -/
  only : ∀ name ∉ m.used files, files' name = files name
  /-- If the other card has a main file of the same name, the card is as before. -/
  other : files (m.name m.drive.other m.type.ext) ≠ none →
    ∀ name, name.head? = some m.drive.other.letter → files' name = files name

namespace Movie

variable (m : Movie) (files : Files)

/-- Chunk `n` is found by playback on the card `d`: all chunks before it are on one of the cards. -/
def Found (d : Drive) (n : ℕ) : Prop :=
  n < 99 ∧ (∀ k < n, files (m.chunk .A k) ≠ none ∨ files (m.chunk .B k) ≠ none) ∧
    files (m.chunk d n) ≠ none ∧ (d = .B → files (m.chunk .A n) = none)

/-- The files with the name of the movie belong to it. For an MLV, the other card has no main file
and no index with this name, and the chunks are numbered without a gap and up to 98 at most, each of
them on one card. For other movies, this is so for the chunks on the card of the main file, and
there is no chunk on the other card that would be played. -/
structure Separate : Prop where
  main : m.type.Spanned → files (m.name m.drive.other m.type.ext) = none
  index : m.type.Spanned → files (m.index m.drive.other) = none
  chunks : ∀ d n, n ≤ 99 → m.type.Spanned ∨ d = m.drive → files (m.chunk d n) ≠ none →
    m.Found files d n
  single : ¬ m.type.Spanned → ∀ n, ¬ m.Found files m.drive.other n

end Movie

/-! ### Names of a movie -/

namespace Movie

variable {m : Movie} {files : Files} {name : List Char}

@[simp] theorem length_ext (type : MovieType) : type.ext.length = 3 := by
  cases type <;> rfl

theorem name_inj {y : List Char} (h : m.name d x = m.name e y) : d = e ∧ x = y := by
  obtain ⟨hletter, happ⟩ := cons.inj h
  exact ⟨Drive.letter_inj hletter, append_cancel_left happ⟩

theorem setExt_name (d : Drive) (hx : x.length = 3) (ext : List Char) :
    setExt (m.name d x) ext = m.name d ext := by
  rw [setExt, name, name, length_cons, length_append, hx, Nat.add_right_comm,
    Nat.add_sub_cancel, take_succ_cons, take_left, cons_append]

theorem setDrive_name (d : Drive) (e : Drive) (x : List Char) :
    setDrive (m.name d x) e.letter = m.name e x := rfl

theorem setNumber_filename (number : List Char) :
    setNumber m.filename number = m.name m.drive (m.type.initial :: number) := by
  have hext : ∃ b c, m.type.ext = [m.type.initial, b, c] := by
    cases m.type <;> exact ⟨_, _, rfl⟩
  obtain ⟨b, c, hext⟩ := hext
  rw [filename, hext, setNumber, name, name]
  have hlen : (m.drive.letter :: (m.base ++ [m.type.initial, b, c])).length - 2 =
      (m.drive.letter :: (m.base ++ [m.type.initial])).length := by simp
  have hsplit : m.drive.letter :: (m.base ++ [m.type.initial, b, c]) =
      (m.drive.letter :: (m.base ++ [m.type.initial])) ++ [b, c] := by simp
  rw [hlen, hsplit, take_left]
  simp

theorem mainExt_filename : mainExt m.filename = m.type.ext := by
  rw [mainExt, filename, name, ← cons_append, length_append, length_ext,
    Nat.add_sub_cancel, drop_left]

theorem isMlv_filename : isMlv m.filename = decide m.type.Spanned := by
  rw [isMlv, mainExt_filename]
  cases m.type <;> rfl

theorem indexName_filename : indexName m.filename = m.index m.drive :=
  setExt_name m.drive (length_ext _) _

theorem ext_ne_chunkExt : m.type.ext ≠ m.chunkExt n := by
  intro h
  have hlast : ∀ type : MovieType, ∃ a b c, type.ext = [a, b, c] ∧ b.isDigit = false := by
    intro type
    cases type <;> exact ⟨_, _, _, rfl, rfl⟩
  obtain ⟨a, b, c, hext, hb⟩ := hlast m.type
  rw [hext] at h
  have hmem : b ∈ twoDigits n := (cons.inj h).2 ▸ mem_cons_self
  have hdigit := CString.isDigit_of_mem_formatPadded hmem
  simp [hb] at hdigit

theorem index_ne_chunkExt : ['I', 'D', 'X'] ≠ m.chunkExt n := by
  intro h
  have hmem : 'D' ∈ twoDigits n := (cons.inj h).2 ▸ mem_cons_self
  have hdigit := CString.isDigit_of_mem_formatPadded hmem
  exact absurd hdigit (by decide)

theorem ext_ne_index : m.type.ext ≠ ['I', 'D', 'X'] := by
  cases m.type <;> decide

theorem chunk_inj {k : ℕ} (hn : n ≤ 99) (hk : k ≤ 99) (h : m.chunk d n = m.chunk e k) :
    d = e ∧ n = k := by
  obtain ⟨hd, hext⟩ := name_inj h
  exact ⟨hd, CString.formatPadded_two_inj hn hk (cons.inj hext).2⟩

/-! ### What playback uses -/

theorem mem_loadLoop {count : ℕ} (hcount : n + count = 99)
      (hbefore : ∀ k < n, files (m.chunk .A k) ≠ none ∨ files (m.chunk .B k) ≠ none) :
    name ∈ loadLoop files m.filename count n ↔
      ∃ d k, n ≤ k ∧ m.Found files d k ∧ name = m.chunk d k := by
  induction count generalizing n with
  | zero =>
    simp only [loadLoop, not_mem_nil, false_iff]
    rintro ⟨d, k, hle, ⟨hlt, -⟩, -⟩
    omega
  | succ count ih =>
    have hname (d : Drive) : setDrive (setNumber m.filename (twoDigits n)) d.letter =
        m.chunk d n := by
      rw [setNumber_filename]
      rfl
    have hA := hname .A
    have hB := hname .B
    simp only [Drive.letter] at hA hB
    simp only [loadLoop, hA, hB]
    -- If the chunk is found on `d`, then it is the first one, and the others follow.
    have hfound (d : Drive) (hd : m.Found files d n)
        (honly : ∀ e, m.Found files e n → e = d) :
        name ∈ m.chunk d n :: loadLoop files m.filename count (n + 1) ↔
          ∃ e k, n ≤ k ∧ m.Found files e k ∧ name = m.chunk e k := by
      have hbefore' : ∀ k < n + 1, files (m.chunk .A k) ≠ none ∨ files (m.chunk .B k) ≠ none := by
        intro k hk
        rcases Nat.lt_succ_iff_lt_or_eq.1 hk with hk | rfl
        · exact hbefore k hk
        · have hexists := hd.2.2.1
          cases d with
          | A => exact .inl hexists
          | B => exact .inr hexists
      rw [mem_cons, ih (by omega) hbefore']
      constructor
      · rintro (rfl | ⟨e, k, hle, hk, rfl⟩)
        · exact ⟨d, n, le_rfl, hd, rfl⟩
        · exact ⟨e, k, by omega, hk, rfl⟩
      · rintro ⟨e, k, hle, hk, rfl⟩
        rcases hle.eq_or_lt with rfl | hlt
        · exact .inl (by rw [honly e hk])
        · exact .inr ⟨e, k, hlt, hk, rfl⟩
    split_ifs with hsomeA hsomeB
    · have hexists : files (m.chunk .A n) ≠ none := Option.isSome_iff_ne_none.1 hsomeA
      refine hfound .A ⟨by omega, hbefore, hexists, by simp⟩ fun e he => ?_
      cases e with
      | A => rfl
      | B => exact absurd (he.2.2.2 rfl) hexists
    · have hnone : files (m.chunk .A n) = none := by simpa using hsomeA
      have hexists : files (m.chunk .B n) ≠ none := Option.isSome_iff_ne_none.1 hsomeB
      refine hfound .B ⟨by omega, hbefore, hexists, fun _ => hnone⟩ fun e he => ?_
      cases e with
      | A => exact absurd hnone he.2.2.1
      | B => rfl
    · have hnoneA : files (m.chunk .A n) = none := by simpa using hsomeA
      have hnoneB : files (m.chunk .B n) = none := by simpa using hsomeB
      simp only [not_mem_nil, false_iff]
      rintro ⟨d, k, hle, ⟨-, hk, hexists, -⟩, -⟩
      rcases hle.eq_or_lt with rfl | hlt
      · cases d with
        | A => exact hexists hnoneA
        | B => exact hexists hnoneB
      · rcases hk n hlt with h | h
        · exact h hnoneA
        · exact h hnoneB

theorem mem_used (hmain : files m.filename ≠ none) :
    name ∈ m.used files ↔ name = m.filename ∨ (m.type.Spanned ∧ name = m.index m.drive) ∨
      ∃ d n, m.Found files d n ∧ name = m.chunk d n := by
  have hload : name ∈ loadChunks files m.filename ↔ name = m.filename ∨
      ∃ d n, m.Found files d n ∧ name = m.chunk d n := by
    rw [loadChunks, if_neg (by simpa using hmain), mem_cons,
      mem_loadLoop (by omega) (fun k hk => absurd hk (Nat.not_lt_zero k))]
    simp only [Nat.zero_le, true_and]
  have hindex : (name ∈ if isMlv m.filename then [indexName m.filename] else []) ↔
      m.type.Spanned ∧ name = m.index m.drive := by
    rw [isMlv_filename, indexName_filename]
    by_cases hspanned : m.type.Spanned
    · simp [hspanned]
    · simp [hspanned]
  rw [used, mem_append, hload, hindex, or_assoc, or_comm (b := m.type.Spanned ∧ _)]

end Movie

/-! ### What is deleted -/

namespace Movie

variable {m : Movie} {files files' : Files} {removable : List Char → Bool} {T U : List Char → Prop}
  {state : DeleteState} {ext cur' : List Char}

/-- The cards on which files are deleted. -/
def Searched (m : Movie) (d : Drive) : Prop := m.type.Spanned ∨ d = m.drive

instance : DecidablePred m.Searched := fun _ => inferInstanceAs (Decidable (_ ∨ _))

/-- The files of `T` are removed, and the others are left. -/
def Removed (T : List Char → Prop) (files files' : Files) : Prop :=
  ∀ name, (T name → files' name = none) ∧ (¬ T name → files' name = files name)

theorem Removed.trans {files'' : Files} (h : Removed T files files')
    (h' : Removed U files' files'') : Removed (fun name => T name ∨ U name) files files'' := by
  intro name
  refine ⟨fun hname => ?_, fun hname => ?_⟩
  · by_cases hU : U name
    · exact (h' name).1 hU
    · rw [(h' name).2 hU, (h name).1 (hname.resolve_right hU)]
  · rw [not_or] at hname
    rw [(h' name).2 hname.2, (h name).2 hname.1]

theorem Removed.congr (h : Removed T files files') (hTU : ∀ name, T name ↔ U name) :
    Removed U files files' := by
  obtain rfl : T = U := funext fun name => propext (hTU name)
  exact h

theorem deleteDrive_ok (hx : x.length = 3) (h : deleteDrive removable m.filename state ext e.letter
      (m.name d x, files) = .ok (cur', files')) :
    cur' = m.name e ext ∧
      Removed (fun name => m.Searched e ∧ name = m.name e ext) files files' := by
  have hskip : (!isMlv m.filename && decide ((m.name e ext).head? ≠ m.filename.head?)) = true ↔
      ¬ m.Searched e := by
    have hhead : (m.name e ext).head? = m.filename.head? ↔ e = m.drive := by
      simp only [name, filename, head?_cons, Option.some.injEq]
      exact ⟨Drive.letter_inj, congrArg _⟩
    simp [isMlv_filename, Searched, hhead]
  simp only [deleteDrive, setExt_name d hx, setDrive_name] at h
  split_ifs at h with hskipped hnone hmissing hremovable
  · cases h
    have hnot := hskip.1 (by simpa using hskipped)
    exact ⟨rfl, fun name => ⟨fun hname => absurd hname.1 hnot, fun _ => rfl⟩⟩
  · cases h
    refine ⟨rfl, fun name => ⟨?_, fun _ => rfl⟩⟩
    rintro ⟨-, rfl⟩
    exact Option.isNone_iff_eq_none.1 hnone
  · cases h
    have hsearched : m.Searched e := by
      by_contra hnot
      exact hskipped (by simpa using hskip.2 hnot)
    refine ⟨rfl, fun name => ⟨?_, fun hname => ?_⟩⟩
    · rintro ⟨-, rfl⟩
      exact Function.update_self ..
    · exact Function.update_of_ne (fun heq => hname ⟨hsearched, heq⟩) ..

theorem deleteDrives_ok (hx : x.length = 3) (hext : ext.length = 3)
    (h : deleteDrives removable m.filename state ext (m.name d x, files) = .ok (cur', files')) :
    cur' = m.name .A ext ∧
      Removed (fun name => ∃ e, m.Searched e ∧ name = m.name e ext) files files' := by
  unfold deleteDrives at h
  cases hB : deleteDrive removable m.filename state ext 'B' (m.name d x, files) with
  | error files₁ => simp [hB, bind, Except.bind] at h
  | ok s₁ =>
    simp only [hB, bind] at h
    obtain ⟨cur₁, files₁⟩ := s₁
    obtain ⟨rfl, hremovedB⟩ := deleteDrive_ok (e := .B) hx hB
    obtain ⟨rfl, hremovedA⟩ := deleteDrive_ok (e := .A) hext h
    refine ⟨rfl, (hremovedB.trans hremovedA).congr fun name => ⟨?_, ?_⟩⟩
    · rintro (hname | hname)
      · exact ⟨.B, hname⟩
      · exact ⟨.A, hname⟩
    · rintro ⟨e, hname⟩
      cases e with
      | A => exact .inr hname
      | B => exact .inl hname

theorem currentExt_chunk (n : ℕ) : currentExt m.filename n .chunk = m.chunkExt n := by
  change (mainExt m.filename).take 1 ++ twoDigits n = m.chunkExt n
  rw [mainExt_filename, chunkExt]
  cases m.type <;> rfl

theorem length_chunkExt (hn : n ≤ 99) : (m.chunkExt n).length = 3 := by
  rw [chunkExt, length_cons, twoDigits, CString.length_formatPadded_two hn]

theorem deleteLoop_chunk (hx : x.length = 3) (hn : n ≤ 99) (h : deleteLoop removable m.filename fuel
      .chunk n (m.name d x, files) = some (true, files')) :
    Removed (fun name => ∃ e, m.Searched e ∧ ∃ k, n ≤ k ∧ k ≤ 99 ∧ name = m.chunk e k)
      files files' := by
  induction fuel using Nat.twoStepInduction generalizing n d x files with
  | zero => simp [deleteLoop] at h
  | one =>
    simp only [deleteLoop] at h
    split at h <;> simp at h
  | more fuel ih _ =>
    simp only [deleteLoop] at h
    split at h
    · simp at h
    next s hok =>
    obtain ⟨cur₁, files₁⟩ := s
    rw [currentExt_chunk] at hok
    obtain ⟨rfl, hremoved⟩ := deleteDrives_ok hx (length_chunkExt hn) hok
    have hrest : Removed (fun name => ∃ e, m.Searched e ∧ ∃ k, n + 1 ≤ k ∧ k ≤ 99 ∧
        name = m.chunk e k) files₁ files' := by
      split_ifs at h
      · cases fuel with
        | zero => simp [deleteLoop] at h
        | succ fuel =>
          obtain rfl : files₁ = files' := by simpa [deleteLoop] using h
          exact fun name => ⟨fun ⟨e, he, k, hle, hge, _⟩ => by omega, fun _ => rfl⟩
      · exact ih (length_chunkExt hn) (by omega) h
    refine (hremoved.trans hrest).congr fun name => ⟨?_, ?_⟩
    · rintro (⟨e, he, rfl⟩ | ⟨e, he, k, hle, hge, rfl⟩)
      · exact ⟨e, he, n, le_rfl, hn, rfl⟩
      · exact ⟨e, he, k, by omega, hge, rfl⟩
    · rintro ⟨e, he, k, hle, hge, rfl⟩
      rcases hle.eq_or_lt with rfl | hlt
      · exact .inl ⟨e, he, rfl⟩
      · exact .inr ⟨e, he, k, hlt, hge, rfl⟩

/-- The names that are tried. -/
def Tried (m : Movie) (name : List Char) : Prop :=
  ∃ e, m.Searched e ∧ (name = m.name e m.type.ext ∨ (m.type.Spanned ∧ name = m.index e) ∨
    ∃ k ≤ 99, name = m.chunk e k)

/-- **What is deleted.** If `1` is returned, then all files with one of the names are gone. -/
theorem deleteWork_removed (h : deleteWork removable m.filename files = some (true, files')) :
    Removed m.Tried files files' := by
  unfold deleteWork at h
  split_ifs at h with hmissing
  · simp at h
  rw [deleteLoop] at h
  split at h
  · simp at h
  next s hok =>
  obtain ⟨cur₁, files₁⟩ := s
  rw [currentExt, mainExt_filename] at hok
  obtain ⟨rfl, hmain⟩ := deleteDrives_ok (length_ext _) (length_ext _) hok
  rw [deleteLoop] at h
  by_cases hspanned : m.type.Spanned
  · rw [if_pos (by simpa [isMlv_filename] using hspanned)] at h
    split at h
    · simp at h
    next s hok =>
    obtain ⟨cur₂, files₂⟩ := s
    obtain ⟨rfl, hindex⟩ := deleteDrives_ok (length_ext _) rfl hok
    have hchunks := deleteLoop_chunk rfl (Nat.zero_le 99) h
    refine ((hmain.trans hindex).trans hchunks).congr fun name => ⟨?_, ?_⟩
    · rintro ((⟨e, he, rfl⟩ | ⟨e, he, rfl⟩) | ⟨e, he, k, -, hk, rfl⟩)
      · exact ⟨e, he, .inl rfl⟩
      · exact ⟨e, he, .inr (.inl ⟨hspanned, rfl⟩)⟩
      · exact ⟨e, he, .inr (.inr ⟨k, hk, rfl⟩)⟩
    · rintro ⟨e, he, rfl | ⟨-, rfl⟩ | ⟨k, hk, rfl⟩⟩
      · exact .inl (.inl ⟨e, he, rfl⟩)
      · exact .inl (.inr ⟨e, he, rfl⟩)
      · exact .inr ⟨e, he, k, Nat.zero_le k, hk, rfl⟩
  · rw [if_neg (by simpa [isMlv_filename] using hspanned)] at h
    have hchunks := deleteLoop_chunk (length_ext _) (Nat.zero_le 99) h
    refine (hmain.trans hchunks).congr fun name => ⟨?_, ?_⟩
    · rintro (⟨e, he, rfl⟩ | ⟨e, he, k, -, hk, rfl⟩)
      · exact ⟨e, he, .inl rfl⟩
      · exact ⟨e, he, .inr (.inr ⟨k, hk, rfl⟩)⟩
    · rintro ⟨e, he, rfl | ⟨hnot, -⟩ | ⟨k, hk, rfl⟩⟩
      · exact .inl ⟨e, he, rfl⟩
      · exact absurd hnot hspanned
      · exact .inr ⟨e, he, k, Nat.zero_le k, hk, rfl⟩

end Movie

theorem deleteLoop_isSome (removable : List Char → Bool) (filename : List Char)
    (hfuel : 2 * (99 - n) + 3 ≤ fuel) (s : List Char × Files) :
    (deleteLoop removable filename fuel .chunk n s).isSome := by
  induction fuel using Nat.twoStepInduction generalizing n s with
  | zero => omega
  | one => omega
  | more fuel ih _ =>
    simp only [deleteLoop]
    split
    · rfl
    · split_ifs
      · obtain ⟨k, rfl⟩ : ∃ k, fuel = k + 1 := ⟨fuel - 1, by omega⟩
        rfl
      · exact ih (by omega) _

/-- `mlv_play_delete_work` returns. -/
theorem deleteWork_isSome (removable : List Char → Bool) (filename : List Char) (files : Files) :
    (deleteWork removable filename files).isSome := by
  unfold deleteWork
  split_ifs
  · rfl
  rw [deleteLoop]
  split
  · rfl
  rw [deleteLoop]
  split_ifs
  · split
    · rfl
    · exact deleteLoop_isSome removable filename (by omega) _
  · exact deleteLoop_isSome removable filename (by omega) _

/-! ### When exactly the movie is deleted -/

namespace Movie

variable {m : Movie} {files files' : Files}

theorem searched_drive : m.Searched m.drive := .inr rfl

/-- Files are deleted that have nothing to do with the movie, or are left, if the condition fails.
-/
theorem separate_of_deletesOnly (hmain : files m.filename ≠ none)
    (hremoved : Removed m.Tried files files') (h : DeletesOnly m files files') :
    m.Separate files := by
  -- A file that is tried and exists is deleted, and so it belongs to the movie.
  have hused {name : List Char} (htried : m.Tried name) (hexists : files name ≠ none) :
      name ∈ m.used files := by
    by_contra hnot
    exact hexists ((h.only name hnot).symm.trans ((hremoved name).1 htried))
  have hkept {name : List Char} (htried : ¬ m.Tried name) (hmem : name ∈ m.used files) :
      files name = none :=
    ((hremoved name).2 htried).symm.trans (h.gone name hmem)
  refine ⟨fun hspanned => ?_, fun hspanned => ?_, fun d n hn hsearched hexists => ?_,
    fun hspanned n hfound => ?_⟩
  · by_contra hexists
    have hmem := hused ⟨m.drive.other, .inl hspanned, .inl rfl⟩ hexists
    rcases (mem_used hmain).1 hmem with heq | ⟨-, heq⟩ | ⟨d, n, -, heq⟩
    · exact m.drive.other_ne (name_inj heq).1
    · exact ext_ne_index (name_inj heq).2
    · exact ext_ne_chunkExt (name_inj heq).2
  · by_contra hexists
    have hmem := hused ⟨m.drive.other, .inl hspanned, .inr (.inl ⟨hspanned, rfl⟩)⟩ hexists
    rcases (mem_used hmain).1 hmem with heq | ⟨-, heq⟩ | ⟨d, n, -, heq⟩
    · exact ext_ne_index (name_inj heq).2.symm
    · exact m.drive.other_ne (name_inj heq).1
    · exact index_ne_chunkExt (name_inj heq).2
  · have hmem := hused ⟨d, hsearched, .inr (.inr ⟨n, hn, rfl⟩)⟩ hexists
    rcases (mem_used hmain).1 hmem with heq | ⟨-, heq⟩ | ⟨e, k, hfound, heq⟩
    · exact absurd (name_inj heq).2.symm ext_ne_chunkExt
    · exact absurd (name_inj heq).2.symm index_ne_chunkExt
    · obtain ⟨rfl, rfl⟩ := chunk_inj hn hfound.1.le heq
      exact hfound
  · refine hfound.2.2.1 (hkept ?_ ((mem_used hmain).2 (.inr (.inr ⟨_, n, hfound, rfl⟩))))
    rintro ⟨e, he, heq | ⟨hnot, -⟩ | ⟨k, hk, heq⟩⟩
    · exact ext_ne_chunkExt (name_inj heq).2.symm
    · exact hspanned hnot
    · obtain ⟨rfl, -⟩ := name_inj heq
      exact m.drive.other_ne (he.resolve_left hspanned)

theorem Separate.deletesOnly (h : m.Separate files) (hmain : files m.filename ≠ none)
    (hremoved : Removed m.Tried files files') : DeletesOnly m files files' := by
  refine ⟨fun name hname => ?_, fun name hname => ?_, fun hother name hhead => ?_⟩
  · refine (hremoved name).1 ?_
    rcases (mem_used hmain).1 hname with rfl | ⟨hspanned, rfl⟩ | ⟨d, n, hfound, rfl⟩
    · exact ⟨m.drive, searched_drive, .inl rfl⟩
    · exact ⟨m.drive, searched_drive, .inr (.inl ⟨hspanned, rfl⟩)⟩
    · refine ⟨d, ?_, .inr (.inr ⟨n, hfound.1.le, rfl⟩)⟩
      by_cases hspanned : m.type.Spanned
      · exact .inl hspanned
      · rcases m.drive.eq_or_eq_other d with rfl | rfl
        · exact searched_drive
        · exact absurd hfound (h.single hspanned n)
  · by_cases htried : m.Tried name
    · -- Such a file does not exist.
      have hnone : files name = none := by
        by_contra hexists
        refine hname ((mem_used hmain).2 ?_)
        obtain ⟨e, he, rfl | ⟨hspanned, rfl⟩ | ⟨k, hk, rfl⟩⟩ := htried
        · rcases m.drive.eq_or_eq_other e with rfl | rfl
          · exact .inl rfl
          · exact absurd (h.main (he.resolve_right m.drive.other_ne)) hexists
        · rcases m.drive.eq_or_eq_other e with rfl | rfl
          · exact .inr (.inl ⟨hspanned, rfl⟩)
          · exact absurd (h.index hspanned) hexists
        · exact .inr (.inr ⟨e, k, h.chunks e k hk he hexists, rfl⟩)
      rw [(hremoved name).1 htried, hnone]
    · exact (hremoved name).2 htried
  · have hspanned : ¬ m.type.Spanned := fun hspanned => hother (h.main hspanned)
    refine (hremoved name).2 ?_
    -- On the other card nothing is tried.
    have hletter (e : Drive) (ext : List Char) (heq : name = m.name e ext) : e = m.drive.other := by
      rw [heq] at hhead
      exact Drive.letter_inj (Option.some.inj hhead)
    rintro ⟨e, he, hname⟩
    have heq : e = m.drive.other := by
      rcases hname with hname | ⟨-, hname⟩ | ⟨k, -, hname⟩
      · exact hletter e _ hname
      · exact hletter e _ hname
      · exact hletter e _ hname
    exact m.drive.other_ne (heq ▸ he.resolve_left hspanned)

end Movie

/-- **Deleting a movie.** If `mlv_play_delete_work` returns `1` for an existing movie, then the
files of the movie have been deleted and no others, if and only if all files with the name of the
movie belong to it. -/
theorem deletesOnly_iff (removable : List Char → Bool) (m : Movie) (files files' : Files)
    (hmain : files m.filename ≠ none)
    (h : deleteWork removable m.filename files = some (true, files')) :
    DeletesOnly m files files' ↔ m.Separate files := by
  have hremoved := Movie.deleteWork_removed h
  exact ⟨Movie.separate_of_deletesOnly hmain hremoved, fun hseparate =>
    hseparate.deletesOnly hmain hremoved⟩

/-- The movie `A:/M.MLV`. -/
def movieOnA : Movie := ⟨.A, [':', '/', 'M', '.'], .MLV⟩

/-- The movie with its first chunk on the other card. -/
def filesWithChunk : Files := fun name =>
  if name = movieOnA.filename ∨ name = movieOnA.chunk .B 0 then some [] else none

theorem separate_filesWithChunk : movieOnA.Separate filesWithChunk where
  main _ := by decide
  index _ := by decide
  chunks d n hn _ hexists := by
    have hname : movieOnA.chunk d n = movieOnA.filename ∨
        movieOnA.chunk d n = movieOnA.chunk .B 0 := by
      by_contra hnot
      exact hexists (if_neg hnot)
    rcases hname with heq | heq
    · exact absurd (Movie.name_inj heq).2.symm Movie.ext_ne_chunkExt
    · obtain ⟨rfl, rfl⟩ := Movie.chunk_inj hn (Nat.zero_le 99) heq
      exact ⟨by decide, fun k hk => absurd hk (Nat.not_lt_zero k), by decide, fun _ => by decide⟩
  single hspanned := absurd trivial hspanned

/-- The movie and its chunk are deleted. -/
theorem deletesOnly_filesWithChunk :
    ∃ files', deleteWork (fun _ => true) movieOnA.filename filesWithChunk = some (true, files') ∧
      DeletesOnly movieOnA filesWithChunk files' := by
  have hresult : ((deleteWork (fun _ => true) movieOnA.filename filesWithChunk).map (·.1)) =
      some true := by decide +kernel
  obtain ⟨⟨_, files'⟩, hwork, rfl⟩ := Option.map_eq_some_iff.1 hresult
  exact ⟨files', hwork, (deletesOnly_iff (fun _ => true) movieOnA filesWithChunk files' (by decide)
    hwork).2 separate_filesWithChunk⟩

/-- A movie of the same name on each card. -/
def filesOnBoth : Files := fun name =>
  if name = movieOnA.filename ∨ name = movieOnA.name .B MovieType.MLV.ext then some [] else none

/-- The movie on the other card is deleted too. -/
theorem delete_other_movie :
    ∃ files', deleteWork (fun _ => true) movieOnA.filename filesOnBoth = some (true, files') ∧
      filesOnBoth (movieOnA.name .B MovieType.MLV.ext) = some [] ∧
      files' (movieOnA.name .B MovieType.MLV.ext) = none ∧
      ¬ DeletesOnly movieOnA filesOnBoth files' := by
  have hresult : ((deleteWork (fun _ => true) movieOnA.filename filesOnBoth).map fun r =>
      (r.1, r.2 (movieOnA.name .B MovieType.MLV.ext))) = some (true, none) := by decide +kernel
  obtain ⟨⟨_, files'⟩, hwork, hpair⟩ := Option.map_eq_some_iff.1 hresult
  obtain ⟨rfl, hgone⟩ := Prod.mk.inj hpair
  refine ⟨files', hwork, by decide, hgone, fun h => ?_⟩
  have hkept := h.other (by decide) (movieOnA.name .B MovieType.MLV.ext) rfl
  exact absurd (hgone.symm.trans hkept) (by decide)

end MagicLantern.MlvPlay
