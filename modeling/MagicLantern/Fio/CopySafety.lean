import MagicLantern.Fio.CopyFile

/-!
# Copies are complete

As long as the loop of `FIO_CopyFile` goes on, the second file has the bytes of the first one up to
the current position, and the first one is not changed.

## Main results

* `copy_right_iff` — when a copy is complete.
* `copy_incomplete`.
-/

namespace MagicLantern.Fio

open Function List Option

variable {answers : CopyAnswers} {bufsize : ℕ} {src dst : List Char} {data : List UInt8}

namespace Card

variable {s t u : Card} {pos fuel i n m : ℕ}

/-- Nothing but the second file has changed since `s`. -/
structure Kept (src : List Char) (data : List UInt8) (s t : Card) : Prop where
  source : t.files src = some data
  handles : t.handles = s.handles
  history : ∀ files ∈ t.history, files ∈ s.history ∨ files src = some data

/-- The second file has the first `pos` bytes of the first one. -/
structure Copying (src dst : List Char) (data : List UInt8) (s : Card) (pos : ℕ) (t : Card) : Prop
    extends Kept src data s t where
  target : t.files dst = some (data.take pos)
  pos_le : pos ≤ data.length

theorem Kept.content_eq (h : Kept src data s t) : t.content src = data := by
  rw [content, h.source]
  rfl

theorem Kept.setFile (h : Kept src data s t) (hne : src ≠ dst) (content : Option (List UInt8)) :
    Kept src data s (t.setFile dst content) := by
  have hsource : update t.files dst content src = some data := by
    rw [update_of_ne hne, h.source]
  refine ⟨hsource, h.handles, fun files hfiles => ?_⟩
  rcases mem_cons.1 hfiles with rfl | hfiles
  · exact .inr hsource
  · exact h.history files hfiles

theorem Copying.append {r : ℕ} (h : Copying src dst data s pos t) (hne : src ≠ dst)
    (hle : pos + r ≤ data.length) :
    Copying src dst data s (pos + r) (t.appendFile dst ((data.drop pos).take r)) := by
  refine ⟨h.toKept.setFile hne _, ?_, hle⟩
  rw [appendFile, content, h.target, take_add]
  exact update_self ..

/-! ### The loop -/

theorem copyLoop_retry (hread : answers.read i = none) (hwrite : answers.write i = none) :
    copyLoop answers src dst bufsize (fuel + 1) i pos s =
      copyLoop answers src dst bufsize fuel (i + 1) pos s := by
  rw [copyLoop, hread, hwrite]

theorem copyLoop_error (hread : answers.read i = none) (hwrite : answers.write i = some n) :
    copyLoop answers src dst bufsize (fuel + 1) i pos s =
      some (s.appendFile dst ((range n).map answers.memory), true) := by
  rw [copyLoop, hread, hwrite]

section

variable (h : Kept src data s t) (hread : answers.read i = some n)

include h hread

theorem copyLoop_zero (hr : min n (min bufsize (data.length - pos)) = 0) :
    copyLoop answers src dst bufsize (fuel + 1) i pos t = some (t, false) := by
  rw [copyLoop, hread, h.content_eq]
  exact if_pos hr

theorem copyLoop_failed
    (hwrite : answers.write i = none) (hr : min n (min bufsize (data.length - pos)) ≠ 0) :
    copyLoop answers src dst bufsize (fuel + 1) i pos t = some (t, true) := by
  rw [copyLoop, hread, hwrite, h.content_eq]
  exact if_neg hr

theorem copyLoop_short
    (hwrite : answers.write i = some m) (hlt : m < min n (min bufsize (data.length - pos))) :
    copyLoop answers src dst bufsize (fuel + 1) i pos t =
      some (t.appendFile dst
        (((data.drop pos).take (min n (min bufsize (data.length - pos)))).take m), true) := by
  rw [copyLoop, hread, hwrite, h.content_eq]
  simp only [if_neg (Nat.ne_zero_of_lt hlt), if_pos hlt]

theorem copyLoop_next
    (hwrite : answers.write i = some m) (hr : min n (min bufsize (data.length - pos)) ≠ 0)
    (hle : min n (min bufsize (data.length - pos)) ≤ m) :
    copyLoop answers src dst bufsize (fuel + 1) i pos t =
      copyLoop answers src dst bufsize fuel (i + 1) (pos + min n (min bufsize (data.length - pos)))
        (t.appendFile dst ((data.drop pos).take (min n (min bufsize (data.length - pos))))) := by
  rw [copyLoop, hread, hwrite, h.content_eq]
  simp only [if_neg hr, if_neg hle.not_gt]
  rw [take_of_length_le (by rw [length_take]; omega)]

end

theorem copyLoop_mono {result : Card × Bool}
    (h : copyLoop answers src dst bufsize fuel i pos s = some result) (k : ℕ) :
    copyLoop answers src dst bufsize (fuel + k) i pos s = some result := by
  induction fuel generalizing i pos s with
  | zero => cases h
  | succ fuel ih =>
    rw [Nat.succ_add]
    rw [copyLoop] at h ⊢
    split at h
    · exact ih h
    · exact h
    · dsimp only at h ⊢
      split_ifs at h ⊢ with hr
      · exact h
      · split at h
        · exact h
        · split_ifs at h ⊢ with hm
          · exact h
          · exact ih h

/-- If all further calls fail, the loop does not end. -/
theorem copyLoop_eq_none (h : ∀ j ≥ i, answers.read j = none ∧ answers.write j = none)
    (fuel pos : ℕ) : copyLoop answers src dst bufsize fuel i pos s = none := by
  induction fuel generalizing i with
  | zero => rfl
  | succ fuel ih =>
    obtain ⟨hread, hwrite⟩ := h i le_rfl
    rw [copyLoop_retry hread hwrite]
    exact ih fun j hj => h j (by omega)

/-- Where the loop is when the `i`-th call is made. -/
theorem copyLoop_of_reaches (hs : Copying src dst data s 0 s) (hne : src ≠ dst)
    (h : Reaches answers bufsize data.length i pos) :
    ∃ t, Copying src dst data s pos t ∧ ∀ fuel,
      copyLoop answers src dst bufsize (fuel + i) 0 0 s =
        copyLoop answers src dst bufsize fuel i pos t := by
  induction h with
  | zero => exact ⟨s, hs, fun fuel => rfl⟩
  | retry _ hread hwrite ih =>
    obtain ⟨t, ht, hloop⟩ := ih
    refine ⟨t, ht, fun fuel => ?_⟩
    rw [← Nat.add_assoc, Nat.add_right_comm fuel, hloop, copyLoop_retry hread hwrite]
  | next _ hread hwrite hr hle ih =>
    obtain ⟨t, ht, hloop⟩ := ih
    refine ⟨_, ht.append hne ?_, fun fuel => ?_⟩
    · omega
    · rw [← Nat.add_assoc, Nat.add_right_comm fuel, hloop,
        copyLoop_next ht.toKept hread hwrite hr hle]

/-- What the loop has done. -/
structure LoopRight (src dst : List Char) (data : List UInt8) (s t : Card) (err : Bool) : Prop
    extends Kept src data s t where
  complete : err = false → t.files dst = some data

/-- The loop comes to an end. -/
def Ends (answers : CopyAnswers) (bufsize : ℕ) (src dst : List Char) (data : List UInt8) (s : Card)
    (i pos : ℕ) (t : Card) : Prop :=
  ∃ fuel u err, copyLoop answers src dst bufsize fuel i pos t = some (u, err) ∧
    LoopRight src dst data s u err

section

variable (hgood : answers.Good bufsize data.length) (hbufsize : data.length ≠ 0 → bufsize ≠ 0)
  (hne : src ≠ dst)

include hgood hbufsize hne

theorem Ends.of_next
    (hreach : Reaches answers bufsize data.length i pos) (ht : Copying src dst data s pos t)
    (herror : ¬ (answers.read i = none ∧ answers.write i = none))
    (ih : ∀ i' pos' u, pos < pos' → Reaches answers bufsize data.length i' pos' →
      Copying src dst data s pos' u → Ends answers bufsize src dst data s i' pos' u) :
    Ends answers bufsize src dst data s i pos t := by
  cases hread : answers.read i with
  | none =>
    cases hwrite : answers.write i with
    | none => exact absurd ⟨hread, hwrite⟩ herror
    | some n => exact ⟨1, _, true, copyLoop_error hread hwrite, ht.toKept.setFile hne _, nofun⟩
  | some n =>
    by_cases hr : min n (min bufsize (data.length - pos)) = 0
    · have hpos : pos = data.length := by
        by_contra hpos
        have hlt : pos < data.length := lt_of_le_of_ne ht.pos_le hpos
        have hn : n ≠ 0 := fun hn => hgood.read_ne_zero i pos hreach hlt (hn ▸ hread)
        omega
      refine ⟨1, t, false, copyLoop_zero ht.toKept hread hr, ht.toKept, fun _ => ?_⟩
      rw [ht.target, hpos, take_length]
    · cases hwrite : answers.write i with
      | none => exact ⟨1, t, true, copyLoop_failed ht.toKept hread hwrite hr, ht.toKept, nofun⟩
      | some m =>
        by_cases hm : m < min n (min bufsize (data.length - pos))
        · exact ⟨1, _, true, copyLoop_short ht.toKept hread hwrite hm, ht.toKept.setFile hne _,
            nofun⟩
        · have hle := Nat.le_of_not_lt hm
          obtain ⟨fuel, u, err, hloop, hu⟩ := ih _ _ _ (by omega) (hreach.next hread hwrite hr hle)
            (ht.append hne (by omega))
          exact ⟨fuel + 1, u, err, (copyLoop_next ht.toKept hread hwrite hr hle).trans hloop, hu⟩

/-- With good answers, the loop ends. The induction is on the number of bytes that are left, and in
it on the number of errors until a call succeeds. -/
theorem Ends.of_good (left : ℕ)
    (hleft : data.length - pos = left) (hreach : Reaches answers bufsize data.length i pos)
    (ht : Copying src dst data s pos t) : Ends answers bufsize src dst data s i pos t := by
  induction left using Nat.strong_induction_on generalizing i pos t with
  | _ left ih =>
    obtain ⟨j, hj, hends⟩ := hgood.ends i pos hreach
    obtain ⟨errors, rfl⟩ := Nat.exists_eq_add_of_le hj
    clear hj
    induction errors generalizing i with
    | zero =>
      refine Ends.of_next hgood hbufsize hne hreach ht hends fun i' pos' u hlt hreach' hu => ?_
      exact ih _ (by have := hu.pos_le; omega) rfl hreach' hu
    | succ errors ih' =>
      by_cases herror : answers.read i = none ∧ answers.write i = none
      · obtain ⟨hread, hwrite⟩ := herror
        obtain ⟨fuel, u, err, hloop, hu⟩ := ih' (hreach.retry hread hwrite) (by
          rwa [Nat.add_assoc, Nat.add_comm 1])
        exact ⟨fuel + 1, u, err, (copyLoop_retry hread hwrite).trans hloop, hu⟩
      · refine Ends.of_next hgood hbufsize hne hreach ht herror fun i' pos' u hlt hreach' hu => ?_
        exact ih _ (by have := hu.pos_le; omega) rfl hreach' hu

end

/-- If the loop ends and a result without an error is complete, then the answers were good, apart
from the memory for the buffer. -/
theorem good_of_copyLoop (hs : Copying src dst data s 0 s) (hne : src ≠ dst) {err : Bool}
    (hloop : copyLoop answers src dst bufsize fuel 0 0 s = some (u, err))
    (hcomplete : err = false → u.files dst = some data) (hallocated : answers.allocated = true) :
    answers.Good bufsize data.length := by
  refine ⟨hallocated, fun i pos hreach hlt hread => ?_, fun i pos hreach => ?_⟩
  · obtain ⟨t, ht, hloop'⟩ := copyLoop_of_reaches hs hne hreach
    have hend := copyLoop_mono hloop (1 + i)
    rw [Nat.add_comm, Nat.add_right_comm, hloop', Nat.add_comm 1,
      copyLoop_zero ht.toKept hread (Nat.zero_min _)] at hend
    cases hend
    have htake := (ht.target.symm.trans (hcomplete rfl))
    have := congrArg length (some.inj htake)
    rw [length_take] at this
    omega
  · by_contra hends
    push Not at hends
    obtain ⟨t, ht, hloop'⟩ := copyLoop_of_reaches hs hne hreach
    have hend := copyLoop_mono hloop i
    rw [hloop', copyLoop_eq_none hends] at hend
    cases hend

/-! ### The functions -/

/-- The card after the second file has been created. -/
def created (s : Card) (dst : List Char) : Card :=
  ((s.openHandle.setFile dst none).setFile dst (some [])).openHandle

theorem copying_created (hsrc : s.files src = some data) (hne : src ≠ dst) :
    Copying src dst data (s.created dst) 0 (s.created dst) := by
  refine ⟨⟨?_, rfl, fun files hfiles => .inl hfiles⟩, ?_, Nat.zero_le _⟩
  · change update (update s.files dst none) dst (some []) src = some data
    rw [update_of_ne hne, update_of_ne hne, hsrc]
  · exact update_self ..

theorem bufsize_created (hne : src ≠ dst) :
    (s.created dst).bufsize answers src = s.bufsize answers src := by
  rw [Card.bufsize, Card.bufsize, content, content]
  change min (if _ then (((update (update s.files dst none) dst (some [])) src).getD
    []).length else _) _ = _
  rw [update_of_ne hne, update_of_ne hne]

theorem bufsize_ne_zero (hsrc : s.files src = some data) (hdata : data.length ≠ 0) :
    s.bufsize answers src ≠ 0 := by
  rw [Card.bufsize, content, hsrc, getD_some]
  split_ifs <;> omega

theorem Kept.setFile_dst (h : Kept src data s t) (hne : src ≠ dst) :
    (t.setFile dst none).files src = some data ∧ (t.setFile dst none).files dst = none :=
  ⟨(h.setFile hne none).source, update_self ..⟩

theorem mem_history_created (hne : src ≠ dst) {files : Files}
    (h : files ∈ (s.created dst).history) : files ∈ s.history ∨ files src = s.files src := by
  rcases mem_cons.1 h with rfl | h
  · refine .inr ?_
    change update (update s.files dst none) dst (some []) src = s.files src
    rw [update_of_ne hne, update_of_ne hne]
  · rcases mem_cons.1 h with rfl | h
    · exact .inr (update_of_ne hne ..)
    · exact .inl h

theorem allReleased_closed (h : t.handles = (s.created dst).handles) :
    s.handles.AllReleased
      ((t.closeFile s.handles.created).closeFile (s.handles.created + 1)).handles := by
  have hreleased : ((t.closeFile s.handles.created).closeFile (s.handles.created + 1)).handles =
      ⟨s.handles.created + 2,
        (s.handles.created + 1) :: s.handles.created :: s.handles.released⟩ := by
    rw [closeFile, closeFile, h]
    rfl
  rw [hreleased, Resources.AllReleased, Nat.add_sub_cancel_left]
  exact Perm.swap ..

/-- `FIO_CopyFile`, once both files are open and there is a buffer. -/
theorem copyNamed_eq (hsome : (s.files src).isSome = true) (hopened : answers.opened = true)
    (hcreated : (answers.created.1 || answers.created.2) = true)
    (hallocated : answers.allocated = true) (hne : src ≠ dst) (fuel : ℕ) :
    s.copyNamed answers fuel src dst =
      (copyLoop answers src dst (s.bufsize answers src) fuel 0 0 (s.created dst)).map
        fun (u, err) =>
        if err then
          (((u.closeFile s.handles.created).closeFile (s.handles.created + 1)).setFile dst none, -1)
        else ((u.closeFile s.handles.created).closeFile (s.handles.created + 1), 0) := by
  rw [← bufsize_created hne]
  simp only [copyNamed, fioCreateFileEx, hsome, hopened, hcreated, hallocated]
  rfl

/-- With good answers, the copy is right, and the first file was never changed. -/
theorem exists_copyNamed (hgood : answers.GoodFor s src) (hne : src ≠ dst) :
    ∃ fuel t result, s.copyNamed answers fuel src dst = some (t, result) ∧
      CopyRight s t src dst result ∧
      ∀ files ∈ t.history, files ∈ s.history ∨ files src = s.files src := by
  by_cases hopen : ((s.files src).isSome && answers.opened) = true
  · obtain ⟨hsome, hopened⟩ := Bool.and_eq_true_iff.1 hopen
    obtain ⟨data, hdata⟩ := isSome_iff_exists.1 hsome
    by_cases hcreated : (answers.created.1 || answers.created.2) = true
    · have hgood := hgood hsome hopened hcreated
      rw [content, hdata] at hgood
      obtain ⟨fuel, u, err, hloop, hu⟩ := Ends.of_good hgood (bufsize_ne_zero hdata) hne _ rfl .zero
        (copying_created hdata hne)
      have hclosed := allReleased_closed hu.handles
      have hhistory (files : Files) (hfiles : files ∈ u.history) :
          files ∈ s.history ∨ files src = s.files src := by
        rcases hu.history files hfiles with hfiles | hfiles
        · exact mem_history_created hne hfiles
        · exact .inr (hfiles.trans hdata.symm)
      refine ⟨fuel, _, _, (copyNamed_eq hsome hopened hcreated hgood.allocated hne fuel).trans
        (congrArg (Option.map _) hloop), ?_⟩
      cases err with
      | false =>
        exact ⟨⟨fun _ => (hu.complete rfl).trans hdata.symm, hu.source.trans hdata.symm, nofun,
          hclosed⟩, hhistory⟩
      | true =>
        obtain ⟨hsource, htarget⟩ := hu.toKept.setFile_dst hne
        refine ⟨⟨nofun, hsource.trans hdata.symm, fun _ => .inl htarget, hclosed⟩,
          fun files hfiles => ?_⟩
        rcases mem_cons.1 hfiles with rfl | hfiles
        · exact .inr (hsource.trans hdata.symm)
        · exact hhistory files hfiles
    · refine ⟨0, (s.openHandle.setFile dst none).closeFile s.handles.created, -1, ?_, ⟨nofun,
        update_of_ne hne .., fun _ => .inl (update_self ..), ?_⟩, fun files hfiles => ?_⟩
      · simp only [copyNamed, fioCreateFileEx, if_pos hopen, if_neg hcreated]
      · change (s.handles.created :: s.handles.released).Perm (range' s.handles.created
          (s.handles.created + 1 - s.handles.created) ++ s.handles.released)
        rw [Nat.add_sub_cancel_left]
        exact Perm.refl _
      · rcases mem_cons.1 hfiles with rfl | hfiles
        · exact .inr (update_of_ne hne ..)
        · exact .inl hfiles
  · refine ⟨0, s, -1, ?_, ⟨nofun, rfl, fun _ => .inr rfl, .refl _⟩, fun files => .inl⟩
    rw [copyNamed, if_neg hopen]

theorem goodFor_of_copyRight (hne : src ≠ dst) {result : ℤ}
    (hcopy : s.copyNamed answers fuel src dst =
      some (t, result)) (hright : CopyRight s t src dst result) : answers.GoodFor s src := by
  intro hsome hopened hcreated
  obtain ⟨data, hdata⟩ := isSome_iff_exists.1 hsome
  rw [content, hdata, getD_some]
  by_cases hallocated : answers.allocated = true
  · rw [copyNamed_eq hsome hopened hcreated hallocated hne] at hcopy
    obtain ⟨⟨u, err⟩, hloop, heq⟩ := map_eq_some_iff.1 hcopy
    refine good_of_copyLoop (copying_created hdata hne) hne hloop ?_ hallocated
    rintro rfl
    obtain ⟨rfl, rfl⟩ := Prod.mk.inj heq
    exact (hright.complete rfl).trans hdata
  · -- Two handles were opened and none was closed.
    have hleft : s.copyNamed answers fuel src dst = some (s.created dst, -1) := by
      simp only [copyNamed, fioCreateFileEx, hsome, hopened, hcreated, if_neg hallocated]
      rfl
    obtain ⟨rfl, rfl⟩ := Prod.mk.inj (some.inj (hleft.symm.trans hcopy))
    have hlength := hright.closed.length_eq
    change s.handles.released.length = s.handles.created + 1 + 1 - s.handles.created +
      s.handles.released.length at hlength
    omega

end Card

/-- **Copies are complete, and moving loses nothing.** `FIO_CopyFile` ends, with a complete copy if
the result is 0, without a copy otherwise, and with all handles closed, exactly if there is memory
for the buffer, no call of `FIO_ReadFile` before the end of the file gives zero bytes, and errors do
not go on for ever. Then `FIO_MoveFile` ends too, and there is a complete copy of the file all the
time. -/
theorem copy_right_iff (drives : Drives) (answers : CopyAnswers) (s : Card) (src dst : List Char)
    (hne : fixupFilename drives src ≠ fixupFilename drives dst) :
    ((∃ fuel t result, s.fioCopyFile drives answers fuel (some src) (some dst) = some (t, result) ∧
        Card.CopyRight s t (fixupFilename drives src) (fixupFilename drives dst) result) ↔
      answers.GoodFor s (fixupFilename drives src)) ∧
    (answers.GoodFor s (fixupFilename drives src) →
      ∃ fuel t result, s.fioMoveFile drives answers fuel (some src) (some dst) = some (t, result) ∧
        Card.MoveRight s t (fixupFilename drives src) (fixupFilename drives dst) result) := by
  refine ⟨⟨fun ⟨fuel, t, result, hcopy, hright⟩ => Card.goodFor_of_copyRight hne hcopy hright,
    fun hgood => ?_⟩, fun hgood => ?_⟩
  · obtain ⟨fuel, t, result, hcopy, hright, -⟩ := Card.exists_copyNamed hgood hne
    exact ⟨fuel, t, result, hcopy, hright⟩
  · obtain ⟨fuel, t, result, hcopy, hright, hhistory⟩ := Card.exists_copyNamed hgood hne
    by_cases hresult : result = 0
    · subst hresult
      refine ⟨fuel, _, _, congrArg (Option.map _) hcopy, ?_⟩
      have htarget : update t.files (fixupFilename drives src) none (fixupFilename drives dst) =
          s.files (fixupFilename drives src) := by
        rw [update_of_ne hne.symm, hright.complete rfl]
      refine ⟨fun _ => ⟨update_self .., htarget⟩, fun h => absurd rfl h, fun files hfiles => ?_⟩
      rcases mem_cons.1 hfiles with rfl | hfiles
      · exact .inr (.inr htarget)
      · exact (hhistory files hfiles).imp_right .inl
    · refine ⟨fuel, t, result, ?_, fun h => absurd h hresult, fun _ => hright.source,
        fun files hfiles => (hhistory files hfiles).imp_right .inl⟩
      rw [Card.fioMoveFile, Card.fioCopyFile, hcopy]
      exact congrArg some (if_neg hresult)

/-- A card with one file of two bytes. -/
def smallCard : Card where
  files := fun name => if name = ['A', ':', '/', 'a'] then some [1, 2] else none
  handles := ⟨0, []⟩
  history := []

/-- Two cards in use. -/
def smallDrives : Drives := ⟨'A', 'B'⟩

/-- All calls succeed, and reads and writes have the given answers. -/
def smallAnswers (allocated : Bool) (read write : Option ℕ) : CopyAnswers :=
  ⟨true, (true, true), true, allocated, fun _ => read, fun _ => write, fun _ => 0⟩

/-- The file is copied byte by byte. -/
theorem copy_right_small :
    fixupFilename smallDrives ['a'] ≠ fixupFilename smallDrives ['A', ':', '/', 'b'] ∧
    ((∃ fuel t result, smallCard.fioCopyFile smallDrives (smallAnswers true (some 1) (some 1)) fuel
          (some ['a']) (some ['A', ':', '/', 'b']) = some (t, result) ∧
        Card.CopyRight smallCard t (fixupFilename smallDrives ['a'])
          (fixupFilename smallDrives ['A', ':', '/', 'b']) result) ↔
      (smallAnswers true (some 1) (some 1)).GoodFor smallCard (fixupFilename smallDrives ['a'])) :=
  ⟨by decide, (copy_right_iff _ _ _ _ _ (by decide)).1⟩

/-- After a read of zero bytes, `FIO_MoveFile` removes the file although nothing was copied. Without
memory for the buffer, `FIO_CopyFile` leaves an empty file and two open handles. If all reads and
writes fail, it does not end. -/
theorem copy_incomplete :
    (∃ t, smallCard.fioMoveFile smallDrives (smallAnswers true (some 0) (some 1)) 1 (some ['a'])
        (some ['b']) = some (t, 0) ∧
      t.files ['A', ':', '/', 'a'] = none ∧ t.files ['A', ':', '/', 'b'] = some []) ∧
    (∃ t, smallCard.fioCopyFile smallDrives (smallAnswers false (some 1) (some 1)) 1 (some ['a'])
        (some ['b']) = some (t, -1) ∧
      t.files ['A', ':', '/', 'b'] = some [] ∧ t.handles = ⟨2, []⟩) ∧
    ∀ fuel, smallCard.fioCopyFile smallDrives (smallAnswers true none none) fuel (some ['a'])
      (some ['b']) = none := by
  refine ⟨⟨_, rfl, rfl, rfl⟩, ⟨_, rfl, rfl, rfl⟩, fun fuel => ?_⟩
  rw [Card.fioCopyFile, Card.copyNamed_eq rfl rfl rfl rfl (by decide),
    Card.copyLoop_eq_none (fun _ _ => ⟨rfl, rfl⟩)]
  rfl

end MagicLantern.Fio
