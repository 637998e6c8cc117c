import Mathlib.Data.List.TakeWhile
import Mathlib.Tactic

/-!
# Text in C

The functions of the C library for text, on lists of characters without the terminating zero: white
space, the conversion `%d` and its inverse `atoi`, and `snprintf` into a buffer that has text in it
already.

A text that is written line by line, with `snprintf` for each line, is a prefix of the lines. If
it is cut, it consists of some whole lines and a part of the next one.
-/

namespace CString

open List

/-- `isspace`. -/
def isspace (c : Char) : Bool :=
  c = ' ' || c = '\t' || c = '\n' || c = '\x0b' || c = '\x0c' || c = '\r'

/-- The text up to the first zero. -/
def ofBuffer (l : List Char) : List Char :=
  l.takeWhile (· ≠ '\x00')

/-! ### Numbers -/

/-- The conversion `%d`. -/
def formatInt : ℤ → List Char
  | .ofNat n => Nat.toDigits 10 n
  | .negSucc n => '-' :: Nat.toDigits 10 (n + 1)

/-- The number at the start of a text. -/
def digits (l : List Char) : ℕ :=
  Nat.ofDigitChars 10 (l.takeWhile Char.isDigit) 0

/-- `atoi`, for numbers in the range of `int`. -/
def atoi (l : List Char) : ℤ :=
  match l.dropWhile isspace with
  | '-' :: l => -(digits l : ℤ)
  | '+' :: l => digits l
  | l => digits l

variable {n w : ℕ} {c : Char} {v : ℤ} {msg : List Char}

theorem isDigit_of_mem_toDigits (h : c ∈ Nat.toDigits 10 n) : c.isDigit = true :=
  Nat.isDigit_of_mem_toDigits (by decide) (by decide) h

theorem digits_toDigits (n : ℕ) : digits (Nat.toDigits 10 n) = n := by
  rw [digits, takeWhile_eq_self_iff.2 fun _ => isDigit_of_mem_toDigits,
    Nat.ofDigitChars_toDigits (by decide) (by decide)]

theorem ne_of_isDigit {d : Char} (hc : c.isDigit = true) (hd : d.isDigit = false) : c ≠ d := by
  rintro rfl
  exact absurd (hc.symm.trans hd) (by decide)

theorem not_isspace_of_isDigit (h : c.isDigit = true) : isspace c = false := by
  have hne (d : Char) (hd : d.isDigit = false) : c ≠ d := ne_of_isDigit h hd
  simp [isspace, hne ' ' rfl, hne '\t' rfl, hne '\n' rfl, hne '\x0b' rfl, hne '\x0c' rfl,
    hne '\r' rfl]

/-- The characters of a formatted number. -/
theorem mem_formatInt (h : c ∈ formatInt v) : c = '-' ∨ c.isDigit = true := by
  cases v with
  | ofNat n => exact .inr (isDigit_of_mem_toDigits h)
  | negSucc n => exact (mem_cons.1 h).imp id isDigit_of_mem_toDigits

theorem not_isspace_of_mem_formatInt (h : c ∈ formatInt v) : isspace c = false := by
  rcases mem_formatInt h with rfl | hd
  · rfl
  · exact not_isspace_of_isDigit hd

theorem dropWhile_of_forall {p : Char → Bool} {l : List Char} (h : ∀ c ∈ l, p c = false) :
    l.dropWhile p = l := by
  cases l with
  | nil => rfl
  | cons c l => simp [h c mem_cons_self]

/-- **Numbers.** `atoi` is the inverse of `%d`. -/
theorem atoi_formatInt (v : ℤ) : atoi (formatInt v) = v := by
  rw [atoi, dropWhile_of_forall fun c => not_isspace_of_mem_formatInt]
  cases v with
  | negSucc n =>
    simp only [formatInt, digits_toDigits]
    omega
  | ofNat n =>
    have hdigits := digits_toDigits n
    simp only [formatInt]
    split
    · next l heq =>
      have : '-' ∈ Nat.toDigits 10 n := heq ▸ mem_cons_self
      exact absurd (isDigit_of_mem_toDigits this) (by decide)
    · next l heq =>
      have : '+' ∈ Nat.toDigits 10 n := heq ▸ mem_cons_self
      exact absurd (isDigit_of_mem_toDigits this) (by decide)
    · rw [hdigits]
      rfl

theorem length_formatInt_le (hlow : -2 ^ 31 ≤ v) (hhigh : v < 2 ^ 31) :
    (formatInt v).length ≤ 11 := by
  have hten {n : ℕ} (h : n ≤ 2 ^ 31) : (Nat.toDigits 10 n).length ≤ 10 :=
    (Nat.length_toDigits_le_iff (by decide) (by decide)).2 (by omega)
  cases v with
  | ofNat n =>
    simp only [Int.ofNat_eq_natCast] at hhigh
    exact (hten (by omega)).trans (by decide)
  | negSucc n => exact Nat.succ_le_succ (hten (by omega))

/-- The conversion `%0wd`. -/
def formatPadded (w : ℕ) : ℤ → List Char
  | .ofNat n => List.replicate (w - (Nat.toDigits 10 n).length) '0' ++ Nat.toDigits 10 n
  | .negSucc n =>
    '-' :: (List.replicate (w - 1 - (Nat.toDigits 10 (n + 1)).length)
      '0' ++ Nat.toDigits 10 (n + 1))

theorem mem_formatPadded (h : c ∈ formatPadded w v) : c = '-' ∨ c.isDigit = true := by
  have hpad {k m : ℕ} (h : c ∈ replicate k '0' ++ Nat.toDigits 10 m) : c.isDigit = true := by
    rcases mem_append.1 h with h | h
    · rw [eq_of_mem_replicate h]
      rfl
    · exact isDigit_of_mem_toDigits h
  cases v with
  | ofNat n => exact .inr (hpad h)
  | negSucc n => exact (mem_cons.1 h).imp id hpad

theorem length_formatPadded_le (hlow : -2 ^ 31 ≤ v) (hhigh : v < 2 ^ 31) :
    (formatPadded w v).length ≤ w + 11 := by
  have hlen := length_formatInt_le hlow hhigh
  cases v with
  | ofNat n =>
    simp only [formatInt, formatPadded, length_append, length_replicate] at *
    omega
  | negSucc n =>
    simp only [formatInt, formatPadded, length_append, length_replicate,
      length_cons] at *
    omega

theorem isDigit_of_mem_formatPadded (h : c ∈ formatPadded w n) : c.isDigit = true := by
  rcases mem_append.1 h with h | h
  · rw [eq_of_mem_replicate h]
    rfl
  · exact isDigit_of_mem_toDigits h

theorem length_formatPadded_two (hn : n ≤ 99) : (formatPadded 2 n).length = 2 := by
  have hall : ∀ k < 100, (formatPadded 2 (k : ℕ)).length = 2 := by decide
  exact hall n (by omega)

/-- Numbers with two digits are read back. -/
theorem formatPadded_two_inj {k : ℕ} (hn : n ≤ 99) (hk : k ≤ 99)
    (h : formatPadded 2 n = formatPadded 2 k) : n = k := by
  have hall : ∀ n < 100, digits (formatPadded 2 (n : ℕ)) = n := by decide
  rw [← hall n (by omega), ← hall k (by omega), h]

/-! ### Buffers -/

/-- `snprintf` at the end of a text, where it may write `n` bytes with the terminating zero. -/
def appendLimited (msg : List Char) (n : ℕ) (text : List Char) : List Char :=
  msg ++ text.take (n - 1)

theorem appendLimited_of_lt {text : List Char} (h : text.length < n) :
    appendLimited msg n text = msg ++ text := by
  rw [appendLimited, take_of_length_le (by omega)]

/-- **Lines.** If each line is appended with what is left of `size` bytes, the lines are written up
to that size. -/
theorem foldl_appendLimited {size : ℕ} (hmsg : msg.length < size) (lines : List (List Char)) :
    lines.foldl (fun msg line => appendLimited msg (size - msg.length) line) msg =
      (msg ++ lines.flatten).take (size - 1) := by
  induction lines generalizing msg with
  | nil => simp [take_of_length_le (show msg.length ≤ size - 1 by omega)]
  | cons line lines ih =>
    have hstep : appendLimited msg (size - msg.length) line = (msg ++ line).take (size - 1) := by
      have hmsg' : msg.take (size - 1) = msg := take_of_length_le (by omega)
      rw [appendLimited, take_append, hmsg', Nat.sub_right_comm]
    have hlt : ((msg ++ line).take (size - 1)).length < size := by
      rw [length_take]
      omega
    rw [foldl_cons, hstep, ih hlt, flatten_cons, ← append_assoc]
    rcases Nat.lt_or_ge (msg ++ line).length (size - 1) with hfits | hfull
    · rw [take_of_length_le hfits.le]
    · rw [take_append_of_le_length (by rw [length_take]; omega), take_take,
        take_append_of_le_length hfull, Nat.min_self]

/-- A text that is cut has some whole lines and then a part of the next one. -/
theorem exists_take_flatten (lines : List (List Char)) (n : ℕ) :
    lines.flatten.length ≤ n ∧ lines.flatten.take n = lines.flatten ∨
    ∃ done line rest part, lines = done ++ line :: rest ∧ part <+: line ∧ part ≠ line ∧
      lines.flatten.take n = done.flatten ++ part := by
  induction lines generalizing n with
  | nil => exact .inl ⟨Nat.zero_le n, by simp⟩
  | cons l lines ih =>
    rcases Nat.lt_or_ge n l.length with hcut | hwhole
    · refine .inr ⟨[], l, lines, l.take n, rfl, take_prefix n l, fun heq => ?_, ?_⟩
      · have := congrArg length heq
        rw [length_take] at this
        omega
      · rw [flatten_cons, take_append_of_le_length hcut.le]
        rfl
    · rw [flatten_cons, take_append, take_of_length_le hwhole, length_append]
      rcases ih (n - l.length) with ⟨hlen, htake⟩ | ⟨done, line, rest, part, rfl, hpre, hne, htake⟩
      · exact .inl ⟨by omega, by rw [htake]⟩
      · refine .inr ⟨l :: done, line, rest, part, rfl, hpre, hne, ?_⟩
        rw [htake, flatten_cons, append_assoc]

end CString
