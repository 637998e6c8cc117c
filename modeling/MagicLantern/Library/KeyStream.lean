import Mathlib.Data.List.Basic
import Mathlib.Data.Nat.Bitwise

/-!
# Key streams

A stream cipher has a byte for each position of a text, and text and cipher text differ by these
bytes. So each piece of a text can be processed on its own, at its position, and doing it twice
gives the text back.
-/

namespace KeyStream

/-- The bytes of a piece at the position `o`, with the key stream `k`. -/
def xorStream (k : ℕ → UInt8) (o : ℕ) (l : List UInt8) : List UInt8 :=
  l.mapIdx fun i b => b ^^^ k (o + i)

variable {k : ℕ → UInt8} {o : ℕ} {l : List UInt8}

@[simp] theorem length_xorStream : (xorStream k o l).length = l.length := by
  simp [xorStream]

theorem getElem_xorStream (i : ℕ) (h : i < (xorStream k o l).length) (hi : i < l.length) :
    (xorStream k o l)[i] = l[i] ^^^ k (o + i) := by
  simp [xorStream]

theorem getElem?_xorStream (i : ℕ) : (xorStream k o l)[i]? = l[i]?.map (· ^^^ k (o + i)) := by
  simp [xorStream]

theorem xor_xor_cancel (a b : UInt8) : a ^^^ b ^^^ b = a := by
  rw [UInt8.xor_assoc, UInt8.xor_self, UInt8.xor_zero]

/-! ### In memory -/

/-- The `n` bytes from the address `a` on are combined with the key stream from the position `o` on.
-/
def xorAt (k : ℕ → UInt8) (a n o : ℕ) (m : ℕ → UInt8) (x : ℕ) : UInt8 :=
  if a ≤ x ∧ x < a + n then m x ^^^ k (o + (x - a)) else m x

variable {a n n' : ℕ} {m : ℕ → UInt8}

@[simp] theorem xorAt_zero : xorAt k a 0 o m = m := by
  funext x
  exact if_neg (by omega)

theorem xorAt_append :
    xorAt k (a + n) n' (o + n) (xorAt k a n o m) = xorAt k a (n + n') o m := by
  funext x
  simp only [xorAt]
  split_ifs
  any_goals omega
  any_goals rfl
  rw [show o + n + (x - (a + n)) = o + (x - a) by omega]

end KeyStream
