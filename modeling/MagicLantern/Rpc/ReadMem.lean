import MagicLantern.Library.Runs

/-!
# Reading the memory of the other processor

`ml_rpc_readmem` asks the master for two words and waits. `ml_rpc_handler` stores the words of each
reply and asks for the next two. What remains is the length in bytes at first, but it is counted
down by one for each word.

Source: `src/src/ml_rpc.c`.

## Main results

* `readmem_right_iff` — when only the buffer is written.
* `readmem_one_word`.
-/

namespace MagicLantern.Rpc

/-- The variables of a transfer. -/
structure Transfer where
  wait : ℕ
  remain : ℕ
  addr : UInt32
  pos : ℕ
  /-- The bytes that were written, from the start of the buffer. -/
  buffer : ℕ → Option UInt8
  /-- The request that has not been answered. -/
  request : Option (UInt32 × UInt32)
  /-- What `ml_rpc_readmem` has returned. -/
  result : Option Bool

/-- `ml_rpc_readmem` up to its loop. -/
def mlRpcReadmem (address length : UInt32) : Transfer where
  wait := (length / 4 * 50).toNat
  remain := length.toNat
  addr := address
  pos := 0
  buffer _ := none
  request := some (address, address + 4)
  result := none

/-- A word of a reply is stored, the one at the address `p` of the master. -/
def Transfer.store (master : UInt32 → UInt8) (s : Transfer) (p : UInt32) : Transfer :=
  if s.remain ≠ 0 then
    { s with
      buffer := fun o => if 4 * s.pos ≤ o ∧ o < 4 * s.pos + 4 then
        some (master (p + .ofNat (o - 4 * s.pos))) else s.buffer o
      pos := s.pos + 1
      remain := s.remain - 1
      addr := s.addr + 4 }
  else s

/-- An iteration of the loop, or a reply. -/
inductive TransferOp
  | poll
  | reply
  deriving DecidableEq

/-- The loop ends once; there is a reply to each request. -/
def TransferOp.step (master : UInt32 → UInt8) (s : Transfer) : TransferOp → Option Transfer
  | .poll =>
    if s.result ≠ none then none
    else if s.wait ≠ 0 ∧ s.remain ≠ 0 then some { s with wait := s.wait - 1 }
    else some { s with result := some (0 < s.wait) }
  | .reply => s.request.map fun (p, q) =>
    let t := (s.store master p).store master q
    { t with request := if t.remain ≠ 0 then some (t.addr, t.addr + 4) else none }

/-- Nothing outside the buffer was written, and if the call was successful, the buffer holds the
bytes of the master. -/
structure Transfer.Right (master : UInt32 → UInt8) (address length : UInt32) (s : Transfer) :
    Prop where
  inside : ∀ o ≥ length.toNat, s.buffer o = none
  holds : s.result = some true → ∀ o < length.toNat, s.buffer o = some (master (address + .ofNat o))

/-- After `k` words have been stored. -/
structure Transfer.Stored (n k : ℕ) (s : Transfer) : Prop where
  pos : s.pos = k
  remain : k + s.remain = n
  buffer : ∀ o, s.buffer o = none ↔ 4 * k ≤ o

/-- After `r` replies. -/
structure Transfer.After (n r : ℕ) (s : Transfer) : Prop extends s.Stored n (2 * r) where
  request : s.request ≠ none → s.remain ≠ 0
  result : s.result = some true → s.remain = 0

variable {master : UInt32 → UInt8} {s t : Transfer} {n k r : ℕ} {ops : List TransferOp}

theorem Transfer.Stored.store (h : s.Stored n k) (hlt : k < n) (master : UInt32 → UInt8)
    (p : UInt32) : (s.store master p).Stored n (k + 1) ∧ (s.store master p).result = s.result := by
  have hpos := h.pos
  have hremain := h.remain
  rw [Transfer.store, if_pos (by omega)]
  refine ⟨⟨congrArg (· + 1) hpos, by dsimp only; omega, fun o => ?_⟩, rfl⟩
  dsimp only
  split_ifs with ho
  · exact iff_of_false id (by omega)
  · rw [h.buffer]
    omega

/-- Each reply is two words more. -/
theorem Transfer.After.step (hn : 2 ∣ n) (h : s.After n r) {op : TransferOp}
    (ht : op.step master s = some t) : t.After n (r + [op].count .reply) := by
  cases op with
  | poll =>
    simp only [TransferOp.step] at ht
    split_ifs at ht with hres hwait
    · cases ht
      exact { h with }
    · cases ht
      refine { h with result := fun hok => by_contra fun hremain => hwait ⟨?_, hremain⟩ }
      exact Nat.ne_of_gt (of_decide_eq_true (Option.some.inj hok))
  | reply =>
    obtain ⟨⟨p, q⟩, hpq, rfl⟩ := Option.map_eq_some_iff.1 ht
    have hremain := h.remain
    have hne := h.request (by simp [hpq])
    obtain ⟨h₁, hresult₁⟩ := h.store (by omega) master p
    obtain ⟨h₂, hresult₂⟩ := h₁.store (by omega) master q
    refine { h₂ with request := fun hsome hzero => hsome ?_, result := fun hok => ?_ }
    · exact if_neg (not_not.2 hzero)
    · exact absurd (h.result (hresult₁ ▸ hresult₂ ▸ hok)) hne

theorem Transfer.After.run (hn : 2 ∣ n) (h : s.After n r)
    (hrun : ops.foldlM (TransferOp.step master) s = some t) : t.After n (r + ops.count .reply) := by
  induction ops generalizing s r with
  | nil =>
    cases hrun
    exact h
  | cons op ops ih =>
    obtain ⟨s', hs', hrun⟩ := Runs.foldlM_cons_eq_some hrun
    rw [← List.singleton_append, List.count_append, ← Nat.add_assoc]
    exact ih (h.step hn hs') hrun

/-- **The transfer is right** if and only if there have not been more replies than eighths of the
length. -/
theorem readmem_right_iff (master : UInt32 → UInt8) (address length : UInt32)
    (hlength : 4 ∣ length.toNat) (hpos : 0 < length.toNat) (ops : List TransferOp) (s : Transfer)
    (hrun : ops.foldlM (TransferOp.step master) (mlRpcReadmem address length) = some s) :
    s.Right master address length ↔ 8 * ops.count .reply ≤ length.toNat := by
  have hstart : (mlRpcReadmem address length).After length.toNat 0 :=
    ⟨⟨rfl, Nat.zero_add _, fun o => iff_of_true rfl (Nat.zero_le o)⟩, fun _ => Nat.ne_of_gt hpos,
      nofun⟩
  have h := hstart.run (by omega) hrun
  rw [Nat.zero_add] at h
  have hremain := h.remain
  constructor
  · intro hright
    have := (h.buffer _).1 (hright.inside _ (Nat.le_refl _))
    omega
  · intro hfew
    refine ⟨fun o ho => (h.buffer o).2 (by omega), fun hok => ?_⟩
    have := h.result hok
    omega

/-- One reply in a transfer of two words. -/
theorem readmem_right_two_words : ∃ s, [.reply, .poll].foldlM (TransferOp.step fun p => p.toUInt8)
    (mlRpcReadmem 0x1000 8) = some s ∧ s.Right (fun p => p.toUInt8) 0x1000 8 :=
  ⟨_, rfl, (readmem_right_iff _ _ _ (by decide) (by decide) [.reply, .poll] _ rfl).2 (by decide)⟩

/-- A transfer of one word is successful when four words have been written. -/
theorem readmem_one_word : ∃ s, [.reply, .reply, .poll].foldlM (TransferOp.step fun p => p.toUInt8)
      (mlRpcReadmem 0x1000 4) = some s ∧ s.result = some true ∧ s.buffer 15 = some 15 ∧
    ¬ s.Right (fun p => p.toUInt8) 0x1000 4 :=
  ⟨_, rfl, by decide, by decide, fun h => absurd (h.inside 15 (by decide)) (by decide)⟩

end MagicLantern.Rpc
