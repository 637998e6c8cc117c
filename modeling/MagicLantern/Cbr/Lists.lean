import MagicLantern.Cbr.Registry
import MagicLantern.Library.DoublyLinked
import MagicLantern.Library.StableOrder
import Mathlib.Data.Finset.Card

/-!
# The lists of the callback registry

What the calls do to the lists of the events. The invariant holds for every registry that can be
reached, for any number of events, and for callbacks that are registered several times: no node is
in the lists of two named records, the nodes in these lists have a callback, and a node without a
callback has no pointer. A callback is put into the list of its event behind those with at least its
priority. The first entry of a callback is removed, and the loop ends there.

When all records have a name, the record for another event is made without one. Its list is not
found, and the record is used for the next event; the nodes of its list are lost.

Source: `src/src/ml-cbr.c`.
-/

namespace MagicLantern.Cbr.Registry

open Function List Option LinkedList StableOrder

/-- What a node has to say. -/
def call (s : Registry) (i : ℕ) : Option (CbrFunc × ℕ) :=
  (s.nodes i).cbr.map (·, (s.nodes i).priority)

/-- The callbacks in the list of an event, with their priorities. -/
def registered (s : Registry) (e : EventName) : List (CbrFunc × ℕ) :=
  match s.findRecord e with
  | none => []
  | some r => (follow s.next s.numNodes (s.records r).first).filterMap s.call

/-- The invariant: `idx r` are the nodes in the list of the record `r`, if it has a name. -/
structure Inv (s : Registry) (idx : ℕ → List ℕ) : Prop where
  arenas : 1 ≤ s.recordArenas
  short : ∀ r e, (s.records r).name = some e → e.Short
  name_inj : ∀ r r' e, (s.records r).name = some e → (s.records r').name = some e → r = r'
  name_lt : ∀ r e, (s.records r).name = some e → r < s.numRecords
  seg : ∀ r e, (s.records r).name = some e → Seg s.next (s.records r).first (idx r) none
  unnamed : ∀ r, (s.records r).name = none → idx r = []
  disjoint : ∀ r r' i, i ∈ idx r → i ∈ idx r' → r = r'
  busy : ∀ r, ∀ i ∈ idx r, (s.nodes i).cbr ≠ none ∧ i < s.numNodes
  free : ∀ i, (s.nodes i).cbr = none → s.next i = none

variable {s t : Registry} {idx : ℕ → List ℕ} {e : EventName} {p q prev current : Option ℕ}
  {l l₁ l₂ : List ℕ} {fuel r i c new prio : ℕ} {cbr : CbrFunc} {malloc : Bool}
  {node : CbrNode}

theorem Inv.init (addr : ℕ → ℕ) : (Registry.init addr).Inv fun _ => [] where
  arenas := Nat.le_refl 1
  short _ _ h := absurd h (by simp [Registry.init])
  name_inj _ _ _ h := absurd h (by simp [Registry.init])
  name_lt _ _ h := absurd h (by simp [Registry.init])
  seg _ _ h := absurd h (by simp [Registry.init])
  unnamed _ _ := rfl
  disjoint _ _ _ h := absurd h not_mem_nil
  busy _ _ h := absurd h not_mem_nil
  free _ _ := rfl

section

variable (h : s.Inv idx)
include h

theorem Inv.findRecord_eq_some : s.findRecord e = some r ↔ (s.records r).name = some e := by
  have hname_of {r : ℕ} (hfind : s.findRecord e = some r) : (s.records r).name = some e := by
    have hmatches := find?_some hfind
    exact (of_decide_eq_true hmatches).1
  refine ⟨hname_of, fun hname => ?_⟩
  cases hfind : s.findRecord e with
  | none =>
    have hno := find?_eq_none.1 hfind r (mem_range.2 (h.name_lt r e hname))
    exact absurd (decide_eq_true ⟨hname, .inl (h.short r e hname)⟩) hno
  | some r' => rw [h.name_inj r' r e (hname_of hfind) hname]

theorem Inv.findRecord_eq_none : s.findRecord e = none ↔ ∀ r, (s.records r).name ≠ some e := by
  rw [eq_none_iff_forall_ne_some]
  exact forall_congr' fun r => not_congr h.findRecord_eq_some

/-- A list has at most as many nodes as the pool. -/
theorem Inv.length_le (hr : (s.records r).name = some e) : (idx r).length ≤ s.numNodes := by
  rw [← length_range (n := s.numNodes)]
  exact ((h.seg r e hr).nodup.subperm fun i hi => mem_range.2 (h.busy r i hi).2).length_le

theorem Inv.registered_eq (hr : (s.records r).name = some e) :
    s.registered e = (idx r).filterMap s.call := by
  simp only [registered, h.findRecord_eq_some.2 hr, (h.seg r e hr).follow_eq (h.length_le hr)]

theorem Inv.registered_eq_nil (hno : ∀ r, (s.records r).name ≠ some e) : s.registered e = [] := by
  simp only [registered, h.findRecord_eq_none.2 hno]

/-- Only its record and the nodes of its list matter for an event. -/
theorem Inv.registered_congr {idx' : ℕ → List ℕ} (ht : t.Inv idx')
    (hname : ∀ r, (t.records r).name = some e ↔ (s.records r).name = some e)
    (hlist : ∀ r, (s.records r).name = some e → idx' r = idx r ∧
      ∀ i ∈ idx r, t.nodes i = s.nodes i) :
    t.registered e = s.registered e := by
  by_cases hex : ∃ r, (s.records r).name = some e
  · obtain ⟨r, hr⟩ := hex
    obtain ⟨heq, hnodes⟩ := hlist r hr
    rw [ht.registered_eq ((hname r).2 hr), h.registered_eq hr, heq]
    exact filterMap_congr fun i hi => by rw [call, call, hnodes i hi]
  · have hno := not_exists.1 hex
    rw [h.registered_eq_nil hno, ht.registered_eq_nil fun r hr => hno r ((hname r).1 hr)]

/-- Nothing is changed in the lists of the named records. -/
theorem Inv.frame (hrecords : s.recordArenas ≤ t.recordArenas) (hnum : s.nodeArenas ≤ t.nodeArenas)
    (hname : ∀ r, (t.records r).name = (s.records r).name)
    (hfirst : ∀ r e, (s.records r).name = some e → (t.records r).first = (s.records r).first)
    (hnodes : ∀ r, ∀ i ∈ idx r, t.nodes i = s.nodes i)
    (hfree : ∀ i, (t.nodes i).cbr = none → t.next i = none) :
    t.Inv idx ∧ t.registered = s.registered := by
  have ht : t.Inv idx :=
    { arenas := h.arenas.trans hrecords
      short := fun r e hr => h.short r e (hname r ▸ hr)
      name_inj := fun r r' e hr hr' => h.name_inj r r' e (hname r ▸ hr) (hname r' ▸ hr')
      name_lt := fun r e hr =>
        (h.name_lt r e (hname r ▸ hr)).trans_le (Nat.mul_le_mul_left _ hrecords)
      seg := fun r e hr => by
        rw [hname] at hr
        rw [hfirst r e hr]
        exact (h.seg r e hr).congr fun i hi => congrArg CbrNode.next (hnodes r i hi)
      unnamed := fun r hr => h.unnamed r (hname r ▸ hr)
      disjoint := h.disjoint
      busy := fun r i hi => by
        rw [hnodes r i hi]
        exact ⟨(h.busy r i hi).1, (h.busy r i hi).2.trans_le (Nat.mul_le_mul_left _ hnum)⟩
      free := hfree }
  refine ⟨ht, funext fun e => h.registered_congr ht (fun r => by rw [hname]) fun r _ =>
    ⟨rfl, hnodes r⟩⟩

end

/-! ### Records and nodes -/

theorem newRecord_name {r' : ℕ} {e' : EventName}
    (hr' : (update s.records r ⟨some e, none⟩ r').name = some e') :
    r' = r ∧ e' = e ∨ r' ≠ r ∧ (s.records r').name = some e' := by
  rcases eq_or_ne r' r with rfl | hne
  · rw [update_self] at hr'
    exact .inl ⟨rfl, (some.inj hr').symm⟩
  · rw [update_of_ne hne] at hr'
    exact .inr ⟨hne, hr'⟩

section NewRecord

variable (h : s.Inv idx) (hno : ∀ r, (s.records r).name ≠ some e) (hr : r < s.numRecords)
  (hfree : (s.records r).name = none) (he : e.Short)
include h hno hr hfree he

theorem Inv.newRecord : Inv { s with records := update s.records r ⟨some e, none⟩ } idx := by
  refine { h with short := ?_, name_inj := ?_, name_lt := ?_, seg := ?_, unnamed := ?_ }
  · intro r' e' hr'
    rcases newRecord_name hr' with ⟨-, rfl⟩ | ⟨-, hold⟩
    · exact he
    · exact h.short r' e' hold
  · intro r₁ r₂ e' h₁ h₂
    rcases newRecord_name h₁ with ⟨rfl, rfl⟩ | ⟨-, hold₁⟩
    · rcases newRecord_name h₂ with ⟨rfl, -⟩ | ⟨-, hold₂⟩
      · rfl
      · exact absurd hold₂ (hno r₂)
    · rcases newRecord_name h₂ with ⟨rfl, rfl⟩ | ⟨-, hold₂⟩
      · exact absurd hold₁ (hno r₁)
      · exact h.name_inj r₁ r₂ e' hold₁ hold₂
  · intro r' e' hr'
    rcases newRecord_name hr' with ⟨rfl, -⟩ | ⟨-, hold⟩
    · exact hr
    · exact h.name_lt r' e' hold
  · intro r' e' hr'
    rcases newRecord_name hr' with ⟨rfl, rfl⟩ | ⟨hne, hold⟩
    · rw [h.unnamed _ hfree]
      simp
    · simp only [update_of_ne hne]
      exact h.seg r' e' hold
  · intro r' hr'
    rcases eq_or_ne r' r with rfl | hne
    · simp at hr'
    · exact h.unnamed r' (by simpa [update_of_ne hne] using hr')

theorem Inv.registered_newRecord :
    registered { s with records := update s.records r ⟨some e, none⟩ } = s.registered := by
  have ht := h.newRecord hno hr hfree he
  funext e'
  by_cases heq : e' = e
  · subst heq
    rw [ht.registered_eq (r := r) (by simp), h.unnamed r hfree, h.registered_eq_nil hno]
    rfl
  · refine h.registered_congr ht (fun r' => ⟨fun hr' => ?_, fun hr' => ?_⟩) fun _ _ =>
      ⟨rfl, fun _ _ => rfl⟩
    · exact (newRecord_name hr').elim (fun h => absurd h.2 heq) And.right
    · have hne : r' ≠ r := by
        rintro rfl
        simp [hfree] at hr'
      simpa [hne] using hr'

end NewRecord

/-- Only the lists and the nodes are changed. -/
structure Keeps (s t : Registry) : Prop where
  live : t.live = s.live
  recordArenas : t.recordArenas = s.recordArenas
  name : ∀ r, (t.records r).name = (s.records r).name

theorem Keeps.refl : Keeps s s := ⟨rfl, rfl, fun _ => rfl⟩

theorem Keeps.trans {u : Registry} (h : Keeps s t) (h' : Keeps t u) : Keeps s u :=
  ⟨h'.live.trans h.live, h'.recordArenas.trans h.recordArenas, fun r =>
    (h'.name r).trans (h.name r)⟩

/-- A node in the pool that is not in use. -/
structure Fresh (s : Registry) (new : ℕ) : Prop where
  lt : new < s.numNodes
  cbr : (s.nodes new).cbr = none

theorem Inv.expandCbrNodePool (h : s.Inv idx) (ht : s.expandCbrNodePool malloc = some t) :
    (t.Inv idx ∧ t.registered = s.registered) ∧ t.Fresh s.numNodes ∧
      t.records = s.records ∧ Keeps s t := by
  rw [Registry.expandCbrNodePool] at ht
  split_ifs at ht
  cases ht
  refine ⟨h.frame (Nat.le_refl _) (Nat.le_succ _) (fun _ => rfl) (fun _ _ _ => rfl)
    (fun r i hi => ?_) fun i hi => ?_, ⟨?_, ?_⟩, rfl, rfl, rfl, fun _ => rfl⟩
  · exact if_neg fun hno => Nat.not_lt.2 hno.1 (h.busy r i hi).2
  · simp only [Registry.next] at hi ⊢
    split_ifs at hi ⊢
    · rfl
    · exact h.free i hi
  · exact Nat.mul_lt_mul_of_pos_left (Nat.lt_succ_self _) (by decide)
  · exact congrArg CbrNode.cbr (if_pos ⟨Nat.le_refl _, Nat.lt_add_of_pos_right (by decide)⟩)

theorem Inv.expandCbrRecordPool (h : s.Inv idx) (ht : s.expandCbrRecordPool malloc = some t) :
    (t.Inv idx ∧ t.registered = s.registered) ∧
      (t.live = s.live ∧ t.nodes = s.nodes ∧ t.nodeArenas = s.nodeArenas) ∧
      (∀ r, (t.records r).name = (s.records r).name) ∧ t.records s.numRecords = ⟨none, none⟩ := by
  rw [Registry.expandCbrRecordPool] at ht
  split_ifs at ht
  cases ht
  have hold {r : ℕ} {e : EventName} (hr : (s.records r).name = some e) :
      (if s.numRecords ≤ r ∧ r < s.numRecords + poolSize then ⟨none, none⟩ else s.records r) =
        s.records r := if_neg fun hno => Nat.not_lt.2 hno.1 (h.name_lt r e hr)
  have hname (r : ℕ) : (if s.numRecords ≤ r ∧ r < s.numRecords + poolSize then ⟨none, none⟩
      else s.records r : CbrRecord).name = (s.records r).name := by
    cases hr : (s.records r).name with
    | none => split_ifs <;> [rfl; exact hr]
    | some e => rw [hold hr, hr]
  exact ⟨h.frame (Nat.le_succ _) (Nat.le_refl _)
    hname (fun r e hr => congrArg CbrRecord.first (hold hr))
    (fun _ _ _ => rfl) h.free, ⟨rfl, rfl, rfl⟩, hname,
      if_pos ⟨Nat.le_refl _, Nat.lt_add_of_pos_right (by decide)⟩⟩

theorem Inv.newNode (h : s.Inv idx) (hnew : s.newNode malloc = some (t, new)) :
    (t.Inv idx ∧ t.registered = s.registered) ∧ t.Fresh new ∧
      t.records = s.records ∧ Keeps s t := by
  rw [Registry.newNode] at hnew
  cases hfind : s.findFreeNode with
  | some i =>
    rw [hfind] at hnew
    obtain ⟨rfl, rfl⟩ := Prod.mk.inj (some.inj hnew)
    have hfree : (s.nodes i).cbr = none := by simpa using find?_some hfind
    exact ⟨⟨h, rfl⟩, ⟨mem_range.1 (mem_of_find?_eq_some hfind), hfree⟩, rfl, .refl⟩
  | none =>
    rw [hfind] at hnew
    obtain ⟨u, hu, heq⟩ := map_eq_some_iff.1 hnew
    obtain ⟨rfl, rfl⟩ := Prod.mk.inj heq
    exact h.expandCbrNodePool hu

/-! ### A new node in a list -/

/-- The place for a new node is behind the nodes with at least its priority. -/
theorem findPlace_seg (prev : Option ℕ) (hseg : Seg s.next (some c) l none)
    (hfuel : l.length ≤ fuel) : ∃ l₁ l₂, l = l₁ ++ l₂ ∧ (∀ i ∈ l₁, prio ≤ (s.nodes i).priority) ∧
      (∀ i ∈ l₂.head?, (s.nodes i).priority < prio) ∧
      s.findPlace prio fuel prev c = some (l₁.getLast?.or prev, l₂.head?) := by
  induction l generalizing c prev fuel with
  | nil => exact absurd hseg (by simp)
  | cons i l ih =>
    obtain ⟨heq, hseg⟩ := hseg
    obtain rfl := some.inj heq
    obtain ⟨fuel, rfl⟩ := Nat.exists_eq_succ_of_ne_zero (Nat.ne_of_gt (Nat.zero_lt_of_lt hfuel))
    rw [findPlace]
    split_ifs with hlt
    · exact ⟨[], c :: l, rfl, by simp, by simpa using hlt, rfl⟩
    · cases hnext : s.next c with
      | none =>
        rw [hnext] at hseg
        have hl : l = [] := hseg.unique rfl
        exact ⟨[c], [], by rw [hl]; rfl, by simpa using Nat.le_of_not_lt hlt, by simp, rfl⟩
      | some j =>
        rw [hnext] at hseg
        obtain ⟨l₁, l₂, rfl, h₁, h₂, hplace⟩ :=
          ih (some c) hseg (Nat.le_of_succ_le_succ hfuel)
        refine ⟨c :: l₁, l₂, rfl, ?_, h₂, ?_⟩
        · exact forall_mem_cons.2 ⟨Nat.le_of_not_lt hlt, h₁⟩
        · simp only [hplace, getLast?_cons]
          cases l₁.getLast? <;> rfl

/-- The node `c` becomes `node`, and the pointer in `prev`, or in front of the list of the record
`r`, becomes `q`. -/
def relink (s : Registry) (r : ℕ) (prev q : Option ℕ) (c : ℕ) (node : CbrNode) : Registry :=
  { s with
    nodes := fun i => if i = c then node
      else { s.nodes i with next := if prev = some i then q else s.next i }
    records := fun i =>
      if i = r ∧ prev = none then { s.records i with first := q } else s.records i }

theorem link_fillNode (hnew : s.next new = none) (hprev : prev ≠ some new) :
    (s.fillNode new cbr prio).link r new (prev, current) =
      s.relink r prev (some new) new ⟨some cbr, prio, current⟩ := by
  have hnew' : (s.nodes new).next = none := hnew
  rcases prev with _ | j
  · have hrecords : update s.records r { s.records r with first := some new } = fun i =>
        if i = r then { s.records i with first := some new } else s.records i := by
      funext i
      rcases eq_or_ne i r with rfl | hi <;> simp [*]
    rcases current with _ | c <;>
      simp only [link, relink, fillNode, setFirst, setNext, hrecords, mk.injEq, true_and,
        and_true] <;>
      funext i <;> rcases eq_or_ne i new with rfl | hi <;> simp [*, next]
  · have hj : new ≠ j := fun heq => hprev (heq ▸ rfl)
    rcases current with _ | c <;>
      simp only [link, relink, fillNode, setNext, mk.injEq, true_and, and_true] <;>
      refine ⟨funext fun i => ?_, funext fun i => by simp⟩ <;> rcases eq_or_ne i new with rfl | hi
    · simp [*]
    · rcases eq_or_ne i j with rfl | hij <;> simp [*, next, Ne.symm]
    · simp [*]
    · rcases eq_or_ne i j with rfl | hij <;> simp [*, next, Ne.symm]

theorem unlink_eq (hprev : prev ≠ some c) :
    s.unlink r prev c = s.relink r prev (s.next c) c ⟨none, (s.nodes c).priority, none⟩ := by
  rcases prev with _ | j
  · simp only [unlink, relink, setFirst, mk.injEq, true_and, and_true]
    refine ⟨funext fun i => ?_, funext fun i => ?_⟩
    · rcases eq_or_ne i c with rfl | hi <;> simp [*, next]
    · rcases eq_or_ne i r with rfl | hi <;> simp [*]
  · have hj : c ≠ j := fun heq => hprev (heq ▸ rfl)
    simp only [unlink, relink, setNext, mk.injEq, true_and, and_true]
    refine ⟨funext fun i => ?_, funext fun i => by simp⟩
    rcases eq_or_ne i c with rfl | hi
    · simp [*]
    · rcases eq_or_ne i j with rfl | hij <;> simp [*, next, Ne.symm]

theorem name_relink (r' : ℕ) :
    ((s.relink r prev q c node).records r').name = (s.records r').name := by
  simp only [relink]
  split_ifs <;> rfl

theorem nodes_relink_self : (s.relink r prev q c node).nodes c = node := if_pos rfl

theorem call_relink (hi : i ≠ c) : (s.relink r prev q c node).call i = s.call i := by
  simp only [call, relink, if_neg hi]

theorem next_relink (hi : i ≠ c) :
    (s.relink r prev q c node).next i = if prev = some i then q else s.next i := by
  simp only [next, relink, if_neg hi]

theorem nodes_relink (hi : i ≠ c) (hprev : prev ≠ some i) :
    (s.relink r prev q c node).nodes i = s.nodes i := by
  simp only [relink, if_neg hi, if_neg hprev]
  rfl

theorem Inv.ne_of_fresh (h : s.Inv idx) (hnew : s.Fresh new) (hi : i ∈ idx r) : i ≠ new := by
  rintro rfl
  exact (h.busy r i hi).1 hnew.cbr

section Relink

variable (h : s.Inv idx) (hc : s.Fresh c ∨ c ∈ idx r)
include h hc

theorem Inv.apart {r' : ℕ} (hne : r' ≠ r) (hi : i ∈ idx r') : i ≠ c ∧ i ∉ idx r := by
  have hir : i ∉ idx r := fun hir => hne (h.disjoint r' r i hi hir)
  refine ⟨?_, hir⟩
  rintro rfl
  exact hc.elim (fun hfresh => h.ne_of_fresh hfresh hi rfl) hir

variable (hprev : ∀ i ∈ prev, i ∈ idx r)
include hprev

theorem Inv.nodes_apart {r' : ℕ} (hne : r' ≠ r) (hi : i ∈ idx r') :
    (s.relink r prev q c node).nodes i = s.nodes i := by
  obtain ⟨hic, hir⟩ := h.apart hc hne hi
  exact nodes_relink hic fun heq => hir (hprev i heq)

variable (hr : (s.records r).name = some e) (hsub : ∀ i ∈ l, i = c ∨ i ∈ idx r)
  (hbusy : c ∈ l → node.cbr ≠ none) (hfree : node.cbr = none → node.next = none)
  (hseg : Seg (s.relink r prev q c node).next (if prev = none then q else (s.records r).first)
    l none)
include hr hsub hbusy hfree hseg

/-- The invariant is kept when the list of a record becomes `l`. -/
theorem Inv.relink : (s.relink r prev q c node).Inv (update idx r l) where
  arenas := h.arenas
  short r' e' hr' := h.short r' e' (name_relink r' ▸ hr')
  name_inj r₁ r₂ e' h₁ h₂ := h.name_inj r₁ r₂ e' (name_relink r₁ ▸ h₁) (name_relink r₂ ▸ h₂)
  name_lt r' e' hr' := h.name_lt r' e' (name_relink r' ▸ hr')
  seg r' e' hr' := by
    rcases eq_or_ne r' r with rfl | hne
    · rw [update_self]
      convert hseg using 1
      simp only [Registry.relink, true_and]
      split_ifs <;> rfl
    · have hrecord : (s.relink r prev q c node).records r' = s.records r' := if_neg fun h => hne h.1
      rw [update_of_ne hne, hrecord]
      exact (h.seg r' e' (hrecord ▸ hr')).congr fun i hi =>
        congrArg CbrNode.next (h.nodes_apart hc hprev hne hi)
  unnamed r' hr' := by
    rw [name_relink] at hr'
    have hne : r' ≠ r := by
      rintro rfl
      simp [hr] at hr'
    rw [update_of_ne hne]
    exact h.unnamed r' hr'
  disjoint r₁ r₂ i h₁ h₂ := by
    have hl {r' : ℕ} (hne : r' ≠ r) (hi : i ∈ idx r') : i ∉ l := fun hil =>
      (hsub i hil).elim (h.apart hc hne hi).1 (h.apart hc hne hi).2
    rw [update_apply] at h₁ h₂
    split_ifs at h₁ h₂ with hr₁ hr₂ hr₂
    · exact hr₁.trans hr₂.symm
    · exact absurd h₁ (hl hr₂ h₂)
    · exact absurd h₂ (hl hr₁ h₁)
    · exact h.disjoint r₁ r₂ i h₁ h₂
  busy r' i hi := by
    rcases eq_or_ne r' r with rfl | hne
    · rw [update_self] at hi
      by_cases hic : i = c
      · subst hic
        rw [nodes_relink_self]
        exact ⟨hbusy hi, hc.elim Fresh.lt fun hi => (h.busy r' i hi).2⟩
      · simp only [Registry.relink, if_neg hic]
        exact h.busy r' i ((hsub i hi).resolve_left hic)
    · rw [update_of_ne hne] at hi
      rw [h.nodes_apart hc hprev hne hi]
      exact h.busy r' i hi
  free i hi := by
    by_cases hic : i = c
    · subst hic
      rw [nodes_relink_self] at hi
      rw [next, nodes_relink_self]
      exact hfree hi
    · have hnone : (s.nodes i).cbr = none := by simpa only [Registry.relink, if_neg hic] using hi
      rw [next, nodes_relink hic fun heq => (h.busy r i (hprev i heq)).1 hnone]
      exact h.free i hnone

theorem Inv.registered_relink : (s.relink r prev q c node).registered =
    update s.registered e (l.filterMap (s.relink r prev q c node).call) := by
  have ht := h.relink hc hprev hr hsub hbusy hfree hseg
  refine eq_update_iff.2 ⟨?_, fun e' he => ?_⟩
  · rw [ht.registered_eq ((name_relink r).trans hr), update_self]
  · refine h.registered_congr ht (fun r' => by rw [name_relink]) fun r' hr' => ?_
    have hne : r' ≠ r := by
      rintro rfl
      exact he (some.inj (hr'.symm.trans hr))
    exact ⟨update_of_ne hne .., fun i hi => h.nodes_apart hc hprev hne hi⟩

end Relink

theorem Inv.insertNode_eq (h : s.Inv idx) (hr : (s.records r).name = some e) (hnew : s.Fresh new)
    (cbr : CbrFunc) (prio : ℕ) :
    ∃ l₁ l₂, idx r = l₁ ++ l₂ ∧ (∀ i ∈ l₁, prio ≤ (s.nodes i).priority) ∧
      (∀ i ∈ l₂.head?, (s.nodes i).priority < prio) ∧ s.insertNode r new cbr prio =
        some (s.relink r l₁.getLast? (some new) new ⟨some cbr, prio, l₂.head?⟩) := by
  have hseg := h.seg r e hr
  have hnodes (i : ℕ) (hi : i ∈ idx r) : (s.fillNode new cbr prio).nodes i = s.nodes i :=
    update_of_ne (h.ne_of_fresh hnew hi) ..
  have hnext := h.free new hnew.cbr
  have hrecords : (s.fillNode new cbr prio).records r = s.records r := rfl
  simp only [Registry.insertNode, hrecords]
  cases hfirst : (s.records r).first with
  | none =>
    rw [hfirst] at hseg
    exact ⟨[], [], hseg.unique rfl, by simp, by simp, congrArg some (link_fillNode hnext (by simp))⟩
  | some c =>
    rw [hfirst] at hseg
    obtain ⟨l₁, l₂, heq, h₁, h₂, hplace⟩ := findPlace_seg none
      (hseg.congr fun i hi => congrArg CbrNode.next (hnodes i hi)) (h.length_le hr)
    have hmem {i : ℕ} (hi : i ∈ l₁ ∨ i ∈ l₂) : i ∈ idx r := by rwa [heq, mem_append]
    refine ⟨l₁, l₂, heq, fun i hi => ?_, fun i hi => ?_, ?_⟩
    · rw [← hnodes i (hmem (.inl hi))]
      exact h₁ i hi
    · rw [← hnodes i (hmem (.inr (mem_of_mem_head? hi)))]
      exact h₂ i hi
    · have hplace' : (s.fillNode new cbr prio).findPlace prio (s.fillNode new cbr prio).numNodes
          none c = some (l₁.getLast?.or none, l₂.head?) := hplace
      have hlast : l₁.getLast? ≠ some new := fun hlast =>
        h.ne_of_fresh hnew (hmem (.inl (mem_of_getLast? hlast))) rfl
      simp only [hplace', or_none, map_some]
      rw [link_fillNode hnext hlast]

/-- A node is put into the list of an event, behind those with at least its priority. -/
theorem Inv.insertNode (h : s.Inv idx) (hr : (s.records r).name = some e) (hnew : s.Fresh new)
    (cbr : CbrFunc) (prio : ℕ) :
    ∃ t idx', s.insertNode r new cbr prio = some t ∧ t.Inv idx' ∧ Keeps s t ∧
      t.registered = update s.registered e
        (insertBehind Prod.snd (cbr, prio) (s.registered e)) := by
  obtain ⟨l₁, l₂, heq, h₁, h₂, hins⟩ := h.insertNode_eq hr hnew cbr prio
  have hmem {i : ℕ} : i ∈ idx r ↔ i ∈ l₁ ∨ i ∈ l₂ := by rw [heq, mem_append]
  have hne {i : ℕ} (hi : i ∈ l₁ ∨ i ∈ l₂) : i ≠ new := h.ne_of_fresh hnew (hmem.2 hi)
  have hprev (i : ℕ) (hi : i ∈ l₁.getLast?) : i ∈ idx r := hmem.2 (.inl (mem_of_getLast? hi))
  have hsub (i : ℕ) (hi : i ∈ l₁ ++ new :: l₂) : i = new ∨ i ∈ idx r := by
    rw [mem_append, mem_cons] at hi
    rw [hmem]
    tauto
  have hseg : Seg (s.relink r l₁.getLast? (some new) new ⟨some cbr, prio, l₂.head?⟩).next
      (if l₁.getLast? = none then some new else (s.records r).first) (l₁ ++ new :: l₂) none := by
    have hold := h.seg r e hr
    rw [heq] at hold
    refine hold.insert (fun hi => hne (mem_append.1 hi) rfl) (fun a ha => ?_)
      (congrArg CbrNode.next nodes_relink_self) fun a ha hne => (next_relink hne).trans (if_neg ha)
    exact (next_relink (hne (.inl (mem_of_getLast? ha)))).trans (if_pos ha)
  refine ⟨_, _, hins, h.relink (.inl hnew) hprev hr hsub (by simp) (by simp) hseg,
    ⟨rfl, rfl, name_relink⟩, ?_⟩
  rw [h.registered_relink (.inl hnew) hprev hr hsub (by simp) (by simp) hseg, h.registered_eq hr,
    heq, filterMap_append, filterMap_append,
    filterMap_congr fun i hi => call_relink (hne (.inl hi)), filterMap_cons_some
      (b := (cbr, prio)) (by rw [call, nodes_relink_self]; rfl),
    filterMap_congr fun i hi => call_relink (hne (.inr hi)), insertBehind_append]
  · intro x hx
    obtain ⟨i, hi, hx⟩ := mem_filterMap.1 hx
    obtain ⟨f, -, rfl⟩ := map_eq_some_iff.1 hx
    exact h₁ i hi
  · intro x hx
    cases l₂ with
    | nil => simp at hx
    | cons i l₂ =>
      obtain ⟨f, hf⟩ := ne_none_iff_exists'.1 (h.busy r i (by simp [heq])).1
      have hi : s.call i = some (f, (s.nodes i).priority) := by rw [call, hf]; rfl
      rw [filterMap_cons_some hi] at hx
      cases hx
      exact h₂ i rfl

theorem Inv.insertNode_unnamed (h : s.Inv idx) (hname : (s.records r).name = none)
    (hfirst : (s.records r).first = none) (hnew : s.Fresh new) (cbr : CbrFunc) (prio : ℕ) :
    ∃ t, s.insertNode r new cbr prio = some t ∧ (t.Inv idx ∧ t.registered = s.registered) ∧
      Keeps s t := by
  have hfirst' : ((s.fillNode new cbr prio).records r).first = none := hfirst
  have hins : s.insertNode r new cbr prio =
      some (s.relink r none (some new) new ⟨some cbr, prio, none⟩) := by
    simp only [Registry.insertNode, hfirst']
    exact congrArg some (link_fillNode (h.free new hnew.cbr) (by simp))
  refine ⟨_, hins, h.frame (Nat.le_refl _) (Nat.le_refl _) name_relink (fun r' e hr' => ?_)
    (fun r' i hi => nodes_relink (h.ne_of_fresh hnew hi) (by simp)) fun i hi => ?_, rfl, rfl,
      name_relink⟩
  · refine congrArg CbrRecord.first (if_neg ?_)
    rintro ⟨rfl, -⟩
    simp [hname] at hr'
  · rcases eq_or_ne i new with rfl | hne
    · simp [nodes_relink_self] at hi
    · rw [nodes_relink hne (by simp)] at hi
      rw [next, nodes_relink hne (by simp)]
      exact h.free i hi

/-! ### Registering -/

/-- There is a record for the event, or a free one. -/
def HasRecord (s : Registry) (e : EventName) : Prop := s.findRecord e ≠ none ∨ s.freeRecord ≠ none

instance : Decidable (s.HasRecord e) := inferInstanceAs (Decidable (_ ∨ _))

/-- There is a free node, or memory for an arena of nodes. -/
def HasNode (s : Registry) (mallocNode : Bool) : Prop := s.findFreeNode ≠ none ∨ mallocNode = true

instance : Decidable (s.HasNode malloc) := inferInstanceAs (Decidable (_ ∨ _))

theorem hasNode_congr (hnodes : t.nodes = s.nodes) (harenas : t.nodeArenas = s.nodeArenas) :
    t.HasNode malloc ↔ s.HasNode malloc := by
  rw [HasNode, HasNode, findFreeNode, findFreeNode, numNodes, numNodes, hnodes, harenas]

theorem hasNode_iff : s.HasNode malloc ↔ ∃ t new, s.newNode malloc = some (t, new) := by
  rw [HasNode, Registry.newNode]
  cases s.findFreeNode with
  | some i => simp
  | none => cases malloc <;> simp [Registry.expandCbrNodePool]

theorem Inv.findOrNewRecord (h : s.Inv idx) (he : e.Short) :
    ∃ t x, s.findOrNewRecord e = (t, x) ∧ (t.Inv idx ∧ t.registered = s.registered) ∧
      (t.live = s.live ∧ t.recordArenas = s.recordArenas) ∧
      (t.nodes = s.nodes ∧ t.nodeArenas = s.nodeArenas) ∧
      (∀ r e', (t.records r).name = some e' → e' = e ∨ (s.records r).name = some e') ∧
      (∀ r ∈ x, s.HasRecord e ∧ (t.records r).name = some e) ∧
        (x = none → ¬ s.HasRecord e ∧ t = s) := by
  rw [Registry.findOrNewRecord]
  cases hfind : s.findRecord e with
  | some r =>
    refine ⟨s, some r, rfl, ⟨h, rfl⟩, ⟨rfl, rfl⟩, ⟨rfl, rfl⟩, fun _ _ => .inr, fun r' hr' => ?_,
      by simp⟩
    cases hr'
    exact ⟨.inl (by simp [hfind]), h.findRecord_eq_some.1 hfind⟩
  | none =>
    have hno := h.findRecord_eq_none.1 hfind
    cases hfree : s.freeRecord with
    | none =>
      exact ⟨s, none, rfl, ⟨h, rfl⟩, ⟨rfl, rfl⟩, ⟨rfl, rfl⟩, fun _ _ => .inr, by simp,
        fun _ => ⟨by simp [HasRecord, *], rfl⟩⟩
    | some r =>
      have hlt := mem_range.1 (mem_of_find?_eq_some hfree)
      have hname : (s.records r).name = none := by simpa using find?_some hfree
      refine ⟨_, some r, rfl,
        ⟨h.newRecord hno hlt hname he, h.registered_newRecord hno hlt hname he⟩,
        ⟨rfl, rfl⟩, ⟨rfl, rfl⟩, fun r' e' hr' => ?_, fun r' hr' => ?_, by simp⟩
      · exact (newRecord_name hr').imp And.right And.right
      · cases hr'
        exact ⟨.inr (by simp [hfree]), by simp⟩

theorem Inv.insertCbr (h : s.Inv idx)
    (hr : (s.records r).name = some e ∨ s.records r = ⟨none, none⟩) (cbr : CbrFunc) (prio : ℕ)
    (malloc : Bool) :
    ∃ t result idx', (match s.newNode malloc with
        | none => some (s, -1)
        | some (u, new) => (u.insertNode r new cbr prio).map fun v => (v, 0)) = some (t, result) ∧
      t.Inv idx' ∧ Keeps s t ∧ (result = 0 ↔ s.HasNode malloc) ∧
      t.registered = if result = 0 ∧ (s.records r).name = some e then
        update s.registered e (insertBehind Prod.snd (cbr, prio) (s.registered e))
      else s.registered := by
  rw [hasNode_iff]
  cases hnode : s.newNode malloc with
  | none => exact ⟨s, -1, idx, rfl, h, .refl, by simp, rfl⟩
  | some q =>
    obtain ⟨⟨hu, hureg⟩, hfresh, hurec, hukeeps⟩ := h.newNode hnode
    have hzero : (0 : ℤ) = 0 ↔ ∃ t new, some q = some (t, new) :=
      iff_of_true rfl ⟨q.1, q.2, rfl⟩
    rcases hr with hr | hr
    · obtain ⟨v, idx', hins, hv, hkeeps, hvreg⟩ := hu.insertNode (hurec ▸ hr) hfresh cbr prio
      refine ⟨v, 0, idx', by simp only [hins, map_some], hv, hukeeps.trans hkeeps, hzero, ?_⟩
      rw [if_pos ⟨rfl, hr⟩, hvreg, hureg]
    · obtain ⟨v, hins, ⟨hv, hvreg⟩, hkeeps⟩ := hu.insertNode_unnamed (r := r) (by rw [hurec, hr])
        (by rw [hurec, hr]) hfresh cbr prio
      refine ⟨v, 0, idx, by simp only [hins, map_some], hv, hukeeps.trans hkeeps, hzero, ?_⟩
      rw [if_neg (by simp [hr]), hvreg, hureg]

/-- A callback is registered. It is lost if there is no record for its event. -/
theorem Inv.mlRegisterCbr (h : s.Inv idx) (he : e.Short) (cbr : CbrFunc) (prio : ℕ)
    (mallocRecord mallocNode : Bool) :
    ∃ t result idx', s.mlRegisterCbr e cbr prio mallocRecord mallocNode = some (t, result) ∧
      t.Inv idx' ∧ t.live = s.live ∧ (s.HasRecord e → t.recordArenas = s.recordArenas) ∧
      (∀ r e', (t.records r).name = some e' → e' = e ∨ (s.records r).name = some e') ∧
      (result = 0 ↔ (s.HasRecord e ∨ mallocRecord = true) ∧ s.HasNode mallocNode) ∧
      t.registered = if result = 0 ∧ s.HasRecord e then
        update s.registered e (insertBehind Prod.snd (cbr, prio) (s.registered e))
      else s.registered := by
  obtain ⟨t, x, hfind, ⟨ht, htreg⟩, ⟨htlive, htarenas⟩, ⟨htnodes, htnum⟩, htname, hsome, hnone⟩ :=
    h.findOrNewRecord he
  rw [Registry.mlRegisterCbr, hfind]
  cases x with
  | some r =>
    obtain ⟨hhas, hr⟩ := hsome r rfl
    obtain ⟨u, result, idx', hins, hu, hkeeps, hresult, hureg⟩ :=
      ht.insertCbr (.inl hr) cbr prio mallocNode
    refine ⟨u, result, idx', hins, hu, hkeeps.live.trans htlive,
      fun _ => hkeeps.recordArenas.trans htarenas, fun r' e' hr' => ?_, ?_, ?_⟩
    · exact htname r' e' (hkeeps.name r' ▸ hr')
    · rw [hresult, hasNode_congr htnodes htnum]
      exact (and_iff_right (.inl hhas)).symm
    · simp only [hureg, hr, hhas, htreg, and_true]
  | none =>
    obtain ⟨hno, rfl⟩ := hnone rfl
    cases mallocRecord with
    | false =>
      exact ⟨t, -1, idx, rfl, h, rfl, fun _ => rfl, fun _ _ => .inr, by simp [hno], rfl⟩
    | true =>
      obtain ⟨u, hexp⟩ : ∃ u, t.expandCbrRecordPool true = some u := ⟨_, rfl⟩
      obtain ⟨⟨hu, hureg⟩, ⟨hulive, hunodes, hunum⟩, huname, hr⟩ := h.expandCbrRecordPool hexp
      obtain ⟨v, result, idx', hins, hv, hkeeps, hresult, hvreg⟩ :=
        hu.insertCbr (e := e) (.inr hr) cbr prio mallocNode
      refine ⟨v, result, idx', ?_, hv, hkeeps.live.trans hulive, fun h => absurd h hno,
        fun r' e' hr' => ?_, ?_, ?_⟩
      · simp only [hexp, map_some]
        exact hins
      · exact .inr (by rw [← huname, ← hkeeps.name]; exact hr')
      · rw [hresult, hasNode_congr hunodes hunum]
        exact (and_iff_right (.inr rfl)).symm
      · rw [hvreg, if_neg (by simp [hr]), if_neg fun h => hno h.2, hureg]

/-! ### Unregistering -/

/-- The loop takes out the first node with the callback, and ends there. -/
theorem unregisterLoop_seg (r : ℕ) (cbr : CbrFunc) (prev : Option ℕ) (hseg : Seg s.next p l none)
    (hfuel : l.length ≤ fuel) :
    (∀ i ∈ l, (s.nodes i).cbr ≠ some cbr) ∧ unregisterLoop r cbr fuel s prev p = some s ∨
      ∃ l₁ c l₂, l = l₁ ++ c :: l₂ ∧ (∀ i ∈ l₁, (s.nodes i).cbr ≠ some cbr) ∧
        (s.nodes c).cbr = some cbr ∧
        unregisterLoop r cbr fuel s prev p = some (s.unlink r (l₁.getLast?.or prev) c) := by
  induction l generalizing p prev fuel with
  | nil =>
    obtain rfl := hseg
    refine .inl ⟨by simp, ?_⟩
    cases fuel <;> rfl
  | cons c l ih =>
    obtain ⟨rfl, hseg⟩ := hseg
    obtain ⟨fuel, rfl⟩ := Nat.exists_eq_succ_of_ne_zero (Nat.ne_of_gt (Nat.zero_lt_of_lt hfuel))
    rw [unregisterLoop]
    by_cases hcbr : (s.nodes c).cbr = some cbr
    · have hnone : (s.unlink r prev c).next c = none := by simp [unlink, next]
      refine .inr ⟨[], c, l, rfl, by simp, hcbr, ?_⟩
      simp only [if_pos hcbr, hnone]
      cases fuel <;> rfl
    · simp only [if_neg hcbr]
      rcases ih (some c) hseg (Nat.le_of_succ_le_succ hfuel) with
        ⟨hno, hloop⟩ | ⟨l₁, d, l₂, rfl, hno, hd, hloop⟩
      · exact .inl ⟨forall_mem_cons.2 ⟨hcbr, hno⟩, hloop⟩
      · refine .inr ⟨c :: l₁, d, l₂, rfl, forall_mem_cons.2 ⟨hcbr, hno⟩, hd, hloop.trans ?_⟩
        rw [getLast?_cons]
        cases l₁.getLast? <;> rfl

theorem Inv.unlink (h : s.Inv idx) (hr : (s.records r).name = some e)
    (heq : idx r = l₁ ++ c :: l₂) :
    ∃ idx', (s.unlink r l₁.getLast? c).Inv idx' ∧ Keeps s (s.unlink r l₁.getLast? c) ∧
      (s.unlink r l₁.getLast? c).registered =
        update s.registered e ((l₁ ++ l₂).filterMap s.call) := by
  have hold := h.seg r e hr
  rw [heq] at hold
  have hc : c ∉ l₁ ++ l₂ := (nodup_cons.1 (nodup_middle.1 hold.nodup)).1
  have hmem {i : ℕ} : i ∈ idx r ↔ i ∈ l₁ ∨ i = c ∨ i ∈ l₂ := by
    rw [heq, mem_append, mem_cons]
  have hprev (i : ℕ) (hi : i ∈ l₁.getLast?) : i ∈ idx r := hmem.2 (.inl (mem_of_getLast? hi))
  have hlast {i : ℕ} (hi : i ∈ l₁.getLast?) : i ≠ c :=
    ne_of_mem_of_not_mem (mem_append_left l₂ (mem_of_getLast? hi)) hc
  have hsub (i : ℕ) (hi : i ∈ l₁ ++ l₂) : i = c ∨ i ∈ idx r := by
    rw [mem_append] at hi
    rw [hmem]
    tauto
  rw [unlink_eq fun heq => hlast heq rfl]
  have hseg : Seg (s.relink r l₁.getLast? (s.next c) c ⟨none, (s.nodes c).priority, none⟩).next
      (if l₁.getLast? = none then s.next c else (s.records r).first) (l₁ ++ l₂) none :=
    hold.remove (fun a ha => (next_relink (hlast ha)).trans (if_pos ha)) fun a ha hne =>
      (next_relink hne).trans (if_neg ha)
  have hidx : s.Fresh c ∨ c ∈ idx r := .inr (hmem.2 (.inr (.inl rfl)))
  refine ⟨_, h.relink hidx hprev hr hsub (absurd · hc) (by simp) hseg, ⟨rfl, rfl, name_relink⟩, ?_⟩
  rw [h.registered_relink hidx hprev hr hsub (absurd · hc) (by simp) hseg]
  exact congrArg _ (filterMap_congr fun i hi => call_relink (ne_of_mem_of_not_mem hi hc))

theorem Inv.mlUnregisterCbr (h : s.Inv idx) (e : EventName) (cbr : CbrFunc) :
    ∃ t result idx', s.mlUnregisterCbr e cbr = some (t, result) ∧ t.Inv idx' ∧ Keeps s t ∧
      t.registered = update s.registered e ((s.registered e).eraseP (·.1 = cbr)) := by
  rw [Registry.mlUnregisterCbr]
  cases hfind : s.findRecord e with
  | none =>
    refine ⟨s, -1, idx, rfl, h, .refl, ?_⟩
    rw [h.registered_eq_nil (h.findRecord_eq_none.1 hfind), eraseP_nil,
      ← h.registered_eq_nil (h.findRecord_eq_none.1 hfind), update_eq_self]
  | some r =>
    have hr := h.findRecord_eq_some.1 hfind
    have hcalls {l : List ℕ} (hl : ∀ i ∈ l, (s.nodes i).cbr ≠ some cbr) (x : CbrFunc × ℕ)
        (hx : x ∈ l.filterMap s.call) : ¬ decide (x.1 = cbr) = true := by
      obtain ⟨i, hi, hx⟩ := mem_filterMap.1 hx
      obtain ⟨f, hf, rfl⟩ := map_eq_some_iff.1 hx
      rw [decide_eq_true_eq]
      rintro rfl
      exact hl i hi hf
    dsimp only
    rcases unregisterLoop_seg r cbr none (h.seg r e hr) (Nat.le_succ_of_le (h.length_le hr)) with
      ⟨hno, hloop⟩ | ⟨l₁, c, l₂, heq, hno, hc, hloop⟩
    · refine ⟨s, 0, idx, by rw [hloop]; rfl, h, .refl, ?_⟩
      rw [eraseP_of_forall_not, update_eq_self]
      rw [h.registered_eq hr]
      exact hcalls hno
    · rw [or_none] at hloop
      obtain ⟨idx', hinv, hkeeps, hreg⟩ := h.unlink hr heq
      refine ⟨_, 0, idx', by rw [hloop]; rfl, hinv, hkeeps, hreg.trans (congrArg _ ?_)⟩
      have hcall : s.call c = some (cbr, (s.nodes c).priority) := by rw [call, hc]; rfl
      rw [h.registered_eq hr, heq, filterMap_append, filterMap_append,
        filterMap_cons_some hcall, eraseP_append_right _ (hcalls hno),
        eraseP_cons_of_pos (by simp)]

end MagicLantern.Cbr.Registry
