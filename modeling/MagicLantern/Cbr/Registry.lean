import MagicLantern.Library.Runs
import Mathlib.Data.Int.Notation

/-!
# The callback registry

Callbacks are registered for events with a priority. The callbacks of an event are a linked list, by
decreasing priority. The nodes of all lists are in a pool of arenas with 255 nodes each, and another
arena is allocated if all nodes are in use; a node is free if its callback is `NULL`. The records of
the events are in a pool of the same kind, and a record is free if its name is empty. A record has
16 bytes for the name, and a name of 16 characters is not terminated: a comparison then goes on with
the pointer behind it.

A pointer to a node or a record is its number, counted through all arenas; `none` is `NULL`. The
loops over lists have a bound for the number of nodes, and are `none` if it does not suffice.

Source: `src/src/ml-cbr.c`, `src/src/ml-cbr.h`.

## Main definitions

* `Registry`, `CbrOp.step`.
-/

namespace MagicLantern.Cbr

/-- `NODE_POOL_SIZE` and `RECORD_POOL_SIZE`. -/
def poolSize : ℕ := 255

/-- The name of an event, of at most 16 characters. -/
structure EventName where
  chars : List Char
  ne_nil : chars ≠ []
  nul_notMem : Char.ofNat 0 ∉ chars
  length_le : chars.length ≤ 16
  deriving DecidableEq

/-- The name is terminated in its record. -/
def EventName.Short (e : EventName) : Prop :=
  e.chars.length ≤ 15

instance : DecidablePred EventName.Short :=
  fun _ => inferInstanceAs (Decidable (_ ≤ _))

/-- A callback, given by its address. -/
abbrev CbrFunc := ℕ

/-- `struct cbr_node`. -/
@[ext] structure CbrNode where
  cbr : Option CbrFunc
  priority : ℕ
  next : Option ℕ

/-- `struct cbr_record`; the name is `none` if it is empty. -/
structure CbrRecord where
  name : Option EventName
  first : Option ℕ

/-- `fast_compare(event, name)`. A name of 16 characters is followed by the low byte of `first`, and
`addr` are the addresses of the nodes. -/
def CbrRecord.Matches (addr : ℕ → ℕ) (record : CbrRecord) (event : EventName) : Prop :=
  record.name = some event ∧ (event.Short ∨ ∀ i ∈ record.first, addr i % 256 = 0)

instance (addr : ℕ → ℕ) (record : CbrRecord) (event : EventName) :
    Decidable (record.Matches addr event) :=
  inferInstanceAs (Decidable (_ ∧ (_ ∨ _)))

/-- The pools, and what was registered. -/
structure Registry where
  /-- The addresses of the nodes. -/
  addr : ℕ → ℕ
  nodes : ℕ → CbrNode
  nodeArenas : ℕ
  records : ℕ → CbrRecord
  recordArenas : ℕ
  /-- The callbacks that are registered for an event, with their priorities, in the order in which
  they were registered. -/
  live : EventName → List (CbrFunc × ℕ)

namespace Registry

variable (s : Registry)

/-- The number of nodes. -/
def numNodes : ℕ := poolSize * s.nodeArenas

/-- The number of records. -/
def numRecords : ℕ := poolSize * s.recordArenas

/-- The pointers of the nodes. -/
def next (i : ℕ) : Option ℕ := (s.nodes i).next

/-- `prev->next = next`. -/
def setNext (i : ℕ) (next : Option ℕ) : Registry :=
  { s with nodes := Function.update s.nodes i { s.nodes i with next } }

/-- `record->first = first`. -/
def setFirst (r : ℕ) (first : Option ℕ) : Registry :=
  { s with records := Function.update s.records r { s.records r with first } }

/-! ### The pools -/

/-- `find_record(event, 0)`. -/
def findRecord (event : EventName) : Option ℕ :=
  (List.range s.numRecords).find? fun r => (s.records r).Matches s.addr event

/-- The first free record. -/
def freeRecord : Option ℕ :=
  (List.range s.numRecords).find? fun r => (s.records r).name = none

/-- `find_record(event, 1)`: a record is made if there is none. -/
def findOrNewRecord (event : EventName) : Registry × Option ℕ :=
  match s.findRecord event with
  | some r => (s, some r)
  | none =>
    match s.freeRecord with
    | some r => ({ s with records := Function.update s.records r ⟨some event, none⟩ }, some r)
    | none => (s, none)

/-- `find_free_node`. -/
def findFreeNode : Option ℕ :=
  (List.range s.numNodes).find? fun i => (s.nodes i).cbr = none

/-- `expand_cbr_node_pool`; without `malloc` there is no memory. -/
def expandCbrNodePool (malloc : Bool) : Option Registry :=
  if malloc then
    some { s with
      nodes := fun i =>
        if s.numNodes ≤ i ∧ i < s.numNodes + poolSize then ⟨none, 0, none⟩ else s.nodes i
      nodeArenas := s.nodeArenas + 1 }
  else none

/-- `expand_cbr_record_pool`. -/
def expandCbrRecordPool (malloc : Bool) : Option Registry :=
  if malloc then
    some { s with
      records := fun r =>
        if s.numRecords ≤ r ∧ r < s.numRecords + poolSize then ⟨none, none⟩ else s.records r
      recordArenas := s.recordArenas + 1 }
  else none

/-! ### Registering -/

/-- The node for a new callback, from the pool or from a new arena. -/
def newNode (malloc : Bool) : Option (Registry × ℕ) :=
  match s.findFreeNode with
  | some i => some (s, i)
  | none => (s.expandCbrNodePool malloc).map fun t => (t, s.numNodes)

/-- The loop of `insert_cbr`: the nodes between which the new one is put. -/
def findPlace (prio : ℕ) : ℕ → Option ℕ → ℕ → Option (Option ℕ × Option ℕ)
  | 0, _, _ => none
  | fuel + 1, prev, current =>
    if (s.nodes current).priority < prio then some (prev, some current)
    else
      match s.next current with
      | none => some (some current, none)
      | some next => findPlace prio fuel (some current) next

/-- The new node is linked. At the end of the list its pointer is left as it is. -/
def link (r new : ℕ) : Option ℕ × Option ℕ → Registry
  | (none, none) => s.setFirst r (some new)
  | (none, some current) => (s.setFirst r (some new)).setNext new (some current)
  | (some prev, some current) => (s.setNext prev (some new)).setNext new (some current)
  | (some prev, none) => s.setNext prev (some new)

/-- The callback and the priority are written to a node. -/
def fillNode (i : ℕ) (cbr : CbrFunc) (prio : ℕ) : Registry :=
  { s with nodes := Function.update s.nodes i ⟨some cbr, prio, (s.nodes i).next⟩ }

/-- `insert_cbr` with a new node. -/
def insertNode (r new : ℕ) (cbr : CbrFunc) (prio : ℕ) : Option Registry :=
  let t := s.fillNode new cbr prio
  match (t.records r).first with
  | none => some (t.link r new (none, none))
  | some first => (t.findPlace prio t.numNodes none first).map (t.link r new)

/-- `ml_register_cbr`; the result is 0 if the callback was registered. There is memory for an arena
of records, and of nodes. -/
def mlRegisterCbr (event : EventName) (cbr : CbrFunc) (prio : ℕ) (mallocRecord mallocNode : Bool) :
    Option (Registry × ℤ) :=
  let found :=
    match s.findOrNewRecord event with
    | (t, some r) => some (t, r)
    | (t, none) => (t.expandCbrRecordPool mallocRecord).map fun u => (u, t.numRecords)
  match found with
  | none => some (s, -1)
  | some (t, r) =>
    match t.newNode mallocNode with
    | none => some (t, -1)
    | some (u, new) => (u.insertNode r new cbr prio).map fun v => (v, 0)

/-! ### Unregistering -/

/-- A node is taken out of a list and freed. -/
def unlink (r : ℕ) (prev : Option ℕ) (current : ℕ) : Registry :=
  let t :=
    match prev with
    | none => s.setFirst r (s.next current)
    | some prev => s.setNext prev (s.next current)
  { t with nodes := Function.update t.nodes current ⟨none, (t.nodes current).priority, none⟩ }

/-- The loop of `ml_unregister_cbr`. It goes on from the node that was taken out, whose pointer is
`NULL`. -/
def unregisterLoop (r : ℕ) (cbr : CbrFunc) : ℕ → Registry → Option ℕ → Option ℕ → Option Registry
  | _, s, _, none => some s
  | 0, _, _, some _ => none
  | fuel + 1, s, prev, some current =>
    let t := if (s.nodes current).cbr = some cbr then s.unlink r prev current else s
    unregisterLoop r cbr fuel t (some current) (t.next current)

/-- `ml_unregister_cbr`. -/
def mlUnregisterCbr (event : EventName) (cbr : CbrFunc) : Option (Registry × ℤ) :=
  match s.findRecord event with
  | none => some (s, -1)
  | some r =>
    (unregisterLoop r cbr (s.numNodes + 1) s none (s.records r).first).map fun t => (t, 0)

/-! ### Notifying -/

/-- The loop of `ml_notify_cbr`: the callbacks that are called. A node without a callback would keep
it from going on. -/
def notifyLoop (stops : CbrFunc → Bool) : ℕ → Option ℕ → Option (List CbrFunc)
  | _, none => some []
  | 0, some _ => none
  | fuel + 1, some call =>
    match (s.nodes call).cbr with
    | some cbr =>
      if stops cbr then some [cbr]
      else (notifyLoop stops fuel (s.next call)).map (cbr :: ·)
    | none => notifyLoop stops fuel (some call)

/-- `ml_notify_cbr`; `stops` says which callbacks return `ML_CBR_STOP`. -/
def mlNotifyCbr (fuel : ℕ) (event : EventName) (stops : CbrFunc → Bool) : Option (List CbrFunc) :=
  match s.findRecord event with
  | none => some []
  | some r => s.notifyLoop stops fuel (s.records r).first

/-- `_ml_cbr_init`. -/
def init (addr : ℕ → ℕ) : Registry where
  addr := addr
  nodes := fun _ => ⟨none, 0, none⟩
  nodeArenas := 1
  records := fun _ => ⟨none, none⟩
  recordArenas := 1
  live := fun _ => []

end Registry

/-! ### Runs -/

/-- A call. -/
inductive CbrOp
  | register (event : EventName) (cbr : CbrFunc) (prio : ℕ) (mallocRecord mallocNode : Bool)
  | unregister (event : EventName) (cbr : CbrFunc)

/-- The event of a call. -/
def CbrOp.event : CbrOp → EventName
  | .register event _ _ _ _ => event
  | .unregister event _ => event

/-- A call. A callback is registered if the result is 0. -/
def CbrOp.step (s : Registry) : CbrOp → Option Registry
  | .register event cbr prio mallocRecord mallocNode =>
    (s.mlRegisterCbr event cbr prio mallocRecord mallocNode).map fun (t, result) =>
      if result = 0 then
        { t with live := Function.update t.live event (t.live event ++ [(cbr, prio)]) }
      else t
  | .unregister event cbr =>
    (s.mlUnregisterCbr event cbr).map fun (t, _) =>
      { t with live := Function.update t.live event ((t.live event).filter (·.1 ≠ cbr)) }

/-- The state after the given calls. -/
def Registry.run (s : Registry) (ops : List CbrOp) : Option Registry :=
  ops.foldlM CbrOp.step s

/-- No callback is registered twice for an event. -/
def CbrOp.Once (s : Registry) : CbrOp → Prop
  | .register event cbr _ _ _ => ∀ x ∈ s.live event, x.1 ≠ cbr
  | .unregister _ _ => True

instance (s : Registry) : DecidablePred (CbrOp.Once s) := fun op => by
  cases op <;> dsimp only [CbrOp.Once] <;> infer_instance

end MagicLantern.Cbr
