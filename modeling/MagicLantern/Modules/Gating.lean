import MagicLantern.Library.Runs
import Mathlib.Data.Int.Notation

/-!
# Loading modules and calling their callbacks

All modules are loaded by one task, in several passes over the list of modules: the files are added
to the linker, the linker relocates them, the symbols of each module are looked up and its info
structure is checked, and at last the init functions are called. Meanwhile, other tasks call the
callbacks of the modules, with `module_exec_cbr` and `handle_module_keys`. They look at two fields
of a module: whether it is valid, which it is from the first pass on, and whether it has a table of
callbacks, which it gets with its other symbols.

Each step of the loading task changes the fields of one module. The other tasks read the table of a
module, then its valid flag, and then call the callbacks of the table one by one. What the files
contain and what the functions of the modules return is given.

So callbacks of a module that is not ready can be called while modules are loaded or unloaded, and
also later if its info structure, its init function or its deinit function is missing or its magic
is wrong.

Source: `src/src/module.c`, `src/src/module.h`.

## Main definitions

* `ModuleList`, `GateOp.step`, `GateOp.Good`.
-/

namespace MagicLantern.Modules

/-- `MODULE_MAGIC`. -/
def moduleMagic : ℕ := 0x5A

/-- `MODULE_MAJOR`. -/
def moduleMajor : ℕ := 8

/-- `MODULE_MINOR`. -/
def moduleMinor : ℕ := 0

/-- `MODULE_COUNT_MAX`. -/
def moduleCountMax : ℕ := 64

/-- `CBR_KEYPRESS`. -/
def cbrKeypress : ℕ := 7

/-- `CBR_KEYPRESS_RAW`. -/
def cbrKeypressRaw : ℕ := 8

/-- `module_info_t`. -/
structure ModuleInfo where
  apiMagic : ℕ
  apiMajor : ℕ
  apiMinor : ℕ
  /-- What the init function returns, if there is one. -/
  init : Option ℤ
  /-- There is a deinit function. -/
  deinit : Bool

/-- A file in the directory of modules, and what is found in it. -/
structure ModuleFile where
  enabled : Bool
  /-- `tcc_add_file` succeeds. -/
  added : Bool
  info : Option ModuleInfo
  /-- The types of the callbacks. -/
  cbr : Option (List ℕ)

/-- `module_entry_t`. -/
structure ModuleEntry where
  info : Option ModuleInfo
  cbr : Option (List ℕ)
  valid : Bool
  enabled : Bool
  error : ℤ
  /-- The init function has returned 0. -/
  initReturned : Bool
  /-- The module has been unloaded. -/
  unloaded : Bool

/-- The module has been initialised without an error and has not been unloaded. -/
def ModuleEntry.Ready (m : ModuleEntry) : Prop :=
  m.initReturned = true ∧ m.error = 0 ∧ m.unloaded = false

instance (m : ModuleEntry) : Decidable m.Ready :=
  inferInstanceAs (Decidable (_ ∧ _))

/-- The condition of the passes. -/
def ModuleEntry.Usable (m : ModuleEntry) : Prop :=
  m.valid = true ∧ m.enabled = true ∧ m.error = 0

instance (m : ModuleEntry) : Decidable m.Usable :=
  inferInstanceAs (Decidable (_ ∧ _))

/-- What the loading task does next, and for which module. -/
inductive LoadPhase
  | scan
  | addFile (mod : ℕ)
  | link
  | linkFailed (mod : ℕ)
  /-- The symbols of a module are looked up. -/
  | symbols (mod : ℕ)
  /-- The info structure is checked. -/
  | check (mod : ℕ)
  /-- Wrong version: `cbr = 0`. -/
  | oldApi (mod : ℕ)
  /-- The init function is called. -/
  | init (mod : ℕ)
  /-- `error = err`. -/
  | initFailed (mod : ℕ) (err : ℤ)
  /-- The init function has failed: `cbr = 0`. -/
  | initDisable (mod : ℕ)
  | done
  deriving DecidableEq

/-- What is executed: `module_exec_cbr` for a type of callbacks, or `handle_module_keys` for an
event. -/
inductive ExecKind
  | cbr (type : ℕ)
  | keys (arg : ℕ)

/-- The types of the callbacks that are called. -/
def ExecKind.Matches : ExecKind → ℕ → Prop
  | .cbr type, t => t = type
  | .keys _, t => t = cbrKeypress ∨ t = cbrKeypressRaw

instance : ∀ kind t, Decidable (ExecKind.Matches kind t)
  | .cbr type, t => inferInstanceAs (Decidable (t = type))
  | .keys _, t => inferInstanceAs (Decidable (t = cbrKeypress ∨ t = cbrKeypressRaw))

/-- Where a call of `module_exec_cbr` or `handle_module_keys` is. -/
inductive ExecPhase
  /-- Before the table of a module is read. -/
  | read (mod : ℕ)
  /-- Before the valid flag is tested. -/
  | test (mod : ℕ) (cbr : Option (List ℕ))
  /-- In the table of a module. The key handler was called `i` times for this event, and `pass` is
  `pass_event`. -/
  | inside (mod : ℕ) (cbr : List ℕ) (i : ℕ) (pass : Bool)

/-- A call of `module_exec_cbr` or `handle_module_keys`. -/
structure Exec where
  kind : ExecKind
  phase : ExecPhase

/-- The list of modules, the loading task, and the other calls. -/
structure ModuleList where
  entries : ℕ → ModuleEntry
  loader : LoadPhase
  execs : List Exec
  /-- The state of the module in each call of a callback. -/
  calls : List ModuleEntry

namespace ModuleList

variable (s : ModuleList)

/-- An element of `module_list` is changed. -/
def setEntry (mod : ℕ) (m : ModuleEntry) : ModuleList :=
  { s with entries := Function.update s.entries mod m }

/-- The loading task goes on. -/
def setLoader (loader : LoadPhase) : ModuleList :=
  { s with loader }

/-! ### Loading -/

/-- The check of the info structure: what follows for the module, and the next step. -/
def checkInfo (mod : ℕ) (m : ModuleEntry) : ModuleEntry × LoadPhase :=
  match m.info with
  | none => ({ m with error := 1 }, .symbols (mod + 1))
  | some info =>
    if info.apiMagic = moduleMagic then
      if info.apiMajor = moduleMajor ∧ info.apiMinor ≤ moduleMinor then (m, .symbols (mod + 1))
      else ({ m with error := 1 }, .oldApi mod)
    else ({ m with error := 1 }, .symbols (mod + 1))

/-- A call of the init function, if there is one. -/
def callInit (mod : ℕ) (m : ModuleEntry) : ModuleEntry × LoadPhase :=
  match m.info.bind ModuleInfo.init with
  | none => (m, .init (mod + 1))
  | some err =>
    if err = 0 then ({ m with initReturned := true }, .init (mod + 1)) else (m, .initFailed mod err)

/-- A step of `_module_load_all` with the given files. With `ok`, the modules are to be loaded and
can be found, or they can be linked. -/
def loadStep (files : List ModuleFile) (ok : Bool) : Option ModuleList :=
  match s.loader with
  | .scan => some (if ok then s.setLoader (.addFile 0) else s.setLoader .done)
  | .addFile mod =>
    match files[mod]? with
    | none => some (s.setLoader .link)
    | some file =>
      let m := { s.entries mod with enabled := file.enabled }
      some ((s.setEntry mod
        (if file.enabled then { m with valid := true, error := if file.added then m.error else 1 }
        else m)).setLoader (.addFile (mod + 1)))
  | .link => some (s.setLoader (if ok then .symbols 0 else .linkFailed 0))
  | .linkFailed mod =>
    if mod < files.length then
      let m := s.entries mod
      some ((s.setEntry mod (if m.enabled then { m with error := 1 } else m)).setLoader
        (.linkFailed (mod + 1)))
    else some (s.setLoader .done)
  | .symbols mod =>
    match files[mod]? with
    | none => some (s.setLoader (.init 0))
    | some file =>
      if (s.entries mod).Usable then
        some ((s.setEntry mod { s.entries mod with info := file.info, cbr := file.cbr }).setLoader
          (.check mod))
      else some (s.setLoader (.symbols (mod + 1)))
  | .check mod =>
    let (m, loader) := checkInfo mod (s.entries mod)
    some ((s.setEntry mod m).setLoader loader)
  | .oldApi mod =>
    some ((s.setEntry mod { s.entries mod with cbr := none }).setLoader (.symbols (mod + 1)))
  | .init mod =>
    if mod < files.length then
      if (s.entries mod).Usable then
        let (m, loader) := callInit mod (s.entries mod)
        some ((s.setEntry mod m).setLoader loader)
      else some (s.setLoader (.init (mod + 1)))
    else some (s.setLoader .done)
  | .initFailed mod err =>
    some ((s.setEntry mod { s.entries mod with error := err }).setLoader (.initDisable mod))
  | .initDisable mod =>
    some ((s.setEntry mod { s.entries mod with cbr := none }).setLoader (.init (mod + 1)))
  | .done => none

/-! ### Unloading -/

/-- `_module_unload_all` for a module, up to the call of the deinit function. -/
def unload (mod : ℕ) : ModuleList :=
  if (s.entries mod).Usable then s.setEntry mod { s.entries mod with unloaded := true } else s

/-- The rest: `valid = 0` if there is a deinit function. -/
def invalidate (mod : ℕ) : ModuleList :=
  if (s.entries mod).unloaded ∧ (s.entries mod).info.any ModuleInfo.deinit then
    s.setEntry mod { s.entries mod with valid := false }
  else s

/-! ### Calling -/

/-- The call goes on, or it returns. -/
def setExec (e : ℕ) (kind : ExecKind) : Option ExecPhase → ModuleList
  | some phase => { s with execs := s.execs.set e ⟨kind, phase⟩ }
  | none => { s with execs := s.execs.eraseIdx e }

/-- A callback of a module is called. -/
def callHandler (mod : ℕ) : ModuleList :=
  { s with calls := s.entries mod :: s.calls }

/-- The next callback in the table. For keys, a callback is called for each key press in the event,
unless it gets the event itself; `ret` tells whether other callbacks may be called after this one.
-/
def execInside (e : ℕ) (kind : ExecKind) (mod t : ℕ) (rest : List ℕ) (i : ℕ) (pass ret : Bool) :
    ModuleList :=
  match kind with
  | .cbr type =>
    if t = type then
      (s.callHandler mod).setExec e kind (if ret then some (.inside mod rest 0 true) else none)
    else s.setExec e kind (some (.inside mod rest 0 true))
  | .keys arg =>
    if t = cbrKeypress then
      (s.callHandler mod).setExec e kind
        (if i + 1 < max 1 arg then some (.inside mod (t :: rest) (i + 1) (pass && ret))
        else if pass && ret then some (.inside mod rest 0 true) else none)
    else if t = cbrKeypressRaw then
      (s.callHandler mod).setExec e kind (if ret then some (.inside mod rest 0 true) else none)
    else s.setExec e kind (some (.inside mod rest 0 true))

/-- A step of a call. -/
def execNext (e : ℕ) (ret : Bool) (exec : Exec) : ModuleList :=
  match exec.phase with
  | .read mod =>
    s.setExec e exec.kind
      (if mod < moduleCountMax then some (.test mod (s.entries mod).cbr) else none)
  | .test mod none => s.setExec e exec.kind (some (.read (mod + 1)))
  | .test mod (some cbr) =>
    s.setExec e exec.kind
      (some (if (s.entries mod).valid then .inside mod cbr 0 true else .read (mod + 1)))
  | .inside mod [] _ _ => s.setExec e exec.kind (some (.read (mod + 1)))
  | .inside mod (t :: rest) i pass => s.execInside e exec.kind mod t rest i pass ret

def execStep (e : ℕ) (ret : Bool) : Option ModuleList :=
  s.execs[e]?.map (s.execNext e ret)

/-- The list of modules at startup. -/
def init : ModuleList where
  entries := fun _ => ⟨none, none, false, false, 0, false, false⟩
  loader := .scan
  execs := []
  calls := []

end ModuleList

/-! ### Runs -/

/-- A step of one of the tasks. -/
inductive GateOp
  | load (ok : Bool)
  | unload (mod : ℕ)
  | invalidate (mod : ℕ)
  | execBegin (kind : ExecKind)
  | exec (e : ℕ) (ret : Bool)

/-- `none` if there is no such step. -/
def GateOp.step (files : List ModuleFile) (s : ModuleList) : GateOp → Option ModuleList
  | .load ok => s.loadStep files ok
  | .unload mod => some (s.unload mod)
  | .invalidate mod => some (s.invalidate mod)
  | .execBegin kind => some { s with execs := s.execs ++ [⟨kind, .read 0⟩] }
  | .exec e ret => s.execStep e ret

/-- The state after the given steps. -/
def ModuleList.run (files : List ModuleFile) (s : ModuleList) (ops : List GateOp) :
    Option ModuleList :=
  ops.foldlM (GateOp.step files) s

/-- All calls of callbacks were for modules that were ready. -/
def ModuleList.Gated (s : ModuleList) : Prop :=
  ∀ m ∈ s.calls, m.Ready

/-- The condition on a file: if it is loaded and has callbacks, then it has an info structure with
the right magic, and also an init and a deinit function unless the version is wrong. -/
def ModuleFile.Ok (f : ModuleFile) : Prop :=
  f.enabled = true → f.added = true → f.cbr ≠ none → ∃ info ∈ f.info, info.apiMagic = moduleMagic ∧
    (info.apiMajor = moduleMajor ∧ info.apiMinor ≤ moduleMinor →
      info.init ≠ none ∧ info.deinit = true)

instance (f : ModuleFile) : Decidable f.Ok := by
  unfold ModuleFile.Ok
  infer_instance

/-- The condition on the order of the steps: callbacks are called only when all modules have been
loaded and none is just being unloaded, and modules are unloaded only when no callbacks are called.
-/
def GateOp.Good (s : ModuleList) : GateOp → Prop
  | .execBegin _ => s.loader = .done ∧ ∀ mod < moduleCountMax, (s.entries mod).unloaded = true →
      (s.entries mod).info.any ModuleInfo.deinit = true → (s.entries mod).valid = false
  | .unload _ => s.loader = .done ∧ s.execs = []
  | _ => True

instance (s : ModuleList) : DecidablePred (GateOp.Good s) := fun op => by
  cases op <;> dsimp only [GateOp.Good] <;> infer_instance

end MagicLantern.Modules
