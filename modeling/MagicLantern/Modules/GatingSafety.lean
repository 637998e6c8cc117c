import MagicLantern.Modules.Gating

/-!
# Callbacks of modules that are ready

In each pass of the loading task, a module that has a table of callbacks has passed the earlier
checks. So when all modules have been loaded, a module with a table has been initialised without an
error, and it is ready until it is unloaded.

## Main results

* `run_gated` — only modules that are ready are called.
* `run_notReady`.
-/

namespace MagicLantern.Modules

open Function List Option

variable {files : List ModuleFile}

/-- The module can be initialised and unloaded. -/
structure ModuleEntry.Checked (files : List ModuleFile) (mod : ℕ) (m : ModuleEntry) : Prop where
  lt : mod < files.length
  usable : m.Usable
  info : ∃ info, m.info = some info ∧ info.init ≠ none ∧ info.deinit = true

/-- The module has been initialised and can be unloaded. -/
structure ModuleEntry.Started (m : ModuleEntry) : Prop where
  initReturned : m.initReturned = true
  error : m.error = 0
  deinit : m.info.any ModuleInfo.deinit = true

/-- The symbols of the module are those of its file. -/
structure ModuleEntry.Found (files : List ModuleFile) (mod : ℕ) (m : ModuleEntry) : Prop where
  usable : m.Usable
  file : ∃ f, files[mod]? = some f ∧ f.enabled = true ∧ f.added = true ∧ m.info = f.info ∧
    m.cbr = f.cbr

/-- The module can be used only if its file was enabled and added. -/
def ModuleEntry.AddedOk (files : List ModuleFile) (mod : ℕ) (m : ModuleEntry) : Prop :=
  ∀ f, files[mod]? = some f → m.valid = true → f.enabled = true ∧ (f.added = false → m.error ≠ 0)

namespace LoadPhase

/-- What is known of a module with a table of callbacks. -/
def Ok (files : List ModuleFile) : LoadPhase → ℕ → ModuleEntry → Prop
  | .symbols k, mod, m => mod < k ∧ m.Checked files mod
  | .check k, mod, m => if mod = k then m.Found files mod else mod < k ∧ m.Checked files mod
  | .oldApi k, mod, m => mod ≠ k → mod < k ∧ m.Checked files mod
  | .init k, mod, m => if mod < k then m.Started else m.Checked files mod
  | .initFailed k _, mod, m | .initDisable k, mod, m =>
    mod ≠ k → if mod < k then m.Started else m.Checked files mod
  | .done, _, m => m.Started
  | _, _, _ => False

theorem ok_init_succ {mod k : ℕ} {m : ModuleEntry} (hmod : mod ≠ k)
    (hok : if mod < k then m.Started else m.Checked files mod) :
    Ok files (.init (k + 1)) mod m := by
  rw [Ok]
  rcases Nat.lt_or_gt_of_ne hmod with hlt | hlt
  · rw [if_pos hlt] at hok
    rwa [if_pos (Nat.lt_succ_of_lt hlt)]
  · rw [if_neg (by omega)] at hok
    rwa [if_neg (by omega)]

/-- No init function has been called. -/
def Early : LoadPhase → Prop
  | .init _ | .initFailed .. | .initDisable _ | .done => False
  | _ => True

end LoadPhase

namespace ModuleList

variable {s t : ModuleList} {mod k e : ℕ} {m : ModuleEntry} {loader : LoadPhase} {kind : ExecKind}
  {op : GateOp}

/-! ### The loading task -/

/-- The modules while they are loaded, and afterwards. -/
structure Loading (files : List ModuleFile) (s : ModuleList) : Prop where
  ok : ∀ mod, (s.entries mod).cbr ≠ none → s.loader.Ok files mod (s.entries mod)
  added : s.loader.Early → ∀ mod, (s.entries mod).AddedOk files mod
  unloaded : s.loader ≠ .done → ∀ mod, (s.entries mod).unloaded = false

section

variable {l : LoadPhase} (h : Loading files s) (hl : s.loader = l)

include h hl

theorem Loading.next (hdone : l ≠ .done) (hk : m.cbr ≠ none → loader.Ok files k m)
    (hothers : ∀ mod m, mod ≠ k → l.Ok files mod m → loader.Ok files mod m)
    (hearly : loader.Early → l.Early ∧ m.AddedOk files k)
    (hunloaded : m.unloaded = (s.entries k).unloaded) :
    Loading files ((s.setEntry k m).setLoader loader) := by
  subst hl
  have hentry (mod : ℕ) : ((s.setEntry k m).setLoader loader).entries mod =
      if mod = k then m else s.entries mod := update_apply ..
  refine ⟨fun mod => ?_, fun hl mod => ?_, fun _ mod => ?_⟩
  · rw [hentry]
    split_ifs with hmod
    · exact fun hcbr => hmod ▸ hk hcbr
    · exact fun hcbr => hothers mod _ hmod (h.ok mod hcbr)
  · rw [hentry]
    split_ifs with hmod
    · exact hmod ▸ (hearly hl).2
    · exact h.added (hearly hl).1 mod
  · rw [hentry]
    split_ifs
    · exact hunloaded.trans (h.unloaded hdone k)
    · exact h.unloaded hdone mod

theorem Loading.setLoader (hdone : l ≠ .done)
    (hok : ∀ mod m, m = s.entries mod → l.Ok files mod m → loader.Ok files mod m)
    (hearly : loader.Early → l.Early) : Loading files (s.setLoader loader) := by
  subst hl
  exact ⟨fun mod hcbr => hok mod _ rfl (h.ok mod hcbr), fun hl => h.added (hearly hl),
    fun _ => h.unloaded hdone⟩

/-- Before the symbols are looked up, there are no tables. -/
theorem Loading.cbr_eq_none (hno : ¬ l.Ok files k (s.entries k)) : (s.entries k).cbr = none :=
  not_not.1 fun hcbr => hno (hl ▸ h.ok k hcbr)

end

theorem Loading.check (h : Loading files s) (hfiles : ∀ f ∈ files, f.Ok)
    (hs : s.loader = .check k) :
    Loading files ((s.setEntry k (checkInfo k (s.entries k)).1).setLoader
      (checkInfo k (s.entries k)).2) := by
  have hadded := h.added (hs ▸ trivial) k
  have hfound (hcbr : (s.entries k).cbr ≠ none) : (s.entries k).Found files k := by
    simpa [hs, LoadPhase.Ok] using h.ok k hcbr
  have hothers (mod : ℕ) (m : ModuleEntry) (hmod : mod ≠ k)
      (hok : LoadPhase.Ok files (.check k) mod m) : mod < k ∧ m.Checked files mod := by
    simpa [LoadPhase.Ok, hmod] using hok
  have hnext (mod : ℕ) (m : ModuleEntry) (hmod : mod ≠ k)
      (hok : LoadPhase.Ok files (.check k) mod m) : mod < k + 1 ∧ m.Checked files mod :=
    ⟨Nat.lt_succ_of_lt (hothers mod m hmod hok).1, (hothers mod m hmod hok).2⟩
  have herror (f : ModuleFile) (hf : files[k]? = some f) (hvalid : (s.entries k).valid = true) :
      f.enabled = true ∧ (f.added = false → (1 : ℤ) ≠ 0) :=
    ⟨(hadded f hf hvalid).1, fun _ => Int.one_ne_zero⟩
  -- a file that is not as it should be has no callbacks
  have hinfo (hcbr : (s.entries k).cbr ≠ none) : ∃ info, (s.entries k).info = some info ∧
      info.apiMagic = moduleMagic ∧ (info.apiMajor = moduleMajor ∧ info.apiMinor ≤ moduleMinor →
        info.init ≠ none ∧ info.deinit = true) := by
    obtain ⟨f, hf, henabled, hadded, hinfo, hcbr'⟩ := (hfound hcbr).file
    rw [hinfo]
    exact hfiles f (mem_of_getElem? hf) henabled hadded (hcbr' ▸ hcbr)
  rw [checkInfo]
  split
  next hnone =>
    refine h.next hs nofun (fun hcbr => ?_) hnext (fun _ => ⟨trivial, herror⟩) rfl
    obtain ⟨info, hsome, -⟩ := hinfo hcbr
    rw [hnone] at hsome
    cases hsome
  next info hsome =>
    have hsame (hcbr : (s.entries k).cbr ≠ none) : info.apiMagic = moduleMagic ∧
        (info.apiMajor = moduleMajor ∧ info.apiMinor ≤ moduleMinor →
          info.init ≠ none ∧ info.deinit = true) := by
      obtain ⟨info', hsome', hok⟩ := hinfo hcbr
      rwa [Option.some.inj (hsome.symm.trans hsome')]
    split_ifs with hmagic hversion
    · refine h.next hs nofun (fun hcbr => ?_) hnext (fun _ => ⟨trivial, hadded⟩) rfl
      obtain ⟨f, hf, -⟩ := (hfound hcbr).file
      exact ⟨Nat.lt_succ_self k, (List.getElem?_eq_some_iff.1 hf).1, (hfound hcbr).usable, info,
        hsome, (hsame hcbr).2 hversion⟩
    · exact h.next hs nofun (fun _ hne => absurd rfl hne)
        (fun mod m hmod hok _ => hothers mod m hmod hok) (fun _ => ⟨trivial, herror⟩) rfl
    · exact h.next hs nofun (fun hcbr => absurd (hsame hcbr).1 hmagic) hnext
        (fun _ => ⟨trivial, herror⟩) rfl

theorem Loading.callInit (h : Loading files s) (hs : s.loader = .init k)
    (husable : (s.entries k).Usable) :
    Loading files ((s.setEntry k (callInit k (s.entries k)).1).setLoader
      (callInit k (s.entries k)).2) := by
  have hchecked (hcbr : (s.entries k).cbr ≠ none) : (s.entries k).Checked files k := by
    simpa [hs, LoadPhase.Ok] using h.ok k hcbr
  rw [ModuleList.callInit]
  split
  next hnone =>
    refine h.next hs nofun (fun hcbr => ?_) (fun _ _ => LoadPhase.ok_init_succ) False.elim rfl
    obtain ⟨info, hinfo, hinit, -⟩ := (hchecked hcbr).info
    exact absurd (by simpa [hinfo] using hnone) hinit
  next err hsome =>
    split_ifs with herr
    · refine h.next hs nofun (fun hcbr => ?_) (fun _ _ => LoadPhase.ok_init_succ) False.elim rfl
      obtain ⟨info, hinfo, -, hdeinit⟩ := (hchecked hcbr).info
      rw [LoadPhase.Ok, if_pos (Nat.lt_succ_self k)]
      exact ⟨rfl, husable.2.2, by simpa [hinfo] using hdeinit⟩
    · exact h.next hs nofun (fun _ hne => absurd rfl hne) (fun _ _ _ hok _ => hok) False.elim rfl

theorem Loading.loadStep (h : Loading files s) (hfiles : ∀ f ∈ files, f.Ok) {ok : Bool}
    (hs : s.loadStep files ok = some t) : Loading files t := by
  rw [ModuleList.loadStep] at hs
  generalize hl : s.loader = l at hs
  have hadded (hearly : l.Early) (mod : ℕ) : (s.entries mod).AddedOk files mod :=
    h.added (hl ▸ hearly) mod
  cases l with
  | scan =>
    cases hs
    split_ifs <;> exact h.setLoader hl nofun (fun _ _ _ => False.elim) fun _ => trivial
  | addFile k =>
    dsimp only at hs
    split at hs <;> cases hs
    · exact h.setLoader hl nofun (fun _ _ _ => False.elim) fun _ => trivial
    next f hf =>
      refine h.next hl nofun (fun hcbr => absurd ?_ hcbr) (fun _ _ _ => False.elim)
        (fun _ => ⟨trivial, fun f' hf' hvalid => ?_⟩) ?_
      · split_ifs <;> exact h.cbr_eq_none hl id
      · obtain rfl := Option.some.inj (hf.symm.trans hf')
        by_cases henabled : f.enabled = true
        · rw [if_pos henabled]
          exact ⟨henabled, fun hadd => by simp [hadd]⟩
        · rw [if_neg henabled] at hvalid
          exact absurd (hadded trivial k f hf hvalid).1 henabled
      · split_ifs <;> rfl
  | link =>
    cases hs
    split_ifs <;> exact h.setLoader hl nofun (fun _ _ _ => False.elim) fun _ => trivial
  | linkFailed k =>
    dsimp only at hs
    split at hs <;> cases hs
    · refine h.next hl nofun (fun hcbr => absurd ?_ hcbr) (fun _ _ _ => False.elim)
        (fun _ => ⟨trivial, fun f hf hvalid => ?_⟩) ?_
      · split_ifs <;> exact h.cbr_eq_none hl id
      · split_ifs at hvalid ⊢
        · exact ⟨(hadded trivial k f hf hvalid).1, fun _ => Int.one_ne_zero⟩
        · exact hadded trivial k f hf hvalid
      · split_ifs <;> rfl
    · exact h.setLoader hl nofun (fun _ _ _ => False.elim) False.elim
  | symbols k =>
    dsimp only at hs
    split at hs
    · cases hs
      refine h.setLoader hl nofun (fun mod _ _ hok => ?_) False.elim
      rw [LoadPhase.Ok, if_neg (Nat.not_lt_zero mod)]
      exact hok.2
    next f hf =>
      split at hs <;> cases hs
      next husable =>
        obtain ⟨henabled, hadd⟩ := hadded trivial k f hf husable.1
        refine h.next hl nofun (fun _ => ?_) (fun mod m hmod hok => ?_)
          (fun _ => ⟨trivial, hadded trivial k⟩) rfl
        · rw [LoadPhase.Ok, if_pos rfl]
          refine ⟨husable, f, hf, henabled, ?_, rfl, rfl⟩
          exact Bool.not_eq_false _ ▸ fun hfalse => hadd hfalse husable.2.2
        · rwa [LoadPhase.Ok, if_neg hmod]
      · exact h.setLoader hl nofun (fun _ _ _ hok => ⟨Nat.lt_succ_of_lt hok.1, hok.2⟩) fun _ =>
          trivial
  | check k =>
    cases hs
    exact h.check hfiles hl
  | oldApi k =>
    cases hs
    exact h.next hl nofun (fun hcbr => absurd rfl hcbr)
      (fun _ _ hmod hok => ⟨Nat.lt_succ_of_lt (hok hmod).1, (hok hmod).2⟩)
      (fun _ => ⟨trivial, hadded trivial k⟩) rfl
  | init k =>
    dsimp only at hs
    split at hs
    · split at hs <;> cases hs
      next husable => exact h.callInit hl husable
      next husable =>
        refine h.setLoader hl nofun (fun mod m hm hok => LoadPhase.ok_init_succ ?_ hok) False.elim
        rintro rfl
        rw [LoadPhase.Ok, if_neg (Nat.lt_irrefl mod)] at hok
        exact husable (hm ▸ hok.usable)
    next hge =>
      cases hs
      refine h.setLoader hl nofun (fun mod _ _ hok => ?_) False.elim
      rw [LoadPhase.Ok] at hok
      split_ifs at hok
      · exact hok
      · have := hok.lt
        omega
  | initFailed k err =>
    cases hs
    exact h.next hl nofun (fun _ hne => absurd rfl hne) (fun _ _ _ hok => hok) False.elim rfl
  | initDisable k =>
    cases hs
    exact h.next hl nofun (fun hcbr => absurd rfl hcbr)
      (fun _ _ hmod hok => LoadPhase.ok_init_succ hmod (hok hmod)) False.elim rfl
  | done => cases hs

theorem loadStep_frame {ok : Bool} (hs : s.loadStep files ok = some t) :
    t.execs = s.execs ∧ t.calls = s.calls ∧ s.loader ≠ .done := by
  rw [ModuleList.loadStep] at hs
  generalize hloader : s.loader = l at hs
  cases l <;> dsimp only at hs <;> (repeat' split at hs) <;> cases hs <;> simp [setLoader, setEntry]

/-! ### Calls -/

/-- The next callback in a table: it is called if it matches, and then the call is in the table of
the module or has returned. -/
theorem execInside_eq (s : ModuleList) (e : ℕ) (kind : ExecKind) (mod t : ℕ) (rest : List ℕ) (i : ℕ)
    (pass ret : Bool) :
    ∃ next : Option ExecPhase,
      s.execInside e kind mod t rest i pass ret =
        (if kind.Matches t then s.callHandler mod else s).setExec e kind next ∧
      ∀ phase ∈ next, ∃ cbr i' pass', phase = .inside mod cbr i' pass' := by
  have hmaybe (b : Bool) : ∀ phase ∈ (if b then some (ExecPhase.inside mod rest 0 true) else none),
      ∃ cbr i' pass', phase = .inside mod cbr i' pass' := by
    intro phase hphase
    cases b with
    | false => cases hphase
    | true =>
      cases hphase
      exact ⟨rest, 0, true, rfl⟩
  fun_cases execInside s e kind mod t rest i pass ret with
  | case1 => exact ⟨_, by rw [if_pos (show ExecKind.Matches (.cbr t) t from rfl)], hmaybe ret⟩
  | case2 type ht =>
    exact ⟨some _, by rw [if_neg (show ¬ ExecKind.Matches (.cbr type) t from ht)], hmaybe true⟩
  | case3 arg hkey =>
    refine ⟨_, by rw [if_pos (show ExecKind.Matches (.keys arg) t from .inl hkey)], ?_⟩
    split_ifs
    · rintro phase ⟨⟩
      exact ⟨_, _, _, rfl⟩
    · exact hmaybe true
    · exact hmaybe false
  | case4 arg _ hraw =>
    exact ⟨_, by rw [if_pos (show ExecKind.Matches (.keys arg) t from .inr hraw)], hmaybe ret⟩
  | case5 arg hkey hraw =>
    exact ⟨some _, by rw [if_neg (show ¬ ExecKind.Matches (.keys arg) t from
      not_or.2 ⟨hkey, hraw⟩)], hmaybe true⟩

/-! ### The invariant -/

/-- What is known of a call. -/
def ExecOk (s : ModuleList) : ExecPhase → Prop
  | .read _ => True
  | .test mod cbr => mod < moduleCountMax ∧ (cbr ≠ none → (s.entries mod).Started)
  | .inside mod _ _ _ => (s.entries mod).Ready

/-- Callbacks are called only when all modules have been loaded and none is being unloaded. Then the
modules with a table have been initialised, and those whose table is used are ready. -/
structure Inv (files : List ModuleFile) (s : ModuleList) : Prop where
  loading : Loading files s
  running : s.execs ≠ [] → GateOp.Good s (.execBegin (.cbr 0))
  execs : ∀ exec ∈ s.execs, s.ExecOk exec.phase
  gated : s.Gated

theorem Inv.init : ModuleList.init.Inv files :=
  ⟨⟨fun _ h => absurd rfl h, fun _ _ _ _ => nofun, fun _ _ => rfl⟩, fun h => absurd rfl h, nofun,
    nofun⟩

section

variable (h : s.Inv files)

include h

theorem Inv.load (hfiles : ∀ f ∈ files, f.Ok) {ok : Bool} (hs : s.loadStep files ok = some t) :
    t.Inv files := by
  obtain ⟨hexecs, hcalls, hdone⟩ := loadStep_frame hs
  have hnil : t.execs = [] := hexecs.trans (not_not.1 fun hne => hdone (h.running hne).1)
  refine ⟨h.loading.loadStep hfiles hs, fun hne => absurd hnil hne, by simp [hnil], ?_⟩
  rw [Gated, hcalls]
  exact h.gated

/-- When all modules have been loaded, flags of an entry change. -/
theorem Inv.setFlags (hdone : s.loader = .done) {unloaded valid : Bool}
    (hvalid : s.execs ≠ [] → unloaded = (s.entries k).unloaded ∧ valid = false) :
    (s.setEntry k { s.entries k with unloaded, valid }).Inv files := by
  have hentry (mod : ℕ) : (s.setEntry k { s.entries k with unloaded, valid }).entries mod =
      if mod = k then { s.entries k with unloaded, valid } else s.entries mod := update_apply ..
  refine ⟨⟨fun mod hcbr => ?_, fun hearly => ?_, fun hne => absurd hdone hne⟩,
    fun hne => ⟨hdone, fun mod hlt => ?_⟩, fun exec hexec => ?_, h.gated⟩
  · have hok := h.loading.ok mod
    rw [hentry] at hcbr ⊢
    change s.loader.Ok files mod _
    rw [hdone] at hok ⊢
    split_ifs at hcbr ⊢ with hmod
    · subst hmod
      exact ⟨(hok hcbr).initReturned, (hok hcbr).error, (hok hcbr).deinit⟩
    · exact hok hcbr
  · exact absurd (show s.loader.Early from hearly) (by simp [hdone, LoadPhase.Early])
  · rw [hentry]
    split_ifs with hmod
    · exact fun _ _ => (hvalid hne).2
    · exact (h.running hne).2 mod hlt
  · have hsame := (hvalid (ne_nil_of_mem hexec)).1
    have hok := h.execs exec hexec
    cases hphase : exec.phase with
    | read => trivial
    | test mod cbr =>
      rw [hphase] at hok
      refine ⟨hok.1, fun hcbr => ?_⟩
      rw [hentry]
      split_ifs with hmod
      · subst hmod
        exact ⟨(hok.2 hcbr).initReturned, (hok.2 hcbr).error, (hok.2 hcbr).deinit⟩
      · exact hok.2 hcbr
    | inside mod cbr i pass =>
      rw [hphase] at hok
      change (ModuleList.entries _ mod).Ready
      rw [hentry]
      split_ifs with hmod
      · subst hmod
        exact ⟨hok.1, hok.2.1, hsame.trans hok.2.2⟩
      · exact hok

theorem Inv.unload (hgood : (GateOp.unload mod).Good s) : (s.unload mod).Inv files := by
  rw [ModuleList.unload]
  split_ifs
  · exact h.setFlags hgood.1 fun hne => absurd hgood.2 hne
  · exact h

theorem Inv.invalidate (mod : ℕ) : (s.invalidate mod).Inv files := by
  rw [ModuleList.invalidate]
  split_ifs with hunloaded
  · have hdone : s.loader = .done := by
      by_contra hne
      simp [h.loading.unloaded hne mod] at hunloaded
    exact h.setFlags hdone fun _ => ⟨rfl, rfl⟩
  · exact h

theorem Inv.setExec (he : e < s.execs.length) {next : Option ExecPhase}
    (hnext : ∀ phase ∈ next, s.ExecOk phase) : (s.setExec e kind next).Inv files := by
  have hne : s.execs ≠ [] := ne_nil_of_length_pos (by omega)
  cases next with
  | none =>
    exact ⟨⟨h.loading.ok, h.loading.added, h.loading.unloaded⟩, fun _ => h.running hne,
      fun exec hexec => h.execs exec (mem_of_mem_eraseIdx hexec), h.gated⟩
  | some phase =>
    refine ⟨⟨h.loading.ok, h.loading.added, h.loading.unloaded⟩, fun _ => h.running hne,
      fun exec hexec => ?_, h.gated⟩
    rcases mem_or_eq_of_mem_set hexec with hexec | rfl
    · exact h.execs exec hexec
    · exact hnext phase rfl

/-- The call goes on with another module. -/
theorem Inv.setExec_read (he : e < s.execs.length) (mod : ℕ) :
    (s.setExec e kind (some (.read mod))).Inv files := by
  refine h.setExec he fun phase hphase => ?_
  cases hphase
  trivial

theorem Inv.callHandler (hready : (s.entries mod).Ready) : (s.callHandler mod).Inv files :=
  ⟨⟨h.loading.ok, h.loading.added, h.loading.unloaded⟩, h.running, h.execs,
    forall_mem_cons.2 ⟨hready, h.gated⟩⟩

theorem Inv.exec {ret : Bool} (hs : s.execStep e ret = some t) : t.Inv files := by
  obtain ⟨⟨kind, phase⟩, hexec, rfl⟩ := map_eq_some_iff.1 hs
  have hlt : e < s.execs.length := (List.getElem?_eq_some_iff.1 hexec).1
  have hmem := mem_of_getElem? hexec
  obtain ⟨hdone, hquiet⟩ := h.running (ne_nil_of_mem hmem)
  have hok := h.execs _ hmem
  cases phase with
  | read mod =>
    refine h.setExec hlt fun phase hphase => ?_
    split_ifs at hphase with hmod
    · cases hphase
      have hstarted := h.loading.ok mod
      rw [hdone] at hstarted
      exact ⟨hmod, hstarted⟩
    · cases hphase
  | test mod cbr =>
    cases cbr with
    | none => exact h.setExec_read hlt (mod + 1)
    | some cbr =>
      rw [execNext]
      refine h.setExec hlt fun phase hphase => ?_
      cases hphase
      split_ifs with hvalid
      · -- a module that has been unloaded is not valid
        have hstarted := hok.2 (by simp)
        refine ⟨hstarted.initReturned, hstarted.error, Bool.eq_false_iff.2 fun hunloaded => ?_⟩
        simp [hquiet mod hok.1 hunloaded hstarted.deinit] at hvalid
      · trivial
  | inside mod cbr i pass =>
    cases cbr with
    | nil => exact h.setExec_read hlt (mod + 1)
    | cons x rest =>
      obtain ⟨next, heq, hnext⟩ := execInside_eq s e kind mod x rest i pass ret
      simp only [execNext, heq]
      have hstay (phase : ExecPhase) (hphase : phase ∈ next) : s.ExecOk phase := by
        obtain ⟨cbr, i', pass', rfl⟩ := hnext phase hphase
        exact hok
      split_ifs
      · exact (h.callHandler hok).setExec hlt hstay
      · exact h.setExec hlt hstay

theorem Inv.step (hfiles : ∀ f ∈ files, f.Ok) (hgood : op.Good s) (hs : op.step files s = some t) :
    t.Inv files := by
  cases op with
  | load ok => exact h.load hfiles hs
  | unload mod =>
    cases hs
    exact h.unload hgood
  | invalidate mod =>
    cases hs
    exact h.invalidate mod
  | execBegin kind =>
    cases hs
    refine ⟨⟨h.loading.ok, h.loading.added, h.loading.unloaded⟩, fun _ => hgood,
      fun exec hexec => ?_, h.gated⟩
    rcases mem_append.1 hexec with hexec | hexec
    · exact h.execs exec hexec
    · rw [mem_singleton.1 hexec]
      trivial
  | exec e ret => exact h.exec hs

end

end ModuleList

end MagicLantern.Modules
