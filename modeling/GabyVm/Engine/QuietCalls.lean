import GabyVm.Engine.Frames
import GabyVm.Engine.Reentry

/-!
# Quiet calls

A nested call is quiet when it finds the guarded control stack empty and its
run returns from all of its own calls, for the return that ends it pops
whatever entry is there.  Registers and memory apart, a callback whose calls
are quiet leaves no trace but in hidden state.
-/

namespace GabyVm.Aarch64

/-- The settings of the interpreter; no instruction changes them. -/
structure Settings where
  vectorLength : Nat
  guardPages : Bool
  gcsEnabled : Bool

def Core.settings (c : Core) : Settings := ⟨c.vectorLength, c.guardPages, c.gcsEnabled⟩

end GabyVm.Aarch64

namespace GabyVm.Engine

open GabyVm.Aarch64
open GabyVm.Cache
open GabyVm.Foundation

variable {τ : Type}

/-! ## Callbacks and their execution calls -/

section Callbacks

variable (E : Env) (H : Host τ) (nested : ExecCall → Act τ Bool)

/-- `ok` holds of every execution call that the program makes. -/
def HostProg.Calls {α : Type} (ok : ExecCall → World τ → Prop) : HostProg τ α → World τ → Prop
  | .ret _, _ => True
  | .getHost next, w => (next w.host).Calls ok w
  | .setHost t next, w => next.Calls ok { w with host := t }
  | .readAll next, w => (next w.sim.readAll).Calls ok w
  | .write r next, w => ∀ v, writeRegister r w = .ok () v → next.Calls ok v
  | .readMemory a next, w => (next (w.core.memory a)).Calls ok w
  | .writeMemory a b next, w => next.Calls ok (w.writeByte a b)
  | .exec call next, w =>
      ok call w ∧ ∀ more v, nested call w = .ok more v → (next more).Calls ok v
  | .registerCodeRange start sizeBytes alloc next, w =>
      (next (w.register E start sizeBytes alloc).1).Calls ok
        (w.register E start sizeBytes alloc).2
  | .setTraceParameters parameters next, w => next.Calls ok (w.setTraceParameters parameters)

/-- What holds of the callbacks that a step makes. -/
structure StepCallbacks (hookOk : Addr → World τ → Prop)
    (storeOk : MemoryWriteEvent → World τ → Prop) (track : Track) (w : World τ) : Prop where
  hook : ∀ found u target c, dispatch E track w = .ok found u →
    found.2.branchStep E w.core.instr (visitCore w.core found.1) = some (.commit target c) →
    hookOk target (u.setCore c)
  store : ∀ hash run u, dispatch E track w = .ok (hash, .leaf run) u →
    LeafCallbacks E H nested storeOk (run w.core.instr (visitCore w.core hash))
      (u.setCore (visitCore w.core hash))

def HookCalls (ok : ExecCall → World τ → Prop) (target : Addr) (asked : World τ) : Prop :=
  ∀ hook, H.branchHook = some hook →
    (hook target).Calls E nested ok (asked.log (.branch (branchEvent asked target)))

def StoreCalls (ok : ExecCall → World τ → Prop) (event : MemoryWriteEvent)
    (asked : World τ) : Prop :=
  ∀ observer, H.memoryWriteObserver = some observer →
    (observer event).Calls E nested ok (asked.log (.memoryWrite event))

end Callbacks

/-- The world in which a call takes its first step. -/
def World.start (w : World τ) (call : ExecCall) : World τ :=
  match call.entry? with
  | none => w.entered call
  | some entry => (w.entered call).setCore ((w.entered call).core.writePc entry)

/--
A nested call that returns and leaves the guarded control stack alone: it finds
it empty, its run is well nested and leaves all of its frames, and the calls of
its own callbacks satisfy `ok`.
-/
structure QuietCall (E : Env) (H : Host τ) (fuel : Nat) (ok : ExecCall → World τ → Prop)
    (call : ExecCall) (w : World τ) : Prop where
  gcsEmpty : w.core.gcsPeek = 0
  returns : ∃ n more trail,
    follow E H (runCall E H fuel) (List.replicate n call.track) (w.start call) [] = some trail ∧
    runCall E H (fuel + 1) call w =
      .ok more { trail.world with sim := trail.world.sim.leave w.sim } ∧
    trail.frames = [] ∧ Move.answered ∉ trail.moves ∧
    trail.world.core.settings = w.core.settings ∧
    ∀ pre, pre ++ [call.track] <+: List.replicate n call.track →
      ∀ t, follow E H (runCall E H fuel) pre (w.start call) [] = some t →
        StepCallbacks E H (runCall E H fuel) (HookCalls E H (runCall E H fuel) ok)
          (StoreCalls E H (runCall E H fuel) ok) call.track t.world

def Quiet (E : Env) (H : Host τ) : Nat → ExecCall → World τ → Prop
  | 0, _, _ => False
  | fuel + 1, call, w => QuietCall E H fuel (Quiet E H fuel) call w

/-! ## What a quiet call keeps -/

variable {E : Env} {H H₀ : Host τ} {nested : ExecCall → Act τ Bool} {fuel : Nat}
  {calls : ExecCall → Prop} {writes : RegisterWrite → Prop}

/-- Registers, memory and the hidden state apart, the guest cannot tell `v` from `w`. -/
structure KeptBy (w v : World τ) : Prop where
  cursor : v.sim.saveCursor = w.sim.saveCursor
  busy : v.sim.busy = true
  trace : v.sim.trace = w.sim.trace
  settings : v.core.settings = w.core.settings
  gcs : v.core.gcs = w.core.gcs

theorem KeptBy.trans {u v w : World τ} (h : KeptBy u v) (h' : KeptBy v w) : KeptBy u w where
  cursor := h'.cursor.trans h.cursor
  busy := h'.busy
  trace := h'.trace.trans h.trace
  settings := h'.settings.trans h.settings
  gcs := h'.gcs.trans h.gcs

theorem keepsUnseen (E : Env) (w : World τ) :
    HostInvariant E RegisterWrite.KeepsPosition (KeptBy w) (fun _ _ => True) where
  setHost v t h := ⟨h.cursor, h.busy, h.trace, h.settings, h.gcs⟩
  write r v hr h := by
    refine writeRegister_frame r (fun x hkept _ => ?_) (fun _ => ?_) (fun _ _ => trivial)
    · obtain ⟨hpc, hmodified, hbtype, hnext⟩ := hkept hr
      refine ⟨?_, h.busy, h.trace, h.settings, h.gcs⟩
      rw [← h.cursor]
      simp only [Sim.saveCursor, World.setCore, Sim.setCore, rewritten, hpc, hmodified, hbtype, hnext]
      rfl
    · exact ⟨h.cursor, h.busy, h.trace, h.settings, h.gcs⟩
  writeByte v a b h := ⟨h.cursor, h.busy, h.trace, h.settings, h.gcs⟩
  register v start sizeBytes alloc h := by
    unfold World.register
    cases v.cache <;> exact ⟨h.cursor, h.busy, h.trace, h.settings, h.gcs⟩
  setTraceParameters v parameters h := ⟨h.cursor, h.busy, h.trace, h.settings, h.gcs⟩

/-- The rule for host programs whose execution calls satisfy `ok` where they are made. -/
theorem HostInvariant.runCalls {α : Type} {P : World τ → Prop}
    (h : HostInvariant E writes P (fun _ _ => True)) {ok : ExecCall → World τ → Prop}
    (hok : ∀ call w, ok call w → P w →
      (nested call w).Ensures (fun _ v => P v) (fun _ _ => True))
    {p : HostProg τ α} (hp : p.Within calls writes) {w : World τ}
    (hcalls : p.Calls E nested ok w) (hw : P w) :
    (p.run E nested w).Ensures (fun _ v => P v) (fun _ _ => True) := by
  induction hp generalizing w with
  | ret a => exact hw
  | getHost _ ih => exact ih w.host hcalls hw
  | setHost _ ih => exact ih hcalls (h.setHost w _ hw)
  | readAll _ ih => exact ih w.sim.readAll hcalls hw
  | @write r _ hr _ ih =>
      have hwrite := h.write r w hr hw
      simp only [HostProg.run]
      cases hresult : writeRegister r w with
      | ok u v =>
          rw [hresult] at hwrite
          exact ih (hcalls v hresult) hwrite
      | abort reason v => trivial
      | timeout => trivial
  | readMemory _ ih => exact ih (w.core.memory _) hcalls hw
  | writeMemory _ ih => exact ih hcalls (h.writeByte w _ _ hw)
  | @exec call _ _ _ ih =>
      have hcall := hok call w hcalls.1 hw
      simp only [HostProg.run]
      cases hresult : nested call w with
      | ok more v =>
          rw [hresult] at hcall
          exact ih more (hcalls.2 more v hresult) hcall
      | abort reason v => trivial
      | timeout => trivial
  | registerCodeRange _ ih => exact ih _ hcalls (h.register w _ _ _ hw)
  | setTraceParameters _ ih => exact ih hcalls (h.setTraceParameters w _ hw)

theorem callback_kept {α : Type} (hquiet : ∀ call w, Quiet E H fuel call w → w.sim.busy = true →
      (runCall E H fuel call w).Ensures (fun _ v => KeptBy w v) (fun _ _ => True))
    {p : HostProg τ α} (hp : p.Within calls RegisterWrite.KeepsPosition) {w : World τ}
    (hcalls : p.Calls E (runCall E H fuel) (Quiet E H fuel) w) (hbusy : w.sim.busy = true) :
    (p.run E (runCall E H fuel) w).Ensures (fun _ v => KeptBy w v) (fun _ _ => True) := by
  refine (keepsUnseen E w).runCalls ?_ hp hcalls ⟨rfl, hbusy, rfl, rfl, rfl⟩
  intro call u hcall hu
  exact (hquiet call u hcall hu.busy).mono (fun _ _ hv => hu.trans hv) (fun _ _ _ => trivial)

theorem start_eq (w : World τ) (call : ExecCall) :
    (w.start call).core.gcs = w.core.gcs ∧ (w.start call).sim.busy = true := by
  unfold World.start
  cases call.entry? <;> exact ⟨rfl, rfl⟩

theorem leave_kept {v : World τ} {s : Sim} (hbusy : s.busy = true) :
    (v.sim.leave s).saveCursor = s.saveCursor ∧ (v.sim.leave s).trace = s.trace ∧
      (v.sim.leave s).core.settings = v.core.settings ∧ (v.sim.leave s).core.gcs = v.core.gcs := by
  simp only [Sim.leave, hbusy, if_true]
  exact ⟨rfl, Tracing.ext_parameters rfl, rfl, rfl⟩

/-- By induction on the nesting, a quiet call keeps what its caller cannot see. -/
theorem quiet_kept (hH : H.Contract) (fuel : Nat) {call : ExecCall} {w : World τ}
    (hquiet : Quiet E H fuel call w) (hbusy : w.sim.busy = true) :
    (runCall E H fuel call w).Ensures (fun _ v => KeptBy w v) (fun _ _ => True) := by
  induction fuel generalizing call w with
  | zero => trivial
  | succ fuel ih =>
      obtain ⟨hempty, n, more, trail, hfollow, hreturn, hframes, hanswered, hsettings, hsteps⟩ :=
        hquiet
      obtain ⟨hstartGcs, hstartBusy⟩ := start_eq w call
      have hcommits : ∀ pre track, pre ++ [track] <+: List.replicate n call.track →
          ∀ t, follow E H (runCall E H fuel) pre (w.start call) [] = some t →
            CommitKeepsGcs E H (runCall E H fuel) track t.world := by
        intro pre track hpre t ht found u target c x hfound hbranch hcommit
        have htrack : track = call.track :=
          List.eq_of_mem_replicate (hpre.subset (by simp))
        subst htrack
        have htbusy := reaches_busy (follow_reaches ht) hstartBusy
        cases hhook : H.branchHook with
        | none =>
            simp only [gabyHookedWritePc, hhook] at hcommit
            cases hcommit
            rfl
        | some hook =>
            obtain ⟨next, y, hrun, -, rfl⟩ := hooked_commit hhook hcommit
            have hkept := (callback_kept (fun _ _ h h' => ih h h')
              (hH.branchHook hook hhook target)
              ((hsteps pre hpre t ht).hook found u target c hfound hbranch hook hhook)
              ((dispatch_begun hfound).busy.trans htbusy)).of_eq_ok hrun
            exact hkept.gcs
      have hgcs := (follow_gcs hfollow hcommits hanswered (by exact hstartGcs) hempty
        (by intro a ha; cases ha)).1
      rw [hframes, List.nil_append] at hgcs
      obtain ⟨hcursor, htrace, hleaveSettings, hleaveGcs⟩ := leave_kept (v := trail.world) hbusy
      have hstill := (runCall_busy E H (fuel + 1) call hbusy).of_eq_ok hreturn
      rw [hreturn]
      exact ⟨hcursor, hstill, htrace, hleaveSettings.trans hsettings, hleaveGcs.trans hgcs⟩

end GabyVm.Engine
