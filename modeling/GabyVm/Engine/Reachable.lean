import GabyVm.Aarch64.GuardedStack
import GabyVm.Engine.Reentry

/-!
# States that a simulator can be in

A property of the interpreter state that branches, leaves and register writes
keep, and that does not speak of the position, holds in every state that a
simulator gets to, whatever its callbacks do.  So the configuration that no
instruction changes stays as it was on construction.
-/

namespace GabyVm.Cache

open GabyVm.Aarch64

/-- Every entry is the predecoding of some word. -/
def PredecodeCache.Decodes (E : Env) (cache : PredecodeCache) : Prop :=
  ∀ r, cache.Registered r → ∀ pc hc, ∃ word, r.entry pc hc = predecodeWord E word

theorem PredecodeCache.decodes_empty (E : Env) : PredecodeCache.empty.Decodes E := by
  rintro r ⟨k, hmem⟩
  cases hmem

theorem PredecodeCache.Decodes.registerCall {E : Env} {cache : PredecodeCache}
    (h : cache.Decodes E) (call : RegisterCall) :
    (cache.registerCall E call).2.Decodes E := by
  intro r hr pc hc
  obtain ⟨k, hmem⟩ := hr
  rcases registerCall_cases E cache call with ⟨hranges, -, -⟩ | ⟨-, -, new, hnew, heq⟩
  · rw [hranges] at hmem
    exact h r ⟨k, hmem⟩ pc hc
  · rw [heq] at hmem
    rcases Foundation.OrderedTable.mem_put.mp hmem with hkr | ⟨hmem, -⟩
    · obtain rfl : r = new := congrArg Prod.snd hkr
      exact ⟨_, hnew.entry_eq (fun _ _ => rfl) hc⟩
    · exact h r ⟨k, hmem⟩ pc hc

theorem namedRows_noLeaf : ∀ row ∈ namedRows, ∀ run, row.2 ≠ .leaf run := by
  have hbranch : ∀ row ∈ branchForms, ∀ run, row.visitor ≠ .leaf run := by
    simp [branchForms]
  intro row hrow run hleaf
  simp only [namedRows, List.mem_append, List.mem_map, List.mem_singleton] at hrow
  rcases hrow with ((⟨row', hrow', rfl⟩ | ⟨form, -, rfl⟩) | ⟨form, -, rfl⟩) | rfl
  · exact hbranch row' hrow' run hleaf
  · cases hleaf
  · cases hleaf
  · cases hleaf

theorem leaf_of_resolveLeaf {E : Env} {hash : FormHash} {run : Leaf}
    (h : (resolveLeaf E hash).getD .unimplemented = .leaf run) :
    E.leaf hash = some run := by
  simp only [resolveLeaf] at h
  split at h
  · rename_i row hfind
    exact absurd h (namedRows_noLeaf row (List.mem_of_find?_eq_some hfind) run)
  · cases hleaf : E.leaf hash with
    | none =>
        rw [hleaf] at h
        cases h
    | some run' =>
        rw [hleaf] at h
        cases h
        rfl

theorem leaf_of_predecodeWord {E : Env} {word : Word} {run : Leaf}
    (h : (PredecodeCache.predecodeWord E word).leaf = .leaf run) :
    ∃ hash, E.leaf hash = some run := by
  rw [PredecodeCache.predecodeWord] at h
  split at h
  · cases h
  · simp only at h
    exact ⟨_, leaf_of_resolveLeaf h⟩

end GabyVm.Cache

namespace GabyVm.Engine

open GabyVm.Aarch64
open GabyVm.Cache
open GabyVm.Foundation

variable {τ : Type} {E : Env} {H : Host τ} {nested : ExecCall → Act τ Bool} {fuel : Nat}

/-- The cache of the world, if it has one, holds decodings. -/
def World.Decodes (E : Env) (w : World τ) : Prop := ∀ cache, w.cache = some cache → cache.Decodes E

theorem World.Decodes.register {w : World τ} (h : w.Decodes E) (start sizeBytes : Addr)
    (alloc : PredecodeCache.Allocation) :
    (w.register E start sizeBytes alloc).2.Decodes E := by
  unfold World.register
  cases hcache : w.cache with
  | none =>
      intro cache hnone
      rw [hcache] at hnone
      cases hnone
  | some cache =>
      intro cache' hcache'
      cases hcache'
      exact (h cache hcache).registerCall ⟨w.core.memory, start, sizeBytes, alloc⟩

theorem dispatch_leaf {track : Track} {w u : World τ} {hash : FormHash} {run : Leaf}
    (hcache : w.Decodes E) (h : dispatch E track w = .ok (hash, .leaf run) u) :
    ∃ hash', E.leaf hash' = some run := by
  cases track with
  | debug =>
      obtain ⟨hfound, -⟩ := dispatch_debug_eq_ok h
      have hvisitor : visitorOf E (decodedHash E w.core.instr) = .leaf run :=
        (Prod.mk.inj hfound).2.symm
      exact ⟨_, leaf_of_resolveLeaf hvisitor⟩
  | cache =>
      simp only [dispatch, Action.bind_apply] at h
      obtain ⟨_, v, hassert, hbegin⟩ := Outcome.bind_eq_ok.mp h
      obtain ⟨-, rfl⟩ := Action.require_eq_ok.mp hassert
      simp only [modifyCore_apply, Outcome.bind_ok] at hbegin
      obtain ⟨entry, x, hlookup, hrest⟩ := Outcome.bind_eq_ok.mp hbegin
      obtain ⟨_, y, hcheck, hfound⟩ := Outcome.bind_eq_ok.mp hrest
      have hleaf : entry.leaf = .leaf run := by
        have hvisitor := congrArg (fun o => o.result?.map (·.1.2)) hfound
        exact Option.some.inj hvisitor
      simp only [lookupEntry] at hlookup
      split at hlookup
      · cases hlookup
      · rename_i cache hattached
        split at hlookup
        · cases hlookup
        · rename_i entry' hentry
          cases hlookup
          obtain ⟨r, hc, hrange, rfl⟩ := PredecodeCache.selectEntry_eq_some hentry
          obtain ⟨word, hword⟩ := hcache cache hattached r
            (PredecodeCache.selectRange_registered hrange) _ hc
          rw [hword] at hleaf
          exact leaf_of_predecodeWord hleaf

/-! ## Properties of the interpreter state -/

/-- `I` holds of every state that the leaf hands to an observer or ends in. -/
inductive LeafKeeps (I : Core → Prop) : LeafProg → Prop where
  | done {c : Core} (h : I c) : LeafKeeps I (.done c)
  | abort (message : String) (c : Core) : LeafKeeps I (.abort message c)
  | store {event : MemoryWriteEvent} {c : Core} {next : Core → LeafProg} (h : I c)
      (hnext : ∀ d, I d → LeafKeeps I (next d)) : LeafKeeps I (.store event c next)

/-- Everything but a leaf's position updates keeps `I`, and it does not mention the position. -/
structure CoreInvariant (E : Env) (I : Core → Prop) : Prop where
  write : ∀ r (s s' : Sim), s.write r = .ok s' → I s.core → I s'.core
  memory : ∀ c memory, I c → I { c with memory := memory }
  position : ∀ c pc pcModified lastInstr formHash btype nextBtype, I c → I { c with
    pc := pc, pcModified := pcModified, lastInstr := lastInstr, formHash := formHash
    btype := btype, nextBtype := nextBtype }
  branch : ∀ c c', CommitFrame c c' → I c → I c'
  leaf : ∀ hash run, E.leaf hash = some run → ∀ word c, I c → LeafKeeps I (run word c)

/-- `I` of the interpreter state, with a cache of decodings. -/
structure World.Holds (E : Env) (I : Core → Prop) (w : World τ) : Prop where
  core : I w.core
  decodes : w.Decodes E

theorem finishStep_position (c : Core) :
    ∃ pc, finishStep c = { c with
      pc := pc, lastInstr := c.pc, btype := c.nextBtype, nextBtype := .default } := by
  simp only [finishStep, Core.updateBType, Core.incrementPc]
  split_ifs
  · exact ⟨_, rfl⟩
  · exact ⟨_, rfl⟩

namespace CoreInvariant

variable {I : Core → Prop}

theorem host (h : CoreInvariant E I) :
    HostInvariant E (fun _ => True) (World.Holds (τ := τ) E I) (fun _ _ => True) where
  setHost w t hw := ⟨hw.core, hw.decodes⟩
  write r w _ hw := by
    simp only [writeRegister]
    cases hwrite : w.sim.write r with
    | ok s => exact ⟨h.write r w.sim s hwrite hw.core, hw.decodes⟩
    | error reason => trivial
  writeByte w a b hw := ⟨h.memory _ _ hw.core, hw.decodes⟩
  register w start sizeBytes alloc hw := by
    refine ⟨?_, hw.decodes.register start sizeBytes alloc⟩
    have hcore := hw.core
    unfold World.register
    cases w.cache <;> exact hcore
  setTraceParameters w parameters hw := ⟨hw.core, hw.decodes⟩

variable (hcalls : ∀ call (w : World τ), w.Holds E I →
  (nested call w).Ensures (fun _ v => v.Holds E I) (fun _ _ => True))

include hcalls

theorem notifyStore (h : CoreInvariant E I) (event : MemoryWriteEvent) {w : World τ}
    (hw : w.Holds E I) :
    (notifyStore E H nested event w).Ensures (fun _ v => v.Holds E I) (fun _ _ => True) := by
  unfold Engine.notifyStore
  cases hobs : H.memoryWriteObserver with
  | none => exact hw
  | some observer =>
      exact h.host.run (observer event).within_true (fun call _ => hcalls call)
        ⟨hw.core, hw.decodes⟩

theorem runLeaf (h : CoreInvariant E I) {p : LeafProg} (hp : LeafKeeps I p) {w : World τ}
    (hw : w.Holds E I) :
    (runLeaf E H nested p w).Ensures (fun _ v => v.Holds E I) (fun _ _ => True) := by
  induction hp generalizing w with
  | done hc => exact ⟨hc, hw.decodes⟩
  | abort message c => trivial
  | @store event c next hc _ ih =>
      have hnotify : (Engine.notifyStore E H nested event (w.setCore c)).Ensures
          (fun _ v => v.Holds E I) (fun _ _ => True) :=
        h.notifyStore hcalls event ⟨hc, hw.decodes⟩
      refine hnotify.bind ?_
      intro _ v hv
      exact ih v.core hv.core hv

theorem gabyHookedWritePc (h : CoreInvariant E I) (target : Addr) {w : World τ}
    (hw : w.Holds E I) :
    (gabyHookedWritePc E H nested target w).Ensures (fun _ v => v.Holds E I)
      (fun _ _ => True) := by
  have hcommit (a : Addr) {v : World τ} (hv : v.Holds E I) :
      (v.setCore (v.core.writePc a)).Holds E I :=
    ⟨h.position v.core (addressUntag a) true _ _ _ _ hv.core, hv.decodes⟩
  unfold Engine.gabyHookedWritePc
  cases hhook : H.branchHook with
  | none => exact hcommit target hw
  | some hook =>
      have hrun := h.host.run (hook target).within_true (fun call _ => hcalls call)
        (w := w.log (.branch (branchEvent w target))) ⟨hw.core, hw.decodes⟩
      refine hrun.bind ?_
      intro next v hv
      cases isWordAligned next with
      | true => exact hcommit next hv
      | false => trivial

theorem runVisitor (h : CoreInvariant E I) {v : Visitor}
    (hleaf : ∀ run, v = .leaf run → ∃ hash, E.leaf hash = some run) (word : Word) {w : World τ}
    (hw : w.Holds E I) :
    (runVisitor E H nested v word w).Ensures (fun _ x => x.Holds E I) (fun _ _ => True) := by
  cases hstep : v.branchStep E word w.core with
  | some step =>
      rw [runVisitor_branch E H nested hstep]
      cases step with
      | fallThrough c =>
          rw [branchStep_fallThrough hstep]
          exact hw
      | commit target c =>
          exact h.gabyHookedWritePc hcalls target
            ⟨h.branch w.core c (branchStep_frame hstep) hw.core, hw.decodes⟩
      | abort reason c => trivial
  | none =>
      cases v with
      | unimplemented => exact Action.require_ensures _ _ (fun _ => hw) (fun _ => trivial)
      | unallocated => trivial
      | leaf run =>
          obtain ⟨hash, hrun⟩ := hleaf run rfl
          exact h.runLeaf hcalls (h.leaf hash run hrun word w.core hw.core) hw
      | _ => simp [Visitor.branchStep] at hstep

theorem stepOnce (h : CoreInvariant E I) (track : Track) {w : World τ} (hw : w.Holds E I) :
    (stepOnce E H nested track w).Ensures (fun _ v => v.Holds E I) (fun _ _ => True) := by
  by_cases hpc : w.core.pc = 0
  · simp only [Engine.stepOnce, Core.isSimulationFinished, hpc, BEq.rfl, if_true]
    exact hw
  cases hfound : dispatch E track w with
  | ok found u =>
      rw [stepOnce_visit hpc hfound]
      have hu : (u.setCore (visitCore w.core found.1)).Holds E I := by
        obtain ⟨_, _, rfl⟩ := dispatch_begun hfound
        exact ⟨h.position w.core _ false _ found.1 _ _ hw.core, hw.decodes⟩
      have hvisitor := h.runVisitor (H := H) hcalls (v := found.2)
        (fun run hrun => @dispatch_leaf _ _ _ _ _ found.1 _ hw.decodes (by rw [hfound, ← hrun]))
        w.core.instr hu
      refine hvisitor.bind ?_
      intro _ x hx
      cases hend : conclude E track (lastInstrWasMovprfx w.core) x with
      | ok more v =>
          rw [conclude_eq_ok hend]
          obtain ⟨pc, hfinish⟩ := finishStep_position x.core
          rw [hfinish]
          exact ⟨h.position x.core pc _ _ _ _ _ hx.core, hx.decodes⟩
      | abort reason v => trivial
      | timeout => trivial
  | abort reason u =>
      rw [stepOnce_dispatch hpc, hfound]
      trivial
  | timeout =>
      rw [stepOnce_dispatch hpc, hfound]
      trivial

omit hcalls

theorem leave (h : CoreInvariant E I) {v : World τ} (hv : v.Holds E I) (entered : Sim) :
    ({ v with sim := v.sim.leave entered } : World τ).Holds E I := by
  refine ⟨?_, hv.decodes⟩
  simp only [World.core, Sim.leave]
  split_ifs
  · exact h.position v.core _ _ _ _ _ _ hv.core
  · exact hv.core

theorem runCall (h : CoreInvariant E I) (H : Host τ) (fuel : Nat) (call : ExecCall)
    {w : World τ} (hw : w.Holds E I) :
    (runCall E H fuel call w).Ensures (fun _ v => v.Holds E I) (fun _ _ => True) := by
  induction fuel generalizing call w with
  | zero => trivial
  | succ fuel ih =>
      have hbody : (callBody E H (Engine.runCall E H fuel) fuel call (w.entered call)).Ensures
          (fun _ v => v.Holds E I) (fun _ _ => True) :=
        callBody_ensures call
          (fun u hu => h.stepOnce (fun call _ hv => ih call hv) call.track hu)
          (fun u entry hu => ⟨h.position u.core (addressUntag entry) true _ _ _ _ hu.core,
            hu.decodes⟩) ⟨hw.core, hw.decodes⟩
      cases hcall : Engine.runCall E H (fuel + 1) call w with
      | ok more w' =>
          obtain ⟨v, hv, rfl⟩ := execCall_eq_ok hcall
          exact h.leave (hbody.of_eq_ok hv) w.sim
      | abort reason w' => trivial
      | timeout => trivial

end CoreInvariant

/-! ## The configuration -/

/-- What construction settles and no instruction changes. -/
structure Settled (c : Core) : Prop where
  nzcvMask : c.nzcv.writeIgnoreMask = ~~~writableNzcv
  nzcvValue : c.nzcv.value &&& ~~~writableNzcv = 0
  fpcrMask : c.fpcr.writeIgnoreMask = defaultFpcr.writeIgnoreMask
  vregisterSize : ∀ i, (c.vregisters i).sizeInBytes = 16
  vregisterHigh : ∀ i, (c.vregisters i).value >>> 128 = 0
  vectorLength : c.vectorLength = 128
  guardPages : c.guardPages = false
  gcsEnabled : c.gcsEnabled = true

/-- What a settled state does not mention can be anything. -/
theorem Settled.frame {c c' : Core} (h : Settled c) (hnzcv : c'.nzcv = c.nzcv)
    (hfpcr : c'.fpcr = c.fpcr) (hvregisters : c'.vregisters = c.vregisters)
    (hlength : c'.vectorLength = c.vectorLength) (hguard : c'.guardPages = c.guardPages)
    (hgcs : c'.gcsEnabled = c.gcsEnabled) : Settled c' where
  nzcvMask := hnzcv ▸ h.nzcvMask
  nzcvValue := hnzcv ▸ h.nzcvValue
  fpcrMask := hfpcr ▸ h.fpcrMask
  vregisterSize := hvregisters ▸ h.vregisterSize
  vregisterHigh := hvregisters ▸ h.vregisterHigh
  vectorLength := hlength ▸ h.vectorLength
  guardPages := hguard ▸ h.guardPages
  gcsEnabled := hgcs ▸ h.gcsEnabled

theorem low_high (low : BitVec 128) : low.setWidth 2048 >>> 128 = 0 := by
  apply BitVec.eq_of_getLsbD_eq
  intro i hi
  simp only [BitVec.getLsbD_ushiftRight, BitVec.getLsbD_setWidth]
  rw [BitVec.getLsbD_of_ge low (128 + i) (by omega)]
  simp

theorem writeQ_high {r : SimVRegister} (hsize : r.sizeInBytes = 16)
    (hhigh : r.value >>> 128 = 0) (q : VRegisterValue) :
    (r.writeQ q).value >>> 128 = 0 := by
  have hshort : ¬16 < r.sizeInBytes := by omega
  have hzero : (0 : BitVec 2048) <<< 128 = 0 := BitVec.zero_shiftLeft 128
  simp only [SimVRegister.writeQ, if_neg hshort, hhigh, hzero]
  rw [show (0 : BitVec 2048) ||| BitVec.setWidth 2048 (q.hi ++ q.lo) =
    BitVec.setWidth 2048 (q.hi ++ q.lo) from BitVec.zero_or]
  exact low_high _

theorem writeQ_size (r : SimVRegister) (q : VRegisterValue) :
    (r.writeQ q).sizeInBytes = r.sizeInBytes := by
  simp only [SimVRegister.writeQ]
  split_ifs <;> rfl

theorem setRawValue_and_mask (r : SimSystemRegister) (value : BitVec 32)
    (h : r.value &&& r.writeIgnoreMask = 0) :
    (r.setRawValue value).value &&& r.writeIgnoreMask = 0 := by
  simp only [SimSystemRegister.setRawValue]
  rw [h]
  ext i hi
  simp

theorem Settled.write {r : RegisterWrite} {s s' : Sim} (hwrite : s.write r = .ok s')
    (h : Settled s.core) :
    Settled s'.core := by
  have hsettled := h
  obtain ⟨h₁, h₂, h₃, h₄, h₅, h₆, h₇, h₈⟩ := h
  cases r with
  | gp code value =>
      simp only [Sim.write, Sim.writeGp] at hwrite
      split_ifs at hwrite <;>
        · cases hwrite
          exact hsettled.frame rfl rfl rfl rfl rfl rfl
  | v code value =>
      simp only [Sim.write, Sim.writeV] at hwrite
      split_ifs at hwrite
      cases hwrite
      refine ⟨h₁, h₂, h₃, ?_, ?_, h₆, h₇, h₈⟩
      · intro i
        simp only [Sim.setCore]
        split_ifs
        · rw [writeQ_size]
          exact h₄ _
        · exact h₄ i
      · intro i
        simp only [Sim.setCore]
        split_ifs
        · exact writeQ_high (h₄ _) (h₅ _) value
        · exact h₅ i
  | sys code value =>
      simp only [Sim.write, Sim.writeSys] at hwrite
      split_ifs at hwrite
      · cases hwrite
        refine ⟨h₁, ?_, h₃, h₄, h₅, h₆, h₇, h₈⟩
        have hvalue := setRawValue_and_mask s.core.nzcv value (by rw [h₁, h₂])
        rw [h₁] at hvalue
        exact hvalue
      · cases hwrite
        exact ⟨h₁, h₂, h₃, h₄, h₅, h₆, h₇, h₈⟩
      · cases hwrite
        exact hsettled.frame rfl rfl rfl rfl rfl rfl
      · split at hwrite
        · cases hwrite
          exact hsettled.frame rfl rfl rfl rfl rfl rfl
        · cases hwrite

/-- The leaves of the form table change no configuration. -/
def Env.KeepsSettled (E : Env) : Prop :=
  ∀ hash run, E.leaf hash = some run → ∀ word c, Settled c → LeafKeeps Settled (run word c)

theorem settled_invariant (hE : Env.KeepsSettled E) : CoreInvariant E Settled where
  write r s s' hwrite h := h.write hwrite
  memory _ _ h := h.frame rfl rfl rfl rfl rfl rfl
  position _ _ _ _ _ _ _ h := h.frame rfl rfl rfl rfl rfl rfl
  branch c c' hframe h := by
    obtain ⟨_, _, _, rfl⟩ := hframe
    exact h.frame rfl rfl rfl rfl rfl rfl
  leaf := hE

theorem resetState_settled (mem : Memory) (sp : Addr) : Settled (resetState mem sp) where
  nzcvMask := rfl
  nzcvValue := by
    change (0 : BitVec 32) &&& ~~~writableNzcv = 0
    decide
  fpcrMask := rfl
  vregisterSize _ := rfl
  vregisterHigh i := by
    exact low_high _
  vectorLength := rfl
  guardPages := rfl
  gcsEnabled := rfl

/-! ## Reachable states -/

/--
The states of a simulator between the calls of its embedder: constructed, or
reached by an execution call that returned, with whatever callbacks were
installed for it, by a register write, by registering code in the cache, by an
embedder's own store to guest memory, or after another simulator of the process
has flipped the switch of memory tagging.
-/
inductive Reachable (E : Env) : World τ → Prop where
  | construct (mem : Memory) (stackTop : Addr) (cache : Option PredecodeCache) (t : τ)
      (hcache : ∀ c, cache = some c → ∃ calls, c = PredecodeCache.registerAll E calls) :
      Reachable E ⟨Sim.construct mem stackTop, cache, t, []⟩
  | call {w v : World τ} {more : Bool} (h : Reachable E w) (H : Host τ) (fuel : Nat)
      (call : ExecCall) (hcall : runCall E H fuel call w = .ok more v) : Reachable E v
  | write {w v : World τ} (h : Reachable E w) (r : RegisterWrite)
      (hwrite : writeRegister r w = .ok () v) : Reachable E v
  | registerCall {w : World τ} {cache : PredecodeCache} (h : Reachable E w)
      (hcache : w.cache = some cache) (call : RegisterCall) :
      Reachable E { w with cache := some (cache.registerCall E call).2 }
  | setTraceParameters {w : World τ} (h : Reachable E w) (parameters : BitVec 32) :
      Reachable E (w.setTraceParameters parameters)
  | writeByte {w : World τ} (h : Reachable E w) (a : Addr) (b : BitVec 8) :
      Reachable E (w.writeByte a b)
  | setHost {w : World τ} (h : Reachable E w) (t : τ) : Reachable E { w with host := t }
  | setMteActive {w : World τ} (h : Reachable E w) (active : Bool) :
      Reachable E (w.setCore { w.core with mteActive := active })

/-- What holds between the calls of the embedder. -/
structure AtRest (E : Env) (w : World τ) : Prop extends w.Holds E Settled where
  idle : w.sim.busy = false
  unstaged : w.core.nextBtype = .default

theorem registerAll_decodes (E : Env) (calls : List RegisterCall) :
    (PredecodeCache.registerAll E calls).Decodes E := by
  induction calls using List.reverseRecOn with
  | nil => exact PredecodeCache.decodes_empty E
  | append_singleton calls call ih =>
      rw [PredecodeCache.registerAll_append]
      exact ih.registerCall call

theorem stepOnce_eq_false {track : Track} {w v : World τ}
    (h : stepOnce E H nested track w = .ok false v) :
    v = w := by
  by_cases hpc : w.core.pc = 0
  · simp only [stepOnce, Core.isSimulationFinished, hpc, BEq.rfl, if_true] at h
    cases h
    rfl
  · rw [stepOnce_eq E H nested hpc] at h
    obtain ⟨_, x, -, hend⟩ := Outcome.bind_eq_ok.mp h
    cases hend

/-- A step either does nothing or leaves no branch type staged. -/
theorem stepOnce_unstaged (track : Track) {w : World τ} (hw : w.core.nextBtype = .default) :
    (stepOnce E H nested track w).Ensures (fun _ v => v.core.nextBtype = .default)
      (fun _ _ => True) := by
  cases hstep : stepOnce E H nested track w with
  | ok more v =>
      cases more with
      | true =>
          obtain ⟨-, _, _, x, -, -, rfl⟩ := stepOnce_eq_ok hstep
          obtain ⟨pc, hfinish⟩ := finishStep_position x.core
          rw [hfinish]
          rfl
      | false =>
          rw [stepOnce_eq_false hstep]
          exact hw
  | abort reason v => trivial
  | timeout => trivial

theorem AtRest.call (hE : Env.KeepsSettled E) {w v : World τ} (h : AtRest E w) {call : ExecCall}
    {more : Bool} (hcall : runCall E H fuel call w = .ok more v) :
    AtRest E v := by
  have hholds := ((settled_invariant hE).runCall H fuel call h.toHolds).of_eq_ok hcall
  cases fuel with
  | zero => cases hcall
  | succ fuel =>
      obtain ⟨x, hx, rfl⟩ := execCall_eq_ok hcall
      have hbody : (callBody E H (runCall E H fuel) fuel call (w.entered call)).Ensures
          (fun _ u => u.core.nextBtype = .default) (fun _ _ => True) :=
        callBody_ensures call (fun u hu => stepOnce_unstaged call.track hu)
          (fun u entry hu => hu) h.unstaged
      refine ⟨hholds, ?_, ?_⟩
      · simp [Sim.leave, h.idle]
      · have hunstaged := hbody.of_eq_ok hx
        simp only [World.core, Sim.leave, h.idle, Bool.false_eq_true, if_false]
        exact hunstaged

theorem AtRest.write (hE : Env.KeepsSettled E) {w v : World τ} (h : AtRest E w)
    {r : RegisterWrite} (hwrite : writeRegister r w = .ok () v) :
    AtRest E v := by
  have hholds := ((settled_invariant hE).host.write r w trivial h.toHolds).of_eq_ok hwrite
  have hrest : (writeRegister r w).Ensures
      (fun _ u => u.sim.busy = false ∧ u.core.nextBtype = .default) (fun _ _ => True) := by
    refine writeRegister_frame r (fun x _ hstaged => ⟨h.idle, ?_⟩)
      (fun _ => ⟨h.idle, h.unstaged⟩) (fun _ _ => trivial)
    rcases hstaged with hkept | hdefault
    · exact hkept.trans h.unstaged
    · exact hdefault
  obtain ⟨hidle, hunstaged⟩ := hrest.of_eq_ok hwrite
  exact ⟨hholds, hidle, hunstaged⟩

end GabyVm.Engine
