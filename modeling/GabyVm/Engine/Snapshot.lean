import GabyVm.Aarch64.Scratch
import GabyVm.Engine.Reachable

/-!
# What a register file determines

A register file and the memory determine a run of integer, branch, load and
store, and vector code from an entry point, up to what an earlier run can leave
over: a guarded control stack that a return is compared with, the form of a
MOVPRFX that was stepped alone, a held range that disagrees with a lookup, and
memory tagging.  A run of one state is followed with what is left over in
another, instruction by instruction, to see whether it ever matters.
-/

namespace GabyVm.Engine

open GabyVm.Aarch64
open GabyVm.Cache
open GabyVm.Foundation

variable {τ : Type} {E : Env} {nested nested' : ExecCall → Act τ Bool} {fuel : Nat}

/-! ## Worlds with the same guest -/

/-- What an earlier run leaves over that a step may see. -/
structure Leftover where
  curRange : Option Addr
  kept : Kept

def leftoverOf (w : World τ) : Leftover := ⟨w.sim.curRange, w.core.kept⟩

structure SameOutside (w w' : World τ) : Prop where
  cache : w'.cache = w.cache
  fpsrStorage : w'.sim.fpsrStorage = w.sim.fpsrStorage

/-- The same guest between two steps. -/
structure SameSnapshot (l : Leftover) (w w' : World τ) : Prop extends SameOutside w w' where
  core : w'.core = w.core.swap w'.core.scratch
  leftover : leftoverOf w' = l

/-- The same guest within a step. -/
structure SameStep (l : Leftover) (w w' : World τ) : Prop extends SameOutside w w' where
  core : SameVisit l.kept w.core w'.core
  curRange : w'.sim.curRange = l.curRange

theorem SameStep.setCore {l : Leftover} {k : Kept} {w w' : World τ} {c c' : Core}
    (h : SameStep l w w') (hc : SameVisit k c c') :
    SameStep { l with kept := k } (w.setCore c) (w'.setCore c') :=
  ⟨⟨h.cache, h.fpsrStorage⟩, hc, h.curRange⟩

def Leftover.visited (l : Leftover) (v : Visitor) (word : Word) (c : Core) : Leftover :=
  { l with kept := { l.kept with gcs := gcsAfter v word c l.kept.gcs } }

/-- What is left over when the range of the next instruction has been looked up. -/
def Leftover.lookedUp (l : Leftover) (u : World τ) : Leftover :=
  { l with curRange := u.cache.elim l.curRange fun cache => cache.refreshRange l.curRange u.core.pc }

/-- The leftovers `l` of another state, after the step that `u` makes. -/
def Leftover.next (E : Env) (l : Leftover) (u : World τ) : Leftover :=
  if u.core.isSimulationFinished then l
  else
    match dispatch E .cache u with
    | .ok found _ =>
        let l := l.lookedUp u
        Leftover.visited { l with kept := { l.kept with formHash := found.1 } } found.2 u.core.instr
          (visitCore u.core found.1)
    | _ => l

section Steps

variable {l : Leftover} {w w' : World τ}

theorem SameSnapshot.pc (h : SameSnapshot l w w') : w'.core.pc = w.core.pc := by
  rw [h.core]
  rfl

theorem SameSnapshot.instr (h : SameSnapshot l w w') : w'.core.instr = w.core.instr := by
  rw [h.core]
  rfl

theorem SameSnapshot.wrongBType (h : SameSnapshot l w w') :
    wrongBType w'.core = wrongBType w.core := by
  rw [h.core]
  rfl

end Steps

/-! ## Equal register files -/

/-- What the embedder can see of the guest. -/
structure SameGuestState (w w' : World τ) : Prop where
  file : w'.sim.readAll = w.sim.readAll
  memory : w'.core.memory = w.core.memory

theorem SameGuestState.leave {w w' : World τ} (h : SameGuestState w w') {s s' : Sim}
    (hs : s.busy = false) (hs' : s'.busy = false) :
    SameGuestState { w with sim := w.sim.leave s } { w' with sim := w'.sim.leave s' } := by
  simp only [Sim.leave, hs, hs', Bool.false_eq_true, if_false]
  exact ⟨h.file, h.memory⟩

/-- The typed writes of `WriteAll`, one for every slot. -/
def RegisterFile.writes (f : RegisterFile) : List RegisterWrite :=
  (List.ofFn fun i : Fin 31 => .gp (BitVec.ofNat 8 i) (f.x i)) ++
    [.gp gpSP f.sp, .gp gpPC f.pc] ++
    (List.ofFn fun i : Fin 32 => .v (BitVec.ofNat 8 i) (f.v i)) ++
    [.sys sysNZCV f.nzcv, .sys sysFPCR f.fpcr, .sys sysFPSR f.fpsr, .sys sysBType f.btype]

def writeEach : List RegisterWrite → Act τ Unit
  | [] => pure ()
  | r :: rest => do
      writeRegister r
      writeEach rest

def writeAll (f : RegisterFile) : Act τ Unit := writeEach f.writes

/-- The cache, and the guest apart from its registers. -/
structure SameStore (w v : World τ) : Prop where
  cache : v.cache = w.cache
  memory : v.core.memory = w.core.memory
  tagging : v.core.tagging = w.core.tagging

theorem SameStore.trans {u v w : World τ} (h : SameStore u v) (h' : SameStore v w) :
    SameStore u w :=
  ⟨h'.cache.trans h.cache, h'.memory.trans h.memory, h'.tagging.trans h.tagging⟩

section Undisturbed

variable {mem : Memory} {l : Leftover} {u : World τ}

end Undisturbed

/-! ## A leftover return address -/

end GabyVm.Engine
