import GabyVm.Engine.SameGuest
import GabyVm.Engine.StoreEvents

/-!
# Isolation of simulators

As long as no other guest flips the memory-tagging switch, no guest switches
stacks and every step keeps to its own memory, a simulator goes through the
states that it goes through alone in the process, up to the abort of another,
which ends the process.
-/

namespace GabyVm.Engine

open GabyVm.Aarch64
open GabyVm.Cache
open GabyVm.Foundation

variable {τ : Type} {X : Embedding τ} {R : Regions} {i j : Nat}

/-! ## Steps -/

/-- The words a step reads besides what its visitor reads. -/
structure Fetches (foreign : Region) (c : Core) : Prop where
  pc : Fetched foreign c.pc
  lastInstr : lastInstrWasMovprfx c = true → Fetched foreign c.lastInstr

/--
A step of simulator `j` that simulator `i` cannot notice: it keeps to the memory
of `j`, switches no stack, and flips the memory-tagging switch only if `j` is `i`.
-/
structure KeepsApart (X : Embedding τ) (R : Regions) (i j : Nat) (track : Track) (p : Process τ)
    (m : Member τ) : Prop where
  fetches : Fetches (R.foreign j) (p.load m).core
  shared : ∀ op, sharedVisit? (X.env p.mteActive) track (p.load m) = some op →
    ∃ value, op = .setActive value ∧ (j ≠ i → value = p.mteActive)
  touches : sharedVisit? (X.env p.mteActive) track (p.load m) = none →
    TouchesOnly (R.region j) (R.foreign j)
      (stepOnce (X.env p.mteActive) (X.host j) withoutCalls track) (p.load m)

theorem enterVisit_sameBut {E : Env} {foreign : Region} (track : Track) {w w' : World τ}
    (h : SameBut foreign w w') (hfetch : Fetched foreign w.core.pc) :
    Outcome.Rel (SameBut foreign) (SameBut foreign) (enterVisit E track w)
      (enterVisit E track w') := by
  refine (dispatch_sameBut track h hfetch).bind ?_
  intro found u u' _ _ hu
  have hsame := hu.modify (·.writeFormHash found.1) (fun _ _ => rfl) fun _ => rfl
  have hmovprfx : lastInstrWasMovprfx u'.core = lastInstrWasMovprfx u.core := by
    obtain ⟨mem, -, rfl⟩ := hu
    rfl
  rw [hmovprfx]
  exact .ok hsame

theorem sharedVisit?_sameBut {E : Env} {foreign : Region} (track : Track) {w w' : World τ}
    (h : SameBut foreign w w') (hfetch : Fetched foreign w.core.pc) :
    sharedVisit? E track w' = sharedVisit? E track w := by
  have hfinished : w'.core.isSimulationFinished = w.core.isSimulationFinished := by
    obtain ⟨mem, -, rfl⟩ := h
    rfl
  have hdispatch := dispatch_sameBut (E := E) track h hfetch
  simp only [sharedVisit?, hfinished, h.core.instr hfetch]
  generalize dispatch E track w = o at hdispatch
  generalize dispatch E track w' = o' at hdispatch
  cases hdispatch <;> rfl

/-- Before its visitor a step has changed nothing that its end reads. -/
theorem enterVisit_eq_ok {E : Env} {track : Track} {w u : World τ} {wasMovprfx : Bool}
    (h : enterVisit E track w = .ok wasMovprfx u) :
    wasMovprfx = lastInstrWasMovprfx w.core ∧ ∃ hash, u.core = visitCore w.core hash := by
  obtain ⟨found, v, hfound, hv⟩ := Outcome.bind_eq_ok.mp h
  have hcore := (dispatch_begun hfound).core
  cases hv
  refine ⟨by rw [hcore]; rfl, found.1, ?_⟩
  rw [World.core_setCore, hcore]
  rfl

theorem SameFor.step {p q : Process τ} (h : SameFor R i p q) (track : Track)
    (hapart : ∀ m, p.members i = some m → KeepsApart X R i i track p m) :
    Outcome.Rel (SameFor R i) (SameFor R i) (stepMember X i track p)
      (stepMember X i track q) := by
  obtain ⟨hp, hq⟩ | ⟨m, m', hp, hq, hsame⟩ := h.members
  · simp only [stepMember, hp, hq]
    exact .ok h
  have hm := hapart m hp
  have hshared := sharedVisit?_sameBut (E := X.env p.mteActive) track hsame hm.fetches.pc
  simp only [stepMember, hp, hq, h.mteActive, hshared, hsame.core.instr hm.fetches.pc]
  cases hop : sharedVisit? (X.env p.mteActive) track (p.load m) with
  | none => exact h.onMember hp hq ((hm.touches hop).reads _ hsame)
  | some op =>
      obtain ⟨value, rfl, -⟩ := hm.shared op hop
      refine (h.onMember hp hq (enterVisit_sameBut track hsame hm.fetches.pc)).bind ?_
      intro wasMovprfx r r' hr hr' hsame'
      obtain ⟨u, hu, rfl⟩ := onMember_eq_ok hp hr
      obtain ⟨u', -, rfl⟩ := onMember_eq_ok hq hr'
      obtain ⟨rfl, hash, hcore⟩ := enterVisit_eq_ok hu
      have hflipped := hsame'.setActive value
      have hmember : (p.save i m.gcs u).members i = some ⟨u, m.gcs⟩ := if_pos rfl
      have hmember' : (q.save i m'.gcs u').members i = some ⟨u', m'.gcs⟩ := if_pos rfl
      have hloaded : ({ p.save i m.gcs u with mteActive := value }.load ⟨u, m.gcs⟩).core =
          u.core := by
        have hsaved := congrArg World.core (p.load_save i m.gcs u)
        exact hsaved
      refine hflipped.onMember hmember hmember'
        (conclude_sameBut track (hflipped.loaded hmember hmember') ?_)
      rw [hloaded, hcore]
      exact fun hmovprfx => ⟨hm.fetches.pc, hm.fetches.lastInstr hmovprfx⟩

/-- No step of another simulator is noticed. -/
theorem SameFor.stepOther {p q p' : Process τ} (h : SameFor R i p q) (hj : j ≠ i) (track : Track)
    (hapart : ∀ m, p.members j = some m → KeepsApart X R i j track p m) {more : Bool}
    (hstep : stepMember X j track p = .ok more p') : SameFor R i p' q := by
  cases hp : p.members j with
  | none =>
      simp only [stepMember, hp] at hstep
      cases hstep
      exact h
  | some m =>
      have hm := hapart m hp
      simp only [stepMember, hp] at hstep
      cases hop : sharedVisit? (X.env p.mteActive) track (p.load m) with
      | none =>
          simp only [hop] at hstep
          obtain ⟨w, hw, rfl⟩ := onMember_eq_ok hp hstep
          exact h.saveOther hj hp ((hm.touches hop).writes _ _ hw)
      | some op =>
          obtain ⟨value, rfl, hvalue⟩ := hm.shared op hop
          obtain rfl := hvalue hj
          simp only [hop] at hstep
          obtain ⟨wasMovprfx, r, hr, hrest⟩ := Outcome.bind_eq_ok.mp hstep
          obtain ⟨u, hu, rfl⟩ := onMember_eq_ok hp hr
          obtain ⟨-, hash, hcore⟩ := enterVisit_eq_ok hu
          have hentered : SameFor R i (p.save j m.gcs u) q := by
            refine h.saveOther hj hp ?_
            rw [hcore]
            exact .refl _ _
          have hmember : (p.save j m.gcs u).members j = some ⟨u, m.gcs⟩ := if_pos rfl
          obtain ⟨v, hv, rfl⟩ := onMember_eq_ok hmember hrest
          refine hentered.saveOther hj hmember ?_
          rw [conclude_eq_ok hv, World.core_setCore, finishStep_keepsMemory]
          exact .refl _ _

theorem applySwitch_memory {p p' : Process τ} {m : Member τ} {rt : BitVec 5}
    {switch : GCSManager.Switch} {more : Bool} (h : applySwitch i m rt switch p = .ok more p') :
    p'.memory = p.memory := by
  cases switch with
  | switched manager active result =>
      cases h
      rfl
  | fault fault => cases h
  | asserted condition => cases h
  | failed manager => cases h

theorem visit_memory {E : Env} {word : Word} {op : SharedOp} {p p' : Process τ} {more : Bool}
    (h : SharedOp.visit E i word op p = .ok more p') :
    p'.memory = p.memory := by
  cases op with
  | setActive value =>
      cases h
      rfl
  | gcsss1 =>
      simp only [SharedOp.visit] at h
      split at h
      · cases h
        rfl
      · exact applySwitch_memory h
  | gcsss2 =>
      simp only [SharedOp.visit] at h
      split at h
      · cases h
        rfl
      · exact applySwitch_memory h

theorem stepMember_shared_memory {track : Track} {p p' : Process τ} {m : Member τ} {op : SharedOp}
    (hm : p.members i = some m)
    (hop : sharedVisit? (X.env p.mteActive) track (p.load m) = some op) {more : Bool}
    (h : stepMember X i track p = .ok more p') :
    p'.memory = p.memory := by
  simp only [stepMember, hm, hop] at h
  obtain ⟨wasMovprfx, q, hq, hrest⟩ := Outcome.bind_eq_ok.mp h
  obtain ⟨_, r, hr, hend⟩ := Outcome.bind_eq_ok.mp hrest
  have hentered : q.memory = p.memory := by
    refine onMember_memory hq ?_
    intro m u hu
    obtain ⟨-, hash, hcore⟩ := enterVisit_eq_ok hu
    rw [hcore]
    rfl
  have hended : p'.memory = r.memory := by
    refine onMember_memory hend ?_
    intro m v hv
    rw [conclude_eq_ok hv, World.core_setCore, finishStep_keepsMemory]
    rfl
  rw [hended, visit_memory hr, hentered]

/-! ## Construction, destruction and register writes -/

theorem Process.load_fresh (p : Process τ) (i : Nat) (stackTop : Addr) (t : τ) :
    ((p.setManager (p.gcsManager.allocateStackInternal.2.setStorage
          p.gcsManager.allocateStackInternal.1.ptr
          (p.gcsManager.allocateStackInternal.2.storage
            p.gcsManager.allocateStackInternal.1.ptr).tail)).setMember i
        (some ⟨p.fresh stackTop t, p.gcsManager.allocateStackInternal.1⟩)).load
      ⟨p.fresh stackTop t, p.gcsManager.allocateStackInternal.1⟩ = p.fresh stackTop t := by
  simp only [Process.load, Process.setMember, Process.setManager, GCSManager.setStorage_self,
    GCSManager.storage_sealed, List.tail_cons]
  rfl

theorem SameFor.construct {p q : Process τ} (h : SameFor R i p q) (stackTop : Addr) (t : τ) :
    Outcome.Rel (SameFor R i) (SameFor R i) (construct i stackTop t p)
      (construct i stackTop t q) := by
  obtain ⟨hp, hq⟩ | ⟨m, m', hp, hq, -⟩ := h.members
  · simp only [Engine.construct, hp, hq]
    refine .ok ⟨h.mteActive, h.cache, h.memory, ?_, h.seated.enter _ _ _, h.seated'.enter _ _ _⟩
    simp only [Process.members_setMember, if_true]
    refine .some ?_
    rw [Process.load_fresh, Process.load_fresh]
    refine ⟨q.memory, h.memory, ?_⟩
    simp only [Process.fresh, h.cache, h.mteActive]
    rfl
  · simp only [Engine.construct, hp, hq]
    exact .ok h

theorem SameFor.constructOther {p q p' : Process τ} (h : SameFor R i p q) (hj : j ≠ i)
    {stackTop : Addr} {t : τ} {more : Bool}
    (hstep : Engine.construct j stackTop t p = .ok more p') :
    SameFor R i p' q := by
  simp only [Engine.construct] at hstep
  cases hp : p.members j with
  | some m =>
      simp only [hp] at hstep
      cases hstep
      exact h
  | none =>
      simp only [hp] at hstep
      cases hstep
      refine h.elsewhere rfl rfl (.refl _ _) (if_neg (Ne.symm hj)) ?_ (h.seated.enter _ _ _)
      intro n hn
      have hptr := (h.seated.holds i n hn).ptr_ne_allocated
      exact (GCSManager.setStorage_ne _ _ hptr).trans (p.gcsManager.storage_allocate hptr)

theorem SameFor.destroy {p q : Process τ} (h : SameFor R i p q) :
    Outcome.Rel (SameFor R i) (SameFor R i) (destroy i p) (destroy i q) := by
  obtain ⟨hp, hq⟩ | ⟨m, m', hp, hq, -⟩ := h.members
  · simp only [Engine.destroy, hp, hq]
    exact .ok h
  · simp only [Engine.destroy, hp, hq, (h.seated.holds i m hp).freeStack,
      (h.seated'.holds i m' hq).freeStack]
    refine .ok ⟨h.mteActive, h.cache, h.memory, ?_, h.seated.leave hp, h.seated'.leave hq⟩
    simp only [Process.members_setMember, if_true]
    exact .none

theorem SameFor.destroyOther {p q p' : Process τ} (h : SameFor R i p q) (hj : j ≠ i)
    {more : Bool} (hstep : Engine.destroy j p = .ok more p') : SameFor R i p' q := by
  simp only [Engine.destroy] at hstep
  cases hp : p.members j with
  | none =>
      simp only [hp] at hstep
      cases hstep
      exact h
  | some m =>
      simp only [hp, (h.seated.holds j m hp).freeStack] at hstep
      cases hstep
      refine h.elsewhere rfl rfl (.refl _ _) (if_neg (Ne.symm hj)) ?_ (h.seated.leave hp)
      intro n hn
      exact p.gcsManager.storage_release _ fun hptr => hj (h.seated.apart j i m n hp hn hptr.symm)

theorem SameFor.writeMember {p q : Process τ} (h : SameFor R i p q) (r : RegisterWrite) :
    Outcome.Rel (SameFor R i) (SameFor R i) (writeMember i r p) (writeMember i r q) := by
  unfold Engine.writeMember
  obtain ⟨hp, hq⟩ | ⟨m, m', hp, hq, hsame⟩ := h.members
  · simp only [Engine.onMember, hp, hq]
    exact .ok h
  · refine h.onMember hp hq ?_
    refine (writeRegister_sameBut r hsame).bind ?_
    intro _ w w' _ _ hw
    exact .ok hw

theorem SameFor.writeOther {p q p' : Process τ} (h : SameFor R i p q) (hj : j ≠ i)
    {r : RegisterWrite} {more : Bool} (hstep : Engine.writeMember j r p = .ok more p') :
    SameFor R i p' q := by
  unfold Engine.writeMember at hstep
  cases hp : p.members j with
  | none =>
      simp only [Engine.onMember, hp] at hstep
      cases hstep
      exact h
  | some m =>
      obtain ⟨w, hw, rfl⟩ := onMember_eq_ok hp hstep
      obtain ⟨_, u, hu, hdone⟩ := Outcome.bind_eq_ok.mp hw
      cases hdone
      refine h.saveOther hj hp ?_
      rw [writeRegister_memory hu]
      exact .refl _ _

/-! ## Whole runs -/

/-- Every step of an operation keeps apart from simulator `i`. -/
def Keeps (X : Embedding τ) (R : Regions) (i : Nat) (op : ProcessOp τ) (p : Process τ) : Prop :=
  ∀ j track m, op = .step j track → p.members j = some m → KeepsApart X R i j track p m

theorem guestState_sameBut {w w' : World τ} (h : SameBut (R.foreign i) w w') :
    guestState (R.own i) w = guestState (R.own i) w' := by
  obtain ⟨mem, hmem, rfl⟩ := h
  have hown : (fun a => if R.own i a then w.core.memory a else 0) =
      fun a => if R.own i a then mem a else 0 := by
    funext a
    cases howned : R.own i a with
    | false => rfl
    | true =>
        have hforeign : ¬R.foreign i a :=
          fun ⟨j, hj, hother⟩ => hj (R.apart j i a hother howned)
        simp only [if_true, hmem a hforeign]
  simp only [guestState, hown]
  rfl

theorem guests_unwinding (X : Embedding τ) (R : Regions) (i : Nat) :
    (guests X R).Unwinding i (SameFor R i) (Keeps X R i) where
  view p q h := by
    obtain ⟨hp, hq⟩ | ⟨m, m', hp, hq, hsame⟩ := h.members
    · simp only [guests, hp, hq, Option.map_none]
    · simp only [guests, hp, hq, Option.map_some, guestState_sameBut hsame]
  own op p q hkeeps hagent h := by
    subst hagent
    cases op with
    | construct i stackTop t => exact h.construct stackTop t
    | write i r => exact h.writeMember r
    | step i track => exact h.step track fun m hm => hkeeps i track m rfl hm
    | destroy i => exact h.destroy
  others op p q hkeeps hagent h more p' hstep := by
    cases op with
    | construct j stackTop t => exact h.constructOther hagent hstep
    | write j r => exact h.writeOther hagent hstep
    | step j track =>
        exact h.stepOther hagent track (fun m hm => hkeeps j track m rfl hm) hstep
    | destroy j => exact h.destroyOther hagent hstep

theorem SameFor.initial (memory : Memory) (cache : Bool → PredecodeCache) (mteActive : Bool) :
    SameFor (τ := τ) R i (.initial memory cache mteActive) (.initial memory cache mteActive) where
  mteActive := rfl
  cache := rfl
  memory := .refl _ _
  guest := .none
  seated := Process.initial_seated memory cache mteActive
  seated' := Process.initial_seated memory cache mteActive

/--
What simulator `i` goes through is what it goes through alone, up to the abort
of another simulator, which ends the process.
-/
structure Isolated (X : Embedding τ) (R : Regions) (i : Nat) (ops : List (ProcessOp τ))
    (start : Process τ) : Prop where
  before : (guests X R).sees i ops start <+:
    (guests X R).sees i ((guests X R).alone i ops) start
  whole : (guests X R).OthersEnd i ops start →
    (guests X R).sees i ops start = (guests X R).sees i ((guests X R).alone i ops) start

theorem simulators_isolated (X : Embedding τ) (R : Regions) (memory : Memory)
    (cache : Bool → PredecodeCache) (mteActive : Bool) (i : Nat) (ops : List (ProcessOp τ))
    (h : (guests X R).Along (Keeps X R i) ops (.initial memory cache mteActive)) :
    Isolated X R i ops (.initial memory cache mteActive) where
  before := (guests_unwinding X R i).sees_beginning h (.initial memory cache mteActive)
  whole hends := (guests_unwinding X R i).sees_eq h (.initial memory cache mteActive) hends

/-- A step writes no memory but that of its simulator. -/
def WritesOwn (X : Embedding τ) (R : Regions) (op : ProcessOp τ) (p : Process τ) : Prop :=
  ∀ j track more p', op = .step j track → stepMember X j track p = .ok more p' →
    AgreeOutside (R.region j) p.memory p'.memory

/-! ## Two guests that reach each other -/

/-- Exceptions, system instructions and a store besides the small programs. -/
def decodeSharing (w : Word) : Metadata :=
  if w == 0xd45bd740 then ⟨"hlt_ex_exception", false⟩
  else if w == 0xd50b7740 then ⟨"sys_cr_systeminstrs", false⟩
  else if w == 0xf9000020 then ⟨"str_64_ldst_pos", false⟩
  else decodeSmall w

def storeChecks (mteActive : Bool) : AccessChecks :=
  { AccessChecks.off with mteActive := mteActive }

def checkedStore (mteActive : Bool) : Leaf := fun w c =>
  (storeX.prog (storeChecks mteActive) w c).getD (.done c)

def sharingEnv (mteActive : Bool) : Env :=
  { smallEnv true with
    decode := decodeSharing
    leaf := fun hash =>
      if hash = formHash "str_64_ldst_pos" then some (checkedStore mteActive) else none }

def quietEmbedding : Embedding Unit where
  env := sharingEnv
  host _ := .none Unit
  noExec _ := Host.none_noExec Unit
  noRegister _ := ⟨nofun, nofun⟩

/-- A page of its own for every simulator, behind the one with the code. -/
def pages : Regions where
  own i a := a.toNat / 4096 == 8 + i
  apart i j a hi hj := by
    have hi' := beq_iff_eq.mp hi
    have hj' := beq_iff_eq.mp hj
    omega

/-! ### Checks of single steps -/

def fetchesCode (w : World Unit) : Bool :=
  w.core.pc.toNat / 4096 == 1 && decide (w.core.pc.toNat % 4096 ≤ 4092)

theorem fetched_of_fetchesCode {w : World Unit} (h : fetchesCode w = true) (j : Nat) :
    Fetched (pages.foreign j) w.core.pc := by
  simp only [fetchesCode, Bool.and_eq_true, beq_iff_eq, decide_eq_true_eq] at h
  rintro k hk ⟨l, -, hown⟩
  have hpage : (w.core.pc + BitVec.ofNat 64 k).toNat / 4096 = 8 + l := beq_iff_eq.mp hown
  rw [BitVec.toNat_add, BitVec.toNat_ofNat] at hpage
  omega

/-- The store of the demonstration, into the page of its simulator. -/
def storesOwn (j : Nat) (c : Core) : Bool :=
  c.instr == 0xf9000020 && addressUntag (readBase c 1) == readBase c 1 &&
    pages.own j (readBase c 1) && decide ((readBase c 1).toNat % 4096 ≤ 4088)

theorem storesOwn_touches {j : Nat} {mteActive : Bool} {c d d' : Core} {foreign : Region}
    (h : storesOwn j c = true) (hbase : readBase d 1 = readBase c 1)
    (hd : SameCore foreign d d') :
    LeafTouches (pages.region j) foreign d.memory (checkedStore mteActive 0xf9000020 d)
      (checkedStore mteActive 0xf9000020 d') := by
  simp only [storesOwn, Bool.and_eq_true, beq_iff_eq, decide_eq_true_eq] at h
  obtain ⟨⟨⟨-, huntag⟩, hown⟩, hroom⟩ := h
  have hop : storeOp? 0xf9000020 = some .STR_x := by decide
  have hoffset : (Word.getImmLSUnsigned 0xf9000020) <<< getSizeLS 0xf9000020 = 0 := by decide
  have hrn : Word.getRn 0xf9000020 = 1 := by decide
  have hsize : StoreOp.size .STR_x = 8 := rfl
  simp only [checkedStore, storeX, StorePath.prog, hop, Option.map_some, Option.getD_some]
  refine loadStoreHelper_touches hd ?_
  intro x hx
  have haddress : addressMode d (Word.getRn 0xf9000020)
      (LoadStoreVisitor.visitLoadStoreUnsignedOffset.offset 0xf9000020 d)
      LoadStoreVisitor.visitLoadStoreUnsignedOffset.mode = readBase c 1 := by
    simp only [addressMode, LoadStoreVisitor.offset, LoadStoreVisitor.mode, hoffset, hrn, hbase]
    simp
  rw [haddress, huntag, hsize, BitVec.toNat_sub] at hx
  have hpage : (readBase c 1).toNat / 4096 = 8 + j := beq_iff_eq.mp hown
  refine beq_iff_eq.mpr ?_
  omega

/-- A branch, or the store into the own page on the debug track. -/
def staysHome (j : Nat) (E : Env) (track : Track) (w : World Unit) : Bool :=
  fetchesCode w && !lastInstrWasMovprfx w.core &&
    match dispatch E track w with
    | .ok found _ =>
        (found.2.branchStep E w.core.instr (visitCore w.core found.1)).isSome ||
          (track == .debug && storesOwn j w.core)
    | .abort _ _ => true
    | .timeout => true

theorem storeX_found {mteActive : Bool} {w u : World Unit} {found : Found}
    (hinstr : w.core.instr = 0xf9000020)
    (h : dispatch (sharingEnv mteActive) .debug w = .ok found u) :
    found = (formHash "str_64_ldst_pos", .leaf (checkedStore mteActive)) := by
  have hdecode : decodeSharing 0xf9000020 = ⟨"str_64_ldst_pos", false⟩ := rfl
  have hhash : decodedHash (sharingEnv mteActive) w.core.instr = formHash "str_64_ldst_pos" := by
    simp only [decodedHash, sharingEnv, hinstr, hdecode]
  have hleaf : (sharingEnv mteActive).leaf (formHash "str_64_ldst_pos") =
      some (checkedStore mteActive) := by
    simp only [sharingEnv, if_true]
  obtain ⟨rfl, -⟩ := dispatch_debug_eq_ok h
  rw [hhash, visitorOf, resolveLeaf_unnamed storeForm_unnamed, hleaf]
  rfl

theorem staysHome_touches {j : Nat} {mteActive : Bool} {track : Track} {w : World Unit}
    {nested : ExecCall → Act Unit Bool}
    (h : staysHome j (sharingEnv mteActive) track w = true) :
    TouchesOnly (pages.region j) (pages.foreign j)
      (stepOnce (sharingEnv mteActive) (.none Unit) nested track) w := by
  simp only [staysHome, Bool.and_eq_true, Bool.not_eq_true'] at h
  obtain ⟨⟨hcode, hpair⟩, hvisit⟩ := h
  refine stepOnce_touchesOnly (fetched_of_fetchesCode hcode j) hpair ?_
  intro found u hfound
  simp only [hfound, Bool.or_eq_true, Bool.and_eq_true, beq_iff_eq] at hvisit
  rcases hvisit with hbranch | ⟨rfl, hstores⟩
  · obtain ⟨step, hstep⟩ := Option.isSome_iff_exists.mp hbranch
    exact branch_touchesOnly rfl hstep
  · have hinstr : w.core.instr = 0xf9000020 := by
      simp only [storesOwn, Bool.and_eq_true, beq_iff_eq] at hstores
      exact hstores.1.1.1
    obtain rfl := storeX_found hinstr hfound
    rw [hinstr]
    refine leaf_touchesOnly rfl ?_
    intro c' hc'
    exact storesOwn_touches hstores rfl hc'

/-! ### Runs -/

def everyStep (check : Nat → Track → Process Unit → Member Unit → Bool) (op : ProcessOp Unit)
    (p : Process Unit) : Bool :=
  match op with
  | .step j track =>
      match p.members j with
      | none => true
      | some m => check j track p m
  | _ => true

def keepsApart (j : Nat) (track : Track) (p : Process Unit) (m : Member Unit) : Bool :=
  (sharedVisit? (sharingEnv p.mteActive) track (p.load m)).isNone &&
    staysHome j (sharingEnv p.mteActive) track (p.load m)

def writesOwn (j : Nat) (track : Track) (p : Process Unit) (m : Member Unit) : Bool :=
  (sharedVisit? (sharingEnv p.mteActive) track (p.load m)).isSome ||
    staysHome j (sharingEnv p.mteActive) track (p.load m)

theorem keeps_of_keepsApart {op : ProcessOp Unit} {p : Process Unit}
    (h : everyStep keepsApart op p = true) : Keeps quietEmbedding pages i op p := by
  rintro j track m rfl hm
  simp only [everyStep, hm, keepsApart, Bool.and_eq_true, Option.isNone_iff_eq_none] at h
  obtain ⟨hshared, hhome⟩ := h
  have hfetch := hhome
  simp only [staysHome, Bool.and_eq_true, Bool.not_eq_true'] at hfetch
  obtain ⟨⟨hcode, hpair⟩, -⟩ := hfetch
  refine ⟨⟨fetched_of_fetchesCode hcode j, ?_⟩, ?_, fun _ => staysHome_touches hhome⟩
  · simp [hpair]
  · intro op hop
    rw [show quietEmbedding.env = sharingEnv from rfl, hshared] at hop
    cases hop

theorem writesOwn_of_check {op : ProcessOp Unit} {p : Process Unit}
    (h : everyStep writesOwn op p = true) : WritesOwn quietEmbedding pages op p := by
  rintro j track more p' rfl hstep
  cases hm : p.members j with
  | none =>
      simp only [stepMember, hm] at hstep
      cases hstep
      exact .refl _ _
  | some m =>
      simp only [everyStep, hm, writesOwn, Bool.or_eq_true] at h
      cases hop : sharedVisit? (sharingEnv p.mteActive) track (p.load m) with
      | some op =>
          rw [stepMember_shared_memory hm hop hstep]
          exact .refl _ _
      | none =>
          have hhome : staysHome j (sharingEnv p.mteActive) track (p.load m) = true := by
            simpa [hop] using h
          have hop' : sharedVisit? (quietEmbedding.env p.mteActive) track (p.load m) = none := hop
          simp only [stepMember, hm, hop'] at hstep
          obtain ⟨v, hv, rfl⟩ := onMember_eq_ok hm hstep
          exact (staysHome_touches hhome).writes more v hv

def sharingStart (cache : Bool → PredecodeCache) (words : List Word) : Process Unit :=
  .initial (memoryOfWords 0x1000 words) cache false

/-- The run shows simulator 1 something else than its own operations alone do. -/
def Interferes (run : List (ProcessOp Unit)) (words : List Word) : Prop :=
  (guests quietEmbedding pages).Along (WritesOwn quietEmbedding pages) run
      (sharingStart (fun _ => .empty) words) ∧
    (guests quietEmbedding pages).sees 1 run (sharingStart (fun _ => .empty) words) ≠
      (guests quietEmbedding pages).sees 1 ((guests quietEmbedding pages).alone 1 run)
        (sharingStart (fun _ => .empty) words)

/-- Whether each operation of simulator 1 succeeds. -/
def succeeds (run : List (ProcessOp Unit)) (words : List Word) : List Bool :=
  ((guests quietEmbedding pages).sees 1 run (sharingStart (fun _ => .empty) words)).map
    (·.result?.isSome)

theorem interferes_of_check {run : List (ProcessOp Unit)} {words : List Word}
    (hown : (guests quietEmbedding pages).checks (everyStep writesOwn) run
      (sharingStart (fun _ => .empty) words) = true)
    (hsees : succeeds run words ≠ succeeds ((guests quietEmbedding pages).alone 1 run) words) :
    Interferes run words :=
  ⟨Agents.along_of_checks (fun _ _ => writesOwn_of_check) hown,
    fun hsame => hsees (by simp only [succeeds, hsame])⟩

/-- Simulator 0 turns memory tagging on; simulator 1 stores at an untagged address. -/
def taggingRun : List (ProcessOp Unit) :=
  [.construct 0 0x7000 (), .construct 1 0x7000 (), .write 0 (.gp gpPC 0x1000),
    .write 1 (.gp gpPC 0x1004), .write 1 (.gp 1 0x9000), .step 0 .debug, .step 1 .debug]

/-- Simulator 0 switches to the stack of simulator 1, which then cannot return. -/
def switchRun : List (ProcessOp Unit) :=
  [.construct 0 0x7000 (), .construct 1 0x7000 (), .write 0 (.gp gpPC 0x100c),
    .write 1 (.gp gpPC 0x1000), .write 0 (.gp 0 0x1005), .step 1 .debug, .step 0 .debug,
    .step 1 .debug]

/-- Simulator 0 runs code that is not registered, and ends the process. -/
def abortRun : List (ProcessOp Unit) :=
  [.construct 0 0x7000 (), .construct 1 0x7000 (), .write 0 (.gp gpPC 0x1000),
    .write 1 (.gp gpPC 0x1000), .write 1 (.gp 1 0x9000), .step 0 .cache, .step 1 .debug]

theorem simulators_interfere :
    Interferes taggingRun [0xd45bd740, 0xf9000020] ∧
      Interferes switchRun [0x94000002, 0, 0xd65f03c0, 0xd50b7740] ∧
      Interferes abortRun [0xf9000020] :=
  ⟨interferes_of_check (by decide +kernel) (by decide +kernel),
    interferes_of_check (by decide +kernel) (by decide +kernel),
    interferes_of_check (by decide +kernel) (by decide +kernel)⟩

/-- The store and a branch back to it, registered. -/
def loopCache (mteActive : Bool) : PredecodeCache :=
  (PredecodeCache.empty.registerCall (sharingEnv mteActive)
    (registerWords 0x1000 [0xf9000020, 0x17ffffff])).2

/-- Both simulators go through the loop, each with stores into its own page. -/
def loopRun : List (ProcessOp Unit) :=
  [.construct 0 0x7000 (), .construct 1 0x7000 (), .write 0 (.gp gpPC 0x1000),
    .write 1 (.gp gpPC 0x1000), .write 0 (.gp 1 0x8000), .write 1 (.gp 1 0x9000),
    .step 0 .debug, .step 1 .debug, .step 0 .cache, .step 1 .cache, .step 0 .debug,
    .destroy 0, .step 1 .debug, .destroy 1]

theorem simulators_isolated_loop :
    Isolated quietEmbedding pages 1 loopRun
      (sharingStart loopCache [0xf9000020, 0x17ffffff]) :=
  simulators_isolated quietEmbedding pages _ _ false 1 loopRun
    (Agents.along_of_checks (fun _ _ => keeps_of_keepsApart) (by decide +kernel))

end GabyVm.Engine
