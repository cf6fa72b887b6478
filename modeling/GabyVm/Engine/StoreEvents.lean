import GabyVm.Aarch64.StorePaths
import GabyVm.Engine.Initial
import GabyVm.Engine.Visits

/-!
# Events of the memory-write observer

A store is reported with the address that the instruction computed and made at
that address without its tag.  Applied at their own addresses, the events of a
step have the effect of the step exactly when no store of it has a tagged
address; that their sizes and their values are right, and that they are those
of the stores made, holds of every step.
-/

namespace GabyVm.Engine

open GabyVm.Aarch64
open GabyVm.Cache
open GabyVm.Foundation

variable {τ : Type}

/-! ## Delivered events -/

def HostEvent.store? : HostEvent → Option MemoryWriteEvent
  | .branch _ => none
  | .memoryWrite e => some e

/-- The observer is called with these events, in this order, between `w` and `v`. -/
def Delivers (w v : World τ) (es : List MemoryWriteEvent) : Prop :=
  ∃ new, v.events = new ++ w.events ∧ new.reverse.filterMap HostEvent.store? = es

theorem Delivers.refl (w : World τ) : Delivers w w [] := ⟨[], rfl, rfl⟩

theorem Delivers.trans {w u v : World τ} {es es' : List MemoryWriteEvent}
    (h : Delivers w u es) (h' : Delivers u v es') :
    Delivers w v (es ++ es') := by
  obtain ⟨new, hu, rfl⟩ := h
  obtain ⟨new', hv, rfl⟩ := h'
  refine ⟨new' ++ new, ?_, ?_⟩
  · rw [hv, hu, List.append_assoc]
  · rw [List.reverse_append, List.filterMap_append]

theorem Delivers.log (w : World τ) (e : MemoryWriteEvent) :
    Delivers w (w.log (.memoryWrite e)) [e] := ⟨[.memoryWrite e], rfl, rfl⟩

theorem Delivers.congr {w v v' : World τ} {es : List MemoryWriteEvent} (h : Delivers w v es)
    (hevents : v'.events = v.events) :
    Delivers w v' es := by
  obtain ⟨new, hv, hnew⟩ := h
  exact ⟨new, hevents.trans hv, hnew⟩

/-! ## Replays -/

/-- Write every event at its own address. -/
def replay (mem : Memory) (es : List MemoryWriteEvent) : Memory :=
  es.foldl (fun mem e => applyAt mem e.address e) mem

/-- Write every event where the memory layer does. -/
def effect (mem : Memory) (es : List MemoryWriteEvent) : Memory :=
  es.foldl (fun mem e => applyAt mem (addressUntag e.address) e) mem

theorem effect_append (mem : Memory) (es es' : List MemoryWriteEvent) :
    effect mem (es ++ es') = effect (effect mem es) es' := List.foldl_append

structure Faithful (e : MemoryWriteEvent) : Prop where
  sized : e.Sized
  fits : e.Fits
  /-- The address is the one written to. -/
  exact : addressUntag e.address = e.address

theorem replay_eq_effect {mem : Memory} {es : List MemoryWriteEvent}
    (h : ∀ e ∈ es, addressUntag e.address = e.address) :
    replay mem es = effect mem es := by
  induction es generalizing mem with
  | nil => rfl
  | cons e es ih =>
      have hrest : replay (applyAt mem e.address e) es = effect (applyAt mem e.address e) es :=
        ih fun e' he' => h e' (List.mem_cons_of_mem e he')
      simp only [replay, effect, List.foldl_cons, h e List.mem_cons_self] at hrest ⊢
      exact hrest

/-! ## Observers -/

section Reports

variable (E : Env) (nested : ExecCall → Act τ Bool) (obs : MemoryWriteEvent → HostProg τ Unit)

/--
A call of the observer that returns, stores through the simulator only, with
faithful events, and leaves alone what the interrupted instruction reads again.
-/
structure HonestCall (e : MemoryWriteEvent) (w v : World τ) : Prop where
  returns : (obs e).run E nested w = .ok () v
  operands : v.core.operands = w.core.operands
  replays : ∃ es, Delivers w v es ∧ v.core.memory = replay w.core.memory es ∧
    ∀ e' ∈ es, Faithful e'

def HonestReport (e : MemoryWriteEvent) (w : World τ) : Prop :=
  ∃ v, HonestCall E nested obs e (w.log (.memoryWrite e)) v

/-- An event of a store with the events that its own call of the observer caused. -/
structure Report where
  event : MemoryWriteEvent
  caused : List MemoryWriteEvent

def Report.all (r : Report) : List MemoryWriteEvent := r.event :: r.caused

/-- The events between `w` and `v` are those of stores to `stores`, with what they caused. -/
structure Reports (stores : List Addr) (w v : World τ) (rs : List Report) : Prop where
  delivers : Delivers w v (rs.flatMap Report.all)
  addresses : rs.map (·.event.address) = stores
  caused : ∀ r ∈ rs, ∃ u u', (obs r.event).run E nested u = .ok () u' ∧ Delivers u u' r.caused

/-- The delivered events are those of the stores made, and replaying them gives the memory. -/
def EventsReplay (stores : List Addr) (w v : World τ) : Prop :=
  ∃ rs, Reports E nested obs stores w v rs ∧
    v.core.memory = replay w.core.memory (rs.flatMap Report.all) ∧
    ∀ e ∈ rs.flatMap Report.all, Faithful e

/-- What holds of the events of every store path. -/
structure Stored (stores : List Addr) (w v : World τ) (rs : List Report) : Prop
    extends Reports E nested obs stores w v rs where
  memory : v.core.memory = effect w.core.memory (rs.flatMap Report.all)
  own : ∀ r ∈ rs, r.event.Sized ∧ r.event.Fits
  others : ∀ r ∈ rs, ∀ e ∈ r.caused, Faithful e

end Reports

section Steps

variable {E : Env} {H : Host τ} {nested : ExecCall → Act τ Bool}
  {obs : MemoryWriteEvent → HostProg τ Unit} {stores : List Addr} {w v : World τ}

theorem Stored.nil (hevents : v.events = w.events) (hmem : v.core.memory = w.core.memory) :
    Stored E nested obs [] w v [] where
  delivers := (Delivers.refl w).congr hevents
  addresses := rfl
  caused := nofun
  memory := hmem
  own := nofun
  others := nofun

theorem Stored.cons {e : MemoryWriteEvent} {c : Core} {u : World τ} {rs : List Report}
    (hsized : e.Sized) (hfits : e.Fits)
    (hmem : c.memory = applyAt w.core.memory (addressUntag e.address) e)
    (hcall : HonestCall E nested obs e ((w.setCore c).log (.memoryWrite e)) u)
    (h : Stored E nested obs stores u v rs) :
    ∃ r, Stored E nested obs (e.address :: stores) w v (r :: rs) := by
  obtain ⟨es, hdelivers, hreplay, hes⟩ := hcall.replays
  have hown : Delivers w ((w.setCore c).log (.memoryWrite e)) [e] :=
    ⟨[.memoryWrite e], rfl, rfl⟩
  rw [replay_eq_effect fun e' he' => (hes e' he').exact] at hreplay
  refine ⟨⟨e, es⟩, ⟨?_, ?_, ?_⟩, ?_, ?_, ?_⟩
  · exact (hown.trans hdelivers).trans h.delivers
  · rw [List.map_cons, h.addresses]
  · exact List.forall_mem_cons.mpr ⟨⟨_, u, hcall.returns, hdelivers⟩, h.caused⟩
  · rw [h.memory, hreplay, ← effect_append]
    change effect c.memory _ = _
    rw [hmem]
    rfl
  · exact List.forall_mem_cons.mpr ⟨⟨hsized, hfits⟩, h.own⟩
  · exact List.forall_mem_cons.mpr ⟨hes, h.others⟩

theorem runLeaf_stored (hobs : H.memoryWriteObserver = some obs) {mem : Memory} {leaf : LeafProg}
    (h : StoresAt stores mem leaf) (hw : w.core.memory = mem)
    (hhonest : LeafCallbacks E H nested (HonestReport E nested obs) leaf w) :
    ∃ v, (runLeaf E H nested leaf w).state? = some v ∧
      ∃ rs, Stored E nested obs stores w v rs := by
  induction h generalizing w with
  | done c => exact ⟨w.setCore c, rfl, [], .nil rfl hw.symm⟩
  | abort message c => exact ⟨w.setCore c, rfl, [], .nil rfl hw.symm⟩
  | @store as mem e c next hsized hfits hmem hnext ih =>
      obtain ⟨⟨u, hcall⟩, hlater⟩ := hhonest
      have hnotify : notifyStore E H nested e (w.setCore c) = .ok () u := by
        simp only [notifyStore, hobs]
        exact hcall.returns
      obtain ⟨v, hv, rs, hrs⟩ := ih u.core hcall.operands rfl (hlater u hnotify)
      subst hw
      obtain ⟨r, hr⟩ := hrs.cons hsized hfits hmem hcall
      refine ⟨v, ?_, r :: rs, hr⟩
      simp only [runLeaf, hnotify, Outcome.bind_ok, hv]

/-- For these events the replay is right exactly when no address has a tag. -/
theorem Stored.replays_iff {rs : List Report} (h : Stored E nested obs stores w v rs) :
    EventsReplay E nested obs stores w v ↔ ∀ a ∈ stores, addressUntag a = a := by
  constructor
  · rintro ⟨rs', hreports, -, hfaithful⟩ a ha
    rw [← hreports.addresses] at ha
    obtain ⟨r, hr, rfl⟩ := List.mem_map.mp ha
    exact (hfaithful r.event
      (List.mem_flatMap.mpr ⟨r, hr, List.mem_cons_self⟩)).exact
  · intro hstores
    have hfaithful : ∀ e ∈ rs.flatMap Report.all, Faithful e := by
      intro e he
      obtain ⟨r, hr, he⟩ := List.mem_flatMap.mp he
      rcases List.mem_cons.mp he with rfl | he
      · refine ⟨(h.own r hr).1, (h.own r hr).2, hstores _ ?_⟩
        rw [← h.addresses]
        exact List.mem_map_of_mem hr
      · exact h.others r hr e he
    refine ⟨rs, h.toReports, ?_, hfaithful⟩
    rw [h.memory, replay_eq_effect fun e he => (hfaithful e he).exact]

/-! ## The step -/

theorem checkMovprfx_keeps (wasMovprfx : Bool) (w : World τ) :
    (checkMovprfx E wasMovprfx w).state? = some w := by
  cases wasMovprfx with
  | false => rfl
  | true =>
      simp only [checkMovprfx, if_true, vixlAssert]
      cases hlast : !E.vixlDebug || w.core.lastInstr != 0 with
      | false => rfl
      | true =>
          simp only [Action.require, if_true, Outcome.bind_ok]
          split_ifs <;> rfl

theorem finishStep_memory (c : Core) : (finishStep c).memory = c.memory := by
  simp only [finishStep, Core.incrementPc, Core.updateBType]
  split_ifs <;> rfl

theorem conclude_keeps (track : Track) (wasMovprfx : Bool) (w : World τ) :
    ∃ v, (conclude E track wasMovprfx w).state? = some v ∧ v.events = w.events ∧
      v.core.memory = w.core.memory := by
  have hcheck := checkMovprfx_keeps (E := E) wasMovprfx w
  simp only [conclude, stepTail, Action.bind_apply]
  cases h : checkMovprfx E wasMovprfx w with
  | ok u x =>
      rw [h] at hcheck
      obtain rfl := Option.some.inj hcheck
      simp only [Outcome.bind_ok, modifyCore_apply]
      cases track with
      | cache => exact ⟨_, rfl, rfl, finishStep_memory x.core⟩
      | debug =>
          simp only [settle, checkAvailable, Action.require]
          split_ifs <;> exact ⟨_, rfl, rfl, finishStep_memory x.core⟩
  | abort reason x =>
      rw [h] at hcheck
      obtain rfl := Option.some.inj hcheck
      exact ⟨_, rfl, rfl, rfl⟩
  | timeout =>
      rw [h] at hcheck
      cases hcheck

theorem stepOnce_stored {track : Track} {u : World τ} {hash : FormHash} {run : Leaf}
    (hobs : H.memoryWriteObserver = some obs) (hpc : w.core.pc ≠ 0)
    (hfound : dispatch E track w = .ok (hash, .leaf run) u)
    (hhonest : LeafCallbacks E H nested (HonestReport E nested obs)
      (run w.core.instr (visitCore w.core hash)) (u.setCore (visitCore w.core hash)))
    (hstores : StoresAt stores w.core.memory (run w.core.instr (visitCore w.core hash))) :
    ∃ v, (stepOnce E H nested track w).state? = some v ∧
      ∃ rs, Stored E nested obs stores w v rs := by
  rw [stepOnce_visit hpc hfound]
  obtain ⟨x, hx, rs, hrs⟩ := runLeaf_stored (w := u.setCore (visitCore w.core hash)) hobs hstores
    rfl hhonest
  have hleaf {x' : World τ} (hevents : x'.events = x.events)
      (hmem : x'.core.memory = x.core.memory) : Stored E nested obs stores w x' rs := by
    obtain ⟨curRange, lastInstruction, rfl⟩ := dispatch_begun hfound
    exact ⟨⟨hrs.delivers.congr hevents, hrs.addresses, hrs.caused⟩, hmem.trans hrs.memory,
      hrs.own, hrs.others⟩
  have hrun : runVisitor E H nested (.leaf run) w.core.instr
      (u.setCore (visitCore w.core hash)) =
      runLeaf E H nested (run w.core.instr (visitCore w.core hash))
        (u.setCore (visitCore w.core hash)) := rfl
  rw [hrun]
  cases hend : runLeaf E H nested (run w.core.instr (visitCore w.core hash))
      (u.setCore (visitCore w.core hash)) with
  | ok a x' =>
      rw [hend] at hx
      obtain rfl := Option.some.inj hx
      obtain ⟨v, hv, hevents, hmem⟩ :=
        conclude_keeps (E := E) track (lastInstrWasMovprfx w.core) x'
      exact ⟨v, hv, rs, hleaf hevents hmem⟩
  | abort reason x' =>
      rw [hend] at hx
      obtain rfl := Option.some.inj hx
      exact ⟨x', rfl, rs, hleaf rfl rfl⟩
  | timeout =>
      rw [hend] at hx
      cases hx

/--
On either track, for every store path, every word and every state: the events
that the observer gets, if it is honest whenever the step calls it, replay to
the effect of the step exactly when no store of it has a tagged address.
-/
theorem eventsReplay_iff {m : AccessChecks} {p : StorePath} {track : Track} {u : World τ}
    {hash : FormHash} {run : Leaf} (hobs : H.memoryWriteObserver = some obs)
    (hpc : w.core.pc ≠ 0) (hfound : dispatch E track w = .ok (hash, .leaf run) u)
    (hhonest : LeafCallbacks E H nested (HonestReport E nested obs)
      (run w.core.instr (visitCore w.core hash)) (u.setCore (visitCore w.core hash)))
    (hpath : p.prog m w.core.instr (visitCore w.core hash) =
      some (run w.core.instr (visitCore w.core hash))) :
    ∃ v, (stepOnce E H nested track w).state? = some v ∧
      (EventsReplay E nested obs (p.stores m w.core.instr (visitCore w.core hash)) w v ↔
        ∀ a ∈ p.stores m w.core.instr (visitCore w.core hash), addressUntag a = a) := by
  have hstores : StoresAt (p.stores m w.core.instr (visitCore w.core hash)) w.core.memory
      (run w.core.instr (visitCore w.core hash)) := StorePath.storesAt hpath
  obtain ⟨v, hv, rs, hrs⟩ := stepOnce_stored hobs hpc hfound hhonest hstores
  exact ⟨v, hv, hrs.replays_iff⟩

end Steps

/-! ## The store of a register -/

def storeX : StorePath := .loadStore .visitLoadStoreUnsignedOffset

def storeLeaf : Leaf := fun w c => (storeX.prog .off w c).getD (.done c)

/-- A decoder that names every word a store of an X register. -/
def storeEnv : Env :=
  { smallEnv true with
    decode := fun _ => ⟨"str_64_ldst_pos", false⟩
    leaf := fun hash => if hash = formHash "str_64_ldst_pos" then some storeLeaf else none }

def listing (e : MemoryWriteEvent) : HostProg (List MemoryWriteEvent) Unit :=
  .getHost fun seen => .setHost (e :: seen) (.ret ())

def listingHost : Host (List MemoryWriteEvent) := ⟨none, some listing⟩

theorem listing_honest (E : Env) (nested : ExecCall → Act (List MemoryWriteEvent) Bool)
    (e : MemoryWriteEvent) (w : World (List MemoryWriteEvent)) :
    HonestReport E nested listing e w :=
  ⟨{ w.log (.memoryWrite e) with host := e :: w.host }, rfl, rfl, [], ⟨[], rfl, rfl⟩, rfl, nofun⟩

/-- About to store X0 at the address in X1. -/
def storing (base : Addr) : World (List MemoryWriteEvent) :=
  let w := (World.load storeEnv 0x1000 [0xf9000020] []).seated .debug 0x1000
  w.setCore (w.core.writeRegister (Core.registerIndex 1) base)

def storeStep (base : Addr) : Outcome Abort (World (List MemoryWriteEvent)) Bool :=
  stepOnce storeEnv listingHost (fun _ => Action.timeout) .debug (storing base)

theorem storing_instr (base : Addr) : (storing base).core.instr = 0xf9000020 := by
  have hword : readWord (memoryOfWords 0x1000 [0xf9000020]) 0x1000 = 0xf9000020 := by
    decide +kernel
  exact hword

theorem storing_pc (base : Addr) : (storing base).core.pc ≠ 0 := by
  have hpc : addressUntag 0x1000 ≠ 0 := by decide
  exact hpc

theorem storeForm_unnamed :
    namedRows.find? (fun row => row.1 == formHash "str_64_ldst_pos") = none := by
  rw [← Option.isNone_iff_eq_none]
  decide +kernel

theorem storing_dispatch (base : Addr) :
    ∃ u, dispatch storeEnv .debug (storing base) =
      .ok (formHash "str_64_ldst_pos", .leaf storeLeaf) u := by
  have haligned : (!true || isWordAligned (addressUntag 0x1000)) = true := by decide
  have hassert : assertAligned storeEnv (storing base) = .ok () (storing base) :=
    Action.require_eq_ok.mpr ⟨haligned, rfl⟩
  have hvisitor : visitorOf storeEnv (formHash "str_64_ldst_pos") = .leaf storeLeaf := by
    have hleaf : storeEnv.leaf (formHash "str_64_ldst_pos") = some storeLeaf := by
      simp only [storeEnv, if_true]
    rw [visitorOf, resolveLeaf_unnamed storeForm_unnamed, hleaf]
    rfl
  refine ⟨((storing base).setCore (beginStep (storing base).core)).audited storeEnv, ?_⟩
  rw [dispatch_debug_eq storeEnv hassert]
  have hbtype : wrongBType (storing base).core = false := rfl
  have hdecode : storeEnv.decode (storing base).core.instr = ⟨"str_64_ldst_pos", false⟩ := rfl
  simp only [hbtype, hdecode, decodedHash, hvisitor, Bool.false_eq_true, if_false]

theorem storeX_prog (base : Addr) (c : Core) :
    storeX.prog .off (storing base).core.instr c =
      some (storeLeaf (storing base).core.instr c) := by
  have hop : (storeOp? 0xf9000020).isSome = true := by decide
  obtain ⟨op, hop⟩ := Option.isSome_iff_exists.mp hop
  simp only [storeLeaf, storing_instr, storeX, StorePath.prog, hop, Option.map_some,
    Option.getD_some]

def storingStores (base : Addr) : List Addr :=
  storeX.stores .off (storing base).core.instr
    (visitCore (storing base).core (formHash "str_64_ldst_pos"))

theorem storing_stores : storingStores 0x2000 = [0x2000] := by decide +kernel

theorem eventsReplay_iff_storing :
    ∃ v, (storeStep 0x2000).state? = some v ∧
      EventsReplay storeEnv (fun _ => Action.timeout) listing (storingStores 0x2000)
        (storing 0x2000) v := by
  obtain ⟨u, hfound⟩ := storing_dispatch 0x2000
  obtain ⟨v, hv, hreplay⟩ := eventsReplay_iff (H := listingHost) rfl (storing_pc _) hfound
    (leafCallbacks_of (listing_honest storeEnv fun _ => Action.timeout) _ _) (storeX_prog 0x2000 _)
  refine ⟨v, hv, hreplay.mpr ?_⟩
  change ∀ a ∈ storingStores 0x2000, _
  rw [storing_stores]
  intro a ha
  obtain rfl := List.mem_singleton.mp ha
  decide

/-- The event of this store names an address that was not written to. -/
theorem taggedStore_misreported :
    ¬∀ (m : AccessChecks) (p : StorePath) (track : Track)
      (w u v : World (List MemoryWriteEvent)) (hash : FormHash) (run : Leaf), w.core.pc ≠ 0 →
        dispatch storeEnv track w = .ok (hash, .leaf run) u →
        p.prog m w.core.instr (visitCore w.core hash) =
          some (run w.core.instr (visitCore w.core hash)) →
        (stepOnce storeEnv listingHost (fun _ => Action.timeout) track w).state? = some v →
        EventsReplay storeEnv (fun _ => Action.timeout) listing
          (p.stores m w.core.instr (visitCore w.core hash)) w v := by
  intro h
  obtain ⟨u, hfound⟩ := storing_dispatch 0x0100000000002000
  have hpath := storeX_prog 0x0100000000002000
    (visitCore (storing 0x0100000000002000).core (formHash "str_64_ldst_pos"))
  have hmakes : StoresAt (storingStores 0x0100000000002000)
      (storing 0x0100000000002000).core.memory
      (storeLeaf (storing 0x0100000000002000).core.instr
        (visitCore (storing 0x0100000000002000).core (formHash "str_64_ldst_pos"))) :=
    StorePath.storesAt hpath
  obtain ⟨v, hv, rs, hrs⟩ := stepOnce_stored (H := listingHost) rfl (storing_pc _) hfound
    (leafCallbacks_of (listing_honest storeEnv fun _ => Action.timeout) _ _) hmakes
  have hplain := hrs.replays_iff.mp (h .off storeX .debug _ u v _ storeLeaf
    (storing_pc _) hfound hpath hv)
  have hstores : storingStores 0x0100000000002000 = [0x0100000000002000] := by decide +kernel
  have hmem : (0x0100000000002000 : Addr) ∈ storingStores 0x0100000000002000 := by
    rw [hstores]
    exact List.mem_singleton_self _
  exact absurd (hplain _ hmem) (by decide)

end GabyVm.Engine
