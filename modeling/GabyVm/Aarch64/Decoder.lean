import GabyVm.Aarch64.State

/-!
# Decoding and the form table

The decoder names every word by a form and may mark it unallocated for that
form.  The simulator finds the visitor of a form in a table keyed by form
hash.  The rows that this development looks into are written out: the five
branch visitors, the forms without an implementation, and the form that names
unallocated words.  All other rows, the decode tree, the feature requirements
of a word and the MOVPRFX pairing rules are the parameters of an `Env`.
-/

namespace GabyVm.Aarch64

/-! ## Aborts -/

inductive Abort where
  /-- A failed `VIXL_CHECK`, or `VIXL_ASSERT` in a build with assertions. -/
  | check (condition : String)
  | unreachable
  | unimplemented
  | unallocated
  | wrongBType
  | authenticationFailed
  | gcsFailed
  | notInRegisteredRange (pc : Addr)
  | misalignedHookPc
  | noPredecodeCache (call : String)
  | gpRegisterOutOfRange (code : Nat)
  | vRegisterOutOfRange (code : Nat)
  | sysRegisterOutOfRange (code : Nat)
  | btypeOutOfRange (value : Nat)
  /-- An abort of a leaf other than the branch visitors. -/
  | leaf (message : String)
  deriving DecidableEq, Repr

def Abort.message : Abort → String
  | .check condition => "Assertion failed (" ++ condition ++ ")"
  | .unreachable => "UNREACHABLE "
  | .unimplemented => "UNIMPLEMENTED "
  | .unallocated => "UNALLOCATED\n"
  | .wrongBType => "Executing non-BTI instruction with wrong BType."
  | .authenticationFailed => "Failed to authenticate pointer."
  | .gcsFailed => "GCS failed "
  | .notInRegisteredRange pc =>
      "cache-track PC 0x" ++ String.ofList (Nat.toDigits 16 pc.toNat) ++
        " is not in any registered code range "
  | .misalignedHookPc => "gaby-vm: branch hook returned a misaligned PC"
  | .noPredecodeCache call =>
      "gaby_vm::Simulator::" ++ call ++ " (cache track) called on a Simulator " ++
        "constructed without a PredecodeCache "
  | .gpRegisterOutOfRange code =>
      "gaby_vm::Simulator::Write(GpRegister, …): out-of-range underlying value " ++
        toString code
  | .vRegisterOutOfRange code =>
      "gaby_vm::Simulator::Write(VRegister, …): out-of-range underlying value " ++
        toString code
  | .sysRegisterOutOfRange code =>
      "gaby_vm::Simulator::Write(SysRegister, …): out-of-range underlying value " ++
        toString code
  | .btypeOutOfRange value =>
      "gaby_vm::Simulator::Write(SysRegister::BType, …): BType value " ++
        toString value ++ " is outside the [0,3] range"
  | .leaf message => message

/-! ## Leaves -/

/-- One guest store as the memory-write observer sees it. -/
structure MemoryWriteEvent where
  address : Addr
  size : Nat
  valueLo : BitVec 64
  valueHi : BitVec 64
  deriving DecidableEq, Repr

/--
What a leaf does with the interpreter state: end, abort, or report a store it
has just made and go on from the state the observer leaves behind.
-/
inductive LeafProg where
  | done (c : Core)
  | abort (message : String) (c : Core)
  | store (event : MemoryWriteEvent) (c : Core) (next : Core → LeafProg)

abbrev Leaf := Word → Core → LeafProg

/-- The entries of the form table. -/
inductive Visitor where
  | unconditionalBranch
  | conditionalBranch
  | unconditionalBranchToRegister
  | testBranch
  | compareBranch
  | unimplemented
  | unallocated
  | leaf (run : Leaf)

/-! ## The decoder -/

/-- What the decoder tells its visitors about a word. -/
structure Metadata where
  form : String
  unallocated : Bool
  deriving DecidableEq, Repr

structure Env where
  /-- Whether the build has assertions on. -/
  vixlDebug : Bool
  decode : Word → Metadata
  /-- The features the auditor records for a word. -/
  instructionFeatures : Word → CPUFeatures
  /-- Whether the first word may follow the MOVPRFX second word, given its form. -/
  canTakeSVEMovprfx : Word → FormHash → Word → Bool
  /-- The rows of the form table that are not written out below. -/
  leaf : FormHash → Option Leaf

/-- A build with assertions whose decoder finds every word unallocated. -/
instance : Inhabited Env where
  default :=
    { vixlDebug := true
      decode := fun _ => ⟨"unallocated", false⟩
      instructionFeatures := fun _ => 0
      canTakeSVEMovprfx := fun _ _ _ => false
      leaf := fun _ => none }

/-! ## The form table -/

/-- A branch form with the encoding that its visitor tells it by. -/
structure BranchForm where
  form : String
  visitor : Visitor
  mask : Word
  value : Word

def unconditionalBranchMask : Word := 0xfc000000

def unconditionalBranchToRegisterMask : Word := 0xfffffc00

def testBranchMask : Word := 0x7f000000

def compareBranchMask : Word := 0xff000000

def B : Word := 0x14000000
def BL : Word := 0x94000000
def TBZ : Word := 0x36000000
def TBNZ : Word := 0x37000000
def CBZ_w : Word := 0x34000000
def CBZ_x : Word := 0xb4000000
def CBNZ_w : Word := 0x35000000
def CBNZ_x : Word := 0xb5000000
def BR : Word := 0xd61f0000
def BLR : Word := 0xd63f0000
def RET : Word := 0xd65f0000
def BRAAZ : Word := 0xd61f0800
def BRABZ : Word := 0xd61f0c00
def BLRAAZ : Word := 0xd63f0800
def BLRABZ : Word := 0xd63f0c00
def RETAA : Word := 0xd65f0800
def RETAB : Word := 0xd65f0c00
def BRAA : Word := 0xd71f0800
def BRAB : Word := 0xd71f0c00
def BLRAA : Word := 0xd73f0800
def BLRAB : Word := 0xd73f0c00

def branchForms : List BranchForm :=
  [⟨"b_only_branch_imm", .unconditionalBranch, unconditionalBranchMask, B⟩,
    ⟨"bl_only_branch_imm", .unconditionalBranch, unconditionalBranchMask, BL⟩,
    ⟨"b_only_condbranch", .conditionalBranch, 0xff000010, 0x54000000⟩,
    ⟨"bc_only_condbranch", .conditionalBranch, 0xff000010, 0x54000010⟩,
    ⟨"cbnz_32_compbranch", .compareBranch, compareBranchMask, CBNZ_w⟩,
    ⟨"cbnz_64_compbranch", .compareBranch, compareBranchMask, CBNZ_x⟩,
    ⟨"cbz_32_compbranch", .compareBranch, compareBranchMask, CBZ_w⟩,
    ⟨"cbz_64_compbranch", .compareBranch, compareBranchMask, CBZ_x⟩,
    ⟨"tbnz_only_testbranch", .testBranch, testBranchMask, TBNZ⟩,
    ⟨"tbz_only_testbranch", .testBranch, testBranchMask, TBZ⟩,
    ⟨"br_64_branch_reg", .unconditionalBranchToRegister,
      unconditionalBranchToRegisterMask, BR⟩,
    ⟨"blr_64_branch_reg", .unconditionalBranchToRegister,
      unconditionalBranchToRegisterMask, BLR⟩,
    ⟨"ret_64r_branch_reg", .unconditionalBranchToRegister,
      unconditionalBranchToRegisterMask, RET⟩,
    ⟨"braaz_64_branch_reg", .unconditionalBranchToRegister,
      unconditionalBranchToRegisterMask, BRAAZ⟩,
    ⟨"brabz_64_branch_reg", .unconditionalBranchToRegister,
      unconditionalBranchToRegisterMask, BRABZ⟩,
    ⟨"blraaz_64_branch_reg", .unconditionalBranchToRegister,
      unconditionalBranchToRegisterMask, BLRAAZ⟩,
    ⟨"blrabz_64_branch_reg", .unconditionalBranchToRegister,
      unconditionalBranchToRegisterMask, BLRABZ⟩,
    ⟨"retaa_64e_branch_reg", .unconditionalBranchToRegister,
      unconditionalBranchToRegisterMask, RETAA⟩,
    ⟨"retab_64e_branch_reg", .unconditionalBranchToRegister,
      unconditionalBranchToRegisterMask, RETAB⟩,
    ⟨"braa_64p_branch_reg", .unconditionalBranchToRegister,
      unconditionalBranchToRegisterMask, BRAA⟩,
    ⟨"brab_64p_branch_reg", .unconditionalBranchToRegister,
      unconditionalBranchToRegisterMask, BRAB⟩,
    ⟨"blraa_64p_branch_reg", .unconditionalBranchToRegister,
      unconditionalBranchToRegisterMask, BLRAA⟩,
    ⟨"blrab_64p_branch_reg", .unconditionalBranchToRegister,
      unconditionalBranchToRegisterMask, BLRAB⟩]

/-- Exception returns share the visitor of the register branches. -/
def exceptionReturnForms : List String :=
  ["drps_64e_branch_reg", "eretaa_64e_branch_reg", "eretab_64e_branch_reg",
    "eret_64e_branch_reg"]

def unimplementedForms : List String :=
  ["bfdot_asimdelem_e", "bfdot_asimdsame2_d", "bfmlal_asimdelem_f",
    "bfmlal_asimdsame2_f", "bfmmla_asimdsame2_e", "dsb_bon_barriers", "ld64b_64l_memop",
    "ldgm_64bulk_ldsttags", "st64b_64l_memop", "st64bv_64_memop", "st64bv0_64_memop",
    "stgm_64bulk_ldsttags", "stzgm_64bulk_ldsttags", "tcancel_ex_exception",
    "tcommit_only_barriers", "tstart_br_systemresult", "ttest_br_systemresult",
    "wfet_only_systeminstrswithreg", "wfit_only_systeminstrswithreg", "bfdot_z_zzz",
    "bfdot_z_zzzi", "bfmlalb_z_zzz", "bfmlalb_z_zzzi", "bfmlalt_z_zzz",
    "bfmlalt_z_zzzi", "bfmmla_z_zzz", "ldtrb_32_ldst_unpriv", "ldtrh_32_ldst_unpriv",
    "ldtrsb_32_ldst_unpriv", "ldtrsb_64_ldst_unpriv", "ldtrsh_32_ldst_unpriv",
    "ldtrsh_64_ldst_unpriv", "ldtrsw_64_ldst_unpriv", "ldtr_32_ldst_unpriv",
    "ldtr_64_ldst_unpriv", "sttrb_32_ldst_unpriv", "sttrh_32_ldst_unpriv",
    "sttr_32_ldst_unpriv", "sttr_64_ldst_unpriv"]

/-- The rows of the form table that are written out, by hash. -/
def namedRows : List (FormHash × Visitor) :=
  branchForms.map (fun row => (formHash row.form, row.visitor)) ++
    exceptionReturnForms.map (fun form => (formHash form, .unconditionalBranchToRegister)) ++
    unimplementedForms.map (fun form => (formHash form, .unimplemented)) ++
    [(formHash "unallocated", .unallocated)]

/-- `ResolvePredecodeLeaf`: the table entry of a form hash. -/
def resolveLeaf (E : Env) (hash : FormHash) : Option Visitor :=
  match namedRows.find? fun row => row.1 == hash with
  | some row => some row.2
  | none => (E.leaf hash).map .leaf

theorem namedRows_nodup : (namedRows.map Prod.fst).Nodup := by decide +kernel

theorem find?_of_nodup {rows : List (FormHash × Visitor)} (h : (rows.map Prod.fst).Nodup)
    {row : FormHash × Visitor} (hrow : row ∈ rows) :
    rows.find? (fun r => r.1 == row.1) = some row := by
  induction rows with
  | nil => cases hrow
  | cons first rest ih =>
      simp only [List.map_cons, List.nodup_cons, List.mem_map] at h
      obtain ⟨hfresh, hrest⟩ := h
      rcases List.mem_cons.mp hrow with rfl | hmem
      · simp
      · have hne : first.1 ≠ row.1 := fun heq => hfresh ⟨row, hmem, heq.symm⟩
        rw [List.find?_cons_of_neg (by simpa using hne)]
        exact ih hrest hmem

theorem resolveLeaf_unnamed {E : Env} {hash : FormHash}
    (h : namedRows.find? (fun row => row.1 == hash) = none) :
    resolveLeaf E hash = (E.leaf hash).map .leaf := by
  rw [resolveLeaf, h]

theorem resolveLeaf_of_mem {E : Env} {row : FormHash × Visitor} (hrow : row ∈ namedRows) :
    resolveLeaf E row.1 = some row.2 := by
  simp [resolveLeaf, find?_of_nodup namedRows_nodup hrow]

theorem resolveLeaf_branch {E : Env} {row : BranchForm} (hrow : row ∈ branchForms) :
    resolveLeaf E (formHash row.form) = some row.visitor := by
  refine @resolveLeaf_of_mem E (formHash row.form, row.visitor) ?_
  simp only [namedRows, List.mem_append, List.mem_map]
  exact .inl (.inl (.inl ⟨row, hrow, rfl⟩))

theorem resolveLeaf_unimplemented {E : Env} {form : String} (hform : form ∈ unimplementedForms) :
    resolveLeaf E (formHash form) = some .unimplemented := by
  refine @resolveLeaf_of_mem E (formHash form, .unimplemented) ?_
  simp only [namedRows, List.mem_append, List.mem_map]
  exact .inl (.inr ⟨form, hform, rfl⟩)

/-- The visitor that `Visit` runs for an allocated word of this form. -/
def visitorOf (E : Env) (hash : FormHash) : Visitor :=
  (resolveLeaf E hash).getD .unimplemented

/--
The decode tree names the branch forms by their encodings: every allocated
word that it gives one of these names has the bits its visitor tests.
-/
def Env.NamesBranches (E : Env) : Prop :=
  ∀ row ∈ branchForms, ∀ w, (E.decode w).form = row.form → w &&& row.mask = row.value

end GabyVm.Aarch64
