import GabyVm.Aarch64.DecodeGraph

/-!
# Paths through the decode graph

Over a table without cycles every word is led to exactly one form, and the
compiled graph calls the visitors with it.  The patterns on the way say which
bits of the word are known, and with them that the branch forms are only given
to words with the bits their visitors test.
-/

namespace GabyVm.Aarch64

open GabyVm.Foundation

/-! ## Forms -/

/-- The patterns lead a word from a node to a form. -/
inductive LeadsTo (nodes : DecodeNodes) (w : Word) : String → String → Prop where
  | form {name instructionName : String} (h : nodes.lookup name = some (.form instructionName)) :
      LeadsTo nodes w name instructionName
  | mapping {name form : String} {map : DecodeMapping}
      (h : nodes.lookup name = some (.mapping map)) (rest : LeadsTo nodes w (map.next w) form) :
      LeadsTo nodes w name form

theorem LeadsTo.unique {nodes : DecodeNodes} {w : Word} {name form form' : String}
    (h : LeadsTo nodes w name form) (h' : LeadsTo nodes w name form') : form = form' := by
  induction h with
  | form hnode =>
      cases h' with
      | form hnode' =>
          rw [hnode] at hnode'
          cases hnode'
          rfl
      | mapping hnode' _ =>
          rw [hnode] at hnode'
          cases hnode'
  | mapping hnode _ ih =>
      cases h' with
      | form hnode' =>
          rw [hnode] at hnode'
          cases hnode'
      | mapping hnode' rest' =>
          rw [hnode] at hnode'
          cases hnode'
          exact ih rest'

theorem leadsTo_of_follow {nodes : DecodeNodes} {fuel : Nat} {w : Word} {name form : String}
    (h : followPatterns nodes fuel name w = some form) : LeadsTo nodes w name form := by
  induction fuel generalizing name with
  | zero => cases h
  | succ fuel ih =>
      simp only [followPatterns] at h
      split at h
      · cases h
      · next instructionName hnode =>
          cases h
          exact .form hnode
      · next map hnode => exact .mapping hnode (ih h)

/-- No mapping links to itself through other mappings. -/
def Acyclic (table : List DecodeMapping) (depth : String → Nat) : Prop :=
  ∀ map ∈ table, depth "unallocated" < depth map.name ∧
    ∀ p ∈ map.mapping, depth p.handler < depth map.name

theorem follow_isSome {table : List DecodeMapping} (h : WellFormedTable table)
    {depth : String → Nat} (hdepth : Acyclic table depth) {name : String} {fuel : Nat}
    (hname : ((decodeNodes table).lookup name).isSome = true) (hfuel : depth name < fuel)
    (w : Word) : ∃ form, followPatterns (decodeNodes table) fuel name w = some form := by
  induction fuel generalizing name with
  | zero => omega
  | succ fuel ih =>
      obtain ⟨n, hn⟩ := Option.isSome_iff_exists.mp hname
      simp only [followPatterns, hn]
      cases n with
      | form instructionName => exact ⟨instructionName, rfl⟩
      | mapping map =>
          obtain ⟨hmap, hself⟩ := decodeNodes_lookup hn
          have hnext := map.next_mem w
          obtain ⟨hunallocated, hhandlers⟩ := hdepth map hmap
          have hlt : depth (map.next w) < depth name := by
            rw [← hself]
            rcases hnext with heq | ⟨p, hp, heq⟩
            · rw [heq]
              exact hunallocated
            · rw [← heq]
              exact hhandlers p hp
          exact ih (h.target_isSome hmap hnext) (by omega)

/-! ### Some rows of the table -/

theorem DecodeMapping.wellFormed_iff (map : DecodeMapping) : map.WellFormed ↔
    map.sampledBits.Nodup ∧ (∀ bit ∈ map.sampledBits, bit < 32) ∧ map.sampledBits.length ≤ 15 ∧
      (∀ p ∈ map.mapping, encodeSymbols (patternSymbols p.pattern) = p.pattern) ∧
      (∀ p ∈ map.mapping, getPatternLength p.pattern = map.sampledBits.length) ∧
      map.extraction ≠ .absent :=
  ⟨fun h => ⟨h.nodup, h.inWord, h.length_le, h.encoded, h.length_eq, h.instantiated⟩,
    fun ⟨h₁, h₂, h₃, h₄, h₅, h₆⟩ => ⟨h₁, h₂, h₃, h₄, h₅, h₆⟩⟩

instance decidableWellFormed (map : DecodeMapping) : Decidable map.WellFormed :=
  decidable_of_iff _ map.wellFormed_iff.symm

/-- The part of `kDecodeMapping` on the way to the branch forms; the other rows are left out. -/
def branchMappings : List DecodeMapping :=
  [⟨"Root", [31, 29, 28, 27, 26, 25, 24, 21, 15, 14],
      [⟨bitPattern "0010100xxx", "_vyjsst"⟩, ⟨bitPattern "0010110xxx", "_qvjmmq"⟩,
        ⟨bitPattern "00101x1xxx", "_lxggmz"⟩, ⟨bitPattern "0110100xxx", "_yrjqql"⟩,
        ⟨bitPattern "0110101xxx", "_prgrzz"⟩, ⟨bitPattern "10101000xx", "_yjnkrn"⟩,
        ⟨bitPattern "10101001xx", "_zrqtgx"⟩, ⟨bitPattern "1010101000", "_pxvjkp"⟩,
        ⟨bitPattern "1010101001", "_xrzqtn"⟩, ⟨bitPattern "101010101x", "_ttmvpr"⟩,
        ⟨bitPattern "1010101100", "_grjzyl"⟩, ⟨bitPattern "1010101110", "_kynxnz"⟩,
        ⟨bitPattern "10101011x1", "_zzhnxv"⟩, ⟨bitPattern "1010110000", "_lymhlk"⟩,
        ⟨bitPattern "1010110100", "_tpmqyl"⟩, ⟨bitPattern "1010111000", "_lkzyzv"⟩,
        ⟨bitPattern "1010111100", "_tvyxlr"⟩, ⟨bitPattern "101011xx10", "_yxvttm"⟩,
        ⟨bitPattern "101011xxx1", "_qhzvvh"⟩, ⟨bitPattern "1110100xxx", "_jxgqqz"⟩,
        ⟨bitPattern "1110101xxx", "_qnysqv"⟩, ⟨bitPattern "x110110xxx", "_xymnxy"⟩,
        ⟨bitPattern "x110111xxx", "_htjmmx"⟩]⟩,
    ⟨"_grjzyl", [30], [⟨bitPattern "0", "bl_only_branch_imm"⟩]⟩,
    ⟨"_hkxzqg", [2, 1], [⟨bitPattern "00", "br_64_branch_reg"⟩]⟩,
    ⟨"_htjmmx", [30], [⟨bitPattern "0", "tbnz_only_testbranch"⟩]⟩,
    ⟨"_jlnjsy", [23, 22, 20, 19, 18, 17, 16, 13, 12, 11], [⟨bitPattern "0011111001", "_ssjnph"⟩]⟩,
    ⟨"_jxgqqz", [30], [⟨bitPattern "0", "cbz_64_compbranch"⟩]⟩,
    ⟨"_kynxnz", [30, 23, 22, 20, 19], [⟨bitPattern "0xxxx", "bl_only_branch_imm"⟩]⟩,
    ⟨"_kzprzt", [9, 8, 7, 6, 5, 2, 1], [⟨bitPattern "1111111", "retaa_64e_branch_reg"⟩]⟩,
    ⟨"_lkzyzv", [30], [⟨bitPattern "0", "bl_only_branch_imm"⟩, ⟨bitPattern "1", "_vgxtvy"⟩]⟩,
    ⟨"_lljxgp", [1], [⟨bitPattern "1", "blrabz_64_branch_reg"⟩]⟩,
    ⟨"_lszlkq", [22, 20, 19, 18, 17, 16, 13, 12], [⟨bitPattern "01111100", "_xtgmvr"⟩]⟩,
    ⟨"_lvszgj", [2, 1], [⟨bitPattern "11", "brabz_64_branch_reg"⟩]⟩,
    ⟨"_lxggmz", [30], [⟨bitPattern "0", "b_only_branch_imm"⟩]⟩,
    ⟨"_lymhlk", [30], [⟨bitPattern "0", "bl_only_branch_imm"⟩, ⟨bitPattern "1", "_vpgxgk"⟩]⟩,
    ⟨"_mzkxzm", [1], [⟨bitPattern "0", "blr_64_branch_reg"⟩]⟩,
    ⟨"_prgrzz", [30], [⟨bitPattern "0", "cbnz_32_compbranch"⟩]⟩,
    ⟨"_pxvjkp", [30], [⟨bitPattern "0", "bl_only_branch_imm"⟩]⟩,
    ⟨"_qgvrqy", [1], [⟨bitPattern "1", "blraaz_64_branch_reg"⟩]⟩,
    ⟨"_qhzvvh", [30], [⟨bitPattern "0", "bl_only_branch_imm"⟩]⟩,
    ⟨"_qnysqv", [30], [⟨bitPattern "0", "cbnz_64_compbranch"⟩]⟩,
    ⟨"_qvjmmq", [30], [⟨bitPattern "0", "b_only_branch_imm"⟩]⟩,
    ⟨"_rqzpzq", [23, 22, 11, 10, 4, 3, 0],
      [⟨bitPattern "0000000", "_hkxzqg"⟩, ⟨bitPattern "0010111", "_zqlzzp"⟩,
        ⟨bitPattern "0011111", "_lvszgj"⟩, ⟨bitPattern "0100000", "_tmsjzg"⟩,
        ⟨bitPattern "0110111", "_kzprzt"⟩, ⟨bitPattern "0111111", "_tzsnmy"⟩]⟩,
    ⟨"_ssjnph", [10],
      [⟨bitPattern "0", "blraa_64p_branch_reg"⟩, ⟨bitPattern "1", "blrab_64p_branch_reg"⟩]⟩,
    ⟨"_tjxhsy", [10],
      [⟨bitPattern "0", "braa_64p_branch_reg"⟩, ⟨bitPattern "1", "brab_64p_branch_reg"⟩]⟩,
    ⟨"_tmsjzg", [2, 1], [⟨bitPattern "00", "ret_64r_branch_reg"⟩]⟩,
    ⟨"_tpmqyl", [30], [⟨bitPattern "0", "bl_only_branch_imm"⟩, ⟨bitPattern "1", "_lszlkq"⟩]⟩,
    ⟨"_ttmvpr", [30, 23, 22, 20, 19], [⟨bitPattern "0xxxx", "bl_only_branch_imm"⟩]⟩,
    ⟨"_tvyxlr", [30], [⟨bitPattern "0", "bl_only_branch_imm"⟩, ⟨bitPattern "1", "_jlnjsy"⟩]⟩,
    ⟨"_tzsnmy", [9, 8, 7, 6, 5, 2, 1], [⟨bitPattern "1111111", "retab_64e_branch_reg"⟩]⟩,
    ⟨"_vgxtvy", [23, 22, 20, 19, 18, 17, 16, 13, 12, 11], [⟨bitPattern "0011111001", "_tjxhsy"⟩]⟩,
    ⟨"_vpgxgk", [20, 19, 18, 17, 16, 13, 12], [⟨bitPattern "1111100", "_rqzpzq"⟩]⟩,
    ⟨"_vyjsst", [30, 4],
      [⟨bitPattern "0x", "b_only_branch_imm"⟩, ⟨bitPattern "10", "b_only_condbranch"⟩,
        ⟨bitPattern "11", "bc_only_condbranch"⟩]⟩,
    ⟨"_xrzqtn", [30], [⟨bitPattern "0", "bl_only_branch_imm"⟩]⟩,
    ⟨"_xtgmvr", [23, 11, 10, 4, 3, 2, 0],
      [⟨bitPattern "0000000", "_mzkxzm"⟩, ⟨bitPattern "0101111", "_qgvrqy"⟩,
        ⟨bitPattern "0111111", "_lljxgp"⟩]⟩,
    ⟨"_xymnxy", [30], [⟨bitPattern "0", "tbz_only_testbranch"⟩]⟩,
    ⟨"_yjnkrn", [30], [⟨bitPattern "0", "bl_only_branch_imm"⟩]⟩,
    ⟨"_yrjqql", [30], [⟨bitPattern "0", "cbz_32_compbranch"⟩]⟩,
    ⟨"_yxvttm", [30], [⟨bitPattern "0", "bl_only_branch_imm"⟩]⟩,
    ⟨"_zqlzzp", [2, 1], [⟨bitPattern "11", "braaz_64_branch_reg"⟩]⟩,
    ⟨"_zrqtgx", [30], [⟨bitPattern "0", "bl_only_branch_imm"⟩]⟩,
    ⟨"_zzhnxv", [30, 23, 22, 20, 19], [⟨bitPattern "0xxxx", "bl_only_branch_imm"⟩]⟩]

/-- How many mappings there are at most from a name to a form. -/
def branchDepth (name : String) : Nat :=
  if name = "Root" then 5
  else if name ∈ ["_lymhlk", "_tpmqyl"] then 4
  else if name ∈ ["_vpgxgk", "_lszlkq", "_lkzyzv", "_tvyxlr"] then 3
  else if name ∈ ["_rqzpzq", "_xtgmvr", "_vgxtvy", "_jlnjsy"] then 2
  else if branchMappings.any (·.name = name) then 1
  else 0

theorem branchMappings_wellFormed : WellFormedTable branchMappings where
  mappings := by decide +kernel
  named := by decide +kernel
  root := by decide +kernel

theorem branchMappings_acyclic : Acyclic branchMappings branchDepth := by
  rw [Acyclic]
  decide +kernel

/-! ## Visitors -/

/-- The form and the unallocated flag that `VisitNamedInstruction` hands to the visitors. -/
def visitNamedInstruction (formToUnalloc : List (FormHash × Word × Word)) (w : Word)
    (name : String) : Metadata where
  form := name
  unallocated := formToUnalloc.any fun (form, mask, value) =>
    form == formHash name && w &&& mask == value

def decoderDecode (g : DecodeGraph) (formToUnalloc : List (FormHash × Word × Word)) (fuel : Nat)
    (w : Word) : Option Metadata :=
  (decodeFrom g fuel "Root" w).map (visitNamedInstruction formToUnalloc w)

/--
Over a well-formed table without cycles the graph is built, and every word is
visited under the one form that its patterns lead it to.
-/
theorem decoder_visits {table : List DecodeMapping} (h : WellFormedTable table)
    {depth : String → Nat} (hdepth : Acyclic table depth)
    (formToUnalloc : List (FormHash × Word × Word)) :
    ∃ g, constructDecodeGraph table = some g ∧ ∀ w fuel, depth "Root" < fuel →
      ∃ form, LeadsTo (decodeNodes table) w "Root" form ∧
        (∀ form', LeadsTo (decodeNodes table) w "Root" form' → form' = form) ∧
        decoderDecode g formToUnalloc fuel w =
          some (visitNamedInstruction formToUnalloc w form) := by
  obtain ⟨g, hg, hdecode⟩ := constructDecodeGraph_decode h
  refine ⟨g, hg, fun w fuel hfuel => ?_⟩
  obtain ⟨form, hform⟩ := follow_isSome h hdepth h.root_isSome hfuel w
  have hleads := leadsTo_of_follow hform
  refine ⟨form, hleads, fun form' h' => h'.unique hleads, ?_⟩
  rw [decoderDecode, hdecode fuel w, hform, Option.map_some]

/-- The rows that lead to branches decode a word by their patterns. -/
theorem decoder_visits_branch :
    ∃ g, constructDecodeGraph branchMappings = some g ∧ ∀ w fuel, 5 < fuel →
      ∃ form, LeadsTo (decodeNodes branchMappings) w "Root" form ∧
        (∀ form', LeadsTo (decodeNodes branchMappings) w "Root" form' → form' = form) ∧
        decoderDecode g [] fuel w = some (visitNamedInstruction [] w form) :=
  decoder_visits branchMappings_wellFormed branchMappings_acyclic []

/-! ## Known bits -/

/-- Bits of a word that are known, with their values. -/
structure KnownBits where
  mask : Word
  value : Word
  deriving DecidableEq, Repr

namespace KnownBits

def Holds (known : KnownBits) (w : Word) : Prop := w &&& known.mask = known.value

def nothing : KnownBits := ⟨0, 0⟩

def addSymbol (known : KnownBits) : Nat × PatternSymbol → KnownBits
  | (bit, .symbol0) => { known with mask := known.mask ||| 1#32 <<< bit }
  | (bit, .symbol1) =>
      ⟨known.mask ||| 1#32 <<< bit, known.value ||| 1#32 <<< bit⟩
  | (_, .symbolX) => known

/-- What a word that matches the symbols shows. -/
def addSymbols (known : KnownBits) (sampledBits : List Nat) (symbols : List PatternSymbol) :
    KnownBits :=
  (sampledBits.zip symbols).foldl addSymbol known

theorem holds_nothing (w : Word) : nothing.Holds w := by simp [Holds, nothing]

theorem Holds.addSymbol {known : KnownBits} {w : Word} (h : known.Holds w) {bit : Nat}
    {s : PatternSymbol} (hs : s.agrees (w.getLsbD bit) = true) :
    (known.addSymbol (bit, s)).Holds w := by
  have hbit : w &&& 1#32 <<< bit = if w.getLsbD bit then 1#32 <<< bit else 0#32 :=
    BitVec.and_twoPow w bit
  simp only [Holds] at h
  cases s with
  | symbol0 =>
      have hclear : ¬w.getLsbD bit = true := by simpa [PatternSymbol.agrees] using hs
      rw [if_neg hclear] at hbit
      rw [Holds, KnownBits.addSymbol, BitVec.and_or_distrib_left, h, hbit, BitVec.or_zero]
  | symbol1 =>
      have hset : w.getLsbD bit = true := hs
      rw [if_pos hset] at hbit
      rw [Holds, KnownBits.addSymbol, BitVec.and_or_distrib_left, h, hbit]
  | symbolX => exact h

theorem Holds.addSymbols {known : KnownBits} {w : Word} (h : known.Holds w)
    {sampledBits : List Nat} {symbols : List PatternSymbol}
    (hmatch : symbolsMatch sampledBits symbols w = true) :
    (known.addSymbols sampledBits symbols).Holds w := by
  rw [symbolsMatch, List.all_eq_true] at hmatch
  rw [KnownBits.addSymbols]
  generalize sampledBits.zip symbols = pairs at hmatch
  induction pairs generalizing known with
  | nil => exact h
  | cons pair pairs ih =>
      have hhead := hmatch pair List.mem_cons_self
      exact ih (h.addSymbol hhead) fun q hq => hmatch q (List.mem_cons_of_mem _ hq)

end KnownBits

/-- The forms that the graph can lead to, with the bits that are known on arrival. -/
def knownPaths (nodes : DecodeNodes) : Nat → String → KnownBits → List (String × KnownBits)
  | 0, _, _ => []
  | fuel + 1, name, known =>
      match nodes.lookup name with
      | none => []
      | some (.form instructionName) => [(instructionName, known)]
      | some (.mapping map) =>
          knownPaths nodes fuel "unallocated" known ++
            map.mapping.flatMap fun p => knownPaths nodes fuel p.handler
              (known.addSymbols map.sampledBits (patternSymbols p.pattern))

theorem follow_knownPaths {nodes : DecodeNodes} {fuel : Nat} {name form : String} {w : Word}
    {known : KnownBits} (hknown : known.Holds w)
    (h : followPatterns nodes fuel name w = some form) :
    ∃ known', (form, known') ∈ knownPaths nodes fuel name known ∧ known'.Holds w := by
  induction fuel generalizing name known with
  | zero => cases h
  | succ fuel ih =>
      cases hlookup : nodes.lookup name with
      | none => simp [followPatterns, hlookup] at h
      | some node =>
          cases node with
          | form instructionName =>
              simp only [followPatterns, hlookup, Option.some.injEq] at h
              exact ⟨known, by simp [knownPaths, hlookup, h], hknown⟩
          | mapping map =>
              simp only [followPatterns, hlookup] at h
              simp only [knownPaths, hlookup, List.mem_append, List.mem_flatMap]
              rw [DecodeMapping.next] at h
              split at h
              · next p hp =>
                  have hmatch := List.find?_some hp
                  obtain ⟨known', hmem, hholds⟩ := ih (hknown.addSymbols hmatch) h
                  exact ⟨known', .inr ⟨p, List.mem_of_find?_eq_some hp, hmem⟩, hholds⟩
              · obtain ⟨known', hmem, hholds⟩ := ih hknown h
                exact ⟨known', .inl hmem, hholds⟩

/-! ## Branch forms -/

/-- On every path to a branch form the bits of its encoding are known. -/
def BranchesKnown (nodes : DecodeNodes) (fuel : Nat) : Prop :=
  ∀ path ∈ knownPaths nodes fuel "Root" .nothing, ∀ row ∈ branchForms, path.1 = row.form →
    path.2.mask &&& row.mask = row.mask ∧ path.2.value &&& row.mask = row.value

instance decidableBranchesKnown (nodes : DecodeNodes) (fuel : Nat) :
    Decidable (BranchesKnown nodes fuel) :=
  inferInstanceAs (Decidable (∀ path ∈ knownPaths nodes fuel "Root" .nothing,
    ∀ row ∈ branchForms, path.1 = row.form →
      path.2.mask &&& row.mask = row.mask ∧ path.2.value &&& row.mask = row.value))

/-- A decoder that samples the bits of the branch encodings names the branch forms by them. -/
theorem decoder_namesBranches {table : List DecodeMapping} (h : WellFormedTable table) {fuel : Nat}
    (hknown : BranchesKnown (decodeNodes table) fuel)
    {formToUnalloc : List (FormHash × Word × Word)} {g : DecodeGraph}
    (hg : constructDecodeGraph table = some g) {E : Env}
    (hE : ∀ w, decoderDecode g formToUnalloc fuel w = some (E.decode w)) : E.NamesBranches := by
  intro row hrow w hform
  obtain ⟨g', hg', hdecode⟩ := constructDecodeGraph_decode h
  obtain rfl : g = g' := Option.some.inj (hg.symm.trans hg')
  obtain ⟨form, hfollow, hvisit⟩ := Option.map_eq_some_iff.mp (hE w)
  rw [hdecode] at hfollow
  obtain ⟨known, hmem, hholds⟩ := follow_knownPaths (KnownBits.holds_nothing w) hfollow
  have hname : form = row.form := by
    rw [← hform, ← hvisit]
    rfl
  obtain ⟨hmask, hvalue⟩ := hknown _ hmem row hrow hname
  calc w &&& row.mask = (w &&& known.mask) &&& row.mask := by rw [BitVec.and_assoc, hmask]
    _ = known.value &&& row.mask := by rw [hholds]
    _ = row.value := hvalue

theorem branchMappings_known : BranchesKnown (decodeNodes branchMappings) 6 := by
  decide +kernel

theorem decoder_namesBranches_branch :
    ∃ g, constructDecodeGraph branchMappings = some g ∧
      Env.NamesBranches { (default : Env) with
        decode := fun w => (decoderDecode g [] 6 w).getD ⟨"unallocated", false⟩ } := by
  obtain ⟨g, hg, hdecode⟩ := constructDecodeGraph_decode branchMappings_wellFormed
  refine ⟨g, hg, @decoder_namesBranches _ branchMappings_wellFormed _ branchMappings_known [] _ hg
    _ fun w => ?_⟩
  obtain ⟨form, hform⟩ : ∃ form, followPatterns (decodeNodes branchMappings) 6 "Root" w =
      some form := follow_isSome branchMappings_wellFormed branchMappings_acyclic
    branchMappings_wellFormed.root_isSome (by decide +kernel) w
  have hvisit : decoderDecode g [] 6 w = some (visitNamedInstruction [] w form) := by
    rw [decoderDecode, hdecode, hform, Option.map_some]
  simp [hvisit]

/-! ## The words of the branches -/

/-- A branch form with all the bits that tell its words from other words. -/
structure BranchEncoding where
  form : String
  bits : KnownBits

/-- The encodings of the branches; the others of their bits are operands. -/
def branchEncodings : List BranchEncoding :=
  [⟨"b_only_branch_imm", 0xfc000000, 0x14000000⟩, ⟨"bl_only_branch_imm", 0xfc000000, 0x94000000⟩,
    ⟨"b_only_condbranch", 0xff000010, 0x54000000⟩, ⟨"bc_only_condbranch", 0xff000010, 0x54000010⟩,
    ⟨"cbz_32_compbranch", 0xff000000, 0x34000000⟩, ⟨"cbnz_32_compbranch", 0xff000000, 0x35000000⟩,
    ⟨"cbz_64_compbranch", 0xff000000, 0xb4000000⟩, ⟨"cbnz_64_compbranch", 0xff000000, 0xb5000000⟩,
    ⟨"tbz_only_testbranch", 0x7f000000, 0x36000000⟩,
    ⟨"tbnz_only_testbranch", 0x7f000000, 0x37000000⟩,
    ⟨"br_64_branch_reg", 0xfffffc1f, 0xd61f0000⟩, ⟨"blr_64_branch_reg", 0xfffffc1f, 0xd63f0000⟩,
    ⟨"ret_64r_branch_reg", 0xfffffc1f, 0xd65f0000⟩,
    ⟨"braaz_64_branch_reg", 0xfffffc1f, 0xd61f081f⟩,
    ⟨"brabz_64_branch_reg", 0xfffffc1f, 0xd61f0c1f⟩,
    ⟨"blraaz_64_branch_reg", 0xfffffc1f, 0xd63f081f⟩,
    ⟨"blrabz_64_branch_reg", 0xfffffc1f, 0xd63f0c1f⟩,
    ⟨"retaa_64e_branch_reg", 0xffffffff, 0xd65f0bff⟩,
    ⟨"retab_64e_branch_reg", 0xffffffff, 0xd65f0fff⟩,
    ⟨"braa_64p_branch_reg", 0xfffffc00, 0xd71f0800⟩,
    ⟨"brab_64p_branch_reg", 0xfffffc00, 0xd71f0c00⟩,
    ⟨"blraa_64p_branch_reg", 0xfffffc00, 0xd73f0800⟩,
    ⟨"blrab_64p_branch_reg", 0xfffffc00, 0xd73f0c00⟩]

/-! ### All words with the known bits -/

namespace KnownBits

/-- The ways to know the given bits as well. -/
def refine (known : KnownBits) : List Nat → List KnownBits
  | [] => [known]
  | bit :: bits =>
      if known.mask.getLsbD bit then known.refine bits
      else (known.addSymbol (bit, .symbol0)).refine bits ++
        (known.addSymbol (bit, .symbol1)).refine bits

theorem addSymbol_mask (known : KnownBits) (bit : Nat) {s : PatternSymbol} (hs : s ≠ .symbolX)
    {i : Nat} (hi : i < 32) :
    (known.addSymbol (bit, s)).mask.getLsbD i = (known.mask.getLsbD i || decide (i = bit)) := by
  have hone : (1#32 <<< bit).getLsbD i = decide (i = bit) := by
    rw [BitVec.getLsbD_shiftLeft]
    by_cases heq : i = bit
    · subst heq
      simp [hi]
    · by_cases hlt : i < bit
      · simp [hlt, heq]
      · have hpos : i - bit ≠ 0 := by omega
        simp [hlt, heq, hpos]
  cases s with
  | symbol0 => simp only [addSymbol, BitVec.getLsbD_or, hone]
  | symbol1 => simp only [addSymbol, BitVec.getLsbD_or, hone]
  | symbolX => exact absurd rfl hs

theorem Holds.refine {known : KnownBits} {w : Word} (h : known.Holds w) {bits : List Nat}
    (hbits : ∀ bit ∈ bits, bit < 32) :
    ∃ k ∈ known.refine bits, k.Holds w ∧
      (∀ i < 32, known.mask.getLsbD i = true → k.mask.getLsbD i = true) ∧
      ∀ bit ∈ bits, k.mask.getLsbD bit = true := by
  induction bits generalizing known with
  | nil => exact ⟨known, List.mem_singleton_self _, h, fun _ _ hi => hi, by simp⟩
  | cons bit bits ih =>
      have hrest : ∀ b ∈ bits, b < 32 := fun b hb => hbits b (List.mem_cons_of_mem _ hb)
      have hbit : bit < 32 := hbits bit List.mem_cons_self
      by_cases hmask : known.mask.getLsbD bit = true
      · obtain ⟨k, hk, hholds, hkept, hall⟩ := ih h hrest
        refine ⟨k, by simpa [KnownBits.refine, hmask] using hk, hholds, hkept, ?_⟩
        intro b hb
        rcases List.mem_cons.mp hb with rfl | hb
        · exact hkept b hbit hmask
        · exact hall b hb
      · -- The word decides which of the two ways is its own.
        have hsplit (s : PatternSymbol) (hs : s ≠ .symbolX)
            (hagrees : s.agrees (w.getLsbD bit) = true)
            (hmem : ∀ k ∈ (known.addSymbol (bit, s)).refine bits, k ∈ known.refine (bit :: bits)) :
            ∃ k ∈ known.refine (bit :: bits), k.Holds w ∧
              (∀ i < 32, known.mask.getLsbD i = true → k.mask.getLsbD i = true) ∧
              ∀ b ∈ bit :: bits, k.mask.getLsbD b = true := by
          obtain ⟨k, hk, hholds, hkept, hall⟩ := ih (h.addSymbol hagrees) hrest
          refine ⟨k, hmem k hk, hholds, fun i hi hset => hkept i hi ?_, ?_⟩
          · rw [addSymbol_mask known bit hs hi, hset, Bool.true_or]
          · intro b hb
            rcases List.mem_cons.mp hb with rfl | hb
            · refine hkept b hbit ?_
              rw [addSymbol_mask known b hs hbit, decide_eq_true rfl, Bool.or_true]
            · exact hall b hb
        cases hw : w.getLsbD bit with
        | false =>
            refine hsplit .symbol0 (by decide) (by rw [hw]; rfl) fun k hk => ?_
            simp [KnownBits.refine, hmask, hk]
        | true =>
            refine hsplit .symbol1 (by decide) (by rw [hw]; rfl) fun k hk => ?_
            simp [KnownBits.refine, hmask, hk]

theorem Holds.getLsbD {known : KnownBits} {w : Word} (h : known.Holds w) {bit : Nat}
    (hbit : known.mask.getLsbD bit = true) : known.value.getLsbD bit = w.getLsbD bit := by
  rw [← h, BitVec.getLsbD_and, hbit, Bool.and_true]

end KnownBits

theorem symbolsMatch_congr {sampledBits : List Nat} {w w' : Word}
    (h : ∀ bit ∈ sampledBits, w'.getLsbD bit = w.getLsbD bit) (symbols : List PatternSymbol) :
    symbolsMatch sampledBits symbols w' = symbolsMatch sampledBits symbols w := by
  rw [symbolsMatch, symbolsMatch, Bool.eq_iff_iff, List.all_eq_true, List.all_eq_true]
  refine forall₂_congr ?_
  rintro ⟨bit, s⟩ hpair
  simp only [h bit (List.of_mem_zip hpair).1]

/-- A mapping sends words that agree on its sampled bits to the same node. -/
theorem DecodeMapping.next_congr {map : DecodeMapping} {w w' : Word}
    (h : ∀ bit ∈ map.sampledBits, w'.getLsbD bit = w.getLsbD bit) : map.next w' = map.next w := by
  simp only [DecodeMapping.next, symbolsMatch_congr h]

/-- Every word with the known bits is led from the node to the form. -/
def allLead (nodes : DecodeNodes) : Nat → String → KnownBits → String → Bool
  | 0, _, _, _ => false
  | fuel + 1, name, known, form =>
      match nodes.lookup name with
      | none => false
      | some (.form instructionName) => instructionName == form
      | some (.mapping map) => map.sampledBits.all (· < 32) &&
          (known.refine map.sampledBits).all fun k => allLead nodes fuel (map.next k.value) k form

theorem leadsTo_of_allLead {nodes : DecodeNodes} {fuel : Nat} {name form : String}
    {known : KnownBits} (h : allLead nodes fuel name known form = true) {w : Word}
    (hknown : known.Holds w) : LeadsTo nodes w name form := by
  induction fuel generalizing name known with
  | zero => cases h
  | succ fuel ih =>
      simp only [allLead] at h
      split at h
      · cases h
      · next instructionName hnode =>
          obtain rfl := eq_of_beq h
          exact .form hnode
      · next map hnode =>
          rw [Bool.and_eq_true, List.all_eq_true, List.all_eq_true] at h
          obtain ⟨hbits, hall⟩ := h
          obtain ⟨k, hk, hholds, -, hset⟩ := hknown.refine fun bit hbit =>
            of_decide_eq_true (hbits bit hbit)
          have hnext : map.next k.value = map.next w := DecodeMapping.next_congr fun bit hbit =>
            hholds.getLsbD (hset bit hbit)
          exact .mapping hnode (hnext ▸ ih (hall k hk) hholds)

theorem branchEncodings_lead : ∀ row ∈ branchEncodings,
    allLead (decodeNodes branchMappings) 6 "Root" row.bits row.form = true := by
  decide +kernel

/-! ### Tables with more rows -/

def PatternSymbol.clash : PatternSymbol → PatternSymbol → Bool
  | symbol0, symbol1 => true
  | symbol1, symbol0 => true
  | _, _ => false

/-- No word matches both patterns: they ask opposite values of a bit. -/
def DecodePattern.Apart (p q : DecodePattern) : Prop :=
  ((patternSymbols p.pattern).zip (patternSymbols q.pattern)).any
    (fun pair => pair.1.clash pair.2) = true

instance decidableApart (p q : DecodePattern) : Decidable (p.Apart q) :=
  inferInstanceAs (Decidable (_ = true))

theorem not_symbolsMatch_clash {sampledBits : List Nat} {symbols symbols' : List PatternSymbol}
    (hlength : symbols.length ≤ sampledBits.length)
    (hclash : (symbols.zip symbols').any (fun pair => pair.1.clash pair.2) = true) {w : Word}
    (h : symbolsMatch sampledBits symbols w = true) :
    symbolsMatch sampledBits symbols' w = false := by
  induction sampledBits generalizing symbols symbols' with
  | nil =>
      obtain rfl := List.eq_nil_of_length_eq_zero (Nat.le_zero.mp hlength)
      simp at hclash
  | cons bit bits ih =>
      cases symbols with
      | nil => simp at hclash
      | cons s symbols =>
          cases symbols' with
          | nil => simp at hclash
          | cons s' symbols' =>
              simp only [symbolsMatch, List.zip_cons_cons, List.all_cons, Bool.and_eq_true] at h
              simp only [List.zip_cons_cons, List.any_cons, Bool.or_eq_true] at hclash
              simp only [symbolsMatch, List.zip_cons_cons, List.all_cons, Bool.and_eq_false_iff]
              rcases hclash with hhead | htail
              · left
                have hbit := h.1
                cases s <;> cases s' <;> simp_all [PatternSymbol.clash, PatternSymbol.agrees]
              · exact .inr (ih (by simpa using hlength) htail h.2)

theorem find?_of_pairwise {α : Type*} {R : α → α → Prop} {f : α → Bool}
    (hR : ∀ a b, R a b → f a = true → f b = false) {as : List α} (h : as.Pairwise R) {a : α}
    (ha : a ∈ as) (hf : f a = true) : as.find? f = some a := by
  induction h with
  | nil => cases ha
  | @cons b bs hb _ ih =>
      rcases List.mem_cons.mp ha with rfl | ha
      · simp [hf]
      · cases hfb : f b with
        | true => simp [hR b a (hb a ha) hfb] at hf
        | false => simpa [hfb] using ih ha

/-- Every node of `part` is one of `nodes`, there perhaps with more patterns. -/
structure Carries (nodes part : DecodeNodes) : Prop where
  form : ∀ name instructionName, part.lookup name = some (.form instructionName) →
    nodes.lookup name = some (.form instructionName)
  mapping : ∀ name row, part.lookup name = some (.mapping row) →
    ∃ map, nodes.lookup name = some (.mapping map) ∧ map.sampledBits = row.sampledBits ∧
      row.mapping ⊆ map.mapping ∧ map.mapping.Pairwise DecodePattern.Apart

/-- More patterns change nothing for the words that matched one before. -/
theorem LeadsTo.carried {table : List DecodeMapping} (h : WellFormedTable table)
    {part : DecodeNodes} (hcarries : Carries (decodeNodes table) part)
    (hunallocated : part.lookup "unallocated" = some (.form "unallocated")) {w : Word}
    {name form : String} (hform : form ≠ "unallocated") (hleads : LeadsTo part w name form) :
    LeadsTo (decodeNodes table) w name form := by
  induction hleads with
  | form hnode => exact .form (hcarries.form _ _ hnode)
  | @mapping name form row hnode rest ih =>
      obtain ⟨map, hmap, hbits, hsub, hapart⟩ := hcarries.mapping _ _ hnode
      obtain ⟨p, hp⟩ : ∃ p, row.mapping.find? (fun p =>
          symbolsMatch row.sampledBits (patternSymbols p.pattern) w) = some p := by
        rw [← Option.isSome_iff_exists]
        by_contra hnone
        have hnext : row.next w = "unallocated" := by
          simp only [DecodeMapping.next, Option.not_isSome_iff_eq_none.mp hnone]
        rw [hnext] at rest
        exact hform (rest.unique (.form hunallocated))
      have hwellFormed := h.mappings map (decodeNodes_lookup hmap).1
      have hfound : map.mapping.find? (fun p =>
          symbolsMatch map.sampledBits (patternSymbols p.pattern) w) = some p := by
        have hmatch := List.find?_some hp
        refine find?_of_pairwise ?_ (List.Pairwise.and_mem.mp hapart)
          (hsub (List.mem_of_find?_eq_some hp)) (by rw [hbits]; exact hmatch)
        rintro q q' ⟨hq, -, hclash⟩ hmatches
        refine not_symbolsMatch_clash ?_ hclash hmatches
        rw [patternSymbols_length, hwellFormed.length_eq q hq]
      have hnext : map.next w = row.next w := by
        simp only [DecodeMapping.next, hfound, hp]
      exact .mapping hmap (hnext ▸ ih hform)

/--
Over a well-formed table without cycles that carries the rows of the branches,
whatever other rows it has, every word that is a branch is visited under the
form of that branch.
-/
theorem decoder_namesWords {table : List DecodeMapping} (h : WellFormedTable table)
    {depth : String → Nat} (hdepth : Acyclic table depth)
    (hcarries : Carries (decodeNodes table) (decodeNodes branchMappings))
    (formToUnalloc : List (FormHash × Word × Word)) :
    ∃ g, constructDecodeGraph table = some g ∧ ∀ w fuel, depth "Root" < fuel →
      ∀ row ∈ branchEncodings, row.bits.Holds w →
        decoderDecode g formToUnalloc fuel w =
          some (visitNamedInstruction formToUnalloc w row.form) := by
  obtain ⟨g, hg, hdecode⟩ := constructDecodeGraph_decode h
  refine ⟨g, hg, fun w fuel hfuel row hrow hholds => ?_⟩
  obtain ⟨form, hform⟩ := follow_isSome h hdepth h.root_isSome hfuel w
  have hnamed : ∀ row ∈ branchEncodings, row.form ≠ "unallocated" := by
    decide +kernel
  have hleads : LeadsTo (decodeNodes table) w "Root" row.form :=
    (leadsTo_of_allLead (branchEncodings_lead row hrow) hholds).carried h hcarries
      (by decide +kernel) (hnamed row hrow)
  rw [decoderDecode, hdecode, hform, (leadsTo_of_follow hform).unique hleads, Option.map_some]

/-- Whether the nodes of `part` are nodes of `nodes` as well. -/
def carries (nodes part : DecodeNodes) : Bool :=
  part.all fun entry =>
    match entry.2 with
    | .form instructionName => nodes.lookup entry.1 == some (.form instructionName)
    | .mapping row =>
        match nodes.lookup entry.1 with
        | some (.mapping map) => map.sampledBits == row.sampledBits &&
            row.mapping.all (map.mapping.contains ·) &&
              decide (map.mapping.Pairwise DecodePattern.Apart)
        | _ => false

theorem carries_sound {nodes part : DecodeNodes} (h : carries nodes part = true) :
    Carries nodes part := by
  rw [carries, List.all_eq_true] at h
  have hentry {name : String} {n : DecodeNode} (hlookup : part.lookup name = some n) :
      (name, n) ∈ part := by
    obtain ⟨before, after, rfl, -⟩ := List.lookup_eq_some_iff.mp hlookup
    simp
  refine ⟨fun name instructionName hlookup => ?_, fun name row hlookup => ?_⟩
  · exact eq_of_beq (h _ (hentry hlookup))
  · have hrow := h _ (hentry hlookup)
    simp only at hrow
    split at hrow
    · next map hmap =>
        simp only [Bool.and_eq_true, beq_iff_eq, List.all_eq_true, List.contains_iff_mem,
          decide_eq_true_eq] at hrow
        obtain ⟨⟨hbits, hsub⟩, hapart⟩ := hrow
        exact ⟨map, hmap, hbits, hsub, hapart⟩
    · cases hrow

/-- The rows of the branches among the rows of the exception returns. -/
def returnMappings : List DecodeMapping :=
  branchMappings.map (fun map =>
    if map.name = "_rqzpzq" then
      { map with
        mapping := map.mapping ++ [⟨bitPattern "1000000", "_mqmrng"⟩,
          ⟨bitPattern "1010111", "_hrmsnk"⟩, ⟨bitPattern "1011111", "_tqlrzh"⟩] }
    else map) ++
  [⟨"_mqmrng", [9, 8, 7, 6, 5, 2, 1], [⟨bitPattern "1111100", "eret_64e_branch_reg"⟩]⟩,
    ⟨"_hrmsnk", [9, 8, 7, 6, 5, 2, 1], [⟨bitPattern "1111111", "eretaa_64e_branch_reg"⟩]⟩,
    ⟨"_tqlrzh", [9, 8, 7, 6, 5, 2, 1], [⟨bitPattern "1111111", "eretab_64e_branch_reg"⟩]⟩]

theorem returnMappings_wellFormed : WellFormedTable returnMappings where
  mappings := by decide +kernel
  named := by decide +kernel
  root := by decide +kernel

def returnDepth (name : String) : Nat :=
  if name ∈ ["_mqmrng", "_hrmsnk", "_tqlrzh"] then 1 else branchDepth name

theorem returnMappings_acyclic : Acyclic returnMappings returnDepth := by
  rw [Acyclic]
  decide +kernel

theorem decoder_namesWords_returns :
    ∃ g, constructDecodeGraph returnMappings = some g ∧ ∀ w fuel, 5 < fuel →
      ∀ row ∈ branchEncodings, row.bits.Holds w →
        decoderDecode g [] fuel w = some (visitNamedInstruction [] w row.form) :=
  decoder_namesWords returnMappings_wellFormed returnMappings_acyclic
    (carries_sound (by decide +kernel)) []

end GabyVm.Aarch64
