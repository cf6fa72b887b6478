import GabyVm.Aarch64.DecodeMatch
import GabyVm.Aarch64.Decoder
import GabyVm.Foundation.LinkedGraph
import Mathlib.Data.List.Find

/-!
# The decode graph

The decode table maps the patterns of every node to the names of the next
nodes.  Construction collects the nodes by name and compiles them from the
root: each becomes a table over its sampled bits, or a two-way test where its
only pattern has no x.  Nodes may be shared, and a node is compiled once.
-/

namespace GabyVm.Aarch64

open GabyVm.Foundation

/-! ## The decode table -/

structure DecodePattern where
  pattern : BitVec 32
  handler : String
  deriving DecidableEq, Repr

structure DecodeMapping where
  name : String
  sampledBits : List Nat
  mapping : List DecodePattern
  deriving DecidableEq, Repr

inductive DecodeNode where
  | form (instructionName : String)
  | mapping (map : DecodeMapping)
  deriving DecidableEq, Repr

abbrev DecodeNodes := List (String × DecodeNode)

def addDecodeNode (nodes : DecodeNodes) (name : String) (node : DecodeNode) : DecodeNodes :=
  if (nodes.lookup name).isSome then nodes else nodes ++ [(name, node)]

/-- A handler with no `_` in front names an instruction form. -/
def namesForm (handler : String) : Bool := handler.toList.head? ≠ some '_'

/-- A form of an instruction has a node of its own. -/
def addForm (nodes : DecodeNodes) (p : DecodePattern) : DecodeNodes :=
  if namesForm p.handler then addDecodeNode nodes p.handler (.form p.handler) else nodes

def addMapping (nodes : DecodeNodes) (map : DecodeMapping) : DecodeNodes :=
  map.mapping.foldl addForm (addDecodeNode nodes map.name (.mapping map))

/-- The decode nodes that `ConstructDecodeGraph` collects. -/
def decodeNodes (kDecodeMapping : List DecodeMapping) : DecodeNodes :=
  addDecodeNode (kDecodeMapping.foldl addMapping []) "unallocated" (.form "unallocated")

/-! ## Bit extraction -/

inductive BitExtractFn where
  | extractBits (mask : Word)
  | isMaskedValue (mask value : Word)
  | absent
  deriving DecidableEq, Repr

/-- The value that selects the next node; an absent function is unreachable code. -/
def BitExtractFn.apply : BitExtractFn → Word → Option Nat
  | extractBits mask, w => some (w.compress mask).toNat
  | isMaskedValue mask value, w => some (if w &&& mask = value then 1 else 0)
  | absent, _ => none

def instantiatedMasks : List Word :=
  [0x2, 0x10, 0x60, 0xdf, 0x100, 0x200, 0x400, 0x800, 0xc00, 0xc10, 0xf00, 0xfc0, 0x1000, 0x1400,
    0x1800, 0x1c00, 0x2000, 0x2010, 0x2400, 0x3000, 0x3020, 0x3400, 0x3800, 0x3c00, 0x13000,
    0x203e0, 0x303e0, 0x40000, 0x40010, 0x60000, 0x61000, 0x70000, 0x703c0, 0x80000, 0x90000,
    0xf0000, 0xf0010, 0x100000, 0x180000, 0x1b1c00, 0x1f0000, 0x1f0018, 0x1f2000, 0x1f3000,
    0x400000, 0x400018, 0x400800, 0x403000, 0x500000, 0x500800, 0x583000, 0x5f0000, 0x800000,
    0x800400, 0x800c1d, 0x80101f, 0x801c00, 0x803000, 0x803c00, 0x9f0000, 0x9f2000, 0xc00000,
    0xc00010, 0xc0001f, 0xc00200, 0xc00400, 0xc00c00, 0xc00c19, 0xc01000, 0xc01400, 0xc01c00,
    0xc02000, 0xc03000, 0xc03c00, 0xc70000, 0xc83000, 0xd00200, 0xd80800, 0xd81800, 0xd81c00,
    0xd82800, 0xd82c00, 0xd92400, 0xd93000, 0xdb0000, 0xdb2000, 0xdc0000, 0xdc2000, 0xdf0000,
    0x40000000, 0x40000010, 0x40000c00, 0x40002000, 0x40002010, 0x40003000, 0x40003c00,
    0x401f2000, 0x40400800, 0x40400c00, 0x40403c00, 0x405f0000, 0x40800000, 0x40800c00,
    0x40802000, 0x40802010, 0x40803400, 0x40803c00, 0x40c00000, 0x40c00400, 0x40c00800,
    0x40c00c00, 0x40c00c10, 0x40c02000, 0x40c02010, 0x40c02c00, 0x40c03c00, 0x40c80000,
    0x40c90000, 0x40cf0000, 0x40d02000, 0x40d02010, 0x40d80000, 0x40d81800, 0x40dc0000,
    0xbf20c000]

def instantiatedMaskedValues : List (Word × Word) :=
  [(0x6, 0x0), (0x6, 0x6), (0x7, 0x0), (0x1f, 0x1f), (0x210, 0x0), (0x3e0, 0x0), (0x3e0, 0x3e0),
    (0x3e2, 0x3e0), (0x3e6, 0x3e0), (0x3e6, 0x3e6), (0xc00, 0x0), (0xfc0, 0x0), (0x13e0, 0x1000),
    (0x1c00, 0x0), (0x2400, 0x0), (0x3000, 0x0), (0x3000, 0x1000), (0x3000, 0x2000),
    (0x3000, 0x3000), (0x3010, 0x0), (0x301f, 0x1f), (0x3c00, 0x3c00), (0x40010, 0x0),
    (0x60000, 0x0), (0x61000, 0x0), (0x70000, 0x30000), (0x7309f, 0x1f), (0x73ee0, 0x33060),
    (0x73f9f, 0x1f), (0xf0000, 0x0), (0xf0010, 0x0), (0x100200, 0x0), (0x100210, 0x0),
    (0x160000, 0x0), (0x170000, 0x0), (0x1c0000, 0x0), (0x1d0000, 0x0), (0x1e0000, 0x0),
    (0x1f0000, 0x0), (0x1f0000, 0x10000), (0x1f0000, 0x100000), (0x1f0000, 0x1f0000),
    (0x1f3000, 0x0), (0x1f3000, 0x1000), (0x1f3000, 0x1f0000), (0x1f300f, 0xd), (0x1f301f, 0xd),
    (0x1f33e0, 0x103e0), (0x1f3800, 0x0), (0x401000, 0x400000), (0x5f3000, 0x1f0000),
    (0x5f3000, 0x1f1000), (0x800010, 0x0), (0x800400, 0x0), (0x800410, 0x0), (0x803000, 0x2000),
    (0x870000, 0x0), (0x9f0000, 0x10000), (0xc00000, 0x0), (0xc00000, 0x400000), (0xc0001f, 0x0),
    (0xc001ff, 0x0), (0xc00200, 0x400000), (0xc0020f, 0x400000), (0xc003e0, 0x0), (0xc00800, 0x0),
    (0xd80800, 0x0), (0xdf0000, 0x0), (0xdf3800, 0x1f0800), (0x40002000, 0x40000000),
    (0x40003c00, 0x0), (0x40040000, 0x0), (0x401f2000, 0x401f0000), (0x40800c00, 0x40000400),
    (0x40c00000, 0x0), (0x40c00000, 0x400000), (0x40c00000, 0x40000000), (0x40c00000, 0x40800000),
    (0x40df0000, 0x0)]

/-- With `y = 0` the mask `x`, otherwise the mask `y` and the value `x`. -/
def getBitExtractFunctionHelper (x y : Word) : BitExtractFn :=
  if y = 0 then if x ∈ instantiatedMasks then .extractBits x else .absent
  else if (y, x) ∈ instantiatedMaskedValues then .isMaskedValue y x else .absent

/-! ## Compilation -/

inductive CompiledDecodeNode where
  | visitor (instructionName : String)
  | table (bitExtractFn : BitExtractFn) (decodeTableSize : Nat)
  deriving DecidableEq, Repr

/-- The pattern of a node that `TryCompileOptimisedDecodeTable` makes a two-way test of. -/
def optimisedPattern (map : DecodeMapping) : Option DecodePattern :=
  match map.mapping with
  | [p] =>
      if 1 < map.sampledBits.length ∧ patternContainsSymbol p.pattern .symbolX = false then some p
      else none
  | _ => none

/-- The masks and values of the patterns of a node, with the handlers. -/
def patternMatches (map : DecodeMapping) : List ((Word × Word) × String) :=
  map.mapping.map fun p =>
    (generateMaskValuePair (generateOrderedPattern map.sampledBits p.pattern), p.handler)

/-- The entry of the decode table for the sampled bits. -/
def nodeForBits (map : DecodeMapping) (bits : Word) : String :=
  match (patternMatches map).find? fun m => bits &&& m.1.1 = m.1.2 with
  | some m => m.2
  | none => "unallocated"

/-- What `Compile` makes of a node: the compiled node and the nodes of its table in order. -/
def DecodeNode.compile : DecodeNode → CompiledDecodeNode × List String
  | .form instructionName => (.visitor instructionName, [])
  | .mapping map =>
      match optimisedPattern map with
      | some p =>
          let mv := singleDecode map.sampledBits p.pattern
          (.table (getBitExtractFunctionHelper mv.2 mv.1) 2, ["unallocated", p.handler])
      | none =>
          let size := 2 ^ map.sampledBits.length
          (.table (getBitExtractFunctionHelper (generateSampledBitsMask map.sampledBits) 0) size,
            (List.range size).map fun bits => nodeForBits map (BitVec.ofNat 32 bits))

def compilePlan (nodes : DecodeNodes) (name : String) :
    Option (CompiledDecodeNode × List String) :=
  (nodes.lookup name).map DecodeNode.compile

abbrev DecodeGraph := LinkedGraph String CompiledDecodeNode

/-- Each node is compiled once, so the recursion is no deeper than there are nodes. -/
def constructDecodeGraph (kDecodeMapping : List DecodeMapping) : Option DecodeGraph :=
  let nodes := decodeNodes kDecodeMapping
  LinkedGraph.build (compilePlan nodes) nodes.length "Root" LinkedGraph.empty

/-- `CompiledDecodeNode::Decode`: the form whose visitor is called. -/
def decodeFrom (g : DecodeGraph) : Nat → String → Word → Option String
  | 0, _, _ => none
  | fuel + 1, name, w =>
      match g name with
      | none => none
      | some n =>
          match n.node with
          | .visitor instructionName => some instructionName
          | .table bitExtractFn _ =>
              (bitExtractFn.apply w).bind fun bits =>
                (n.links bits).bind fun next => decodeFrom g fuel next w

/-! ## The table read as it stands -/

def patternSymbols (pattern : BitVec 32) : List PatternSymbol :=
  (List.range (getPatternLength pattern)).map fun i =>
    if getSymbolAt pattern i = 0 then .symbol0
    else if getSymbolAt pattern i = 1 then .symbol1
    else .symbolX

/-- The first pattern that the word matches tells the next node. -/
def DecodeMapping.next (map : DecodeMapping) (w : Word) : String :=
  match map.mapping.find? fun p =>
      symbolsMatch map.sampledBits (patternSymbols p.pattern) w with
  | some p => p.handler
  | none => "unallocated"

/-- Follow the patterns of the named nodes to a form. -/
def followPatterns (nodes : DecodeNodes) : Nat → String → Word → Option String
  | 0, _, _ => none
  | fuel + 1, name, w =>
      match nodes.lookup name with
      | none => none
      | some (.form instructionName) => some instructionName
      | some (.mapping map) => followPatterns nodes fuel (map.next w) w

/-! ## Well-formed tables -/

/-- The bit extraction of the compiled node. -/
def DecodeMapping.extraction (map : DecodeMapping) : BitExtractFn :=
  match optimisedPattern map with
  | some p =>
      let mv := singleDecode map.sampledBits p.pattern
      getBitExtractFunctionHelper mv.2 mv.1
  | none => getBitExtractFunctionHelper (generateSampledBitsMask map.sampledBits) 0

structure DecodeMapping.WellFormed (map : DecodeMapping) : Prop where
  nodup : map.sampledBits.Nodup
  inWord : ∀ bit ∈ map.sampledBits, bit < 32
  length_le : map.sampledBits.length ≤ 15
  encoded : ∀ p ∈ map.mapping, encodeSymbols (patternSymbols p.pattern) = p.pattern
  length_eq : ∀ p ∈ map.mapping, getPatternLength p.pattern = map.sampledBits.length
  instantiated : map.extraction ≠ .absent

structure WellFormedTable (kDecodeMapping : List DecodeMapping) : Prop where
  mappings : ∀ map ∈ kDecodeMapping, map.WellFormed
  named : ∀ map ∈ kDecodeMapping, ∀ p ∈ map.mapping, namesForm p.handler = false →
    ∃ m ∈ kDecodeMapping, m.name = p.handler
  root : ∃ map ∈ kDecodeMapping, map.name = "Root"

theorem patternSymbols_length (pattern : BitVec 32) :
    (patternSymbols pattern).length = getPatternLength pattern := by
  simp [patternSymbols]

theorem DecodeMapping.WellFormed.samples {map : DecodeMapping} (h : map.WellFormed)
    {p : DecodePattern} (hp : p ∈ map.mapping) :
    Samples map.sampledBits (patternSymbols p.pattern) where
  nodup := h.nodup
  inWord := h.inWord
  length_eq := by rw [patternSymbols_length, h.length_eq p hp]
  length_le := by
    rw [patternSymbols_length, h.length_eq p hp]
    exact h.length_le

/-! ### The collected nodes -/

theorem addDecodeNode_lookup {nodes : DecodeNodes} {name : String} {node : DecodeNode}
    {k : String} {n : DecodeNode} (h : (addDecodeNode nodes name node).lookup k = some n) :
    nodes.lookup k = some n ∨ (k = name ∧ n = node) := by
  simp only [addDecodeNode] at h
  split_ifs at h with hthere
  · exact .inl h
  · rw [List.lookup_append] at h
    cases hold : nodes.lookup k with
    | some m =>
        rw [hold, Option.some_or] at h
        exact .inl h
    | none =>
        rw [hold, Option.none_or] at h
        obtain ⟨l₁, l₂, hsplit, -⟩ := List.lookup_eq_some_iff.mp h
        have hmem : (k, n) ∈ [(name, node)] := by simp [hsplit]
        exact .inr (Prod.mk.inj (List.mem_singleton.mp hmem))

theorem addDecodeNode_isSome (nodes : DecodeNodes) (name : String) (node : DecodeNode)
    {k : String} (h : (nodes.lookup k).isSome = true ∨ k = name) :
    ((addDecodeNode nodes name node).lookup k).isSome = true := by
  simp only [addDecodeNode]
  split_ifs with hthere
  · rcases h with h | rfl
    · exact h
    · exact hthere
  · rw [List.lookup_append, Option.isSome_or]
    rcases h with h | rfl
    · rw [h, Bool.true_or]
    · simp

def FromTable (kDecodeMapping : List DecodeMapping) (name : String) : DecodeNode → Prop
  | .form instructionName => instructionName = name
  | .mapping map => map ∈ kDecodeMapping ∧ map.name = name

theorem addForm_lookup {nodes : DecodeNodes} {p : DecodePattern} {k : String} {n : DecodeNode}
    (h : (addForm nodes p).lookup k = some n) : nodes.lookup k = some n ∨ n = .form k := by
  simp only [addForm] at h
  split_ifs at h with hform
  · rcases addDecodeNode_lookup h with hold | ⟨rfl, rfl⟩
    · exact .inl hold
    · exact .inr rfl
  · exact .inl h

theorem addForm_isSome (nodes : DecodeNodes) (p : DecodePattern) {k : String}
    (h : (nodes.lookup k).isSome = true ∨ (namesForm p.handler = true ∧ p.handler = k)) :
    ((addForm nodes p).lookup k).isSome = true := by
  simp only [addForm]
  split_ifs with hform
  · exact addDecodeNode_isSome _ _ _ (h.imp_right fun hk => hk.2.symm)
  · exact h.resolve_right fun hk => hform hk.1

theorem addForms_lookup {patterns : List DecodePattern} {nodes : DecodeNodes} {k : String}
    {n : DecodeNode} (h : (patterns.foldl addForm nodes).lookup k = some n) :
    nodes.lookup k = some n ∨ n = .form k := by
  induction patterns generalizing nodes with
  | nil => exact .inl h
  | cons p patterns ih =>
      rcases ih h with hold | hnew
      · exact addForm_lookup hold
      · exact .inr hnew

theorem addForms_isSome {patterns : List DecodePattern} {nodes : DecodeNodes} {k : String}
    (h : (nodes.lookup k).isSome = true ∨
      ∃ p ∈ patterns, namesForm p.handler = true ∧ p.handler = k) :
    ((patterns.foldl addForm nodes).lookup k).isSome = true := by
  induction patterns generalizing nodes with
  | nil => exact h.resolve_right (by simp)
  | cons p patterns ih =>
      refine ih ?_
      rcases h with h | ⟨q, hq, hk⟩
      · exact .inl (addForm_isSome nodes p (.inl h))
      · rcases List.mem_cons.mp hq with rfl | hq
        · exact .inl (addForm_isSome nodes q (.inr hk))
        · exact .inr ⟨q, hq, hk⟩

theorem addMappings_lookup {table : List DecodeMapping} {nodes : DecodeNodes} {k : String}
    {n : DecodeNode} (h : (table.foldl addMapping nodes).lookup k = some n) :
    nodes.lookup k = some n ∨ FromTable table k n := by
  induction table generalizing nodes with
  | nil => exact .inl h
  | cons map table ih =>
      rcases ih h with hold | hnew
      · rcases addForms_lookup hold with hold | rfl
        · rcases addDecodeNode_lookup hold with hold | ⟨rfl, rfl⟩
          · exact .inl hold
          · exact .inr ⟨List.mem_cons_self, rfl⟩
        · exact .inr rfl
      · right
        cases n with
        | form instructionName => exact hnew
        | mapping m => exact ⟨List.mem_cons_of_mem _ hnew.1, hnew.2⟩

theorem addMappings_isSome {table : List DecodeMapping} {nodes : DecodeNodes} {k : String}
    (h : (nodes.lookup k).isSome = true ∨ ∃ map ∈ table,
      map.name = k ∨ ∃ p ∈ map.mapping, namesForm p.handler = true ∧ p.handler = k) :
    ((table.foldl addMapping nodes).lookup k).isSome = true := by
  induction table generalizing nodes with
  | nil => exact h.resolve_right (by simp)
  | cons map table ih =>
      refine ih ?_
      rcases h with h | ⟨m, hm, hk⟩
      · exact .inl (addForms_isSome (.inl (addDecodeNode_isSome _ _ _ (.inl h))))
      · rcases List.mem_cons.mp hm with rfl | hm
        · left
          rcases hk with rfl | hk
          · exact addForms_isSome (.inl (addDecodeNode_isSome _ _ _ (.inr rfl)))
          · exact addForms_isSome (.inr hk)
        · exact .inr ⟨m, hm, hk⟩

theorem decodeNodes_lookup {table : List DecodeMapping} {k : String} {n : DecodeNode}
    (h : (decodeNodes table).lookup k = some n) : FromTable table k n := by
  rcases addDecodeNode_lookup h with hold | ⟨rfl, rfl⟩
  · exact (addMappings_lookup hold).resolve_left (by simp)
  · rfl

theorem DecodeMapping.next_mem (map : DecodeMapping) (w : Word) :
    map.next w = "unallocated" ∨ ∃ p ∈ map.mapping, p.handler = map.next w := by
  rw [DecodeMapping.next]
  split
  · next p hp => exact .inr ⟨p, List.mem_of_find?_eq_some hp, rfl⟩
  · exact .inl rfl

theorem nodeForBits_mem (map : DecodeMapping) (bits : Word) :
    nodeForBits map bits = "unallocated" ∨ ∃ p ∈ map.mapping, p.handler = nodeForBits map bits := by
  rw [nodeForBits]
  split
  · next m hm =>
      obtain ⟨p, hp, rfl⟩ := List.mem_map.mp (List.mem_of_find?_eq_some hm)
      exact .inr ⟨p, hp, rfl⟩
  · exact .inl rfl

theorem WellFormedTable.target_isSome {table : List DecodeMapping} (h : WellFormedTable table)
    {map : DecodeMapping} (hmap : map ∈ table) {target : String}
    (ht : target = "unallocated" ∨ ∃ p ∈ map.mapping, p.handler = target) :
    ((decodeNodes table).lookup target).isSome = true := by
  refine addDecodeNode_isSome _ _ _ ?_
  rcases ht with rfl | ⟨p, hp, rfl⟩
  · exact .inr rfl
  · left
    refine addMappings_isSome (.inr ?_)
    cases hform : namesForm p.handler with
    | true => exact ⟨map, hmap, .inr ⟨p, hp, hform, rfl⟩⟩
    | false =>
        obtain ⟨m, hm, hname⟩ := h.named map hmap p hp hform
        exact ⟨m, hm, .inl hname⟩

/-! ## What compilation does -/

theorem optimisedPattern_eq_some {map : DecodeMapping} {p : DecodePattern}
    (h : optimisedPattern map = some p) :
    map.mapping = [p] ∧ 1 < map.sampledBits.length ∧
      patternContainsSymbol p.pattern .symbolX = false := by
  simp only [optimisedPattern] at h
  split at h
  · next q hq =>
      split_ifs at h with hcond
      cases h
      exact ⟨hq, hcond⟩
  · cases h

/-- The entry for the bits of a word is the node that its patterns name. -/
theorem nodeForBits_compress {map : DecodeMapping} (h : map.WellFormed) (w : Word) :
    nodeForBits map (w.compress (generateSampledBitsMask map.sampledBits)) = map.next w := by
  have hfind : (patternMatches map).find? (fun m =>
        w.compress (generateSampledBitsMask map.sampledBits) &&& m.1.1 = m.1.2) =
      (map.mapping.find? fun p => symbolsMatch map.sampledBits (patternSymbols p.pattern) w).map
        fun p => (generateMaskValuePair (generateOrderedPattern map.sampledBits p.pattern),
          p.handler) := by
    rw [patternMatches, List.find?_map]
    congr 1
    refine List.find?_congr fun p hp => ?_
    have hmatch := (h.samples hp).compress_match w
    rw [h.encoded p hp] at hmatch
    rw [← Bool.coe_iff_coe, ← hmatch]
    simp
  rw [nodeForBits, hfind, DecodeMapping.next]
  cases map.mapping.find? _ <;> rfl

theorem compile_mapping {map : DecodeMapping} (h : map.WellFormed) (w : Word) :
    ∃ fn size, ((DecodeNode.mapping map).compile).1 = .table fn size ∧
      ∃ bits, fn.apply w = some bits ∧
        ((DecodeNode.mapping map).compile).2[bits]? = some (map.next w) := by
  have hfn := h.instantiated
  cases hopt : optimisedPattern map with
  | some p =>
      obtain ⟨hmapping, hlen, hx⟩ := optimisedPattern_eq_some hopt
      have hp : p ∈ map.mapping := by simp [hmapping]
      have hsamples := h.samples hp
      have hnox : PatternSymbol.symbolX ∉ patternSymbols p.pattern := by
        have hlength := hsamples.length_le
        have hcontains := patternContains_encode hlength
          (show (patternSymbols p.pattern).length < 16 by omega) .symbolX
        rw [h.encoded p hp] at hcontains
        rw [patternContainsSymbol, hcontains] at hx
        simpa using hx
      have hmatch := hsamples.singleDecode_match hnox w
      rw [h.encoded p hp] at hmatch
      have hnext : map.next w =
          if symbolsMatch map.sampledBits (patternSymbols p.pattern) w then p.handler
          else "unallocated" := by
        rw [DecodeMapping.next, hmapping, List.find?_singleton]
        split_ifs <;> rfl
      have hsome : getBitExtractFunctionHelper (singleDecode map.sampledBits p.pattern).2
          (singleDecode map.sampledBits p.pattern).1 =
            .isMaskedValue (singleDecode map.sampledBits p.pattern).1
              (singleDecode map.sampledBits p.pattern).2 := by
        have hmask := hsamples.singleDecode_ne_zero (by omega)
        rw [h.encoded p hp] at hmask
        rw [DecodeMapping.extraction, hopt] at hfn
        simp only [getBitExtractFunctionHelper, if_neg hmask] at hfn ⊢
        split_ifs at hfn ⊢ with hin
        · rfl
        · exact absurd rfl hfn
      refine ⟨_, 2, by rw [DecodeNode.compile, hopt], _, by rw [hsome]; rfl, ?_⟩
      rw [DecodeNode.compile, hopt, hnext]
      by_cases hword : symbolsMatch map.sampledBits (patternSymbols p.pattern) w = true
      · rw [if_pos hword, if_pos (hmatch.mpr hword)]
        rfl
      · rw [if_neg hword, if_neg (mt hmatch.mp hword)]
        rfl
  | none =>
      have hsome : getBitExtractFunctionHelper (generateSampledBitsMask map.sampledBits) 0 =
          .extractBits (generateSampledBitsMask map.sampledBits) := by
        rw [DecodeMapping.extraction, hopt] at hfn
        simp only [getBitExtractFunctionHelper, if_true] at hfn ⊢
        split_ifs at hfn ⊢ with hin
        · rfl
        · exact absurd rfl hfn
      have hlt : (w.compress (generateSampledBitsMask map.sampledBits)).toNat <
          2 ^ map.sampledBits.length := compress_sampled_lt w
      refine ⟨_, _, by rw [DecodeNode.compile, hopt], _, by rw [hsome]; rfl, ?_⟩
      rw [DecodeNode.compile, hopt]
      simp only [List.getElem?_map, List.getElem?_range hlt, Option.map_some, Option.some.injEq]
      rw [BitVec.ofNat_toNat, BitVec.setWidth_eq, nodeForBits_compress h]

/-! ## The compiled graph -/

theorem WellFormedTable.nodes_wellFormed {table : List DecodeMapping} (h : WellFormedTable table)
    {name : String} {map : DecodeMapping}
    (hnode : (decodeNodes table).lookup name = some (.mapping map)) :
    map ∈ table ∧ map.WellFormed := by
  have hmem := (decodeNodes_lookup hnode).1
  exact ⟨hmem, h.mappings map hmem⟩

theorem compile_targets {map : DecodeMapping} {t : String}
    (ht : t ∈ ((DecodeNode.mapping map).compile).2) :
    t = "unallocated" ∨ ∃ p ∈ map.mapping, p.handler = t := by
  rw [DecodeNode.compile] at ht
  cases hopt : optimisedPattern map with
  | some p =>
      rw [hopt] at ht
      simp only [List.mem_cons, List.not_mem_nil, or_false] at ht
      rcases ht with rfl | rfl
      · exact .inl rfl
      · exact .inr ⟨p, by simp [(optimisedPattern_eq_some hopt).1], rfl⟩
  | none =>
      rw [hopt] at ht
      obtain ⟨bits, -, rfl⟩ := List.mem_map.mp ht
      exact nodeForBits_mem map _

theorem WellFormedTable.root_isSome {table : List DecodeMapping} (h : WellFormedTable table) :
    ((decodeNodes table).lookup "Root").isSome = true := by
  obtain ⟨map, hmap, hname⟩ := h.root
  exact addDecodeNode_isSome _ _ _ (.inl (addMappings_isSome (.inr ⟨map, hmap, .inl hname⟩)))

theorem WellFormedTable.construct_isSome {table : List DecodeMapping} (h : WellFormedTable table) :
    ∃ g, constructDecodeGraph table = some g := by
  have hnames (k : String) : k ∈ ((decodeNodes table).map Prod.fst).toFinset ↔
      ((decodeNodes table).lookup k).isSome = true := by
    rw [List.lookup_isSome_iff, List.mem_toFinset, List.mem_map]
    exact ⟨fun ⟨p, hp, hk⟩ => ⟨p, hp, beq_iff_eq.mpr hk.symm⟩,
      fun ⟨p, hp, hk⟩ => ⟨p, hp, (beq_iff_eq.mp hk).symm⟩⟩
  have hclosed : ∀ k ∈ ((decodeNodes table).map Prod.fst).toFinset, ∃ node targets,
      compilePlan (decodeNodes table) k = some (node, targets) ∧
        ∀ t ∈ targets, t ∈ ((decodeNodes table).map Prod.fst).toFinset := by
    intro k hk
    obtain ⟨n, hn⟩ := Option.isSome_iff_exists.mp ((hnames k).mp hk)
    refine ⟨n.compile.1, n.compile.2, by simp [compilePlan, hn], fun t ht => (hnames t).mpr ?_⟩
    cases n with
    | form instructionName => simp [DecodeNode.compile] at ht
    | mapping map =>
        exact h.target_isSome (h.nodes_wellFormed hn).1 (compile_targets ht)
  have hfuel : (LinkedGraph.missing ((decodeNodes table).map Prod.fst).toFinset
      (LinkedGraph.empty (ν := CompiledDecodeNode))).card ≤ (decodeNodes table).length := by
    refine (Finset.card_filter_le _ _).trans ((List.toFinset_card_le _).trans ?_)
    rw [List.length_map]
  obtain ⟨g, hg, -⟩ := LinkedGraph.build_isSome hclosed ((hnames "Root").mpr h.root_isSome) rfl hfuel
  exact ⟨g, hg⟩

theorem decodeFrom_eq {table : List DecodeMapping} (h : WellFormedTable table) {g : DecodeGraph}
    (hg : ∀ k, (g k).isSome = true → LinkedGraph.Filled (compilePlan (decodeNodes table)) g k)
    {name : String} (hname : (g name).isSome = true) (fuel : Nat) (w : Word) :
    decodeFrom g fuel name w = followPatterns (decodeNodes table) fuel name w := by
  induction fuel generalizing name with
  | zero => rfl
  | succ fuel ih =>
      obtain ⟨node, targets, hplan, hnode, htargets⟩ := hg name hname
      obtain ⟨n, hn, hcompile⟩ := Option.map_eq_some_iff.mp hplan
      simp only [decodeFrom, followPatterns, hnode, hn]
      cases n with
      | form instructionName =>
          obtain ⟨rfl, -⟩ := Prod.mk.inj hcompile
          rfl
      | mapping map =>
          obtain ⟨fn, size, htable, bits, hbits, hlink⟩ :=
            compile_mapping (h.nodes_wellFormed hn).2 w
          rw [hcompile] at htable hlink
          simp only at htable hlink
          rw [htable]
          simp only [hbits, hlink, Option.bind_some]
          exact ih (htargets _ (List.mem_of_getElem? hlink))

/--
The compiled graph decodes as the table is written: compilation succeeds, and
every word is led to the form that the patterns lead it to.
-/
theorem constructDecodeGraph_decode {table : List DecodeMapping} (h : WellFormedTable table) :
    ∃ g, constructDecodeGraph table = some g ∧ ∀ fuel w,
      decodeFrom g fuel "Root" w = followPatterns (decodeNodes table) fuel "Root" w := by
  obtain ⟨g, hg⟩ := h.construct_isSome
  obtain ⟨hext, hroot⟩ := LinkedGraph.build_extends rfl hg
  exact ⟨g, hg, fun fuel w => decodeFrom_eq h (fun k hk => hext.filled k rfl hk) hroot fuel w⟩

end GabyVm.Aarch64
