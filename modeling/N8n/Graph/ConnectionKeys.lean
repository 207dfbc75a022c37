import Mathlib.Data.List.Induction
import N8n.Foundations.NestedFrames
import N8n.Graph.RemoveNode

/-!
# The keys of connections

A key is made of the parts of a connection with a dash between them, and the names of nodes
may contain dashes. Two connections have the same key exactly when they have the same parts or
the key of each can be read in the name of a node of the other.
-/

namespace N8n

open NestedFrames

/-- The parts of a connection that a call of `addConnection` may leave out are optional. -/
structure ConnectionInput where
  fromNode : INode
  toNode : INode
  type : Option NodeConnectionType := none
  outputIndex : Option ℕ := none
  inputIndex : Option ℕ := none

def ConnectionInput.connection (input : ConnectionInput) : GraphConnection where
  fromNode := input.fromNode
  toNode := input.toNode
  type := input.type.getD .main
  outputIndex := input.outputIndex.getD 0
  inputIndex := input.inputIndex.getD 0

namespace DirectedGraph

def getConnection (graph : DirectedGraph) (fromNode : INode) (outputIndex : ℕ)
    (type : NodeConnectionType) (inputIndex : ℕ) (toNode : INode) : Option GraphConnection :=
  graph.connections.get? (makeKey ⟨fromNode, toNode, type, outputIndex, inputIndex⟩)

def hasEnds (graph : DirectedGraph) (connection : GraphConnection) : Prop :=
  graph.nodeExists connection.fromNode ∧ graph.nodeExists connection.toNode

instance (graph : DirectedGraph) (connection : GraphConnection) :
    Decidable (graph.hasEnds connection) := inferInstanceAs (Decidable (_ ∧ _))

/-- A call whose assertion fails throws and leaves the graph as it is. -/
def callAddConnection (graph : DirectedGraph) (input : ConnectionInput) : DirectedGraph :=
  match graph.addConnection input.connection with
  | .ok graph' => graph'
  | .error _ => graph

def afterCalls (graph : DirectedGraph) (calls : List ConnectionInput) : DirectedGraph :=
  calls.foldl callAddConnection graph

/-- The connections of the calls that do not throw. -/
def added (graph : DirectedGraph) (calls : List ConnectionInput) : List GraphConnection :=
  (calls.map (·.connection)).filter fun connection => decide (graph.hasEnds connection)

/-- Each connection that was added is returned, and no other one is found in its place. -/
structure KeepsEach (graph : DirectedGraph) (connections : List GraphConnection) : Prop where
  returned : ∀ c ∈ connections, c ∈ graph.getConnections
  found : ∀ c, graph.hasEnds c →
    graph.getConnection c.fromNode c.outputIndex c.type c.inputIndex c.toNode =
      if c ∈ connections then some c else none

/-! ### Names and keys, cut at their dashes -/

/-- `split('-')` -/
def pieces (name : String) : List (List Char) := name.toList.splitOn '-'

/-- The type and the two indexes, as they stand in the key. -/
def keyParts (c : GraphConnection) : List (List Char) :=
  [c.type.text.toList, (toString c.outputIndex).toList, (toString c.inputIndex).toList]

/-- The name of the source of `c'` goes on from that of `c` with the other parts of `c`, and the
name of the target of `c` ends with the parts of `c'` and the name of its target. -/
def Nested (c c' : GraphConnection) : Prop :=
  ∃ inner, pieces c'.fromNode.name = pieces c.fromNode.name ++ (keyParts c ++ inner) ∧
    pieces c.toNode.name = inner ++ (keyParts c' ++ pieces c'.toNode.name)

theorem pieces_inj {name name' : String} : pieces name = pieces name' ↔ name = name' := by
  refine ⟨fun h => String.toList_inj.mp ?_, congrArg pieces⟩
  have hjoin : ∀ name : String, ['-'].intercalate (pieces name) = name.toList :=
    fun name => List.intercalate_splitOn '-'
  rw [← hjoin name, ← hjoin name', h]

theorem isDigit_of_mem_toString {n : ℕ} {ch : Char} (h : ch ∈ (toString n).toList) :
    ch.isDigit = true := by
  rw [Nat.toString_eq_ofList_toDigits, String.toList_ofList] at h
  exact Nat.isDigit_of_mem_toDigits (by decide) (Nat.le_refl _) h

theorem dash_notMem_toString (n : ℕ) : '-' ∉ (toString n).toList := fun h =>
  absurd (isDigit_of_mem_toString h) (by decide)

theorem dash_notMem_text (type : NodeConnectionType) : '-' ∉ type.text.toList := by
  cases type <;> decide

theorem text_ne_toString (type : NodeConnectionType) (n : ℕ) :
    type.text.toList ≠ (toString n).toList := by
  intro h
  have hall : type.text.toList.all Char.isDigit = true := List.all_eq_true.mpr fun ch hch =>
    isDigit_of_mem_toString (h ▸ hch)
  revert hall
  cases type <;> decide

theorem text_injective {type type' : NodeConnectionType} (h : type.text = type'.text) :
    type = type' := by
  revert h
  cases type <;> cases type' <;> decide

theorem toString_injective {m n : ℕ} (h : (toString m).toList = (toString n).toList) : m = n := by
  rw [Nat.toString_eq_ofList_toDigits, Nat.toString_eq_ofList_toDigits, String.toList_ofList,
    String.toList_ofList] at h
  rw [← @Nat.ofDigitChars_ten_toDigits m, h, Nat.ofDigitChars_ten_toDigits]

theorem pieces_makeKey (c : GraphConnection) :
    pieces (makeKey c) = pieces c.fromNode.name ++ (keyParts c ++ pieces c.toNode.name) := by
  have hkey : (makeKey c).toList = c.fromNode.name.toList ++ '-' :: (c.type.text.toList ++
      '-' :: ((toString c.outputIndex).toList ++ '-' :: ((toString c.inputIndex).toList ++
      '-' :: c.toNode.name.toList))) := by
    simp only [makeKey, String.toList_append, List.append_assoc]
    rfl
  rw [pieces, hkey, List.splitOn_append_cons_self,
    List.splitOn_append_cons_self_of_not_mem (dash_notMem_text _),
    List.splitOn_append_cons_self_of_not_mem (dash_notMem_toString _),
    List.splitOn_append_cons_self_of_not_mem (dash_notMem_toString _)]
  rfl

/-- Beginnings and ends of the middle parts of two keys differ: a type is not a number. -/
theorem keyParts_noOverlap (c c' : GraphConnection) : NoOverlap (keyParts c) (keyParts c') := by
  rintro front back hparts hfront hback ⟨rest, hstart⟩
  rw [keyParts] at hstart hparts
  match front, hfront with
  | [_], _ =>
    obtain ⟨-, rfl⟩ := List.cons_eq_cons.mp hparts
    exact text_ne_toString _ _ (List.cons_eq_cons.mp hstart).1.symm
  | [_, _], _ =>
    obtain ⟨-, hparts⟩ := List.cons_eq_cons.mp hparts
    obtain ⟨-, rfl⟩ := List.cons_eq_cons.mp hparts
    exact text_ne_toString _ _ (List.cons_eq_cons.mp hstart).1.symm
  | _ :: _ :: _ :: front, _ =>
    simp only [List.cons_append, List.cons.injEq, List.nil_eq, List.append_eq_nil_iff] at hparts
    exact hback hparts.2.2.2.2

theorem keyParts_inj {c c' : GraphConnection} (h : keyParts c = keyParts c') :
    c.type = c'.type ∧ c.outputIndex = c'.outputIndex ∧ c.inputIndex = c'.inputIndex := by
  simp only [keyParts, List.cons.injEq, and_true] at h
  exact ⟨text_injective (String.toList_inj.mp h.1), toString_injective h.2.1,
    toString_injective h.2.2⟩

/-- Where the names of the ends tell the nodes, only nested connections share their key. -/
theorem makeKey_eq_iff {c c' : GraphConnection}
    (hfrom : c.fromNode.name = c'.fromNode.name → c.fromNode = c'.fromNode)
    (hto : c.toNode.name = c'.toNode.name → c.toNode = c'.toNode) :
    makeKey c = makeKey c' ↔ c = c' ∨ Nested c c' ∨ Nested c' c := by
  rw [← pieces_inj, pieces_makeKey, pieces_makeKey]
  constructor
  · intro h
    have hlength : (keyParts c).length = (keyParts c').length := rfl
    rcases eq_or_nested hlength (keyParts_noOverlap c c') (keyParts_noOverlap c' c) h with
      ⟨hfront, hparts, hback⟩ | hnested | hnested
    · obtain ⟨htype, houtput, hinput⟩ := keyParts_inj hparts
      left
      cases c
      cases c'
      simp only [GraphConnection.mk.injEq]
      exact ⟨hfrom (pieces_inj.mp hfront), hto (pieces_inj.mp hback), htype, houtput, hinput⟩
    · exact Or.inr (Or.inl hnested)
    · exact Or.inr (Or.inr hnested)
  · rintro (rfl | ⟨inner, hfront, hback⟩ | ⟨inner, hfront, hback⟩)
    · rfl
    · exact append_of_nested hfront hback
    · exact (append_of_nested hfront hback).symm

theorem Nested.ne {c c' : GraphConnection} (h : Nested c c') : c ≠ c' := by
  rintro rfl
  obtain ⟨inner, hfront, -⟩ := h
  have hlength := congrArg List.length hfront
  simp [keyParts] at hlength

/-! ### The graph after a sequence of calls -/

section
variable {graph : DirectedGraph}

theorem callAddConnection_eq (input : ConnectionInput) :
    graph.callAddConnection input =
      if graph.hasEnds input.connection then
        { graph with
          connections := graph.connections.set (makeKey input.connection) input.connection }
      else graph := by
  by_cases h : graph.hasEnds input.connection
  · have hadd : graph.addConnection input.connection = .ok _ := if_pos h
    rw [callAddConnection, hadd, if_pos h]
  · have hadd : graph.addConnection input.connection = .error _ := if_neg h
    rw [callAddConnection, hadd, if_neg h]

theorem afterCalls_concat (calls : List ConnectionInput) (input : ConnectionInput) :
    graph.afterCalls (calls ++ [input]) = (graph.afterCalls calls).callAddConnection input := by
  rw [afterCalls, List.foldl_concat]
  rfl

theorem afterCalls_nodes (calls : List ConnectionInput) :
    (graph.afterCalls calls).nodes = graph.nodes := by
  induction calls using List.reverseRecOn with
  | nil => rfl
  | append_singleton calls input ih =>
    rw [afterCalls_concat, callAddConnection_eq]
    split_ifs
    · exact ih
    · exact ih

theorem afterCalls_hasEnds {calls : List ConnectionInput} {c : GraphConnection} :
    (graph.afterCalls calls).hasEnds c ↔ graph.hasEnds c := by
  rw [hasEnds, hasEnds, nodeExists, nodeExists, nodeExists, nodeExists, afterCalls_nodes]

theorem mem_added {calls : List ConnectionInput} {c : GraphConnection} :
    c ∈ graph.added calls ↔ (∃ input ∈ calls, input.connection = c) ∧ graph.hasEnds c := by
  simp [added]

theorem added_concat (calls : List ConnectionInput) (input : ConnectionInput)
    (c : GraphConnection) : c ∈ graph.added (calls ++ [input]) ↔
      c ∈ graph.added calls ∨ (c = input.connection ∧ graph.hasEnds c) := by
  rw [mem_added, mem_added]
  constructor
  · rintro ⟨⟨input', hinput, rfl⟩, hends⟩
    rcases List.mem_append.mp hinput with hinput | hinput
    · exact Or.inl ⟨⟨input', hinput, rfl⟩, hends⟩
    · exact Or.inr ⟨congrArg _ (List.mem_singleton.mp hinput), hends⟩
  · rintro (⟨⟨input', hinput, rfl⟩, hends⟩ | ⟨rfl, hends⟩)
    · exact ⟨⟨input', List.mem_append_left _ hinput, rfl⟩, hends⟩
    · exact ⟨⟨input, List.mem_append_right _ (List.mem_singleton.mpr rfl), rfl⟩, hends⟩

/-- Under the key of an added connection stands one that was added, and nothing else. -/
structure StoresAdded (connections : OrderedMap String GraphConnection)
    (added : GraphConnection → Prop) : Prop where
  sound : ∀ key c, connections.get? key = some c → key = makeKey c ∧ added c
  stored : ∀ c, added c → ∃ c', connections.get? (makeKey c) = some c'

theorem StoresAdded.set {connections : OrderedMap String GraphConnection}
    {added : GraphConnection → Prop} (h : StoresAdded connections added) (c : GraphConnection) :
    StoresAdded (connections.set (makeKey c) c) fun c' => added c' ∨ c' = c := by
  refine ⟨fun key c' hget => ?_, fun c' hadded => ?_⟩
  · rw [OrderedMap.get?_set] at hget
    split_ifs at hget with hkey
    · obtain rfl := Option.some.inj hget
      exact ⟨hkey.symm, Or.inr rfl⟩
    · exact ⟨(h.sound key c' hget).1, Or.inl (h.sound key c' hget).2⟩
  · rw [OrderedMap.get?_set]
    split_ifs with hkey
    · exact ⟨c, rfl⟩
    · exact h.stored c' (hadded.resolve_right fun heq => hkey (heq ▸ rfl))

theorem afterCalls_storesAdded (hempty : graph.connections = .empty)
    (calls : List ConnectionInput) :
    StoresAdded (graph.afterCalls calls).connections fun c => c ∈ graph.added calls := by
  induction calls using List.reverseRecOn with
  | nil =>
    refine ⟨fun key c hget => ?_, fun c hc => absurd (mem_added.mp hc).1 (by simp)⟩
    rw [afterCalls, List.foldl_nil, hempty] at hget
    cases hget
  | append_singleton calls input ih =>
    simp only [added_concat]
    rw [afterCalls_concat, callAddConnection_eq]
    split_ifs with hends
    · have hset := ih.set input.connection
      refine ⟨fun key c hget => ?_, fun c hc => hset.stored c (hc.imp_right And.left)⟩
      obtain ⟨hkey, hc⟩ := hset.sound key c hget
      refine ⟨hkey, hc.imp_right fun heq => ⟨heq, ?_⟩⟩
      rw [heq]
      exact afterCalls_hasEnds.mp hends
    · refine ⟨fun key c hget => (ih.sound key c hget).imp_right Or.inl, fun c hc => ?_⟩
      refine ih.stored c (hc.resolve_right ?_)
      rintro ⟨rfl, h⟩
      exact hends (afterCalls_hasEnds.mpr h)

/-- The keys of added connections collide with no other key of the graph. -/
def UnambiguousKeys (graph : DirectedGraph) (calls : List ConnectionInput) : Prop :=
  ∀ c ∈ graph.added calls, ∀ c', graph.hasEnds c' → ¬ Nested c c' ∧ ¬ Nested c' c

theorem hasEnds.ext_iff {c c' : GraphConnection} (h : graph.hasEnds c) (h' : graph.hasEnds c') :
    makeKey c = makeKey c' ↔ c = c' ∨ Nested c c' ∨ Nested c' c :=
  makeKey_eq_iff
    (fun hname => Option.some.inj (h.1.symm.trans (by rw [hname]; exact h'.1)))
    (fun hname => Option.some.inj (h.2.symm.trans (by rw [hname]; exact h'.2)))

theorem UnambiguousKeys.eq {calls : List ConnectionInput} (h : graph.UnambiguousKeys calls)
    {c c' : GraphConnection} (hc : c ∈ graph.added calls) (hc' : graph.hasEnds c')
    (hkey : makeKey c = makeKey c') : c = c' :=
  ((mem_added.mp hc).2.ext_iff hc').mp hkey |>.resolve_right fun hnested =>
    hnested.elim (h c hc c' hc').1 (h c hc c' hc').2

/-- Every connection is kept exactly when no key can be read in two ways. -/
theorem keepsEach_iff_unambiguousKeys (nodes : List INode) (calls : List ConnectionInput) :
    ((empty.addNodes nodes).afterCalls calls).KeepsEach ((empty.addNodes nodes).added calls) ↔
      (empty.addNodes nodes).UnambiguousKeys calls := by
  have hempty : (empty.addNodes nodes).connections = .empty := by rw [addNodes_eq]; rfl
  generalize empty.addNodes nodes = graph at hempty ⊢
  have hstores := afterCalls_storesAdded hempty calls
  constructor
  · intro h c hc c' hends
    have hne : ¬ (makeKey c = makeKey c' ∧ c ≠ c') := by
      rintro ⟨hkey, hne⟩
      have hfound := h.found c (afterCalls_hasEnds.mpr (mem_added.mp hc).2)
      have hfound' := h.found c' (afterCalls_hasEnds.mpr hends)
      rw [getConnection, hkey, if_pos hc] at hfound
      rw [getConnection, hfound] at hfound'
      split_ifs at hfound' with hc'
      exact hne (Option.some.inj hfound')
    have hcollide := (mem_added.mp hc).2.ext_iff hends
    exact ⟨fun hnested => hne ⟨hcollide.mpr (Or.inr (Or.inl hnested)), hnested.ne⟩,
      fun hnested => hne ⟨hcollide.mpr (Or.inr (Or.inr hnested)), hnested.ne.symm⟩⟩
  · intro h
    have hget : ∀ c ∈ graph.added calls,
        (graph.afterCalls calls).connections.get? (makeKey c) = some c := by
      intro c hc
      obtain ⟨c', hget⟩ := hstores.stored c hc
      obtain ⟨hkey, hc'⟩ := hstores.sound _ c' hget
      rw [hget, h.eq hc (mem_added.mp hc').2 hkey]
    refine ⟨fun c hc => OrderedMap.mem_values.mpr ⟨_, hget c hc⟩, fun c hends => ?_⟩
    split_ifs with hc
    · exact hget c hc
    · rw [getConnection]
      by_contra hne
      obtain ⟨c', hget'⟩ := Option.ne_none_iff_exists'.mp hne
      obtain ⟨hkey, hc'⟩ := hstores.sound _ c' hget'
      exact hc (h.eq hc' (afterCalls_hasEnds.mp hends) hkey.symm ▸ hc')

end

section Example

def ambiguousNodes : List INode := ["a", "b-main-0-0-c", "a-main-0-0-b", "c"].map noOp

/-- Both keys are `a-main-0-0-b-main-0-0-c`. -/
def ambiguousCalls : List ConnectionInput :=
  [{ fromNode := noOp "a", toNode := noOp "b-main-0-0-c" },
    { fromNode := noOp "a-main-0-0-b", toNode := noOp "c" }]

theorem ambiguousCalls_not_keepsEach : (ambiguousNodes.map (·.name)).Nodup ∧
    ¬ ((empty.addNodes ambiguousNodes).afterCalls ambiguousCalls).KeepsEach
      ((empty.addNodes ambiguousNodes).added ambiguousCalls) := by
  refine ⟨by decide, fun h => ?_⟩
  have hreturned := h.returned ⟨noOp "a", noOp "b-main-0-0-c", .main, 0, 0⟩ (by decide)
  exact absurd hreturned (by decide)

end Example

end DirectedGraph
end N8n
