import N8n.Workflow.Workflow
import Mathlib.Order.Bounds.Basic

/-!
# Connections by source and by destination

A table of connections is a list of connections, each with its two ends. Rewriting the
table by destination lists, for every input, the ends that are connected to it.
-/

namespace N8n

open OrderedMap (lookupEntry)

/-- The connections of a table, each with the end that it is listed under. -/
def ends (connections : IConnections) : List (Connection × Connection) :=
  connections.entries.flatMap fun (node, byType) =>
    byType.entries.flatMap fun (type, lists) =>
      lists.zipIdx.flatMap fun (list, index) =>
        (list.getD []).map fun connection => (⟨node, type, index⟩, connection)

def listsAt (connections : IConnections) (node : String) (type : NodeConnectionType) :
    Option (List (Option (List Connection))) :=
  (connections.get? node).bind (·.get? type)

def connectionsAt (connections : IConnections) (place : Connection) : List Connection :=
  ((((listsAt connections place.node place.type).getD [])[place.index]?).join).getD []

def addEnds (returnConnection : IConnections) (e : Connection × Connection) : IConnections :=
  addByDestination e.1.node e.1.type returnConnection e.1.index e.2

theorem getConnectionsByDestination_eq (connections : IConnections) :
    getConnectionsByDestination connections = (ends connections).foldl addEnds .empty := by
  simp only [getConnectionsByDestination, ends, List.foldl_flatMap, List.foldl_map]
  rfl

/-! ### The lists of a destination -/

section Destination

def goesTo (node : String) (type : NodeConnectionType) (e : Connection × Connection) : Bool :=
  decide (e.2.node = node) && decide (e.2.type = type)

def listLength (es : List (Connection × Connection)) : ℕ :=
  (es.map fun e => e.2.index + 1).foldr max 0

/-- The sources that are connected to one input. -/
def inputList (es : List (Connection × Connection)) (index : ℕ) : Option (List Connection) :=
  some ((es.filter fun e => decide (e.2.index = index)).map Prod.fst)

/-- The inputs of a type, none where nothing is connected to them. -/
def inputLists (es : List (Connection × Connection)) (node : String) (type : NodeConnectionType) :
    Option (List (Option (List Connection))) :=
  let es := es.filter (goesTo node type)
  if es.isEmpty then none else some ((List.range (listLength es)).map (inputList es))

theorem listsAt_addEnds (connections : IConnections) (e : Connection × Connection) (node : String)
    (type : NodeConnectionType) :
    listsAt (addEnds connections e) node type =
      if goesTo node type e then
        let lists := (listsAt connections node type).getD []
        some ((lists ++ List.replicate (e.2.index + 1 - lists.length) (some [])).modify e.2.index
          (Option.map (· ++ [e.1])))
      else listsAt connections node type := by
  have hlists : (((connections.get? e.2.node).getD .empty).get? e.2.type).getD [] =
      (listsAt connections e.2.node e.2.type).getD [] := by
    rw [listsAt]
    cases connections.get? e.2.node <;> rfl
  rw [listsAt, addEnds, addByDestination, OrderedMap.get?_set]
  by_cases hnode : e.2.node = node
  · rw [if_pos hnode, Option.bind_some, OrderedMap.get?_set, hlists]
    by_cases htype : e.2.type = type
    · rw [if_pos htype, if_pos (by simp [goesTo, hnode, htype]), hnode, htype]
    · rw [if_neg htype, if_neg (by simp [goesTo, htype]), listsAt, hnode]
      cases connections.get? node <;> rfl
  · rw [if_neg hnode, if_neg (by simp [goesTo, hnode]), listsAt]

theorem listLength_append (es : List (Connection × Connection)) (e : Connection × Connection) :
    listLength (es ++ [e]) = max (listLength es) (e.2.index + 1) := by
  rw [listLength, listLength, List.map_append, List.foldr_append]
  generalize es.map (fun e => e.2.index + 1) = lengths
  induction lengths with
  | nil => simp
  | cons n lengths ih =>
    rw [List.foldr_cons, List.foldr_cons, ih, max_assoc]

theorem index_lt_listLength {es : List (Connection × Connection)} {e : Connection × Connection}
    (he : e ∈ es) : e.2.index < listLength es := by
  induction es with
  | nil => cases he
  | cons f es ih =>
    rw [listLength, List.map_cons, List.foldr_cons]
    rcases List.mem_cons.mp he with rfl | he
    · exact Nat.lt_of_lt_of_le (Nat.lt_succ_self _) (Nat.le_max_left _ _)
    · exact Nat.lt_of_lt_of_le (ih he) (Nat.le_max_right _ _)

theorem inputList_of_le {es : List (Connection × Connection)} {index : ℕ}
    (h : listLength es ≤ index) : inputList es index = some [] := by
  have hnone : (es.filter fun e => decide (e.2.index = index)) = [] :=
    List.filter_eq_nil_iff.mpr fun e he => by
      have hlt := index_lt_listLength he
      simp only [decide_eq_true_eq]
      omega
  rw [inputList, hnone, List.map_nil]

theorem inputList_append (es : List (Connection × Connection)) (e : Connection × Connection)
    (index : ℕ) :
    inputList (es ++ [e]) index =
      if e.2.index = index then (inputList es index).map (· ++ [e.1]) else inputList es index := by
  rw [inputList, inputList, List.filter_append, List.map_append]
  split_ifs with h <;> simp [h]

theorem inputLists_getD (es : List (Connection × Connection)) (node : String)
    (type : NodeConnectionType) :
    (inputLists es node type).getD [] =
      (List.range (listLength (es.filter (goesTo node type)))).map
        (inputList (es.filter (goesTo node type))) := by
  rw [inputLists]
  cases es.filter (goesTo node type) <;> rfl

/-- Empty lists fill an array up to an input that is new. -/
theorem padded_eq {lists : ℕ → Option (List Connection)} {length n : ℕ}
    (hlists : ∀ index, length ≤ index → lists index = some []) :
    (List.range length).map lists ++ List.replicate (n - length) (some []) =
      (List.range (max length n)).map lists := by
  apply List.ext_getElem?
  intro index
  by_cases h : index < length
  · rw [List.getElem?_append_left (by simpa using h), List.getElem?_map, List.getElem?_map,
      List.getElem?_range h, List.getElem?_range (lt_of_lt_of_le h (le_max_left _ _))]
  · rw [List.getElem?_append_right (by simpa using h), List.length_map, List.length_range,
      List.getElem?_replicate, List.getElem?_map]
    by_cases hn : index < n
    · rw [if_pos (by omega), List.getElem?_range (lt_of_lt_of_le hn (le_max_right _ _)),
        Option.map_some, hlists index (by omega)]
    · rw [if_neg (by omega), List.getElem?_eq_none (by simp; omega), Option.map_none]

theorem modify_map_range (lists : ℕ → Option (List Connection)) (n index : ℕ)
    (f : Option (List Connection) → Option (List Connection)) :
    ((List.range n).map lists).modify index f =
      (List.range n).map fun i => if index = i then f (lists i) else lists i := by
  apply List.ext_getElem?
  intro i
  rw [List.getElem?_modify, List.getElem?_map, List.getElem?_map]
  by_cases hi : i < n
  · rw [List.getElem?_range hi]
    split_ifs <;> simp_all
  · rw [List.getElem?_eq_none (by simpa using hi)]
    simp

/-- One connection more. -/
theorem inputLists_append (es : List (Connection × Connection)) (e : Connection × Connection)
    (node : String) (type : NodeConnectionType) :
    inputLists (es ++ [e]) node type =
      if goesTo node type e then
        let lists := (inputLists es node type).getD []
        some ((lists ++ List.replicate (e.2.index + 1 - lists.length) (some [])).modify e.2.index
          (Option.map (· ++ [e.1])))
      else inputLists es node type := by
  rw [inputLists_getD]
  by_cases he : goesTo node type e = true
  · rw [if_pos he]
    dsimp only
    rw [List.length_map, List.length_range, padded_eq fun _ => inputList_of_le, modify_map_range,
      inputLists, List.filter_append, List.filter_cons_of_pos he, List.filter_nil,
      ← listLength_append, if_neg (by simp)]
    simp only [← inputList_append]
  · rw [if_neg he, inputLists, inputLists, List.filter_append, List.filter_cons_of_neg he,
      List.filter_nil, List.append_nil]

theorem listsAt_foldl (es : List (Connection × Connection)) (node : String)
    (type : NodeConnectionType) :
    listsAt (es.foldl addEnds .empty) node type = inputLists es node type := by
  induction es using List.reverseRecOn with
  | nil => rfl
  | append_singleton es e ih =>
    rw [List.foldl_append, List.foldl_cons, List.foldl_nil, listsAt_addEnds, inputLists_append, ih]

theorem isSome_get?_foldl (es : List (Connection × Connection)) (node : String) :
    ((es.foldl addEnds .empty).get? node).isSome = es.any fun e => decide (e.2.node = node) := by
  induction es using List.reverseRecOn with
  | nil => rfl
  | append_singleton es e ih =>
    rw [List.foldl_append, List.foldl_cons, List.foldl_nil, List.any_append, ← ih, addEnds,
      addByDestination, OrderedMap.get?_set]
    by_cases h : e.2.node = node <;> simp [h]

end Destination

/-! ### The transpose -/

theorem connectionsAt_getConnectionsByDestination (connections : IConnections) (place : Connection) :
    connectionsAt (getConnectionsByDestination connections) place =
      ((ends connections).filter fun e => decide (e.2 = place)).map Prod.fst := by
  obtain ⟨node, type, index⟩ := place
  rw [connectionsAt, getConnectionsByDestination_eq, listsAt_foldl, inputLists_getD]
  generalize ends connections = es
  have hsplit : (es.filter fun e => decide (e.2 = ⟨node, type, index⟩)) =
      (es.filter (goesTo node type)).filter fun e => decide (e.2.index = index) := by
    rw [List.filter_filter]
    refine List.filter_congr fun e _ => ?_
    obtain ⟨source, node', type', index'⟩ := e
    rw [Bool.eq_iff_iff]
    simp only [goesTo, decide_eq_true_eq, Bool.and_eq_true, Connection.mk.injEq]
    tauto
  rw [hsplit]
  generalize es.filter (goesTo node type) = es
  by_cases hindex : index < listLength es
  · rw [List.getElem?_map, List.getElem?_range hindex]
    rfl
  · have hnone := inputList_of_le (Nat.le_of_not_lt hindex)
    rw [inputList, Option.some.injEq] at hnone
    rw [List.getElem?_eq_none (by simpa using hindex), hnone]
    rfl

/-- Only the entry of a key matters where the others give nothing. -/
theorem flatMap_eq_lookupEntry {κ α β : Type} [DecidableEq κ] {entries : List (κ × α)}
    (hnodup : (entries.map Prod.fst).Nodup) {k : κ} {f : κ × α → List β}
    (hf : ∀ e ∈ entries, e.1 ≠ k → f e = []) :
    entries.flatMap f = ((lookupEntry k entries).map fun a => f (k, a)).getD [] := by
  induction entries with
  | nil => rfl
  | cons e entries ih =>
    obtain ⟨k', a⟩ := e
    rw [List.map_cons, List.nodup_cons] at hnodup
    have hrest := ih hnodup.2 fun e he => hf e (List.mem_cons_of_mem _ he)
    rw [List.flatMap_cons, lookupEntry]
    split_ifs with hk
    · subst hk
      have hnone : lookupEntry k' entries = none := OrderedMap.lookupEntry_eq_none.mpr hnodup.1
      rw [hrest, hnone]
      simp
    · rw [hf _ List.mem_cons_self hk, List.nil_append, hrest]

theorem zipIdx_flatMap {α β : Type} {l : List α} {n k : ℕ} {f : α × ℕ → List β}
    (hf : ∀ a i, i ≠ n + k → f (a, i) = []) :
    (l.zipIdx n).flatMap f = (l[k]?.map fun a => f (a, n + k)).getD [] := by
  induction l generalizing n k with
  | nil => rfl
  | cons a l ih =>
    rw [List.zipIdx_cons, List.flatMap_cons]
    cases k with
    | zero =>
      have hrest : (l.zipIdx (n + 1)).flatMap f = [] := by
        refine List.flatMap_eq_nil_iff.mpr fun e he => hf e.1 e.2 ?_
        have hle := List.le_snd_of_mem_zipIdx he
        omega
      rw [hrest, List.append_nil]
      rfl
    | succ k =>
      have hk : n + 1 + k = n + (k + 1) := by omega
      rw [hf a n (by omega), List.nil_append, ih fun a i hi => hf a i (hk ▸ hi), hk]
      rfl

section Filter
variable {node : String} {type : NodeConnectionType} {index : ℕ}

theorem map_filter_of_ne {place place' : Connection} (h : place' ≠ place) (l : List Connection) :
    (l.map fun connection => (place', connection)).filter (fun e => decide (e.1 = place)) = [] := by
  rw [List.filter_eq_nil_iff]
  intro e he
  obtain ⟨connection, -, rfl⟩ := List.mem_map.mp he
  simp [h]

theorem map_filter_self (place : Connection) (l : List Connection) :
    (l.map fun connection => (place, connection)).filter (fun e => decide (e.1 = place)) =
      l.map fun connection => (place, connection) := by
  rw [List.filter_eq_self]
  intro e he
  obtain ⟨connection, -, rfl⟩ := List.mem_map.mp he
  simp

theorem lists_filter (lists : List (Option (List Connection))) :
    (lists.zipIdx.flatMap fun (list, index) =>
        (list.getD []).map fun connection => ((⟨node, type, index⟩ : Connection), connection)).filter
      (fun e => decide (e.1 = ⟨node, type, index⟩)) =
      (lists[index]?.join.getD []).map fun connection => (⟨node, type, index⟩, connection) := by
  rw [List.filter_flatMap, zipIdx_flatMap (k := index)
    fun list i hi => map_filter_of_ne (by simpa using hi) _]
  cases lists[index]? with
  | none => rfl
  | some list =>
    simp only [Option.map_some, Option.getD_some, Option.join_some, Nat.zero_add]
    exact map_filter_self _ _

end Filter

theorem ends_filter (connections : IConnections) (place : Connection) :
    ((ends connections).filter fun e => decide (e.1 = place)) =
      (connectionsAt connections place).map fun connection => (place, connection) := by
  obtain ⟨node, type, index⟩ := place
  have hother : ∀ {node' : String} {type' : NodeConnectionType}
      (lists : List (Option (List Connection))), ¬ (node' = node ∧ type' = type) →
      (lists.zipIdx.flatMap fun (list, index) =>
        (list.getD []).map fun connection => ((⟨node', type', index⟩ : Connection), connection)).filter
        (fun e => decide (e.1 = ⟨node, type, index⟩)) = [] := by
    intro node' type' lists hne
    rw [List.filter_flatMap, List.flatMap_eq_nil_iff]
    exact fun e _ => map_filter_of_ne (by simp only [ne_eq, Connection.mk.injEq]; tauto) _
  rw [ends, List.filter_flatMap, flatMap_eq_lookupEntry connections.nodup (k := node)]
  · rw [connectionsAt, listsAt, OrderedMap.get?]
    cases lookupEntry node connections.entries with
    | none => rfl
    | some byType =>
      simp only [Option.map_some, Option.getD_some, Option.bind_some]
      rw [List.filter_flatMap, flatMap_eq_lookupEntry byType.nodup (k := type)]
      · rw [OrderedMap.get?]
        cases lookupEntry type byType.entries with
        | none => rfl
        | some lists => exact lists_filter lists
      · exact fun e _ hne => hother e.2 fun h => hne h.2
  · intro e _ hne
    rw [List.filter_flatMap, List.flatMap_eq_nil_iff]
    exact fun e' _ => hother e'.2 fun h => hne h.1

theorem count_ends (connections : IConnections) (e : Connection × Connection) :
    (ends connections).count e = (connectionsAt connections e.1).count e.2 := by
  obtain ⟨source, destination⟩ := e
  rw [← List.count_filter (p := fun e => decide (e.1 = source)) (by simp), ends_filter,
    List.count_map_of_injective _ _ fun a b h => (Prod.mk.inj h).2]

theorem mem_ends {connections : IConnections} {e : Connection × Connection} :
    e ∈ ends connections ↔ e.2 ∈ connectionsAt connections e.1 := by
  rw [← List.count_pos_iff, ← List.count_pos_iff, count_ends]

/-- The table by destination has as many entries of a source at a place as the table by source
has entries of that place at the source. -/
theorem count_connectionsAt (connections : IConnections) (source destination : Connection) :
    (connectionsAt (getConnectionsByDestination connections) destination).count source =
      (connectionsAt connections source).count destination := by
  have hsource := count_ends connections (source, destination)
  have hdestination : ((ends connections).filter fun e => decide (e.2 = destination)) =
      (connectionsAt (getConnectionsByDestination connections) destination).map
        fun connection => (connection, destination) := by
    rw [connectionsAt_getConnectionsByDestination, List.map_map]
    refine (List.map_id' _).symm.trans (List.map_congr_left fun e he => ?_)
    exact Prod.ext rfl (of_decide_eq_true (List.mem_filter.mp he).2)
  rw [← hsource, ← List.count_filter (p := fun e : Connection × Connection =>
    decide (e.2 = destination)) (by simp), hdestination,
    List.count_map_of_injective _ _ fun a b h => (Prod.mk.inj h).1]

/-! ### The inputs of a destination -/

section Inputs
variable (connections : IConnections) (node : String) (type : NodeConnectionType)

/-- The inputs of a type that something is connected to. -/
def connectedInputs : Set ℕ :=
  {index | ∃ source, (⟨node, type, index⟩ : Connection) ∈ connectionsAt connections source}

variable {connections node type}

theorem mem_connectedInputs {index : ℕ} :
    index ∈ connectedInputs connections node type ↔
      ∃ e ∈ (ends connections).filter (goesTo node type), e.2.index = index := by
  constructor
  · rintro ⟨source, hsource⟩
    refine ⟨(source, ⟨node, type, index⟩), List.mem_filter.mpr ⟨mem_ends.mpr hsource, ?_⟩, rfl⟩
    simp [goesTo]
  · rintro ⟨⟨source, node', type', index'⟩, he, rfl⟩
    obtain ⟨hends, hgoes⟩ := List.mem_filter.mp he
    simp only [goesTo, Bool.and_eq_true, decide_eq_true_eq] at hgoes
    obtain ⟨rfl, rfl⟩ := hgoes
    exact ⟨source, mem_ends (e := (source, ⟨node', type', index'⟩)).mp hends⟩

theorem exists_index_of_listLength {es : List (Connection × Connection)} (h : es ≠ []) :
    ∃ e ∈ es, listLength es = e.2.index + 1 := by
  induction es using List.reverseRecOn with
  | nil => exact absurd rfl h
  | append_singleton es e ih =>
    rw [listLength_append]
    by_cases hle : listLength es ≤ e.2.index + 1
    · exact ⟨e, by simp, max_eq_right hle⟩
    · have hes : es ≠ [] := by
        rintro rfl
        simp [listLength] at hle
      obtain ⟨f, hf, hlength⟩ := ih hes
      exact ⟨f, List.mem_append_left _ hf, by rw [max_eq_left (by omega), hlength]⟩

theorem listLength_isGreatest {es : List (Connection × Connection)} (h : es ≠ []) :
    ∃ largest, IsGreatest {index | ∃ e ∈ es, e.2.index = index} largest ∧
      listLength es = largest + 1 := by
  obtain ⟨e, he, hlength⟩ := exists_index_of_listLength h
  refine ⟨e.2.index, ⟨⟨e, he, rfl⟩, ?_⟩, hlength⟩
  rintro index ⟨f, hf, rfl⟩
  have hlt := index_lt_listLength hf
  omega

end Inputs

end N8n
