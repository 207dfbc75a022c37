import N8n.Foundations.OrderedMap
import Mathlib.Data.Int.Notation

/-!
# Input items that are sent in chunks

The requester sends the chunk of the input items that was asked for, and the runner puts it at
its place again. What follows the chunk is padded by what is left of the chunk itself, and that is
nothing.
-/

namespace N8n.ChunkedInput

variable {ι : Type*}

structure InputDataChunkDefinition where
  startIndex : ℕ
  count : ℕ
  deriving DecidableEq, Repr

/-- The inputs of a node by the type of the connection; an input may be missing. -/
abbrev ITaskDataConnections (ι : Type*) := OrderedMap String (List (Option (List ι)))

/-- `inputData.main?.[0]` -/
def mainItems (inputData : ITaskDataConnections ι) : Option (List ι) :=
  (inputData.get? "main").bind fun inputs => inputs[0]?.join

def slice (l : List ι) (first past : ℕ) : List ι := (l.take past).drop first

def stripChunkedInputData (chunk : InputDataChunkDefinition) (inputData : ITaskDataConnections ι) :
    ITaskDataConnections ι :=
  match mainItems inputData with
  | none => inputData
  | some inputItems =>
    inputData.set "main" [some (slice inputItems chunk.startIndex (chunk.startIndex + chunk.count))]

/-- `Array.from({ length })`, which takes a negative length for none. -/
def arrayFrom (length : ℤ) : List (Option ι) := List.replicate length.toNat none

def reconstructConnectionInputItems (inputData : Option (ITaskDataConnections ι))
    (chunk : Option InputDataChunkDefinition) : List (Option ι) :=
  let inputItems := (inputData.bind mainItems).getD []
  match chunk with
  | none => inputItems.map some
  | some chunk =>
    arrayFrom chunk.startIndex ++ inputItems.map some ++
      arrayFrom ((inputItems.length : ℤ) - chunk.startIndex - chunk.count)

/-- The items of the chunk stand where they stood, in a list as long as the input, and all else is
undefined. -/
structure Rebuilt (xs : List ι) (chunk : InputDataChunkDefinition) (ys : List (Option ι)) : Prop where
  length : ys.length = xs.length
  items : ∀ i, ys[i]?.join =
    if chunk.startIndex ≤ i ∧ i < chunk.startIndex + chunk.count then xs[i]? else none

theorem mainItems_stripChunkedInputData {inputData : ITaskDataConnections ι} {xs : List ι}
    (h : mainItems inputData = some xs) (chunk : InputDataChunkDefinition) :
    mainItems (stripChunkedInputData chunk inputData) =
      some (slice xs chunk.startIndex (chunk.startIndex + chunk.count)) := by
  rw [stripChunkedInputData, h, mainItems, OrderedMap.get?_set_self]
  rfl

/-- Nothing is left of the input for the padding after the chunk. -/
theorem reconstruct_strip {inputData : ITaskDataConnections ι} {xs : List ι}
    (h : mainItems inputData = some xs) {chunk : InputDataChunkDefinition}
    (hle : chunk.startIndex + chunk.count ≤ xs.length) :
    reconstructConnectionInputItems (some (stripChunkedInputData chunk inputData)) (some chunk) =
      List.replicate chunk.startIndex none ++
        (slice xs chunk.startIndex (chunk.startIndex + chunk.count)).map some := by
  have hlength : (slice xs chunk.startIndex (chunk.startIndex + chunk.count)).length =
      chunk.count := by
    rw [slice, List.length_drop, List.length_take]
    omega
  have hpadding : (((slice xs chunk.startIndex (chunk.startIndex + chunk.count)).length : ℤ) -
      chunk.startIndex - chunk.count).toNat = 0 := by
    rw [hlength]
    omega
  simp only [reconstructConnectionInputItems, Option.bind_some, Option.getD_some,
    mainItems_stripChunkedInputData h, arrayFrom, hpadding, Int.toNat_natCast]
  exact List.append_nil _

theorem getElem?_replicate_slice {xs : List ι} {chunk : InputDataChunkDefinition} (i : ℕ) :
    (List.replicate chunk.startIndex none ++
      (slice xs chunk.startIndex (chunk.startIndex + chunk.count)).map some)[i]?.join =
    if chunk.startIndex ≤ i ∧ i < chunk.startIndex + chunk.count then xs[i]? else none := by
  by_cases hi : i < chunk.startIndex
  · rw [List.getElem?_append_left (by simpa using hi), if_neg (by omega)]
    simp [hi]
  · have hstart : chunk.startIndex + (i - chunk.startIndex) = i := by omega
    rw [List.getElem?_append_right (by simpa using hi), List.length_replicate, List.getElem?_map,
      slice, List.getElem?_drop, hstart, List.getElem?_take]
    split_ifs with h₁ h₂ h₂
    · cases xs[i]? <;> rfl
    · omega
    · omega
    · rfl

/-- The input is rebuilt exactly where the chunk reaches to its end. -/
theorem rebuilt_iff (inputData : ITaskDataConnections ι) (xs : List ι)
    (h : mainItems inputData = some xs) (chunk : InputDataChunkDefinition)
    (hle : chunk.startIndex + chunk.count ≤ xs.length) :
    Rebuilt xs chunk (reconstructConnectionInputItems
        (some (stripChunkedInputData chunk inputData)) (some chunk)) ↔
      chunk.startIndex + chunk.count = xs.length := by
  rw [reconstruct_strip h hle]
  have hlength : (List.replicate chunk.startIndex none ++
      (slice xs chunk.startIndex (chunk.startIndex + chunk.count)).map some).length =
        chunk.startIndex + chunk.count := by
    rw [List.length_append, List.length_replicate, List.length_map, slice, List.length_drop,
      List.length_take]
    omega
  exact ⟨fun hrebuilt => hlength.symm.trans hrebuilt.length,
    fun heq => ⟨hlength.trans heq, getElem?_replicate_slice⟩⟩

/-- The last of three items. -/
theorem lastItem_rebuilt : Rebuilt ["a", "b", "c"] ⟨2, 1⟩ (reconstructConnectionInputItems
    (some (stripChunkedInputData ⟨2, 1⟩ (.set .empty "main" [some ["a", "b", "c"]])))
    (some ⟨2, 1⟩)) :=
  (rebuilt_iff (.set .empty "main" [some ["a", "b", "c"]]) ["a", "b", "c"] rfl ⟨2, 1⟩
    (by decide)).mpr rfl

/-- The first of three items comes back alone. -/
theorem firstItem_not_rebuilt : ¬ ∀ (inputData : ITaskDataConnections String) (xs : List String),
    mainItems inputData = some xs → ∀ chunk : InputDataChunkDefinition,
      chunk.startIndex + chunk.count ≤ xs.length →
        Rebuilt xs chunk (reconstructConnectionInputItems
          (some (stripChunkedInputData chunk inputData)) (some chunk)) := by
  intro h
  have hlength := (h (.set .empty "main" [some ["a", "b", "c"]]) ["a", "b", "c"] rfl ⟨0, 1⟩
    (by decide)).length
  revert hlength
  decide

end N8n.ChunkedInput
