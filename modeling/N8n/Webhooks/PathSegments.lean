import Mathlib.Data.List.Infix
import N8n.Webhooks.DynamicWebhooks

/-!
# Paths and their segments

What the functions of the webhooks that look at the text of a path find in the segments of the
path.
-/

namespace N8n.Webhooks

/-- `startsWith`. -/
def startsWith (s t : String) : Bool := t.toList.isPrefixOf s.toList

/-- `includes`. -/
def includes (s t : String) : Bool := t.toList <:+: s.toList

/-- `join('/')`. -/
def join (segments : List String) : String := "/".intercalate segments

/-- `slice(indexOf('/') + 1)`, which is the whole text when there is no slash. -/
def afterFirstSlash (path : String) : String :=
  if '/' ∈ path.toList then String.ofList (path.toList.drop (path.toList.idxOf '/' + 1)) else path

def removeLeadingSlash (path : String) : String :=
  if path.toList.head? = some '/' then String.ofList path.toList.tail else path

def removeTrailingSlash (path : String) : String :=
  if path.toList.getLast? = some '/' then String.ofList path.toList.dropLast else path

/-- `startsWith(':') || includes('/:')`. -/
def hasColonSegment (path : String) : Bool := startsWithColon path || includes path "/:"

/-- What stands between two slashes of a path. -/
structure Segment where
  text : String
  nonempty : text ≠ ""
  plain : '/' ∉ text.toList

namespace Segment

def opensWithColon (s : Segment) : Bool := startsWithColon s.text

/-- A colon and a name. -/
def isParameter (s : Segment) : Bool := s.opensWithColon && s.text ≠ ":"

end Segment

def pathOf (segments : List Segment) : String := join (segments.map (·.text))

section
variable (s s' : Segment) (rest : List Segment) {segments : List Segment}

theorem toList_pathOf_singleton : (pathOf [s]).toList = s.text.toList := by
  rw [pathOf, join, List.map_singleton, String.intercalate_singleton]

theorem toList_pathOf_cons :
    (pathOf (s :: s' :: rest)).toList = s.text.toList ++ '/' :: (pathOf (s' :: rest)).toList := by
  simp only [pathOf, join, List.map_cons, String.intercalate_cons_cons, String.toList_append,
    List.append_assoc]
  rfl

theorem Segment.toList_ne_nil : s.text.toList ≠ [] := fun h =>
  s.nonempty (String.toList_inj.mp h)

/-- The path goes on after its first segment with a slash, or ends there. -/
theorem exists_toList_pathOf : ∃ l, (pathOf (s :: rest)).toList = s.text.toList ++ l := by
  cases rest with
  | nil => exact ⟨[], by rw [toList_pathOf_singleton, List.append_nil]⟩
  | cons s' rest => exact ⟨_, toList_pathOf_cons s s' rest⟩

theorem toList_pathOf_ne_nil : (pathOf (s :: rest)).toList ≠ [] := by
  obtain ⟨l, hl⟩ := exists_toList_pathOf s rest
  rw [hl]
  exact List.append_ne_nil_of_left_ne_nil s.toList_ne_nil l

theorem split_pathOf (h : segments ≠ []) : split (pathOf segments) = segments.map (·.text) := by
  have htexts : (pathOf segments).toList =
      ['/'].intercalate (segments.map fun s => s.text.toList) := by
    rw [pathOf, join, String.toList_intercalate, List.map_map]
    rfl
  have hplain : ∀ l ∈ segments.map fun s => s.text.toList, '/' ∉ l := by
    intro l hl
    obtain ⟨s, _, rfl⟩ := List.mem_map.mp hl
    exact s.plain
  rw [split, htexts, List.splitOn_intercalate '/' hplain (mt List.map_eq_nil_iff.mp h),
    List.map_map]
  exact List.map_congr_left fun s _ => String.ofList_toList

theorem length_split_pathOf (h : segments ≠ []) :
    (split (pathOf segments)).length = segments.length := by
  rw [split_pathOf h, List.length_map]

/-- One slash between every two segments. -/
theorem count_slash_pathOf :
    (pathOf (s :: rest)).toList.count '/' = rest.length := by
  induction rest generalizing s with
  | nil => rw [toList_pathOf_singleton, List.count_eq_zero.mpr s.plain, List.length_nil]
  | cons s' rest ih =>
    rw [toList_pathOf_cons, List.count_append, List.count_eq_zero.mpr s.plain,
      List.count_cons_self, ih, List.length_cons, Nat.zero_add]

theorem startsWithColon_pathOf : startsWithColon (pathOf (s :: rest)) = s.opensWithColon := by
  obtain ⟨l, hl⟩ := exists_toList_pathOf s rest
  rw [Segment.opensWithColon, startsWithColon, startsWithColon, hl,
    List.head?_append_of_ne_nil _ s.toList_ne_nil]

/-- A text without a slash stands at the front of a path when it does so in its first segment. -/
theorem startsWith_pathOf {t : String} (ht : '/' ∉ t.toList) :
    startsWith (pathOf (s :: rest)) t = startsWith s.text t := by
  cases rest with
  | nil => rw [startsWith, startsWith, toList_pathOf_singleton]
  | cons s' rest =>
    rw [startsWith, startsWith, toList_pathOf_cons, Bool.eq_iff_iff, List.isPrefixOf_iff_prefix,
      List.isPrefixOf_iff_prefix]
    refine ⟨fun h => ?_, fun h => h.trans (List.prefix_append _ _)⟩
    rcases Nat.lt_or_ge s.text.toList.length t.toList.length with hlt | hle
    · -- a longer text would contain the slash after the segment
      have hslash : s.text.toList ++ ['/'] <+: t.toList := by
        refine List.prefix_of_prefix_length_le ?_ h ?_
        · exact (List.prefix_append_right_inj _).mpr ⟨(pathOf (s' :: rest)).toList, rfl⟩
        · rw [List.length_append, List.length_singleton]
          omega
      exact absurd (hslash.subset (List.mem_append_right _ List.mem_cons_self)) ht
    · exact List.prefix_of_prefix_length_le h (List.prefix_append _ _) hle

/-- The first slash of the text, and a colon after it, or a slash and a colon later on. -/
theorem infix_append_slash {l l' : List Char} (hl : '/' ∉ l) :
    ['/', ':'] <:+: l ++ '/' :: l' ↔ l'.head? = some ':' ∨ ['/', ':'] <:+: l' := by
  induction l with
  | nil =>
    have hhead : [':'] <+: l' ↔ l'.head? = some ':' := by
      cases l' with
      | nil => exact iff_of_false (mt List.prefix_nil.mp nofun) nofun
      | cons c l' =>
        rw [List.singleton_prefix_cons_iff, List.head?_cons, Option.some_inj]
        exact eq_comm
    rw [List.nil_append, List.infix_cons_iff, List.cons_prefix_cons, hhead]
    exact or_congr (and_iff_right rfl) Iff.rfl
  | cons c l ih =>
    have hc : '/' ≠ c := fun h => hl (h ▸ List.mem_cons_self)
    rw [List.cons_append, List.infix_cons_iff, List.cons_prefix_cons,
      ih fun h => hl (List.mem_cons_of_mem _ h)]
    exact or_iff_right fun h => hc h.1

theorem includes_pathOf :
    includes (pathOf (s :: rest)) "/:" = rest.any (·.opensWithColon) := by
  rw [Bool.eq_iff_iff, includes, decide_eq_true_iff]
  change ['/', ':'] <:+: _ ↔ _
  induction rest generalizing s with
  | nil =>
    rw [toList_pathOf_singleton]
    exact iff_of_false (fun h => s.plain (h.subset List.mem_cons_self)) Bool.false_ne_true
  | cons s' rest ih =>
    have hopens := startsWithColon_pathOf s' rest
    rw [startsWithColon, Bool.eq_iff_iff, decide_eq_true_iff] at hopens
    rw [toList_pathOf_cons, infix_append_slash s.plain, ih, hopens, List.any_cons, Bool.or_eq_true]

theorem hasColonSegment_pathOf :
    hasColonSegment (pathOf (s :: rest)) = (s :: rest).any (·.opensWithColon) := by
  rw [hasColonSegment, startsWithColon_pathOf, includes_pathOf, List.any_cons]

theorem afterFirstSlash_pathOf_singleton : afterFirstSlash (pathOf [s]) = pathOf [s] := by
  rw [afterFirstSlash, toList_pathOf_singleton, if_neg s.plain]

theorem afterFirstSlash_pathOf_cons :
    afterFirstSlash (pathOf (s :: s' :: rest)) = pathOf (s' :: rest) := by
  have hidx : (s.text.toList ++ '/' :: (pathOf (s' :: rest)).toList).idxOf '/' =
      s.text.toList.length := by
    rw [List.idxOf_append_of_notMem s.plain, List.idxOf_cons_self, Nat.add_zero]
  rw [afterFirstSlash, toList_pathOf_cons, if_pos (List.mem_append_right _ List.mem_cons_self),
    hidx, List.drop_append, List.drop_eq_nil_of_le (Nat.le_succ _), Nat.add_sub_cancel_left]
  exact String.ofList_toList

theorem head?_pathOf : (pathOf (s :: rest)).toList.head? ≠ some '/' := by
  obtain ⟨l, hl⟩ := exists_toList_pathOf s rest
  rw [hl, List.head?_append_of_ne_nil _ s.toList_ne_nil]
  exact fun h => s.plain (List.mem_of_head? h)

theorem getLast?_pathOf : (pathOf (s :: rest)).toList.getLast? ≠ some '/' := by
  induction rest generalizing s with
  | nil =>
    rw [toList_pathOf_singleton]
    exact fun h => s.plain (List.mem_of_getLast? h)
  | cons s' rest ih =>
    rw [toList_pathOf_cons, List.getLast?_append_cons, List.getLast?_cons_of_ne_nil
      (toList_pathOf_ne_nil s' rest)]
    exact ih s'

theorem removeLeadingSlash_pathOf :
    removeLeadingSlash (pathOf (s :: rest)) = pathOf (s :: rest) :=
  if_neg (head?_pathOf s rest)

theorem removeTrailingSlash_pathOf :
    removeTrailingSlash (pathOf (s :: rest)) = pathOf (s :: rest) :=
  if_neg (getLast?_pathOf s rest)

end

end N8n.Webhooks
