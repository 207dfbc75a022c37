import N8n.Foundations.Replacing
import N8n.Workflow.AccessPatterns
import Mathlib.Logic.Relation

/-!
# The parts of an expression

An expression is text with code between double braces. A backslash before the brackets that are
searched for escapes them. In code the first escaped brackets lose their backslash, and joining
puts one before the first brackets. Text keeps its backslashes.
-/

namespace N8n.ExpressionParser

open AccessPatterns (Text)
open Replacing (replaceFirst)
open Relation (ReflTransGen)

inductive ExpressionChunk where
  | text (text : Text)
  | code (text : Text) (hasClosingBrackets : Bool)
  deriving DecidableEq, Repr

inductive SearchingFor where
  | «open»
  | close
  deriving DecidableEq, Repr

def SearchingFor.char : SearchingFor → Char
  | .open => '\x7b'
  | .close => '\x7d'

def SearchingFor.other : SearchingFor → SearchingFor
  | .open => .close
  | .close => .open

def SearchingFor.brackets (s : SearchingFor) : Text := [s.char, s.char]

def SearchingFor.escaped (s : SearchingFor) : Text := '\\' :: s.brackets

def escapeCode (text : Text) : Text :=
  replaceFirst SearchingFor.close.escaped SearchingFor.close.brackets text

/-- The leftmost match of the regular expression: what is before it, whether it is escaped, and
what is after it. -/
def exec (s : SearchingFor) : Text → Option (Text × Bool × Text)
  | [] => none
  | a :: expr =>
    if s.escaped <+: a :: expr then some ([], true, expr.drop 2)
    else if s.brackets <+: a :: expr then some ([], false, expr.drop 1)
    else (exec s expr).map fun m => (a :: m.1, m.2)

def chunk (s : SearchingFor) (buffer : Text) (hasClosingBrackets : Bool) : ExpressionChunk :=
  match s with
  | .open => .text buffer
  | .close => .code (escapeCode buffer) hasClosingBrackets

/-- The loop, with what is left of the expression; every round takes some of it. -/
def splitFrom : ℕ → SearchingFor → Text → Text → List ExpressionChunk
  | 0, _, _, _ => []
  | fuel + 1, searchingFor, buffer, expr =>
    if expr = [] then []
    else
      match exec searchingFor expr with
      | none => [chunk searchingFor (buffer ++ expr) false]
      | some (before, true, rest) =>
        splitFrom fuel searchingFor (buffer ++ (before ++ searchingFor.escaped)) rest
      | some (before, false, rest) =>
        chunk searchingFor (buffer ++ before) true :: splitFrom fuel searchingFor.other [] rest

def splitExpression (expression : Text) : List ExpressionChunk :=
  splitFrom (expression.length + 1) .open [] expression

def escapeTmplExpression (part : Text) : Text :=
  replaceFirst SearchingFor.close.brackets SearchingFor.close.escaped part

def joinChunk : ExpressionChunk → Text
  | .text text => text
  | .code text hasClosingBrackets =>
    SearchingFor.open.brackets ++ (escapeTmplExpression text ++
      if hasClosingBrackets then SearchingFor.close.brackets else [])

def joinExpression (parts : List ExpressionChunk) : Text := parts.flatMap joinChunk

/-! ### Reading an expression -/

/-- Where the reading stands: what is searched for, the part so far, and what is left. -/
structure Reading where
  searchingFor : SearchingFor
  part : Text
  rest : Text

inductive Read : Reading → Reading → Prop
  | escaped {s : SearchingFor} {part rest : Text} :
      Read ⟨s, part, s.escaped ++ rest⟩ ⟨s, part ++ s.escaped, rest⟩
  | brackets {s : SearchingFor} {part rest : Text} :
      Read ⟨s, part, s.brackets ++ rest⟩ ⟨s.other, [], rest⟩
  | char {s : SearchingFor} {part rest : Text} {a : Char} : ¬ s.escaped <+: a :: rest →
      ¬ s.brackets <+: a :: rest → Read ⟨s, part, a :: rest⟩ ⟨s, part ++ [a], rest⟩

/-- An expression ends neither right after escaped brackets nor after opening ones, and the first
escaped brackets of a code part do not come after another closing brace. -/
def Reading.Kept (r : Reading) : Prop :=
  (r.rest = [] → if r.part = [] then r.searchingFor = .open
    else ¬ r.searchingFor.escaped <:+ r.part) ∧
  (r.searchingFor = .close → r.searchingFor.escaped <+: r.rest →
    ¬ r.searchingFor.brackets <:+: r.part → r.part.getLast? ≠ some r.searchingFor.char)

/-- All readings from here on keep what is read. -/
def Reading.KeptOn (r : Reading) : Prop := ∀ r', ReflTransGen Read r r' → r'.Kept

section Reading
variable {s : SearchingFor} {part rest before : Text} {a : Char}

theorem not_escaped_prefix_brackets : ¬ s.escaped <+: s.brackets ++ rest := by
  cases s <;> simp [SearchingFor.escaped, SearchingFor.brackets, SearchingFor.char]

theorem not_brackets_prefix_escaped : ¬ s.brackets <+: s.escaped ++ rest := by
  cases s <;> simp [SearchingFor.escaped, SearchingFor.brackets, SearchingFor.char]

theorem keptOn_iff {r : Reading} : r.KeptOn ↔ r.Kept ∧ ∀ r', Read r r' → r'.KeptOn := by
  constructor
  · exact fun h => ⟨h r .refl, fun r' hread r'' hr => h r'' (.head hread hr)⟩
  · rintro ⟨hkept, hon⟩ r' hr
    rcases ReflTransGen.cases_head hr with rfl | ⟨r'', hread, hr⟩
    · exact hkept
    · exact hon r'' hread r' hr

theorem kept_of_not_escaped (hne : rest ≠ []) (h : ¬ s.escaped <+: rest) :
    Reading.Kept ⟨s, part, rest⟩ :=
  ⟨fun hnil => absurd hnil hne, fun _ hescaped => absurd hescaped h⟩

theorem keptOn_nil : Reading.KeptOn ⟨s, part, []⟩ ↔ Reading.Kept ⟨s, part, []⟩ := by
  rw [keptOn_iff]
  refine and_iff_left ?_
  generalize hr : (⟨s, part, []⟩ : Reading) = r
  intro r' hread
  cases hread with
  | escaped => simp [SearchingFor.escaped] at hr
  | brackets => simp [SearchingFor.brackets] at hr
  | char => simp at hr

theorem keptOn_char (hescaped : ¬ s.escaped <+: a :: rest) (hbrackets : ¬ s.brackets <+: a :: rest) :
    Reading.KeptOn ⟨s, part, a :: rest⟩ ↔ Reading.KeptOn ⟨s, part ++ [a], rest⟩ := by
  rw [keptOn_iff, and_iff_right (kept_of_not_escaped (List.cons_ne_nil a rest) hescaped)]
  refine ⟨fun h => h _ (.char hescaped hbrackets), fun h r' hread => ?_⟩
  generalize hr : (⟨s, part, a :: rest⟩ : Reading) = r at hread
  cases hread with
  | escaped =>
    obtain ⟨rfl, rfl, hrest⟩ := Reading.mk.inj hr
    exact absurd (hrest ▸ List.prefix_append _ _) hescaped
  | brackets =>
    obtain ⟨rfl, rfl, hrest⟩ := Reading.mk.inj hr
    exact absurd (hrest ▸ List.prefix_append _ _) hbrackets
  | char =>
    obtain ⟨rfl, rfl, hrest⟩ := Reading.mk.inj hr
    obtain ⟨rfl, rfl⟩ := List.cons.inj hrest
    exact h

theorem keptOn_escaped : Reading.KeptOn ⟨s, part, s.escaped ++ rest⟩ ↔
    Reading.Kept ⟨s, part, s.escaped ++ rest⟩ ∧ Reading.KeptOn ⟨s, part ++ s.escaped, rest⟩ := by
  rw [keptOn_iff]
  refine and_congr_right fun _ => ⟨fun h => h _ .escaped, fun h r' hread => ?_⟩
  generalize hr : (⟨s, part, s.escaped ++ rest⟩ : Reading) = r at hread
  cases hread with
  | escaped =>
    obtain ⟨rfl, rfl, hrest⟩ := Reading.mk.inj hr
    exact List.append_cancel_left hrest ▸ h
  | brackets =>
    obtain ⟨rfl, rfl, hrest⟩ := Reading.mk.inj hr
    exact absurd (hrest ▸ List.prefix_append s.escaped rest) not_escaped_prefix_brackets
  | char hescaped =>
    obtain ⟨rfl, rfl, hrest⟩ := Reading.mk.inj hr
    exact absurd (hrest ▸ List.prefix_append _ _) hescaped

theorem keptOn_brackets : Reading.KeptOn ⟨s, part, s.brackets ++ rest⟩ ↔
    Reading.KeptOn ⟨s.other, [], rest⟩ := by
  have hkept : Reading.Kept ⟨s, part, s.brackets ++ rest⟩ :=
    kept_of_not_escaped (List.cons_ne_nil _ _) not_escaped_prefix_brackets
  rw [keptOn_iff, and_iff_right hkept]
  refine ⟨fun h => h _ .brackets, fun h r' hread => ?_⟩
  generalize hr : (⟨s, part, s.brackets ++ rest⟩ : Reading) = r at hread
  cases hread with
  | escaped =>
    obtain ⟨rfl, rfl, hrest⟩ := Reading.mk.inj hr
    exact absurd (hrest ▸ List.prefix_append s.brackets rest) not_brackets_prefix_escaped
  | brackets =>
    obtain ⟨rfl, rfl, hrest⟩ := Reading.mk.inj hr
    exact List.append_cancel_left hrest ▸ h
  | char _ hbrackets =>
    obtain ⟨rfl, rfl, hrest⟩ := Reading.mk.inj hr
    exact absurd (hrest ▸ List.prefix_append _ _) hbrackets

end Reading

/-! ### The leftmost match -/

section Exec
variable {s : SearchingFor} {expr before rest : Text} {escape : Bool}

def token (s : SearchingFor) (escape : Bool) : Text := if escape then s.escaped else s.brackets

theorem brackets_suffix_escaped : s.brackets <:+ s.escaped := List.suffix_cons _ _

/-- Without a match there are no brackets, and everything is read. -/
theorem exec_eq_none (part : Text) (h : exec s expr = none) : ¬ s.brackets <:+: expr ∧
    (Reading.KeptOn ⟨s, part, expr⟩ ↔ Reading.Kept ⟨s, part ++ expr, []⟩) := by
  induction expr generalizing part with
  | nil =>
    refine ⟨fun hin => ?_, ?_⟩
    · exact absurd (List.eq_nil_of_infix_nil hin) (List.cons_ne_nil _ _)
    · rw [List.append_nil]
      exact keptOn_nil
  | cons a expr ih =>
    rw [exec] at h
    split_ifs at h with hescaped hbrackets
    obtain ⟨hclean, hkept⟩ := ih (part ++ [a]) (Option.map_eq_none_iff.mp h)
    refine ⟨fun hin => ?_, ?_⟩
    · rcases List.infix_cons_iff.mp hin with hp | hin
      · exact hbrackets hp
      · exact hclean hin
    · rw [keptOn_char hescaped hbrackets, hkept, List.append_assoc]
      rfl

/-- Before a match there are no brackets, and everything is read. -/
theorem exec_eq_some (part : Text) (h : exec s expr = some (before, escape, rest)) :
    expr = before ++ (token s escape ++ rest) ∧ ¬ s.brackets <:+: before ∧
    (Reading.KeptOn ⟨s, part, expr⟩ ↔
      Reading.KeptOn ⟨s, part ++ before, token s escape ++ rest⟩) := by
  induction expr generalizing part before with
  | nil => cases h
  | cons a expr ih =>
    have hclean : ¬ s.brackets <:+: ([] : Text) := fun hin =>
      absurd (List.eq_nil_of_infix_nil hin) (List.cons_ne_nil _ _)
    rw [exec] at h
    split_ifs at h with hescaped hbrackets
    · obtain ⟨rest', hrest'⟩ := hescaped
      obtain ⟨rfl, rfl⟩ := List.cons.inj hrest'
      obtain ⟨rfl, rfl, rfl⟩ : [] = before ∧ true = escape ∧ rest' = rest := by
        simpa [SearchingFor.brackets] using h
      exact ⟨rfl, hclean, by rw [List.append_nil]; rfl⟩
    · obtain ⟨rest', hrest'⟩ := hbrackets
      obtain ⟨rfl, rfl⟩ := List.cons.inj hrest'
      obtain ⟨rfl, rfl, rfl⟩ : [] = before ∧ false = escape ∧ rest' = rest := by
        simpa using h
      exact ⟨rfl, hclean, by rw [List.append_nil]; rfl⟩
    · obtain ⟨⟨before', escape', rest'⟩, hm, heq⟩ := Option.map_eq_some_iff.mp h
      obtain ⟨rfl, rfl, rfl⟩ : a :: before' = before ∧ escape' = escape ∧ rest' = rest := by
        simpa using heq
      obtain ⟨rfl, hclean, hkept⟩ := ih (part ++ [a]) hm
      refine ⟨rfl, fun hin => ?_, ?_⟩
      · rcases List.infix_cons_iff.mp hin with hp | hin
        · refine hbrackets (hp.trans ?_)
          exact List.prefix_append (a :: before') _
        · exact hclean hin
      · rw [keptOn_char hescaped hbrackets, hkept, List.append_assoc]
        rfl

end Exec

/-! ### Code parts -/

section Code
variable {part rest : Text}

theorem not_brackets_prefix_append {before rest : Text}
    (hclean : ¬ SearchingFor.close.brackets <:+: before)
    (hlast : before.getLast? ≠ some SearchingFor.close.char) {u : Text} (hu : u <:+ before)
    (hne : u ≠ []) : ¬ SearchingFor.close.brackets <+: u ++ rest := by
  intro hp
  match u, hne with
  | [a], _ =>
    obtain ⟨t, ht⟩ := hu
    rw [← ht, List.getLast?_append, List.getLast?_singleton, Option.some_or] at hlast
    obtain ⟨v, hv⟩ := hp
    exact hlast (congrArg some (List.cons.inj hv).1.symm)
  | a :: b :: u, _ =>
    obtain ⟨v, hv⟩ := hp
    obtain ⟨ha, hv'⟩ := List.cons.inj hv
    obtain ⟨hb, -⟩ := List.cons.inj hv'
    subst ha hb
    exact hclean ((List.prefix_append SearchingFor.close.brackets u).isInfix.trans hu.isInfix)

theorem not_escaped_prefix_append {before rest : Text}
    (hclean : ¬ SearchingFor.close.brackets <:+: before) {u : Text} (hu : u <:+ before)
    (hne : u ≠ []) :
    ¬ SearchingFor.close.escaped <+: u ++ (SearchingFor.close.escaped ++ rest) := by
  rintro ⟨v, hv⟩
  match u, hne with
  | [a], _ => simp [SearchingFor.escaped, SearchingFor.brackets, SearchingFor.char] at hv
  | [a, b], _ => simp [SearchingFor.escaped, SearchingFor.brackets, SearchingFor.char] at hv
  | a :: b :: c :: u, _ =>
    obtain ⟨-, hv'⟩ := List.cons.inj hv
    obtain ⟨hb, hv''⟩ := List.cons.inj hv'
    obtain ⟨hc, -⟩ := List.cons.inj hv''
    subst hb hc
    have hin : SearchingFor.close.brackets <:+: a :: SearchingFor.close.brackets ++ u :=
      ⟨[a], u, rfl⟩
    exact hclean (hin.trans hu.isInfix)

theorem escapeCode_append (hclean : ¬ SearchingFor.close.brackets <:+: part) :
    escapeCode (part ++ (SearchingFor.close.escaped ++ rest)) =
      part ++ (SearchingFor.close.brackets ++ rest) :=
  Replacing.replaceFirst_append (List.cons_ne_nil _ _) fun _ hu hne =>
    not_escaped_prefix_append hclean hu hne

/-- Without brackets nothing is changed. -/
theorem escapeTmpl_escapeCode_of_clean (hclean : ¬ SearchingFor.close.brackets <:+: part) :
    escapeTmplExpression (escapeCode part) = part := by
  have hescape : escapeCode part = part := Replacing.replaceFirst_of_not_infix fun hin =>
    hclean ((brackets_suffix_escaped (s := .close)).isInfix.trans hin)
  rw [hescape]
  exact Replacing.replaceFirst_of_not_infix hclean

theorem escapeTmpl_append {before rest : Text}
    (hclean : ¬ SearchingFor.close.brackets <:+: before)
    (hlast : before.getLast? ≠ some SearchingFor.close.char) :
    escapeTmplExpression (before ++ (SearchingFor.close.brackets ++ rest)) =
      before ++ (SearchingFor.close.escaped ++ rest) :=
  Replacing.replaceFirst_append (List.cons_ne_nil _ _) fun _ hu hne =>
    not_brackets_prefix_append hclean hlast hu hne

/-- A closing brace before the first escaped brackets makes these begin too early. -/
theorem escapeTmpl_escapeCode (rest : Text)
    (hclean : ¬ SearchingFor.close.brackets <:+: part) :
    (escapeTmplExpression (escapeCode (part ++ (SearchingFor.close.escaped ++ rest)))).length =
        (part ++ (SearchingFor.close.escaped ++ rest)).length ∧
      (escapeTmplExpression (escapeCode (part ++ (SearchingFor.close.escaped ++ rest))) =
          part ++ (SearchingFor.close.escaped ++ rest) ↔
        part.getLast? ≠ some SearchingFor.close.char) := by
  rw [escapeCode_append hclean]
  by_cases hlast : part.getLast? = some SearchingFor.close.char
  · obtain ⟨before, rfl⟩ := List.getLast?_eq_some_iff.mp hlast
    have hbefore : ¬ SearchingFor.close.brackets <:+: before := fun hin =>
      hclean (hin.trans (List.prefix_append _ _).isInfix)
    have hlast' : before.getLast? ≠ some SearchingFor.close.char := by
      intro hlast'
      obtain ⟨earlier, rfl⟩ := List.getLast?_eq_some_iff.mp hlast'
      exact hclean ⟨earlier, [], by simp [SearchingFor.brackets]⟩
    have hshift : before ++ [SearchingFor.close.char] ++ (SearchingFor.close.brackets ++ rest) =
        before ++ (SearchingFor.close.brackets ++ ([SearchingFor.close.char] ++ rest)) := by
      simp [SearchingFor.brackets]
    rw [hshift, escapeTmpl_append hbefore hlast']
    refine ⟨by simp [SearchingFor.escaped, SearchingFor.brackets],
      iff_of_false (fun heq => ?_) fun h => h hlast⟩
    rw [List.append_assoc] at heq
    have hhead := List.append_cancel_left heq
    simp [SearchingFor.escaped, SearchingFor.char] at hhead
  · rw [escapeTmpl_append hclean hlast]
    exact ⟨rfl, iff_of_true rfl hlast⟩

end Code

/-! ### Splitting and joining -/

section Join
variable {s : SearchingFor} {buffer more expr : Text}

/-- What joining puts before a part. -/
def opening : SearchingFor → Text
  | .open => []
  | .close => SearchingFor.open.brackets

/-- What joining makes of a part. -/
def restored (s : SearchingFor) (buffer : Text) : Text :=
  match s with
  | .open => buffer
  | .close => escapeTmplExpression (escapeCode buffer)

/-- What joining puts after a part that is closed. -/
def closing : SearchingFor → Text
  | .open => []
  | .close => SearchingFor.close.brackets

theorem joinChunk_chunk (s : SearchingFor) (buffer : Text) :
    joinChunk (chunk s buffer true) = opening s ++ (restored s buffer ++ closing s) := by
  cases s <;> simp [joinChunk, chunk, opening, restored, closing]

theorem joinChunk_last (s : SearchingFor) (buffer : Text) :
    joinChunk (chunk s buffer false) = opening s ++ restored s buffer := by
  cases s <;> simp [joinChunk, chunk, opening, restored]

theorem restored_nil (s : SearchingFor) : restored s [] = [] := by
  cases s <;> decide

/-- At the beginning of a round the buffer is empty or ends with escaped brackets. -/
def Begun (s : SearchingFor) (buffer : Text) : Prop :=
  buffer = [] ∨ (s.escaped <:+ buffer ∧
    ∃ before rest, buffer = before ++ (s.escaped ++ rest) ∧ ¬ s.brackets <:+: before)

theorem restored_append (hbuffer : Begun s buffer) (hclean : ¬ s.brackets <:+: more) :
    (restored s (buffer ++ more)).length = (buffer ++ more).length ∧
      (restored s (buffer ++ more) = buffer ++ more ↔ restored s buffer = buffer) := by
  cases s with
  | «open» => exact ⟨rfl, iff_of_true rfl rfl⟩
  | close =>
    rcases hbuffer with rfl | ⟨-, before, rest, rfl, hbefore⟩
    · rw [List.nil_append, restored, escapeTmpl_escapeCode_of_clean hclean]
      exact ⟨rfl, iff_of_true rfl rfl⟩
    · have hmore : before ++ (SearchingFor.close.escaped ++ rest) ++ more =
          before ++ (SearchingFor.close.escaped ++ (rest ++ more)) := by simp
      rw [hmore]
      obtain ⟨hlength, hiff⟩ := escapeTmpl_escapeCode (rest ++ more) hbefore
      exact ⟨hlength, hiff.trans (escapeTmpl_escapeCode rest hbefore).2.symm⟩

theorem begun_escaped (hbuffer : Begun s buffer) (hclean : ¬ s.brackets <:+: more) :
    Begun s (buffer ++ (more ++ s.escaped)) := by
  refine Or.inr ⟨⟨buffer ++ more, by simp⟩, ?_⟩
  rcases hbuffer with rfl | ⟨-, before, rest, rfl, hbefore⟩
  · exact ⟨more, [], by simp, hclean⟩
  · exact ⟨before, rest ++ (more ++ s.escaped), by simp, hbefore⟩

/-- Only the first escaped brackets of a code part matter. -/
theorem restored_escaped (hbuffer : Begun s buffer) (hclean : ¬ s.brackets <:+: more)
    (rest : Text) :
    Reading.Kept ⟨s, buffer ++ more, s.escaped ++ rest⟩ ∧ restored s buffer = buffer ↔
      restored s (buffer ++ (more ++ s.escaped)) = buffer ++ (more ++ s.escaped) := by
  have hrest : s.escaped ++ rest ≠ [] := List.cons_ne_nil _ _
  cases s with
  | «open» => exact iff_of_true ⟨⟨fun hnil => absurd hnil hrest, nofun⟩, rfl⟩ rfl
  | close =>
    rcases hbuffer with rfl | ⟨-, before, t, rfl, hbefore⟩
    · have hlast := (escapeTmpl_escapeCode [] hclean).2
      rw [List.append_nil] at hlast
      rw [List.nil_append, List.nil_append, and_iff_left (restored_nil .close), restored, hlast]
      exact ⟨fun h => h.2 rfl (List.prefix_append _ _) hclean,
        fun h => ⟨fun hnil => absurd hnil hrest, fun _ _ _ => h⟩⟩
    · have hmore : before ++ (SearchingFor.close.escaped ++ t) ++
          (more ++ SearchingFor.close.escaped) = before ++ (SearchingFor.close.escaped ++
            (t ++ (more ++ SearchingFor.close.escaped))) := by simp
      have hin : SearchingFor.close.brackets <:+:
          before ++ (SearchingFor.close.escaped ++ t) ++ more :=
        ⟨before ++ ['\\'], t ++ more, by simp [SearchingFor.escaped]⟩
      rw [hmore, restored, restored, (escapeTmpl_escapeCode t hbefore).2,
        (escapeTmpl_escapeCode _ hbefore).2]
      exact and_iff_right ⟨fun hnil => absurd hnil hrest, fun _ _ hno => absurd hin hno⟩

theorem eq_of_suffix {u v w : Text} (hu : u <:+ w) (hv : v <:+ w) (hlen : u.length = v.length) :
    u = v :=
  (List.suffix_of_suffix_length_le hu hv hlen.le).eq_of_length hlen

/-- A part that goes on without brackets does not end with escaped ones. -/
theorem kept_end (hbuffer : Begun s buffer) (hne : more ≠ []) (hclean : ¬ s.brackets <:+: more) :
    Reading.Kept ⟨s, buffer ++ more, []⟩ := by
  have hchar : s.char ≠ '\\' := by cases s <;> decide
  have hend : ¬ s.escaped <:+ buffer ++ more := by
    intro hsuffix
    by_cases hlen : 3 ≤ more.length
    · have hmore := List.suffix_of_suffix_length_le hsuffix (List.suffix_append buffer more) hlen
      exact hclean (brackets_suffix_escaped.isInfix.trans hmore.isInfix)
    · rcases hbuffer with rfl | ⟨⟨w, rfl⟩, -⟩
      · have hle := hsuffix.length_le
        exact hlen hle
      · match more, hne with
        | [x], _ =>
          have heq := eq_of_suffix (v := [s.char, s.char, x]) hsuffix
            ⟨w ++ ['\\'], by simp [SearchingFor.escaped, SearchingFor.brackets]⟩ rfl
          exact hchar (List.cons.inj heq).1.symm
        | [x, y], _ =>
          have heq := eq_of_suffix (v := [s.char, x, y]) hsuffix
            ⟨w ++ ['\\', s.char], by simp [SearchingFor.escaped, SearchingFor.brackets]⟩ rfl
          exact hchar (List.cons.inj heq).1.symm
        | _ :: _ :: _ :: _, _ => simp at hlen
  refine ⟨fun _ => ?_, fun _ hescaped => ?_⟩
  · rw [if_neg (List.append_ne_nil_of_right_ne_nil _ hne)]
    exact hend
  · exact absurd (List.prefix_nil.mp hescaped) (List.cons_ne_nil _ _)

/-- Nothing more is read: what the buffer holds is lost. -/
theorem nil_eq_opening_iff (hbuffer : Begun s buffer) :
    joinExpression [] = opening s ++ buffer ↔
      Reading.Kept ⟨s, buffer, []⟩ ∧ restored s buffer = buffer := by
  by_cases hempty : buffer = []
  · subst hempty
    rw [List.append_nil, and_iff_left (restored_nil s)]
    cases s with
    | «open» => exact iff_of_true rfl ⟨fun _ => rfl, nofun⟩
    | close => exact iff_of_false (List.cons_ne_nil _ _).symm fun h => nomatch h.1 rfl
  · have hsuffix : s.escaped <:+ buffer := (hbuffer.resolve_left hempty).1
    refine iff_of_false (fun hnil => ?_) fun h => ?_
    · have hbuf : buffer = [] := (List.append_eq_nil_iff.mp hnil.symm).2
      exact hempty hbuf
    · have hend := h.1.1 rfl
      rw [if_neg hempty] at hend
      exact hend hsuffix

theorem joinExpression_cons_eq_iff {parts : List ExpressionChunk} {part rest : Text}
    (hlength : (restored s part).length = part.length) :
    joinExpression (chunk s part true :: parts) = opening s ++ (part ++ (closing s ++ rest)) ↔
      joinExpression parts = rest ∧ restored s part = part := by
  have hcons : joinExpression (chunk s part true :: parts) =
      opening s ++ (restored s part ++ (closing s ++ joinExpression parts)) := by
    rw [joinExpression, List.flatMap_cons, joinChunk_chunk, List.append_assoc, List.append_assoc]
    rfl
  rw [hcons]
  constructor
  · intro h
    obtain ⟨hpart, hrest⟩ := List.append_inj (List.append_cancel_left h) hlength
    exact ⟨List.append_cancel_left hrest, hpart⟩
  · rintro ⟨hrest, hpart⟩
    rw [hrest, hpart]

/-- A round and all that follow give back what is left exactly when it is read without loss. -/
theorem joinExpression_splitFrom {fuel : ℕ} (hbuffer : Begun s buffer) (hfuel : expr.length < fuel) :
    joinExpression (splitFrom fuel s buffer expr) = opening s ++ (buffer ++ expr) ↔
      Reading.KeptOn ⟨s, buffer, expr⟩ ∧ restored s buffer = buffer := by
  induction fuel generalizing s buffer expr with
  | zero => omega
  | succ fuel ih =>
    rw [splitFrom]
    by_cases hnil : expr = []
    · subst hnil
      rw [if_pos rfl, keptOn_nil, List.append_nil]
      exact nil_eq_opening_iff hbuffer
    · rw [if_neg hnil]
      cases hexec : exec s expr with
      | none =>
        obtain ⟨hclean, hkept⟩ := exec_eq_none buffer hexec
        rw [hkept, and_iff_right (kept_end hbuffer hnil hclean), ← (restored_append hbuffer hclean).2]
        simp [joinExpression, joinChunk_last]
      | some m =>
        obtain ⟨before, escape, rest⟩ := m
        obtain ⟨rfl, hclean, hkept⟩ := exec_eq_some buffer hexec
        rw [List.length_append, List.length_append] at hfuel
        cases escape with
        | true =>
          have hless : rest.length < fuel := by
            simp only [token, if_true, SearchingFor.escaped, List.length_cons] at hfuel
            omega
          have hrest := ih (begun_escaped hbuffer hclean) hless
          have htext : buffer ++ (before ++ (s.escaped ++ rest)) =
              buffer ++ (before ++ s.escaped) ++ rest := by simp
          rw [hkept, token, if_pos rfl, htext, hrest, keptOn_escaped, and_right_comm,
            restored_escaped hbuffer hclean rest, and_comm, List.append_assoc]
        | false =>
          have hrest : joinExpression (splitFrom fuel s.other [] rest) = opening s.other ++ rest ↔
              Reading.KeptOn ⟨s.other, [], rest⟩ ∧ restored s.other [] = [] := by
            refine ih (Or.inl rfl) ?_
            simp [token, SearchingFor.brackets] at hfuel
            omega
          obtain ⟨hlength, hrestored⟩ := restored_append hbuffer hclean
          have htext : opening s ++ (buffer ++ (before ++ (s.brackets ++ rest))) =
              opening s ++ (buffer ++ before ++ (closing s ++ (opening s.other ++ rest))) := by
            cases s <;> simp [closing, opening, SearchingFor.other]
          rw [and_iff_left (restored_nil s.other)] at hrest
          rw [hkept, token, if_neg Bool.false_ne_true, keptOn_brackets, ← hrestored, ← hrest, htext]
          exact joinExpression_cons_eq_iff hlength

/-- Joining the parts of an expression gives it back exactly when each of its readings keeps what it
reads: it ends neither right after escaped brackets nor after opening ones, and in no code part do
the first escaped brackets come after another closing brace. -/
theorem joinExpression_splitExpression_iff (expression : Text) :
    joinExpression (splitExpression expression) = expression ↔
      Reading.KeptOn ⟨.open, [], expression⟩ :=
  (joinExpression_splitFrom (Or.inl rfl) (Nat.lt_succ_self _)).trans (and_iff_left rfl)

/-- Escaped brackets at the end are lost with all that is before them, and brackets that are escaped
in code after a closing brace come back a character early. -/
theorem joinExpression_splitExpression_ne :
    ¬ (∀ expression, joinExpression (splitExpression expression) = expression) ∧
      joinExpression (splitExpression ['a', '\\', '\x7b', '\x7b']) = [] ∧
      joinExpression (splitExpression ['\x7b', '\x7b', '\x7d', '\\', '\x7d', '\x7d', 'a']) =
        ['\x7b', '\x7b', '\\', '\x7d', '\x7d', '\x7d', 'a'] := by
  have hlost : joinExpression (splitExpression ['a', '\\', '\x7b', '\x7b']) = [] := by decide
  refine ⟨fun h => ?_, hlost, by decide⟩
  rw [h] at hlost
  cases hlost

end Join

end N8n.ExpressionParser
