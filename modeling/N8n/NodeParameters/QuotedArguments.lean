import N8n.NodeParameters.FromAI
import N8n.Foundations.FoldM
import Mathlib.Data.List.TakeWhile

/-!
# Quoted arguments

The key and the description of a call are read back when no other call begins before it or in one
of them, and when neither has a backslash before a backslash or a quote: they are unescaped twice.
-/

namespace N8n.FromAI

open Replacing (replaceAll)

/-! ### Where calls begin -/

/-- What is after the beginning of each call. -/
def callStarts : Text → List Text
  | [] => []
  | c :: s => (matchCall (c :: s)).toList ++ callStarts s

/-- A call begins somewhere in the text, in any letter case. -/
def HasCall (s : Text) : Prop :=
  ∃ before word spaces rest, s = before ++ (word ++ (spaces ++ '(' :: rest)) ∧
    toLowerCase word = callName ∧ ∀ c ∈ spaces, isWhitespace c

section CallStarts
variable {name s t u rest : Text} {c : Char}

theorem toLower_eq_dollar (h : c.toLower = '$') : c = '$' := by
  delta Char.toLower at h
  split_ifs at h with hupper
  · have hval : c.val + ('a'.val - 'A'.val) = '$'.val := congrArg Char.val h
    have hsub : c.val = '$'.val - ('a'.val - 'A'.val) := by
      rw [← hval]
      simp
    rw [hsub] at hupper
    exact absurd hupper (by decide)
  · exact h

theorem dropName_eq_some : dropName name s = some rest ↔
    ∃ word, s = word ++ rest ∧ toLowerCase word = name := by
  induction name generalizing s with
  | nil => simp [dropName, toLowerCase, eq_comm]
  | cons a name ih =>
    cases s with
    | nil =>
      refine iff_of_false (by simp [dropName]) ?_
      rintro ⟨word, hword, hname⟩
      obtain ⟨rfl, -⟩ := List.append_eq_nil_iff.mp hword.symm
      cases hname
    | cons c s =>
      rw [dropName]
      constructor
      · intro h
        split_ifs at h with hc
        obtain ⟨word, rfl, hname⟩ := ih.mp h
        exact ⟨c :: word, rfl, congrArg₂ List.cons hc hname⟩
      · rintro ⟨word, hword, hname⟩
        cases word with
        | nil => cases hname
        | cons c' word =>
          obtain ⟨rfl, rfl⟩ := List.cons.inj hword
          obtain ⟨hc, hname⟩ := List.cons.inj hname
          rw [if_pos hc]
          exact ih.mpr ⟨word, rfl, hname⟩

theorem dropWhile_append_stop {p : Char → Bool} (hc : p c = false) :
    (u ++ c :: t).dropWhile p = u.dropWhile p ++ c :: t := by
  have hrest : (c :: t).dropWhile p = c :: t := List.dropWhile_cons_of_neg (by simp [hc])
  rw [List.dropWhile_append, hrest]
  split_ifs with hempty
  · rw [List.isEmpty_iff.mp hempty]
    rfl
  · rfl

theorem matchCall_eq_some : matchCall s = some rest ↔ ∃ word spaces r,
    s = word ++ (spaces ++ '(' :: r) ∧ toLowerCase word = callName ∧
      (∀ c ∈ spaces, isWhitespace c) ∧ r.dropWhile isWhitespace = rest := by
  rw [matchCall]
  constructor
  · intro h
    cases hdrop : dropName callName s with
    | none =>
      rw [hdrop] at h
      cases h
    | some r =>
      obtain ⟨word, rfl, hword⟩ := dropName_eq_some.mp hdrop
      rw [hdrop, Option.map_some] at h
      split at h
      · next r' heq =>
        refine ⟨word, r.takeWhile isWhitespace, r', ?_, hword,
          fun c hc => List.mem_takeWhile_imp hc, Option.some.inj h⟩
        rw [← Option.some.inj heq, List.takeWhile_append_dropWhile]
      · cases h
  · rintro ⟨word, spaces, r, rfl, hword, hspaces, rfl⟩
    rw [dropName_eq_some.mpr ⟨word, rfl, hword⟩, Option.map_some,
      List.dropWhile_append_of_pos hspaces, List.dropWhile_cons_of_neg (by decide)]
    rfl

theorem dollar_not_mem_of_toLowerCase {word name : Text} (h : toLowerCase word = name)
    (hname : '$' ∉ name) : '$' ∉ word := by
  intro hmem
  have hlower : '$'.toLower ∈ toLowerCase word := List.mem_map_of_mem hmem
  exact hname (h ▸ hlower)

theorem dollar_not_mem_of_whitespace {spaces : Text} (h : ∀ c ∈ spaces, isWhitespace c) :
    '$' ∉ spaces := fun hmem => absurd (h _ hmem) (by decide)

/-- No other call begins in the beginning of a call. -/
theorem matchCall_rest (h : matchCall s = some rest) : ∃ u, s = '$' :: (u ++ rest) ∧ '$' ∉ u := by
  obtain ⟨word, spaces, r, rfl, hword, hspaces, rfl⟩ := matchCall_eq_some.mp h
  cases word with
  | nil => cases hword
  | cons c word =>
    obtain ⟨hc, hword⟩ := List.cons.inj hword
    refine ⟨word ++ (spaces ++ '(' :: r.takeWhile isWhitespace), ?_, ?_⟩
    · rw [toLower_eq_dollar hc, List.append_assoc, List.append_assoc, List.cons_append,
        List.cons_append, List.takeWhile_append_dropWhile]
    · have hspaces' : '$' ∉ r.takeWhile isWhitespace :=
        dollar_not_mem_of_whitespace fun c hc => List.mem_takeWhile_imp hc
      have hword' : '$' ∉ word := dollar_not_mem_of_toLowerCase hword (by decide)
      simp [hword', dollar_not_mem_of_whitespace hspaces, hspaces']

theorem matchCall_cons_ne (h : c ≠ '$') : matchCall (c :: s) = none := by
  have hdrop : dropName callName (c :: s) = none := by
    rw [callName, dropName, if_neg fun hc => h (toLower_eq_dollar hc)]
  rw [matchCall, hdrop]
  rfl

theorem callStarts_append_of_not_mem (h : '$' ∉ u) : callStarts (u ++ s) = callStarts s := by
  induction u with
  | nil => rfl
  | cons c u ih =>
    rw [List.mem_cons, not_or] at h
    rw [List.cons_append, callStarts, matchCall_cons_ne (Ne.symm h.1), ih h.2]
    rfl

theorem hasCall_cons : HasCall (c :: s) ↔ (∃ rest, matchCall (c :: s) = some rest) ∨ HasCall s := by
  constructor
  · rintro ⟨before, word, spaces, rest, heq, hword, hspaces⟩
    cases before with
    | nil =>
      have hmatch := matchCall_eq_some.mpr ⟨word, spaces, rest, heq, hword, hspaces, rfl⟩
      exact Or.inl ⟨_, hmatch⟩
    | cons d before =>
      obtain ⟨-, rfl⟩ := List.cons.inj heq
      exact Or.inr ⟨before, word, spaces, rest, rfl, hword, hspaces⟩
  · rintro (⟨rest, hmatch⟩ | ⟨before, word, spaces, rest, rfl, hword, hspaces⟩)
    · obtain ⟨word, spaces, r, heq, hword, hspaces, -⟩ := matchCall_eq_some.mp hmatch
      exact ⟨[], word, spaces, r, heq, hword, hspaces⟩
    · exact ⟨c :: before, word, spaces, rest, rfl, hword, hspaces⟩

theorem callStarts_eq_nil : callStarts s = [] ↔ ¬ HasCall s := by
  induction s with
  | nil =>
    refine iff_of_true rfl ?_
    rintro ⟨before, word, spaces, rest, heq, -⟩
    simp at heq
  | cons c s ih =>
    rw [callStarts, List.append_eq_nil_iff, ih, hasCall_cons, not_or]
    refine and_congr_left fun _ => ?_
    cases matchCall (c :: s) <;> simp

theorem exec_eq_none : exec s = none ↔ callStarts s = [] := by
  induction s with
  | nil => simp [exec, callStarts]
  | cons c s ih => simp [exec, callStarts, ih]

/-- The search goes on after the beginning of the first call. -/
theorem exec_eq_some (h : exec s = some rest) :
    callStarts s = rest :: callStarts rest ∧ rest.length < s.length := by
  induction s with
  | nil => cases h
  | cons c s ih =>
    rw [exec] at h
    cases hmatch : matchCall (c :: s) with
    | none =>
      rw [hmatch, Option.none_or] at h
      obtain ⟨hstarts, hlength⟩ := ih h
      rw [callStarts, hmatch, hstarts]
      exact ⟨rfl, Nat.lt_succ_of_lt hlength⟩
    | some r =>
      rw [hmatch, Option.some_or] at h
      obtain rfl := Option.some.inj h
      obtain ⟨u, hu, hdollar⟩ := matchCall_rest hmatch
      obtain ⟨-, rfl⟩ := List.cons.inj hu
      rw [callStarts, hmatch, callStarts_append_of_not_mem hdollar]
      refine ⟨rfl, ?_⟩
      rw [List.length_cons, List.length_append]
      omega

theorem extractFrom_eq {rt : Runtime} {fuel : ℕ} (hfuel : s.length < fuel) :
    extractFrom rt fuel s = (callStarts s).mapM (parseCall rt) := by
  induction fuel generalizing s with
  | zero => omega
  | succ fuel ih =>
    rw [extractFrom]
    cases hexec : exec s with
    | none =>
      rw [exec_eq_none.mp hexec]
      rfl
    | some rest =>
      obtain ⟨hstarts, hlength⟩ := exec_eq_some hexec
      rw [hstarts, List.mapM_cons, ← ih (by omega)]

/-- A character that no beginning of a call goes on with. -/
def stops (c : Char) : Prop := isWhitespace c = false ∧ c ≠ '(' ∧ c.toLower ∉ callName.tail

theorem dropName_append (hc : c.toLower ∉ name) :
    dropName name (u ++ c :: t) = (dropName name u).map (· ++ c :: t) := by
  induction name generalizing u with
  | nil => rfl
  | cons a name ih =>
    rw [List.mem_cons, not_or] at hc
    cases u with
    | nil => exact if_neg hc.1
    | cons d u =>
      rw [List.cons_append, dropName, dropName]
      split_ifs
      · exact ih hc.2
      · rfl

theorem matchCall_append (hstop : stops c) {d : Char} :
    matchCall (d :: u ++ c :: t) = (matchCall (d :: u)).map (· ++ c :: t) := by
  obtain ⟨hspace, hparen, htail⟩ := hstop
  have hdrop : dropName callName (d :: u ++ c :: t) =
      (dropName callName (d :: u)).map (· ++ c :: t) := by
    rw [callName, List.cons_append, dropName, dropName]
    split_ifs
    · exact dropName_append htail
    · rfl
  rw [matchCall, matchCall, hdrop]
  cases dropName callName (d :: u) with
  | none => rfl
  | some r =>
    rw [Option.map_some, Option.map_some, Option.map_some, dropWhile_append_stop hspace]
    cases r.dropWhile isWhitespace with
    | nil => simp [hparen]
    | cons a r =>
      by_cases ha : a = '('
      · subst ha
        exact congrArg some (dropWhile_append_stop hspace)
      · simp [ha]

theorem callStarts_append (hstop : stops c) :
    callStarts (u ++ c :: t) = (callStarts u).map (· ++ c :: t) ++ callStarts (c :: t) := by
  induction u with
  | nil => rfl
  | cons d u ih =>
    have hmatch := matchCall_append (u := u) (t := t) hstop (d := d)
    rw [List.cons_append] at hmatch
    rw [List.cons_append, callStarts, hmatch, ih]
    cases hd : matchCall (d :: u) <;> simp [callStarts, hd]

end CallStarts

/-! ### Quoted texts -/

/-- A backslash before every backslash and every quote of the kind that stands around the text. -/
def escape (quote : Quote) (s : Text) : Text :=
  s.flatMap fun c => if c = '\\' ∨ c = quote.char then ['\\', c] else [c]

def enc (quote : Quote) (s : Text) : Text := quote.char :: (escape quote s ++ [quote.char])

/-- What is between the parentheses of a call. -/
def callArguments (quote : Quote) (key description : Text) : Text :=
  enc quote key ++ (',' :: ' ' :: enc quote description)

def callText (quote : Quote) (key description : Text) : Text :=
  ['$', 'f', 'r', 'o', 'm', 'A', 'I', '('] ++ (callArguments quote key description ++ [')'])

section Quoted
variable {quote : Quote} {name s rest argsString currentArg : Text} {c : Char} {n : ℕ}

theorem escape_cons_escaped (h : c = '\\' ∨ c = quote.char) :
    escape quote (c :: s) = '\\' :: c :: escape quote s := by
  rw [escape, List.flatMap_cons, if_pos h]
  rfl

theorem escape_cons_plain (h : ¬ (c = '\\' ∨ c = quote.char)) :
    escape quote (c :: s) = c :: escape quote s := by
  rw [escape, List.flatMap_cons, if_neg h]
  rfl

theorem quote_mem (quote : Quote) : quote.char ∈ quotes := by cases quote <;> decide

theorem quote_ne_backslash (quote : Quote) : quote.char ≠ '\\' := by cases quote <;> decide

theorem stops_quote (quote : Quote) : stops quote.char := by
  cases quote <;> exact ⟨by decide, by decide, by decide⟩

theorem stops_dollar : stops '$' := ⟨by decide, by decide, by decide⟩

theorem escaped_cases (h : c = '\\' ∨ c = quote.char) : isWhitespace c = false ∧ c ≠ '(' ∧
    c ≠ '$' ∧ c.toLower ∉ callName := by
  rcases h with rfl | rfl
  · decide
  · cases quote <;> decide

theorem dropName_escape (hname : ∀ a ∈ name, a ∈ callName) :
    dropName name (escape quote s) = (dropName name s).map (escape quote) := by
  induction name generalizing s with
  | nil => rfl
  | cons a name ih =>
    obtain ⟨ha, hname⟩ := List.forall_mem_cons.mp hname
    cases s with
    | nil => rfl
    | cons c s =>
      by_cases hc : c = '\\' ∨ c = quote.char
      · have hlower : c.toLower ≠ a := fun heq => (escaped_cases hc).2.2.2 (heq ▸ ha)
        have hback : '\\'.toLower ≠ a := fun heq => absurd (heq ▸ ha) (by decide)
        rw [escape_cons_escaped hc, dropName, dropName, if_neg hlower, if_neg hback]
        rfl
      · rw [escape_cons_plain hc, dropName, dropName]
        split_ifs
        · exact ih hname
        · rfl

theorem dropWhile_escape :
    (escape quote s).dropWhile isWhitespace = escape quote (s.dropWhile isWhitespace) := by
  induction s with
  | nil => rfl
  | cons c s ih =>
    by_cases hc : c = '\\' ∨ c = quote.char
    · have hspace := (escaped_cases hc).1
      rw [escape_cons_escaped hc, List.dropWhile_cons_of_neg (by decide),
        List.dropWhile_cons_of_neg (by simp [hspace]), escape_cons_escaped hc]
    · rw [escape_cons_plain hc]
      by_cases hspace : isWhitespace c
      · rw [List.dropWhile_cons_of_pos hspace, List.dropWhile_cons_of_pos hspace, ih]
      · rw [List.dropWhile_cons_of_neg hspace, List.dropWhile_cons_of_neg hspace,
          escape_cons_plain hc]

theorem matchCall_escape (quote : Quote) (s : Text) :
    matchCall (escape quote s) = (matchCall s).map (escape quote) := by
  rw [matchCall, matchCall, dropName_escape fun _ ha => ha]
  cases dropName callName s with
  | none => rfl
  | some r =>
    rw [Option.map_some, Option.map_some, Option.map_some, dropWhile_escape]
    cases r.dropWhile isWhitespace with
    | nil => rfl
    | cons a r =>
      by_cases hc : a = '\\' ∨ a = quote.char
      · rw [escape_cons_escaped hc]
        simp [(escaped_cases hc).2.1]
      · rw [escape_cons_plain hc]
        by_cases ha : a = '('
        · subst ha
          exact congrArg some dropWhile_escape
        · simp [ha]

theorem callStarts_escape : callStarts (escape quote s) = (callStarts s).map (escape quote) := by
  induction s with
  | nil => rfl
  | cons c s ih =>
    by_cases hc : c = '\\' ∨ c = quote.char
    · have hne := (escaped_cases hc).2.2.1
      rw [escape_cons_escaped hc, callStarts, matchCall_cons_ne (by decide), callStarts,
        matchCall_cons_ne hne, ih, callStarts, matchCall_cons_ne hne]
      rfl
    · have hmatch := matchCall_escape quote (c :: s)
      rw [escape_cons_plain hc] at hmatch
      rw [escape_cons_plain hc, callStarts, hmatch, ih, callStarts, List.map_append]
      cases matchCall (c :: s) <;> rfl

theorem callStarts_enc (quote : Quote) (s rest : Text) : callStarts (enc quote s ++ rest) =
    ((callStarts s).map (escape quote)).map (· ++ quote.char :: rest) ++ callStarts rest := by
  have hdollar : quote.char ≠ '$' := by cases quote <;> decide
  have hquote : ∀ t, callStarts (quote.char :: t) = callStarts t := by
    intro t
    rw [callStarts, matchCall_cons_ne hdollar]
    rfl
  have htext : enc quote s ++ rest = quote.char :: (escape quote s ++ quote.char :: rest) := by
    simp [enc]
  rw [htext, hquote, callStarts_append (stops_quote quote), callStarts_escape, hquote]

/-- In a text that ends with a call the calls begin before it, in its key and in its
description. -/
theorem callStarts_append_callText (str : Text) (quote : Quote) (key description : Text) :
    ∃ l l₁ l₂, callStarts (str ++ callText quote key description) =
        l ++ (callArguments quote key description ++ [')']) :: (l₁ ++ l₂) ∧
      (l = [] ↔ ¬ HasCall str) ∧ (l₁ = [] ↔ ¬ HasCall key) ∧ (l₂ = [] ↔ ¬ HasCall description) := by
  have hmatch : matchCall (callText quote key description) =
      some (callArguments quote key description ++ [')']) := by
    refine matchCall_eq_some.mpr ⟨['$', 'f', 'r', 'o', 'm', 'A', 'I'], [], _, rfl, by decide, ?_, ?_⟩
    · exact fun c hc => absurd hc List.not_mem_nil
    · exact List.dropWhile_cons_of_neg (by simp [(stops_quote quote).1])
  have hcall : callStarts (callText quote key description) =
      (callArguments quote key description ++ [')']) ::
        callStarts (callArguments quote key description ++ [')']) := by
    rw [callText, List.cons_append, callStarts, ← List.cons_append, ← callText, hmatch]
    exact congrArg (List.cons _) (callStarts_append_of_not_mem (by decide))
  have hcomma : ∀ t, callStarts (',' :: ' ' :: t) = callStarts t := fun t =>
    callStarts_append_of_not_mem (u := [',', ' ']) (by decide)
  have hend : callStarts [')'] = [] := callStarts_append_of_not_mem (u := [')']) (by decide)
  have htext : callArguments quote key description ++ [')'] =
      enc quote key ++ (',' :: ' ' :: (enc quote description ++ [')'])) := by
    simp [callArguments]
  have hstarts : callStarts (str ++ callText quote key description) =
      (callStarts str).map (· ++ callText quote key description) ++
        callStarts (callText quote key description) := callStarts_append stops_dollar
  rw [hcall, htext, callStarts_enc, hcomma, callStarts_enc, hend, List.append_nil] at hstarts
  refine ⟨_, _, _, hstarts.trans (by rw [htext]), ?_, ?_, ?_⟩
  all_goals simp only [List.map_eq_nil_iff, callStarts_eq_nil]

/-! ### The arguments of a call -/

theorem scanArguments_quoted (hc : c ≠ '\\') :
    scanArguments (some quote.char) n argsString (c :: rest) =
      scanArguments (if c = quote.char then none else some quote.char) n (argsString ++ [c]) rest := by
  rw [scanArguments]
  intro d rest' hback
  exact absurd hback hc

theorem splitArguments_quoted (hc : c ≠ '\\') :
    splitArguments (some quote.char) currentArg (c :: rest) =
      splitArguments (if c = quote.char then none else some quote.char) (currentArg ++ [c]) rest := by
  rw [splitArguments]
  · intro hback
    exact absurd hback hc
  · intro d rest' hback
    exact absurd hback hc

theorem scanArguments_escape : scanArguments (some quote.char) n argsString
      (escape quote s ++ quote.char :: rest) =
    scanArguments none n (argsString ++ (escape quote s ++ [quote.char])) rest := by
  induction s generalizing argsString with
  | nil =>
    rw [escape, List.flatMap_nil, List.nil_append, scanArguments_quoted (quote_ne_backslash quote),
      if_pos rfl]
    rfl
  | cons c s ih =>
    by_cases hc : c = '\\' ∨ c = quote.char
    · rw [escape_cons_escaped hc, List.cons_append, List.cons_append, scanArguments, ih]
      simp
    · obtain ⟨hback, hquote⟩ := not_or.mp hc
      rw [escape_cons_plain hc, List.cons_append, scanArguments_quoted hback, if_neg hquote, ih]
      simp

theorem splitArguments_escape : splitArguments (some quote.char) currentArg
      (escape quote s ++ quote.char :: rest) =
    splitArguments none (currentArg ++ (s ++ [quote.char])) rest := by
  induction s generalizing currentArg with
  | nil =>
    rw [escape, List.flatMap_nil, List.nil_append, splitArguments_quoted (quote_ne_backslash quote),
      if_pos rfl]
    rfl
  | cons c s ih =>
    by_cases hc : c = '\\' ∨ c = quote.char
    · rw [escape_cons_escaped hc, List.cons_append, List.cons_append, splitArguments, ih]
      simp
    · obtain ⟨hback, hquote⟩ := not_or.mp hc
      rw [escape_cons_plain hc, List.cons_append, splitArguments_quoted hback, if_neg hquote, ih]
      simp

theorem scanArguments_enc (quote : Quote) (s : Text) :
    scanArguments none n argsString (enc quote s ++ rest) =
      scanArguments none n (argsString ++ enc quote s) rest := by
  rw [enc, List.cons_append, List.append_assoc, List.singleton_append, scanArguments,
    if_pos (quote_mem quote), scanArguments_escape]
  simp

theorem splitArguments_enc (quote : Quote) (s : Text) :
    splitArguments none currentArg (enc quote s ++ rest) =
      splitArguments none (currentArg ++ quote.char :: (s ++ [quote.char])) rest := by
  have hback := quote_ne_backslash quote
  rw [enc, List.cons_append, List.append_assoc, List.singleton_append, splitArguments,
    if_pos (quote_mem quote), splitArguments_escape]
  · simp
  · intro h
    exact absurd h hback
  · intro d rest' h
    exact absurd h hback

/-- Both arguments are kept, with their quotes and backslashes. -/
theorem scanArguments_callArguments (quote : Quote) (key description : Text) :
    scanArguments none 1 [] (callArguments quote key description ++ [')']) =
      some (callArguments quote key description) := by
  have htext : callArguments quote key description ++ [')'] =
      enc quote key ++ (',' :: ' ' :: (enc quote description ++ [')'])) := by
    simp [callArguments]
  have hcomma : ∀ t u, scanArguments none 1 t (',' :: ' ' :: u) =
      scanArguments none 1 (t ++ [',', ' ']) u := by
    intro t u
    rw [scanArguments, if_neg (by decide), if_neg (by decide), if_neg (by decide), scanArguments,
      if_neg (by decide), if_neg (by decide), if_neg (by decide), List.append_assoc]
    rfl
  have hend : ∀ t, scanArguments none 1 t [')'] = some t := by
    intro t
    rw [scanArguments, if_neg (by decide), if_neg (by decide), if_pos rfl, if_pos rfl]
  rw [htext, scanArguments_enc, hcomma, scanArguments_enc, hend]
  simp [callArguments]

theorem trim_quoted (quote : Quote) (s : Text) :
    trim (quote.char :: (s ++ [quote.char])) = quote.char :: (s ++ [quote.char]) := by
  have hspace : ¬ isWhitespace quote.char := by simp [(stops_quote quote).1]
  rw [trim, List.dropWhile_cons_of_neg hspace, ← List.cons_append, List.reverse_append,
    List.reverse_singleton, List.singleton_append, List.dropWhile_cons_of_neg hspace,
    List.reverse_cons, List.reverse_reverse]

/-- The backslashes that escape are dropped. -/
theorem splitArguments_callArguments (quote : Quote) (key description : Text) :
    splitArguments none [] (callArguments quote key description) =
      [quote.char :: (key ++ [quote.char]), quote.char :: (description ++ [quote.char])] := by
  have hspace : trim (' ' :: (quote.char :: (description ++ [quote.char]))) =
      trim (quote.char :: (description ++ [quote.char])) := by
    rw [trim, List.dropWhile_cons_of_pos (by decide)]
    rfl
  have hcomma : ∀ t u, splitArguments none t (',' :: ' ' :: u) =
      trim t :: splitArguments none [' '] u := by
    intro t u
    simp [splitArguments, quotes, Quote.char]
  have hend : splitArguments none [' '] (enc quote description) =
      [trim (' ' :: (quote.char :: (description ++ [quote.char])))] := by
    rw [← List.append_nil (enc quote description), splitArguments_enc, splitArguments]
    rfl
  rw [callArguments, splitArguments_enc, hcomma, hend, hspace, List.nil_append, trim_quoted,
    trim_quoted]

theorem cleanArg_quoted (quote : Quote) (s : Text) :
    cleanArg (quote.char :: (s ++ [quote.char])) = unescape s := by
  have hquoted : isQuoted (quote.char :: (s ++ [quote.char])) quote := by
    refine ⟨rfl, ?_⟩
    rw [← List.cons_append, List.getLast?_concat]
  have hany : ∀ t, isQuoted t quote →
      isQuoted t .single ∨ isQuoted t .backtick ∨ isQuoted t .double := by
    intro t ht
    cases quote with
    | double => exact Or.inr (Or.inr ht)
    | single => exact Or.inl ht
    | backtick => exact Or.inr (Or.inl ht)
  rw [cleanArg, trim_quoted, if_pos (hany _ hquoted), List.drop_one, List.tail_cons,
    List.dropLast_concat]

theorem parseCall_callArguments (rt : Runtime) (quote : Quote) (key description : Text) :
    parseCall rt (callArguments quote key description ++ [')']) = .ok
      { key := unescape key, description := some (unescape description), type := "string".toList
        defaultValue := none } := by
  have hkey : orDefault (some (unescape key)) [] = unescape key := by
    cases unescape key <;> rfl
  rw [parseCall, scanArguments_callArguments]
  simp only [parseArguments, splitArguments_callArguments, List.map_cons, List.map_nil,
    cleanArg_quoted]
  have htype : toLowerCase (orDefault [unescape key, unescape description][2]? "string".toList) ∈
      ["string".toList, "number".toList, "boolean".toList, "json".toList] := by
    change toLowerCase "string".toList ∈ _
    decide
  rw [if_pos htype]
  simp only [List.getElem?_cons_zero, hkey]
  rfl

end Quoted

/-! ### What is read back -/

section ReadBack
variable {s : Text}

/-- No backslash stands before another one or before a quote. -/
def NoEscape (s : Text) : Prop := ∀ c ∈ '\\' :: quotes, ¬ ['\\', c] <:+: s

theorem unescapeQuote_eq_self_iff {c : Char} : unescapeQuote c s = s ↔ ¬ ['\\', c] <:+: s :=
  Replacing.replaceAll_eq_self_iff (List.cons_ne_nil _ _) (Nat.lt_succ_self 1)

theorem length_unescapeQuote_le (c : Char) (s : Text) :
    (unescapeQuote c s).length ≤ s.length :=
  Replacing.length_replaceAll_le (List.cons_ne_nil _ _) (Nat.le_succ 1)

theorem unescapeQuote_of_length {c : Char} (h : s.length ≤ (unescapeQuote c s).length) :
    unescapeQuote c s = s := by
  refine unescapeQuote_eq_self_iff.mpr fun hin => ?_
  have hlt : (unescapeQuote c s).length < s.length :=
    Replacing.length_replaceAll_lt (List.cons_ne_nil _ _) (Nat.lt_succ_self 1) hin
  omega

/-- A text that is unescaped once more stays when nothing in it is escaped. -/
theorem unescape_eq_self_iff : unescape s = s ↔ NoEscape s := by
  have hfour : NoEscape s ↔ ¬ ['\\', '\\'] <:+: s ∧ ¬ ['\\', Quote.double.char] <:+: s ∧
      ¬ ['\\', Quote.single.char] <:+: s ∧ ¬ ['\\', Quote.backtick.char] <:+: s := by
    simp [NoEscape, quotes]
  rw [hfour, ← unescapeQuote_eq_self_iff, ← unescapeQuote_eq_self_iff, ← unescapeQuote_eq_self_iff,
    ← unescapeQuote_eq_self_iff, unescape]
  constructor
  · intro h
    have hlength := congrArg List.length h
    have hsingle := length_unescapeQuote_le Quote.single.char s
    have hbacktick := length_unescapeQuote_le Quote.backtick.char (unescapeQuote Quote.single.char s)
    have hdouble := length_unescapeQuote_le Quote.double.char
      (unescapeQuote Quote.backtick.char (unescapeQuote Quote.single.char s))
    have hback := length_unescapeQuote_le '\\' (unescapeQuote Quote.double.char
      (unescapeQuote Quote.backtick.char (unescapeQuote Quote.single.char s)))
    -- No step makes the text longer, so none makes it shorter.
    have hsame : unescapeQuote Quote.single.char s = s := unescapeQuote_of_length (by omega)
    rw [hsame] at hlength hbacktick hdouble hback
    have hsame' : unescapeQuote Quote.backtick.char s = s := unescapeQuote_of_length (by omega)
    rw [hsame'] at hlength hdouble hback
    have hsame'' : unescapeQuote Quote.double.char s = s := unescapeQuote_of_length (by omega)
    rw [hsame''] at hlength hback
    exact ⟨unescapeQuote_of_length (by omega), hsame'', hsame, hsame'⟩
  · rintro ⟨hback, hdouble, hsingle, hbacktick⟩
    rw [hsingle, hbacktick, hdouble, hback]

/-- A text that ends with a call has exactly one call, with the key and the description. -/
def ReadsBack (rt : Runtime) (str : Text) (quote : Quote) (key description : Text) : Prop :=
  ∃ argument, extractFromAICalls rt (str ++ callText quote key description) = .ok [argument] ∧
    argument.key = key ∧ argument.description = some description

theorem ReadsBack.cases {rt : Runtime} {str : Text} {quote : Quote} {key description : Text}
    (h : ReadsBack rt str quote key description) :
    ¬ HasCall str ∧ (¬ HasCall key ∧ NoEscape key) ∧ ¬ HasCall description ∧
      NoEscape description := by
  obtain ⟨l, l₁, l₂, hstarts, hstr, hkey, hdescription⟩ :=
    callStarts_append_callText str quote key description
  obtain ⟨argument, hread, hargument, hargument'⟩ := h
  rw [extractFromAICalls, extractFrom_eq (Nat.lt_succ_self _), hstarts] at hread
  have hlength := FoldM.length_of_mapM_ok hread
  simp only [List.length_append, List.length_cons, List.length_nil] at hlength
  have hnil : l = [] := List.length_eq_zero_iff.mp (by omega)
  have hnil₁ : l₁ = [] := List.length_eq_zero_iff.mp (by omega)
  have hnil₂ : l₂ = [] := List.length_eq_zero_iff.mp (by omega)
  rw [← hstr, ← hkey, ← hdescription, ← unescape_eq_self_iff, ← unescape_eq_self_iff]
  subst hnil hnil₁ hnil₂
  rw [List.nil_append, List.nil_append, List.mapM_cons, parseCall_callArguments] at hread
  obtain rfl := (List.cons.inj (Except.ok.inj hread)).1
  exact ⟨rfl, ⟨rfl, hargument⟩, rfl, Option.some.inj hargument'⟩

/-- Quoted arguments are read back exactly when no other call begins before them or in them, and
when they have no backslash before a backslash or a quote. -/
theorem readsBack_iff (rt : Runtime) (str : Text) (quote : Quote) (key description : Text) :
    ReadsBack rt str quote key description ↔
      ¬ HasCall str ∧ (¬ HasCall key ∧ NoEscape key) ∧ ¬ HasCall description ∧
        NoEscape description := by
  refine ⟨ReadsBack.cases, ?_⟩
  rintro ⟨hstr', ⟨hkey', hescape⟩, hdescription', hescape'⟩
  obtain ⟨l, l₁, l₂, hstarts, hstr, hkey, hdescription⟩ :=
    callStarts_append_callText str quote key description
  obtain rfl := hstr.mpr hstr'
  obtain rfl := hkey.mpr hkey'
  obtain rfl := hdescription.mpr hdescription'
  have hparse := parseCall_callArguments rt quote key description
  rw [unescape_eq_self_iff.mpr hescape, unescape_eq_self_iff.mpr hescape'] at hparse
  refine ⟨{ key, description := some description, type := "string".toList, defaultValue := none },
    ?_, rfl, rfl⟩
  rw [extractFromAICalls, extractFrom_eq (Nat.lt_succ_self _), hstarts, List.nil_append,
    List.nil_append, List.mapM_cons, hparse]
  rfl

/-- A key that is a backslash before a quote loses the backslash. -/
theorem escapedQuote_not_readsBack : ¬ ∀ rt str quote key description,
    ¬ ['$', 'f', 'r', 'o', 'm', 'A', 'I'] <:+: str → ReadsBack rt str quote key description := by
  intro h
  have hread := h ⟨fun _ => .nan, fun _ => none⟩ [] .double ['\\', '"'] [] (by decide)
  exact hread.cases.2.1.2 '"' (by decide) (by decide)

end ReadBack

end N8n.FromAI
