import N8n.Foundations.Runs

/-!
# Undoing and redoing a group of commands

A recorder keeps a state and the commands that were recorded on the way to it. To
undo a group is to revert its commands from the last to the first, and to redo it is
to undo the group of the inverse commands. A group leads from one state to another if
this goes back and forth between the two, up to a relation that says when a state
counts as another.
-/

namespace N8n.UndoGroups

open Runs (EveryStep trace)

variable {σ γ ε : Type*} (revert : γ → σ → σ) (inverse : γ → γ) (R : σ → σ → Prop)

def revertAll (commands : List γ) (s : σ) : σ := commands.foldr revert s

def inverseAll (commands : List γ) : List γ := commands.reverse.map inverse

structure Leads (s : σ) (commands : List γ) (s' : σ) : Prop where
  undo : ∀ t, R s' t → R s (revertAll revert commands t)
  redo : ∀ t, R s t → R s' (revertAll revert (inverseAll inverse commands) t)

@[ext]
structure Recorder (σ γ : Type*) where
  state : σ
  commands : List γ

/-- What was recorded since leads from the state before to the state after. -/
def Records (r r' : Recorder σ γ) : Prop :=
  ∃ commands, r'.commands = r.commands ++ commands ∧
    Leads revert inverse R r.state commands r'.state

variable {revert inverse R}

theorem revertAll_append (commands commands' : List γ) (s : σ) :
    revertAll revert (commands ++ commands') s =
      revertAll revert commands (revertAll revert commands' s) :=
  List.foldr_append

theorem inverseAll_append (commands commands' : List γ) :
    inverseAll inverse (commands ++ commands') =
      inverseAll inverse commands' ++ inverseAll inverse commands := by
  rw [inverseAll, List.reverse_append, List.map_append]
  rfl

namespace Leads
variable {s s' s'' : σ} {commands commands' : List γ}

theorem nil (h : ∀ t, R s t ↔ R s' t) : Leads revert inverse R s [] s' where
  undo t ht := (h t).mpr ht
  redo t ht := (h t).mp ht

theorem single {c : γ} (undo : ∀ t, R s' t → R s (revert c t))
    (redo : ∀ t, R s t → R s' (revert (inverse c) t)) : Leads revert inverse R s [c] s' :=
  ⟨undo, redo⟩

theorem append (h : Leads revert inverse R s commands s')
    (h' : Leads revert inverse R s' commands' s'') :
    Leads revert inverse R s (commands ++ commands') s'' where
  undo t ht := by
    rw [revertAll_append]
    exact h.undo _ (h'.undo t ht)
  redo t ht := by
    rw [inverseAll_append, revertAll_append]
    exact h'.redo _ (h.redo t ht)

end Leads

namespace Records
variable {r r' r'' : Recorder σ γ}

/-- Nothing is recorded where the state after counts as the state before. -/
theorem silent (hc : r'.commands = r.commands) (h : ∀ t, R r.state t ↔ R r'.state t) :
    Records revert inverse R r r' :=
  ⟨[], by rw [hc, List.append_nil], .nil h⟩

theorem refl (r : Recorder σ γ) : Records revert inverse R r r := silent rfl fun _ => Iff.rfl

theorem single {c : γ} (hc : r'.commands = r.commands ++ [c])
    (h : Leads revert inverse R r.state [c] r'.state) : Records revert inverse R r r' :=
  ⟨[c], hc, h⟩

theorem trans (h : Records revert inverse R r r') (h' : Records revert inverse R r' r'') :
    Records revert inverse R r r'' := by
  obtain ⟨commands, hc, h⟩ := h
  obtain ⟨commands', hc', h'⟩ := h'
  exact ⟨commands ++ commands', by rw [hc', hc, List.append_assoc], h.append h'⟩

/-- Steps that record what they do record, one after the other, what they do together. -/
theorem foldl {next : Recorder σ γ → ε → Recorder σ γ} {P : Recorder σ γ → Prop}
    {C : Recorder σ γ → ε → Prop}
    (hstep : ∀ r e, P r → C r e → P (next r e) ∧ Records revert inverse R r (next r e))
    {r : Recorder σ γ} {es : List ε} (hr : P r) (hC : EveryStep C r (trace next r es)) :
    P (es.foldl next r) ∧ Records revert inverse R r (es.foldl next r) := by
  induction es generalizing r with
  | nil => exact ⟨hr, refl r⟩
  | cons e es ih =>
    obtain ⟨hP, hrec⟩ := hstep r e hr hC.1
    obtain ⟨hP', hrec'⟩ := ih hP hC.2
    exact ⟨hP', hrec.trans hrec'⟩

end Records

/-- The group recorded from nothing is undone, and redone. -/
theorem Records.leads {s : σ} {r : Recorder σ γ} (h : Records revert inverse R ⟨s, []⟩ r) :
    Leads revert inverse R s r.commands r.state := by
  obtain ⟨commands, hc, h⟩ := h
  rwa [hc, List.nil_append]

end N8n.UndoGroups
