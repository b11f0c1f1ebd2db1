import Mathlib.Algebra.Ring.Nat
import Mathlib.Data.List.Infix

/-! # Machines given by a partial step function

An action carries every choice the environment makes, so a run is a list of
actions. Invariants are proved for one step and used for whole runs. A guarded
run also assumes a condition on every step, stated about the state before it.
-/

namespace Corio

/-- A machine whose actions may be disabled (`none`) in a state. -/
structure Machine (σ α : Type) where
  init : σ
  step : σ → α → Option σ

namespace Machine

variable {σ α : Type} (M : Machine σ α)

/-- Execute a list of actions, failing at the first disabled one. -/
def run : σ → List α → Option σ
  | s, [] => some s
  | s, a :: rest => (M.step s a).bind fun next => run next rest

/-- Some run from the initial state ends in this state. -/
def Reachable (s : σ) : Prop := ∃ acts, M.run M.init acts = some s

@[simp] theorem run_nil (s : σ) : M.run s [] = some s := rfl

theorem run_cons (s : σ) (a : α) (rest : List α) :
    M.run s (a :: rest) = (M.step s a).bind fun next => M.run next rest := rfl

/-- The form in which `simp` executes a run, since it leaves the rest of the run alone until
    the next state is known. -/
theorem run_cons_match (s : σ) (a : α) (rest : List α) :
    M.run s (a :: rest) =
      match M.step s a with
      | some next => M.run next rest
      | none => none := by
  rw [run_cons]
  cases M.step s a <;> rfl

theorem run_cons_some {s s' : σ} {a : α} {rest : List α} :
    M.run s (a :: rest) = some s' ↔ ∃ next, M.step s a = some next ∧ M.run next rest = some s' := by
  simp only [run_cons, Option.bind_eq_some_iff]

theorem run_append (s : σ) (first second : List α) :
    M.run s (first ++ second) = (M.run s first).bind fun mid => M.run mid second := by
  induction first generalizing s with
  | nil => rfl
  | cons a rest ih =>
      simp only [List.cons_append, run_cons]
      cases M.step s a with
      | none => rfl
      | some next => exact ih next

theorem run_append_some {s s' : σ} {first second : List α} :
    M.run s (first ++ second) = some s' ↔
      ∃ mid, M.run s first = some mid ∧ M.run mid second = some s' := by
  simp only [run_append, Option.bind_eq_some_iff]

variable {M}

/-- A property kept by every step is kept by every run. -/
theorem run_preserves {I : σ → Prop}
    (step : ∀ s a s', I s → M.step s a = some s' → I s')
    {s s' : σ} {acts : List α} (start : I s) (ran : M.run s acts = some s') : I s' := by
  induction acts generalizing s with
  | nil =>
      obtain rfl := Option.some.inj ran
      exact start
  | cons a rest ih =>
      obtain ⟨next, first, later⟩ := M.run_cons_some.mp ran
      exact ih (step s a next start first) later

/-- The invariant rule: initially true and kept by every step, so true in every
    reachable state. -/
theorem Reachable.induct {I : σ → Prop} (init : I M.init)
    (step : ∀ s a s', I s → M.step s a = some s' → I s')
    {s : σ} (reached : M.Reachable s) : I s := by
  obtain ⟨acts, ran⟩ := reached
  exact run_preserves step init ran

theorem Reachable.init : M.Reachable M.init := ⟨[], rfl⟩

theorem Reachable.step {s s' : σ} {a : α} (reached : M.Reachable s)
    (taken : M.step s a = some s') : M.Reachable s' := by
  obtain ⟨acts, ran⟩ := reached
  refine ⟨acts ++ [a], M.run_append_some.mpr ⟨s, ran, ?_⟩⟩
  simp only [run_cons, taken, Option.bind_some, run_nil]

theorem Reachable.run {s s' : σ} {acts : List α} (reached : M.Reachable s)
    (ran : M.run s acts = some s') : M.Reachable s' := by
  obtain ⟨before, ranBefore⟩ := reached
  exact ⟨before ++ acts, M.run_append_some.mpr ⟨s, ranBefore, ran⟩⟩

variable (M) in
/-- Every step of the run satisfies the condition, read in the state before it. -/
def Guarded (C : σ → α → Prop) : σ → List α → Prop
  | _, [] => True
  | s, a :: rest => C s a ∧ ∀ next, M.step s a = some next → Guarded C next rest

instance Guarded.decidable (C : σ → α → Prop) [∀ s a, Decidable (C s a)] :
    ∀ s acts, Decidable (M.Guarded C s acts)
  | _, [] => .isTrue trivial
  | s, a :: rest =>
      match taken : M.step s a with
      | none => decidable_of_iff (C s a) (by simp [Guarded, taken])
      | some next =>
          haveI := Guarded.decidable C next rest
          decidable_of_iff (C s a ∧ M.Guarded C next rest) (by simp [Guarded, taken])

theorem Guarded.and {C D : σ → α → Prop} {s : σ} {acts : List α} (first : M.Guarded C s acts)
    (second : M.Guarded D s acts) : M.Guarded (fun s a => C s a ∧ D s a) s acts := by
  induction acts generalizing s with
  | nil => trivial
  | cons a rest ih =>
      exact ⟨⟨first.1, second.1⟩, fun next taken => ih (first.2 next taken) (second.2 next taken)⟩

theorem Guarded.append {C : σ → α → Prop} {s mid : σ} {first second : List α}
    (before : M.Guarded C s first) (ran : M.run s first = some mid)
    (after : M.Guarded C mid second) : M.Guarded C s (first ++ second) := by
  induction first generalizing s with
  | nil =>
      obtain rfl := Option.some.inj ran
      exact after
  | cons a rest ih =>
      obtain ⟨next, taken, later⟩ := M.run_cons_some.mp ran
      refine ⟨before.1, fun other again => ?_⟩
      obtain rfl := Option.some.inj (taken.symm.trans again)
      exact ih (before.2 next taken) later

/-- The condition in the middle of a run. -/
theorem Guarded.at {C : σ → α → Prop} {s mid : σ} {first rest : List α} {a : α}
    (guarded : M.Guarded C s (first ++ a :: rest)) (ran : M.run s first = some mid) : C mid a := by
  induction first generalizing s with
  | nil =>
      obtain rfl := Option.some.inj ran
      exact guarded.1
  | cons b first ih =>
      obtain ⟨next, taken, later⟩ := M.run_cons_some.mp ran
      exact ih (guarded.2 next taken) later

/-- A condition on the actions alone. -/
theorem Guarded.of_actions {C : α → Prop} {acts : List α} (all : ∀ a ∈ acts, C a) (s : σ) :
    M.Guarded (fun _ a => C a) s acts := by
  induction acts generalizing s with
  | nil => trivial
  | cons a rest ih =>
      obtain ⟨here, later⟩ := List.forall_mem_cons.mp all
      exact ⟨here, fun next _ => ih later next⟩

/-- The invariant rule for runs whose steps all satisfy a condition. -/
theorem Guarded.preserves {C : σ → α → Prop} {I : σ → Prop}
    (step : ∀ s a s', I s → C s a → M.step s a = some s' → I s')
    {s s' : σ} {acts : List α} (start : I s) (guarded : M.Guarded C s acts)
    (ran : M.run s acts = some s') : I s' := by
  induction acts generalizing s with
  | nil =>
      obtain rfl := Option.some.inj ran
      exact start
  | cons a rest ih =>
      obtain ⟨next, first, later⟩ := M.run_cons_some.mp ran
      exact ih (step s a next start guarded.1 first) (guarded.2 next first) later

/-- Where a step that misses the condition leaves a mark that stays, a run keeps the
    condition or ends with the mark. -/
theorem guarded_or {C : σ → α → Prop} {I P : σ → Prop}
    (step : ∀ s a s', I s → M.step s a = some s' → I s')
    (stays : ∀ s a s', I s ∧ P s → M.step s a = some s' → I s' ∧ P s')
    (missed : ∀ s a s', I s → ¬ C s a → M.step s a = some s' → P s')
    {s s' : σ} {acts : List α} (start : I s) (ran : M.run s acts = some s') :
    M.Guarded C s acts ∨ P s' := by
  induction acts generalizing s with
  | nil => exact .inl trivial
  | cons a rest ih =>
      obtain ⟨next, taken, later⟩ := M.run_cons_some.mp ran
      have nextStart := step s a next start taken
      by_cases met : C s a
      · refine (ih nextStart later).imp_left fun guarded => ⟨met, fun other again => ?_⟩
        rw [taken] at again
        exact Option.some.inj again ▸ guarded
      · exact .inr (run_preserves stays ⟨nextStart, missed s a next start met taken⟩ later).2

variable (M) in
/-- The states a run passes through, the first one included. A disabled action
    ends the list. -/
def visited : σ → List α → List σ
  | s, [] => [s]
  | s, a :: rest =>
      match M.step s a with
      | none => [s]
      | some next => s :: visited next rest

variable (M) in
theorem mem_visited_start (s : σ) (acts : List α) : s ∈ M.visited s acts := by
  cases acts with
  | nil => simp [visited]
  | cons a rest =>
      simp only [visited]
      split <;> simp

/-- The invariant rule for the states that a run passes through. -/
theorem Guarded.visits {C : σ → α → Prop} {I : σ → Prop}
    (step : ∀ s a s', I s → C s a → M.step s a = some s' → I s')
    {s : σ} {acts : List α} (start : I s) (guarded : M.Guarded C s acts) :
    ∀ v ∈ M.visited s acts, I v := by
  induction acts generalizing s with
  | nil =>
      intro v member
      obtain rfl := List.mem_singleton.mp member
      exact start
  | cons a rest ih =>
      intro v member
      simp only [visited] at member
      cases taken : M.step s a with
      | none =>
          rw [taken] at member
          obtain rfl := List.mem_singleton.mp member
          exact start
      | some next =>
          rw [taken] at member
          rcases List.mem_cons.mp member with rfl | later
          · exact start
          · exact ih (step s a next start guarded.1 taken) (guarded.2 next taken) v later

/-- A mark that stays up to the next checkpoint is seen there. -/
theorem mark_visited {K I P : σ → Prop}
    (step : ∀ s a s', I s → M.step s a = some s' → I s')
    (stays : ∀ s a s', I s → ¬ K s → P s → M.step s a = some s' → P s')
    {s s' : σ} {acts : List α} (start : I s) (mark : P s) (ran : M.run s acts = some s')
    (checked : K s') : ∃ v ∈ M.visited s acts, K v ∧ I v ∧ P v := by
  induction acts generalizing s with
  | nil =>
      obtain rfl := Option.some.inj ran
      exact ⟨s, M.mem_visited_start s [], checked, start, mark⟩
  | cons a rest ih =>
      by_cases here : K s
      · exact ⟨s, M.mem_visited_start s _, here, start, mark⟩
      · obtain ⟨next, taken, later⟩ := M.run_cons_some.mp ran
        obtain ⟨v, member, found⟩ := ih (step s a next start taken)
          (stays s a next start here mark taken) later
        refine ⟨v, ?_, found⟩
        simp only [visited, taken]
        exact List.mem_cons_of_mem _ member

/-- A run that ends at a checkpoint and shows no mark at any checkpoint keeps the condition,
    if every step that misses it leaves a mark up to the next checkpoint. -/
theorem guarded_of_checked {C : σ → α → Prop} {K I P : σ → Prop}
    (step : ∀ s a s', I s → M.step s a = some s' → I s')
    (stays : ∀ s a s', I s → ¬ K s → P s → M.step s a = some s' → P s')
    (missed : ∀ s a s', I s → ¬ C s a → M.step s a = some s' → P s')
    {s s' : σ} {acts : List α} (start : I s) (ran : M.run s acts = some s') (checked : K s')
    (clean : ∀ v ∈ M.visited s acts, K v → I v → ¬ P v) : M.Guarded C s acts := by
  induction acts generalizing s with
  | nil => trivial
  | cons a rest ih =>
      obtain ⟨next, taken, later⟩ := M.run_cons_some.mp ran
      have nextStart := step s a next start taken
      simp only [visited, taken, List.mem_cons, forall_eq_or_imp] at clean
      by_cases met : C s a
      · refine ⟨met, fun other again => ?_⟩
        obtain rfl := Option.some.inj (taken.symm.trans again)
        exact ih nextStart later clean.2
      · obtain ⟨v, member, here, kept, mark⟩ :=
          mark_visited step stays nextStart (missed s a next start met taken) later checked
        exact absurd mark (clean.2 v member here kept)

/-- A run that never shows a mark keeps the condition, if every step that misses it leaves
    the mark. -/
theorem guarded_of_shown {C : σ → α → Prop} {I P : σ → Prop}
    (step : ∀ s a s', I s → M.step s a = some s' → I s')
    (missed : ∀ s a s', I s → ¬ C s a → M.step s a = some s' → P s')
    {s s' : σ} {acts : List α} (start : I s) (ran : M.run s acts = some s')
    (clean : ∀ v ∈ M.visited s acts, ¬ P v) : M.Guarded C s acts := by
  induction acts generalizing s with
  | nil => trivial
  | cons a rest ih =>
      obtain ⟨next, taken, later⟩ := M.run_cons_some.mp ran
      have nextStart := step s a next start taken
      simp only [visited, taken, List.mem_cons, forall_eq_or_imp] at clean
      refine ⟨?_, fun other again => ?_⟩
      · by_contra missed_
        exact clean.2 next (M.mem_visited_start next rest) (missed s a next start missed_ taken)
      · obtain rfl := Option.some.inj (taken.symm.trans again)
        exact ih nextStart later clean.2

end Machine

end Corio
