import Mathlib.Algebra.Order.BigOperators.Group.Finset

/-! # Gates

What threads wait for under a lock, with a condition variable, until another thread sets it
and notifies them. A waiter tests again whenever it is woken, which may be for no reason.
-/

namespace Corio

/-- What is waited for. It is set once, and that is told. -/
structure GateKind (σ : Type) where
  start : σ
  ready : σ → Bool
  set : σ → σ
  /-- The setter notifies behind this. -/
  notifies : σ → Bool
  closed : ready start = false
  opens : ready (set start) = true
  tells : notifies (set start) = true

/-- Where a waiter is in `lock; while (!ready) wait; unlock`. -/
inductive WaitPc where
  | locking
  | testing
  | asleep
  /-- Woken, and at the lock again. -/
  | woken
  | unlocking
  | through
  deriving DecidableEq, Repr

/-- Where the setter is in `lock; set; notify; unlock`. -/
inductive SetPc where
  | locking
  | setting
  | notifying
  | unlocking
  | through
  deriving DecidableEq, Repr

/-- The lock is free, the setter's (`some none`) or a waiter's. -/
structure Gate (ι σ : Type) where
  shared : σ
  owner : Option (Option ι)
  waiter : ι → WaitPc
  setter : SetPc

variable {ι σ : Type}

def WaitPc.Holds (pc : WaitPc) : Prop := pc = .testing ∨ pc = .unlocking

def SetPc.Holds (pc : SetPc) : Prop := pc = .setting ∨ pc = .notifying ∨ pc = .unlocking

/-- The setter has set what is waited for. -/
def SetPc.Done (pc : SetPc) : Prop := pc = .notifying ∨ pc = .unlocking ∨ pc = .through

/-- How many steps a waiter may take until it is through or sleeps. -/
def WaitPc.weight : WaitPc → Nat
  | .locking | .woken => 3
  | .testing => 2
  | .unlocking => 1
  | .asleep | .through => 0

/-- How many steps the setter may take, with those of the waiters that it wakes. -/
def SetPc.weight (waiters : Nat) : SetPc → Nat
  | .locking => 3 * waiters + 4
  | .setting => 3 * waiters + 3
  | .notifying => 3 * waiters + 2
  | .unlocking => 1
  | .through => 0

namespace GateKind

def init (kind : GateKind σ) : Gate ι σ := ⟨kind.start, none, fun _ => .locking, .locking⟩

/-- The setter takes a step. -/
def setStep (kind : GateKind σ) (g : Gate ι σ) : Option (Gate ι σ) :=
  match g.setter with
  | .locking =>
      if g.owner = none then some { g with owner := some none, setter := .setting } else none
  | .setting =>
      some { g with shared := kind.set g.shared
                    setter := if kind.notifies (kind.set g.shared) then .notifying else .unlocking }
  | .notifying =>
      some { g with waiter := fun i => if g.waiter i = .asleep then .woken else g.waiter i
                    setter := .unlocking }
  | .unlocking => some { g with owner := none, setter := .through }
  | .through => none

variable [DecidableEq ι]

/-- A waiter takes a step. -/
def waitStep (kind : GateKind σ) (g : Gate ι σ) (i : ι) : Option (Gate ι σ) :=
  match g.waiter i with
  | .locking | .woken =>
      if g.owner = none then
        some { g with owner := some (some i), waiter := Function.update g.waiter i .testing }
      else none
  | .testing =>
      if kind.ready g.shared then some { g with waiter := Function.update g.waiter i .unlocking }
      else some { g with owner := none, waiter := Function.update g.waiter i .asleep }
  | .unlocking => some { g with owner := none, waiter := Function.update g.waiter i .through }
  | .asleep | .through => none

end GateKind

namespace Gate

/-- What holds at all times. Nobody sleeps behind the notification. -/
structure Sound (kind : GateKind σ) (g : Gate ι σ) : Prop where
  waiters : ∀ i, (g.waiter i).Holds ↔ g.owner = some (some i)
  setter : g.setter.Holds ↔ g.owner = some none
  before : ¬ g.setter.Done → g.shared = kind.start
  behind : g.setter.Done → g.shared = kind.set kind.start
  told : g.setter = .unlocking ∨ g.setter = .through → ∀ i, g.waiter i ≠ .asleep
  passed : ∀ i, g.waiter i = .unlocking ∨ g.waiter i = .through → g.setter.Done

variable {kind : GateKind σ} {g g' : Gate ι σ} {i : ι}

theorem Sound.init : (kind.init : Gate ι σ).Sound kind where
  waiters i := by simp [GateKind.init, WaitPc.Holds]
  setter := by simp [GateKind.init, SetPc.Holds]
  before _ := rfl
  behind done := by simp [GateKind.init, SetPc.Done] at done
  told late := by simp [GateKind.init] at late
  passed i late := by simp [GateKind.init] at late

/-- The condition holds once the setter has set it, and before it does not. -/
theorem Sound.ready_iff (sound : g.Sound kind) : kind.ready g.shared = true ↔ g.setter.Done := by
  by_cases done : g.setter.Done
  · simp [sound.behind done, kind.opens, done]
  · simp [sound.before done, kind.closed, done]

/-- A waiter is through only when the condition holds. -/
theorem Sound.shared_eq (sound : g.Sound kind) (through : g.waiter i = .through) :
    g.shared = kind.set kind.start :=
  sound.behind (sound.passed i (.inr through))

/-- Nobody has the lock but the one that is where it is held. -/
theorem Sound.owned (sound : g.Sound kind) (holds : (g.waiter i).Holds) :
    g.owner = some (some i) ∧ ¬ g.setter.Holds := by
  have owner := (sound.waiters i).mp holds
  refine ⟨owner, fun setter => ?_⟩
  have other := sound.setter.mp setter
  rw [owner] at other
  cases other

theorem Sound.setStep (sound : g.Sound kind) (taken : kind.setStep g = some g') :
    g'.Sound kind := by
  have mine (holds : g.setter.Holds) (i : ι) : ¬ (g.waiter i).Holds := by
    rw [sound.waiters, sound.setter.mp holds]
    simp
  unfold GateKind.setStep at taken
  cases pc : g.setter with
  | locking =>
      simp only [pc, Option.ite_none_right_eq_some, Option.some.injEq] at taken
      obtain ⟨free, rfl⟩ := taken
      have early : ¬ g.setter.Done := by simp [SetPc.Done, pc]
      refine ⟨fun i => ?_, by simp [SetPc.Holds], fun _ => sound.before early, ?_, ?_, ?_⟩
      · simpa [free] using sound.waiters i
      · simp [SetPc.Done]
      · simp
      · exact fun i late => absurd (sound.passed i late) early
  | setting =>
      have early : ¬ g.setter.Done := by simp [SetPc.Done, pc]
      have start := sound.before early
      simp only [pc, start, kind.tells, if_true, Option.some.injEq] at taken
      obtain rfl := taken
      have holds : g.setter.Holds := .inl pc
      refine ⟨sound.waiters, ?_, by simp [SetPc.Done], fun _ => rfl, by simp, ?_⟩
      · simpa [SetPc.Holds] using sound.setter.mp holds
      · exact fun i late => absurd (sound.passed i late) early
  | notifying =>
      simp only [pc, Option.some.injEq] at taken
      obtain rfl := taken
      have holds : g.setter.Holds := .inr (.inl pc)
      have done : g.setter.Done := .inl pc
      refine ⟨fun i => ?_, ?_, by simp [SetPc.Done], fun _ => sound.behind done, ?_, ?_⟩
      · have apart := mine holds i
        rw [sound.setter.mp holds]
        by_cases asleep : g.waiter i = .asleep
        · simp [asleep, WaitPc.Holds]
        · simpa [asleep] using apart
      · simpa [SetPc.Holds] using sound.setter.mp holds
      · intro _ i
        by_cases asleep : g.waiter i = .asleep <;> simp [asleep]
      · intro _ _
        simp [SetPc.Done]
  | unlocking =>
      simp only [pc, Option.some.injEq] at taken
      obtain rfl := taken
      have holds : g.setter.Holds := .inr (.inr pc)
      have done : g.setter.Done := .inr (.inl pc)
      refine ⟨fun i => ?_, by simp [SetPc.Holds], by simp [SetPc.Done],
        fun _ => sound.behind done, fun _ => sound.told (.inl pc), ?_⟩
      · simpa using mine holds i
      · intro _ _
        simp [SetPc.Done]
  | through => simp [pc] at taken

variable [DecidableEq ι]

/-- A waiter is woken for no reason. -/
def wake (g : Gate ι σ) (i : ι) : Option (Gate ι σ) :=
  if g.waiter i = .asleep then some { g with waiter := Function.update g.waiter i .woken } else none

/-- A waiter that moves, and takes or leaves the lock. -/
theorem Sound.move (sound : g.Sound kind) {pc : WaitPc} {owner : Option (Option ι)}
    (mine : pc.Holds ↔ owner = some (some i))
    (others : ∀ who, who ≠ some i → (owner = some who ↔ g.owner = some who))
    (awake : g.setter = .unlocking ∨ g.setter = .through → pc ≠ .asleep)
    (passed : pc = .unlocking ∨ pc = .through → g.setter.Done) :
    Sound kind { g with owner := owner, waiter := Function.update g.waiter i pc } where
  waiters j := by
    by_cases same : j = i
    · subst same
      simpa using mine
    · rw [others (some j) (by simpa using same), ← sound.waiters]
      simp [Function.update_of_ne same]
  setter := by
    rw [others none (by simp)]
    exact sound.setter
  before := sound.before
  behind := sound.behind
  told late j := by
    by_cases same : j = i
    · subst same
      simpa using awake late
    · simpa [Function.update_of_ne same] using sound.told late j
  passed j late := by
    by_cases same : j = i
    · subst same
      exact passed (by simpa using late)
    · exact sound.passed j (by simpa [Function.update_of_ne same] using late)

theorem Sound.waitStep (sound : g.Sound kind) (taken : kind.waitStep g i = some g') :
    g'.Sound kind := by
  have freed (holds : (g.waiter i).Holds) (who : Option ι) (apart : who ≠ some i) :
      (none = some who ↔ g.owner = some who) := by
    rw [(sound.owned holds).1]
    simp [apart.symm]
  unfold GateKind.waitStep at taken
  cases pc : g.waiter i with
  | locking | woken =>
      simp only [pc, Option.ite_none_right_eq_some, Option.some.injEq] at taken
      obtain ⟨free, rfl⟩ := taken
      refine sound.move (by simp [WaitPc.Holds]) (fun who apart => ?_) (by simp) (by simp)
      simp [free, apart.symm]
  | testing =>
      have holds : (g.waiter i).Holds := .inl pc
      simp only [pc] at taken
      split at taken <;> obtain rfl := Option.some.inj taken
      case isTrue ready =>
          refine sound.move ?_ (fun _ _ => Iff.rfl) (by simp) fun _ => sound.ready_iff.mp ready
          simpa [WaitPc.Holds] using (sound.owned holds).1
      case isFalse closed =>
          refine sound.move (by simp [WaitPc.Holds]) (freed holds) (fun late => ?_) (by simp)
          refine absurd (sound.ready_iff.mpr ?_) closed
          exact .inr late
  | unlocking =>
      simp only [pc, Option.some.injEq] at taken
      obtain rfl := taken
      exact sound.move (by simp [WaitPc.Holds]) (freed (.inr pc)) (by simp)
        fun _ => sound.passed i (.inl pc)
  | asleep | through => simp [pc] at taken

theorem Sound.wake (sound : g.Sound kind) (taken : g.wake i = some g') : g'.Sound kind := by
  simp only [Gate.wake, Option.ite_none_right_eq_some, Option.some.injEq] at taken
  obtain ⟨asleep, rfl⟩ := taken
  refine sound.move ?_ (fun _ _ => Iff.rfl) (by simp) (by simp)
  rw [← sound.waiters, asleep]
  simp [WaitPc.Holds]


theorem waitStep_setter (taken : kind.waitStep g i = some g') : g'.setter = g.setter := by
  unfold GateKind.waitStep at taken
  split at taken
  case h_1 | h_2 | h_3 => split at taken <;> cases taken <;> rfl
  case h_4 => cases taken; rfl
  case h_5 | h_6 => cases taken

omit [DecidableEq ι] in
/-- The setter moves no waiter but those that sleep. -/
theorem setStep_waiter (taken : kind.setStep g = some g') :
    g'.waiter i = g.waiter i ∨ g.waiter i = .asleep ∧ g'.waiter i = .woken := by
  unfold GateKind.setStep at taken
  split at taken
  case h_1 =>
      split at taken <;> cases taken
      exact .inl rfl
  case h_3 =>
      cases taken
      by_cases asleep : g.waiter i = .asleep <;> simp [asleep]
  case h_2 | h_4 =>
      cases taken
      exact .inl rfl
  case h_5 => cases taken

theorem wake_setter (taken : g.wake i = some g') : g'.setter = g.setter := by
  simp only [wake, Option.ite_none_right_eq_some, Option.some.injEq] at taken
  obtain ⟨-, rfl⟩ := taken
  rfl

theorem wake_waiter {j : ι} (taken : g.wake i = some g') :
    g'.waiter j = g.waiter j ∨ g.waiter j = .asleep ∧ g'.waiter j = .woken := by
  simp only [wake, Option.ite_none_right_eq_some, Option.some.injEq] at taken
  obtain ⟨asleep, rfl⟩ := taken
  by_cases same : j = i
  · subst same
    exact .inr ⟨asleep, Function.update_self ..⟩
  · exact .inl (Function.update_of_ne same ..)

/-- Where nobody can go on, everybody is through. -/
theorem Sound.rests (sound : g.Sound kind) (waits : ∀ i, kind.waitStep g i = none)
    (sets : kind.setStep g = none) : g.setter = .through ∧ ∀ i, g.waiter i = .through := by
  have released : g.owner = none := by
    cases owner : g.owner with
    | none => rfl
    | some who =>
        cases who with
        | none =>
            rcases sound.setter.mpr owner with pc | pc | pc <;>
              simp [GateKind.setStep, pc] at sets
        | some i =>
            have stuck := waits i
            rcases (sound.waiters i).mpr owner with pc | pc
            · simp only [GateKind.waitStep, pc] at stuck
              split at stuck <;> cases stuck
            · simp [GateKind.waitStep, pc] at stuck
  have setter : g.setter = .through := by
    cases pc : g.setter <;> simp [GateKind.setStep, pc, released] at sets
    rfl
  refine ⟨setter, fun i => ?_⟩
  have stuck := waits i
  cases pc : g.waiter i with
  | locking | woken => simp [GateKind.waitStep, pc, released] at stuck
  | testing =>
      simp only [GateKind.waitStep, pc] at stuck
      split at stuck <;> cases stuck
  | unlocking => simp [GateKind.waitStep, pc] at stuck
  | asleep => exact absurd pc (sound.told (.inr setter) i)
  | through => rfl

omit [DecidableEq ι] in
/-- The setter can go on where no waiter has the lock. -/
theorem Sound.sets (sound : g.Sound kind) (quiet : ∀ i, ¬ (g.waiter i).Holds)
    (sets : kind.setStep g = none) : g.setter = .through := by
  have released (locking : g.setter = .locking) : g.owner = none := by
    rcases owner : g.owner with _ | _ | i
    · rfl
    · have holds := sound.setter.mpr owner
      simp [SetPc.Holds, locking] at holds
    · exact absurd ((sound.waiters i).mpr owner) (quiet i)
  cases pc : g.setter with
  | locking => simp [GateKind.setStep, pc, released pc] at sets
  | setting | notifying | unlocking => simp [GateKind.setStep, pc] at sets
  | through => rfl

/-! ## How long it takes -/

variable [Fintype ι]

/-- How many steps are left in all, but for waiters that are woken for no reason. -/
def weight (g : Gate ι σ) : Nat :=
  ∑ i, (g.waiter i).weight + g.setter.weight (Fintype.card ι)

theorem weight_move (g : Gate ι σ) (i : ι) (pc : WaitPc)
    (owner : Option (Option ι)) :
    ({ g with owner := owner, waiter := Function.update g.waiter i pc } : Gate ι σ).weight +
      (g.waiter i).weight = g.weight + pc.weight := by
  have others : ∀ j ∈ Finset.univ.erase i,
      (Function.update g.waiter i pc j).weight = (g.waiter j).weight := by
    intro j there
    rw [Function.update_of_ne (Finset.ne_of_mem_erase there)]
  have new := Finset.add_sum_erase Finset.univ (fun j => (Function.update g.waiter i pc j).weight)
    (Finset.mem_univ i)
  have old := Finset.add_sum_erase Finset.univ (fun j => (g.waiter j).weight) (Finset.mem_univ i)
  rw [Finset.sum_congr rfl others, Function.update_self] at new
  simp only [weight]
  omega

theorem weight_waitStep (taken : kind.waitStep g i = some g') :
    g'.weight < g.weight := by
  unfold GateKind.waitStep at taken
  cases pc : g.waiter i with
  | locking | woken =>
      simp only [pc, Option.ite_none_right_eq_some, Option.some.injEq] at taken
      obtain ⟨-, rfl⟩ := taken
      have moved := g.weight_move i .testing (some (some i))
      simp only [pc, WaitPc.weight] at moved
      omega
  | testing =>
      simp only [pc] at taken
      split at taken <;> obtain rfl := Option.some.inj taken
      · have moved := g.weight_move i .unlocking g.owner
        simp only [pc, WaitPc.weight] at moved
        omega
      · have moved := g.weight_move i .asleep none
        simp only [pc, WaitPc.weight] at moved
        omega
  | unlocking =>
      simp only [pc, Option.some.injEq] at taken
      obtain rfl := taken
      have moved := g.weight_move i .through none
      simp only [pc, WaitPc.weight] at moved
      omega
  | asleep | through => simp [pc] at taken

omit [DecidableEq ι] in
theorem weight_setStep (taken : kind.setStep g = some g') : g'.weight < g.weight := by
  unfold GateKind.setStep at taken
  cases pc : g.setter with
  | locking =>
      simp only [pc, Option.ite_none_right_eq_some, Option.some.injEq] at taken
      obtain ⟨-, rfl⟩ := taken
      simp [weight, pc, SetPc.weight]
  | setting =>
      simp only [pc, Option.some.injEq] at taken
      obtain rfl := taken
      simp only [weight, pc]
      split <;> simp only [SetPc.weight] <;> omega
  | notifying =>
      simp only [pc, Option.some.injEq] at taken
      obtain rfl := taken
      have woken : ∑ i, (if g.waiter i = .asleep then WaitPc.woken else g.waiter i).weight ≤
          ∑ i, ((g.waiter i).weight + 3) := by
        refine Finset.sum_le_sum fun i _ => ?_
        split
        · exact Nat.le_add_left _ _
        · exact Nat.le_add_right _ _
      rw [Finset.sum_add_distrib, Finset.sum_const_nat fun _ _ => rfl, Finset.card_univ] at woken
      simp only [weight, pc, SetPc.weight]
      omega
  | unlocking =>
      simp only [pc, Option.some.injEq] at taken
      obtain rfl := taken
      simp [weight, pc, SetPc.weight]
  | through => simp [pc] at taken

theorem weight_wake (taken : g.wake i = some g') : g'.weight ≤ g.weight + 3 := by
  simp only [wake, Option.ite_none_right_eq_some, Option.some.injEq] at taken
  obtain ⟨asleep, rfl⟩ := taken
  have moved := g.weight_move i .woken g.owner
  simp only [asleep, WaitPc.weight] at moved
  omega

end Gate

end Corio
