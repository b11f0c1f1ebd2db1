import Mathlib.Logic.Function.Basic
import Mathlib.Order.Lattice

/-! # Alarms

What timers are for. Each key has at most one alarm, which is set to a time, set again or
cleared, and which rings once that time has come. From time to time nothing is left to ring.
-/

namespace Corio

variable {κ τ : Type}

inductive AlarmEvent (κ τ : Type) where
  | set (k : κ) (time : τ)
  | clear (k : κ)
  | ring (k : κ) (now : τ)
  | quiet (now : τ)
  deriving DecidableEq, Repr

/-- The event sets, clears or rings the alarm of this key. -/
def AlarmEvent.About (k : κ) : AlarmEvent κ τ → Prop
  | .set j _ | .clear j | .ring j _ => j = k
  | .quiet _ => False

/-- The time that the alarm of each key is set to. -/
abbrev Alarms (κ τ : Type) := κ → Option τ

namespace Alarms

variable [DecidableEq κ] [LinearOrder τ]

/-- An alarm rings if its time has come, and nothing is left to ring if no time has. -/
inductive Step : Alarms κ τ → AlarmEvent κ τ → Alarms κ τ → Prop where
  | set {a : Alarms κ τ} (k : κ) (time : τ) : Step a (.set k time) (Function.update a k (some time))
  | clear {a : Alarms κ τ} (k : κ) : Step a (.clear k) (Function.update a k none)
  | ring {a : Alarms κ τ} {k : κ} {time now : τ} (on : a k = some time) (due : time ≤ now) :
      Step a (.ring k now) (Function.update a k none)
  | quiet {a : Alarms κ τ} {now : τ} (later : ∀ k time, a k = some time → now < time) :
      Step a (.quiet now) a

inductive Run : Alarms κ τ → List (AlarmEvent κ τ) → Alarms κ τ → Prop where
  | nil (a : Alarms κ τ) : Run a [] a
  | cons {a b c : Alarms κ τ} {event : AlarmEvent κ τ} {rest : List (AlarmEvent κ τ)}
      (step : Step a event b) (run : Run b rest c) : Run a (event :: rest) c

variable {a b c : Alarms κ τ} {first second : List (AlarmEvent κ τ)} {k : κ} {time now : τ}

theorem Step.run {event : AlarmEvent κ τ} (step : Step a event b) : Run a [event] b :=
  .cons step (.nil b)

theorem Run.append (one : Run a first b) (two : Run b second c) : Run a (first ++ second) c := by
  induction one with
  | nil => exact two
  | cons step _ ih => exact .cons step (ih two)

theorem run_append (whole : Run a (first ++ second) c) : ∃ b, Run a first b ∧ Run b second c := by
  induction first generalizing a with
  | nil => exact ⟨a, .nil a, whole⟩
  | cons event rest ih =>
      cases whole with
      | cons step later =>
          obtain ⟨b, before, after⟩ := ih later
          exact ⟨b, .cons step before, after⟩

/-- The alarms of other keys stay as they are. -/
theorem Step.other {event : AlarmEvent κ τ} (step : Step a event b) (apart : ¬ event.About k) :
    b k = a k := by
  cases step with
  | set | clear | ring => exact Function.update_of_ne (Ne.symm apart) _ _
  | quiet => rfl

/-- Only `set` leaves an alarm that is on. -/
theorem Step.on {event : AlarmEvent κ τ} (step : Step a event b) (on : b k = some time)
    (about : event.About k) : event = .set k time := by
  cases step with
  | set =>
      obtain rfl := about
      rw [Function.update_self] at on
      rw [Option.some.inj on]
  | clear | ring =>
      obtain rfl := about
      rw [Function.update_self] at on
      cases on
  | quiet => cases about

/-- An alarm that is on was on before, or was set and then left alone. -/
theorem Run.on {events : List (AlarmEvent κ τ)} (run : Run a events b) (on : b k = some time) :
    (a k = some time ∧ ∀ event ∈ events, ¬ event.About k) ∨
      ∃ before after, events = before ++ .set k time :: after ∧
        ∀ event ∈ after, ¬ event.About k := by
  induction run with
  | nil => exact .inl ⟨on, nofun⟩
  | @cons _ _ _ event rest step _ ih =>
      rcases ih on with ⟨still, alone⟩ | ⟨before, after, rfl, alone⟩
      · by_cases about : event.About k
        · obtain rfl := step.on still about
          exact .inr ⟨[], rest, rfl, alone⟩
        · exact .inl ⟨(step.other about).symm.trans still, List.forall_mem_cons.mpr ⟨about, alone⟩⟩
      · exact .inr ⟨event :: before, after, rfl, alone⟩

/-- An alarm that was set and then left alone is on. -/
theorem Run.left (run : Run a (.set k time :: second) b)
    (alone : ∀ event ∈ second, ¬ event.About k) : b k = some time := by
  cases run with
  | cons step later =>
      cases step
      have start : Function.update a k (some time) k = some time := Function.update_self _ _ _
      generalize Function.update a k (some time) = mid at later start
      induction later with
      | nil => exact start
      | cons step _ ih =>
          obtain ⟨apart, alone⟩ := List.forall_mem_cons.mp alone
          exact ih alone ((step.other apart).trans start)

/-- No alarm rings early: it was set to a time that has come, and left alone since. -/
theorem Run.rings (run : Run (fun _ => none) (first ++ .ring k now :: second) b) :
    ∃ before after time, first = before ++ .set k time :: after ∧
      (∀ event ∈ after, ¬ event.About k) ∧ time ≤ now := by
  obtain ⟨mid, before, rest⟩ := run_append run
  cases rest with
  | cons step _ =>
      cases step with
      | ring on due =>
          obtain ⟨never, -⟩ | ⟨earlier, after, same, alone⟩ := before.on on
          · cases never
          · exact ⟨earlier, after, _, same, alone, due⟩

/-- No alarm is late: when nothing is left to ring, the time of each that is on is to come. -/
theorem Run.quiets {earlier after : List (AlarmEvent κ τ)}
    (run : Run a (earlier ++ .set k time :: after ++ .quiet now :: second) b)
    (alone : ∀ event ∈ after, ¬ event.About k) : now < time := by
  obtain ⟨mid, before, rest⟩ := run_append run
  obtain ⟨start, -, behind⟩ := run_append before
  cases rest with
  | cons step _ =>
      cases step with
      | quiet later => exact later k time (behind.left alone)

end Alarms

end Corio
