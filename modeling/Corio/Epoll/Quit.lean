import Corio.Epoll.EventLoop

/-! # Quitting a loop

`loop` clears `quit_` when it is entered, and the pointer to the loop is published before
that. A `quit` that comes in between is forgotten.
-/

namespace Corio.Epoll

variable {ι φ : Type}

namespace EventLoop

/-- The owner has executed `quit_ = true`. -/
def QuitSet (s : EventLoop ι φ) : Prop :=
  s.owner = .waking ∨ s.owner = .joining ∨ s.owner = .joined

instance (s : EventLoop ι φ) : Decidable s.QuitSet := by
  unfold QuitSet
  infer_instance

/-- The thread is behind the publication of the loop. -/
def Published (s : EventLoop ι φ) : Prop :=
  s.thread ≠ .unborn ∧ s.thread ≠ .constructing ∧ s.thread ≠ .publishing

/-- The thread has executed `quit_ = false` in `loop`. -/
def Entered (s : EventLoop ι φ) : Prop :=
  s.Published ∧ s.thread ≠ .entering ∧ s.thread ≠ .resetting

instance (s : EventLoop ι φ) : Decidable s.Entered := by
  unfold Entered Published
  infer_instance

/-- The condition on a step: `quit` sets the flag only after `loop` has cleared it. -/
def QuitsEntered (s : EventLoop ι φ) : LoopStep ι φ → Prop
  | .owner => s.owner = .quitting → s.Entered
  | _ => True

instance (s : EventLoop ι φ) (action : LoopStep ι φ) : Decidable (s.QuitsEntered action) := by
  unfold QuitsEntered
  split <;> infer_instance

/-- Steps that need neither other descriptors nor other threads. -/
def Unaided : LoopStep ι φ → Prop
  | .thread | .poll true false | .owner => True
  | _ => False

/-- What is promised once the flag is set. -/
structure QuitKept [DecidableEq ι] (s : EventLoop ι φ) : Prop where
  stays : ∀ steps later, (eventLoop ι φ).run s steps = some later → later.quit = true
  leaves : ∀ steps later next, (eventLoop ι φ).run s steps = some later →
    later.thread = .testing → (eventLoop ι φ).step later .thread = some next →
    next.thread = .leaving
  joins : ∀ steps later, (eventLoop ι φ).run s steps = some later →
    ∃ more final, (∀ action ∈ more, Unaided action) ∧
      (eventLoop ι φ).run later more = some final ∧ final.owner = .joined

/-- The owner knows of the loop only what was published. -/
structure Base (s : EventLoop ι φ) : Prop where
  wakeful : s.Wakeful
  published : s.published = true → s.Published
  owner : s.owner ≠ .creating → s.owner ≠ .waiting → s.Published

/-- All a step can do to the flags that is not the owner's. -/
structure OtherStep (s s' : EventLoop ι φ) : Prop where
  owner : s'.owner = s.owner
  quit : s'.quit = s.quit ∨ s'.quit = false ∧ ¬ s.Entered
  published : s'.published = true → s.published = true ∨ s'.Published
  keeps : s.Published → s'.Published
  enters : s.Entered → s'.Entered
  cleared : s'.Entered → ¬ s.Entered → s'.quit = false
  blocks : s'.thread = .polling →
    s.thread = .testing ∧ s.quit = false ∨ s.thread = .polling ∧ (s.Readable → s'.Readable)

variable {s s' : EventLoop ι φ}

theorem threadStep_spec (wakeful : s.Wakeful) (taken : s.threadStep = some s') :
    OtherStep s s' := by
  unfold threadStep at taken
  split at taken
  case isTrue on =>
      obtain rfl := Option.some.inj taken
      have pc := wakeful.requested on
      have same : s.wakeupIfCalling.thread = s.thread ∧ s.wakeupIfCalling.owner = s.owner ∧
          s.wakeupIfCalling.quit = s.quit ∧ s.wakeupIfCalling.published = s.published := by
        unfold wakeupIfCalling
        simp only
        split <;> exact ⟨rfl, rfl, rfl, rfl⟩
      obtain ⟨thread, owner, quit, published⟩ := same
      refine ⟨owner, .inl quit, fun on => .inl (published ▸ on), ?_, ?_, ?_, ?_⟩
      · simp only [Published, thread, imp_self]
      · simp only [Entered, Published, thread, imp_self]
      · simp only [Entered, Published, thread]
        exact fun entered absent => absurd entered absent
      · intro polling
        rw [thread] at polling
        simp [polling] at pc
  case isFalse idle =>
      cases pc : s.thread with
      | unborn | polling | finished => simp [pc] at taken
      | constructing | publishing | entering | resetting | handling wake | starting | swapping
      | expiring | leaving | clearing =>
          first
            | cases wake <;> simp only [pc, Option.some.injEq] at taken
            | simp only [pc, Option.some.injEq] at taken
          all_goals
            subst taken
            constructor <;> simp [Entered, Published, EventLoop.goto, handleRead, pc]
      | testing =>
          simp only [pc, Option.some.injEq] at taken
          subst taken
          cases quit : s.quit <;> constructor <;>
            simp [Entered, Published, EventLoop.goto, pc, quit]
      | running =>
          simp only [pc] at taken
          split at taken <;> obtain rfl := Option.some.inj taken <;> constructor <;>
            simp [Entered, Published, EventLoop.goto, pc]

/-- All a step of the owner can do. -/
structure OwnerStep (s s' : EventLoop ι φ) : Prop where
  born : s'.owner ≠ .creating
  first : s.owner = .creating → s'.owner = .waiting
  thread : s.owner ≠ .creating → s'.thread = s.thread
  published : s'.published = s.published
  waits : s.owner = .waiting → s.published = true
  set : s'.QuitSet ↔ s.QuitSet ∨ s.owner = .quitting
  quit : s'.quit = (s.quit || decide (s.owner = .quitting))
  readable : s'.owner = .joining → s'.Readable

theorem ownerStep_spec (taken : s.ownerStep = some s') : OwnerStep s s' := by
  unfold EventLoop.ownerStep at taken
  cases owner : s.owner with
  | creating | started | quitting | waking =>
      simp only [owner, Option.some.injEq] at taken
      subst taken
      constructor <;> simp [QuitSet, owner, EventLoop.goto, EventLoop.wakeup, Readable]
  | waiting | joining =>
      simp only [owner, Option.ite_none_right_eq_some, Option.some.injEq] at taken
      obtain ⟨there, rfl⟩ := taken
      constructor <;> simp [QuitSet, owner, there]
  | closing =>
      simp only [owner, Option.some.injEq] at taken
      subst taken
      constructor <;> cases s.published <;> simp [QuitSet, owner]
  | joined | detached => simp [owner] at taken

theorem Base.other (base : s.Base) (taken : OtherStep s s') (wakeful : s'.Wakeful) : s'.Base where
  wakeful := wakeful
  published := fun on =>
    (taken.published on).elim (fun before => taken.keeps (base.published before)) id
  owner := by
    rw [taken.owner]
    exact fun created waited => taken.keeps (base.owner created waited)

theorem Base.ownerStep (base : s.Base) (taken : OwnerStep s s') (wakeful : s'.Wakeful) :
    s'.Base := by
  by_cases created : s.owner = .creating
  · have unborn := base.wakeful.unborn created
    refine ⟨wakeful, fun on => ?_, fun _ waited => absurd (taken.first created) waited⟩
    exact absurd unborn (base.published (taken.published ▸ on)).1
  · have thread := taken.thread created
    refine ⟨wakeful, fun on => ?_, fun _ _ => ?_⟩
    · simpa only [Published, thread] using base.published (taken.published ▸ on)
    · simp only [Published, thread]
      by_cases waiting : s.owner = .waiting
      · exact base.published (taken.waits waiting)
      · exact base.owner created waiting

/-- The flag is up and the loop's thread will not clear it, nor block before it reads it. -/
structure Settled (s : EventLoop ι φ) : Prop where
  entered : s.Entered
  quit : s.quit = true
  woken : s.owner = .joining → s.thread = .polling → s.Readable

/-- The flag was set before the loop's thread cleared it. -/
def Forgotten (s : EventLoop ι φ) : Prop := s.QuitSet ∧ (s.Entered → s.quit = false)

theorem OtherStep.settled (taken : OtherStep s s') (settled : s.Settled) : s'.Settled where
  entered := taken.enters settled.entered
  quit := taken.quit.elim (·.trans settled.quit) fun cleared => absurd settled.entered cleared.2
  woken := by
    intro joining polling
    rcases taken.blocks polling with ⟨-, down⟩ | ⟨before, keeps⟩
    · rw [settled.quit] at down
      cases down
    · exact keeps (settled.woken (taken.owner ▸ joining) before)

theorem OwnerStep.settled (taken : OwnerStep s s') (born : s.owner ≠ .creating)
    (entered : s.Entered) (set : s.quit = true ∨ s.owner = .quitting) : s'.Settled where
  entered := by simpa only [Entered, Published, taken.thread born] using entered
  quit := by
    rw [taken.quit]
    rcases set with up | quitting
    · simp [up]
    · simp [quitting]
  woken := fun joining _ => taken.readable joining

theorem QuitSet.born (set : s.QuitSet) : s.owner ≠ .creating := by
  rintro creating
  simp [QuitSet, creating] at set

theorem QuitSet.behind (set : s.QuitSet) : s.owner ≠ .quitting := by
  rintro quitting
  simp [QuitSet, quitting] at set

theorem OtherStep.forgotten (taken : OtherStep s s') (forgotten : s.Forgotten) :
    s'.Forgotten := by
  refine ⟨by simpa only [QuitSet, taken.owner] using forgotten.1, fun entered => ?_⟩
  by_cases before : s.Entered
  · exact taken.quit.elim (·.trans (forgotten.2 before)) And.left
  · exact taken.cleared entered before

theorem OwnerStep.forgotten (taken : OwnerStep s s') (forgotten : s.Forgotten) :
    s'.Forgotten := by
  obtain ⟨set, down⟩ := forgotten
  refine ⟨taken.set.mpr (.inl set), fun entered => ?_⟩
  have before : s.Entered := by
    simpa only [Entered, Published, taken.thread set.born] using entered
  simp [taken.quit, down before, set.behind]

/-- A flag that is set too early is forgotten. -/
theorem OwnerStep.early (taken : OwnerStep s s') (early : ¬ s.QuitsEntered .owner) :
    s'.Forgotten := by
  obtain ⟨quitting, absent⟩ := Classical.not_imp.mp early
  have born : s.owner ≠ .creating := by simp [quitting]
  refine ⟨taken.set.mpr (.inr quitting), fun entered => absurd ?_ absent⟩
  simpa only [Entered, Published, taken.thread born] using entered

end EventLoop

open EventLoop

variable [DecidableEq ι] {s s' : EventLoop ι φ}

theorem otherStep_spec (wakeful : s.Wakeful) {action : LoopStep ι φ} (other : action ≠ .owner)
    (taken : (eventLoop ι φ).step s action = some s') : OtherStep s s' := by
  cases action with
  | thread => exact threadStep_spec wakeful taken
  | owner => exact absurd rfl other
  | poll wake others =>
      simp only [eventLoop, pollStep, Option.ite_none_right_eq_some, Option.some.injEq] at taken
      obtain ⟨⟨pc, -⟩, rfl⟩ := taken
      constructor <;> simp [Entered, Published, EventLoop.goto, pc]
  | queue f =>
      simp only [eventLoop, queueStep] at taken
      split at taken
      case h_3 => cases taken
      all_goals
        rename_i pc
        simp only [Option.ite_none_left_eq_some, Option.some.injEq] at taken
        obtain ⟨-, rfl⟩ := taken
        constructor <;> simp [Entered, Published, EventLoop.emplace, pc]
  | emplace i f =>
      simp only [eventLoop, Option.ite_none_right_eq_some, Option.some.injEq] at taken
      obtain ⟨-, rfl⟩ := taken
      exact ⟨rfl, .inl rfl, .inl, id, id, fun entered absent => absurd entered absent,
        fun polling => .inr ⟨polling, id⟩⟩
  | wakeup i =>
      simp only [eventLoop, Option.ite_none_right_eq_some, Option.some.injEq] at taken
      obtain ⟨-, rfl⟩ := taken
      exact ⟨rfl, .inl rfl, .inl, id, id, fun entered absent => absurd entered absent,
        fun polling => .inr ⟨polling, fun _ => ⟨Nat.succ_pos _, rfl⟩⟩⟩

theorem base_init : (eventLoop ι φ).init.Base where
  wakeful := wakeful_init
  published := nofun
  owner := fun created => absurd rfl created

theorem base_step (s : EventLoop ι φ) (action : LoopStep ι φ) (s' : EventLoop ι φ)
    (base : s.Base) (taken : (eventLoop ι φ).step s action = some s') : s'.Base := by
  have wakeful := wakeful_step s action s' base.wakeful taken
  by_cases owners : action = .owner
  · subst owners
    exact base.ownerStep (ownerStep_spec taken) wakeful
  · exact base.other (otherStep_spec base.wakeful owners taken) wakeful

/-- From the moment the flag is set and settled, it stays so. -/
theorem settled_step (s : EventLoop ι φ) (action : LoopStep ι φ) (s' : EventLoop ι φ)
    (kept : s.Base ∧ s.QuitSet ∧ s.Settled) (taken : (eventLoop ι φ).step s action = some s') :
    s'.Base ∧ s'.QuitSet ∧ s'.Settled := by
  obtain ⟨base, set, settled⟩ := kept
  refine ⟨base_step s action s' base taken, ?_⟩
  by_cases owners : action = .owner
  · subst owners
    have spec := ownerStep_spec taken
    exact ⟨spec.set.mpr (.inl set), spec.settled set.born settled.entered (.inl settled.quit)⟩
  · have spec := otherStep_spec base.wakeful owners taken
    exact ⟨by simpa only [QuitSet, spec.owner] using set, spec.settled settled⟩

theorem guarded_step (s : EventLoop ι φ) (action : LoopStep ι φ) (s' : EventLoop ι φ)
    (kept : s.Base ∧ (s.QuitSet → s.Settled)) (met : s.QuitsEntered action)
    (taken : (eventLoop ι φ).step s action = some s') : s'.Base ∧ (s'.QuitSet → s'.Settled) := by
  obtain ⟨base, settled⟩ := kept
  refine ⟨base_step s action s' base taken, fun set' => ?_⟩
  by_cases set : s.QuitSet
  · exact (settled_step s action s' ⟨base, set, settled set⟩ taken).2.2
  · by_cases owners : action = .owner
    · subst owners
      have spec := ownerStep_spec taken
      have quitting := (spec.set.mp set').resolve_left set
      exact spec.settled (by simp [quitting]) (met quitting) (.inr quitting)
    · have spec := otherStep_spec base.wakeful owners taken
      exact absurd (by simpa only [QuitSet, spec.owner] using set') set

theorem forgotten_step (s : EventLoop ι φ) (action : LoopStep ι φ) (s' : EventLoop ι φ)
    (kept : s.Base ∧ s.Forgotten) (taken : (eventLoop ι φ).step s action = some s') :
    s'.Base ∧ s'.Forgotten := by
  refine ⟨base_step s action s' kept.1 taken, ?_⟩
  by_cases owners : action = .owner
  · subst owners
    exact (ownerStep_spec taken).forgotten kept.2
  · exact (otherStep_spec kept.1.wakeful owners taken).forgotten kept.2

theorem early_step (s : EventLoop ι φ) (action : LoopStep ι φ) (s' : EventLoop ι φ)
    (_base : s.Base) (early : ¬ s.QuitsEntered action)
    (taken : (eventLoop ι φ).step s action = some s') : s'.Forgotten := by
  by_cases owners : action = .owner
  · subst owners
    exact (ownerStep_spec taken).early early
  · exact absurd (by cases action <;> trivial) early

/-- How many steps a thread that will find the flag up is from its end. -/
def stepsLeft (s : EventLoop ι φ) : Nat :=
  (if s.requested then 1 else 0) +
    match s.thread with
    | .polling => s.pendingFunctors.length + 10
    | .handling true => s.pendingFunctors.length + 9
    | .handling false => s.pendingFunctors.length + 8
    | .starting => s.pendingFunctors.length + 7
    | .swapping => s.pendingFunctors.length + 6
    | .running => s.functors.length + 5
    | .expiring => 4
    | .testing => 3
    | .leaving => 2
    | .clearing => 1
    | .unborn | .constructing | .publishing | .entering | .resetting | .finished => 0

/-- The loop's thread always has a step towards its end that nobody has to help with. -/
theorem settled_advances (settled : s.Settled) (joining : s.owner = .joining)
    (unfinished : s.thread ≠ .finished) :
    ∃ action next, Unaided action ∧ (eventLoop ι φ).step s action = some next ∧
      next.owner = .joining ∧ stepsLeft next < stepsLeft s := by
  obtain ⟨published, notEntering, notResetting⟩ := settled.entered
  by_cases on : s.requested = true
  · refine ⟨.thread, s.wakeupIfCalling, trivial, by simp [eventLoop, threadStep, on], ?_, ?_⟩
    · unfold wakeupIfCalling
      simp only
      split <;> exact joining
    · unfold wakeupIfCalling
      simp only
      split <;> simp [stepsLeft, wakeup, on]
  · cases pc : s.thread with
    | unborn => exact absurd pc published.1
    | constructing => exact absurd pc published.2.1
    | publishing => exact absurd pc published.2.2
    | entering => exact absurd pc notEntering
    | resetting => exact absurd pc notResetting
    | finished => exact absurd pc unfinished
    | polling =>
        obtain ⟨readable, edge⟩ := settled.woken joining pc
        refine ⟨.poll true false, _, trivial,
          by simp only [eventLoop, pollStep, pc, readable, edge]; rfl, ?_, ?_⟩
        · exact joining
        · simp [stepsLeft, EventLoop.goto, pc, on]
    | testing | starting | swapping | expiring | leaving | clearing =>
        refine ⟨.thread, _, trivial, by simp only [eventLoop, threadStep, on, pc]; rfl, ?_, ?_⟩
        · exact joining
        · simp [stepsLeft, EventLoop.goto, pc, on, settled.quit]
    | handling wake =>
        cases wake with
        | true | false =>
            refine ⟨.thread, _, trivial, by simp only [eventLoop, threadStep, on, pc]; rfl, ?_, ?_⟩
            · exact joining
            · simp [stepsLeft, EventLoop.goto, handleRead, pc, on]
    | running =>
        cases next : s.functors with
        | nil | cons =>
            refine ⟨.thread, _, trivial,
              by simp only [eventLoop, threadStep, on, pc, next]; rfl, ?_, ?_⟩
            · exact joining
            · simp [stepsLeft, EventLoop.goto, pc, on, next]

theorem settled_finishes (base : s.Base) (settled : s.Settled) (joining : s.owner = .joining) :
    ∃ more final, (∀ action ∈ more, Unaided action) ∧
      (eventLoop ι φ).run s more = some final ∧ final.owner = .joined := by
  induction left : stepsLeft s using Nat.strong_induction_on generalizing s with
  | _ n ih =>
      by_cases finished : s.thread = .finished
      · refine ⟨[.owner], { s with owner := .joined }, by simp [Unaided], ?_, rfl⟩
        simp [Machine.run_cons, eventLoop, ownerStep, joining, finished]
      · obtain ⟨action, next, unaided, taken, joining', fewer⟩ :=
          settled_advances settled joining finished
        obtain ⟨base', -, settled'⟩ :=
          settled_step s action next ⟨base, .inr (.inl joining), settled⟩ taken
        obtain ⟨more, final, all, ran, joined⟩ := ih _ (left ▸ fewer) base' settled' joining' rfl
        exact ⟨action :: more, final, List.forall_mem_cons.mpr ⟨unaided, all⟩,
          Machine.run_cons_some _ |>.mpr ⟨next, taken, ran⟩, joined⟩

theorem quitKept_of_settled (base : s.Base) (set : s.QuitSet) (settled : s.Settled) :
    s.QuitKept where
  stays := fun steps later ran =>
    (Machine.run_preserves settled_step ⟨base, set, settled⟩ ran).2.2.quit
  leaves := by
    intro steps later next ran testing taken
    obtain ⟨base', -, settled'⟩ := Machine.run_preserves settled_step ⟨base, set, settled⟩ ran
    have idle : ¬ later.requested = true := fun on => by
      simpa [testing] using base'.wakeful.requested on
    simp only [eventLoop, threadStep, idle, Bool.false_eq_true, if_false, testing, settled'.quit,
      if_true, Option.some.injEq] at taken
    exact taken ▸ rfl
  joins := by
    intro steps later ran
    obtain ⟨base', set', settled'⟩ := Machine.run_preserves settled_step ⟨base, set, settled⟩ ran
    rcases set' with waking | joining | joined
    · have taken : (eventLoop ι φ).step later .owner =
          some { later.wakeup with owner := .joining } := by
        simp [eventLoop, ownerStep, waking]
      obtain ⟨base'', -, settled''⟩ :=
        settled_step _ _ _ ⟨base', .inl waking, settled'⟩ taken
      obtain ⟨more, final, all, ran', joined⟩ := settled_finishes base'' settled'' rfl
      exact ⟨.owner :: more, final, List.forall_mem_cons.mpr ⟨trivial, all⟩,
        Machine.run_cons_some _ |>.mpr ⟨_, taken, ran'⟩, joined⟩
    · exact settled_finishes base' settled' joining
    · exact ⟨[], later, by simp, rfl, joined⟩

/-- A flag that is forgotten goes down. -/
theorem not_quitKept_of_forgotten (base : s.Base) (forgotten : s.Forgotten) : ¬ s.QuitKept := by
  intro kept
  obtain ⟨set, down⟩ := forgotten
  have up := kept.stays [] s rfl
  have late : ¬ s.Entered := fun entered => by
    rw [down entered] at up
    cases up
  have waited : s.owner ≠ .waiting := by
    rintro waiting
    simp [QuitSet, waiting] at set
  have published := base.owner set.born waited
  have idle : ¬ s.requested = true := fun on => by
    rcases base.wakeful.requested on with running | ⟨wake, handling⟩
    · exact late (by simp [Entered, Published, running])
    · exact late (by simp [Entered, Published, handling])
  have pc : s.thread = .entering ∨ s.thread = .resetting := by
    by_contra elsewhere
    exact late ⟨published, not_or.mp elsewhere⟩
  rcases pc with entering | resetting
  · have falls := kept.stays [.thread, .thread] _
      (by simp [Machine.run_cons, eventLoop, threadStep, idle, entering, EventLoop.goto]; rfl)
    simp at falls
  · have falls := kept.stays [.thread] _
      (by simp [Machine.run_cons, eventLoop, threadStep, idle, resetting, EventLoop.goto]; rfl)
    simp at falls

/-- The flag stays up once it is set, and the loop can be joined, exactly if it was set
    after `loop` had cleared it. -/
theorem quitKept_iff (steps : List (LoopStep ι φ)) (s : EventLoop ι φ)
    (ran : (eventLoop ι φ).run (eventLoop ι φ).init steps = some s) (set : s.QuitSet) :
    (eventLoop ι φ).Guarded QuitsEntered (eventLoop ι φ).init steps ↔ s.QuitKept := by
  have base := Machine.run_preserves base_step base_init ran
  constructor
  · intro guarded
    have kept := Machine.Guarded.preserves guarded_step
      ⟨base_init, fun set => by simp [QuitSet, eventLoop] at set⟩ guarded ran
    exact quitKept_of_settled base set (kept.2 set)
  · intro kept
    refine (Machine.guarded_or base_step forgotten_step early_step base_init ran).resolve_right ?_
    exact fun forgotten => not_quitKept_of_forgotten base forgotten kept

/-- The loop blocks in `epoll_wait` when `quit` comes. -/
def calmSteps : List (LoopStep Unit Unit) :=
  [.owner, .thread, .thread, .thread, .thread, .thread, .owner, .owner, .owner, .owner]

theorem quitKept_calm :
    ∃ s, (eventLoop Unit Unit).run (eventLoop Unit Unit).init calmSteps = some s ∧
      s.QuitSet ∧ s.QuitKept := by
  obtain ⟨s, ran⟩ := Option.isSome_iff_exists.mp
    (show ((eventLoop Unit Unit).run (eventLoop Unit Unit).init calmSteps).isSome by decide)
  have set : s.QuitSet := by
    have : ((eventLoop Unit Unit).run (eventLoop Unit Unit).init calmSteps).all (·.QuitSet) := by
      decide
    simpa [ran] using this
  exact ⟨s, ran, set, (quitKept_iff calmSteps s ran set).mp (by decide)⟩

/-- `quit` comes between the publication of the loop and its `quit_ = false`. -/
def hastySteps : List (LoopStep Unit Unit) :=
  [.owner, .thread, .thread, .owner, .owner, .owner, .owner]

/-- The loop then clears the flag and goes on. -/
theorem hastyQuit_forgotten :
    ((eventLoop Unit Unit).run (eventLoop Unit Unit).init hastySteps).any (·.QuitSet) ∧
    ((eventLoop Unit Unit).run (eventLoop Unit Unit).init
      (hastySteps ++ [.thread, .thread, .thread])).any
      (fun s => s.QuitSet ∧ s.quit = false ∧ s.thread = .polling) := by
  decide

end Corio.Epoll
