import Corio.Epoll.OwnTurns
import Corio.Foundation.Alarms

/-! # Deadlines of connections

The queue of the `TimerManager` keeps nodes that were deleted until their time has come. Without
them it says when each connection is to be closed, and this is a collection of alarms.
-/

namespace Corio.Epoll

namespace Poller

/-- A node holds the connection until this time. -/
def Due (s : Poller) (c time : Nat) : Prop :=
  ∃ node ∈ s.timerNodeQueue, node.holds = some c ∧ node.expiredTime = time

/-- The time of the node that holds the connection. -/
def deadlines (s : Poller) : Alarms Nat Nat := fun c =>
  (s.timerNodeQueue.find? fun node => node.holds = some c).map TimerNode.expiredTime

/-- `reset` is called for this channel. -/
def resets (s : Poller) (c : Nat) (revents : Revents) (fs : FileSystem)
    (reads : List ReadResult) (writes : List WriteResult) : Bool :=
  !revents.hangsUp && ((revents.epollin || revents.epollpri || revents.epollrdhup) &&
    readResets fs { (s.heap c).data with events := {} } ⟨reads, writes, []⟩)

/-- What a step is for the alarms. -/
def alarmEvents (s : Poller) (action : PollerStep) : List (AlarmEvent Nat Nat) :=
  match s.acting action, action with
  | some (c, .add), .call now => [.set c (now + DEFAULT_EXPIRED_TIME)]
  | some (c, .conclude), .conclude now =>
      let d := (s.heap c).data
      if d.error = false ∧ d.connectionState = .connected then [.set c (now + connTimeout d)]
      else [.clear c]
  | some (c, .ready revents fs reads writes), _ =>
      if s.resets c revents fs reads writes then [.clear c] else []
  | some (c, .close), .expire _ now => [.ring c now]
  | none, .expire k now =>
      if s.pc = .expiring ∧ (s.expire k now).any fun s' => s'.pc = .polling then [.quiet now]
      else []
  | _, _ => []

variable {s s' : Poller} {c j time : Nat} {turns coming : List Nat}

theorem Sound.deadlines_iff (sound : Sound s turns coming) :
    s.deadlines c = some time ↔ s.Due c time := by
  simp only [deadlines, Option.map_eq_some_iff]
  constructor
  · rintro ⟨node, found, same⟩
    exact ⟨node, List.mem_of_find?_eq_some found, by simpa using List.find?_some found, same⟩
  · rintro ⟨node, member, holds, same⟩
    refine ⟨node, ?_, same⟩
    cases found : s.timerNodeQueue.find? fun node => node.holds = some c with
    | none => exact absurd holds (by simpa using List.find?_eq_none.mp found node member)
    | some other =>
        have held : other.holds = some c := by simpa using List.find?_some found
        rw [sound.unique (List.mem_of_find?_eq_some found) member held holds]

theorem due_of_queue (queue : s'.timerNodeQueue = s.timerNodeQueue) :
    s'.Due j time ↔ s.Due j time := by
  rw [Due, Due, queue]

theorem Sound.due_seperateTimer (sound : Sound s turns coming) (c : Nat) :
    (s.seperateTimer c).Due j time ↔ s.Due j time ∧ j ≠ c := by
  cases locked : s.lockTimer c with
  | none =>
      have same : s.seperateTimer c = s := by simp only [Poller.seperateTimer, locked]
      rw [same, iff_self_and]
      rintro ⟨node, member, holds, -⟩ rfl
      exact sound.not_timed locked ⟨node, member, holds⟩
  | some address =>
      obtain ⟨points, -⟩ := lockTimer_eq_some.mp locked
      have queue : (s.seperateTimer c).timerNodeQueue = (s.clear address).timerNodeQueue := by
        simp only [Poller.seperateTimer, locked, Poller.set]
      rw [Due, queue]
      constructor
      · rintro ⟨node, member, holds, same⟩
        obtain ⟨before, apart⟩ := (mem_clear holds).mp member
        refine ⟨⟨node, before, holds, same⟩, ?_⟩
        rintro rfl
        have linked := sound.linked node before j holds
        rw [points] at linked
        exact apart (Option.some.inj linked).symm
      · rintro ⟨⟨node, before, holds, same⟩, other⟩
        refine ⟨node, (mem_clear holds).mpr ⟨before, ?_⟩, holds, same⟩
        rintro rfl
        exact other (sound.owned node before c j points holds)

theorem due_addTimer (c timeout now : Nat) :
    (s.addTimer c timeout now).Due j time ↔ s.Due j time ∨ j = c ∧ time = now + timeout := by
  simp only [Due, Poller.addTimer, Poller.set, List.mem_append, List.mem_singleton]
  constructor
  · rintro ⟨node, member | rfl, holds, same⟩
    · exact .inl ⟨node, member, holds, same⟩
    · exact .inr ⟨(Option.some.inj holds).symm, same.symm⟩
  · rintro (⟨node, member, holds, same⟩ | ⟨rfl, rfl⟩)
    · exact ⟨node, .inl member, holds, same⟩
    · exact ⟨_, .inr rfl, rfl, rfl⟩

theorem Sound.due_pop (sound : Sound s turns coming) {k : Nat} {node : TimerNode}
    (there : s.timerNodeQueue[k]? = some node) :
    (s.pop k).Due j time ↔ s.Due j time ∧ node.holds ≠ some j := by
  have nodup : s.timerNodeQueue.Nodup := sound.distinct.of_map _
  have left (other : TimerNode) : other ∈ (s.pop k).timerNodeQueue ↔
      other ≠ node ∧ other ∈ s.timerNodeQueue := by
    obtain ⟨inside, rfl⟩ := List.getElem?_eq_some_iff.mp there
    rw [Poller.pop, ← List.Nodup.erase_getElem nodup, nodup.mem_erase_iff]
  constructor
  · rintro ⟨other, member, holds, same⟩
    obtain ⟨apart, member⟩ := (left other).mp member
    refine ⟨⟨other, member, holds, same⟩, fun held => apart ?_⟩
    exact sound.unique member (List.mem_of_getElem? there) holds held
  · rintro ⟨⟨other, member, holds, same⟩, apart⟩
    refine ⟨other, (left other).mpr ⟨?_, member⟩, holds, same⟩
    rintro rfl
    exact apart holds

/-- The alarms of a state, from what is due in it. -/
theorem deadlines_of_due {set_ : Alarms Nat Nat} (intact : s.Intact)
    (due : ∀ j time, s.Due j time ↔ set_ j = some time) : s.deadlines = set_ := by
  funext j
  refine Option.ext fun time => ?_
  exact intact.deadlines_iff.trans (due j time)

theorem Intact.quiet_step (intact : s.Intact) (intact' : s'.Intact)
    (due : ∀ j time, s'.Due j time ↔ s.Due j time) : s'.deadlines = s.deadlines :=
  deadlines_of_due intact' fun j time => (due j time).trans intact.deadlines_iff.symm

theorem Intact.clear_step (intact : s.Intact) (intact' : s'.Intact)
    (due : ∀ j time, s'.Due j time ↔ s.Due j time ∧ j ≠ c) :
    s'.deadlines = Function.update s.deadlines c none := by
  refine deadlines_of_due intact' fun j time => ?_
  rw [due, ← intact.deadlines_iff]
  by_cases same : j = c
  · subst same
    simp
  · simp [same]

theorem Intact.set_step (intact : s.Intact) (intact' : s'.Intact)
    (due : ∀ j t, s'.Due j t ↔ (s.Due j t ∧ j ≠ c) ∨ j = c ∧ t = time) :
    s'.deadlines = Function.update s.deadlines c (some time) := by
  refine deadlines_of_due intact' fun j t => ?_
  rw [due, ← intact.deadlines_iff]
  by_cases same : j = c
  · subst same
    simp [eq_comm]
  · simp [same]

theorem Sound.due_conclude (sound : Sound s turns coming) (c now : Nat) :
    (s.conclude c now).Due j time ↔ (s.Due j time ∧ j ≠ c) ∨
      ((s.heap c).data.error = false ∧ (s.heap c).data.connectionState = .connected) ∧
        j = c ∧ time = now + connTimeout (s.heap c).data := by
  obtain ⟨-, -, -, -, data⟩ := s.seperateTimer_frame c
  simp only [conclude]
  rw [← sound.due_seperateTimer c, ← data]
  generalize s.seperateTimer c = t
  by_cases connected : (t.heap c).data.error = false ∧ (t.heap c).data.connectionState = .connected
  · rw [if_pos connected, epollMod, if_pos (connTimeout_pos _), and_iff_right connected]
    exact due_addTimer (s := t.setData c _ _) c _ now
  · rw [if_neg connected, or_iff_left fun both => connected both.1]
    split
    · exact due_of_queue rfl
    · exact due_of_queue rfl

theorem due_newEvent (c now : Nat) :
    (s.newEvent c now).Due j time ↔ s.Due j time ∨ j = c ∧ time = now + DEFAULT_EXPIRED_TIME := by
  rw [newEvent, epollAdd_eq (by decide)]
  exact due_addTimer (s := (s.setData c _ _).register c) c _ now

theorem Sound.due_handleEvents (sound : Sound s turns coming) {revents : Revents}
    {ret : List (Nat × Revents)} {fs : FileSystem} {reads : List ReadResult}
    {writes : List WriteResult}
    (handled : s.handleEvents c revents ret fs ⟨reads, writes, []⟩ = some s') :
    s'.Due j time ↔ s.Due j time ∧ (s.resets c revents fs reads writes = true → j ≠ c) := by
  unfold handleEvents at handled
  simp only at handled
  unfold resets Revents.hangsUp
  split at handled
  · rename_i hangs
    obtain rfl := Option.some.inj handled
    simp only [hangs, Bool.not_true, Bool.false_and, Bool.false_eq_true, false_implies, and_true]
    exact due_of_queue rfl
  · rename_i goes
    rw [Bool.not_eq_true] at goes
    rw [handleReady_turn] at handled
    cases done : handleTurn fs { (s.heap c).data with events := {} } revents
        ⟨reads, writes, []⟩ with
    | error fault => simp [done, Except.map] at handled
    | ok after =>
        simp only [done, Except.map, Option.some.injEq] at handled
        simp only [goes, Bool.not_false, Bool.true_and]
        generalize ((revents.epollin || revents.epollpri || revents.epollrdhup) &&
          readResets fs { (s.heap c).data with events := {} } ⟨reads, writes, []⟩) = reset at *
        subst handled
        cases reset with
        | false =>
            simp only [Bool.false_eq_true, false_implies, and_true, if_false]
            exact due_of_queue rfl
        | true =>
            simp only [if_true, true_implies]
            exact sound.due_seperateTimer c

theorem remove_pc (s : Poller) (k : Nat) (node : TimerNode) : (s.remove k node).pc = s.pc := by
  rcases s.remove_cases k node with ⟨-, same⟩ | ⟨c, -, same⟩ <;> rw [same] <;> rfl

/-- The turn in which `handleExpiredEvent` returns closes nothing. -/
theorem expires_none (pc : s.pc = .expiring) {k now : Nat} (expired : s.expire k now = some s')
    (returns : s'.pc = .polling) : s.expires k now = none := by
  rcases expire_cases expired with ⟨-, ends⟩ | ⟨node, -, -, rfl⟩
  · rcases ends with empty | ⟨node, there, -, live, valid⟩
    · simp [expires, empty]
    · simp [expires, there, live, valid]
  · rw [remove_pc, pc] at returns
    cases returns

/-- A turn of `handleExpiredEvent` rings, tidies up or finds nothing left to ring. -/
theorem Intact.alarms_expire (intact : s.Intact) (intact' : s'.Intact) (pc : s.pc = .expiring)
    {k now : Nat} (expired : s.expire k now = some s') :
    Alarms.Run s.deadlines (s.alarmEvents (.expire k now)) s'.deadlines := by
  rcases expire_cases expired with ⟨rfl, ends⟩ | ⟨node, there, spent, rfl⟩
  · have quiet : (s.goto .polling).deadlines = s.deadlines :=
      intact.quiet_step intact' fun j time => due_of_queue rfl
    have none_ : s.acting (.expire k now) = none := by
      simp only [acting, pc, expires_none pc expired rfl, Option.map_none]
    have returns : (s.expire k now).any fun s' => s'.pc = .polling := by simp [expired, goto]
    rw [quiet]
    simp only [alarmEvents, none_, pc, returns, and_self, if_true]
    refine (Alarms.Step.quiet fun c time on => ?_).run
    obtain ⟨other, member, -, rfl⟩ := intact.deadlines_iff.mp on
    rcases ends with empty | ⟨node, -, top, -, valid⟩
    · rw [empty] at member
      cases member
    · exact Nat.lt_of_lt_of_le (of_decide_eq_true valid) (top other member)
  · have due : (node.deleted || !node.isValid now) = true := by simpa using spent
    have stays : ¬ (s.remove k node).pc = .polling := by
      rw [remove_pc, pc]
      exact IterationPc.noConfusion
    have found : s.acting (.expire k now) = node.holds.map fun c => (c, .close) := by
      simp only [acting, pc, expires, there, Option.bind_some, if_pos due]
    rcases s.remove_cases k node with ⟨holds, same⟩ | ⟨c, holds, same⟩
    · have quiet : (s.remove k node).deadlines = s.deadlines := by
        refine intact.quiet_step intact' fun j time => ?_
        rw [same, intact.due_pop there, holds]
        simp
      rw [quiet]
      simp only [alarmEvents, found, holds, Option.map_none, expired, Option.any_some, stays,
        decide_false, Bool.false_eq_true, and_false, if_false]
      exact .nil _
    · have cleared : (s.remove k node).deadlines = Function.update s.deadlines c none := by
        refine intact.clear_step intact' fun j time => ?_
        have popped : (s.pop k).Due j time ↔ _ := intact.due_pop there
        rw [holds, ne_eq, Option.some.injEq, ← ne_eq, ne_comm] at popped
        rw [same, ← popped]
        exact due_of_queue rfl
      have live : node.deleted = false := by
        rw [intact.cleared node (List.mem_of_getElem? there), holds]
        rfl
      have on : s.deadlines c = some node.expiredTime :=
        intact.deadlines_iff.mpr ⟨node, List.mem_of_getElem? there, holds, rfl⟩
      have late : node.expiredTime ≤ now := by
        simpa [live, TimerNode.isValid] using due
      rw [cleared]
      simp only [alarmEvents, found, holds, Option.map_some]
      exact (Alarms.Step.ring on late).run

/-- Every step is one for the alarms, or none. -/
theorem Intact.alarms_step (intact : s.Intact) {action : PollerStep}
    (taken : poller.step s action = some s') :
    Alarms.Run s.deadlines (s.alarmEvents action) s'.deadlines := by
  have intact' := (stepped intact taken).intact
  simp only [poller] at taken
  split at taken
  case h_1 pc _ fd =>
      have none_ : s.acting (.accept fd) = none := by
        cases pc : s.pc <;> simp [acting, pc]
      obtain ⟨-, -, -, -, queue⟩ := accept_cases intact alive_of_coming taken
      rw [intact.quiet_step intact' fun j time => due_of_queue queue]
      simp only [alarmEvents, none_]
      exact .nil _
  case h_2 pc _ events atPoll =>
      obtain ⟨-, rfl⟩ := Option.ite_none_right_eq_some.mp taken |>.imp_right Option.some.inj
      rw [intact.quiet_step intact' fun j time => due_of_queue rfl]
      simp only [alarmEvents, acting, atPoll]
      exact .nil _
  case h_3 pc _ c revents ret fs reads writes atHandle =>
      have due (j time : Nat) : s'.Due j time ↔ _ := intact.due_handleEvents taken
      simp only [alarmEvents, acting, atHandle]
      cases resets : s.resets c revents fs reads writes with
      | false =>
          simp only [resets, Bool.false_eq_true, false_implies, and_true] at due
          rw [intact.quiet_step intact' due]
          exact .nil _
      | true =>
          simp only [resets, true_implies] at due
          rw [intact.clear_step intact' due]
          exact (Alarms.Step.clear c).run
  case h_4 pc _ c ret now atConclude =>
      obtain rfl := Option.some.inj taken
      have due (j time : Nat) : ((s.conclude c now).goto (.handling ret)).Due j time ↔ _ :=
        intact.due_conclude c now
      simp only [alarmEvents, acting, atConclude]
      by_cases connected :
          (s.heap c).data.error = false ∧ (s.heap c).data.connectionState = .connected
      · simp only [connected, and_self, true_and] at due
        rw [if_pos connected, intact.set_step intact' due]
        exact (Alarms.Step.set c _).run
      · simp only [connected, false_and, or_false] at due
        rw [if_neg connected, intact.clear_step intact' due]
        exact (Alarms.Step.clear c).run
  case h_5 pc _ now atEnd =>
      obtain rfl := Option.some.inj taken
      rw [intact.quiet_step intact' fun j time => due_of_queue rfl]
      simp only [alarmEvents, acting, atEnd]
      exact .nil _
  case h_6 pc _ c functors now atCall =>
      obtain rfl := Option.some.inj taken
      have absent : s.fd2http (s.fdOf c) = none :=
        (intact.absent c (by simp [Poller.coming, Poller.functors, atCall])).1
      have free : ¬ s.Timed c := intact.not_timed_of_absent absent
      have due (j time : Nat) : ((s.newEvent c now).goto (.calling functors)).Due j time ↔
          (s.Due j time ∧ j ≠ c) ∨ j = c ∧ time = now + DEFAULT_EXPIRED_TIME := by
        refine (due_newEvent c now).trans (or_congr_left (iff_self_and.mpr ?_))
        rintro ⟨node, member, holds, -⟩ rfl
        exact free ⟨node, member, holds⟩
      simp only [alarmEvents, acting, atCall]
      rw [intact.set_step intact' due]
      exact (Alarms.Step.set c _).run
  case h_7 pc _ now atEnd =>
      obtain rfl := Option.some.inj taken
      rw [intact.quiet_step intact' fun j time => due_of_queue rfl]
      simp only [alarmEvents, acting, atEnd]
      exact .nil _
  case h_8 pc _ k now atExpire => exact intact.alarms_expire intact' atExpire taken
  case h_9 => cases taken

/-- What a run is for the alarms. -/
def alarmsOf : Poller → List PollerStep → List (AlarmEvent Nat Nat)
  | _, [] => []
  | s, action :: rest =>
      s.alarmEvents action ++
        match poller.step s action with
        | none => []
        | some s' => alarmsOf s' rest

theorem Intact.alarms_run (intact : s.Intact) {steps : List PollerStep}
    (ran : poller.run s steps = some s') :
    Alarms.Run s.deadlines (alarmsOf s steps) s'.deadlines := by
  induction steps generalizing s with
  | nil =>
      obtain rfl := Option.some.inj ran
      exact .nil _
  | cons action rest ih =>
      obtain ⟨mid, taken, later⟩ := poller.run_cons_some.mp ran
      simp only [alarmsOf, taken]
      exact (intact.alarms_step taken).append (ih (stepped intact taken).intact later)

theorem intact_reachable (reached : poller.Reachable s) : s.Intact :=
  reached.induct intact_init fun _ _ _ intact taken => (stepped intact taken).intact

/-- The queue of the `TimerManager`, where nodes are only marked, is a collection of alarms. -/
theorem timers_alarms (steps : List PollerStep) (s : Poller)
    (ran : poller.run poller.init steps = some s) :
    Alarms.Run (fun _ => none) (alarmsOf poller.init steps) s.deadlines ∧
      ∀ c, s.deadlines c ≠ none → s.Registered c := by
  refine ⟨intact_init.alarms_run ran, fun c on => ?_⟩
  have intact := intact_reachable ⟨steps, ran⟩
  obtain ⟨time, on⟩ := Option.ne_none_iff_exists'.mp on
  obtain ⟨node, member, holds, -⟩ := intact.deadlines_iff.mp on
  exact ⟨_, intact.held node member c holds⟩

/-- A connection whose timer is over when the functors are through. -/
def overdue : List PollerStep := answered ++ [.poll [], .call 150001, .call 150001]

theorem timers_alarms_overdue :
    ∃ s, poller.run poller.init overdue = some s ∧ s.deadlines 0 = some 150001 ∧
      Alarms.Run (fun _ => none) (alarmsOf poller.init overdue) s.deadlines := by
  have ran : (poller.run poller.init overdue).any fun s => s.deadlines 0 = some 150001 := by
    decide +kernel
  obtain ⟨s, ran, final⟩ := (Option.any_eq_true _ _).mp ran
  exact ⟨s, ran, of_decide_eq_true final, (timers_alarms overdue s ran).1⟩

/-- No connection is closed before the time that was set last for it, and when a call of
    `handleExpiredEvent` returns, none is open for which that time has come. -/
theorem closed_in_time (steps : List PollerStep) (s s' : Poller)
    (ran : poller.run poller.init steps = some s) (k now : Nat) (pc : s.pc = .expiring)
    (taken : poller.step s (.expire k now) = some s') :
    (∀ c, s.acting (.expire k now) = some (c, .close) →
      ∃ before after time, alarmsOf poller.init steps = before ++ .set c time :: after ∧
        (∀ event ∈ after, ¬ event.About c) ∧ time ≤ now) ∧
      (s'.pc = .polling → ∀ c before after time,
        alarmsOf poller.init steps = before ++ .set c time :: after →
        (∀ event ∈ after, ¬ event.About c) → now < time) := by
  have before := intact_init.alarms_run ran
  have step := (intact_reachable ⟨steps, ran⟩).alarms_step taken
  have whole := before.append step
  refine ⟨fun c closes => ?_, fun returns c earlier after time same alone => ?_⟩
  · simp only [alarmEvents, closes] at whole
    exact whole.rings
  · have expired : s.expire k now = some s' := by simpa only [poller, pc] using taken
    have none_ : s.acting (.expire k now) = none := by
      simp only [acting, pc, expires_none pc expired returns, Option.map_none]
    simp only [alarmEvents, none_, pc, expired, Option.any_some, returns, decide_true, and_self,
      if_true, same] at whole
    exact whole.quiets alone

theorem closed_in_time_overdue :
    ∃ s s', poller.run poller.init overdue = some s ∧
      poller.step s (.expire 0 150001) = some s' ∧ ¬ s'.Registered 0 ∧
      ∃ before after time, alarmsOf poller.init overdue = before ++ .set 0 time :: after ∧
        (∀ event ∈ after, ¬ event.About 0) ∧ time ≤ 150001 := by
  have ran : (poller.run poller.init overdue).any fun s =>
      s.pc = .expiring ∧ s.expires 0 150001 = some 0 ∧
        (poller.step s (.expire 0 150001)).any fun s' => s'.fd2http (s'.fdOf 0) = none := by
    decide +kernel
  obtain ⟨s, ran, final⟩ := (Option.any_eq_true _ _).mp ran
  obtain ⟨pc, closes, steps⟩ := of_decide_eq_true final
  obtain ⟨s', taken, gone⟩ := (Option.any_eq_true _ _).mp steps
  have intact' : s'.Intact := intact_reachable (Machine.Reachable.step ⟨overdue, ran⟩ taken)
  have acts : s.acting (.expire 0 150001) = some (0, .close) := by simp [acting, pc, closes]
  refine ⟨s, s', ran, taken, fun registered => ?_,
    (closed_in_time overdue s s' ran 0 150001 pc taken).1 0 acts⟩
  rw [intact'.registered, of_decide_eq_true gone] at registered
  cases registered

end Poller

end Corio.Epoll
