import Corio.Epoll.ChunkDependence
import Corio.Epoll.TimerLinks

/-! # One live timer for each connection

What is missing for a timer on every connection is that `handleConn` attaches one or closes.
It does neither for a connection whose peer has stopped sending while there is output left.
-/

namespace Corio.Epoll

namespace Poller

/-- The node is not deleted and holds the connection. -/
def Holds (c : Nat) (node : TimerNode) : Bool := !node.deleted && node.holds == some c

/-- One live timer for each connection in `fd2http_`, and none for any other one. -/
structure OneTimer (s : Poller) : Prop where
  registered : ∀ c, s.Registered c → (s.timerNodeQueue.filter (Holds c)).length = 1
  other : ∀ c, ¬ s.Registered c → s.timerNodeQueue.filter (Holds c) = []

variable {s : Poller} {c : Nat}

/-- The step does not call `handleConn` on a draining connection. -/
def Clear (s : Poller) (action : PollerStep) : Prop :=
  match s.pc, action with
  | .concluding c _, .conclude _ => ¬ Draining (s.heap c).data
  | _, _ => True

instance (s : Poller) (action : PollerStep) : Decidable (s.Clear action) := by
  unfold Clear
  split <;> infer_instance

def Concluding (s : Poller) (c : Nat) : Prop := ∃ ret, s.pc = .concluding c ret

theorem not_concluding (idle : ∀ c ret, s.pc ≠ .concluding c ret) (j : Nat) :
    ¬ s.Concluding j := by
  rintro ⟨ret, here⟩
  exact idle j ret here

theorem only_concluding {ret : List (Nat × Revents)} (pc : s.pc = .concluding c ret) {j : Nat}
    (here : s.Concluding j) : j = c := by
  obtain ⟨ret', same⟩ := here
  exact (IterationPc.concluding.inj (pc.symm.trans same)).1.symm

/-- What a step does to `fd2http_` and the timers. -/
inductive Effect (s s' : Poller) : Prop where
  | quiet (http : s'.fd2http = s.fd2http) (timed : ∀ j, s'.Timed j ↔ s.Timed j)
      (stays : ∀ j, s.Concluding j → s'.Concluding j)
  /-- `handleConn` of this connection is next, which may have lost its timer. -/
  | read (c : Nat) (http : s'.fd2http = s.fd2http) (lost : ∀ j, s'.Timed j → s.Timed j)
      (kept : ∀ j, j ≠ c → s.Timed j → s'.Timed j) (before : ∀ j, ¬ s.Concluding j)
      (after : s'.Concluding c)
  | attach (c : Nat) (http : s'.fd2http = s.fd2http)
      (timed : ∀ j, s'.Timed j ↔ s.Timed j ∨ j = c) (only : ∀ j, s.Concluding j → j = c)
      (turn : c ∈ s.turns)
  | close (c : Nat)
      (http : ∀ fd j, s'.fd2http fd = some j ↔ s.fd2http fd = some j ∧ fd ≠ s.fdOf c)
      (timed : ∀ j, s'.Timed j ↔ s.Timed j ∧ j ≠ c) (only : ∀ j, s.Concluding j → j = c)
      (registered : s.fd2http (s.fdOf c) = some c) (known : c ∈ s.turns ∨ s.Timed c)
  | add (c : Nat)
      (http : ∀ fd j, s'.fd2http fd = some j ↔ fd = s.fdOf c ∧ j = c ∨ s.fd2http fd = some j)
      (timed : ∀ j, s'.Timed j ↔ s.Timed j ∨ j = c) (only : ∀ j, ¬ s.Concluding j)
      (absent : s.fd2http (s.fdOf c) = none)

/-- `handleConn` takes the timer of this connection and does not close it. -/
structure Leaves (s s' : Poller) (c : Nat) : Prop where
  http : s'.fd2http = s.fd2http
  timed : ∀ j, s'.Timed j ↔ s.Timed j ∧ j ≠ c
  registered : s.fd2http (s.fdOf c) = some c
  gone : c ∉ s'.turns

/-- What holds after a step, and what the step did. -/
structure Stepped (s : Poller) (action : PollerStep) (s' : Poller) : Prop where
  intact : s'.Intact
  turns : s.pc ≠ .polling → ∀ j ∈ s'.turns, j ∈ s.turns
  effect : s.Clear action ∧ Effect s s' ∨ ¬ s.Clear action ∧ ∃ c, Leaves s s' c

theorem turns_of_pc {s s' : Poller} (pc : s'.pc = s.pc) : s'.turns = s.turns := by
  rw [Poller.turns, Poller.turns, pc]

theorem functors_of_pc {s s' : Poller} (pc : s'.pc = s.pc) : s'.functors = s.functors := by
  rw [functors, functors, pc]

theorem timed_of_queue {s s' : Poller} (queue : s'.timerNodeQueue = s.timerNodeQueue) (j : Nat) :
    s'.Timed j ↔ s.Timed j := by
  rw [Timed, Timed, queue]

theorem accept_stepped (intact : s.Intact) {fd : Nat} {s' : Poller}
    (accepted : s.accept fd = some s') : Stepped s (.accept fd) s' := by
  obtain ⟨sound, pending, pc, http, queue⟩ := accept_cases intact alive_of_coming accepted
  refine ⟨sound.intact (turns_of_pc pc) ?_, fun _ j member => turns_of_pc pc ▸ member,
    .inl ⟨?_, ?_⟩⟩
  · rw [Poller.coming, functors_of_pc pc, pending, Poller.coming, List.append_assoc]
  · unfold Clear
    split
    · contradiction
    · trivial
  · exact .quiet http (timed_of_queue queue) fun j ⟨ret, here⟩ => ⟨ret, pc.trans here⟩

theorem poll_stepped (intact : s.Intact) (pc : s.pc = .polling) {events : List (Nat × Revents)}
    (once : (events.map Prod.fst).Nodup) :
    Stepped s (.poll events) (s.goto (.handling (s.getEventsRequest events))) := by
  have sound : Sound s [] s.coming := by simpa only [Intact, Poller.turns, pc] using intact
  refine ⟨((sound.getEventsRequest once).goto _).intact rfl ?_, fun busy => absurd pc busy,
    .inl ⟨?_, .quiet rfl (fun _ => Iff.rfl) ?_⟩⟩
  · simp only [Poller.coming, functors, pc, Poller.goto]
  · simp only [Clear, pc]
  · rintro j ⟨ret, here⟩
    exact nomatch pc.symm.trans here

theorem handle_stepped (intact : s.Intact) {revents : Revents} {ret : List (Nat × Revents)}
    (pc : s.pc = .handling ((c, revents) :: ret)) {fs : FileSystem} {reads : List ReadResult}
    {writes : List WriteResult} {s' : Poller}
    (handled : s.handleEvents c revents ret fs ⟨reads, writes, []⟩ = some s') :
    Stepped s (.handle fs reads writes) s' := by
  have sound : Sound s (c :: ret.map Prod.fst) s.coming := by
    simpa only [Intact, Poller.turns, pc, List.map_cons] using intact
  have clear : s.Clear (.handle fs reads writes) := by simp only [Clear, pc]
  have before : ∀ j, ¬ s.Concluding j := not_concluding (by simp [pc])
  obtain ⟨sound', pending, http, ⟨pc', timed⟩ | ⟨pc', lost, kept⟩⟩ :=
    handleEvents_cases sound handled
  · have coming : s'.coming = s.coming := by simp only [Poller.coming, functors, pc, pc', pending]
    refine ⟨sound'.tail.intact (by simp only [Poller.turns, pc']) coming, ?_,
      .inl ⟨clear, .quiet http timed fun j here => absurd here (before j)⟩⟩
    simp only [Poller.turns, pc, pc', List.map_cons]
    exact fun _ j member => List.mem_cons_of_mem _ member
  · have coming : s'.coming = s.coming := by simp only [Poller.coming, functors, pc, pc', pending]
    refine ⟨sound'.intact (by simp only [Poller.turns, pc']) coming, ?_,
      .inl ⟨clear, .read c http lost kept before ⟨ret, pc'⟩⟩⟩
    simp only [Poller.turns, pc, pc', List.map_cons]
    exact fun _ j member => member

theorem conclude_stepped (intact : s.Intact) {ret : List (Nat × Revents)}
    (pc : s.pc = .concluding c ret) (now : Nat) :
    Stepped s (.conclude now) ((s.conclude c now).goto (.handling ret)) := by
  have sound : Sound s (c :: ret.map Prod.fst) s.coming := by
    simpa only [Intact, Poller.turns, pc] using intact
  have member : c ∈ s.turns := by simp only [Poller.turns, pc, List.mem_cons_self]
  have only : ∀ j, s.Concluding j → j = c := fun j here => only_concluding pc here
  have clear : s.Clear (.conclude now) ↔ ¬ Draining (s.heap c).data := by simp only [Clear, pc]
  obtain ⟨sound', pending, effect⟩ := conclude_cases sound now
  refine ⟨(sound'.goto _).intact rfl ?_, fun _ j inside => ?_, ?_⟩
  · simp only [Poller.coming, functors, pc, Poller.goto, pending]
  · simp only [Poller.turns, pc]
    exact List.mem_cons_of_mem _ inside
  · rw [clear, not_not]
    rcases effect with ⟨apart, http, timed⟩ | ⟨draining, http, timed⟩ | ⟨apart, http, timed⟩
    · exact .inl ⟨apart, .attach c http timed only member⟩
    · exact .inr ⟨draining, c, http, timed, sound.turn c List.mem_cons_self,
        (List.nodup_cons.mp sound.once).1⟩
    · exact .inl ⟨apart, .close c http timed only (sound.turn c List.mem_cons_self) (.inl member)⟩

/-- A step that moves on to the functors, between them or away from them. -/
theorem goto_stepped (intact : s.Intact) {action : PollerStep} {pending : List Nat}
    {pc : IterationPc} (clear : s.Clear action) (before : ∀ j, ¬ s.Concluding j)
    (turns : ({ s with pendingFunctors := pending }.goto pc).turns = s.turns)
    (coming : ({ s with pendingFunctors := pending }.goto pc).coming = s.coming) :
    Stepped s action ({ s with pendingFunctors := pending }.goto pc) := by
  have sound : Sound { s with pendingFunctors := pending } s.turns s.coming := { intact with }
  exact ⟨(sound.goto pc).intact turns coming, fun _ j member => turns ▸ member,
    .inl ⟨clear, .quiet rfl (fun _ => Iff.rfl) fun j here => absurd here (before j)⟩⟩

theorem call_stepped (intact : s.Intact) {functors : List Nat}
    (pc : s.pc = .calling (c :: functors)) (now : Nat) :
    Stepped s (.call now) ((s.newEvent c now).goto (.calling functors)) := by
  have sound : Sound s [] (c :: (functors ++ s.pendingFunctors)) := by
    simpa only [Intact, Poller.turns, Poller.coming, Poller.functors, pc, List.cons_append]
      using intact
  have before : ∀ j, ¬ s.Concluding j := not_concluding (by simp [pc])
  obtain ⟨sound', pending, http, timed⟩ := newEvent_cases sound now
  refine ⟨(sound'.goto _).intact rfl ?_, fun _ j inside => absurd inside List.not_mem_nil,
    .inl ⟨?_, ?_⟩⟩
  · simp only [Poller.coming, Poller.functors, Poller.goto, pending]
  · simp only [Clear, pc]
  · exact .add c http timed before (sound.absent c List.mem_cons_self).1

theorem expire_stepped (intact : s.Intact) (pc : s.pc = .expiring) {k now : Nat} {s' : Poller}
    (expired : s.expire k now = some s') : Stepped s (.expire k now) s' := by
  have sound : Sound s [] s.coming := by simpa only [Intact, Poller.turns, pc] using intact
  have clear : s.Clear (.expire k now) := by simp only [Clear, pc]
  have before : ∀ j, ¬ s.Concluding j := not_concluding (by simp [pc])
  have idle : s.turns = [] := by simp only [Poller.turns, pc]
  rcases expire_cases expired with ⟨rfl, -⟩ | ⟨node, there, -, rfl⟩
  · refine goto_stepped intact clear before ?_ ?_
    · simp only [Poller.turns, pc, Poller.goto]
    · simp only [Poller.coming, functors, pc, Poller.goto]
  · rcases s.remove_cases k node with ⟨holds, same⟩ | ⟨c, holds, same⟩
    · rw [same]
      refine ⟨(sound.pop k).intact idle rfl, fun _ j member => member,
        .inl ⟨clear, .quiet rfl (fun j => ?_) fun j here => here⟩⟩
      simp only [sound.timed_pop there, holds, ne_eq, reduceCtorEq, not_false_eq_true, and_true]
    · rw [same]
      obtain ⟨sound', http, timed⟩ := close_cases sound there holds
      have member := List.mem_of_getElem? there
      exact ⟨sound'.intact idle rfl, fun _ j member => member,
        .inl ⟨clear, .close c http timed (fun j here => absurd here (before j))
          (sound.held node member c holds) (.inr ⟨node, member, holds⟩)⟩⟩

theorem stepped (intact : s.Intact) {action : PollerStep} {s' : Poller}
    (taken : poller.step s action = some s') : Stepped s action s' := by
  simp only [poller] at taken
  split at taken
  case h_1 pc _ fd => exact accept_stepped intact taken
  case h_2 pc _ events atPoll =>
      split at taken
      · rename_i once
        obtain rfl := Option.some.inj taken
        exact poll_stepped intact atPoll once
      · cases taken
  case h_3 pc _ c revents ret fs reads writes atHandle => exact handle_stepped intact atHandle taken
  case h_4 pc _ c ret now atConclude =>
      obtain rfl := Option.some.inj taken
      exact conclude_stepped intact atConclude now
  case h_5 pc _ now atEnd =>
      obtain rfl := Option.some.inj taken
      refine goto_stepped intact (by simp only [Clear, atEnd]) ?_ ?_ ?_
      · exact not_concluding (by simp [atEnd])
      · simp only [Poller.turns, atEnd, Poller.goto, List.map_nil]
      · simp only [Poller.coming, functors, atEnd, Poller.goto, List.nil_append, List.append_nil]
  case h_6 pc _ c functors now atCall =>
      obtain rfl := Option.some.inj taken
      exact call_stepped intact atCall now
  case h_7 pc _ now atEnd =>
      obtain rfl := Option.some.inj taken
      refine goto_stepped intact (by simp only [Clear, atEnd]) ?_ ?_ ?_
      · exact not_concluding (by simp [atEnd])
      · simp only [Poller.turns, atEnd, Poller.goto]
      · simp only [Poller.coming, functors, atEnd, Poller.goto]
  case h_8 pc _ k now atExpire => exact expire_stepped intact atExpire taken
  case h_9 => cases taken

/-- Every connection has a node, but for the one that `handleConn` is to give one. -/
def Attended (s : Poller) : Prop := ∀ j, s.Registered j → s.Concluding j ∨ s.Timed j

/-- This connection has no node and gets none in this iteration. -/
structure Abandoned (s : Poller) (c : Nat) : Prop where
  registered : s.fd2http (s.fdOf c) = some c
  untimed : ¬ s.Timed c
  gone : c ∉ s.turns

theorem Intact.registered (intact : s.Intact) :
    s.Registered c ↔ s.fd2http (s.fdOf c) = some c := by
  refine ⟨fun ⟨fd, there⟩ => ?_, fun there => ⟨_, there⟩⟩
  obtain rfl := (intact.place fd c there).1
  exact there

theorem Effect.attended {s' : Poller} (intact : s.Intact) (effect : Effect s s')
    (attended : s.Attended) : s'.Attended := by
  rintro j ⟨fd, there⟩
  cases effect with
  | quiet http timed stays =>
      rw [http] at there
      exact (attended j ⟨fd, there⟩).imp (stays j) (timed j).mpr
  | read c http lost kept before after =>
      rw [http] at there
      by_cases same : j = c
      · exact .inl (same ▸ after)
      · exact .inr (kept j same ((attended j ⟨fd, there⟩).resolve_left (before j)))
  | attach c http timed only turn =>
      rw [http] at there
      refine .inr ((timed j).mpr ?_)
      exact (attended j ⟨fd, there⟩).symm.imp_right (only j)
  | close c http timed only registered known =>
      obtain ⟨there, apart⟩ := (http fd j).mp there
      have other : j ≠ c := by
        rintro rfl
        exact apart (intact.place fd j there).1.symm
      refine .inr ((timed j).mpr ⟨?_, other⟩)
      exact (attended j ⟨fd, there⟩).resolve_left fun here => other (only j here)
  | add c http timed only absent =>
      refine .inr ((timed j).mpr ?_)
      rcases (http fd j).mp there with ⟨-, rfl⟩ | there
      · exact .inr rfl
      · exact .inl ((attended j ⟨fd, there⟩).resolve_left (only j))

theorem Effect.abandoned {s' : Poller} (effect : Effect s s')
    (abandoned : s.Abandoned c) :
    s'.fd2http (s.fdOf c) = some c ∧ ¬ s'.Timed c := by
  obtain ⟨registered, untimed, gone⟩ := abandoned
  cases effect with
  | quiet http timed stays => exact ⟨http ▸ registered, fun timed' => untimed ((timed c).mp timed')⟩
  | read _ http lost kept before after =>
      exact ⟨http ▸ registered, fun timed' => untimed (lost c timed')⟩
  | attach j http timed only turn =>
      refine ⟨http ▸ registered, fun timed' => ?_⟩
      rcases (timed c).mp timed' with before | rfl
      · exact untimed before
      · exact gone turn
  | close j http timed only there known =>
      have other : c ≠ j := by
        rintro rfl
        exact known.elim gone untimed
      refine ⟨(http _ c).mpr ⟨registered, fun same => other ?_⟩, fun timed' => ?_⟩
      · rw [same, there] at registered
        exact (Option.some.inj registered).symm
      · exact untimed ((timed c).mp timed').1
  | add j http timed only absent =>
      refine ⟨(http _ c).mpr (.inr registered), fun timed' => ?_⟩
      rcases (timed c).mp timed' with before | rfl
      · exact untimed before
      · exact nomatch absent.symm.trans registered

/-- `handleConn` leaves a draining connection alone. -/
theorem Leaves.abandoned {s' : Poller} (intact : s'.Intact) (leaves : Leaves s s' c) :
    s'.Abandoned c := by
  refine ⟨intact.registered.mp ⟨s.fdOf c, leaves.http ▸ leaves.registered⟩, fun timed => ?_,
    leaves.gone⟩
  exact ((leaves.timed c).mp timed).2 rfl

theorem Stepped.abandoned {action : PollerStep} {s' : Poller} (stepped : Stepped s action s')
    (inside : s.pc ≠ .polling) (abandoned : s.Abandoned c) : s'.Abandoned c := by
  have gone : c ∉ s'.turns := fun member => abandoned.gone (stepped.turns inside c member)
  rcases stepped.effect with ⟨-, effect⟩ | ⟨-, j, leaves⟩
  · obtain ⟨registered, untimed⟩ := effect.abandoned abandoned
    exact ⟨stepped.intact.registered.mp ⟨_, registered⟩, untimed, gone⟩
  · refine ⟨stepped.intact.registered.mp ⟨s.fdOf c, leaves.http ▸ abandoned.registered⟩, ?_, gone⟩
    exact fun timed => abandoned.untimed ((leaves.timed c).mp timed).1

theorem intact_init : poller.init.Intact where
  distinct := List.nodup_nil
  fresh _ member := nomatch member
  cleared _ member := nomatch member
  linked _ member := nomatch member
  owned _ member := nomatch member
  bounded _ _ points := nomatch points
  held _ member := nomatch member
  same := rfl
  place _ _ there := nomatch there
  turn _ member := nomatch member
  once := List.nodup_nil
  absent _ member := nomatch member
  apart := List.nodup_nil

/-- One timer for each connection means that none is without one, between the iterations. -/
theorem oneTimer_iff (intact : s.Intact) : s.OneTimer ↔ ∀ j, s.Registered j → s.Timed j := by
  have holds : ∀ j, ∀ node ∈ s.timerNodeQueue, Holds j node = true ↔ node.holds = some j := by
    intro j node member
    rw [Holds, intact.cleared node member]
    cases node.holds <;> simp
  constructor
  · intro one j registered
    have length := one.registered j registered
    obtain ⟨node, filtered⟩ := List.exists_mem_of_length_pos (length ▸ Nat.one_pos)
    obtain ⟨member, held⟩ := List.mem_filter.mp filtered
    exact ⟨node, member, (holds j node member).mp held⟩
  · intro timed
    refine ⟨fun j registered => ?_, fun j absent => List.filter_eq_nil_iff.mpr ?_⟩
    · obtain ⟨node, member, held⟩ := timed j registered
      refine List.length_eq_one_iff.mpr ⟨node, List.perm_singleton.mp ?_⟩
      refine (List.perm_ext_iff_of_nodup (intact.distinct.of_map.filter _)
        (List.nodup_singleton node)).mpr fun other => ?_
      rw [List.mem_filter, List.mem_singleton]
      constructor
      · rintro ⟨inside, found⟩
        exact intact.unique inside member ((holds j other inside).mp found) held
      · rintro rfl
        exact ⟨member, (holds j other member).mpr held⟩
    · intro node member held
      exact absent ⟨_, intact.held node member j ((holds j node member).mp held)⟩

/-- In a run of whole iterations, every connection has its timer after each of them if and only
    if `handleConn` never finds a connection draining. -/
theorem one_timer (steps : List PollerStep) (s : Poller)
    (ran : poller.run poller.init steps = some s) (between : s.pc = .polling) :
    (∀ v ∈ poller.visited poller.init steps, v.pc = .polling → v.OneTimer) ↔
      poller.Guarded Clear poller.init steps := by
  constructor
  · intro timed
    refine Machine.guarded_of_checked (K := (·.pc = .polling)) (I := Intact)
      (P := fun v => ∃ c, v.Abandoned c) (fun v action v' intact taken =>
      (stepped intact taken).intact) ?_ ?_ intact_init ran between ?_
    · rintro v action v' intact inside ⟨c, abandoned⟩ taken
      exact ⟨c, (stepped intact taken).abandoned inside abandoned⟩
    · intro v action v' intact missed taken
      obtain ⟨clear, -⟩ | ⟨-, c, leaves⟩ := (stepped intact taken).effect
      · exact absurd clear missed
      · exact ⟨c, leaves.abandoned (stepped intact taken).intact⟩
    · rintro v member atPoll intact ⟨c, abandoned⟩
      have one := (oneTimer_iff intact).mp (timed v member atPoll)
      exact abandoned.untimed (one c ⟨_, abandoned.registered⟩)
  · intro guarded v member atPoll
    have kept : v.Intact ∧ v.Attended := by
      refine guarded.visits (I := fun u => u.Intact ∧ u.Attended) ?_
        ⟨intact_init, fun j ⟨fd, there⟩ => nomatch there⟩ v member
      rintro u action u' ⟨intact, attended⟩ clear taken
      refine ⟨(stepped intact taken).intact, ?_⟩
      obtain ⟨-, effect⟩ | ⟨missed, -⟩ := (stepped intact taken).effect
      · exact effect.attended intact attended
      · exact absurd clear missed
    refine (oneTimer_iff kept.1).mpr fun j registered => ?_
    refine (kept.2 j registered).resolve_left ?_
    rintro ⟨ret, here⟩
    exact nomatch atPoll.symm.trans here

/-- An iteration in which a connection is added. -/
def arrival : List PollerStep :=
  [.accept 7, .poll [], .call 0, .call 0, .call 0, .expire 0 0]

/-- An iteration in which a request is read, and these writes succeed. -/
def serving (reads : List ReadResult) (writes : List WriteResult) : List PollerStep :=
  [.poll [(7, { epollin := true })], .handle noFiles reads writes, .conclude 1, .call 1, .call 1,
    .expire 0 1]

/-- A connection is added, and a request on it is answered. -/
def answered : List PollerStep := arrival ++ serving [.data getHello] [] ++ [.expire 0 1]

theorem one_timer_answered : ∃ s, poller.run poller.init answered = some s ∧ s.pc = .polling ∧
    s.Registered 0 ∧ ∀ v ∈ poller.visited poller.init answered, v.pc = .polling → v.OneTimer := by
  have ran : (poller.run poller.init answered).any
      (fun s => s.pc = .polling ∧ s.fd2http 7 = some 0) := by decide +kernel
  obtain ⟨s, ran, final⟩ := (Option.any_eq_true _ _).mp ran
  obtain ⟨between, registered⟩ := of_decide_eq_true final
  have clear : poller.Guarded Clear poller.init answered := by decide +kernel
  exact ⟨s, ran, between, ⟨7, registered⟩, (one_timer answered s ran between).mpr clear⟩

/-- A peer that asks, sends no more and reads only the beginning of the reply. -/
theorem one_timer_fails : ¬ ∀ (steps : List PollerStep) (s : Poller),
    poller.run poller.init steps = some s → s.pc = .polling → s.OneTimer := by
  intro claim
  have ran : (poller.run poller.init
      (arrival ++ serving [.data getHello, .data []] [.accepted 10, .again] ++ [.expire 0 1])).any
      (fun s => s.pc = .polling ∧ s.fd2http 7 = some 0 ∧ s.timerNodeQueue = []) := by
    decide +kernel
  obtain ⟨s, ran, final⟩ := (Option.any_eq_true _ _).mp ran
  obtain ⟨between, registered, empty⟩ := of_decide_eq_true final
  have length := (claim _ s ran between).registered 0 ⟨7, registered⟩
  rw [empty] at length
  cases length

end Poller

end Corio.Epoll
