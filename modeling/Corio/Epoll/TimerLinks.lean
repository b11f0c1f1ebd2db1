import Corio.Epoll.Progress
import Corio.Epoll.Timers
import Mathlib.Data.List.Nodup

/-! # Connections and the nodes that hold them

Every node that is not deleted holds the connection whose `timer_` points to it, and
`fd2http_` has that connection. Each operation keeps this.
-/

namespace Corio.Epoll

namespace Poller

/-- `fd2http_` has the connection. -/
def Registered (s : Poller) (c : Nat) : Prop := ∃ fd, s.fd2http fd = some c

/-- Some node holds the connection. -/
def Timed (s : Poller) (c : Nat) : Prop := ∃ node ∈ s.timerNodeQueue, node.holds = some c

/-- The connections whose events are still to be handled. -/
def turns (s : Poller) : List Nat :=
  match s.pc with
  | .handling ret => ret.map Prod.fst
  | .concluding c ret => c :: ret.map Prod.fst
  | _ => []

/-- The connections that are still to be added. -/
def coming (s : Poller) : List Nat := s.functors ++ s.pendingFunctors

def fdOf (s : Poller) (c : Nat) : Nat := (s.heap c).fd

/-- Who holds and knows whom, with these connections to handle and to add. -/
structure Sound (s : Poller) (turns coming : List Nat) : Prop where
  distinct : (s.timerNodeQueue.map TimerNode.address).Nodup
  fresh : ∀ node ∈ s.timerNodeQueue, node.address < s.nodes
  cleared : ∀ node ∈ s.timerNodeQueue, node.deleted = node.holds.isNone
  linked : ∀ node ∈ s.timerNodeQueue, ∀ c, node.holds = some c →
    (s.heap c).timer = some node.address
  owned : ∀ node ∈ s.timerNodeQueue, ∀ c j, (s.heap c).timer = some node.address →
    node.holds = some j → j = c
  bounded : ∀ c address, (s.heap c).timer = some address → address < s.nodes
  held : ∀ node ∈ s.timerNodeQueue, ∀ c, node.holds = some c → s.fd2http (s.fdOf c) = some c
  same : s.fd2chan = s.fd2http
  place : ∀ fd c, s.fd2http fd = some c → s.fdOf c = fd ∧ c < s.made
  turn : ∀ c ∈ turns, s.fd2http (s.fdOf c) = some c
  once : turns.Nodup
  absent : ∀ c ∈ coming, s.fd2http (s.fdOf c) = none ∧ c < s.made
  apart : (coming.map s.fdOf).Nodup

variable {s : Poller} {c : Nat} {turns coming : List Nat}

theorem fdOf_set {c : Nat} {connection : Connection} (fd : connection.fd = s.fdOf c) :
    (s.set c connection).fdOf = s.fdOf := by
  funext j
  by_cases same : j = c
  · simp only [fdOf, set, same, Function.update_self, fd]
  · simp only [fdOf, set, Function.update_of_ne same]

theorem lockTimer_eq_some {c address : Nat} :
    s.lockTimer c = some address ↔
      (s.heap c).timer = some address ∧ ∃ node ∈ s.timerNodeQueue, node.address = address := by
  simp only [lockTimer, Option.filter_eq_some_iff, List.any_eq_true, beq_iff_eq]

/-- What `clear` leaves of the nodes that hold something. -/
theorem mem_clear {address c : Nat} {node : TimerNode} (holds : node.holds = some c) :
    node ∈ (s.clear address).timerNodeQueue ↔
      node ∈ s.timerNodeQueue ∧ node.address ≠ address := by
  simp only [clear, List.mem_map]
  constructor
  · rintro ⟨before, member, rfl⟩
    split at holds
    · cases holds
    · rename_i apart
      exact ⟨by rwa [if_neg apart], by rwa [if_neg apart]⟩
  · rintro ⟨member, apart⟩
    exact ⟨node, member, if_neg apart⟩

theorem address_clear (address : Nat) :
    (s.clear address).timerNodeQueue.map TimerNode.address =
      s.timerNodeQueue.map TimerNode.address := by
  simp only [clear, List.map_map]
  refine List.map_congr_left fun node _ => ?_
  simp only [Function.comp_apply]
  split <;> rfl

theorem timed_addTimer (c timeout now j : Nat) :
    (s.addTimer c timeout now).Timed j ↔ s.Timed j ∨ j = c := by
  simp only [Timed, Poller.addTimer, Poller.set, List.mem_append, List.mem_singleton]
  constructor
  · rintro ⟨node, there | rfl, holds⟩
    · exact .inl ⟨node, there, holds⟩
    · exact .inr (Option.some.inj holds).symm
  · rintro (⟨node, there, holds⟩ | rfl)
    · exact ⟨node, .inl there, holds⟩
    · exact ⟨_, .inr rfl, rfl⟩

namespace Sound

/-- A change of a connection that keeps its descriptor and its timer. -/
theorem set (sound : Sound s turns coming) {c : Nat} {connection : Connection}
    (fd : connection.fd = s.fdOf c) (timer : connection.timer = (s.heap c).timer) :
    Sound (s.set c connection) turns coming := by
  have fds : (s.set c connection).fdOf = s.fdOf := fdOf_set fd
  have timers : ∀ j, ((s.set c connection).heap j).timer = (s.heap j).timer := fun j => by
    by_cases same : j = c
    · simp only [Poller.set, same, Function.update_self, timer]
    · simp only [Poller.set, Function.update_of_ne same]
  refine { sound with
    linked := fun node member j holds => ?_
    owned := fun node member j k points => ?_
    bounded := fun j address points => ?_
    held := ?_, place := ?_, turn := ?_, absent := ?_, apart := ?_ }
  · rw [timers]
    exact sound.linked node member j holds
  · rw [timers] at points
    exact sound.owned node member j k points
  · rw [timers] at points
    exact sound.bounded j address points
  · rw [fds]
    exact sound.held
  · rw [fds]
    exact sound.place
  · rw [fds]
    exact sound.turn
  · rw [fds]
    exact sound.absent
  · rw [fds]
    exact sound.apart

theorem setData (sound : Sound s turns coming) (c : Nat) (data : HttpData) (oneshot : Bool) :
    Sound (s.setData c data oneshot) turns coming := sound.set rfl rfl

theorem updateLastEvents (sound : Sound s turns coming) (c : Nat) :
    Sound (s.updateLastEvents c) turns coming := sound.set rfl rfl

/-- Two nodes do not hold the same connection. -/
theorem unique (sound : Sound s turns coming) {first second : TimerNode} {c : Nat}
    (one : first ∈ s.timerNodeQueue) (two : second ∈ s.timerNodeQueue)
    (holds : first.holds = some c) (holds' : second.holds = some c) : first = second := by
  refine List.inj_on_of_nodup_map sound.distinct one two ?_
  have same := sound.linked first one c holds
  rw [sound.linked second two c holds'] at same
  exact (Option.some.inj same).symm

/-- A connection whose pointer finds no node is held by none. -/
theorem not_timed (sound : Sound s turns coming) {c : Nat} (unlocked : s.lockTimer c = none) :
    ¬ s.Timed c := by
  rintro ⟨node, member, holds⟩
  have locked := lockTimer_eq_some.mpr ⟨sound.linked node member c holds, node, member, rfl⟩
  rw [unlocked] at locked
  cases locked

theorem detach (sound : Sound s turns coming) {c address : Nat}
    (points : (s.heap c).timer = some address) :
    Sound ((s.clear address).set c { s.heap c with timer := none }) turns coming := by
  have fds : ((s.clear address).set c { s.heap c with timer := none }).fdOf = s.fdOf :=
    fdOf_set (s := s.clear address) rfl
  have timers : ∀ j a, (((s.clear address).set c { s.heap c with timer := none }).heap j).timer =
      some a ↔ j ≠ c ∧ (s.heap j).timer = some a := fun j a => by
    by_cases same : j = c
    · simp [Poller.set, same]
    · simp [Poller.set, clear, same]
  have kept : ∀ node ∈ (s.clear address).timerNodeQueue, ∀ j, node.holds = some j →
      node ∈ s.timerNodeQueue ∧ node.address ≠ address := fun node member j holds =>
    (mem_clear holds).mp member
  refine ⟨?_, fun node member => ?_, fun node member => ?_, fun node member j holds => ?_,
    fun node member j k found holds => ?_, fun j a found => ?_, fun node member j holds => ?_,
    sound.same, ?_, ?_, sound.once, ?_, ?_⟩
  · exact (address_clear address).symm ▸ sound.distinct
  · have inside : node.address ∈ (s.clear address).timerNodeQueue.map TimerNode.address :=
      List.mem_map_of_mem member
    rw [address_clear] at inside
    obtain ⟨before, there, same⟩ := List.mem_map.mp inside
    exact same ▸ sound.fresh before there
  · obtain ⟨before, there, rfl⟩ := List.mem_map.mp member
    split
    · rfl
    · exact sound.cleared before there
  · obtain ⟨there, apart⟩ := kept node member j holds
    have found := sound.linked node there j holds
    refine (timers j node.address).mpr ⟨?_, found⟩
    rintro rfl
    rw [points] at found
    exact apart (Option.some.inj found).symm
  · obtain ⟨there, -⟩ := kept node member k holds
    exact sound.owned node there j k ((timers j node.address).mp found).2 holds
  · exact sound.bounded j a ((timers j a).mp found).2
  · rw [fds]
    exact sound.held node (kept node member j holds).1 j holds
  · rw [fds]
    exact sound.place
  · rw [fds]
    exact sound.turn
  · rw [fds]
    exact sound.absent
  · rw [fds]
    exact sound.apart

theorem seperateTimer (sound : Sound s turns coming) (c : Nat) :
    Sound (s.seperateTimer c) turns coming ∧
      ∀ j, (s.seperateTimer c).Timed j ↔ s.Timed j ∧ j ≠ c := by
  cases locked : s.lockTimer c with
  | none =>
      have same : s.seperateTimer c = s := by simp only [Poller.seperateTimer, locked]
      have free := sound.not_timed locked
      rw [same]
      refine ⟨sound, fun j => ⟨fun timed => ⟨timed, ?_⟩, And.left⟩⟩
      rintro rfl
      exact free timed
  | some address =>
      obtain ⟨points, -⟩ := lockTimer_eq_some.mp locked
      have same : s.seperateTimer c =
          (s.clear address).set c { s.heap c with timer := none } := by
        simp only [Poller.seperateTimer, locked]
      rw [same]
      refine ⟨sound.detach points, fun j => ⟨?_, ?_⟩⟩
      · rintro ⟨node, member, holds⟩
        obtain ⟨there, apart⟩ := (mem_clear holds).mp member
        refine ⟨⟨node, there, holds⟩, ?_⟩
        rintro rfl
        have found := sound.linked node there j holds
        rw [points] at found
        exact apart (Option.some.inj found).symm
      · rintro ⟨⟨node, there, holds⟩, other⟩
        refine ⟨node, (mem_clear holds).mpr ⟨there, ?_⟩, holds⟩
        rintro rfl
        exact other (sound.owned node there c j points holds)

/-- A connection less to handle. -/
theorem tail (sound : Sound s (c :: turns) coming) : Sound s turns coming :=
  { sound with
    turn := fun j member => sound.turn j (List.mem_cons_of_mem _ member)
    once := (List.nodup_cons.mp sound.once).2 }

/-- A node for a connection that has none. -/
theorem addTimer (sound : Sound s turns coming) {c : Nat} (timeout now : Nat)
    (registered : s.fd2http (s.fdOf c) = some c) (free : ¬ s.Timed c) :
    Sound (s.addTimer c timeout now) turns coming := by
  have fds : (s.addTimer c timeout now).fdOf = s.fdOf :=
    show (s.set c { s.heap c with timer := some s.nodes }).fdOf = s.fdOf from fdOf_set rfl
  have timers : ∀ j, j ≠ c → ((s.addTimer c timeout now).heap j).timer = (s.heap j).timer :=
    fun j apart => by simp only [Poller.addTimer, Poller.set, Function.update_of_ne apart]
  have own : ((s.addTimer c timeout now).heap c).timer = some s.nodes := by
    simp only [Poller.addTimer, Poller.set, Function.update_self]
  have split : ∀ node ∈ (s.addTimer c timeout now).timerNodeQueue,
      node ∈ s.timerNodeQueue ∨ node = ⟨s.nodes, false, now + timeout, some c⟩ := fun node member =>
    (List.mem_append.mp member).imp_right List.mem_singleton.mp
  have others : ∀ node ∈ s.timerNodeQueue, ∀ j, node.holds = some j → j ≠ c := by
    rintro node member j holds rfl
    exact free ⟨node, member, holds⟩
  refine ⟨?_, fun node member => ?_, fun node member => ?_, fun node member j holds => ?_,
    fun node member j k found holds => ?_, fun j a found => ?_, fun node member j holds => ?_,
    sound.same, ?_, ?_, sound.once, ?_, ?_⟩
  · have apart : s.nodes ∉ s.timerNodeQueue.map TimerNode.address := fun member => by
      obtain ⟨node, there, same⟩ := List.mem_map.mp member
      exact Nat.lt_irrefl _ (same ▸ sound.fresh node there)
    simp only [Poller.addTimer, Poller.set, List.map_append, List.map_singleton]
    exact sound.distinct.append (List.nodup_singleton _) (by simpa using apart)
  · rcases split node member with there | rfl
    · exact Nat.lt_succ_of_lt (sound.fresh node there)
    · exact Nat.lt_succ_self _
  · rcases split node member with there | rfl
    · exact sound.cleared node there
    · rfl
  · rcases split node member with there | rfl
    · exact (timers j (others node there j holds)).trans (sound.linked node there j holds)
    · obtain rfl := Option.some.inj holds
      exact own
  · rcases split node member with there | rfl
    · by_cases same : j = c
      · subst same
        rw [own] at found
        exact absurd (Option.some.inj found) (Nat.ne_of_gt (sound.fresh node there))
      · rw [timers j same] at found
        exact sound.owned node there j k found holds
    · obtain rfl := Option.some.inj holds
      by_contra apart
      rw [timers j (Ne.symm apart)] at found
      exact Nat.lt_irrefl _ (sound.bounded j _ found)
  · by_cases same : j = c
    · subst same
      rw [own] at found
      exact Option.some.inj found ▸ Nat.lt_succ_self _
    · rw [timers j same] at found
      exact Nat.lt_succ_of_lt (sound.bounded j a found)
  · rw [fds]
    rcases split node member with there | rfl
    · exact sound.held node there j holds
    · obtain rfl := Option.some.inj holds
      exact registered
  · rw [fds]
    exact sound.place
  · rw [fds]
    exact sound.turn
  · rw [fds]
    exact sound.absent
  · rw [fds]
    exact sound.apart

/-- A connection that no node holds is taken out. -/
theorem epollDel (sound : Sound s (c :: turns) coming) (free : ¬ s.Timed c) :
    Sound (s.epollDel c) turns coming := by
  have here := sound.turn c List.mem_cons_self
  obtain ⟨absent, once⟩ := List.nodup_cons.mp sound.once
  have kept : ∀ fd j, j ≠ c → s.fd2http fd = some j → (s.epollDel c).fd2http fd = some j := by
    intro fd j apart there
    refine (Function.update_of_ne ?_ _ _).trans there
    rintro rfl
    exact apart (Option.some.inj (there.symm.trans here))
  have before : ∀ fd j, (s.epollDel c).fd2http fd = some j → s.fd2http fd = some j := by
    intro fd j there
    by_cases same : fd = (s.heap c).fd
    · simp only [Poller.epollDel, same, Function.update_self, reduceCtorEq] at there
    · exact (Function.update_of_ne same _ _).symm.trans there
  refine { sound with
    held := fun node member j holds => kept _ j ?_ (sound.held node member j holds)
    same := ?_
    place := fun fd j there => sound.place fd j (before fd j there)
    turn := fun j member => kept _ j ?_ (sound.turn j (List.mem_cons_of_mem _ member))
    once := once
    absent := fun j member => ⟨?_, (sound.absent j member).2⟩ }
  · rintro rfl
    exact free ⟨node, member, holds⟩
  · exact congrArg (Function.update · (s.heap c).fd none) sound.same
  · rintro rfl
    exact absent member
  · by_cases same : (s.epollDel c).fdOf j = (s.heap c).fd
    · rw [same]
      exact Function.update_self _ _ _
    · exact (Function.update_of_ne same _ _).trans (sound.absent j member).1

/-- A node that is popped is gone. -/
theorem pop (sound : Sound s turns coming) (k : Nat) : Sound (s.pop k) turns coming := by
  have sub : ∀ node ∈ (s.pop k).timerNodeQueue, node ∈ s.timerNodeQueue := fun node member =>
    List.mem_of_mem_eraseIdx member
  exact { sound with
    distinct := by
      have sublist := (List.eraseIdx_sublist s.timerNodeQueue k).map TimerNode.address
      exact sound.distinct.sublist sublist
    fresh := fun node member => sound.fresh node (sub node member)
    cleared := fun node member => sound.cleared node (sub node member)
    linked := fun node member => sound.linked node (sub node member)
    owned := fun node member => sound.owned node (sub node member)
    held := fun node member => sound.held node (sub node member) }

/-- The node that is popped was the only one of its connection. -/
theorem timed_pop (sound : Sound s turns coming) {k : Nat} {node : TimerNode}
    (there : s.timerNodeQueue[k]? = some node) (j : Nat) :
    (s.pop k).Timed j ↔ s.Timed j ∧ node.holds ≠ some j := by
  have nodup : s.timerNodeQueue.Nodup := sound.distinct.of_map _
  have mem : ∀ other, other ∈ (s.pop k).timerNodeQueue ↔
      other ∈ s.timerNodeQueue ∧ other ≠ node := fun other => by
    obtain ⟨inside, rfl⟩ := List.getElem?_eq_some_iff.mp there
    rw [Poller.pop, ← List.Nodup.erase_getElem nodup, nodup.mem_erase_iff, and_comm]
  constructor
  · rintro ⟨other, member, holds⟩
    obtain ⟨before, apart⟩ := (mem other).mp member
    refine ⟨⟨other, before, holds⟩, fun same => apart ?_⟩
    exact sound.unique before (List.mem_of_getElem? there) holds same
  · rintro ⟨⟨other, before, holds⟩, apart⟩
    refine ⟨other, (mem other).mpr ⟨before, ?_⟩, holds⟩
    rintro rfl
    exact apart holds

end Sound

/-- Whom `fd2http_` has, of these connections. -/
theorem epollDel_fd2http {fd j : Nat} :
    (s.epollDel c).fd2http fd = some j ↔ s.fd2http fd = some j ∧ fd ≠ s.fdOf c := by
  by_cases same : fd = s.fdOf c
  · subst same
    simp [epollDel, fdOf]
  · have kept : (s.epollDel c).fd2http fd = s.fd2http fd := Function.update_of_ne same _ _
    simp only [kept, same, ne_eq, not_false_eq_true, and_true]

/-- `seperateTimer` changes the node and the pointer to it. -/
theorem seperateTimer_frame (s : Poller) (c : Nat) :
    (s.seperateTimer c).fd2http = s.fd2http ∧ (s.seperateTimer c).fdOf = s.fdOf ∧
      (s.seperateTimer c).pendingFunctors = s.pendingFunctors ∧ (s.seperateTimer c).pc = s.pc ∧
      ((s.seperateTimer c).heap c).data = (s.heap c).data := by
  unfold seperateTimer
  split
  · exact ⟨rfl, rfl, rfl, rfl, rfl⟩
  · refine ⟨rfl, fdOf_set (s := s.clear _) rfl, rfl, rfl, ?_⟩
    simp only [set, Function.update_self]

theorem connTimeout_pos (d : HttpData) : 0 < connTimeout d := by
  unfold connTimeout
  split
  · decide
  · split <;> decide

/-- `handleConn` gives the connection a timer, leaves it without one or closes it. -/
theorem conclude_cases (sound : Sound s (c :: turns) coming) (now : Nat) :
    Sound (s.conclude c now) turns coming ∧
      (s.conclude c now).pendingFunctors = s.pendingFunctors ∧
      (¬ Draining (s.heap c).data ∧ (s.conclude c now).fd2http = s.fd2http ∧
          (∀ j, (s.conclude c now).Timed j ↔ s.Timed j ∨ j = c) ∨
        Draining (s.heap c).data ∧ (s.conclude c now).fd2http = s.fd2http ∧
          (∀ j, (s.conclude c now).Timed j ↔ s.Timed j ∧ j ≠ c) ∨
        ¬ Draining (s.heap c).data ∧
          (∀ fd j, (s.conclude c now).fd2http fd = some j ↔
            s.fd2http fd = some j ∧ fd ≠ s.fdOf c) ∧
          ∀ j, (s.conclude c now).Timed j ↔ s.Timed j ∧ j ≠ c) := by
  obtain ⟨http, fds, pending, -, data⟩ := s.seperateTimer_frame c
  obtain ⟨sound, timed⟩ := sound.seperateTimer c
  simp only [conclude]
  rw [← http, ← fds, ← pending, ← data]
  generalize s.seperateTimer c = t at *
  have set := sound.setData c (handleConn (t.heap c).data) (t.heap c).oneshot
  have free : ¬ t.Timed c := fun again => ((timed c).mp again).2 rfl
  by_cases connected : (t.heap c).data.error = false ∧ (t.heap c).data.connectionState = .connected
  · have notDraining : ¬ Draining (t.heap c).data := fun draining => by
      rw [draining.2.1] at connected
      cases connected.2
    have fds : (t.setData c (handleConn (t.heap c).data) (t.heap c).oneshot).fdOf = t.fdOf :=
      fdOf_set rfl
    have added := set.addTimer (connTimeout (t.heap c).data) now
      (set.turn c List.mem_cons_self) free
    rw [if_pos connected, epollMod, if_pos (connTimeout_pos _)]
    refine ⟨(added.updateLastEvents c).tail, rfl, .inl ⟨notDraining, rfl, fun j => ?_⟩⟩
    refine (timed_addTimer (s := t.setData c _ _) c _ now j).trans ?_
    exact or_congr_left' fun apart => (timed j).trans (and_iff_left apart)
  · rw [if_neg connected]
    by_cases draining : Draining (t.heap c).data
    · rw [if_pos draining]
      exact ⟨set.tail, rfl, .inr (.inl ⟨draining, rfl, timed⟩)⟩
    · rw [if_neg draining]
      refine ⟨set.epollDel free, rfl, .inr (.inr ⟨draining, fun fd j => ?_, timed⟩)⟩
      have fds : (t.setData c (handleConn (t.heap c).data) (t.heap c).oneshot).fdOf = t.fdOf :=
        fdOf_set rfl
      rw [epollDel_fd2http, fds]
      exact Iff.rfl

/-- `epoll_add` up to its epoll_ctl. -/
def register (s : Poller) (c : Nat) : Poller :=
  { s with fd2chan := Function.update s.fd2chan (s.heap c).fd (some c)
           fd2http := Function.update s.fd2http (s.heap c).fd (some c) }

theorem epollAdd_eq {timeout : Nat} (positive : 0 < timeout) (now : Nat) :
    s.epollAdd c timeout now = ((s.register c).addTimer c timeout now).updateLastEvents c := by
  simp [epollAdd, positive, register, addTimer, updateLastEvents, set]

theorem Sound.register (sound : Sound s turns (c :: coming)) :
    Sound (s.register c) turns coming := by
  obtain ⟨none, made⟩ := sound.absent c List.mem_cons_self
  have apart := sound.apart
  rw [List.map_cons, List.nodup_cons] at apart
  have kept : ∀ fd j, s.fd2http fd = some j → (s.register c).fd2http fd = some j := by
    intro fd j there
    refine (Function.update_of_ne ?_ _ _).trans there
    rintro rfl
    exact nomatch none.symm.trans there
  refine { sound with
    held := fun node member j holds => kept _ j (sound.held node member j holds)
    same := by
      show Function.update s.fd2chan _ _ = Function.update s.fd2http _ _
      rw [sound.same]
    place := fun fd j there => ?_
    turn := fun j member => kept _ j (sound.turn j member)
    absent := fun j member => ⟨?_, (sound.absent j (List.mem_cons_of_mem _ member)).2⟩
    apart := apart.2 }
  · by_cases same : fd = (s.heap c).fd
    · simp only [Poller.register, same, Function.update_self, Option.some.injEq] at there
      subst there
      exact ⟨same.symm, made⟩
    · exact sound.place fd j ((Function.update_of_ne same _ _).symm.trans there)
  · refine (Function.update_of_ne ?_ _ _).trans (sound.absent j (List.mem_cons_of_mem _ member)).1
    intro same
    exact apart.1 (List.mem_map.mpr ⟨j, member, same⟩)

/-- A connection that is not in `fd2http_` is held by no node. -/
theorem Sound.not_timed_of_absent (sound : Sound s turns coming)
    (absent : s.fd2http (s.fdOf c) = none) : ¬ s.Timed c := by
  rintro ⟨node, member, holds⟩
  exact nomatch absent.symm.trans (sound.held node member c holds)

theorem newEvent_cases (sound : Sound s turns (c :: coming)) (now : Nat) :
    Sound (s.newEvent c now) turns coming ∧
      (s.newEvent c now).pendingFunctors = s.pendingFunctors ∧
      (∀ fd j, (s.newEvent c now).fd2http fd = some j ↔
        fd = s.fdOf c ∧ j = c ∨ s.fd2http fd = some j) ∧
      ∀ j, (s.newEvent c now).Timed j ↔ s.Timed j ∨ j = c := by
  have absent := (sound.absent c List.mem_cons_self).1
  have free : ¬ s.Timed c := sound.not_timed_of_absent absent
  rw [newEvent]
  have set := sound.setData c
    { (s.heap c).data with events := { epollin := true, epollet := true } } true
  have fds : (s.setData c
      { (s.heap c).data with events := { epollin := true, epollet := true } } true).fdOf =
      s.fdOf := fdOf_set rfl
  rw [← fds] at absent
  rw [← fds]
  have same : s.fd2http = (s.setData c
    { (s.heap c).data with events := { epollin := true, epollet := true } } true).fd2http := rfl
  have sameTimed : ∀ j, s.Timed j ↔ (s.setData c
    { (s.heap c).data with events := { epollin := true, epollet := true } } true).Timed j :=
    fun j => Iff.rfl
  have samePending : s.pendingFunctors = (s.setData c { (s.heap c).data with
    events := { epollin := true, epollet := true } } true).pendingFunctors := rfl
  simp only [same, sameTimed, samePending]
  generalize s.setData c _ true = t at *
  rw [epollAdd_eq (by decide)]
  have registered : (t.register c).fd2http ((t.register c).fdOf c) = some c :=
    Function.update_self _ _ _
  refine ⟨(set.register.addTimer _ now registered ?_).updateLastEvents c, rfl, fun fd j => ?_,
    fun j => timed_addTimer (s := t.register c) c _ now j⟩
  · exact fun timed => free ((sameTimed c).mpr timed)
  · show (t.register c).fd2http fd = some j ↔ _
    by_cases here : fd = t.fdOf c
    · subst here
      have found : (t.register c).fd2http (t.fdOf c) = some c := registered
      rw [same] at absent
      simp only [found, absent, Option.some.injEq, true_and, reduceCtorEq, or_false, eq_comm]
    · have kept : (t.register c).fd2http fd = t.fd2http fd := Function.update_of_ne here _ _
      simp only [kept, here, false_and, false_or]

/-- A new connection is not known to anything but the loop's functors. -/
theorem accept_cases (sound : Sound s turns coming) (alive : ∀ c ∈ coming, s.Alive c) {fd : Nat}
    {s' : Poller} (accepted : s.accept fd = some s') :
    Sound s' turns (coming ++ [s.made]) ∧ s'.pendingFunctors = s.pendingFunctors ++ [s.made] ∧
      s'.pc = s.pc ∧ s'.fd2http = s.fd2http ∧ s'.timerNodeQueue = s.timerNodeQueue := by
  unfold accept at accepted
  split at accepted
  · cases accepted
  · rename_i free
    obtain rfl := Option.some.inj accepted
    refine ⟨?_, rfl, rfl, rfl, rfl⟩
    generalize made : ({ fd := fd, data := {}, oneshot := false, lastEvents := ⟨{}, false⟩
                         timer := none } : Connection) = connection
    have old : ∀ c, c < s.made → (s.set s.made connection).heap c = s.heap c := fun c before =>
      Function.update_of_ne (Nat.ne_of_lt before) _ _
    have fds : ∀ c, c < s.made → (s.set s.made connection).fdOf c = s.fdOf c := fun c before =>
      congrArg Connection.fd (old c before)
    have own : (s.set s.made connection).heap s.made = connection := Function.update_self _ _ _
    have known : ∀ c address, ((s.set s.made connection).heap c).timer = some address →
        (s.heap c).timer = some address := fun c address points => by
      by_cases same : c = s.made
      · rw [same, own, ← made] at points
        cases points
      · exact (congrArg Connection.timer (Function.update_of_ne same _ _)).symm.trans points
    have bound : ∀ node ∈ s.timerNodeQueue, ∀ c, node.holds = some c → c < s.made :=
      fun node member c holds => (sound.place _ c (sound.held node member c holds)).2
    refine { sound with
      linked := fun node member c holds => ?_
      owned := fun node member c j points => sound.owned node member c j (known c _ points)
      bounded := fun c address points => sound.bounded c address (known c _ points)
      held := fun node member c holds => ?_
      place := fun place c there => ?_
      turn := fun c member => ?_
      absent := fun c member => ?_
      apart := ?_ }
    · exact (congrArg Connection.timer (old c (bound node member c holds))).trans
        (sound.linked node member c holds)
    · exact (congrArg s.fd2http (fds c (bound node member c holds))).trans
        (sound.held node member c holds)
    · obtain ⟨there, before⟩ := sound.place place c there
      exact ⟨(fds c before).trans there, Nat.lt_succ_of_lt before⟩
    · have there := sound.turn c member
      exact (congrArg s.fd2http (fds c (sound.place _ c there).2)).trans there
    · rcases List.mem_append.mp member with before | new
      · obtain ⟨absent, bound⟩ := sound.absent c before
        exact ⟨(congrArg s.fd2http (fds c bound)).trans absent, Nat.lt_succ_of_lt bound⟩
      · obtain rfl := List.mem_singleton.mp new
        refine ⟨Option.eq_none_iff_forall_ne_some.mpr fun j there => free ⟨j, ?_⟩,
          Nat.lt_succ_self _⟩
        have place := sound.place _ j there
        refine ⟨place.2, ?_, .inl ((congrArg s.fd2http place.1).trans there)⟩
        exact place.1.trans ((congrArg Connection.fd own).trans (made ▸ rfl))
    · have kept : coming.map (s.set s.made connection).fdOf = coming.map s.fdOf :=
        List.map_congr_left fun c member => fds c (sound.absent c member).2
      show ((coming ++ [s.made]).map (s.set s.made connection).fdOf).Nodup
      rw [List.map_append, kept]
      refine sound.apart.append (List.nodup_singleton _) ?_
      simp only [List.map_singleton, List.disjoint_singleton, List.mem_map, not_exists, not_and]
      intro c member same
      refine free ⟨c, (sound.absent c member).2, ?_, alive c member⟩
      exact same.trans ((congrArg Connection.fd own).trans (made ▸ rfl))

theorem Sound.goto (sound : Sound s turns coming) (pc : IterationPc) :
    Sound (s.goto pc) turns coming := { sound with }

/-- A node's time is up, so its connection is closed. -/
theorem close_cases (sound : Sound s [] coming) {k : Nat} {node : TimerNode}
    (there : s.timerNodeQueue[k]? = some node) (holds : node.holds = some c) :
    Sound ((s.pop k).close c) [] coming ∧
      (∀ fd j, ((s.pop k).close c).fd2http fd = some j ↔
        s.fd2http fd = some j ∧ fd ≠ s.fdOf c) ∧
      ∀ j, ((s.pop k).close c).Timed j ↔ s.Timed j ∧ j ≠ c := by
  have registered := sound.held node (List.mem_of_getElem? there) c holds
  have timed : ∀ j, (s.pop k).Timed j ↔ s.Timed j ∧ j ≠ c := fun j => by
    rw [sound.timed_pop there, holds, ne_eq, Option.some.injEq, ne_eq, eq_comm (a := j)]
  have turn : Sound (s.pop k) [c] coming := { sound.pop k with
    turn := fun j member => List.mem_singleton.mp member ▸ registered
    once := List.nodup_singleton c }
  have data := turn.setData c (handleClose ((s.pop k).heap c).data) ((s.pop k).heap c).oneshot
  have free : ¬ (s.pop k).Timed c := fun again => ((timed c).mp again).2 rfl
  refine ⟨data.epollDel free, fun fd j => ?_, timed⟩
  have fds : ((s.pop k).setData c (handleClose ((s.pop k).heap c).data)
      ((s.pop k).heap c).oneshot).fdOf = s.fdOf := fdOf_set (s := s.pop k) rfl
  rw [close, epollDel_fd2http, fds]
  exact Iff.rfl

theorem remove_cases (s : Poller) (k : Nat) (node : TimerNode) :
    node.holds = none ∧ s.remove k node = s.pop k ∨
      ∃ c, node.holds = some c ∧ s.remove k node = (s.pop k).close c := by
  unfold remove
  cases node.holds with
  | none => exact .inl ⟨rfl, rfl⟩
  | some c => exact .inr ⟨c, rfl, rfl⟩

/-- A turn of `handleExpiredEvent` ends the call, or removes a node that was deleted or whose
    time is up. -/
theorem expire_cases {k now : Nat} {s' : Poller} (expired : s.expire k now = some s') :
    s' = s.goto .polling ∧ (s.timerNodeQueue = [] ∨ ∃ node, s.timerNodeQueue[k]? = some node ∧
        s.IsTop node ∧ node.deleted = false ∧ node.isValid now = true) ∨
      ∃ node, s.timerNodeQueue[k]? = some node ∧
        (node.deleted = true ∨ node.isValid now = false) ∧ s' = s.remove k node := by
  unfold expire at expired
  split at expired
  · rename_i empty
    exact .inl ⟨(Option.some.inj expired).symm, .inl empty⟩
  · split at expired
    · cases expired
    · rename_i node there
      split_ifs at expired with top deleted valid
      · exact .inr ⟨node, there, .inl deleted, (Option.some.inj expired).symm⟩
      · have live : node.deleted = false := by simpa using deleted
        exact .inl ⟨(Option.some.inj expired).symm, .inr ⟨node, there, top, live, valid⟩⟩
      · have spent : node.isValid now = false := by simpa using valid
        exact .inr ⟨node, there, .inr spent, (Option.some.inj expired).symm⟩

/-- The handlers fail only where the source throws or has undefined behaviour. -/
theorem handleReady_fault {fs : FileSystem} {d : HttpData} {revents : Revents} {socket : Socket}
    {fault : Fault} (failed : handleReady fs d revents socket = .error fault) :
    fault ≠ .outOfFuel := by
  simp only [handleReady] at failed
  split at failed
  · rcases bind_error.mp failed with read | ⟨_, -, ended⟩
    · exact handleRead_fault read
    · cases ended
  · cases failed

theorem handleEvents_none {revents : Revents} {ret : List (Nat × Revents)} {fs : FileSystem}
    {socket : Socket} (stuck : s.handleEvents c revents ret fs socket = none) :
    ∃ fault, fault ≠ .outOfFuel ∧
      handleReady fs { (s.heap c).data with events := {} } revents socket = .error fault := by
  unfold handleEvents at stuck
  simp only at stuck
  split at stuck
  · cases stuck
  · split at stuck
    · rename_i fault failed
      exact ⟨fault, handleReady_fault failed, failed⟩
    · cases stuck

/-- What `handleEvents` does to the timers and where it leads. -/
theorem handleEvents_cases (sound : Sound s turns coming) {revents : Revents}
    {ret : List (Nat × Revents)} {fs : FileSystem} {socket : Socket} {s' : Poller}
    (handled : s.handleEvents c revents ret fs socket = some s') :
    Sound s' turns coming ∧ s'.pendingFunctors = s.pendingFunctors ∧ s'.fd2http = s.fd2http ∧
      (s'.pc = .handling ret ∧ (∀ j, s'.Timed j ↔ s.Timed j) ∨
        s'.pc = .concluding c ret ∧ (∀ j, s'.Timed j → s.Timed j) ∧
          ∀ j, j ≠ c → s.Timed j → s'.Timed j) := by
  unfold handleEvents at handled
  simp only at handled
  split at handled
  · obtain rfl := Option.some.inj handled
    exact ⟨(sound.setData c _ _).goto _, rfl, rfl, .inl ⟨rfl, fun _ => Iff.rfl⟩⟩
  · split at handled
    · cases handled
    · rename_i d resets _
      obtain rfl := Option.some.inj handled
      obtain ⟨sound', timed⟩ := sound.seperateTimer c
      obtain ⟨http, -, pending, -, -⟩ := s.seperateTimer_frame c
      cases resets with
      | true =>
          exact ⟨(sound'.setData c _ _).goto _, pending, http,
            .inr ⟨rfl, fun j after => ((timed j).mp after).1,
              fun j apart before => (timed j).mpr ⟨before, apart⟩⟩⟩
      | false =>
          exact ⟨(sound.setData c _ _).goto _, rfl, rfl,
            .inr ⟨rfl, fun _ => id, fun _ _ => id⟩⟩

def Intact (s : Poller) : Prop := Sound s s.turns s.coming

theorem Sound.intact (sound : Sound s turns coming) (sameTurns : s.turns = turns)
    (sameComing : s.coming = coming) : s.Intact := by
  subst sameTurns sameComing
  exact sound

theorem alive_of_coming : ∀ c ∈ s.coming, s.Alive c := fun _ member =>
  (List.mem_append.mp member).elim (fun called => .inr (.inr (.inl called)))
    fun waiting => .inr (.inl waiting)

theorem map_getEventsRequest (s : Poller) (events : List (Nat × Revents)) :
    (s.getEventsRequest events).map Prod.fst = (events.map Prod.fst).filterMap s.fd2chan := by
  rw [getEventsRequest, List.map_filterMap, List.filterMap_map]
  refine List.filterMap_congr fun event _ => ?_
  simp only [Option.map_map, Function.comp_apply]
  exact Option.map_id_apply

/-- The channels that `epoll_wait` reports. -/
theorem Sound.getEventsRequest (sound : Sound s [] coming) {events : List (Nat × Revents)}
    (once : (events.map Prod.fst).Nodup) :
    Sound s ((s.getEventsRequest events).map Prod.fst) coming := by
  rw [map_getEventsRequest, sound.same]
  refine { sound with turn := fun c member => ?_, once := once.filterMap ?_ }
  · obtain ⟨fd, -, there⟩ := List.mem_filterMap.mp member
    obtain rfl := (sound.place fd c there).1
    exact there
  · intro fd fd' c there there'
    rw [← (sound.place fd c there).1, (sound.place fd' c there').1]

end Poller

end Corio.Epoll
