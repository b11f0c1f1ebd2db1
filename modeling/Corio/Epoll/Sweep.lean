import Corio.Epoll.TimerLinks
import Mathlib.Data.List.MinMax
import Mathlib.Data.List.Perm.Basic

/-! # A call of `handleExpiredEvent`

The turns of its loop, for a queue with anything in it and a clock that says anything. Beside the
loop stands what it has done. Every turn but the last removes a node, and the last one finds the
queue empty or its top in time, and with the top every other node.
-/

namespace Corio.Epoll

/-- A node that was popped, and the reading of the clock that was taken for it. -/
structure Removal where
  node : TimerNode
  reading : Option Nat
  deriving DecidableEq, Repr

/-- The loop, and what it has done. -/
structure Sweep where
  poller : Poller
  removed : List Removal
  /-- The connections that `~TimerNode` called `handleClose` of. -/
  closed : List Nat
  /-- What `gettimeofday` said. -/
  readings : List Nat

namespace Sweep

def queue (w : Sweep) : List TimerNode := w.poller.timerNodeQueue

/-- What a turn that leads to this state adds to the record. -/
def record (w : Sweep) (k now : Nat) (s : Poller) : Sweep :=
  match w.queue[k]? with
  | none => { w with poller := s }
  | some node =>
      if node.deleted then
        { poller := s, removed := w.removed ++ [⟨node, none⟩]
          closed := w.closed ++ node.holds.toList, readings := w.readings }
      else if node.isValid now then { w with poller := s, readings := w.readings ++ [now] }
      else
        { poller := s, removed := w.removed ++ [⟨node, some now⟩]
          closed := w.closed ++ node.holds.toList, readings := w.readings ++ [now] }

end Sweep

/-- The loop of a call. A turn has the place of the queue's top and the reading of the clock. -/
def handleExpiredEvent (s : Poller) : Machine Sweep (Nat × Nat) where
  init := ⟨s, [], [], []⟩
  step w turn :=
    match w.poller.pc with
    | .expiring => (w.poller.expire turn.1 turn.2).map (w.record turn.1 turn.2)
    | _ => none

namespace Sweep

/-- The call has returned. -/
def Returned (w : Sweep) : Prop := w.poller.pc = .polling

/-- What holds after some turns. -/
structure Swept (start : Poller) (turns : Nat) (w : Sweep) : Prop where
  /-- The call goes on, whatever the clock says, or has returned. -/
  goesOn : w.Returned ∨ ∀ now, ∃ k, ((handleExpiredEvent start).step w (k, now)).isSome
  /-- It does not go on for ever. -/
  bounded : turns ≤ start.timerNodeQueue.length + 1
  /-- The nodes are those of the start. -/
  nodes : (w.removed.map Removal.node ++ w.queue).Perm start.timerNodeQueue
  /-- A removed node was deleted, or the reading that was taken for it was past its time. -/
  due : ∀ r ∈ w.removed, r.node.deleted = true ∨
    ∃ now, r.reading = some now ∧ now ∈ w.readings ∧ r.node.expiredTime ≤ now
  /-- No node that remains is due at the last reading. -/
  remaining : w.Returned → ∀ node ∈ w.queue,
    ∃ last, w.readings.getLast? = some last ∧ last < node.expiredTime
  /-- Every removed node that holds its connection closes it. -/
  closed : w.closed = w.removed.filterMap (·.node.holds)
  /-- Nothing else is done to the connections. -/
  poller : w.poller = { w.closed.foldl Poller.close start with
    timerNodeQueue := w.queue, pc := w.poller.pc }

/-- What one turn keeps. -/
structure Sweeping (start : Poller) (turns : Nat) (w : Sweep) : Prop where
  pc : w.poller.pc = .expiring ∧ turns = w.removed.length ∨
    w.Returned ∧ turns = w.removed.length + 1 ∧ ∀ node ∈ w.queue,
      ∃ last, w.readings.getLast? = some last ∧ last < node.expiredTime
  nodes : (w.removed.map Removal.node ++ w.queue).Perm start.timerNodeQueue
  due : ∀ r ∈ w.removed, r.node.deleted = true ∨
    ∃ now, r.reading = some now ∧ now ∈ w.readings ∧ r.node.expiredTime ≤ now
  closed : w.closed = w.removed.filterMap (·.node.holds)
  poller : w.poller = { w.closed.foldl Poller.close start with
    timerNodeQueue := w.queue, pc := w.poller.pc }

variable {start : Poller} {turns k now : Nat} {w w' : Sweep}

theorem exists_top {s : Poller} (nonempty : s.timerNodeQueue ≠ []) :
    ∃ (k : Nat) (node : TimerNode), s.timerNodeQueue[k]? = some node ∧ s.IsTop node := by
  cases top : s.timerNodeQueue.argmin TimerNode.expiredTime with
  | none => exact absurd (List.argmin_eq_none.mp top) nonempty
  | some node =>
      obtain ⟨k, there⟩ := List.mem_iff_getElem?.mp (List.argmin_mem top)
      exact ⟨k, node, there, fun other member => List.le_of_mem_argmin member top⟩

theorem expire_isSome {s : Poller} (now : Nat) : ∃ k, (s.expire k now).isSome := by
  unfold Poller.expire
  cases queue : s.timerNodeQueue with
  | nil => exact ⟨0, rfl⟩
  | cons first rest =>
      obtain ⟨k, node, there, top⟩ := exists_top (s := s) (by simp [queue])
      refine ⟨k, ?_⟩
      rw [queue] at there
      simp only [there, top, not_true_eq_false, if_false]
      split_ifs <;> rfl

theorem Sweeping.swept (sweeping : Sweeping start turns w) : Swept start turns w where
  goesOn := by
    rcases sweeping.pc with ⟨expiring, -⟩ | ⟨returned, -⟩
    · refine .inr fun now => ?_
      obtain ⟨k, some_⟩ := expire_isSome (s := w.poller) now
      refine ⟨k, ?_⟩
      simpa only [handleExpiredEvent, expiring, Option.isSome_map] using some_
    · exact .inl returned
  bounded := by
    have size := sweeping.nodes.length_eq
    rw [List.length_append, List.length_map] at size
    rcases sweeping.pc with ⟨-, counted⟩ | ⟨-, counted, -⟩
    · omega
    · omega
  nodes := sweeping.nodes
  due := sweeping.due
  remaining := by
    intro returned
    rcases sweeping.pc with ⟨expiring, -⟩ | ⟨-, -, remaining⟩
    · exact absurd (expiring.symm.trans returned) (by decide)
    · exact remaining
  closed := sweeping.closed
  poller := sweeping.poller

theorem remove_queue (s : Poller) (k : Nat) (node : TimerNode) :
    (s.remove k node).timerNodeQueue = s.timerNodeQueue.eraseIdx k ∧
      (s.remove k node).pc = s.pc := by
  unfold Poller.remove
  cases node.holds with
  | none => exact ⟨rfl, rfl⟩
  | some c => exact ⟨rfl, rfl⟩

theorem Sweeping.counted (sweeping : Sweeping start turns w) (pc : w.poller.pc = .expiring) :
    turns = w.removed.length := by
  rcases sweeping.pc with ⟨-, counted⟩ | ⟨returned, -⟩
  · exact counted
  · exact absurd (pc.symm.trans returned) (by decide)

/-- A node is popped and destroyed. -/
theorem Sweeping.remove (sweeping : Sweeping start turns w) (pc : w.poller.pc = .expiring)
    {node : TimerNode} (there : w.queue[k]? = some node) {reading : Option Nat}
    {readings : List Nat} (kept : ∀ now ∈ w.readings, now ∈ readings)
    (due : node.deleted = true ∨
      ∃ now, reading = some now ∧ now ∈ readings ∧ node.expiredTime ≤ now) :
    Sweeping start (turns + 1)
      { poller := w.poller.remove k node, removed := w.removed ++ [⟨node, reading⟩]
        closed := w.closed ++ node.holds.toList, readings := readings } := by
  obtain ⟨queue, pc'⟩ := remove_queue w.poller k node
  refine ⟨.inl ⟨pc'.trans pc, ?_⟩, ?_, ?_, ?_, ?_⟩
  · rw [sweeping.counted pc, List.length_append]
    rfl
  · obtain ⟨inside, same⟩ := List.getElem?_eq_some_iff.mp there
    have moved : (node :: w.queue.eraseIdx k).Perm w.queue := by
      rw [← same]
      exact List.getElem_cons_eraseIdx_perm inside
    rw [Sweep.queue, queue, List.map_append, List.append_assoc]
    exact (moved.append_left _).trans sweeping.nodes
  · intro r member
    rcases List.mem_append.mp member with old | new
    · rcases sweeping.due r old with deleted | ⟨now, taken, read, past⟩
      · exact .inl deleted
      · exact .inr ⟨now, taken, kept now read, past⟩
    · obtain rfl := List.mem_singleton.mp new
      exact due
  · rw [List.filterMap_append, ← sweeping.closed]
    cases holds : node.holds with
    | none => simp [holds]
    | some c => simp [holds]
  · have before := sweeping.poller
    rw [Sweep.queue, List.foldl_append]
    unfold Poller.remove
    cases node.holds with
    | none =>
        dsimp only [Option.toList_none, List.foldl_nil, Poller.pop]
        rw [before]
    | some c =>
        dsimp only [Option.toList_some, List.foldl_cons, List.foldl_nil, Poller.pop]
        rw [before]
        rfl

/-- The loop ends. -/
theorem Sweeping.end_ (sweeping : Sweeping start turns w) (pc : w.poller.pc = .expiring)
    {readings : List Nat} (kept : ∀ now ∈ w.readings, now ∈ readings)
    (remaining : ∀ node ∈ w.queue, ∃ last, readings.getLast? = some last ∧
      last < node.expiredTime) :
    Sweeping start (turns + 1)
      { w with poller := w.poller.goto .polling, readings := readings } := by
  refine ⟨.inr ⟨rfl, ?_, remaining⟩, sweeping.nodes, fun r member => ?_, sweeping.closed, ?_⟩
  · rw [sweeping.counted pc]
  · rcases sweeping.due r member with deleted | ⟨now, taken, read, past⟩
    · exact .inl deleted
    · exact .inr ⟨now, taken, kept now read, past⟩
  · rw [Poller.goto, sweeping.poller]
    rfl

theorem Sweeping.turn (sweeping : Sweeping start turns w)
    (turned : (handleExpiredEvent start).step w (k, now) = some w') :
    Sweeping start (turns + 1) w' := by
  simp only [handleExpiredEvent] at turned
  split at turned
  · rename_i pc
    obtain ⟨s, expired, rfl⟩ := Option.map_eq_some_iff.mp turned
    have later : ∀ n ∈ w.readings, n ∈ w.readings ++ [now] := fun n read =>
      List.mem_append_left _ read
    rcases Poller.expire_cases expired with ⟨rfl, empty | ⟨node, there, top, live, valid⟩⟩ |
      ⟨node, there, spent, rfl⟩
    · rw [record, Sweep.queue, empty]
      refine sweeping.end_ pc (fun _ read => read) fun node member => ?_
      rw [Sweep.queue, empty] at member
      cases member
    · rw [record, Sweep.queue, there]
      simp only [live, valid, Bool.false_eq_true, if_false, if_true]
      refine sweeping.end_ pc later fun other member => ⟨now, List.getLast?_concat, ?_⟩
      have inTime : now < node.expiredTime := by simpa only [TimerNode.isValid,
        decide_eq_true_eq] using valid
      exact Nat.lt_of_lt_of_le inTime (top other member)
    · rw [record, Sweep.queue, there]
      by_cases deleted : node.deleted = true
      · simp only [deleted, if_true]
        exact sweeping.remove pc there (fun _ read => read) (.inl deleted)
      · have invalid := spent.resolve_left deleted
        have past : node.expiredTime ≤ now := by simpa only [TimerNode.isValid,
          decide_eq_false_iff_not, Nat.not_lt] using invalid
        simp only [deleted, invalid, Bool.false_eq_true, if_false]
        exact sweeping.remove pc there later
          (.inr ⟨now, rfl, List.mem_append_right _ List.mem_cons_self, past⟩)
  · cases turned

theorem Sweeping.run {turns' : List (Nat × Nat)} (sweeping : Sweeping start turns w)
    (ran : (handleExpiredEvent start).run w turns' = some w') :
    Sweeping start (turns + turns'.length) w' := by
  induction turns' generalizing turns w with
  | nil =>
      obtain rfl := Option.some.inj ran
      exact sweeping
  | cons turn rest ih =>
      obtain ⟨next, turned, ran⟩ := Machine.run_cons_some _ |>.mp ran
      have behind := ih (sweeping.turn turned) ran
      rwa [Nat.add_right_comm, Nat.add_assoc] at behind

/-- A call of `handleExpiredEvent` returns, and removes exactly the expired part of the queue. -/
theorem handleExpiredEvent_swept (calling : start.pc = .expiring) (turns : List (Nat × Nat))
    (w : Sweep) (ran : (handleExpiredEvent start).run (handleExpiredEvent start).init turns =
      some w) : Swept start turns.length w := by
  have begun : Sweeping start 0 (handleExpiredEvent start).init :=
    ⟨.inl ⟨calling, rfl⟩, .refl _, fun r member => absurd member List.not_mem_nil, rfl, rfl⟩
  have behind := begun.run ran
  rw [Nat.zero_add] at behind
  exact behind.swept

/-- A queue with a cleared node, one whose time is up, one that was deleted and not cleared, and
    one in time. -/
def mixed : Poller :=
  { Epoll.poller.init with
    made := 3
    timerNodeQueue := [⟨0, false, 3000, some 0⟩, ⟨1, true, 900, none⟩, ⟨2, false, 1000, some 1⟩,
      ⟨3, true, 1000, some 2⟩]
    nodes := 4
    pc := .expiring }

theorem handleExpiredEvent_mixed : ∃ w : Sweep,
    (handleExpiredEvent mixed).run (handleExpiredEvent mixed).init
      [(1, 1000), (1, 1000), (1, 1001), (0, 1002)] = some w ∧
      w.closed = [1, 2] ∧ w.Returned ∧ Swept mixed 4 w := by
  have ran : ((handleExpiredEvent mixed).run (handleExpiredEvent mixed).init
      [(1, 1000), (1, 1000), (1, 1001), (0, 1002)]).any
        fun w => w.closed = [1, 2] ∧ w.poller.pc = .polling := by decide
  obtain ⟨w, ran, seen⟩ := (Option.any_eq_true _ _).mp ran
  obtain ⟨closed, returned⟩ := of_decide_eq_true seen
  exact ⟨w, ran, closed, returned, handleExpiredEvent_swept rfl _ w ran⟩

end Sweep

end Corio.Epoll
