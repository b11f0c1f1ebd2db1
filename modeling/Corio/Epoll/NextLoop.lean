import Corio.Epoll.Acceptor
import Corio.Foundation.RoundRobin

/-! # Which loop gets a connection

`getNextLoop` is called for every descriptor that `accept` returns, also for one that is closed
at once or is lost.
-/

namespace Corio.Epoll.Acceptor

variable {s s' : Acceptor} {numThreads : Nat}

/-- The descriptors that `getNextLoop` was called for. -/
def taken (s : Acceptor) : List Nat := s.returned.filter (0 < ·)

/-- Each of them with the loop whose turn it was. -/
def deals (s : Acceptor) (numThreads : Nat) : List (Nat × Nat) :=
  s.taken.zip (RoundRobin.turns numThreads s.taken.length)

/-- The descriptor in hand, with its loop. -/
def dealing (s : Acceptor) : List (Nat × Nat) :=
  match s.place with
  | .unblocking fd loop => [(fd, loop)]
  | _ => []

structure Dealt (s : Acceptor) (numThreads : Nat) : Prop where
  next : s.next = s.taken.length % numThreads
  handed : (s.handed ++ s.dealing).Sublist (s.deals numThreads)

/-- `accept` returns a descriptor, and `getNextLoop` is called. -/
theorem Dealt.takes (dealt : Dealt s numThreads) {fd : Nat} (idle : s.dealing = [])
    (positive : 0 < fd) (returned : s'.returned = s.returned ++ [fd])
    (next : s'.next = (s.next + 1) % numThreads)
    (handed : (s'.handed ++ s'.dealing).Sublist (s.handed ++ [(fd, s.next)])) :
    Dealt s' numThreads := by
  have more : s'.taken = s.taken ++ [fd] := by
    simp [taken, returned, List.filter_append, positive]
  have turns : s'.deals numThreads = s.deals numThreads ++ [(fd, s.next)] := by
    rw [deals, more, List.length_append, List.length_singleton, RoundRobin.turns_succ,
      List.zip_append (by simp [RoundRobin.turns]), dealt.next]
    rfl
  have before := dealt.handed
  rw [idle, List.append_nil] at before
  refine ⟨?_, ?_⟩
  · rw [next, more, List.length_append, List.length_singleton, dealt.next, Nat.mod_add_mod]
  · rw [turns]
    exact handed.trans (before.append (List.Sublist.refl _))

/-- A step that takes nothing from the kernel, or nothing but the descriptor zero. -/
theorem Dealt.keeps (dealt : Dealt s numThreads) (taken : s'.taken = s.taken)
    (next : s'.next = s.next) (handed : (s'.handed ++ s'.dealing).Sublist (s.handed ++ s.dealing)) :
    Dealt s' numThreads where
  next := by rw [next, taken, dealt.next]
  handed := by
    rw [deals, taken]
    exact handed.trans dealt.handed

theorem Dealt.accept {result : AcceptResult} (dealt : Dealt s numThreads)
    (place : s.place = .accepting) (accepted : s.accept numThreads result = some s') :
    Dealt s' numThreads := by
  obtain ⟨mid, took, turn⟩ := accept_cases accepted
  rw [take_eq took] at turn
  have idle : s.dealing = [] := by simp only [dealing, place]
  rcases turn with ⟨fd, rfl, positive, rfl⟩ | ⟨fd, rfl, positive, rfl⟩ | ⟨zero, rfl⟩
  · exact dealt.takes idle positive rfl rfl (by simp [dealing, place])
  · exact dealt.takes idle positive rfl rfl (by simp [dealing])
  · refine dealt.keeps ?_ rfl ?_
    · cases result with
      | descriptor fd => simp [taken, finish, returns, AcceptResult.fds, zero fd rfl]
      | EAGAIN | EINTR | ECONNABORTED | error gone =>
          simp [taken, finish, returns, AcceptResult.fds]
    · simp [dealing, finish, returns]

theorem Dealt.step (s : Acceptor) (action : AcceptStep) (s' : Acceptor)
    (dealt : Dealt s numThreads) (taken : (acceptor numThreads).step s action = some s') :
    Dealt s' numThreads := by
  simp only [acceptor] at taken
  split at taken
  case h_1 =>
      obtain rfl := Option.some.inj taken
      exact dealt.keeps rfl rfl (List.Sublist.refl _)
  case h_2 _ _ revents place =>
      obtain ⟨-, same⟩ := Option.ite_none_right_eq_some.mp taken
      rw [← Option.some.inj same]
      rcases handleEvents_cases { s with edge := s.edge && !revents.epollin } revents with
        ⟨same, -⟩ | same | ⟨same, -⟩ <;>
      · rw [same]
        exact dealt.keeps rfl rfl (by simp [dealing, place])
  case h_3 _ _ result place => exact dealt.accept place taken
  case h_4 _ _ fd loop done place =>
      obtain rfl := Option.some.inj taken
      cases done with
      | true => exact dealt.keeps rfl rfl (by simp [unblocked, dealing, goto, place])
      | false => exact dealt.keeps rfl rfl (by simp [unblocked, dealing, returns, place])
  case h_5 _ _ modified place =>
      obtain rfl := Option.some.inj taken
      unfold epollMod
      simp only
      split_ifs <;> exact dealt.keeps rfl rfl (by simp [dealing, goto, place])
  case h_6 => cases taken

theorem dealt_init (numThreads : Nat) : Dealt (acceptor numThreads).init numThreads :=
  ⟨rfl, List.Sublist.refl _⟩

/-- The loops take turns. What one is handed is more than another by one, and by the
    connections that were handed to none. -/
theorem loops_balanced (reached : (acceptor numThreads).Reachable s) :
    s.handed.Sublist (s.deals numThreads) ∧
      ∀ loop < numThreads, ∀ other < numThreads,
        (s.handed.map Prod.snd).count loop ≤ (s.handed.map Prod.snd).count other + 1 +
          (s.taken.length - s.handed.length) := by
  have dealt : Dealt s numThreads := reached.induct (dealt_init numThreads) Dealt.step
  have handed := (List.sublist_append_left _ _).trans dealt.handed
  refine ⟨handed, fun loop below other below' => ?_⟩
  have turns : (s.deals numThreads).map Prod.snd =
      RoundRobin.turns numThreads s.taken.length := by
    rw [deals, List.map_snd_zip]
    simp [RoundRobin.turns]
  have handedTo := handed.map Prod.snd
  rw [turns] at handedTo
  have most := handedTo.count_le loop
  have least := handedTo.le_count other
  have balanced := RoundRobin.turns_balanced below below' s.taken.length
  rw [List.length_map, RoundRobin.turns, List.length_map, List.length_range,
    ← RoundRobin.turns] at least
  omega

/-- Three connections for two loops, of which the second is turned away. -/
def turnedAway : List AcceptStep :=
  [.arrive, .arrive, .arrive, .report { epollin := true }, .accept (.descriptor 7),
    .setSocketNonBlocking true, .accept (.descriptor Server.MAXFDS), .accept (.descriptor 8),
    .setSocketNonBlocking true]

theorem loops_balanced_turnedAway : ∃ s, (acceptor 2).run (acceptor 2).init turnedAway = some s ∧
    s.handed = [(7, 0), (8, 0)] ∧ s.handed.Sublist (s.deals 2) := by
  have ran : ((acceptor 2).run (acceptor 2).init turnedAway).any
      fun s => s.handed = [(7, 0), (8, 0)] := by decide +kernel
  obtain ⟨s, ran, handed⟩ := (Option.any_eq_true _ _).mp ran
  exact ⟨s, ran, of_decide_eq_true handed, (loops_balanced ⟨turnedAway, ran⟩).1⟩

end Corio.Epoll.Acceptor
