import Corio.Foundation.Machine
import Mathlib.Data.List.Basic

/-! # The loops of a benchmark client

`benchcore` asks for the page again and again until its alarm rings, over one connection each
time or, with `-k`, over one connection for all. What it counts is what its parent reports. The
counters are `int`s, and are followed up to 2^31 - 1.
-/

namespace Corio.WebBench

structure Options where
  keepAlive : Bool
  force : Bool
  http10 : Nat

/-- Where a client is. -/
inductive Place where
  /-- With `-k`, in the loop around `Socket`. -/
  | connecting
  /-- At the test of `timerexpired` in front of a turn. -/
  | testing
  /-- At the call of `Socket`. -/
  | opening
  | writing
  | shutting
  /-- At the test in front of a `read`. -/
  | reading
  | waiting
  /-- Behind the reading. -/
  | ended
  | returned
  deriving DecidableEq, Repr

structure Client where
  place : Place
  /-- There is none for -1. -/
  s : Option Nat
  timerexpired : Bool
  speed : Nat
  failed : Nat
  bytes : Nat
  /-- How many turns were begun. -/
  turns : Nat
  /-- The sockets that are open. -/
  sockets : List Nat
  /-- `close` was called for a descriptor that was not open. -/
  strayed : Bool
  deriving DecidableEq, Repr

/-- A step with the result of its call. -/
inductive ClientStep where
  /-- The signal, which may come at any time. -/
  | alarm
  | go
  /-- `none` is -1. -/
  | socket (result : Option Nat)
  | write (whole : Bool)
  | shutdown (fails : Bool)
  | read (result : Option Nat)
  | close (fails : Bool)
  deriving DecidableEq, Repr

namespace Client

def goto (c : Client) (place : Place) : Client := { c with place := place }

/-- `failed++`, and a `continue` or `goto`. -/
def fail (c : Client) (place : Place) : Client := { c with failed := c.failed + 1, place := place }

/-- `close(s)`. -/
def close (c : Client) : Client :=
  match c.s with
  | none => { c with strayed := true }
  | some fd =>
      if fd ∈ c.sockets then { c with sockets := c.sockets.erase fd }
      else { c with strayed := true }

/-- `s=Socket(host,port)` got this socket. -/
def connect (c : Client) (fd : Nat) (place : Place) : Option Client :=
  if fd ∈ c.sockets then none
  else some { c with s := some fd, sockets := fd :: c.sockets, place := place }

def isOpen (c : Client) : Bool :=
  match c.s with
  | none => false
  | some fd => fd ∈ c.sockets

/-- Behind the request. -/
def asked (o : Options) : Place := if o.force then .ended else .reading

def step (o : Options) (c : Client) : Place → ClientStep → Option Client
  | _, .alarm => some { c with timerexpired := true }
  | .connecting, .socket none => some c
  | .connecting, .socket (some fd) => c.connect fd .testing
  | .testing, .go =>
      if c.timerexpired then some ({ c with failed := c.failed - 1 }.goto .returned)
      else
        let c := { c with turns := c.turns + 1 }
        if o.keepAlive then
          if c.s = none then some (c.fail .testing) else some (c.goto .writing)
        else some (c.goto .opening)
  | .opening, .socket none => some ({ c with s := none }.fail .testing)
  | .opening, .socket (some fd) => c.connect fd .writing
  | .writing, .write true =>
      -- What is not open cannot be written to.
      if c.isOpen then
        some (c.goto (if ¬ o.keepAlive ∧ o.http10 = 0 then .shutting else asked o))
      else none
  | .writing, .write false => some (c.close.fail (if o.keepAlive then .connecting else .testing))
  | .shutting, .shutdown true => some (c.close.fail .testing)
  | .shutting, .shutdown false => some (c.goto (asked o))
  | .reading, .go => some (c.goto (if c.timerexpired then .ended else .waiting))
  | .waiting, .read none => some (c.close.fail .testing)
  | .waiting, .read (some n) =>
      if n > 1500 then none
      else if n = 0 then some (c.goto .ended)
      else some ({ c with bytes := c.bytes + n }.goto (if o.keepAlive then .ended else .reading))
  | .ended, .go =>
      if o.keepAlive then some ({ c with speed := c.speed + 1 }.goto .testing) else none
  | .ended, .close fails =>
      if o.keepAlive then none
      else if fails then some (c.close.fail .testing)
      else some ({ c.close with speed := c.speed + 1 }.goto .testing)
  | _, _ => none

end Client

/-- The counters are of type `int`. -/
def Client.InRange (c : Client) : Prop :=
  c.speed < 2 ^ 31 ∧ c.failed < 2 ^ 31 ∧ c.bytes < 2 ^ 31

instance (c : Client) : Decidable c.InRange := inferInstanceAs (Decidable (_ ∧ _ ∧ _))

/-- A run ends where a counter would leave the range of `int`: what happens then is undefined. -/
def benchcore (o : Options) : Machine Client ClientStep where
  init := ⟨if o.keepAlive then .connecting else .testing, none, false, 0, 0, 0, 0, [], false⟩
  step c action := (c.step o c.place action).filter fun next => next.InRange

/-- A turn that is under way. -/
def pending : Place → Nat
  | .connecting | .testing | .returned => 0
  | .opening | .writing | .shutting | .reading | .waiting | .ended => 1

/-- There is no connection at these places. -/
def Idle (o : Options) : Place → Prop
  | .connecting | .opening => True
  | .testing | .returned => o.keepAlive = false
  | .writing | .shutting | .reading | .waiting | .ended => False

/-- Nothing but `s` is open. -/
def Client.Holds (c : Client) : Prop := ∃ fd, c.s = some fd ∧ c.sockets = [fd]

/-- With `-k`, `s` may be closed already when a read has failed. -/
structure Client.Dangles (c : Client) : Prop where
  place : c.place = .testing ∨ c.place = .writing ∨ c.place = .returned
  nothing : c.sockets = []

/-- `calm` says that no read fails with `-k`. -/
structure Counts (o : Options) (calm : Prop) (c : Client) : Prop where
  counted : c.place ≠ .returned → c.turns = c.speed + c.failed + pending c.place
  corrected : c.place = .returned →
    c.speed + c.failed ≤ c.turns ∧ c.turns ≤ c.speed + c.failed + 1
  idle : Idle o c.place → c.sockets = []
  busy : ¬ Idle o c.place → c.Holds ∨ ¬ calm ∧ c.Dangles
  once : c.place = .opening ∨ c.place = .shutting → o.keepAlive = false
  kept : c.place = .connecting → o.keepAlive = true
  own : calm → c.strayed = false

section Turns

variable {o : Options} {calm : Prop} {c c' : Client}

theorem close_holds (holds : c.Holds) : c.close = { c with sockets := [] } := by
  obtain ⟨fd, s, sockets⟩ := holds
  simp [Client.close, s, sockets]

theorem close_dangles (dangles : c.Dangles) : c.close = { c with strayed := true } := by
  unfold Client.close
  split
  · rfl
  · simp [dangles.nothing]

theorem Counts.init (o : Options) (calm : Prop) : Counts o calm (benchcore o).init := by
  cases keep : o.keepAlive <;>
    exact ⟨by simp [benchcore, keep, pending], by simp [benchcore, keep], fun _ => rfl,
      by simp [benchcore, keep, Idle], by simp [benchcore, keep], by simp [benchcore, keep],
      fun _ => rfl⟩

/-- Bytes and the alarm do not count. -/
theorem Counts.other (counts : Counts o calm c) (bytes : Nat) (timerexpired : Bool) :
    Counts o calm { c with bytes := bytes, timerexpired := timerexpired } :=
  ⟨counts.counted, counts.corrected, counts.idle,
    fun busy => (counts.busy busy).imp_right fun loose => ⟨loose.1, loose.2.place, loose.2.nothing⟩,
    counts.once, counts.kept, counts.own⟩

/-- Between the request and the end of its reading the connection is there. -/
theorem Counts.holds (counts : Counts o calm c)
    (place : c.place = .shutting ∨ c.place = .reading ∨ c.place = .waiting ∨ c.place = .ended) :
    c.Holds := by
  refine (counts.busy ?_).resolve_right fun loose => ?_
  · rcases place with same | same | same | same <;> simp [same, Idle]
  · rcases loose.2.place with other | other | other <;> simp [other] at place

/-- A turn goes on where nothing is opened or closed. -/
theorem Counts.onward (counts : Counts o calm c) {place : Place} (holds : c.Holds)
    (before : pending c.place = 1) (under : pending place = 1) (busy : ¬ Idle o place)
    (once : place = .shutting → o.keepAlive = false) : Counts o calm (c.goto place) where
  counted _ := by
    have counted := counts.counted (by rintro same; simp [same, pending] at before)
    rw [before] at counted
    exact counted.trans (by simp only [Client.goto, under])
  corrected returned := by
    obtain rfl : place = .returned := returned
    cases under
  idle none_ := absurd none_ busy
  busy _ := .inl holds
  once closes := by
    rcases closes with rfl | same
    · exact absurd trivial busy
    · exact once same
  kept same := by
    obtain rfl : place = .connecting := same
    exact absurd trivial busy
  own := counts.own

/-- A turn that has come to its end, with a connection if there is to be one. -/
theorem Counts.turned (counts : Counts o calm c) {speed failed bytes : Nat} {s : Option Nat}
    {sockets : List Nat} {strayed : Bool} (under : pending c.place = 1)
    (one : speed + failed = c.speed + c.failed + 1)
    (idle : Idle o .testing → sockets = [])
    (busy : ¬ Idle o .testing → (∃ fd, s = some fd ∧ sockets = [fd]) ∨ ¬ calm ∧ sockets = [])
    (own : calm → strayed = false) :
    Counts o calm { c with speed := speed, failed := failed, bytes := bytes, s := s,
                           sockets := sockets, strayed := strayed, place := .testing } where
  counted _ := by
    have counted := counts.counted (by rintro same; simp [same, pending] at under)
    simp only [under] at counted
    simp only [pending]
    omega
  corrected := by simp
  idle := idle
  busy there := (busy there).imp_right fun loose => ⟨loose.1, .inl rfl, loose.2⟩
  once := by simp
  kept := by simp
  own := own

/-- A connection is made where there is none. -/
theorem Counts.connected (counts : Counts o calm c) {fd : Nat} {place : Place}
    (none_ : Idle o c.place) (same : pending place = pending c.place) (here : c.place ≠ .returned)
    (busy : ¬ Idle o place) (goes : place = .testing ∨ place = .writing)
    (taken : c.connect fd place = some c') : Counts o calm c' := by
  unfold Client.connect at taken
  split at taken
  · cases taken
  · obtain rfl := Option.some.inj taken
    have empty := counts.idle none_
    refine ⟨fun _ => ?_, ?_, fun idle => absurd idle busy, ?_, ?_, ?_, counts.own⟩
    · have counted := counts.counted here
      rw [← same] at counted
      exact counted
    · rcases goes with rfl | rfl <;> simp
    · exact fun _ => .inl ⟨fd, rfl, by simp [empty]⟩
    · rcases goes with rfl | rfl <;> simp
    · rcases goes with rfl | rfl <;> simp

/-- The connection of a turn is closed at its end, and the turn is counted. -/
theorem Counts.closed (counts : Counts o calm c) (under : pending c.place = 1) (holds : c.Holds)
    (last : calm → o.keepAlive = false) :
    Counts o calm (c.close.fail .testing) ∧
      Counts o calm ({ c.close with speed := c.speed + 1 }.goto .testing) := by
  have loose : ¬ Idle o .testing → (∃ fd, c.s = some fd ∧ ([] : List Nat) = [fd]) ∨
      ¬ calm ∧ ([] : List Nat) = [] :=
    fun kept => .inr ⟨fun calm => kept (last calm), rfl⟩
  rw [close_holds holds]
  exact ⟨counts.turned under rfl (fun _ => rfl) loose counts.own,
    counts.turned under (Nat.add_right_comm _ _ _) (fun _ => rfl) loose counts.own⟩

/-- A request that fails is the end of its connection. -/
theorem Counts.unwritten (counts : Counts o calm c) (place : c.place = .writing) :
    Counts o calm (c.close.fail (if o.keepAlive then .connecting else .testing)) := by
  have busy : ¬ Idle o c.place := by simp [place, Idle]
  have counted := counts.counted (by simp [place])
  simp only [place, pending] at counted
  have ends : ∀ d : Client, d.turns = c.turns → d.speed = c.speed → d.failed = c.failed →
      d.sockets = [] → (calm → d.strayed = false) →
      Counts o calm (d.fail (if o.keepAlive then .connecting else .testing)) := by
    intro d turns speed failed empty own
    cases keep : o.keepAlive
    · exact ⟨fun _ => by simp [Client.fail, pending, turns, speed, failed, counted, Nat.add_assoc],
        by simp [Client.fail], fun _ => empty, by simp [Client.fail, Idle, keep],
        by simp [Client.fail], by simp [Client.fail], own⟩
    · exact ⟨fun _ => by simp [Client.fail, pending, turns, speed, failed, counted, Nat.add_assoc],
        by simp [Client.fail], fun _ => empty, by simp [Client.fail, Idle],
        by simp [Client.fail], fun _ => keep, own⟩
  rcases counts.busy busy with holds | ⟨loose, dangles⟩
  · rw [close_holds holds]
    exact ends _ rfl rfl rfl rfl counts.own
  · rw [close_dangles dangles]
    exact ends _ rfl rfl rfl dangles.nothing fun calm => absurd calm loose

theorem Counts.tested (counts : Counts o calm c) (place : c.place = .testing)
    (taken : c.step o .testing .go = some c') : Counts o calm c' := by
  have counted := counts.counted (by simp [place])
  simp only [place, pending] at counted
  simp only [Client.step] at taken
  split at taken
  · obtain rfl := Option.some.inj taken
    have idle := counts.idle
    have busy := counts.busy
    rw [place] at idle busy
    refine ⟨by simp [Client.goto], fun _ => ?_, idle, fun kept => ?_, by simp [Client.goto],
      by simp [Client.goto], counts.own⟩
    · simp only [Client.goto]
      omega
    · exact (busy kept).imp_right fun loose => ⟨loose.1, .inr (.inr rfl), loose.2.nothing⟩
  · cases keep : o.keepAlive with
    | false =>
        rw [keep, if_neg Bool.false_ne_true] at taken
        obtain rfl := Option.some.inj taken
        have nothing := counts.idle (by rw [place]; exact keep)
        exact ⟨fun _ => by simp [Client.goto, pending, counted], by simp [Client.goto],
          fun _ => nothing, by simp [Client.goto, Idle], fun _ => keep, by simp [Client.goto],
          counts.own⟩
    | true =>
        have busy := counts.busy (by simp [place, Idle, keep])
        rw [keep, if_pos rfl] at taken
        split at taken
        · rename_i lost
          obtain rfl := Option.some.inj taken
          have loose := busy.resolve_left fun holds => by
            obtain ⟨fd, s, -⟩ := holds
            rw [lost] at s
            cases s
          exact ⟨fun _ => by simp [Client.fail, pending, counted, Nat.add_assoc],
            by simp [Client.fail], fun _ => loose.2.nothing,
            fun _ => .inr ⟨loose.1, .inl rfl, loose.2.nothing⟩, by simp [Client.fail],
            by simp [Client.fail], counts.own⟩
        · obtain rfl := Option.some.inj taken
          exact ⟨fun _ => by simp [Client.goto, pending, counted], by simp [Client.goto],
            by simp [Client.goto, Idle],
            fun _ => busy.imp_right fun loose => ⟨loose.1, .inr (.inl rfl), loose.2.nothing⟩,
            by simp [Client.goto], by simp [Client.goto], counts.own⟩

theorem asked_cases (o : Options) : Client.asked o = .ended ∨ Client.asked o = .reading := by
  unfold Client.asked
  split
  · exact .inl rfl
  · exact .inr rfl

theorem Counts.read (counts : Counts o calm c) (place : c.place = .waiting) {n : Nat}
    (taken : c.step o .waiting (.read (some n)) = some c') : Counts o calm c' := by
  have holds := counts.holds (by simp [place])
  have before : pending c.place = 1 := by rw [place]; rfl
  simp only [Client.step] at taken
  split at taken
  · cases taken
  · split at taken
    · obtain rfl := Option.some.inj taken
      exact counts.onward holds before rfl (by simp [Idle]) (by simp)
    · obtain rfl := Option.some.inj taken
      have more := counts.other (c.bytes + n) c.timerexpired
      split
      · exact more.onward holds before rfl (by simp [Idle]) (by simp)
      · exact more.onward holds before rfl (by simp [Idle]) (by simp)

/-- Each turn is counted once, and what is open is in use. -/
theorem Counts.step (counts : Counts o calm c) {action : ClientStep}
    (gentle : calm → o.keepAlive = true → action ≠ .read none)
    (taken : (benchcore o).step c action = some c') : Counts o calm c' := by
  replace taken := (Option.filter_eq_some_iff.mp taken).1
  unfold Client.step at taken
  split at taken
  -- The alarm, and `Socket`.
  · exact Option.some.inj taken ▸ counts.other c.bytes true
  · exact Option.some.inj taken ▸ counts
  · rename_i place
    have kept := counts.kept place
    exact counts.connected (by simp [place, Idle]) (by simp [place, pending]) (by simp [place])
      (by simp [Idle, kept]) (.inl rfl) taken
  · rename_i place
    exact counts.tested place taken
  · rename_i place
    obtain rfl := Option.some.inj taken
    have once := counts.once (.inl place)
    have nothing := counts.idle (by simp [place, Idle])
    exact counts.turned (by simp [place, pending]) rfl (fun _ => nothing)
      (fun kept => absurd once kept) counts.own
  · rename_i place
    exact counts.connected (by simp [place, Idle]) (by simp [place, pending]) (by simp [place])
      (by simp [Idle]) (.inr rfl) taken
  -- The request.
  · rename_i place
    split at taken
    · rename_i isOpen
      obtain rfl := Option.some.inj taken
      have holds := (counts.busy (by simp [place, Idle])).resolve_right fun loose => by
        simp only [Client.isOpen, loose.2.nothing] at isOpen
        split at isOpen <;> simp at isOpen
      have before : pending c.place = 1 := by rw [place]; rfl
      split
      · rename_i shuts
        exact counts.onward holds before rfl (by simp [Idle]) (fun _ => by simpa using shuts.1)
      · rcases asked_cases o with same | same <;> rw [same] <;>
          exact counts.onward holds before rfl (by simp [Idle]) (by simp)
    · cases taken
  · rename_i place
    exact Option.some.inj taken ▸ counts.unwritten place
  · rename_i place
    have holds := counts.holds (by simp [place])
    exact Option.some.inj taken ▸ (counts.closed (by simp [place, pending]) holds
      fun _ => counts.once (.inr place)).1
  · rename_i place
    obtain rfl := Option.some.inj taken
    have holds := counts.holds (by simp [place])
    rcases asked_cases o with same | same <;> rw [same] <;>
      exact counts.onward holds (by simp [place, pending]) rfl (by simp [Idle]) (by simp)
  -- The response.
  · rename_i place
    obtain rfl := Option.some.inj taken
    have holds := counts.holds (by simp [place])
    split <;> exact counts.onward holds (by simp [place, pending]) rfl (by simp [Idle]) (by simp)
  · rename_i place
    have holds := counts.holds (by simp [place])
    refine Option.some.inj taken ▸ (counts.closed (by simp [place, pending]) holds
      fun calm => ?_).1
    cases keep : o.keepAlive with
    | false => rfl
    | true => exact absurd rfl (gentle calm keep)
  · rename_i place
    exact counts.read place taken
  · rename_i place
    split at taken
    · rename_i keep
      obtain rfl := Option.some.inj taken
      have holds := counts.holds (by simp [place])
      exact counts.turned (by simp [place, pending]) (Nat.add_right_comm _ _ _)
        (fun idle => by simp [Idle, keep] at idle) (fun _ => .inl holds) counts.own
    · cases taken
  · rename_i place
    have holds := counts.holds (by simp [place])
    split at taken
    · cases taken
    · rename_i once
      have closed := counts.closed (by simp [place, pending]) holds fun _ => by simpa using once
      split at taken
      · exact Option.some.inj taken ▸ closed.1
      · exact Option.some.inj taken ▸ closed.2
  · cases taken

theorem Counts.run (o : Options) {steps : List ClientStep}
    (gentle : ∀ action ∈ steps, calm → o.keepAlive = true → action ≠ .read none)
    (ran : (benchcore o).run (benchcore o).init steps = some c) : Counts o calm c :=
  Machine.Guarded.preserves
    (C := fun _ action => calm → o.keepAlive = true → action ≠ .read none)
    (fun _ _ _ counts gentle taken => counts.step gentle taken) (Counts.init o calm)
    (Machine.Guarded.of_actions gentle _) ran

end Turns

end Corio.WebBench
