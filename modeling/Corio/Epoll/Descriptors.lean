import Corio.Epoll.OwnTurns

/-! # Descriptors of connections

The loop with the descriptors of its process. `accept` opens one, `~HttpData` closes it, and the
kernel gives it out again. What is written to a descriptor goes to the socket that it is open for.
-/

namespace Corio.Epoll

/-- Sockets are numbered as the connections that they were accepted for. -/
structure Descriptors where
  poller : Poller
  /-- The socket that each descriptor is open for. -/
  opened : Nat → Option Nat
  /-- How often `~HttpData` of each connection has closed. -/
  closes : Nat → Nat
  /-- What was written to each socket. -/
  wire : Nat → Bytes

namespace Descriptors

/-- `~HttpData`. -/
def destroy (p : Descriptors) (c : Nat) : Descriptors :=
  { p with
    opened := Function.update p.opened (p.poller.fdOf c) none
    closes := Function.update p.closes c (p.closes c + 1) }

/-- The connections whose last reference is gone. -/
def released (s s' : Poller) : List Nat :=
  (List.range s.made).filter fun c => s.Alive c && !s'.Alive c

/-- The writes of a turn, through the descriptor of the connection. -/
def write (p : Descriptors) (c : Nat) (turn : SoloStep) : Descriptors :=
  match turn, p.opened (p.poller.fdOf c) with
  | .ready revents fs reads writes, some socket =>
      match Solo.ready ⟨.idle, (p.poller.heap c).data, p.wire socket⟩ revents fs reads writes with
      | none => p
      | some after => { p with wire := Function.update p.wire socket after.wire }
  | _, _ => p

/-- The system calls of a step. -/
def call (p : Descriptors) (action : PollerStep) : Descriptors :=
  match action with
  | .accept fd => { p with opened := Function.update p.opened fd (some p.poller.made) }
  | _ =>
      match p.poller.acting action with
      | none => p
      | some (c, turn) => p.write c turn

/-- The kernel gives out a descriptor that is not open. -/
def Offers (p : Descriptors) : PollerStep → Prop
  | .accept fd => p.opened fd = none
  | _ => True

instance (p : Descriptors) : (action : PollerStep) → Decidable (p.Offers action)
  | .accept _ => decidable_of_iff _ Option.isNone_iff_eq_none
  | .poll _ | .handle .. | .conclude _ | .call _ | .expire .. => .isTrue trivial

end Descriptors

open Descriptors in
/-- The loop, whose connections are destroyed when nothing refers to them. -/
def descriptors : Machine Descriptors PollerStep where
  init := ⟨poller.init, fun _ => none, fun _ => 0, fun _ => []⟩
  step p action :=
    if p.Offers action then
      (poller.step p.poller action).map fun s =>
        (released p.poller s).foldl destroy { p.call action with poller := s }
    else none

namespace Descriptors

open Poller

variable {p q : Descriptors} {s s' : Poller} {c : Nat}

theorem destroy_all (l : List Nat) :
    (l.foldl destroy q).poller = q.poller ∧ (l.foldl destroy q).wire = q.wire ∧
      ∀ c, (l.foldl destroy q).closes c = q.closes c + l.count c := by
  induction l generalizing q with
  | nil => exact ⟨rfl, rfl, fun _ => rfl⟩
  | cons j rest ih =>
      obtain ⟨poller, wire, closes⟩ := ih (q := q.destroy j)
      refine ⟨poller, wire, fun c => (closes c).trans ?_⟩
      by_cases same : c = j
      · subst same
        simp only [destroy, Function.update_self, List.count_cons_self]
        omega
      · simp only [destroy, Function.update_of_ne same, List.count_cons_of_ne (Ne.symm same)]

/-- A descriptor is closed by the connection that has it. -/
theorem destroy_opened {l : List Nat} (once : l.Nodup)
    (own : ∀ fd c, q.opened fd = some c → q.poller.fdOf c = fd)
    (held : ∀ c ∈ l, q.opened (q.poller.fdOf c) = some c) (fd c : Nat) :
    (l.foldl destroy q).opened fd = some c ↔ q.opened fd = some c ∧ c ∉ l := by
  induction l generalizing q with
  | nil => simp
  | cons j rest ih =>
      obtain ⟨absent, once⟩ := List.nodup_cons.mp once
      obtain ⟨here, held⟩ := List.forall_mem_cons.mp held
      have left (fd c : Nat) :
          (q.destroy j).opened fd = some c ↔ q.opened fd = some c ∧ c ≠ j := by
        by_cases same : fd = q.poller.fdOf j
        · subst same
          simp [destroy, here, eq_comm]
        · have kept : (q.destroy j).opened fd = q.opened fd := Function.update_of_ne same _ _
          rw [kept, iff_self_and]
          rintro found rfl
          exact same (own fd c found).symm
      have step := ih (q := q.destroy j) once (fun fd c found => own fd c ((left fd c).mp found).1)
        fun c member => (left _ c).mpr ⟨held c member, ne_of_mem_of_not_mem member absent⟩
      rw [List.foldl_cons, step, left, List.mem_cons, not_or, and_assoc]

theorem mem_released : c ∈ released s s' ↔ c < s.made ∧ s.Alive c ∧ ¬ s'.Alive c := by
  simp [released]

theorem nodup_released : (released s s').Nodup := List.nodup_range.filter _

theorem write_frame (turn : SoloStep) :
    (p.write c turn).poller = p.poller ∧ (p.write c turn).opened = p.opened ∧
      (p.write c turn).closes = p.closes := by
  unfold write
  split
  · split <;> exact ⟨rfl, rfl, rfl⟩
  · exact ⟨rfl, rfl, rfl⟩

theorem call_frame (p : Descriptors) (action : PollerStep) : (p.call action).closes = p.closes := by
  unfold call
  split
  · rfl
  · split
    · rfl
    · exact (write_frame _).2.2

/-- Who has which descriptor. -/
structure Owned (p : Descriptors) : Prop where
  intact : p.poller.Intact
  opened : ∀ fd c, p.opened fd = some c ↔ p.poller.Present c ∧ p.poller.fdOf c = fd
  open_ : ∀ c, p.poller.Present c → p.closes c = 0
  closed : ∀ c < p.poller.made, ¬ p.poller.Present c → p.closes c = 1
  unborn : ∀ c, p.poller.made ≤ c → p.closes c = 0

/-- No connection comes back, and none changes its descriptor. -/
structure Lasts (s s' : Poller) : Prop where
  made : s.made ≤ s'.made
  fd : ∀ c < s.made, s'.fdOf c = s.fdOf c
  back : ∀ c < s.made, s'.Present c → s.Present c
  born : ∀ c < s'.made, s.made ≤ c → s'.Present c

theorem step_lasts (intact : s.Intact) {action : PollerStep}
    (taken : Epoll.poller.step s action = some s') : Lasts s s' := by
  rcases step_cases intact taken with ⟨fd, -, accepted⟩ | ⟨c, turn, -, turned⟩ | ⟨-, -, rested⟩
  · constructor
    · exact accepted.made ▸ Nat.le_succ s.made
    · intro c old
      exact congrArg Connection.fd (accepted.others c (Nat.ne_of_lt old))
    · intro c old present
      exact ((accepted.present c).mp present).resolve_right (Nat.ne_of_lt old)
    · intro c bound new
      rw [accepted.made] at bound
      exact (accepted.present c).mpr (.inr (Nat.le_antisymm (Nat.lt_succ_iff.mp bound) new))
  · constructor
    · exact Nat.le_of_eq turned.made.symm
    · intro j _
      by_cases same : j = c
      · exact same ▸ turned.fd
      · exact (Connection.bare_eq.mp (turned.others j same)).1
    · intro j _ present
      by_cases same : j = c
      · exact same ▸ turned.here
      · exact (turned.present same).mp present
    · intro j bound new
      exact absurd (turned.made ▸ bound) (Nat.not_lt.mpr new)
  · constructor
    · exact Nat.le_of_eq rested.made.symm
    · intro j _
      exact (Connection.bare_eq.mp (rested.all j)).1
    · intro j _ present
      exact (rested.present j).mp present
    · intro j bound new
      exact absurd (rested.made ▸ bound) (Nat.not_lt.mpr new)

/-- The descriptors behind the system calls of a step, before anything is destroyed. -/
theorem Owned.call_opened (owned : p.Owned) {action : PollerStep} (offers : p.Offers action)
    (taken : Epoll.poller.step p.poller action = some s') (fd c : Nat) :
    (p.call action).opened fd = some c ↔
      (p.poller.Present c ∨ p.poller.made ≤ c ∧ s'.Present c) ∧ s'.fdOf c = fd := by
  have lasts := step_lasts owned.intact taken
  have old (c : Nat) (there : p.poller.Present c) : s'.fdOf c = p.poller.fdOf c :=
    lasts.fd c (owned.intact.bounded_of_present there)
  have same (kept : (p.call action).opened = p.opened)
      (none_ : ∀ c, p.poller.made ≤ c → ¬ s'.Present c) :
      (p.call action).opened fd = some c ↔
        (p.poller.Present c ∨ p.poller.made ≤ c ∧ s'.Present c) ∧ s'.fdOf c = fd := by
    rw [kept, owned.opened, or_iff_left fun new => none_ c new.1 new.2]
    exact and_congr_right fun there => by rw [old c there]
  rcases step_cases owned.intact taken with
    ⟨fd', rfl, accepted⟩ | ⟨j, turn, acts, turned⟩ | ⟨not_, none_, rested⟩
  · have fresh (there : s'.Present c) (new : p.poller.made ≤ c) : c = p.poller.made :=
      ((accepted.present c).mp there).resolve_left fun before =>
        Nat.not_lt.mpr new (owned.intact.bounded_of_present before)
    by_cases here : fd = fd'
    · subst here
      simp only [call, Function.update_self, Option.some.injEq]
      constructor
      · rintro rfl
        exact ⟨.inr ⟨Nat.le_refl _, (accepted.present _).mpr (.inr rfl)⟩, accepted.fd⟩
      · rintro ⟨before | ⟨new, there⟩, place⟩
        · rw [old c before] at place
          exact absurd place (accepted.free c before)
        · exact (fresh there new).symm
    · simp only [call, Function.update_of_ne here, owned.opened]
      constructor
      · rintro ⟨there, place⟩
        exact ⟨.inl there, (old c there).trans place⟩
      · rintro ⟨before | ⟨new, there⟩, place⟩
        · exact ⟨before, (old c before).symm.trans place⟩
        · rw [fresh there new, accepted.fd] at place
          exact absurd place.symm here
  · refine same ?_ fun c new there => ?_
    · cases action with
      | accept => simp [Poller.acting] at acts
      | _ => simp only [call, acts, write_frame]
    · have bound := (stepped owned.intact taken).intact.bounded_of_present there
      rw [turned.made] at bound
      exact Nat.not_lt.mpr new bound
  · refine same ?_ fun c new there => ?_
    · cases action with
      | accept fd => exact absurd rfl (not_ fd)
      | _ => simp only [call, none_]
    · have before := (rested.present c).mp there
      exact Nat.not_lt.mpr new (owned.intact.bounded_of_present before)

theorem Owned.step (owned : p.Owned) {action : PollerStep}
    (taken : descriptors.step p action = some q) : q.Owned := by
  simp only [descriptors, Option.ite_none_right_eq_some, Option.map_eq_some_iff] at taken
  obtain ⟨offers, s, taken, rfl⟩ := taken
  have lasts := step_lasts owned.intact taken
  have intact := (stepped owned.intact taken).intact
  have opened := owned.call_opened offers taken
  have dead (c : Nat) : c ∈ released p.poller s ↔ p.poller.Present c ∧ ¬ s.Present c := by
    rw [mem_released, owned.intact.alive_iff, intact.alive_iff]
    exact and_iff_right_of_imp fun gone => owned.intact.bounded_of_present gone.1
  generalize called : ({ p.call action with poller := s } : Descriptors) = mid
  have poller_ : mid.poller = s := called ▸ rfl
  have opened_ : mid.opened = (p.call action).opened := called ▸ rfl
  have closes_ : mid.closes = p.closes := called ▸ call_frame p action
  obtain ⟨last, -, closes⟩ := destroy_all (q := mid) (released p.poller s)
  have left := destroy_opened (q := mid) nodup_released
    (fun fd c found => by
      rw [opened_] at found
      rw [poller_]
      exact ((opened fd c).mp found).2)
    fun c member => by
      rw [opened_, poller_]
      exact (opened _ c).mpr ⟨.inl ((dead c).mp member).1, rfl⟩
  rw [poller_] at last
  constructor
  · rw [last]
    exact intact
  · intro fd c
    rw [left, opened_, opened, dead, last]
    constructor
    · rintro ⟨⟨before | ⟨-, there⟩, place⟩, kept⟩
      · exact ⟨by_contra fun gone => kept ⟨before, gone⟩, place⟩
      · exact ⟨there, place⟩
    · rintro ⟨there, place⟩
      refine ⟨⟨?_, place⟩, fun gone => gone.2 there⟩
      by_cases old : c < p.poller.made
      · exact .inl (lasts.back c old there)
      · exact .inr ⟨Nat.not_lt.mp old, there⟩
  · intro c there
    rw [last] at there
    have kept : c ∉ released p.poller s := fun gone => ((dead c).mp gone).2 there
    rw [closes, closes_, List.count_eq_zero_of_not_mem kept]
    by_cases old : c < p.poller.made
    · exact owned.open_ c (lasts.back c old there)
    · exact owned.unborn c (Nat.not_lt.mp old)
  · intro c bound gone
    rw [last] at bound gone
    rw [closes, closes_]
    by_cases before : p.poller.Present c
    · have member := (dead c).mpr ⟨before, gone⟩
      rw [owned.open_ c before, List.count_eq_one_of_mem nodup_released member]
    · have kept : c ∉ released p.poller s := fun member => before ((dead c).mp member).1
      have old : c < p.poller.made := by
        by_contra new
        exact gone (lasts.born c bound (Nat.not_lt.mp new))
      rw [List.count_eq_zero_of_not_mem kept]
      exact owned.closed c old before
  · intro c new
    rw [last] at new
    have older : p.poller.made ≤ c := Nat.le_trans lasts.made new
    have kept : c ∉ released p.poller s := fun member =>
      Nat.not_lt.mpr older (mem_released.mp member).1
    rw [closes, closes_, List.count_eq_zero_of_not_mem kept]
    exact owned.unborn c older

theorem owned_init : descriptors.init.Owned where
  intact := intact_init
  opened fd c := by
    simp [descriptors, Present, Registered, coming, functors, Epoll.poller]
  open_ _ _ := rfl
  closed _ bound := absurd bound (Nat.not_lt_zero _)
  unborn _ _ := rfl

/-- The connection's own turns among these steps. -/
def own (c : Nat) : Option (Nat × SoloStep) → List SoloStep
  | none => []
  | some (j, turn) => if j = c then [turn] else []

def view (c : Nat) : Descriptors → List PollerStep → List SoloStep
  | _, [] => []
  | p, action :: rest =>
      own c (p.poller.acting action) ++
        match descriptors.step p action with
        | none => []
        | some q => view c q rest

/-- A connection as it is on its own. -/
def soloOf (p : Descriptors) (c : Nat) : Solo :=
  ⟨p.poller.phaseOf c, (p.poller.heap c).data, p.wire c⟩

/-- Connections that were not accepted are as new ones. -/
def Blank (p : Descriptors) : Prop := ∀ c, p.poller.made ≤ c → p.soloOf c = solo.init

theorem Owned.write_wire (owned : p.Owned) {turn : SoloStep}
    (turned : Turned p.poller s c turn) :
    solo.step (p.soloOf c) turn = some ⟨s.phaseOf c, (s.heap c).data, (p.write c turn).wire c⟩ ∧
      ∀ j ≠ c, (p.write c turn).wire j = p.wire j := by
  have open_ := (owned.opened _ c).mpr ⟨turned.here, rfl⟩
  obtain ⟨wire, does⟩ := turned.does (p.wire c)
  have own : solo.step (p.soloOf c) turn = some ⟨s.phaseOf c, (s.heap c).data, wire⟩ := does
  rw [own]
  cases turn with
  | add | conclude | close =>
      have same := (solo_quiet own).resolve_left nofun
      simp only [soloOf] at same
      subst same
      exact ⟨rfl, fun _ _ => rfl⟩
  | ready revents fs reads writes =>
      obtain ⟨idle, ready⟩ := solo_ready own
      have ready' : Solo.ready ⟨.idle, (p.poller.heap c).data, p.wire c⟩ revents fs reads writes =
          some ⟨s.phaseOf c, (s.heap c).data, wire⟩ := by
        rw [← show p.poller.phaseOf c = .idle from idle]
        exact ready
      simp only [write, open_, ready', Function.update_self, true_and]
      intro j other
      exact Function.update_of_ne other _ _

theorem Owned.soloOf_step (owned : p.Owned) (blank : p.Blank) {action : PollerStep}
    (taken : descriptors.step p action = some q) :
    q.Blank ∧ ∀ c, solo.run (p.soloOf c) (own c (p.poller.acting action)) = some (q.soloOf c) := by
  simp only [descriptors, Option.ite_none_right_eq_some, Option.map_eq_some_iff] at taken
  obtain ⟨-, s, taken, rfl⟩ := taken
  obtain ⟨poller_, wire, -⟩ := destroy_all (q := { p.call action with poller := s })
    (released p.poller s)
  have intact := owned.intact
  have intact' := (stepped intact taken).intact
  simp only [Blank, soloOf, poller_, wire]
  rcases step_cases intact taken with
    ⟨fd, rfl, accepted⟩ | ⟨j, turn, acts, turned⟩ | ⟨not_, none_, rested⟩
  · have none_ : p.poller.acting (.accept fd) = none := by
      cases pc : p.poller.pc <;> simp [Poller.acting, pc]
    have same (c : Nat) : (s.heap c).data = (p.poller.heap c).data := by
      by_cases new : c = p.poller.made
      · subst new
        rw [accepted.fresh]
        exact (congrArg Solo.data (blank _ (Nat.le_refl _))).symm
      · rw [accepted.others c new]
    simp only [same, accepted.phases intact intact', call, none_, own, Machine.run_nil,
      implies_true, and_true]
    intro c later
    rw [accepted.made] at later
    exact blank c (Nat.le_of_succ_le later)
  · have wires : (p.call action).wire = (p.write j turn).wire := by
      cases action with
      | accept => simp [Poller.acting] at acts
      | _ => simp only [call, acts]
    obtain ⟨does, others⟩ := owned.write_wire turned
    have data (c : Nat) (other : c ≠ j) : (s.heap c).data = (p.poller.heap c).data :=
      (Connection.bare_eq.mp (turned.others c other)).2.1
    have phase (c : Nat) (other : c ≠ j) := turned.phases intact intact' other
    have bound := intact.bounded_of_present turned.here
    rw [wires, acts, turned.made]
    refine ⟨fun c later => ?_, fun c => ?_⟩
    · have other := Nat.ne_of_gt (Nat.lt_of_lt_of_le bound later)
      rw [phase c other, data c other, others c other]
      exact blank c later
    · by_cases same : c = j
      · subst same
        simp only [own, if_true, Machine.run_cons]
        exact congrArg (Option.bind · _) does
      · simp only [own, if_neg (Ne.symm same), Machine.run_nil, phase c same, data c same,
          others c same]
  · have wires : (p.call action).wire = p.wire := by
      cases action with
      | accept fd => exact absurd rfl (not_ fd)
      | _ => simp only [call, none_]
    have data (c : Nat) : (s.heap c).data = (p.poller.heap c).data :=
      (Connection.bare_eq.mp (rested.all c)).2.1
    simp only [wires, data, rested.phases intact intact', none_, own, Machine.run_nil,
      implies_true, and_true, rested.made]
    exact blank

theorem view_run (owned : p.Owned) (blank : p.Blank) {steps : List PollerStep}
    (ran : descriptors.run p steps = some q) (c : Nat) :
    solo.run (p.soloOf c) (view c p steps) = some (q.soloOf c) := by
  induction steps generalizing p with
  | nil =>
      obtain rfl := Option.some.inj ran
      rfl
  | cons action rest ih =>
      obtain ⟨mid, taken, later⟩ := descriptors.run_cons_some.mp ran
      obtain ⟨blank', does⟩ := owned.soloOf_step blank taken
      simp only [view, taken]
      exact solo.run_append_some.mpr ⟨_, does c, ih (owned.step taken) blank' later⟩

theorem blank_init : descriptors.init.Blank := fun _ later =>
  congrArg (Solo.mk · {} []) (intact_init.phaseOf_unborn later)

/-- Whatever the loop does for other connections in between, a connection is where its own turns
    lead, in the order of its life, and its peer is sent what they write. -/
theorem connections_apart (steps : List PollerStep) (p : Descriptors)
    (ran : descriptors.run descriptors.init steps = some p) (c : Nat) :
    solo.run solo.init (view c descriptors.init steps) =
      some ⟨p.poller.phaseOf c, (p.poller.heap c).data, p.wire c⟩ := by
  have start := blank_init c (Nat.zero_le c)
  rw [← start]
  exact view_run owned_init blank_init ran c

/-- Two connections are served in one iteration. -/
def both : List PollerStep :=
  [.accept 7, .accept 8, .poll [], .call 0, .call 0, .call 0, .call 0, .expire 0 0,
    .poll [(8, { epollin := true }), (7, { epollin := true })],
    .handle noFiles [.data getHello] [.accepted 10, .again], .conclude 1,
    .handle noFiles [.data getHello] [], .conclude 1]

theorem connections_apart_both :
    ∃ p, descriptors.run descriptors.init both = some p ∧ p.wire 0 = helloResponse ∧
      p.wire 1 = helloResponse.take 10 ∧ ∀ c, solo.run solo.init (view c descriptors.init both) =
        some ⟨p.poller.phaseOf c, (p.poller.heap c).data, p.wire c⟩ := by
  have ran : (descriptors.run descriptors.init both).any
      (fun p => p.wire 0 = helloResponse ∧ p.wire 1 = helloResponse.take 10) := by decide +kernel
  obtain ⟨p, ran, final⟩ := (Option.any_eq_true _ _).mp ran
  obtain ⟨first, second⟩ := of_decide_eq_true final
  exact ⟨p, ran, first, second, connections_apart both p ran⟩

end Descriptors

end Corio.Epoll
