import Corio.Uring.Connections

/-! # A task on its own

What a worker does for one detached task, and nothing else: a stack of coroutines that
wait for each other. Seen from any of its tasks, a run of the worker is a run of such a
stack, whatever the other tasks do in between.
-/

namespace Corio.Uring

variable {β ρ ω : Type}

/-- The coroutines of a detached task. -/
structure Stack (β ρ : Type) where
  /-- The one that goes on next and its callers, none when the task has ended. -/
  bodies : List β
  /-- What it goes on with, unless it is suspended on an operation. -/
  signal : Option (Signal ρ)

inductive AloneStep (ω : Type) where
  | exec (world : ω)
  | complete (res : Int) (chunk : Bytes)

namespace Stack

def exec (P : Program β ρ ω) (s : Stack β ρ) (world : ω) : Option (Stack β ρ) :=
  match s.bodies, s.signal with
  | body :: callers, some signal =>
      match P.go world body signal with
      | none => none
      | some (.awaitOperation body) => some ⟨body :: callers, none⟩
      | some (.awaitTask child body) => some ⟨child :: body :: callers, some .begin⟩
      | some (.finish result) => some ⟨callers, some (P.awaitResume result)⟩
  | _, _ => none

def complete (s : Stack β ρ) (res : Int) (chunk : Bytes) : Option (Stack β ρ) :=
  match s.bodies, s.signal with
  | _ :: _, none => some { s with signal := some (.completed res chunk) }
  | _, _ => none

end Stack

def alone (P : Program β ρ ω) (fd : Nat) : Machine (Stack β ρ) (AloneStep ω) where
  init := ⟨[P.detached fd], some .begin⟩
  step s action :=
    match action with
    | .exec world => s.exec P world
    | .complete res chunk => s.complete res chunk

namespace Worker

/-- The detached task that a step of the worker is about, and what it does there. -/
def acting (s : Worker β ρ) : WorkerStep ω → Option (Handle × AloneStep ω)
  | .exec world => s.running.map fun running => (s.root running.2, .exec world)
  | .complete i res chunk => s.pending[i]?.map fun h => (s.root h, .complete res chunk)
  | .start _ | .take => none

/-- Steps of one detached task. -/
def own (r : Handle) : Option (Handle × AloneStep ω) → List (AloneStep ω)
  | some (root, step) => if root = r then [step] else []
  | none => []

/-- A run of the worker as one detached task sees it. -/
def view (P : Program β ρ ω) (r : Handle) : Worker β ρ → List (WorkerStep ω) → List (AloneStep ω)
  | _, [] => []
  | s, action :: rest =>
      match (worker P).step s action with
      | none => []
      | some next => own r (s.acting action) ++ view P r next rest

/-- Tokens that are not in the hands of the kernel. -/
def scheduled (s : Worker β ρ) : List Handle :=
  (s.running.map Prod.snd).toList ++ s.ready.map ReadyItem.handle

/-- The frames from `h` up to the first one of the task, each waiting for the one before. -/
inductive Waits (frames : Handle → Option (Frame β ρ)) (r : Handle) : Handle → List β → Prop where
  | root {frame : Frame β ρ} : frames r = some frame → frame.continuation = none →
    Waits frames r r [frame.body]
  | call {h c : Handle} {frame : Frame β ρ} {bodies : List β} : frames h = some frame →
    frame.continuation = some c → Waits frames r c bodies →
    Waits frames r h (frame.body :: bodies)

/-- What the frames of a detached task are, as a stack. -/
inductive Seen (s : Worker β ρ) (r : Handle) (t : Stack β ρ) : Prop where
  | ended : t.bodies = [] → r < s.next → (∀ h ∈ s.tokens, s.root h ≠ r) → Seen s r t
  | waiting {h : Handle} : h ∈ s.pending → s.root h = r → Waits s.frames r h t.bodies →
    t.signal = none → Seen s r t
  | goingOn {h : Handle} {frame : Frame β ρ} : h ∈ s.scheduled → s.root h = r →
    Waits s.frames r h t.bodies → s.frames h = some frame → t.signal = some frame.signal →
    Seen s r t

variable {P : Program β ρ ω} {s s' : Worker β ρ} {r h c : Handle} {t : Stack β ρ}
  {item : ReadyItem} {frame : Frame β ρ} {bodies : List β}

theorem tokens_eq (s : Worker β ρ) : s.tokens = s.scheduled ++ s.pending := by
  simp only [tokens, scheduled, List.append_assoc]

theorem scheduled_token (member : h ∈ s.scheduled) : h ∈ s.tokens := by
  rw [tokens_eq]
  exact List.mem_append_left _ member

/-- A task has one token. -/
theorem token_eq (kept : Kept P s) {h' : Handle} (token : h ∈ s.tokens) (token' : h' ∈ s.tokens)
    (same : s.root h = s.root h') : h = h' :=
  List.inj_on_of_nodup_map kept.sound.single token token' same

/-- A token is with the kernel or it is not. -/
theorem scheduled_not_pending (kept : Kept P s) (member : h ∈ s.scheduled) : h ∉ s.pending := by
  have nodup : s.tokens.Nodup := kept.sound.single.of_map
  rw [tokens_eq, List.nodup_append] at nodup
  exact fun other => nodup.2.2 h member h other rfl

/-- A frame that another one waits for belongs to the same task, and has no token. -/
theorem caller_root (kept : Kept P s) (found : s.frames h = some frame)
    (continues : frame.continuation = some c) : s.root c = s.root h ∧ c ∉ s.tokens := by
  have shape : s.threads.frame h = some ⟨some c, frame.done⟩ := by
    simp only [threads, Function.comp_apply, found, Option.map_some, Frame.shape, continues]
  exact (kept.sound.waiting h c frame.done shape).2

/-- Frames outside of the chain do not matter to it, nor does what its frames go on with. -/
theorem Waits.mono {frames frames' : Handle → Option (Frame β ρ)} {Q : Handle → Prop}
    (waits : Waits frames r h bodies) (start : Q h)
    (closed : ∀ x frame c, Q x → frames x = some frame → frame.continuation = some c → Q c)
    (same : ∀ x frame, Q x → frames x = some frame →
      ∃ signal done, frames' x = some ⟨frame.body, signal, frame.continuation, done⟩) :
    Waits frames' r h bodies := by
  induction waits with
  | root found first =>
      obtain ⟨signal, done, found'⟩ := same _ _ start found
      have chain := Waits.root found' first
      exact chain
  | call found continues _ ih =>
      obtain ⟨signal, done, found'⟩ := same _ _ start found
      have chain := Waits.call found' continues (ih (closed _ _ _ start found continues))
      exact chain

/-- Callers do not notice what happens to frames with a token and to new ones. -/
theorem Waits.callers {frames' : Handle → Option (Frame β ρ)} (kept : Kept P s)
    (waits : Waits s.frames r c bodies) (apart : c ∉ s.tokens)
    (same : ∀ x frame, x ∉ s.tokens → x ≠ s.next → s.frames x = some frame →
      ∃ signal done, frames' x = some ⟨frame.body, signal, frame.continuation, done⟩) :
    Waits frames' r c bodies :=
  waits.mono (Q := (· ∉ s.tokens)) apart
    (fun _ _ _ _ found continues => (caller_root kept found continues).2)
    (fun x frame notToken found =>
      same x frame notToken (Nat.ne_of_lt (lt_next kept.sound found)) found)

/-- A step leaves a task alone that it is not about. -/
theorem Seen.other (kept : Kept P s) (seen : Seen s r t)
    (frames : ∀ x frame, s.root x = r → s.frames x = some frame → s'.frames x = some frame)
    (roots : ∀ x, (s.frames x).isSome → s'.root x = s.root x)
    (pending : ∀ x ∈ s.pending, s.root x = r → x ∈ s'.pending)
    (scheduled : ∀ x ∈ s.scheduled, s.root x = r → x ∈ s'.scheduled)
    (older : s.next ≤ s'.next)
    (ended : ∀ x ∈ s'.tokens, s'.root x = r → ∃ y ∈ s.tokens, s.root y = r) : Seen s' r t := by
  have chain {h : Handle} (root : s.root h = r) (waits : Waits s.frames r h t.bodies) :
      Waits s'.frames r h t.bodies := by
    refine waits.mono (Q := fun x => s.root x = r) root ?_ ?_
    · intro x frame c root found continues
      exact (caller_root kept found continues).1.trans root
    · intro x frame root found
      exact ⟨frame.signal, frame.done, frames x frame root found⟩
  have stays {h : Handle} (token : h ∈ s.tokens) (root : s.root h = r) : s'.root h = r := by
    obtain ⟨frame, found, -⟩ := frame_of_token kept.sound token
    exact (roots h (by rw [found]; rfl)).trans root
  cases seen with
  | ended none_ old alone =>
      refine .ended none_ (Nat.lt_of_lt_of_le old older) fun x token root => ?_
      obtain ⟨y, token', root'⟩ := ended x token root
      exact alone y token' root'
  | waiting member root waits silent =>
      exact .waiting (pending _ member root) (stays (pending_token member) root)
        (chain root waits) silent
  | goingOn member root waits found signal =>
      exact .goingOn (scheduled _ member root) (stays (scheduled_token member) root)
        (chain root waits) (frames _ _ root found) signal

/-- The task that runs, as a stack. -/
theorem Seen.ofRunning (kept : Kept P s) (running : s.running = some (item, h))
    (found : s.frames h = some frame) (isRoot : s.root h = r) (seen : Seen s r t) :
    ∃ callers, t = ⟨frame.body :: callers, some frame.signal⟩ ∧
      (frame.continuation = none ∧ callers = [] ∧ h = r ∨
        ∃ c, frame.continuation = some c ∧ Waits s.frames r c callers) := by
  have token := running_token running
  have scheduled : h ∈ s.scheduled := by simp [Worker.scheduled, running]
  obtain ⟨bodies, signal⟩ := t
  cases seen with
  | ended none_ old alone => exact absurd isRoot (alone h token)
  | waiting member root =>
      obtain rfl := token_eq kept (pending_token member) token (root.trans isRoot.symm)
      exact absurd member (scheduled_not_pending kept scheduled)
  | goingOn member root waits found' signal' =>
      obtain rfl := token_eq kept (scheduled_token member) token (root.trans isRoot.symm)
      obtain rfl := Option.some.inj (found.symm.trans found')
      obtain rfl : signal = _ := signal'
      clear root isRoot
      cases waits with
      | root same first =>
          obtain rfl := Option.some.inj (found.symm.trans same)
          exact ⟨[], rfl, .inl ⟨first, rfl, rfl⟩⟩
      | call same continues later =>
          obtain rfl := Option.some.inj (found.symm.trans same)
          exact ⟨_, rfl, .inr ⟨_, continues, later⟩⟩

/-- The task that a suspended coroutine belongs to, as a stack. -/
theorem Seen.ofPending (kept : Kept P s) (member : h ∈ s.pending)
    (found : s.frames h = some frame) (isRoot : s.root h = r) (seen : Seen s r t) :
    ∃ callers, t = ⟨frame.body :: callers, none⟩ := by
  have token := pending_token member
  obtain ⟨bodies, signal⟩ := t
  cases seen with
  | ended none_ old alone => exact absurd isRoot (alone h token)
  | goingOn member' root =>
      obtain rfl := token_eq kept (scheduled_token member') token (root.trans isRoot.symm)
      exact absurd member (scheduled_not_pending kept member')
  | waiting member' root waits silent =>
      obtain rfl := token_eq kept (pending_token member') token (root.trans isRoot.symm)
      obtain rfl : signal = _ := silent
      clear root isRoot
      cases waits with
      | root same first | call same continues later =>
          obtain rfl := Option.some.inj (found.symm.trans same)
          exact ⟨_, rfl⟩

/-- The item that the worker is at stays, unless its task ends. -/
theorem suspend_eq (kept : Kept P s) (running : s.running = some (item, h))
    (found : s.frames h = some frame) (body : β) :
    Worker.suspend P s item h frame body =
      { s.setFrame h { frame with body := body } with
          pending := s.pending ++ [h], suspended := s.suspended ++ [s.root h],
          running := none } := by
  have still := isDone_setFrame { frame with body := body } found rfl item.handle
  exact resumed_keeps fun flag => still.trans (item_notDone kept running flag)

/-- A destroyed frame is all that goes away with it. -/
theorem destroy_rest (s : Worker β ρ) (h : Handle) :
    (s.destroy P h).running = s.running ∧ (s.destroy P h).ready = s.ready ∧
      (s.destroy P h).pending = s.pending ∧ (s.destroy P h).root = s.root ∧
      (s.destroy P h).next = s.next ∧ (s.destroy P h).started = s.started := by
  unfold destroy
  split <;> exact ⟨rfl, rfl, rfl, rfl, rfl, rfl⟩

theorem detach_rest (s : Worker β ρ) (item : ReadyItem) (h : Handle) (frame : Frame β ρ) :
    (Worker.detach P s item h frame).running = none ∧
      (Worker.detach P s item h frame).ready = s.ready ∧
      (Worker.detach P s item h frame).pending = s.pending ∧
      (Worker.detach P s item h frame).root = s.root ∧
      (Worker.detach P s item h frame).next = s.next ∧
      (Worker.detach P s item h frame).started = s.started := by
  unfold Worker.detach resumed
  simp only
  split
  · exact destroy_rest (P := P)
      { s.setFrame h { frame with done := true } with
        finished := s.finished ++ [h], running := none } item.handle
  · exact ⟨rfl, rfl, rfl, rfl, rfl, rfl⟩

section Exec

variable {world : ω} {body child : β} {result : ρ} (kept : Kept P s)
  (running : s.running = some (item, h)) (found : s.frames h = some frame)
  (isRoot : s.root h = r) {callers : List β}

include kept running found isRoot

theorem Seen.suspend
    (chain : frame.continuation = none ∧ callers = [] ∧ h = r ∨
      ∃ c, frame.continuation = some c ∧ Waits s.frames r c callers) :
    Seen (Worker.suspend P s item h frame body) r ⟨body :: callers, none⟩ := by
  rw [suspend_eq kept running found]
  have there : (s.setFrame h { frame with body := body }).frames h =
      some { frame with body := body } := Function.update_self _ _ _
  refine .waiting (List.mem_append_right _ List.mem_cons_self) isRoot ?_ rfl
  rcases chain with ⟨first, rfl, rfl⟩ | ⟨c, continues, waits⟩
  · exact .root there first
  · refine .call there continues
      (waits.callers kept (caller_root kept found continues).2 fun x frame notToken _ found => ?_)
    have other : x ≠ h := fun same => notToken (same ▸ running_token running)
    exact ⟨_, _, by simpa only [setFrame, Function.update_of_ne other] using found⟩

theorem Seen.call
    (chain : frame.continuation = none ∧ callers = [] ∧ h = r ∨
      ∃ c, frame.continuation = some c ∧ Waits s.frames r c callers) :
    Seen (s.call item h frame child body) r ⟨child :: body :: callers, some .begin⟩ := by
  have elsewhere : h ≠ s.next := Nat.ne_of_lt (lt_next kept.sound found)
  have new : (s.call item h frame child body).frames s.next = some ⟨child, .begin, some h, false⟩ :=
    Function.update_self _ _ _
  have there : (s.call item h frame child body).frames h = some { frame with body := body } := by
    simp only [Worker.call, setFrame, Function.update_of_ne elsewhere, Function.update_self]
  have root : (s.call item h frame child body).root s.next = r :=
    (Function.update_self _ _ _).trans isRoot
  refine .goingOn (by simp [Worker.scheduled, Worker.call]) root ?_ new rfl
  refine .call new rfl ?_
  rcases chain with ⟨first, rfl, rfl⟩ | ⟨c, continues, waits⟩
  · exact .root there first
  · refine .call there continues
      (waits.callers kept (caller_root kept found continues).2 fun x frame notToken old found => ?_)
    have other : x ≠ h := fun same => notToken (same ▸ running_token running)
    exact ⟨_, _, by
      simpa only [Worker.call, setFrame, Function.update_of_ne other, Function.update_of_ne old]
        using found⟩

theorem Seen.giveBack {caller : Frame β ρ} (continues : frame.continuation = some c)
    (foundCaller : s.frames c = some caller) (waits : Waits s.frames r c callers) :
    Seen (giveBack P s item h c caller result) r ⟨callers, some (P.awaitResume result)⟩ := by
  obtain ⟨root, apart⟩ := caller_root kept found continues
  have elsewhere : c ≠ h := fun same => apart (same ▸ running_token running)
  have there : (Worker.giveBack P s item h c caller result).frames c =
      some { caller with signal := P.awaitResume result } := Function.update_self _ _ _
  have roots : (Worker.giveBack P s item h c caller result).root = s.root := by
    simp only [Worker.giveBack, setFrame, destroy_eq found]
  refine .goingOn (by simp [Worker.scheduled, Worker.giveBack]) (roots ▸ root.trans isRoot) ?_
    there rfl
  refine waits.callers kept apart fun x frame notToken _ found' => ?_
  by_cases here : x = c
  · subst here
    obtain rfl := Option.some.inj (foundCaller.symm.trans found')
    exact ⟨_, _, there⟩
  · have other : x ≠ h := fun same => notToken (same ▸ running_token running)
    refine ⟨frame.signal, frame.done, ?_⟩
    simpa only [Worker.giveBack, setFrame, destroy_eq found, Function.update_of_ne here,
      Function.update_of_ne other] using found'

omit found in
/-- Behind the final suspend of its first coroutine nothing of a task can be resumed. -/
theorem Seen.detach : Seen (detach P s item h frame) r ⟨[], some (P.awaitResume result)⟩ := by
  obtain ⟨idle, ready, pending, roots, next, -⟩ := detach_rest (P := P) s item h frame
  refine .ended rfl ?_ fun x member => ?_
  · obtain ⟨first, atRoot, -⟩ := frame_of_root kept.sound (running_token running)
    rw [next, ← isRoot]
    exact lt_next kept.sound atRoot
  · rw [tokens, idle, ready, pending] at member
    rw [roots, ← isRoot]
    exact kept.sound.token_unique (tokens_running running) member

/-- A task goes on as it would alone. -/
theorem Seen.exec (seen : Seen s r t) (taken : s.exec P world = some s') :
    ∃ t', t.exec P world = some t' ∧ Seen s' r t' := by
  obtain ⟨callers, rfl, chain⟩ := seen.ofRunning kept running found isRoot
  simp only [Worker.exec, running, found] at taken
  simp only [Stack.exec]
  cases goes : P.go world frame.body frame.signal with
  | none =>
      rw [goes] at taken
      cases taken
  | some effect =>
      rw [goes] at taken
      cases effect with
      | awaitOperation body =>
          obtain rfl := Option.some.inj taken
          exact ⟨_, rfl, .suspend kept running found isRoot chain⟩
      | awaitTask child body =>
          obtain rfl := Option.some.inj taken
          exact ⟨_, rfl, .call kept running found isRoot chain⟩
      | finish result =>
          refine ⟨_, rfl, ?_⟩
          rcases chain with ⟨first, rfl, rfl⟩ | ⟨c, continues, waits⟩
          · rw [first] at taken
            obtain rfl := Option.some.inj taken
            exact .detach kept running isRoot
          · simp only [continues] at taken
            cases foundCaller : s.frames c with
            | none => simp [foundCaller] at taken
            | some caller =>
                simp only [foundCaller, Option.some.injEq] at taken
                obtain rfl := taken
                exact .giveBack kept running found isRoot continues foundCaller waits

end Exec

/-- A frame is destroyed behind a resumption only if it belongs to the task that ran. -/
theorem detach_frames (kept : Kept P s) (running : s.running = some (item, h)) {x : Handle}
    (other : s.root x ≠ s.root h) : (Worker.detach P s item h frame).frames x = s.frames x := by
  have token := running_token running
  have elsewhere : x ≠ h := fun same => other (same ▸ rfl)
  unfold Worker.detach resumed
  simp only
  split
  · rename_i ends
    have rootIs := (kept.dues.running item h running).own ends.1
    have rootOfRoot : s.root (s.root h) = s.root h :=
      kept.sound.isRoot _ false (kept.sound.rootLive h token)
    have apart : x ≠ item.handle := by
      rintro rfl
      exact other (rootIs ▸ rootOfRoot)
    unfold destroy
    split
    · simp only [setFrame, Function.update_of_ne elsewhere]
    · simp only [setFrame, Function.update_of_ne elsewhere, Function.update_of_ne apart]
  · simp only [setFrame, Function.update_of_ne elsewhere]

section Other

variable {world : ω} {body child : β} {result : ρ} (kept : Kept P s)
  (running : s.running = some (item, h)) (found : s.frames h = some frame)
  (other : s.root h ≠ r) (seen : Seen s r t)

include other in
theorem root_ne {x : Handle} (root : s.root x = r) : x ≠ h := by
  rintro rfl
  exact other root

include running other in
/-- What is scheduled of a task that does not run is in the ready queue. -/
theorem scheduled_other {x : Handle} (member : x ∈ s.scheduled) (root : s.root x = r) :
    x ∈ s.ready.map ReadyItem.handle := by
  simp only [Worker.scheduled, running, Option.map_some, Option.toList_some,
    List.singleton_append, List.mem_cons] at member
  exact member.resolve_left (root_ne other root)

include kept running found other seen

theorem Seen.suspendOther : Seen (Worker.suspend P s item h frame body) r t := by
  rw [suspend_eq kept running found]
  refine seen.other kept ?_ ?_ ?_ ?_ ?_ ?_
  · intro x frame root found
    simpa only [setFrame, Function.update_of_ne (root_ne other root)] using found
  · exact fun _ _ => rfl
  · exact fun x member _ => List.mem_append_left _ member
  · exact fun x member root => scheduled_other running other member root
  · exact Nat.le_refl _
  · intro x member root
    refine ⟨x, ?_, root⟩
    rw [tokens_running running]
    simp only [tokens, setFrame, Option.map_none, Option.toList_none, List.nil_append,
      List.mem_append, List.mem_cons, List.not_mem_nil, or_false] at member ⊢
    tauto

omit found in
theorem Seen.callOther : Seen (s.call item h frame child body) r t := by
  have old {x : Handle} (exists_ : (s.frames x).isSome) : x ≠ s.next := by
    obtain ⟨frame, found⟩ := Option.isSome_iff_exists.mp exists_
    exact Nat.ne_of_lt (lt_next kept.sound found)
  refine seen.other kept ?_ ?_ ?_ ?_ ?_ ?_
  · intro x frame root found
    have new : x ≠ s.next := old (by rw [found]; rfl)
    simpa only [Worker.call, setFrame, Function.update_of_ne (root_ne other root),
      Function.update_of_ne new] using found
  · exact fun x exists_ => Function.update_of_ne (old exists_) _ _
  · exact fun x member _ => member
  · exact fun x member root =>
      List.mem_append_right _ (scheduled_other running other member root)
  · exact Nat.le_succ _
  · intro x member root
    by_cases new : x = s.next
    · subst new
      exact absurd ((Function.update_self _ _ _).symm.trans root) other
    · refine ⟨x, ?_, (Function.update_of_ne new _ _).symm.trans root⟩
      rw [tokens_running running]
      simp only [tokens, Worker.call, setFrame, Option.map_some, Option.toList_some,
        List.singleton_append, List.mem_cons, new, false_or] at member
      exact List.mem_cons_of_mem _ member

omit found in
theorem Seen.detachOther : Seen (Worker.detach P s item h frame) r t := by
  obtain ⟨idle, ready, pending, roots, next, -⟩ := detach_rest (P := P) s item h frame
  refine seen.other kept ?_ ?_ ?_ ?_ ?_ ?_
  · intro x frame root found
    rw [detach_frames kept running (root ▸ other.symm), found]
  · exact fun x _ => by rw [roots]
  · exact fun x member _ => by rwa [pending]
  · intro x member root
    rw [Worker.scheduled, idle, ready]
    exact scheduled_other running other member root
  · exact next.ge
  · intro x member root
    refine ⟨x, ?_, by rwa [roots] at root⟩
    rw [tokens, idle, ready, pending] at member
    rw [tokens_running running]
    exact List.mem_cons_of_mem _ member

theorem Seen.giveBackOther {caller : Frame β ρ} (continues : frame.continuation = some c) :
    Seen (Worker.giveBack P s item h c caller result) r t := by
  obtain ⟨sameRoot, -⟩ := caller_root kept found continues
  have notCaller {x : Handle} (root : s.root x = r) : x ≠ c := by
    rintro rfl
    exact other (sameRoot.symm.trans root)
  have back : Worker.giveBack P s item h c caller result =
      { s with
        frames := Function.update (Function.update s.frames h none) c
          (some { caller with signal := P.awaitResume result })
        running := some (item, c)
        destroyed := s.destroyed ++ [h]
        closed := s.closed ++ (P.owned frame.body).toList.map fun fd => (h, fd) } := by
    simp only [Worker.giveBack, setFrame, destroy_eq found]
  rw [back]
  refine seen.other kept ?_ ?_ ?_ ?_ ?_ ?_
  · intro x frame root found
    simpa only [Function.update_of_ne (notCaller root),
      Function.update_of_ne (root_ne other root)] using found
  · exact fun _ _ => rfl
  · exact fun x member _ => member
  · exact fun x member root =>
      List.mem_append_right _ (scheduled_other running other member root)
  · exact Nat.le_refl _
  · intro x member root
    refine ⟨x, ?_, root⟩
    rw [tokens_running running]
    simp only [tokens, Option.map_some, Option.toList_some, List.singleton_append,
      List.mem_cons, notCaller root, false_or] at member
    exact List.mem_cons_of_mem _ member

omit found in
/-- Another task goes on. -/
theorem Seen.execOther (taken : s.exec P world = some s') : Seen s' r t := by
  simp only [Worker.exec, running] at taken
  split at taken
  · cases taken
  · rename_i frame found
    split at taken
    · cases taken
    · exact Option.some.inj taken ▸ seen.suspendOther kept running found other
    · exact Option.some.inj taken ▸ seen.callOther kept running other
    · split at taken
      · exact Option.some.inj taken ▸ seen.detachOther kept running other
      · rename_i c continues
        split at taken
        · cases taken
        · exact Option.some.inj taken ▸ seen.giveBackOther kept running found other continues

end Other

/-- A new task. -/
theorem Seen.start (s : Worker β ρ) (fd : Nat) :
    Seen (s.start P fd) s.next (alone P fd).init := by
  have there : (s.start P fd).frames s.next = some ⟨P.detached fd, .begin, none, false⟩ :=
    Function.update_self _ _ _
  exact .goingOn (by simp [scheduled, Worker.start]) (Function.update_self _ _ _)
    (.root there rfl) there rfl

theorem Seen.startOther (kept : Kept P s) (fd : Nat)
    (old : r < s.next) (seen : Seen s r t) : Seen (s.start P fd) r t := by
  refine seen.other kept ?_ ?_ ?_ ?_ (Nat.le_succ _) ?_
  · intro x frame root found
    have elsewhere : x ≠ s.next := Nat.ne_of_lt (lt_next kept.sound found)
    simpa only [Worker.start, setFrame, Function.update_of_ne elsewhere] using found
  · intro x exists_
    obtain ⟨frame, found⟩ := Option.isSome_iff_exists.mp exists_
    exact Function.update_of_ne (Nat.ne_of_lt (lt_next kept.sound found)) _ _
  · exact fun x member _ => member
  · intro x member _
    simp only [scheduled, Worker.start, setFrame, List.map_append, List.mem_append] at member ⊢
    tauto
  · intro x member root
    by_cases new : x = s.next
    · subst new
      exact absurd ((Function.update_self _ _ _).symm.trans root) (Nat.ne_of_gt old)
    · refine ⟨x, ?_, (Function.update_of_ne new _ _).symm.trans root⟩
      simp only [tokens, Worker.start, setFrame, List.map_append, List.map_cons, List.map_nil,
        List.mem_append, List.mem_singleton, new, or_false] at member ⊢
      tauto

theorem Seen.take (kept : Kept P s) (seen : Seen s r t) (taken : s.take = some s') :
    Seen s' r t := by
  unfold Worker.take at taken
  split at taken
  · rename_i item ready idle queued
    obtain rfl := Option.some.inj taken
    refine seen.other kept (fun _ _ _ found => found) (fun _ _ => rfl) (fun _ member _ => member)
      ?_ (Nat.le_refl _) ?_
    · intro x member _
      simpa [scheduled, idle, queued] using member
    · intro x member root
      exact ⟨x, by simpa [tokens, idle, queued] using member, root⟩
  · cases taken

/-- A completion of a suspended coroutine's operation concerns its task only. -/
theorem Seen.complete {i : Nat} {res : Int} {chunk : Bytes} (kept : Kept P s)
    (at_ : s.pending[i]? = some h) (seen : Seen s r t)
    (taken : s.complete i res chunk = some s') :
    if s.root h = r then ∃ t', t.complete res chunk = some t' ∧ Seen s' r t' else Seen s' r t := by
  have member : h ∈ s.pending := List.mem_of_getElem? at_
  have token := pending_token member
  obtain ⟨inside, isAt⟩ := List.getElem?_eq_some_iff.mp at_
  have parts : (h :: s.pending.eraseIdx i).Perm s.pending :=
    isAt ▸ List.getElem_cons_eraseIdx_perm inside
  simp only [Worker.complete, at_] at taken
  split at taken
  · rename_i h' idle same
    obtain rfl := Option.some.inj same
    split at taken
    · cases taken
    · rename_i frame found
      obtain rfl := Option.some.inj taken
      split
      · rename_i isRoot
        have chain {bodies : List β} (waits : Waits s.frames r h bodies) :
            Waits (Function.update s.frames h
              (some { frame with signal := .completed res chunk })) r h bodies := by
          refine waits.mono (Q := fun _ => True) trivial (fun _ _ _ _ _ _ => trivial) ?_
          intro x frame' _ found'
          by_cases here : x = h
          · subst here
            obtain rfl := Option.some.inj (found.symm.trans found')
            exact ⟨_, _, Function.update_self _ _ _⟩
          · exact ⟨_, _, by rw [Function.update_of_ne here, found']⟩
        obtain ⟨bodies, signal⟩ := t
        cases seen with
        | ended none_ old alone => exact absurd isRoot (alone h token)
        | waiting member' root waits silent =>
            obtain rfl := token_eq kept (pending_token member') token (root.trans isRoot.symm)
            obtain rfl : signal = none := silent
            have goesOn : (Stack.mk bodies (none : Option (Signal ρ))).complete res chunk =
                some ⟨bodies, some (.completed res chunk)⟩ := by
              cases waits <;> rfl
            exact ⟨_, goesOn, .goingOn (by simp [scheduled, setFrame]) root (chain waits)
              (Function.update_self _ _ _) rfl⟩
        | goingOn member' root =>
            obtain rfl := token_eq kept (scheduled_token member') token (root.trans isRoot.symm)
            exact absurd member (scheduled_not_pending kept member')
      · rename_i other
        refine seen.other kept ?_ (fun _ _ => rfl) ?_ ?_ (Nat.le_refl _) ?_
        · intro x frame root found
          have elsewhere : x ≠ h := by
            rintro rfl
            exact other root
          simpa only [setFrame, Function.update_of_ne elsewhere] using found
        · intro x member root
          refine (List.mem_cons.mp (parts.mem_iff.mpr member)).resolve_left ?_
          rintro rfl
          exact other root
        · intro x member _
          simp only [scheduled, setFrame, List.map_append, List.mem_append] at member ⊢
          tauto
        · intro x member' root
          refine ⟨x, ?_, root⟩
          have whole := parts.mem_iff (a := x)
          simp only [tokens, setFrame, idle, Option.map_none, Option.toList_none, List.nil_append,
            List.map_append, List.map_cons, List.map_nil, List.mem_append, List.mem_cons,
            List.not_mem_nil, or_false] at member' whole ⊢
          tauto
  · cases taken

/-- One step of the worker is a step of each task it is about. -/
theorem Seen.step {fd : Nat} {action : WorkerStep ω} (kept : Kept P s) (old : r < s.next)
    (seen : Seen s r t) (taken : (worker P).step s action = some s') :
    ∃ t', (alone P fd).run t (own r (s.acting action)) = some t' ∧ Seen s' r t' := by
  cases action with
  | start fd' =>
      simp only [worker, Option.ite_none_right_eq_some, Option.some.injEq] at taken
      exact ⟨t, rfl, taken.2 ▸ seen.startOther kept fd' old⟩
  | take => exact ⟨t, rfl, seen.take kept taken⟩
  | exec world =>
      change s.exec P world = some s' at taken
      cases running : s.running with
      | none => simp [Worker.exec, running] at taken
      | some current =>
          obtain ⟨item, h⟩ := current
          by_cases isRoot : s.root h = r
          · obtain ⟨frame, found, -⟩ := frame_of_token kept.sound (running_token running)
            obtain ⟨t', does, seen'⟩ := seen.exec kept running found isRoot taken
            refine ⟨t', ?_, seen'⟩
            simpa [own, acting, running, isRoot, Machine.run_cons, alone] using does
          · refine ⟨t, ?_, seen.execOther kept running isRoot taken⟩
            simp [own, acting, running, isRoot]
  | complete i res chunk =>
      change s.complete i res chunk = some s' at taken
      cases at_ : s.pending[i]? with
      | none =>
          simp only [Worker.complete, at_] at taken
          split at taken <;> simp_all
      | some h =>
          have goes := seen.complete kept at_ taken
          by_cases isRoot : s.root h = r
          · rw [if_pos isRoot] at goes
            obtain ⟨t', does, seen'⟩ := goes
            refine ⟨t', ?_, seen'⟩
            simpa [own, acting, at_, isRoot, Machine.run_cons, alone] using does
          · rw [if_neg isRoot] at goes
            exact ⟨t, by simp [own, acting, at_, isRoot], goes⟩

theorem exec_rest {world : ω} (kept : Kept P s) (taken : s.exec P world = some s') :
    s.next ≤ s'.next ∧ s'.started = s.started := by
  unfold Worker.exec at taken
  split at taken
  · cases taken
  · rename_i item h running
    split at taken
    · cases taken
    · rename_i frame found
      split at taken
      · cases taken
      · obtain rfl := Option.some.inj taken
        rw [suspend_eq kept running found]
        exact ⟨Nat.le_refl _, rfl⟩
      · obtain rfl := Option.some.inj taken
        exact ⟨Nat.le_succ _, rfl⟩
      · split at taken
        · obtain rfl := Option.some.inj taken
          obtain ⟨-, -, -, -, next, started⟩ := detach_rest (P := P) s item h frame
          exact ⟨next.ge, started⟩
        · split at taken
          · cases taken
          · obtain rfl := Option.some.inj taken
            simp only [Worker.giveBack, setFrame, destroy_eq found]
            exact ⟨Nat.le_refl _, trivial⟩

/-- Only `start` begins a task. -/
theorem started_step {action : WorkerStep ω} (kept : Kept P s)
    (taken : (worker P).step s action = some s') :
    s.next ≤ s'.next ∧
      ((∃ fd, action = .start fd ∧ s' = s.start P fd) ∨ s'.started = s.started) := by
  cases action with
  | start fd =>
      simp only [worker, Option.ite_none_right_eq_some, Option.some.injEq] at taken
      obtain ⟨-, rfl⟩ := taken
      exact ⟨Nat.le_succ _, .inl ⟨fd, rfl, rfl⟩⟩
  | take =>
      simp only [worker, Worker.take] at taken
      split at taken
      · obtain rfl := Option.some.inj taken
        exact ⟨Nat.le_refl _, .inr rfl⟩
      · cases taken
  | exec world =>
      obtain ⟨grows, same⟩ := exec_rest kept taken
      exact ⟨grows, .inr same⟩
  | complete i res chunk =>
      simp only [worker, Worker.complete] at taken
      split at taken
      · split at taken
        · cases taken
        · obtain rfl := Option.some.inj taken
          exact ⟨Nat.le_refl _, .inr rfl⟩
      · cases taken

end Worker

end Corio.Uring
