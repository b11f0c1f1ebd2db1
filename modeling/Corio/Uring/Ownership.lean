import Corio.Uring.Tasks

/-! # Who destroys a detached task

Every connection has one handle in the hands of the scheduler, an operation or the
running thread. The item that resumes it carries the flag exactly until the task is
first suspended on an operation, so the frame is destroyed only if that never happens.
-/

namespace Corio.Uring

variable {β ρ ω : Type}

def Frame.shape (frame : Frame β ρ) : FrameShape := ⟨frame.continuation, frame.done⟩

namespace Worker

/-- The handles that will be resumed. -/
def tokens (s : Worker β ρ) : List Handle :=
  (s.running.map Prod.snd).toList ++ (s.ready.map ReadyItem.handle ++ s.pending)

def threads (s : Worker β ρ) : Threads :=
  ⟨Option.map Frame.shape ∘ s.frames, s.root, s.next, s.tokens⟩

/-- The item that resumes a coroutine has the flag until its task is suspended, and is
    then the item of the task itself. -/
structure Due (s : Worker β ρ) (item : ReadyItem) (h : Handle) : Prop where
  flag : item.destroyAfterResume = true ↔ s.root h ∉ s.suspended
  own : item.destroyAfterResume = true → item.handle = s.root h

structure Dues (s : Worker β ρ) : Prop where
  ready : ∀ item ∈ s.ready, Due s item item.handle
  running : ∀ item h, s.running = some (item, h) → Due s item h
  pending : ∀ h ∈ s.pending, s.root h ∈ s.suspended

/-- What became of the detached tasks. -/
structure Fate (P : Program β ρ ω) (s : Worker β ρ) : Prop where
  old : ∀ r ∈ s.suspended, r < s.next
  gone : ∀ h ∈ s.destroyed, s.frames h = none ∧ h < s.next
  once : s.destroyed.Nodup
  closedOnce : (s.closed.map Prod.fst).Sublist s.destroyed
  ended : ∀ r ∈ s.finished, r ∉ s.suspended → r ∈ s.destroyed
  left : ∀ r ∈ s.finished, r ∈ s.suspended → ∃ frame, s.frames r = some frame ∧ frame.done = true
  owner : ∀ r fd, (r, fd) ∈ s.started →
    (∃ frame, s.frames r = some frame ∧ P.owned frame.body = some fd) ∨
      r ∈ s.destroyed ∧ (r, fd) ∈ s.closed

structure Kept (P : Program β ρ ω) (s : Worker β ρ) : Prop where
  sound : s.threads.Sound
  dues : Dues s
  fate : Fate P s

variable {P : Program β ρ ω} {s : Worker β ρ} {h : Handle} {frame frame' : Frame β ρ}
  {item : ReadyItem}

theorem shape_update (frames : Handle → Option (Frame β ρ)) (h : Handle)
    (value : Option (Frame β ρ)) :
    Option.map Frame.shape ∘ Function.update frames h value =
      Function.update (Option.map Frame.shape ∘ frames) h (value.map Frame.shape) :=
  Function.comp_update _ _ _ _

/-- A frame changed inside only. -/
theorem shape_same (frame' : Frame β ρ) (found : s.frames h = some frame)
    (same : frame'.shape = frame.shape) :
    Option.map Frame.shape ∘ Function.update s.frames h (some frame') =
      Option.map Frame.shape ∘ s.frames := by
  rw [shape_update, Option.map_some, same]
  refine Function.update_eq_self_iff.mpr ?_
  rw [Function.comp_apply, found, Option.map_some]

theorem frame_of_token (sound : s.threads.Sound) (token : h ∈ s.tokens) :
    ∃ frame, s.frames h = some frame ∧ frame.done = false := by
  obtain ⟨caller, shape⟩ := sound.live h token
  obtain ⟨frame, found, isShape⟩ := Option.map_eq_some_iff.mp shape
  exact ⟨frame, found, congrArg FrameShape.done isShape⟩

theorem frame_of_root (sound : s.threads.Sound) (token : h ∈ s.tokens) :
    ∃ frame, s.frames (s.root h) = some frame ∧ frame.done = false := by
  obtain ⟨frame, found, isShape⟩ := Option.map_eq_some_iff.mp (sound.rootLive h token)
  exact ⟨frame, found, congrArg FrameShape.done isShape⟩

theorem lt_next (sound : s.threads.Sound) (found : s.frames h = some frame) : h < s.next :=
  sound.fresh h (by simp only [threads, Function.comp_apply, found]; rfl)

/-- A task that can go on has not finished. -/
theorem root_unfinished (kept : Kept P s) (token : h ∈ s.tokens) : s.root h ∉ s.finished := by
  intro finished
  obtain ⟨frame, found, notDone⟩ := frame_of_root kept.sound token
  by_cases suspended : s.root h ∈ s.suspended
  · obtain ⟨other, found', done⟩ := kept.fate.left _ finished suspended
    rw [found, Option.some.injEq] at found'
    rw [← found', notDone] at done
    cases done
  · have destroyed := kept.fate.ended _ finished suspended
    rw [(kept.fate.gone _ destroyed).1] at found
    cases found

theorem Fate.setFrame (fate : Fate P s) (frame' : Frame β ρ) (found : s.frames h = some frame)
    (done : frame.done = true → frame'.done = true)
    (owned : P.owned frame'.body = P.owned frame.body) : Fate P (s.setFrame h frame') where
  old := fate.old
  gone := by
    intro x destroyed
    obtain ⟨none_, older⟩ := fate.gone x destroyed
    have other : x ≠ h := by rintro rfl; rw [found] at none_; cases none_
    exact ⟨by simpa only [Worker.setFrame, Function.update_of_ne other] using none_, older⟩
  once := fate.once
  closedOnce := fate.closedOnce
  ended := fate.ended
  left := by
    intro r finished suspended
    obtain ⟨other, found', isDone⟩ := fate.left r finished suspended
    by_cases here : r = h
    · rw [here, found, Option.some.injEq] at found'
      exact ⟨frame', by simp only [Worker.setFrame, here, Function.update_self],
        done (found' ▸ isDone)⟩
    · exact ⟨other, by simpa only [Worker.setFrame, Function.update_of_ne here] using found',
        isDone⟩
  owner := by
    intro r fd started
    refine (fate.owner r fd started).imp_left fun ⟨other, found', owns⟩ => ?_
    by_cases here : r = h
    · rw [here, found, Option.some.injEq] at found'
      exact ⟨frame', by simp only [Worker.setFrame, here, Function.update_self],
        owned.trans (found' ▸ owns)⟩
    · exact ⟨other, by simpa only [Worker.setFrame, Function.update_of_ne here] using found', owns⟩

theorem Kept.init : Kept P (worker P).init where
  sound := Threads.Sound.init id 0
  dues := ⟨by simp [worker], by simp [worker], by simp [worker]⟩
  fate := by constructor <;> simp [worker]

theorem ready_token (member : item ∈ s.ready) : item.handle ∈ s.tokens :=
  List.mem_append_right _ (List.mem_append_left _ (List.mem_map_of_mem member))

theorem pending_token (member : h ∈ s.pending) : h ∈ s.tokens :=
  List.mem_append_right _ (List.mem_append_right _ member)

theorem running_token (running : s.running = some (item, h)) : h ∈ s.tokens := by
  simp [tokens, running]

/-- A new frame is not one of those that are recorded. -/
theorem Fate.insert (fate : Fate P s) (fresh : ∀ x frame, s.frames x = some frame → x < s.next)
    (frame : Frame β ρ) : Fate P { s.setFrame s.next frame with next := s.next + 1 } where
  old := fun r suspended => Nat.lt_succ_of_lt (fate.old r suspended)
  gone := by
    intro x destroyed
    obtain ⟨none_, older⟩ := fate.gone x destroyed
    have other : x ≠ s.next := Nat.ne_of_lt older
    refine ⟨?_, Nat.lt_succ_of_lt older⟩
    simpa only [Worker.setFrame, Function.update_of_ne other] using none_
  once := fate.once
  closedOnce := fate.closedOnce
  ended := fate.ended
  left := by
    intro r finished suspended
    have other : r ≠ s.next := Nat.ne_of_lt (fate.old r suspended)
    simpa only [Worker.setFrame, Function.update_of_ne other] using fate.left r finished suspended
  owner := by
    intro r fd started
    refine (fate.owner r fd started).imp_left fun ⟨frame, found, owns⟩ => ⟨frame, ?_, owns⟩
    have other : r ≠ s.next := Nat.ne_of_lt (fresh r frame found)
    simpa only [Worker.setFrame, Function.update_of_ne other] using found

theorem Fate.start (fate : Fate P s) (sound : s.threads.Sound) (fd : Nat) :
    Fate P (s.start P fd) := by
  have inserted := fate.insert (fun _ _ => lt_next sound) ⟨P.detached fd, .begin, none, false⟩
  refine ⟨inserted.old, inserted.gone, inserted.once, inserted.closedOnce, inserted.ended,
    inserted.left, fun r owned started => ?_⟩
  rcases List.mem_append.mp started with before | new
  · exact inserted.owner r owned before
  · obtain ⟨rfl, rfl⟩ := Prod.mk.inj (List.mem_singleton.mp new)
    exact .inl ⟨⟨P.detached owned, .begin, none, false⟩,
      by simp only [Worker.start, Worker.setFrame, Function.update_self], P.owned_detached owned⟩

theorem destroy_eq (found : s.frames h = some frame) :
    s.destroy P h =
      { s with frames := Function.update s.frames h none, destroyed := s.destroyed ++ [h],
               closed := s.closed ++ (P.owned frame.body).toList.map fun fd => (h, fd) } := by
  simp only [Worker.destroy, found]

/-- A frame is destroyed for the first time, and closes its descriptor. -/
theorem Fate.destroy (fate : Fate P s) (found : s.frames h = some frame) (older : h < s.next)
    (free : frame.done = false ∨ h ∉ s.suspended) : Fate P (s.destroy P h) := by
  have new : h ∉ s.destroyed := by
    intro again
    rw [(fate.gone h again).1] at found
    cases found
  rw [destroy_eq found]
  constructor
  case old => exact fate.old
  case gone =>
    intro x member
    by_cases here : x = h
    · exact ⟨by simp only [here, Function.update_self], here ▸ older⟩
    · have before : x ∈ s.destroyed := by simpa [here] using member
      simpa only [Function.update_of_ne here] using fate.gone x before
  case once =>
    refine List.nodup_append.mpr ⟨fate.once, by simp, fun x before y last => ?_⟩
    rintro rfl
    exact new (List.mem_singleton.mp last ▸ before)
  case closedOnce =>
    rw [List.map_append]
    refine fate.closedOnce.append ?_
    cases P.owned frame.body <;> simp
  case ended => exact fun r finished kept => List.mem_append_left _ (fate.ended r finished kept)
  case left =>
    intro r finished suspended
    obtain ⟨other, found', done⟩ := fate.left r finished suspended
    have elsewhere : r ≠ h := by
      rintro rfl
      rw [found, Option.some.injEq] at found'
      rcases free with notDone | unsuspended
      · rw [← found', notDone] at done
        cases done
      · exact unsuspended suspended
    exact ⟨other, by simpa only [Function.update_of_ne elsewhere] using found', done⟩
  case owner =>
    intro r fd started
    by_cases here : r = h
    · right
      rcases fate.owner r fd started with ⟨other, found', owns⟩ | ⟨again, -⟩
      · rw [here, found, Option.some.injEq] at found'
        rw [← found'] at owns
        simp [here, owns]
      · exact absurd (here ▸ again) new
    · refine (fate.owner r fd started).imp ?_ ?_
      · exact fun ⟨other, found', owns⟩ =>
          ⟨other, by simpa only [Function.update_of_ne here] using found', owns⟩
      · exact fun ⟨gone, shut⟩ => ⟨List.mem_append_left _ gone, List.mem_append_left _ shut⟩

theorem Kept.start (kept : Kept P s) (idle : s.running = none) (fd : Nat) :
    Kept P (s.start P fd) where
  sound := by
    have spawned := kept.sound.spawn
    simp only [threads, tokens, idle, Option.map_none, Option.toList_none, List.nil_append]
      at spawned
    simp only [threads, tokens, Worker.start, setFrame, idle, Option.map_none, Option.toList_none,
      List.nil_append, shape_update, Option.map_some, Frame.shape, List.map_append, List.map_cons,
      List.map_nil, List.append_assoc, List.singleton_append]
    exact spawned.perm List.perm_middle.symm
  dues := by
    have same (x : Handle) (token : x ∈ s.tokens) :
        (s.start P fd).root x = s.root x :=
      Function.update_of_ne (kept.sound.token_ne_next token) _ _
    refine ⟨fun item member => ?_, fun item h running => ?_, fun h member => ?_⟩
    · rcases List.mem_append.mp member with before | new
      · obtain ⟨flag, own⟩ := kept.dues.ready item before
        have root := same item.handle (ready_token before)
        exact ⟨by rw [root]; exact flag, by rw [root]; exact own⟩
      · rw [List.mem_singleton.mp new]
        have root : (s.start P fd).root s.next = s.next := Function.update_self _ _ _
        refine ⟨?_, fun _ => root.symm⟩
        rw [root]
        exact iff_of_true rfl fun suspended => Nat.lt_irrefl _ (kept.fate.old _ suspended)
    · simp only [Worker.start, Worker.setFrame, idle, reduceCtorEq] at running
    · rw [same h (pending_token member)]
      exact kept.dues.pending h member
  fate := kept.fate.start kept.sound fd

theorem Kept.take {s' : Worker β ρ} (kept : Kept P s) (taken : s.take = some s') : Kept P s' := by
  unfold Worker.take at taken
  split at taken
  · rename_i item ready idle queued
    obtain rfl := Option.some.inj taken
    obtain ⟨sound, ⟨dueReady, dueRunning, duePending⟩, fate⟩ := kept
    rw [queued, List.forall_mem_cons] at dueReady
    refine ⟨?_, ⟨?_, ?_, duePending⟩, ⟨fate.old, fate.gone, fate.once, fate.closedOnce, fate.ended,
      fate.left, fate.owner⟩⟩
    · simpa only [threads, tokens, idle, queued, Option.map_none, Option.map_some,
        Option.toList_none, Option.toList_some, List.map_cons, List.nil_append,
        List.cons_append] using sound
    · exact fun item member => ⟨(dueReady.2 item member).flag, (dueReady.2 item member).own⟩
    · rintro item h running
      obtain ⟨rfl, rfl⟩ := Prod.mk.inj (Option.some.inj running)
      exact ⟨dueReady.1.flag, dueReady.1.own⟩
  · cases taken

theorem Kept.complete {s' : Worker β ρ} {i : Nat} {res : Int} {chunk : Bytes} (kept : Kept P s)
    (taken : s.complete i res chunk = some s') : Kept P s' := by
  unfold Worker.complete at taken
  split at taken
  · rename_i h idle at_
    have member : h ∈ s.pending := List.mem_of_getElem? at_
    cases found : s.frames h with
    | none => simp [found] at taken
    | some frame =>
        simp only [found, Option.some.injEq] at taken
        subst taken
        have shape := shape_same { frame with signal := .completed res chunk } found rfl
        refine ⟨?_, ⟨fun item inside => ?_, fun item x running => ?_, fun x inside => ?_⟩, ?_⟩
        · have sound := kept.sound
          simp only [threads, tokens, idle, Option.map_none, Option.toList_none,
            List.nil_append] at sound
          simp only [threads, tokens, setFrame, idle, Option.map_none, Option.toList_none,
            List.nil_append, shape, List.map_append, List.map_cons, List.map_nil,
            List.append_assoc, List.singleton_append]
          refine sound.perm (List.Perm.append_left _ ?_)
          obtain ⟨inside, rfl⟩ := List.getElem?_eq_some_iff.mp at_
          exact (List.getElem_cons_eraseIdx_perm inside).symm
        · rcases List.mem_append.mp inside with before | new
          · exact ⟨(kept.dues.ready item before).flag, (kept.dues.ready item before).own⟩
          · rw [List.mem_singleton.mp new]
            refine ⟨?_, nofun⟩
            exact iff_of_false nofun (not_not.mpr (kept.dues.pending h member))
        · simp only [setFrame, idle, reduceCtorEq] at running
        · exact kept.dues.pending x (List.mem_of_mem_eraseIdx inside)
        · have fate := kept.fate.setFrame { frame with signal := .completed res chunk } found id rfl
          exact ⟨fate.old, fate.gone, fate.once, fate.closedOnce, fate.ended, fate.left, fate.owner⟩
  · cases taken

section Exec

variable (kept : Kept P s) (running : s.running = some (item, h))
  (found : s.frames h = some frame)

include running in
theorem tokens_running : s.tokens = h :: (s.ready.map ReadyItem.handle ++ s.pending) := by
  simp only [tokens, running, Option.map_some, Option.toList_some, List.singleton_append]

theorem isDone_setFrame (frame' : Frame β ρ) (found : s.frames h = some frame)
    (done : frame'.done = frame.done)
    (x : Handle) : (s.setFrame h frame').isDone x = s.isDone x := by
  by_cases here : x = h
  · simp only [isDone, setFrame, here, Function.update_self, found, done]
  · simp only [isDone, setFrame, Function.update_of_ne here]

include kept running in
/-- As long as the task goes on, the item that has the flag is not done. -/
theorem item_notDone (flag : item.destroyAfterResume = true) : s.isDone item.handle = false := by
  obtain ⟨frame, found, notDone⟩ := frame_of_root kept.sound (running_token running)
  rw [(kept.dues.running item h running).own flag, isDone, found]
  exact notDone

theorem resumed_keeps (notDone : item.destroyAfterResume = true → s.isDone item.handle = false) :
    resumed P s item = { s with running := none } := by
  unfold resumed
  refine if_neg ?_
  rintro ⟨flag, done⟩
  exact absurd (notDone flag) (by simpa [isDone] using done)

include kept running found in
theorem Kept.suspend {body : β} (owned : P.owned body = P.owned frame.body) :
    Kept P (suspend P s item h frame body) := by
  have token := running_token running
  have tokens_ := tokens_running running
  have shape := shape_same { frame with body := body } found rfl
  have still (x : Handle) := isDone_setFrame { frame with body := body } found rfl x
  have back : Worker.suspend P s item h frame body =
      { s.setFrame h { frame with body := body } with
          pending := s.pending ++ [h], suspended := s.suspended ++ [s.root h], running := none } :=
    resumed_keeps fun flag => (still item.handle).trans (item_notDone kept running flag)
  rw [back]
  have rootOlder : s.root h < s.next := by
    obtain ⟨_, foundRoot, -⟩ := frame_of_root kept.sound token
    exact lt_next kept.sound foundRoot
  refine ⟨?_, ⟨fun other member => ?_, nofun, fun x member => ?_⟩, ?_⟩
  · have perm : s.tokens.Perm (s.ready.map ReadyItem.handle ++ (s.pending ++ [h])) := by
      rw [tokens_, ← List.append_assoc]
      exact (List.perm_append_singleton _ _).symm
    simpa only [threads, tokens, Worker.setFrame, shape, Option.map_none, Option.toList_none,
      List.nil_append] using kept.sound.perm perm
  · have apart : s.root other.handle ≠ s.root h :=
      kept.sound.token_unique tokens_ (List.mem_append_left _ (List.mem_map_of_mem member))
    obtain ⟨flag, own⟩ := kept.dues.ready other member
    refine ⟨flag.trans (not_congr ?_), own⟩
    simp [apart, Worker.setFrame]
  · rcases List.mem_append.mp member with before | new
    · exact List.mem_append_left _ (kept.dues.pending x before)
    · rw [List.mem_singleton.mp new]
      exact List.mem_append_right _ List.mem_cons_self
  · have fate := kept.fate.setFrame { frame with body := body } found id owned
    refine ⟨fun r suspended => ?_, fate.gone, fate.once, fate.closedOnce,
      fun r finished kept' => ?_, fun r finished suspended => ?_, fate.owner⟩
    · rcases List.mem_append.mp suspended with before | new
      · exact fate.old r before
      · exact List.mem_singleton.mp new ▸ rootOlder
    · exact fate.ended r finished fun before => kept' (List.mem_append_left _ before)
    · rcases List.mem_append.mp suspended with before | new
      · exact fate.left r finished before
      · have isRoot : r = s.root h := List.mem_singleton.mp new
        have unfinished : r ∉ s.finished := isRoot ▸ root_unfinished kept token
        exact absurd finished unfinished

include kept running found in
theorem Kept.call {child body : β} (owned : P.owned body = P.owned frame.body) :
    Kept P (s.call item h frame child body) := by
  have token := running_token running
  have tokens_ := tokens_running running
  have shape := shape_same { frame with body := body } found rfl
  have same (x : Handle) (member : x ∈ s.tokens) :
      (s.call item h frame child body).root x = s.root x :=
    Function.update_of_ne (kept.sound.token_ne_next member) _ _
  refine ⟨?_, ⟨fun other member => ?_, fun other x running' => ?_, fun x member => ?_⟩, ?_⟩
  · have called := kept.sound.call tokens_
    simpa only [threads, tokens, Worker.call, Worker.setFrame, shape_update, shape, Option.map_some,
      Frame.shape, Option.toList_some, List.singleton_append] using called
  · obtain ⟨flag, own⟩ := kept.dues.ready other member
    have root := same other.handle (ready_token member)
    exact ⟨by rw [root]; exact flag, by rw [root]; exact own⟩
  · obtain ⟨rfl, rfl⟩ := Prod.mk.inj (Option.some.inj running')
    have root : (s.call item h frame child body).root s.next = s.root h :=
      Function.update_self _ _ _
    obtain ⟨flag, own⟩ := kept.dues.running item h running
    exact ⟨by rw [root]; exact flag, by rw [root]; exact own⟩
  · rw [same x (pending_token member)]
    exact kept.dues.pending x member
  · have changed := kept.fate.setFrame { frame with body := body } found id owned
    have fresh (x : Handle) (frame_ : Frame β ρ)
        (found_ : (s.setFrame h { frame with body := body }).frames x = some frame_) :
        x < s.next := by
      by_cases here : x = h
      · exact here ▸ lt_next kept.sound found
      · simp only [Worker.setFrame, Function.update_of_ne here] at found_
        exact lt_next kept.sound found_
    have fate := changed.insert fresh ⟨child, .begin, some h, false⟩
    exact ⟨fate.old, fate.gone, fate.once, fate.closedOnce, fate.ended, fate.left, fate.owner⟩

include kept running found in
theorem Kept.giveBack {c : Handle} {caller : Frame β ρ} {result : ρ}
    (continues : frame.continuation = some c) (foundCaller : s.frames c = some caller) :
    Kept P (giveBack P s item h c caller result) := by
  have token := running_token running
  have tokens_ := tokens_running running
  obtain ⟨other, found', notDone⟩ := frame_of_token kept.sound token
  obtain rfl := Option.some.inj (found.symm.trans found')
  have shapeIs : s.threads.frame h = some ⟨some c, false⟩ := by
    simp only [threads, Function.comp_apply, found, Option.map_some, Frame.shape, continues,
      notDone]
  obtain ⟨-, root, apart⟩ := kept.sound.waiting h c false shapeIs
  have elsewhere : c ≠ h := fun same => apart (same ▸ token)
  have destroyed := destroy_eq (P := P) found
  have stays : (s.destroy P h).frames c = some caller := by
    simp only [destroyed, Function.update_of_ne elsewhere, foundCaller]
  have shape := shape_same { caller with signal := P.awaitResume result } stays rfl
  have rest : (s.destroy P h).ready = s.ready ∧ (s.destroy P h).pending = s.pending ∧
      (s.destroy P h).root = s.root ∧ (s.destroy P h).next = s.next ∧
      (s.destroy P h).suspended = s.suspended := by
    simp only [destroyed, and_self]
  obtain ⟨ready, pending, sameRoot, next, suspended⟩ := rest
  refine ⟨?_, ⟨fun item member => ?_, fun other x running' => ?_, fun x member => ?_⟩, ?_⟩
  · have returned := kept.sound.return tokens_ shapeIs
    simp only [threads, tokens, Worker.giveBack, Worker.setFrame, shape, Option.map_some,
      Option.toList_some, List.singleton_append, ready, pending, sameRoot, next]
    simp only [destroyed, shape_update, Option.map_none]
    exact returned
  · have member : item ∈ s.ready := ready ▸ member
    obtain ⟨flag, own⟩ := kept.dues.ready item member
    exact ⟨by simpa only [Worker.giveBack, Worker.setFrame, sameRoot, suspended] using flag,
      by simpa only [Worker.giveBack, Worker.setFrame, sameRoot] using own⟩
  · obtain ⟨rfl, rfl⟩ := Prod.mk.inj (Option.some.inj running')
    obtain ⟨flag, own⟩ := kept.dues.running item h running
    have root' : s.root c = s.root h := root
    exact ⟨by simpa only [Worker.giveBack, Worker.setFrame, sameRoot, suspended, root'] using flag,
      by simpa only [Worker.giveBack, Worker.setFrame, sameRoot, root'] using own⟩
  · have member : x ∈ s.pending := pending ▸ member
    simpa only [Worker.giveBack, Worker.setFrame, sameRoot, suspended] using
      kept.dues.pending x member
  · have gone := kept.fate.destroy found (lt_next kept.sound found) (.inl notDone)
    have fate := gone.setFrame { caller with signal := P.awaitResume result } stays id rfl
    exact ⟨fate.old, fate.gone, fate.once, fate.closedOnce, fate.ended, fate.left, fate.owner⟩

include kept running found in
theorem Kept.detach (alone : frame.continuation = none) :
    Kept P (detach P s item h frame) := by
  have token := running_token running
  have tokens_ := tokens_running running
  obtain ⟨other, found', notDone⟩ := frame_of_token kept.sound token
  obtain rfl := Option.some.inj (found.symm.trans found')
  have shapeIs : s.threads.frame h = some ⟨none, false⟩ := by
    simp only [threads, Function.comp_apply, found, Option.map_some, Frame.shape, alone, notDone]
  have root : s.root h = h := kept.sound.isRoot h false shapeIs
  obtain ⟨flag, own⟩ := kept.dues.running item h running
  rw [root] at flag own
  have dues (s' : Worker β ρ) (ready : s'.ready = s.ready) (pending : s'.pending = s.pending)
      (root : s'.root = s.root) (suspended : s'.suspended = s.suspended)
      (idle : s'.running = none) : Dues s' := by
    refine ⟨fun item member => ?_, fun item x running => ?_, fun x member => ?_⟩
    · obtain ⟨flag, own⟩ := kept.dues.ready item (ready ▸ member)
      exact ⟨by simpa only [root, suspended] using flag, by simpa only [root] using own⟩
    · rw [idle] at running
      cases running
    · simpa only [root, suspended] using kept.dues.pending x (pending ▸ member)
  have older : h < s.next := lt_next kept.sound found
  have finished := kept.sound.finish tokens_ shapeIs
  have changed := kept.fate.setFrame { frame with done := true } found (fun _ => rfl) rfl
  have there : (s.setFrame h { frame with done := true }).frames h =
      some { frame with done := true } := Function.update_self _ _ _
  by_cases flagged : item.destroyAfterResume = true
  · have unsuspended := flag.mp flagged
    have back : Worker.detach P s item h frame =
        { s with frames := Function.update s.frames h none, running := none,
                 finished := s.finished ++ [h], destroyed := s.destroyed ++ [h],
                 closed := s.closed ++ (P.owned frame.body).toList.map fun fd => (h, fd) } := by
      simp only [Worker.detach, resumed, flagged, own flagged, isDone, Worker.destroy,
        Worker.setFrame, Function.update_self, Function.update_idem, and_self, if_true]
    rw [back]
    refine ⟨?_, dues _ rfl rfl rfl rfl rfl, ?_⟩
    · have dropped := finished.drop (h := h) (Function.update_self _ _ _)
      simp only [Function.update_idem] at dropped
      simp only [threads, tokens, shape_update, Option.map_none, Option.toList_none,
        List.nil_append]
      exact dropped
    · have fate := changed.destroy there older (.inr unsuspended)
      rw [destroy_eq there] at fate
      simp only [Worker.setFrame, Function.update_idem] at fate
      refine ⟨fate.old, fate.gone, fate.once, fate.closedOnce, fun r member live => ?_,
        fun r member suspended => ?_, fate.owner⟩
      · rcases List.mem_append.mp member with before | new
        · exact fate.ended r before live
        · exact List.mem_append_right _ new
      · rcases List.mem_append.mp member with before | new
        · exact fate.left r before suspended
        · exact absurd (List.mem_singleton.mp new ▸ suspended) unsuspended
  · have suspended : h ∈ s.suspended := not_not.mp fun live => flagged (flag.mpr live)
    have back : Worker.detach P s item h frame =
        { s.setFrame h { frame with done := true } with
            running := none, finished := s.finished ++ [h] } :=
      resumed_keeps fun flagged' => absurd flagged' flagged
    rw [back]
    refine ⟨?_, dues _ rfl rfl rfl rfl rfl, ?_⟩
    · simp only [threads, tokens, Worker.setFrame, shape_update, Option.map_some, Option.map_none,
        Option.toList_none, List.nil_append, Frame.shape, alone]
      exact finished
    · refine ⟨changed.old, changed.gone, changed.once, changed.closedOnce, fun r member live => ?_,
        fun r member late => ?_, changed.owner⟩
      · rcases List.mem_append.mp member with before | new
        · exact changed.ended r before live
        · exact absurd suspended (List.mem_singleton.mp new ▸ live)
      · rcases List.mem_append.mp member with before | new
        · exact changed.left r before late
        · have here : r = h := List.mem_singleton.mp new
          exact ⟨{ frame with done := true }, here ▸ there, rfl⟩

end Exec

theorem Kept.exec {s' : Worker β ρ} {world : ω} (kept : Kept P s)
    (taken : s.exec P world = some s') : Kept P s' := by
  unfold Worker.exec at taken
  split at taken
  · cases taken
  · rename_i item h running
    split at taken
    · cases taken
    · rename_i frame found
      split at taken
      · cases taken
      · rename_i body goes
        have owned := P.owned_operation (Program.resume_of_go goes)
        exact Option.some.inj taken ▸ kept.suspend running found owned
      · rename_i child body goes
        have owned := P.owned_task (Program.resume_of_go goes)
        exact Option.some.inj taken ▸ kept.call running found owned
      · split at taken
        · rename_i alone
          exact Option.some.inj taken ▸ kept.detach running found alone
        · rename_i c continues
          split at taken
          · cases taken
          · rename_i caller foundCaller
            exact Option.some.inj taken ▸ kept.giveBack running found continues foundCaller

end Worker

open Worker

theorem kept_step {P : Program β ρ ω} (s : Worker β ρ) (action : WorkerStep ω) (s' : Worker β ρ)
    (kept : Kept P s) (taken : (worker P).step s action = some s') : Kept P s' := by
  cases action with
  | start fd =>
      simp only [worker, Option.ite_none_right_eq_some, Option.some.injEq] at taken
      exact taken.2 ▸ kept.start taken.1 fd
  | take => exact kept.take taken
  | exec world => exact kept.exec taken
  | complete i res chunk => exact kept.complete taken

theorem kept_reachable {P : Program β ρ ω} {s : Worker β ρ} (reached : (worker P).Reachable s) :
    Kept P s :=
  reached.induct Kept.init kept_step

/-- The frame was destroyed exactly once, its descriptor was closed exactly once, and
    nothing is left of it. -/
structure Worker.Released (s : Worker β ρ) (r : Handle) (fd : Nat) : Prop where
  destroyed : s.destroyed.count r = 1
  closed : s.closed.count (r, fd) = 1
  gone : s.frames r = none

/-- A detached task that has finished was released exactly if it was never suspended on
    an operation. -/
theorem released_iff {P : Program β ρ ω} {s : Worker β ρ} (kept : Kept P s) {r : Handle} {fd : Nat}
    (started : (r, fd) ∈ s.started) (finished : r ∈ s.finished) :
    s.Released r fd ↔ r ∉ s.suspended := by
  constructor
  · intro released suspended
    obtain ⟨frame, found, -⟩ := kept.fate.left r finished suspended
    rw [released.gone] at found
    cases found
  · intro live
    have destroyed := kept.fate.ended r finished live
    obtain ⟨none_, -⟩ := kept.fate.gone r destroyed
    have closed : (r, fd) ∈ s.closed := by
      rcases kept.fate.owner r fd started with ⟨frame, found, -⟩ | ⟨-, closed⟩
      · rw [none_] at found
        cases found
      · exact closed
    have closedOnce : s.closed.Nodup :=
      (kept.fate.once.sublist kept.fate.closedOnce).of_map _
    exact ⟨List.count_eq_one_of_mem kept.fate.once destroyed,
      List.count_eq_one_of_mem closedOnce closed, none_⟩

end Corio.Uring
