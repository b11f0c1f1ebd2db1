import Mathlib.Data.List.Nodup
import Mathlib.Data.List.Perm.Basic
import Mathlib.Logic.Function.Basic

/-! # Threads of control over frames

Frames call each other and wait for the callee. Every thread of control has one
token, the handle of the frame that goes on next; spawning, calling, returning and
finishing move tokens. A handle is never used for two frames.
-/

namespace Corio

/-- What is known of a frame from outside. -/
structure FrameShape where
  /-- The frame that waits for this one. -/
  caller : Option Nat
  done : Bool
  deriving DecidableEq, Repr

structure Threads where
  frame : Nat → Option FrameShape
  /-- The first frame of the thread that a frame belongs to. -/
  root : Nat → Nat
  next : Nat
  tokens : List Nat

namespace Threads

/-- A frame that exists and is not done. -/
def Live (t : Threads) (h : Nat) : Prop := ∃ caller, t.frame h = some ⟨caller, false⟩

/-- Tokens and callers are live frames, and each thread has one token. -/
structure Sound (t : Threads) : Prop where
  fresh : ∀ h, (t.frame h).isSome → h < t.next
  live : ∀ h ∈ t.tokens, t.Live h
  rootLive : ∀ h ∈ t.tokens, t.frame (t.root h) = some ⟨none, false⟩
  single : (t.tokens.map t.root).Nodup
  waiting : ∀ h c done, t.frame h = some ⟨some c, done⟩ →
    t.Live c ∧ t.root c = t.root h ∧ c ∉ t.tokens
  injective : ∀ h h' c done done', t.frame h = some ⟨some c, done⟩ →
    t.frame h' = some ⟨some c, done'⟩ → h = h'
  isRoot : ∀ h done, t.frame h = some ⟨none, done⟩ → t.root h = h

variable {t : Threads} {h c : Nat} {rest : List Nat}

theorem Live.some {t : Threads} {h : Nat} (live : t.Live h) : (t.frame h).isSome := by
  obtain ⟨caller, frame⟩ := live
  rw [frame]
  rfl

/-- Two tokens of one thread are one token. -/
theorem Sound.token_unique (sound : t.Sound) (tokens : t.tokens = h :: rest) {h' : Nat}
    (other : h' ∈ rest) : t.root h' ≠ t.root h := by
  have single := sound.single
  rw [tokens, List.map_cons, List.nodup_cons] at single
  exact fun same => single.1 (same ▸ List.mem_map_of_mem other)

theorem Sound.init (root : Nat → Nat) (next : Nat) : Sound ⟨fun _ => none, root, next, []⟩ := by
  constructor <;> simp

theorem Sound.perm {tokens : List Nat} (sound : t.Sound) (same : t.tokens.Perm tokens) :
    Sound { t with tokens := tokens } where
  fresh := sound.fresh
  live := fun h token => sound.live h (same.mem_iff.mpr token)
  rootLive := fun h token => sound.rootLive h (same.mem_iff.mpr token)
  single := (same.map t.root).nodup_iff.mp sound.single
  waiting := fun h c done frame => by
    obtain ⟨live, root, apart⟩ := sound.waiting h c done frame
    exact ⟨live, root, fun token => apart (same.mem_iff.mpr token)⟩
  injective := sound.injective
  isRoot := sound.isRoot

theorem Sound.ne_next (sound : t.Sound) (exists_ : (t.frame h).isSome) : h ≠ t.next :=
  Nat.ne_of_lt (sound.fresh h exists_)

theorem Sound.root_ne_next (sound : t.Sound) (token : h ∈ t.tokens) : t.root h ≠ t.next :=
  sound.ne_next (by rw [sound.rootLive h token]; rfl)

theorem Sound.token_ne_next (sound : t.Sound) (token : h ∈ t.tokens) : h ≠ t.next :=
  sound.ne_next (sound.live h token).some

/-- The roots of old tokens do not change when a new frame gets one. -/
theorem Sound.roots_update (sound : t.Sound) (tokens : List Nat) (subset : tokens ⊆ t.tokens)
    (value : Nat) : tokens.map (Function.update t.root t.next value) = tokens.map t.root := by
  refine List.map_congr_left fun h token => ?_
  exact Function.update_of_ne (sound.token_ne_next (subset token)) _ _

/-- A new thread. -/
theorem Sound.spawn (sound : t.Sound) :
    Sound ⟨Function.update t.frame t.next (some ⟨none, false⟩),
      Function.update t.root t.next t.next, t.next + 1, t.next :: t.tokens⟩ where
  fresh := by
    intro h exists_
    by_cases new : h = t.next
    · exact new ▸ Nat.lt_succ_self _
    · simp only [Function.update_of_ne new] at exists_
      exact Nat.lt_succ_of_lt (sound.fresh h exists_)
  live := by
    intro h token
    rcases List.mem_cons.mp token with rfl | old
    · exact ⟨none, Function.update_self _ _ _⟩
    · simpa only [Live, Function.update_of_ne (sound.token_ne_next old)] using sound.live h old
  rootLive := by
    intro h token
    rcases List.mem_cons.mp token with rfl | old
    · simp only [Function.update_self]
    · simpa only [Function.update_of_ne (sound.token_ne_next old),
        Function.update_of_ne (sound.root_ne_next old)] using sound.rootLive h old
  single := by
    simp only [List.map_cons, Function.update_self, sound.roots_update _ (List.Subset.refl _),
      List.nodup_cons]
    refine ⟨fun member => ?_, sound.single⟩
    obtain ⟨h, token, same⟩ := List.mem_map.mp member
    exact sound.root_ne_next token same
  waiting := by
    intro h c done frame
    by_cases new : h = t.next
    · simp only [new, Function.update_self, Option.some.injEq, FrameShape.mk.injEq,
        reduceCtorEq, false_and] at frame
    · simp only [Function.update_of_ne new] at frame
      obtain ⟨live, root, apart⟩ := sound.waiting h c done frame
      have old := sound.ne_next live.some
      refine ⟨?_, ?_, ?_⟩
      · simpa only [Live, Function.update_of_ne old] using live
      · simpa only [Function.update_of_ne old, Function.update_of_ne new] using root
      · simpa only [List.mem_cons, not_or] using ⟨old, apart⟩
  injective := by
    intro h h' c done done' frame frame'
    have old : h ≠ t.next := by rintro rfl; simp at frame
    have old' : h' ≠ t.next := by rintro rfl; simp at frame'
    simp only [Function.update_of_ne old] at frame
    simp only [Function.update_of_ne old'] at frame'
    exact sound.injective h h' c done done' frame frame'
  isRoot := by
    intro h done frame
    by_cases new : h = t.next
    · simp only [new, Function.update_self]
    · simp only [Function.update_of_ne new] at frame ⊢
      exact sound.isRoot h done frame

/-- The thread with the first token calls a new frame. -/
theorem Sound.call (sound : t.Sound) (tokens : t.tokens = h :: rest) :
    Sound ⟨Function.update t.frame t.next (some ⟨some h, false⟩),
      Function.update t.root t.next (t.root h), t.next + 1, t.next :: rest⟩ := by
  have token : h ∈ t.tokens := by rw [tokens]; exact List.mem_cons_self
  have others : rest ⊆ t.tokens := by rw [tokens]; exact List.subset_cons_self _ _
  have oldCaller := sound.token_ne_next token
  have single := sound.single
  rw [tokens, List.map_cons, List.nodup_cons] at single
  constructor
  case fresh =>
    intro x exists_
    by_cases new : x = t.next
    · exact new ▸ Nat.lt_succ_self _
    · simp only [Function.update_of_ne new] at exists_
      exact Nat.lt_succ_of_lt (sound.fresh x exists_)
  case live =>
    intro x member
    rcases List.mem_cons.mp member with rfl | old
    · exact ⟨some h, Function.update_self _ _ _⟩
    · simpa only [Live, Function.update_of_ne (sound.token_ne_next (others old))] using
        sound.live x (others old)
  case rootLive =>
    intro x member
    rcases List.mem_cons.mp member with rfl | old
    · simpa only [Function.update_self, Function.update_of_ne (sound.root_ne_next token)] using
        sound.rootLive h token
    · simpa only [Function.update_of_ne (sound.token_ne_next (others old)),
        Function.update_of_ne (sound.root_ne_next (others old))] using sound.rootLive x (others old)
  case single =>
    simpa only [List.map_cons, Function.update_self, sound.roots_update _ others,
      List.nodup_cons] using single
  case waiting =>
    intro x c done frame
    by_cases new : x = t.next
    · simp only [new, Function.update_self, Option.some.injEq, FrameShape.mk.injEq] at frame
      obtain ⟨rfl, -⟩ := frame
      refine ⟨?_, ?_, ?_⟩
      · simpa only [Live, Function.update_of_ne oldCaller] using sound.live h token
      · simp only [new, Function.update_self, Function.update_of_ne oldCaller]
      · simp only [List.mem_cons, not_or]
        exact ⟨oldCaller, fun again => single.1 (List.mem_map_of_mem again)⟩
    · simp only [Function.update_of_ne new] at frame
      obtain ⟨live, root, apart⟩ := sound.waiting x c done frame
      have old := sound.ne_next live.some
      refine ⟨?_, ?_, ?_⟩
      · simpa only [Live, Function.update_of_ne old] using live
      · simpa only [Function.update_of_ne old, Function.update_of_ne new] using root
      · simp only [List.mem_cons, not_or]
        exact ⟨old, fun member => apart (others member)⟩
  case injective =>
    -- Only the new frame waits for the caller, which had the token.
    have alone (x : Nat) (c : Nat) (done : Bool) (frame : t.frame x = some ⟨some c, done⟩) :
        c ≠ h := by
      rintro rfl
      exact (sound.waiting x c done frame).2.2 token
    intro x x' c done done' frame frame'
    by_cases new : x = t.next <;> by_cases new' : x' = t.next
    · exact new.trans new'.symm
    · simp only [new, Function.update_self, Option.some.injEq, FrameShape.mk.injEq] at frame
      simp only [Function.update_of_ne new'] at frame'
      exact absurd frame.1.symm (alone x' c done' frame')
    · simp only [new', Function.update_self, Option.some.injEq, FrameShape.mk.injEq] at frame'
      simp only [Function.update_of_ne new] at frame
      exact absurd frame'.1.symm (alone x c done frame)
    · simp only [Function.update_of_ne new] at frame
      simp only [Function.update_of_ne new'] at frame'
      exact sound.injective x x' c done done' frame frame'
  case isRoot =>
    intro x done frame
    by_cases new : x = t.next
    · simp [new] at frame
    · simp only [Function.update_of_ne new] at frame ⊢
      exact sound.isRoot x done frame

/-- A frame that no token, no root of one and no caller is goes away, or is done. -/
theorem Sound.retire (sound : t.Sound) {left : Option FrameShape} {tokens : List Nat}
    (gone : left = none ∨ left = some ⟨none, true⟩ ∧ t.root h = h)
    (live : ∀ x ∈ tokens, t.Live x ∧ x ≠ h)
    (rootLive : ∀ x ∈ tokens, t.frame (t.root x) = some ⟨none, false⟩ ∧ t.root x ≠ h)
    (single : (tokens.map t.root).Nodup)
    (waiting : ∀ x c done, x ≠ h → t.frame x = some ⟨some c, done⟩ → c ≠ h ∧ c ∉ tokens)
    (exists_ : (t.frame h).isSome) :
    Sound ⟨Function.update t.frame h left, t.root, t.next, tokens⟩ := by
  have notCalled (c : Nat) (done : Bool) : left ≠ some ⟨some c, done⟩ := by
    rcases gone with rfl | ⟨rfl, -⟩ <;> simp
  constructor
  case fresh =>
    intro x stays
    by_cases here : x = h
    · exact here ▸ sound.fresh h exists_
    · simp only [Function.update_of_ne here] at stays
      exact sound.fresh x stays
  case live =>
    intro x token
    obtain ⟨alive, other⟩ := live x token
    simpa only [Live, Function.update_of_ne other] using alive
  case rootLive =>
    intro x token
    obtain ⟨alive, other⟩ := rootLive x token
    simpa only [Function.update_of_ne other] using alive
  case single => exact single
  case waiting =>
    intro x c done frame
    by_cases here : x = h
    · simp only [here, Function.update_self] at frame
      exact absurd frame (notCalled c done)
    · simp only [Function.update_of_ne here] at frame
      obtain ⟨alive, root, -⟩ := sound.waiting x c done frame
      obtain ⟨other, apart⟩ := waiting x c done here frame
      exact ⟨by simpa only [Live, Function.update_of_ne other] using alive, root, apart⟩
  case injective =>
    intro x x' c done done' frame frame'
    have here : x ≠ h := by
      rintro rfl
      exact notCalled c done (by simpa only [Function.update_self] using frame)
    have here' : x' ≠ h := by
      rintro rfl
      exact notCalled c done' (by simpa only [Function.update_self] using frame')
    simp only [Function.update_of_ne here] at frame
    simp only [Function.update_of_ne here'] at frame'
    exact sound.injective x x' c done done' frame frame'
  case isRoot =>
    intro x done frame
    by_cases here : x = h
    · simp only [here, Function.update_self] at frame
      rcases gone with rfl | ⟨-, root⟩
      · cases frame
      · exact here ▸ root
    · simp only [Function.update_of_ne here] at frame
      exact sound.isRoot x done frame

/-- The frame with the first token returns to its caller and is gone. -/
theorem Sound.return (sound : t.Sound) (tokens : t.tokens = h :: rest)
    (frame : t.frame h = some ⟨some c, false⟩) :
    Sound ⟨Function.update t.frame h none, t.root, t.next, c :: rest⟩ := by
  have token : h ∈ t.tokens := by rw [tokens]; exact List.mem_cons_self
  have others : rest ⊆ t.tokens := by rw [tokens]; exact List.subset_cons_self _ _
  obtain ⟨callerLive, sameRoot, callerApart⟩ := sound.waiting h c false frame
  have single := sound.single
  rw [tokens, List.map_cons] at single
  -- The caller is no root, because something waits for the frame.
  have notRoot (x : Nat) (member : x ∈ t.tokens) : t.root x ≠ h := by
    intro same
    have root := sound.rootLive x member
    rw [same, frame, Option.some.injEq, FrameShape.mk.injEq] at root
    cases root.1
  refine sound.retire (.inl rfl) ?_ ?_ ?_ ?_ (by rw [frame]; rfl)
  · rw [List.forall_mem_cons]
    refine ⟨⟨callerLive, fun same => callerApart (same ▸ token)⟩, fun x member => ?_⟩
    refine ⟨sound.live x (others member), ?_⟩
    rintro rfl
    exact sound.token_unique tokens member rfl
  · rw [List.forall_mem_cons, sameRoot]
    exact ⟨⟨sound.rootLive h token, notRoot h token⟩, fun x member =>
      ⟨sound.rootLive x (others member), notRoot x (others member)⟩⟩
  · rwa [List.map_cons, sameRoot]
  · intro x c' done elsewhere waits
    have apart := (sound.waiting x c' done waits).2.2
    refine ⟨fun same => apart (same ▸ token), ?_⟩
    rw [List.mem_cons, not_or]
    refine ⟨?_, fun member => apart (others member)⟩
    rintro rfl
    exact elsewhere (sound.injective x h c' done false waits frame)

/-- The first frame of a thread is done. -/
theorem Sound.finish (sound : t.Sound) (tokens : t.tokens = h :: rest)
    (frame : t.frame h = some ⟨none, false⟩) :
    Sound ⟨Function.update t.frame h (some ⟨none, true⟩), t.root, t.next, rest⟩ := by
  have token : h ∈ t.tokens := by rw [tokens]; exact List.mem_cons_self
  have others : rest ⊆ t.tokens := by rw [tokens]; exact List.subset_cons_self _ _
  have single := sound.single
  rw [tokens, List.map_cons, List.nodup_cons] at single
  have root := sound.isRoot h false frame
  refine sound.retire (.inr ⟨rfl, root⟩) ?_ ?_ single.2 ?_ (by rw [frame]; rfl)
  · intro x member
    refine ⟨sound.live x (others member), ?_⟩
    rintro rfl
    exact sound.token_unique tokens member rfl
  · intro x member
    exact ⟨sound.rootLive x (others member), root ▸ sound.token_unique tokens member⟩
  · intro x c done _ waits
    have apart := (sound.waiting x c done waits).2.2
    exact ⟨fun same => apart (same ▸ token), fun member => apart (others member)⟩

/-- A frame that is done goes away. -/
theorem Sound.drop (sound : t.Sound) (frame : t.frame h = some ⟨none, true⟩) :
    Sound { t with frame := Function.update t.frame h none } := by
  have notLive : ¬ t.Live h := by
    rintro ⟨caller, live⟩
    rw [frame, Option.some.injEq, FrameShape.mk.injEq] at live
    cases live.2
  refine sound.retire (.inl rfl) ?_ ?_ sound.single ?_ (by rw [frame]; rfl)
  · exact fun x token => ⟨sound.live x token, fun same => notLive (same ▸ sound.live x token)⟩
  · exact fun x token => ⟨sound.rootLive x token, fun same =>
      notLive ⟨none, same ▸ sound.rootLive x token⟩⟩
  · intro x c done _ waits
    obtain ⟨live, -, apart⟩ := sound.waiting x c done waits
    exact ⟨fun same => notLive (same ▸ live), apart⟩

end Threads

end Corio
