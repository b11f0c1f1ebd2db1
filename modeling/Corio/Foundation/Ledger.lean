import Mathlib.Data.List.Range
import Mathlib.Data.List.Sublists
import Mathlib.Logic.Function.Basic

/-! # Accounts of a shared output

A ledger says which items are done. Each maker makes an item at a time and gives it away, to
a queue that is served in order or straight to the list of what is done. Items are numbers,
in the order they are made. `Exclusive` says what an output holds that threads write to, a
piece at a time, while they have a lock.
-/

namespace Corio

structure Ledger (ι : Type) where
  /-- The maker of each item. -/
  makers : List ι
  /-- The item that a maker has not given away. -/
  pending : ι → Option Nat
  queued : List Nat
  /-- How many of the queued items have been served. -/
  served : Nat
  done : List Nat

namespace Ledger

variable {ι : Type} [DecidableEq ι]

def make (l : Ledger ι) (i : ι) : Ledger ι :=
  { l with makers := l.makers ++ [i],
           pending := Function.update l.pending i (some l.makers.length) }

/-- A maker gives its item to the queue. -/
def enqueue (l : Ledger ι) (i : ι) (p : Nat) : Ledger ι :=
  { l with pending := Function.update l.pending i none, queued := l.queued ++ [p] }

/-- The next item of the queue is done. -/
def serve (l : Ledger ι) (p : Nat) : Ledger ι :=
  { l with served := l.served + 1, done := l.done ++ [p] }

/-- A maker's item is done without the queue. -/
def deliver (l : Ledger ι) (i : ι) (p : Nat) : Ledger ι :=
  { l with pending := Function.update l.pending i none, done := l.done ++ [p] }

/-- Two items of one maker. -/
def Together (l : Ledger ι) (a b : Nat) : Prop := l.makers[a]? = l.makers[b]?

structure Sound (l : Ledger ι) : Prop where
  made : ∀ i p, l.pending i = some p → l.makers[p]? = some i
  latest : ∀ i p b, l.pending i = some p → l.makers[b]? = some i → b ≤ p
  kept : ∀ i p, l.pending i = some p → p ∉ l.queued ∧ p ∉ l.done
  settled : ∀ p, p < l.makers.length → (∃ i, l.pending i = some p) ∨ p ∈ l.queued ∨ p ∈ l.done
  inside : ∀ p, p ∈ l.queued ∨ p ∈ l.done → p < l.makers.length
  once : l.done.Nodup
  ordered : l.queued.Pairwise fun a b => l.Together a b → a < b
  bound : l.served ≤ l.queued.length
  served : ∀ p, p ∈ l.queued.take l.served → p ∈ l.done
  unserved : ∀ p, p ∈ l.queued.drop l.served → p ∉ l.done
  /-- Items of one maker are done in order, unless only the first one was queued. -/
  precedes : ∀ a b, a < b → l.Together a b → b ∈ l.done →
    a ∈ l.queued ∧ b ∉ l.queued ∨ [a, b].Sublist l.done

variable {l : Ledger ι}

/-- An item done last comes behind every other one. -/
theorem sublist_last {done : List Nat} {a b : Nat} (before : a ∈ done) :
    [a, b].Sublist (done ++ [b]) :=
  (List.singleton_sublist.mpr before).append (List.Sublist.refl [b])

namespace Sound

omit [DecidableEq ι] in
theorem init : Sound (⟨[], fun _ => none, [], 0, []⟩ : Ledger ι) where
  made := fun _ _ held => by cases held
  latest := fun _ _ _ held => by cases held
  kept := fun _ _ held => by cases held
  settled := fun _ less => absurd less (Nat.not_lt_zero _)
  inside := fun _ member => by simp at member
  once := List.nodup_nil
  ordered := List.Pairwise.nil
  bound := le_rfl
  served := fun _ member => by simp at member
  unserved := fun _ _ => List.not_mem_nil
  precedes := fun _ _ _ _ member => by simp at member

omit [DecidableEq ι] in
/-- An item that its maker still has is younger than all others of that maker. -/
theorem given (sound : l.Sound) {a b : Nat} (less : a < b) (together : l.Together a b)
    (inside : b < l.makers.length) : a ∈ l.queued ∨ a ∈ l.done := by
  rcases sound.settled a (by omega) with ⟨i, held⟩ | given
  · have := sound.latest i a b held (together ▸ sound.made i a held)
    omega
  · exact given

theorem make (sound : l.Sound) {i : ι} (free : l.pending i = none) : (l.make i).Sound := by
  have older : ∀ {p : Nat}, p < l.makers.length → (l.makers ++ [i])[p]? = l.makers[p]? :=
    fun less => List.getElem?_append_left less
  have held : ∀ {j p}, j ≠ i → (l.make i).pending j = some p → l.pending j = some p :=
    fun apart held => (Function.update_of_ne apart _ _).symm.trans held
  have own : ∀ {p}, (l.make i).pending i = some p → p = l.makers.length := by
    intro p held
    simp only [Ledger.make, Function.update_self, Option.some.injEq] at held
    exact held.symm
  have before : ∀ j p, l.pending j = some p → p < l.makers.length := fun j p held =>
    (List.getElem?_eq_some_iff.mp (sound.made j p held)).1
  refine ⟨?_, ?_, ?_, ?_, ?_, sound.once, ?_, sound.bound, sound.served, sound.unserved, ?_⟩
  · intro j p mine
    by_cases same : j = i
    · subst same
      simp only [own mine, Ledger.make, List.getElem?_concat_length]
    · have there := sound.made j p (held same mine)
      exact (older (before j p (held same mine))).trans there
  · intro j p b mine made
    have bound := (List.getElem?_eq_some_iff.mp made).1
    simp only [Ledger.make, List.length_append, List.length_singleton] at bound
    by_cases same : j = i
    · subst same
      rw [own mine]
      omega
    · by_cases last : b = l.makers.length
      · subst last
        simp only [Ledger.make, List.getElem?_concat_length, Option.some.injEq] at made
        exact absurd made.symm same
      · exact sound.latest j p b (held same mine) ((older (by omega)).symm.trans made)
  · intro j p mine
    by_cases same : j = i
    · subst same
      rw [own mine]
      exact ⟨fun member => Nat.lt_irrefl _ (sound.inside _ (.inl member)),
        fun member => Nat.lt_irrefl _ (sound.inside _ (.inr member))⟩
    · exact sound.kept j p (held same mine)
  · intro p less
    simp only [Ledger.make, List.length_append, List.length_singleton] at less
    by_cases last : p = l.makers.length
    · exact .inl ⟨i, by simp only [Ledger.make, Function.update_self, last]⟩
    · refine (sound.settled p (by omega)).imp_left fun ⟨j, mine⟩ => ⟨j, ?_⟩
      have apart : j ≠ i := by
        rintro rfl
        rw [free] at mine
        cases mine
      simpa only [Ledger.make, Function.update_of_ne apart] using mine
  · intro p member
    have := sound.inside p member
    simp only [Ledger.make, List.length_append, List.length_singleton]
    omega
  · refine sound.ordered.imp_of_mem fun {a b} inA inB ordered together => ordered ?_
    have first := older (sound.inside a (.inl inA))
    have second := older (sound.inside b (.inl inB))
    exact first.symm.trans (together.trans second)
  · intro a b less together member
    have bound := sound.inside b (.inr member)
    refine sound.precedes a b less ?_ member
    exact (older (by omega)).symm.trans (together.trans (older bound))

/-- What stays of the makers' items when one of them is given away. -/
theorem pending_of_given {i j : ι} {p : Nat}
    (held : Function.update l.pending i none j = some p) : l.pending j = some p ∧ j ≠ i := by
  by_cases same : j = i
  · subst same
    rw [Function.update_self] at held
    cases held
  · rw [Function.update_of_ne same] at held
    exact ⟨held, same⟩

omit [DecidableEq ι] in
/-- Two makers do not have one item. -/
theorem pending_ne (sound : l.Sound) {i j : ι} {p q : Nat} (mine : l.pending i = some p)
    (other : l.pending j = some q) (apart : j ≠ i) : q ≠ p := by
  rintro rfl
  have made := sound.made i q mine
  rw [sound.made j q other] at made
  exact apart (Option.some.inj made)

/-- Where an item is once a maker has given away its own. -/
theorem settled_given (sound : l.Sound) {i : ι} {p q : Nat} (mine : l.pending i = some p)
    (less : q < l.makers.length) :
    q = p ∨ (∃ j, Function.update l.pending i none j = some q) ∨ q ∈ l.queued ∨ q ∈ l.done := by
  by_cases same : q = p
  · exact .inl same
  · refine .inr ((sound.settled q less).imp_left ?_)
    rintro ⟨j, held⟩
    have apart : j ≠ i := by
      rintro rfl
      rw [mine] at held
      exact same (Option.some.inj held).symm
    exact ⟨j, by rwa [Function.update_of_ne apart]⟩

theorem enqueue (sound : l.Sound) {i : ι} {p : Nat} (mine : l.pending i = some p) :
    (l.enqueue i p).Sound := by
  obtain ⟨fresh, undone⟩ := sound.kept i p mine
  have inside := (List.getElem?_eq_some_iff.mp (sound.made i p mine)).1
  refine ⟨?_, ?_, ?_, ?_, ?_, sound.once, ?_, ?_, ?_, ?_, ?_⟩
  · intro j q held
    exact sound.made j q (pending_of_given held).1
  · intro j q b held
    exact sound.latest j q b (pending_of_given held).1
  · intro j q held
    obtain ⟨other, apart⟩ := pending_of_given held
    obtain ⟨unqueued, rest⟩ := sound.kept j q other
    refine ⟨?_, rest⟩
    simp only [Ledger.enqueue, List.mem_append, List.mem_singleton, not_or]
    exact ⟨unqueued, sound.pending_ne mine other apart⟩
  · intro q less
    simp only [Ledger.enqueue, List.mem_append, List.mem_singleton]
    rcases sound.settled_given mine less with same | held | queued | done
    · exact .inr (.inl (.inr same))
    · exact .inl held
    · exact .inr (.inl (.inl queued))
    · exact .inr (.inr done)
  · intro q member
    simp only [Ledger.enqueue, List.mem_append, List.mem_singleton] at member
    rcases member with (queued | rfl) | done
    · exact sound.inside q (.inl queued)
    · exact inside
    · exact sound.inside q (.inr done)
  · refine List.pairwise_append.mpr ⟨sound.ordered, List.pairwise_singleton _ _, ?_⟩
    intro a queued b last together
    obtain rfl := List.mem_singleton.mp last
    have made : l.makers[a]? = some i := together.trans (sound.made i b mine)
    refine Nat.lt_of_le_of_ne (sound.latest i b a mine made) ?_
    rintro rfl
    exact fresh queued
  · have := sound.bound
    simp only [Ledger.enqueue, List.length_append, List.length_singleton]
    omega
  · intro q member
    simp only [Ledger.enqueue, List.take_append_of_le_length sound.bound] at member
    exact sound.served q member
  · intro q member
    simp only [Ledger.enqueue, List.drop_append_of_le_length sound.bound, List.mem_append,
      List.mem_singleton] at member
    rcases member with unserved | rfl
    · exact sound.unserved q unserved
    · exact undone
  · intro a b less together member
    refine (sound.precedes a b less together member).imp_left fun ⟨queued, direct⟩ => ?_
    simp only [Ledger.enqueue, List.mem_append, List.mem_singleton, not_or]
    refine ⟨.inl queued, direct, ?_⟩
    rintro rfl
    exact undone member

omit [DecidableEq ι] in
theorem serve (sound : l.Sound) {p : Nat} (next : l.queued[l.served]? = some p) :
    (l.serve p).Sound := by
  obtain ⟨bound, here⟩ := List.getElem?_eq_some_iff.mp next
  have split : l.queued.drop l.served = p :: l.queued.drop (l.served + 1) := by
    rw [List.drop_eq_getElem_cons bound, here]
  have whole : l.queued = l.queued.take l.served ++ p :: l.queued.drop (l.served + 1) := by
    rw [← split, List.take_append_drop]
  have undone : p ∉ l.done := sound.unserved p (by simp [split])
  have queued : p ∈ l.queued := List.mem_of_getElem? next
  have later := whole ▸ sound.ordered
  refine ⟨sound.made, sound.latest, ?_, ?_, ?_, ?_, sound.ordered, bound, ?_, ?_, ?_⟩
  · intro i q held
    obtain ⟨unqueued, rest⟩ := sound.kept i q held
    refine ⟨unqueued, ?_⟩
    simp only [Ledger.serve, List.mem_append, List.mem_singleton, not_or]
    refine ⟨rest, ?_⟩
    rintro rfl
    exact unqueued queued
  · intro q less
    refine (sound.settled q less).imp_right (Or.imp_right fun done => ?_)
    exact List.mem_append_left _ done
  · intro q member
    simp only [Ledger.serve, List.mem_append, List.mem_singleton] at member
    rcases member with other | done | rfl
    · exact sound.inside q (.inl other)
    · exact sound.inside q (.inr done)
    · exact sound.inside q (.inl queued)
  · exact sound.once.append (List.nodup_singleton p) (by simpa using undone)
  · intro q member
    simp only [Ledger.serve, List.take_add_one, next, Option.toList_some, List.mem_append,
      List.mem_singleton] at member ⊢
    exact member.imp_left (sound.served q)
  · intro q member
    simp only [Ledger.serve, List.mem_append, List.mem_singleton, not_or]
    refine ⟨sound.unserved q (split ▸ List.mem_cons_of_mem _ member), ?_⟩
    rintro rfl
    have after := (List.pairwise_cons.mp (List.pairwise_append.mp later).2.1).1 q member rfl
    exact Nat.lt_irrefl _ after
  · intro a b less together member
    simp only [Ledger.serve, List.mem_append, List.mem_singleton] at member
    rcases member with done | rfl
    · exact (sound.precedes a b less together done).imp_right
        fun before => before.trans (List.sublist_append_left _ _)
    · refine .inr (sublist_last ?_)
      rcases sound.given less together (sound.inside b (.inl queued)) with other | done
      · -- An older item of the same maker was queued before.
        rw [whole, List.mem_append, List.mem_cons] at other
        rcases other with served | rfl | younger
        · exact sound.served a served
        · exact absurd less (Nat.lt_irrefl _)
        · have := (List.pairwise_cons.mp (List.pairwise_append.mp later).2.1).1 a younger
            together.symm
          omega
      · exact done

theorem deliver (sound : l.Sound) {i : ι} {p : Nat} (mine : l.pending i = some p) :
    (l.deliver i p).Sound := by
  obtain ⟨fresh, undone⟩ := sound.kept i p mine
  have inside := (List.getElem?_eq_some_iff.mp (sound.made i p mine)).1
  refine ⟨?_, ?_, ?_, ?_, ?_, ?_, sound.ordered, sound.bound, ?_, ?_, ?_⟩
  · intro j q held
    exact sound.made j q (pending_of_given held).1
  · intro j q b held
    exact sound.latest j q b (pending_of_given held).1
  · intro j q held
    obtain ⟨other, apart⟩ := pending_of_given held
    obtain ⟨unqueued, rest⟩ := sound.kept j q other
    refine ⟨unqueued, ?_⟩
    simp only [Ledger.deliver, List.mem_append, List.mem_singleton, not_or]
    exact ⟨rest, sound.pending_ne mine other apart⟩
  · intro q less
    simp only [Ledger.deliver, List.mem_append, List.mem_singleton]
    rcases sound.settled_given mine less with same | held | queued | done
    · exact .inr (.inr (.inr same))
    · exact .inl held
    · exact .inr (.inl queued)
    · exact .inr (.inr (.inl done))
  · intro q member
    simp only [Ledger.deliver, List.mem_append, List.mem_singleton] at member
    rcases member with queued | done | rfl
    · exact sound.inside q (.inl queued)
    · exact sound.inside q (.inr done)
    · exact inside
  · exact sound.once.append (List.nodup_singleton p) (by simpa using undone)
  · intro q member
    exact List.mem_append_left _ (sound.served q member)
  · intro q member
    simp only [Ledger.deliver, List.mem_append, List.mem_singleton, not_or]
    refine ⟨sound.unserved q member, ?_⟩
    rintro rfl
    exact fresh (List.mem_of_mem_drop member)
  · intro a b less together member
    simp only [Ledger.deliver, List.mem_append, List.mem_singleton] at member
    rcases member with done | rfl
    · exact (sound.precedes a b less together done).imp_right
        fun before => before.trans (List.sublist_append_left _ _)
    · rcases sound.given less together inside with queued | done
      · exact .inl ⟨queued, fresh⟩
      · exact .inr (sublist_last done)

omit [DecidableEq ι] in
/-- When nothing is pending or queued any more, every item is done exactly once. -/
theorem perm (sound : l.Sound) (given : ∀ i, l.pending i = none)
    (empty : l.served = l.queued.length) : l.done.Perm (List.range l.makers.length) := by
  refine (List.perm_ext_iff_of_nodup sound.once List.nodup_range).mpr fun p => ?_
  rw [List.mem_range]
  constructor
  · intro done
    exact sound.inside p (.inr done)
  · intro less
    rcases sound.settled p less with ⟨i, held⟩ | queued | done
    · rw [given i] at held
      cases held
    · exact sound.served p (by rwa [empty, List.take_length])
    · exact done

end Sound

end Ledger

/-- Who is inside has the lock. What was given to the output, with what the one inside still
    has to give, is the whole. -/
structure Exclusive {κ α : Type} (inside : κ → Prop) (rest : κ → List α) (mutex : Option κ)
    (given whole : List α) : Prop where
  holder : ∀ k, inside k ↔ mutex = some k
  text : given ++ mutex.elim [] rest = whole

namespace Exclusive

variable {κ α : Type} {inside inside' : κ → Prop} {rest rest' : κ → List α} {mutex : Option κ}
  {given given' whole whole' : List α} {k : κ}

/-- A thread takes the lock. -/
theorem enter (exclusive : Exclusive inside rest mutex given whole) (free : mutex = none)
    (others : ∀ j, j ≠ k → (inside' j ↔ inside j)) (now : inside' k) (nothing : rest' k = []) :
    Exclusive inside' rest' (some k) given whole := by
  subst free
  refine ⟨fun j => ?_, ?_⟩
  · by_cases same : j = k
    · simp only [same, now]
    · have out : ¬ inside j := fun mine => nomatch (exclusive.holder j).mp mine
      simp only [others j same, out, Option.some.injEq, false_iff]
      exact fun other => same other.symm
  · simpa only [Option.elim_some, Option.elim_none, nothing] using exclusive.text

/-- A thread that has nothing left to give gives up the lock. -/
theorem leave (exclusive : Exclusive inside rest mutex given whole) (mine : inside k)
    (nothing : rest k = []) (others : ∀ j, j ≠ k → (inside' j ↔ inside j)) (now : ¬ inside' k) :
    Exclusive inside' rest' none given whole := by
  obtain rfl := (exclusive.holder k).mp mine
  refine ⟨fun j => ?_, ?_⟩
  · by_cases same : j = k
    · simp only [same, now, reduceCtorEq]
    · simp only [others j same, exclusive.holder, Option.some.injEq, reduceCtorEq, iff_false]
      exact fun other => same other.symm
  · simpa only [Option.elim_some, Option.elim_none, nothing] using exclusive.text

/-- A thread goes on inside. -/
theorem work (exclusive : Exclusive inside rest mutex given whole) (mine : inside k)
    (others : ∀ j, j ≠ k → (inside' j ↔ inside j)) (now : inside' k)
    (text : given ++ rest k = whole → given' ++ rest' k = whole') :
    Exclusive inside' rest' mutex given' whole' := by
  have held := (exclusive.holder k).mp mine
  refine ⟨fun j => ?_, ?_⟩
  · by_cases same : j = k
    · simp only [same, now, held]
    · exact (others j same).trans (exclusive.holder j)
  · have before := exclusive.text
    rw [held] at before ⊢
    exact text before

/-- A thread goes on outside. -/
theorem roam (exclusive : Exclusive inside rest mutex given whole) (out : ¬ inside k)
    (others : ∀ j, j ≠ k → (inside' j ↔ inside j)) (kept : ∀ j, j ≠ k → rest' j = rest j)
    (now : ¬ inside' k) : Exclusive inside' rest' mutex given whole := by
  have apart : mutex ≠ some k := fun held => out ((exclusive.holder k).mpr held)
  refine ⟨fun j => ?_, ?_⟩
  · by_cases same : j = k
    · subst same
      exact iff_of_false now apart
    · exact (others j same).trans (exclusive.holder j)
  · rw [← exclusive.text]
    cases mutex with
    | none => rfl
    | some j =>
        have other : j ≠ k := by
          rintro rfl
          exact apart rfl
        simp only [Option.elim_some, kept j other]

end Exclusive

end Corio
