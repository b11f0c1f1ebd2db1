import Corio.Uring.Ring
import Mathlib.Data.List.ModifyLast

/-! # Completions find their await

An entry on its way is owned by the operation at its address. A timed receive has
two entries and ends with the first completion, so the second one outlives it; runs
in which every await outlives its entries deliver each completion to its own await.
-/

namespace Corio.Uring

namespace Ring

/-- The entries that have not completed. -/
def pending (r : Ring) : List Sqe := r.sq ++ r.chains.flatten ++ r.doomed

/-- The address and the await of every entry between `io_uring_get_sqe` and `handle_cqe`. -/
def outstanding (r : Ring) : List (Addr × Await) :=
  r.pending.map (fun sqe => (sqe.userData, sqe.await)) ++
    r.cq.map fun cqe => (cqe.userData, cqe.await)

/-- Every completion was handled while the operation at its address was alive, and every
    await returned the result of an entry of its own. -/
structure Faithful (r : Ring) : Prop where
  alive : ∀ delivery ∈ r.delivered, delivery.2.isSome
  own : ∀ result ∈ r.returned, result.2.await = result.1

/-- The condition on a step: an await only ends, by returning or by an exception, when
    none of its entries is outstanding. -/
def EndsClean (r : Ring) : RingStep → Prop
  | .resume => ∀ addr ∈ r.ready.head?, ∀ op ∈ r.operations addr, ∀ entry ∈ r.outstanding,
      entry.2 ≠ op.await
  | .await (.recv (some timeout)) addr submits =>
      match r.submitOne .recv addr ⟨r.nextId, some timeout⟩ submits.1 with
      | .ok between => (between.getSqe submits.2).isOk
      | .error _ => True
  | _ => True

instance (r : Ring) (action : RingStep) : Decidable (r.EndsClean action) := by
  unfold EndsClean
  split
  · infer_instance
  · split <;> infer_instance
  · infer_instance

theorem chained_flatten (sq : List Sqe) : (chained sq).flatten = sq := by
  induction sq with
  | nil => rfl
  | cons sqe rest ih =>
      simp only [chained]
      split
      · rename_i chain chains _ split
        rw [split] at ih
        simp only [List.flatten_cons, List.cons_append] at ih ⊢
        rw [ih]
      · simp only [List.flatten_cons, ih, List.singleton_append]

/-- The second ring differs in its entries only, and has no others than these. -/
structure Extends (r r' : Ring) (extra : List (Addr × Await)) : Prop where
  outstanding : ∀ entry ∈ r'.outstanding, entry ∈ r.outstanding ∨ entry ∈ extra
  operations : r'.operations = r.operations
  ready : r'.ready = r.ready
  delivered : r'.delivered = r.delivered
  returned : r'.returned = r.returned

variable {r r' r'' : Ring} {extra : List (Addr × Await)}

theorem Extends.refl (r : Ring) (extra : List (Addr × Await)) : Extends r r extra :=
  ⟨fun _ => .inl, rfl, rfl, rfl, rfl⟩

theorem Extends.trans (first : Extends r r' extra) (second : Extends r' r'' extra) :
    Extends r r'' extra where
  outstanding := fun entry inside =>
    (second.outstanding entry inside).elim (first.outstanding entry) .inr
  operations := second.operations.trans first.operations
  ready := second.ready.trans first.ready
  delivered := second.delivered.trans first.delivered
  returned := second.returned.trans first.returned

theorem flush_extends (r : Ring) (extra : List (Addr × Await)) : Extends r r.flush extra where
  outstanding := by
    intro entry
    simp only [Ring.outstanding, pending, flush, List.flatten_append, chained_flatten,
      List.nil_append, List.mem_append, List.map_append]
    tauto
  operations := rfl
  ready := rfl
  delivered := rfl
  returned := rfl

theorem push_extends (r : Ring) (sqe : Sqe) :
    Extends r (r.push sqe) [(sqe.userData, sqe.await)] where
  outstanding := by
    intro entry
    simp only [Ring.outstanding, pending, push, List.mem_append, List.map_append, List.map_cons,
      List.map_nil]
    tauto
  operations := rfl
  ready := rfl
  delivered := rfl
  returned := rfl

theorem linkLast_sq (sq : List Sqe) :
    (sq.modifyLast fun sqe => { sqe with link := true }).map
      (fun sqe => (sqe.userData, sqe.await)) = sq.map fun sqe => (sqe.userData, sqe.await) := by
  cases sq using List.reverseRecOn with
  | nil => rfl
  | append_singleton rest last => simp [List.modifyLast_concat]

theorem linkLast_extends (r : Ring) (extra : List (Addr × Await)) :
    Extends r r.linkLast extra where
  outstanding := by
    intro entry
    simp only [Ring.outstanding, pending, linkLast, List.map_append, linkLast_sq]
    exact .inl
  operations := rfl
  ready := rfl
  delivered := rfl
  returned := rfl

/-- The ring a call leaves, however it ended. -/
def Outcome.ring : Outcome → Ring
  | .ok r | .error r => r

theorem getSqe_extends (r : Ring) (submits : Bool) (extra : List (Addr × Await)) :
    Extends r (Outcome.ring (r.getSqe submits)) extra := by
  simp only [getSqe]
  split
  · exact .refl r extra
  · split
    · exact .refl r extra
    · split <;> exact flush_extends r extra

theorem submitOne_error {opcode : Opcode} {addr : Addr} {await : Await} {submits : Bool}
    (thrown : r.submitOne opcode addr await submits = .error r') : Extends r r' extra := by
  have extends_ := getSqe_extends r submits extra
  simp only [submitOne] at thrown
  cases got : r.getSqe submits with
  | ok between => simp [got, Except.map] at thrown
  | error between =>
      simp only [got, Except.map, Except.error.injEq] at thrown
      rw [got] at extends_
      exact thrown ▸ extends_

theorem submitOne_extends (r : Ring) (opcode : Opcode) (addr : Addr) (await : Await)
    (submits : Bool) :
    Extends r (Outcome.ring (r.submitOne opcode addr await submits)) [(addr, await)] := by
  have extends_ := getSqe_extends r submits [(addr, await)]
  simp only [submitOne]
  cases got : r.getSqe submits with
  | error between =>
      rw [got] at extends_
      exact extends_
  | ok between =>
      rw [got] at extends_
      exact extends_.trans (push_extends between _)

theorem recvSubmit_extends (r : Ring) (addr : Addr) (await : Await) (submits : Bool × Bool) :
    Extends r (Outcome.ring (r.recvSubmit addr await submits)) [(addr, await)] := by
  have begun := submitOne_extends r .recv addr await submits.1
  simp only [recvSubmit]
  cases first : r.submitOne .recv addr await submits.1 with
  | error between =>
      rw [first] at begun
      exact begun
  | ok between =>
      rw [first] at begun
      simp only [bind, Except.bind]
      split
      · exact begun
      · have more := getSqe_extends between submits.2 [(addr, await)]
        cases second : between.getSqe submits.2 with
        | error after =>
            rw [second] at more
            exact begun.trans more
        | ok after =>
            rw [second] at more
            exact (begun.trans more).trans ((linkLast_extends after _).trans (push_extends _ _))

theorem submit_extends (r : Ring) (request : Request) (addr : Addr) (await : Await)
    (submits : Bool × Bool) :
    Extends r (Outcome.ring (r.submit request addr await submits)) [(addr, await)] := by
  cases request with
  | accept | send => exact submitOne_extends r _ addr await submits.1
  | recv timeout => exact recvSubmit_extends r addr await submits

/-- If the second entry is there for a timed receive, an exception leaves none behind. -/
theorem recvSubmit_error {addr : Addr} {await : Await} {submits : Bool × Bool}
    (clean : await.timeout.isSome → ∀ between,
      r.submitOne .recv addr await submits.1 = .ok between → (between.getSqe submits.2).isOk)
    (thrown : r.recvSubmit addr await submits = .error r') : Extends r r' extra := by
  simp only [recvSubmit] at thrown
  cases first : r.submitOne .recv addr await submits.1 with
  | error between =>
      simp only [first, bind, Except.bind, Except.error.injEq] at thrown
      exact thrown ▸ submitOne_error first
  | ok between =>
      simp only [first, bind, Except.bind] at thrown
      split at thrown
      · cases thrown
      · rename_i timed
        have second := clean (by rw [timed]; rfl) between first
        cases got : between.getSqe submits.2 with
        | error after => simp [got, Except.isOk, Except.toBool] at second
        | ok after => simp [got] at thrown

/-- Every entry on its way belongs to the operation alive at its address. -/
structure Owned (r : Ring) : Prop where
  owners : ∀ entry ∈ r.outstanding, ∃ op, r.operations entry.1 = some op ∧ op.await = entry.2
  results : ∀ addr op cqe, r.operations addr = some op → op.completed = some cqe →
    cqe.await = op.await
  faithful : Faithful r

/-- A step that only loses entries keeps their owners. -/
theorem Owned.of_extends (owned : Owned r) (extends_ : Extends r r' []) : Owned r' where
  owners := by
    intro entry inside
    rw [extends_.operations]
    exact owned.owners entry ((extends_.outstanding entry inside).resolve_right (by simp))
  results := by
    rw [extends_.operations]
    exact owned.results
  faithful := by
    refine ⟨?_, ?_⟩
    · rw [extends_.delivered]
      exact owned.faithful.alive
    · rw [extends_.returned]
      exact owned.faithful.own

/-- A new operation at a free address owns the entries it submitted. -/
theorem Owned.begin {addr : Addr} {await : Await} (owned : Owned r)
    (free : r.operations addr = none) (extends_ : Extends r r' [(addr, await)]) :
    Owned { r' with operations := Function.update r'.operations addr (some ⟨await, none⟩) } where
  owners := by
    intro entry inside
    by_cases here : entry.1 = addr
    · refine ⟨⟨await, none⟩, by simp only [here, Function.update_self], ?_⟩
      rcases extends_.outstanding entry inside with old | new
      · obtain ⟨op, alive, -⟩ := owned.owners entry old
        rw [here, free] at alive
        cases alive
      · rw [List.mem_singleton.mp new]
    · simp only [Function.update_of_ne here, extends_.operations]
      rcases extends_.outstanding entry inside with old | new
      · exact owned.owners entry old
      · exact absurd (congrArg Prod.fst (List.mem_singleton.mp new)) here
  results := by
    intro other op cqe alive completed
    by_cases here : other = addr
    · simp only [here, Function.update_self, Option.some.injEq] at alive
      rw [← alive] at completed
      cases completed
    · simp only [Function.update_of_ne here, extends_.operations] at alive
      exact owned.results other op cqe alive completed
  faithful := by
    refine ⟨?_, ?_⟩
    · rw [extends_.delivered]
      exact owned.faithful.alive
    · rw [extends_.returned]
      exact owned.faithful.own

theorem Owned.awaitSuspend {request : Request} {addr : Addr} {submits : Bool × Bool}
    (owned : Owned r) (clean : r.EndsClean (.await request addr submits))
    (taken : r.awaitSuspend request addr submits = some r') : Owned r' := by
  simp only [Ring.awaitSuspend, Option.ite_none_left_eq_some] at taken
  obtain ⟨free, taken⟩ := taken
  have free : r.operations addr = none := by simpa using free
  have extends_ := submit_extends r request addr ⟨r.nextId, request.timeout⟩ submits
  cases submitted : r.submit request addr ⟨r.nextId, request.timeout⟩ submits with
  | ok after =>
      simp only [submitted, Option.some.injEq] at taken
      rw [submitted] at extends_
      obtain ⟨owners, results, faithful⟩ := owned.begin free extends_
      exact taken ▸ ⟨owners, results, ⟨faithful.alive, faithful.own⟩⟩
  | error after =>
      simp only [submitted, Option.some.injEq] at taken
      have kept : Owned after := by
        cases request with
        | accept | send => exact owned.of_extends (submitOne_error submitted)
        | recv timeout =>
            refine owned.of_extends (recvSubmit_error (fun timed => ?_) submitted)
            cases timeout with
            | none => cases timed
            | some duration =>
                intro between first
                simp only [Request.timeout] at first
                simp only [EndsClean, first] at clean
                exact clean
      exact taken ▸ ⟨kept.owners, kept.results, ⟨kept.faithful.alive, kept.faithful.own⟩⟩

/-- A completion takes the place of an entry. -/
theorem post_extends {sqe : Sqe} {res : Int} (ended : sqe ∈ r.pending)
    (fewer : r'.pending ⊆ r.pending) (cq : r'.cq = r.cq) (operations : r'.operations = r.operations)
    (ready : r'.ready = r.ready) (delivered : r'.delivered = r.delivered)
    (returned : r'.returned = r.returned) : Extends r (r'.post sqe res) [] := by
  refine ⟨fun entry inside => .inl ?_, operations, ready, delivered, returned⟩
  have others := List.map_subset (fun sqe => (sqe.userData, sqe.await)) fewer
  have itself := List.mem_map_of_mem (f := fun sqe => (sqe.userData, sqe.await)) ended
  simp only [Ring.outstanding, post, cq, List.map_append, List.map_cons, List.map_nil,
    List.mem_append, List.mem_singleton] at inside ⊢
  rcases inside with waiting | completed | rfl
  · exact .inl (others waiting)
  · exact .inr completed
  · exact .inl itself

theorem flatten_set_subset {α : Type} {chains : List (List α)} {i : Nat} {old new : List α}
    (at_ : chains[i]? = some old) (subset : new ⊆ old) :
    (chains.set i new).flatten ⊆ chains.flatten := by
  intro x inside
  obtain ⟨chain, member, inChain⟩ := List.mem_flatten.mp inside
  rcases List.mem_or_eq_of_mem_set member with same | rfl
  · exact List.mem_flatten.mpr ⟨chain, same, inChain⟩
  · exact List.mem_flatten.mpr ⟨old, List.mem_of_getElem? at_, subset inChain⟩

theorem finish_extends {chain : Nat} {res : Int} (taken : r.finish chain res = some r') :
    Extends r r' [] := by
  simp only [finish] at taken
  split at taken
  · rename_i sqe rest at_
    have inKernel : sqe :: rest ⊆ r.chains.flatten := fun other inside =>
      List.mem_flatten.mpr ⟨_, List.mem_of_getElem? at_, inside⟩
    have linked : rest ⊆ r.chains.flatten := List.Subset.trans (List.subset_cons_self _ _) inKernel
    have ended : sqe ∈ r.pending := by
      simp only [pending, List.mem_append]
      exact .inl (.inr (inKernel List.mem_cons_self))
    simp only [Option.ite_none_right_eq_some] at taken
    obtain ⟨-, taken⟩ := taken
    split at taken
    · obtain rfl := Option.some.inj taken
      refine post_extends ended (fun other inside => ?_) rfl rfl rfl rfl rfl
      have fewer := flatten_set_subset at_ (List.nil_subset _)
      simp only [pending, List.mem_append] at inside ⊢
      rcases inside with (queued | started) | doomed | behind
      · exact .inl (.inl queued)
      · exact .inl (.inr (fewer started))
      · exact .inr doomed
      · exact .inl (.inr (linked behind))
    · obtain rfl := Option.some.inj taken
      refine post_extends ended (fun other inside => ?_) rfl rfl rfl rfl rfl
      have fewer := flatten_set_subset at_ (List.subset_cons_self sqe rest)
      simp only [pending, List.mem_append] at inside ⊢
      exact inside.imp_left (Or.imp_right (@fewer other))
  · cases taken

theorem cancel_extends {i : Nat} (taken : r.cancel i = some r') : Extends r r' [] := by
  simp only [cancel] at taken
  split at taken
  · rename_i sqe at_
    obtain rfl := Option.some.inj taken
    have doomed : sqe ∈ r.pending := by
      simp only [pending, List.mem_append]
      exact .inr (List.mem_of_getElem? at_)
    refine post_extends doomed (fun other inside => ?_) rfl rfl rfl rfl rfl
    simp only [pending, List.mem_append] at inside ⊢
    exact inside.imp_right List.mem_of_mem_eraseIdx
  · cases taken

theorem Owned.complete {addr : Addr} {op : Operation} {cqe : Cqe} (owned : Owned r)
    (alive : r.operations addr = some op) (same : cqe.await = op.await) :
    Owned (r.complete addr op cqe) := by
  unfold Ring.complete
  split
  · exact owned
  · refine ⟨?_, ?_, ⟨owned.faithful.alive, owned.faithful.own⟩⟩
    · intro entry inside
      obtain ⟨other, found, owner⟩ := owned.owners entry inside
      by_cases here : entry.1 = addr
      · rw [here, alive, Option.some.injEq] at found
        exact ⟨{ op with completed := some cqe }, by simp only [here, Function.update_self],
          found ▸ owner⟩
      · exact ⟨other, by simpa only [Function.update_of_ne here] using found, owner⟩
    · intro at_ other result found completed
      by_cases here : at_ = addr
      · simp only [here, Function.update_self, Option.some.injEq] at found
        rw [← found, Option.some.injEq] at completed
        rw [← found, ← completed]
        exact same
      · simp only [Function.update_of_ne here] at found
        exact owned.results at_ other result found completed

theorem Owned.handleCqe (owned : Owned r) (taken : r.handleCqe = some r') : Owned r' := by
  simp only [Ring.handleCqe] at taken
  split at taken
  · cases taken
  · rename_i cqe cq queued
    obtain ⟨op, alive, same⟩ :=
      owned.owners (cqe.userData, cqe.await) (by simp [outstanding, queued])
    simp only [alive, Option.some.injEq] at taken
    have logged : Owned { r with cq := cq, delivered := r.delivered ++ [(cqe, some op)] } := by
      refine ⟨fun entry inside => owned.owners entry ?_, owned.results, ⟨?_, owned.faithful.own⟩⟩
      · simp only [outstanding, pending, queued, List.map_cons, List.mem_append,
          List.mem_cons] at inside ⊢
        tauto
      · intro delivery inside
        rcases List.mem_append.mp inside with old | new
        · exact owned.faithful.alive delivery old
        · rw [List.mem_singleton.mp new]
          rfl
    exact taken ▸ logged.complete alive same.symm

theorem Owned.resumeReady (owned : Owned r) (clean : r.EndsClean .resume)
    (taken : r.resumeReady = some r') : Owned r' := by
  obtain ⟨addr, ready, await, cqe, queued, alive, rfl⟩ := resumeReady_some taken
  refine ⟨?_, ?_, ⟨owned.faithful.alive, ?_⟩⟩
  · intro entry inside
    obtain ⟨op, found, owner⟩ := owned.owners entry inside
    have elsewhere : entry.1 ≠ addr := by
      intro here
      have last := clean addr (by rw [queued]; rfl) op (here ▸ found) entry inside
      exact last owner.symm
    exact ⟨op, by simpa only [Function.update_of_ne elsewhere] using found, owner⟩
  · intro at_ op result found completed
    by_cases here : at_ = addr
    · simp only [here, Function.update_self, reduceCtorEq] at found
    · simp only [Function.update_of_ne here] at found
      exact owned.results at_ op result found completed
  · intro result inside
    rcases List.mem_append.mp inside with old | new
    · exact owned.faithful.own result old
    · rw [List.mem_singleton.mp new]
      exact owned.results addr _ cqe alive rfl

end Ring

open Corio.Uring.Ring

variable {entries : Nat}

/-- What is ready to be resumed is alive and completed, once. -/
structure Enqueued (r : Ring) : Prop where
  once : r.ready.Nodup
  completed : ∀ addr ∈ r.ready, ∃ op, r.operations addr = some op ∧ op.completed.isSome

theorem Enqueued.of_extends {r r' : Ring} {extra : List (Addr × Await)} (enqueued : Enqueued r)
    (extends_ : Extends r r' extra) : Enqueued r' := by
  obtain ⟨once, completed⟩ := enqueued
  exact ⟨extends_.ready ▸ once, extends_.ready ▸ extends_.operations ▸ completed⟩

theorem Enqueued.awaitSuspend {r r' : Ring} {request : Request} {addr : Addr}
    {submits : Bool × Bool} (enqueued : Enqueued r)
    (taken : r.awaitSuspend request addr submits = some r') : Enqueued r' := by
  simp only [Ring.awaitSuspend, Option.ite_none_left_eq_some] at taken
  obtain ⟨free, taken⟩ := taken
  have extends_ := submit_extends r request addr ⟨r.nextId, request.timeout⟩ submits
  cases submitted : r.submit request addr ⟨r.nextId, request.timeout⟩ submits with
  | error after =>
      simp only [submitted, Option.some.injEq] at taken
      rw [submitted] at extends_
      have kept := enqueued.of_extends extends_
      exact taken ▸ ⟨kept.once, kept.completed⟩
  | ok after =>
      simp only [submitted, Option.some.injEq] at taken
      rw [submitted] at extends_
      change Extends r after _ at extends_
      have kept := enqueued.of_extends extends_
      refine taken ▸ ⟨kept.once, fun other ready => ?_⟩
      have elsewhere : other ≠ addr := by
        rintro rfl
        obtain ⟨op, alive, -⟩ := kept.completed other ready
        rw [extends_.operations] at alive
        exact free (by rw [alive]; rfl)
      simpa only [Function.update_of_ne elsewhere] using kept.completed other ready

theorem Enqueued.handleCqe {r r' : Ring} (enqueued : Enqueued r) (taken : r.handleCqe = some r') :
    Enqueued r' := by
  simp only [Ring.handleCqe] at taken
  split at taken
  · cases taken
  · rename_i cqe cq queued
    cases found : r.operations cqe.userData with
    | none =>
        simp only [found, Option.some.injEq] at taken
        exact taken ▸ ⟨enqueued.once, enqueued.completed⟩
    | some op =>
        simp only [found, Option.some.injEq, Ring.complete] at taken
        split at taken
        · exact taken ▸ ⟨enqueued.once, enqueued.completed⟩
        · rename_i fresh
          have waiting : cqe.userData ∉ r.ready := by
            intro ready
            obtain ⟨other, same, done⟩ := enqueued.completed _ ready
            rw [found, Option.some.injEq] at same
            exact fresh (same ▸ done)
          subst taken
          refine ⟨?_, fun addr ready => ?_⟩
          · have apart : ∀ addr ∈ r.ready, addr ≠ cqe.userData := fun addr ready same =>
              waiting (same ▸ ready)
            simpa [List.nodup_append] using ⟨enqueued.once, apart⟩
          · by_cases here : addr = cqe.userData
            · exact ⟨⟨op.await, some cqe⟩, by simp only [here, Function.update_self], rfl⟩
            · have old : addr ∈ r.ready := by simpa [here] using ready
              simpa only [Function.update_of_ne here] using enqueued.completed addr old

theorem Enqueued.resumeReady {r r' : Ring} (enqueued : Enqueued r)
    (taken : r.resumeReady = some r') : Enqueued r' := by
  obtain ⟨addr, ready, await, cqe, queued, -, rfl⟩ := resumeReady_some taken
  have once := enqueued.once
  rw [queued, List.nodup_cons] at once
  refine ⟨once.2, fun other later => ?_⟩
  have elsewhere : other ≠ addr := by
    rintro rfl
    exact once.1 later
  simpa only [Function.update_of_ne elsewhere] using
    enqueued.completed other (queued ▸ List.mem_cons_of_mem _ later)

theorem enqueued_step (r : Ring) (action : RingStep) (r' : Ring) (enqueued : Enqueued r)
    (taken : (ring entries).step r action = some r') : Enqueued r' := by
  cases action with
  | await request addr submits => exact enqueued.awaitSuspend taken
  | submit succeeds =>
      simp only [ring, Option.some.injEq] at taken
      subst taken
      split
      · exact enqueued.of_extends (flush_extends r [])
      · exact enqueued
  | finish chain res => exact enqueued.of_extends (finish_extends taken)
  | cancel i => exact enqueued.of_extends (cancel_extends taken)
  | handleCqe => exact enqueued.handleCqe taken
  | resume => exact enqueued.resumeReady taken

/-- Whatever is ready can be resumed. -/
theorem resume_enabled {r : Ring} (reached : (ring entries).Reachable r) (ready : r.ready ≠ []) :
    (r.resumeReady).isSome := by
  have enqueued : Enqueued r :=
    reached.induct ⟨List.nodup_nil, by simp [ring]⟩ enqueued_step
  obtain ⟨addr, rest, queued⟩ := List.exists_cons_of_ne_nil ready
  obtain ⟨⟨await, completed⟩, alive, done⟩ := enqueued.completed addr (by simp [queued])
  obtain ⟨cqe, rfl⟩ := Option.isSome_iff_exists.mp done
  simp [Ring.resumeReady, queued, alive]

theorem owned_init : Owned (ring entries).init where
  owners := by simp [ring, outstanding, pending]
  results := by simp [ring]
  faithful := by constructor <;> simp [ring]

theorem owned_step (r : Ring) (action : RingStep) (r' : Ring) (owned : Owned r)
    (clean : r.EndsClean action) (taken : (ring entries).step r action = some r') : Owned r' := by
  cases action with
  | await request addr submits => exact owned.awaitSuspend clean taken
  | submit succeeds =>
      simp only [ring, Option.some.injEq] at taken
      subst taken
      split
      · exact owned.of_extends (flush_extends r [])
      · exact owned
  | finish chain res => exact owned.of_extends (finish_extends taken)
  | cancel i => exact owned.of_extends (cancel_extends taken)
  | handleCqe => exact owned.handleCqe taken
  | resume => exact owned.resumeReady clean taken

/-- If no await ends before its entries, every completion is handled while its operation
    is alive, and every await returns a result of its own. -/
theorem completions_faithful (entries : Nat) (steps : List RingStep) (r : Ring)
    (clean : (ring entries).Guarded EndsClean (ring entries).init steps)
    (ran : (ring entries).run (ring entries).init steps = some r) : Faithful r :=
  (Machine.Guarded.preserves owned_step owned_init clean ran).faithful

/-- A timed receive fails, and its timer is cancelled before the coroutine goes on; the
    next await lives at the same address. -/
def cleanSteps : List RingStep :=
  [.await (.recv (some 30)) 0 (true, true), .submit true, .finish 0 (-104), .cancel 0, .handleCqe,
    .handleCqe, .resume, .await .send 0 (true, true), .submit true, .finish 1 120, .handleCqe,
    .resume]

theorem completions_clean : ∃ r, (ring 8).run (ring 8).init cleanSteps = some r ∧ Faithful r := by
  obtain ⟨r, ran⟩ := Option.isSome_iff_exists.mp
    (show ((ring 8).run (ring 8).init cleanSteps).isSome by decide)
  exact ⟨r, ran, completions_faithful 8 cleanSteps r (by decide) ran⟩

/-- A timed receive succeeds, and its timer fires during the next one. -/
def staleSteps : List RingStep :=
  [.await (.recv (some 30)) 0 (true, true), .submit true, .finish 0 120, .handleCqe, .resume,
    .await (.recv (some 30)) 0 (true, true), .submit true, .finish 0 (-62), .handleCqe, .resume]

/-- The second receive returns with the first one's timer. -/
theorem staleTimer_returned :
    ((ring 8).run (ring 8).init staleSteps).any fun r =>
      r.returned.any fun result => result.1.id = 1 ∧ result.2.await.id = 0 := by
  decide

end Corio.Uring
