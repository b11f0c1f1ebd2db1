import Corio.Logging.LogQueue
import Mathlib.Data.List.Nodup

/-! # Tickets of the queue

Every ticket of `tail_` goes through the same stages, from the push that wins it to the pop
that returns its entry. The sequence of a slot tells how far its last ticket has come, as
long as no compare-exchange takes a counter that went round once for the one it loaded.
-/

namespace Corio.Logging

/-- The word of a number. -/
def word (n : Nat) : Word := BitVec.ofNat 64 n

theorem word_succ (n : Nat) : word n + 1 = word (n + 1) :=
  (BitVec.ofNat_add n 1).symm

theorem word_eq_iff (m n : Nat) : word m = word n ↔ m % 2 ^ 64 = n % 2 ^ 64 := by
  rw [← BitVec.toNat_inj]
  simp only [word, BitVec.toNat_ofNat]

/-- Numbers that are less than a round apart have different words. -/
theorem word_inj {m n : Nat} (le : m ≤ n) (near : n < m + 2 ^ 64) (same : word m = word n) :
    m = n := by
  rw [word_eq_iff] at same
  omega

theorem word_and_low {bits : Nat} (fits : bits < 64) (n : Nat) :
    (word n &&& word (2 ^ bits - 1)).toNat = n % 2 ^ bits := by
  have small : 2 ^ bits - 1 < 2 ^ 64 := by
    have : 2 ^ bits < 2 ^ 64 := Nat.pow_lt_pow_right (by omega) fits
    omega
  rw [BitVec.toNat_and, word, word, BitVec.toNat_ofNat, BitVec.toNat_ofNat,
    Nat.mod_eq_of_lt small, Nat.and_two_pow_sub_one_eq_mod]
  exact Nat.mod_mod_of_dvd n (Nat.pow_dvd_pow 2 (Nat.le_of_lt fits))

namespace Capacity

variable (capacity : Capacity)

theorem two_le_size : 2 ≤ capacity.size :=
  Nat.pow_le_pow_right (n := 2) (by omega) capacity.two_le

theorem size_lt : capacity.size < 2 ^ 64 :=
  Nat.pow_lt_pow_right (by omega) capacity.fits

theorem word_and_mask (n : Nat) : (word n &&& capacity.mask).toNat = n % capacity.size :=
  word_and_low capacity.fits n

/-- Two tickets share a slot. -/
theorem slot_eq_iff (m n : Nat) :
    word m &&& capacity.mask = word n &&& capacity.mask ↔
      m % capacity.size = n % capacity.size := by
  rw [← BitVec.toNat_inj, word_and_mask, word_and_mask]

theorem word_add_size (n : Nat) : word n + capacity.mask + 1 = word (n + capacity.size) := by
  have := capacity.two_le_size
  rw [mask, word, ← BitVec.ofNat_add, ← word, word_succ]
  congr 1
  omega

end Capacity

theorem diff_eq_zero_iff (seq pos : Word) : LogQueue.diff seq pos = 0 ↔ seq = pos := by
  rw [LogQueue.diff, ← BitVec.toInt_zero (w := 64), BitVec.toInt_inj, BitVec.sub_eq_iff_eq_add]
  simp

/-- How far a ticket has come. -/
inductive Stage where
  /-- No push has won it. -/
  | ahead
  | storing
  | publishing
  /-- Its entry is in its slot, and no pop has won it. -/
  | full
  | exchanging
  | releasing
  | done
  deriving DecidableEq, Repr

namespace Stage

/-- A pop has won the ticket. -/
def Taken : Stage → Prop
  | .exchanging | .releasing | .done => True
  | _ => False

/-- A thread is at work on the ticket. -/
def Busy : Stage → Prop
  | .storing | .publishing | .exchanging | .releasing => True
  | _ => False

instance (σ : Stage) : Decidable σ.Busy := by
  unfold Busy
  split <;> infer_instance

/-- What the slot of a ticket holds until the next ticket of that slot is won. -/
def content {α : Type} (capacity : Capacity) (won : List α) (ticket : Nat) : Stage → Slot α
  | .ahead | .storing => ⟨word ticket, none⟩
  | .publishing => ⟨word ticket, won[ticket]?⟩
  | .full | .exchanging => ⟨word (ticket + 1), won[ticket]?⟩
  | .releasing => ⟨word (ticket + 1), none⟩
  | .done => ⟨word (ticket + capacity.size), none⟩

end Stage

namespace QueuePc

variable {α : Type}

/-- The ticket a thread is at work on. -/
def holds : QueuePc α → Option (Nat × Stage)
  | .storing _ _ ticket => some (ticket, .storing)
  | .publishing _ ticket => some (ticket, .publishing)
  | .exchanging _ ticket => some (ticket, .exchanging)
  | .releasing _ ticket _ => some (ticket, .releasing)
  | _ => none

/-- What a thread knows about the counters and its ticket. -/
def Informed (capacity : Capacity) (won : List α) (taken : Nat) (stage : Nat → Stage) :
    QueuePc α → Prop
  | .pushReading _ pos since => pos = word since ∧ since ≤ won.length
  | .pushSwapping _ pos since => pos = word since ∧ since ≤ won.length ∧
      (since = won.length → capacity.size ≤ since → stage (since - capacity.size) = .done)
  | .storing entry pos ticket => pos = word ticket ∧ won[ticket]? = some entry
  | .publishing pos ticket | .exchanging pos ticket => pos = word ticket
  | .popReading pos since => pos = word since ∧ since ≤ taken
  | .popSwapping pos since => pos = word since ∧ since ≤ taken ∧
      (since = taken → stage since = .full)
  | .releasing pos ticket entry =>
      pos = word ticket ∧ ticket < won.length ∧ entry = won[ticket]?
  | _ => True

end QueuePc

/-- Each ticket at work is that of one thread. -/
structure Roster {ι α : Type} (thread : ι → QueuePc α) (stage : Nat → Stage) : Prop where
  holds : ∀ i t σ, (thread i).holds = some (t, σ) → stage t = σ
  holder : ∀ t, (stage t).Busy → ∃ i, (thread i).holds = some (t, stage t)
  alone : ∀ i j held, (thread i).holds = some held → (thread j).holds = some held → i = j

namespace Roster

variable {ι α : Type} [DecidableEq ι] {thread : ι → QueuePc α} {stage : Nat → Stage}

/-- A thread between two tickets stays there. -/
theorem goto (roster : Roster thread stage) {i : ι} {pc : QueuePc α}
    (before : (thread i).holds = none) (behind : pc.holds = none) :
    Roster (Function.update thread i pc) stage := by
  have holds : ∀ j, (Function.update thread i pc j).holds = (thread j).holds := by
    intro j
    by_cases same : j = i
    · simp only [same, Function.update_self, before, behind]
    · simp only [Function.update_of_ne same]
  refine ⟨fun j t σ held => ?_, fun t busy => ?_, fun j k held first second => ?_⟩
  · exact roster.holds j t σ (holds j ▸ held)
  · obtain ⟨j, held⟩ := roster.holder t busy
    exact ⟨j, (holds j).trans held⟩
  · exact roster.alone j k held (holds j ▸ first) (holds k ▸ second)

/-- A thread takes up a ticket, moves it on or leaves it. -/
theorem move (roster : Roster thread stage) {i : ι} {t : Nat} {next : Stage} {pc : QueuePc α}
    (mine : ∀ u σ, (thread i).holds = some (u, σ) → u = t)
    (only : ∀ j σ, (thread j).holds = some (t, σ) → j = i)
    (behind : pc.holds = if next.Busy then some (t, next) else none) :
    Roster (Function.update thread i pc) (Function.update stage t next) := by
  refine ⟨fun j u σ held => ?_, fun u busy => ?_, fun j k held first second => ?_⟩
  · by_cases same : j = i
    · simp only [same, Function.update_self, behind] at held
      split at held
      · obtain ⟨rfl, rfl⟩ := Prod.mk.inj (Option.some.inj held)
        exact Function.update_self _ _ _
      · cases held
    · simp only [Function.update_of_ne same] at held
      have apart : u ≠ t := by
        rintro rfl
        exact same (only j σ held)
      exact (Function.update_of_ne apart _ _).trans (roster.holds j u σ held)
  · by_cases same : u = t
    · subst same
      rw [Function.update_self] at busy ⊢
      exact ⟨i, by simp only [Function.update_self, behind, if_pos busy]⟩
    · rw [Function.update_of_ne same] at busy ⊢
      obtain ⟨j, held⟩ := roster.holder u busy
      have apart : j ≠ i := by
        rintro rfl
        exact same (mine u _ held)
      exact ⟨j, by simpa only [Function.update_of_ne apart]⟩
  · have foreign : ∀ k, k ≠ i → pc.holds = some held → (thread k).holds ≠ some held := by
      intro k apart first second
      rw [behind] at first
      split at first
      · cases first
        exact apart (only k next second)
      · cases first
    by_cases sameJ : j = i
    · by_cases sameK : k = i
      · exact sameJ.trans sameK.symm
      · simp only [sameJ, Function.update_self] at first
        simp only [Function.update_of_ne sameK] at second
        exact absurd second (foreign k sameK first)
    · simp only [Function.update_of_ne sameJ] at first
      by_cases sameK : k = i
      · simp only [sameK, Function.update_self] at second
        exact absurd first (foreign j sameJ second)
      · simp only [Function.update_of_ne sameK] at second
        exact roster.alone j k held first second

end Roster

namespace LogQueue

variable {ι α : Type} {capacity : Capacity} {q q' : LogQueue ι α} {stage : Nat → Stage}

/-- The queue shows these stages. -/
structure Board (capacity : Capacity) (q : LogQueue ι α) (stage : Nat → Stage) : Prop where
  tail : q.tail = word q.won.length
  head : q.head = word q.taken
  ahead : ∀ t, stage t = .ahead ↔ q.won.length ≤ t
  taken : ∀ t, (stage t).Taken ↔ t < q.taken
  old : ∀ t, t + capacity.size < q.won.length → stage t = .done
  slot : ∀ t, t < q.won.length → q.won.length ≤ t + capacity.size →
    q.slot capacity (word t) = (stage t).content capacity q.won t
  unused : ∀ t, q.won.length ≤ t → t < capacity.size →
    q.slot capacity (word t) = ⟨word t, none⟩
  roster : Roster q.thread stage
  informed : ∀ i, (q.thread i).Informed capacity q.won q.taken stage
  results : ∀ t r, (t, r) ∈ q.results → r = q.won[t]?
  returned : ∀ t, stage t = .done ↔ t ∈ q.results.map Prod.fst
  once : (q.results.map Prod.fst).Nodup

/-- The slot of a ticket is also that of the ticket a round later. -/
theorem slot_add_size (q : LogQueue ι α) (t : Nat) :
    q.slot capacity (word (t + capacity.size)) = q.slot capacity (word t) :=
  congrArg q.slots ((capacity.slot_eq_iff _ _).mpr (Nat.add_mod_right t capacity.size))

theorem content_done {won : List α} {t : Nat} {σ : Stage} (begun : σ ≠ .ahead)
    (same : (σ.content capacity won t).sequence = word (t + capacity.size)) : σ = .done := by
  have := capacity.two_le_size
  have := capacity.size_lt
  cases σ with
  | ahead => exact absurd rfl begun
  | done => rfl
  | storing | publishing =>
      have := word_inj (by omega) (by omega) same
      omega
  | full | exchanging | releasing =>
      have := word_inj (by omega) (by omega) same
      omega

namespace Board

theorem taken_le (board : Board capacity q stage) : q.taken ≤ q.won.length := by
  by_contra past
  have taken := (board.taken q.won.length).mpr (by omega)
  rw [(board.ahead q.won.length).mpr le_rfl] at taken
  exact taken

/-- The queue never holds more tickets than it has slots. -/
theorem le_taken (board : Board capacity q stage) :
    q.won.length ≤ q.taken + capacity.size := by
  by_contra past
  have taken := (board.taken q.taken).mp (by rw [board.old q.taken (by omega)]; trivial)
  omega

/-- A slot whose sequence is the next ticket is free for it. -/
theorem free (board : Board capacity q stage)
    (same : (q.slot capacity (word q.won.length)).sequence = word q.won.length)
    (later : capacity.size ≤ q.won.length) :
    stage (q.won.length - capacity.size) = .done := by
  have := capacity.two_le_size
  obtain ⟨t, total⟩ : ∃ t, q.won.length = t + capacity.size := ⟨_, (Nat.sub_add_cancel later).symm⟩
  have here := board.slot t (by omega) (by omega)
  rw [total, slot_add_size, here] at same
  rw [total, Nat.add_sub_cancel]
  refine content_done (fun ahead => ?_) same
  have := (board.ahead t).mp ahead
  omega

/-- A slot whose sequence is behind the next ticket of `head_` holds its entry. -/
theorem full (board : Board capacity q stage)
    (same : (q.slot capacity (word q.taken)).sequence = word (q.taken + 1)) :
    stage q.taken = .full := by
  have := capacity.two_le_size
  have := capacity.size_lt
  have untaken : ¬ (stage q.taken).Taken := fun taken =>
    Nat.lt_irrefl _ ((board.taken q.taken).mp taken)
  rcases Nat.lt_or_eq_of_le board.taken_le with inside | empty
  · rw [board.slot q.taken inside board.le_taken] at same
    cases here : stage q.taken with
    | full => rfl
    | ahead =>
        have := (board.ahead q.taken).mp here
        omega
    | exchanging | releasing | done => exact absurd (by rw [here]; trivial) untaken
    | storing | publishing =>
        rw [here] at same
        have := word_inj (Nat.le_succ _) (by omega) same
        omega
  · by_cases young : q.taken < capacity.size
    · rw [board.unused q.taken (by omega) young] at same
      have := word_inj (Nat.le_succ _) (by omega) same
      omega
    · obtain ⟨t, total⟩ : ∃ t, q.taken = t + capacity.size :=
        ⟨_, (Nat.sub_add_cancel (by omega)).symm⟩
      have taken := (board.taken t).mpr (by omega)
      rw [total, slot_add_size, board.slot t (by omega) (by omega)] at same
      cases here : stage t with
      | ahead | storing | publishing | full => exact absurd taken (by rw [here]; exact id)
      | exchanging | releasing =>
          rw [here] at same
          have := word_inj (by omega) (by omega) same
          omega
      | done =>
          rw [here] at same
          have := word_inj (Nat.le_succ _) (by omega) same
          omega

theorem busy_of_holds {pc : QueuePc α} {t : Nat} {σ : Stage} (held : pc.holds = some (t, σ)) :
    σ.Busy := by
  cases pc <;> simp [QueuePc.holds] at held <;> obtain ⟨-, rfl⟩ := held <;> trivial

/-- A ticket at work keeps its slot. -/
theorem busy_inside (board : Board capacity q stage) {t : Nat} (busy : (stage t).Busy) :
    t < q.won.length ∧ q.won.length ≤ t + capacity.size := by
  constructor
  · by_contra outside
    rw [(board.ahead t).mpr (by omega)] at busy
    exact busy
  · by_contra old
    rw [board.old t (by omega)] at busy
    exact busy

/-- Tickets that keep their slots have different ones. -/
theorem slot_ne {m n : Nat} (apart : m ≠ n) (near : m < n + capacity.size)
    (near' : n < m + capacity.size) :
    word m &&& capacity.mask ≠ word n &&& capacity.mask := by
  rw [ne_eq, capacity.slot_eq_iff]
  intro same
  have := capacity.two_le_size
  have first := Nat.div_add_mod m capacity.size
  have second := Nat.div_add_mod n capacity.size
  rcases Nat.lt_trichotomy (m / capacity.size) (n / capacity.size) with less | equal | more
  · have := Nat.mul_le_mul_left capacity.size less
    rw [Nat.mul_succ] at this
    omega
  · rw [equal] at first
    omega
  · have := Nat.mul_le_mul_left capacity.size more
    rw [Nat.mul_succ] at this
    omega

/-- What a free slot holds for its next ticket. -/
theorem free_slot (board : Board capacity q stage)
    (free : capacity.size ≤ q.won.length → stage (q.won.length - capacity.size) = .done) :
    q.slot capacity (word q.won.length) = ⟨word q.won.length, none⟩ := by
  have := capacity.two_le_size
  by_cases small : q.won.length < capacity.size
  · exact board.unused _ le_rfl small
  · obtain ⟨t, total⟩ : ∃ t, q.won.length = t + capacity.size :=
      ⟨_, (Nat.sub_add_cancel (by omega)).symm⟩
    have past := free (by omega)
    rw [total, Nat.add_sub_cancel] at past
    have here := board.slot t (by omega) (by omega)
    rw [past] at here
    rw [total]
    exact (slot_add_size _ t).trans here

variable [DecidableEq ι]

/-- A step between two tickets. -/
theorem goto (board : Board capacity q stage) {i : ι} {pc : QueuePc α}
    (before : (q.thread i).holds = none) (behind : pc.holds = none)
    (informed : pc.Informed capacity q.won q.taken stage) : Board capacity (q.goto i pc) stage := by
  refine { board with roster := board.roster.goto before behind, informed := fun j => ?_ }
  by_cases same : j = i
  · simpa only [LogQueue.goto, same, Function.update_self] using informed
  · simpa only [LogQueue.goto, Function.update_of_ne same] using board.informed j

/-- What another thread knows is not touched by work on a ticket. -/
theorem informed_of_busy {pc : QueuePc α} {won : List α} {taken t : Nat}
    (informed : pc.Informed capacity won taken stage) (busy : (stage t).Busy) (σ : Stage) :
    pc.Informed capacity won taken (Function.update stage t σ) := by
  have kept : ∀ u, ¬ (stage u).Busy → Function.update stage t σ u = stage u := fun u idle =>
    Function.update_of_ne (by rintro rfl; exact idle busy) _ _
  cases pc with
  | pushSwapping entry pos since =>
      refine ⟨informed.1, informed.2.1, fun now later => ?_⟩
      have done := informed.2.2 now later
      exact (kept _ (by rw [done]; exact id)).trans done
  | popSwapping pos since =>
      refine ⟨informed.1, informed.2.1, fun now => ?_⟩
      have full := informed.2.2 now
      exact (kept _ (by rw [full]; exact id)).trans full
  | _ => exact informed

/-- A thread moves its ticket on. -/
theorem advance (board : Board capacity q stage) {i : ι} {t : Nat} {σ next : Stage}
    {pc : QueuePc α} {results : List (Nat × Option α)} (held : (q.thread i).holds = some (t, σ))
    (behind : pc.holds = if next.Busy then some (t, next) else none) (begun : next ≠ .ahead)
    (sameTaken : next.Taken ↔ σ.Taken)
    (informed : pc.Informed capacity q.won q.taken (Function.update stage t next))
    (sound : ∀ u r, (u, r) ∈ results → r = q.won[u]?)
    (returned : ∀ u, Function.update stage t next u = .done ↔ u ∈ results.map Prod.fst)
    (once : (results.map Prod.fst).Nodup) :
    Board capacity
      ({ q.setSlot capacity (word t) (next.content capacity q.won t) with
         results := results }.goto i pc) (Function.update stage t next) := by
  have here := board.roster.holds i t σ held
  have busy : (stage t).Busy := here ▸ busy_of_holds held
  obtain ⟨inside, lasting⟩ := board.busy_inside busy
  have others : ∀ u, u ≠ t → Function.update stage t next u = stage u := fun u apart =>
    Function.update_of_ne apart _ _
  have mine : ∀ u τ, (q.thread i).holds = some (u, τ) → u = t := fun u τ holdsToo =>
    (Prod.mk.inj (Option.some.inj (holdsToo.symm.trans held))).1
  have only : ∀ j τ, (q.thread j).holds = some (t, τ) → j = i := fun j τ holdsToo =>
    board.roster.alone j i _ holdsToo (by rw [held, ← here, board.roster.holds j t τ holdsToo])
  refine ⟨board.tail, board.head, ?_, ?_, ?_, ?_, ?_, board.roster.move mine only behind, ?_, sound,
    returned, once⟩
  · intro u
    by_cases same : u = t
    · subst same
      simp only [Function.update_self, begun, false_iff]
      exact Nat.not_le.mpr inside
    · rw [others u same]
      exact board.ahead u
  · intro u
    by_cases same : u = t
    · subst same
      rw [Function.update_self, sameTaken, ← here]
      exact board.taken u
    · rw [others u same]
      exact board.taken u
  · intro u old
    by_cases same : u = t
    · subst same
      rw [board.old u old] at busy
      exact busy.elim
    · rw [others u same]
      exact board.old u old
  · intro u young lasts
    by_cases same : u = t
    · subst same
      simp only [LogQueue.goto, LogQueue.setSlot, LogQueue.slot, Function.update_self]
    · change u < q.won.length at young
      change q.won.length ≤ u + capacity.size at lasts
      have apart : word u &&& capacity.mask ≠ word t &&& capacity.mask :=
        slot_ne same (by omega) (by omega)
      rw [others u same]
      simpa only [LogQueue.goto, LogQueue.setSlot, LogQueue.slot, Function.update_of_ne apart]
        using board.slot u young lasts
  · intro u fresh small
    simp only [LogQueue.goto, LogQueue.setSlot] at fresh
    have apart : word u &&& capacity.mask ≠ word t &&& capacity.mask :=
      slot_ne (by omega) (by omega) (by omega)
    simpa only [LogQueue.goto, LogQueue.setSlot, LogQueue.slot, Function.update_of_ne apart]
      using board.unused u fresh small
  · intro j
    by_cases same : j = i
    · simpa only [LogQueue.goto, LogQueue.setSlot, same, Function.update_self] using informed
    · simpa only [LogQueue.goto, LogQueue.setSlot, Function.update_of_ne same] using
        informed_of_busy (board.informed j) busy next

/-- What another thread knows survives the win of the next ticket of `tail_`. -/
theorem informed_of_push {pc : QueuePc α} {won : List α} {taken : Nat}
    (informed : pc.Informed capacity won taken stage) (ahead : stage won.length = .ahead)
    (entry : α) :
    pc.Informed capacity (won ++ [entry]) taken (Function.update stage won.length .storing) := by
  have kept : ∀ u, stage u ≠ .ahead →
      Function.update stage won.length .storing u = stage u := fun u begun =>
    Function.update_of_ne (by rintro rfl; exact begun ahead) _ _
  cases pc with
  | pushReading entry pos since => exact ⟨informed.1, by simpa using Nat.le_succ_of_le informed.2⟩
  | pushSwapping entry pos since =>
      refine ⟨informed.1, by simpa using Nat.le_succ_of_le informed.2.1, fun now => ?_⟩
      have := informed.2.1
      simp only [List.length_append, List.length_singleton] at now
      omega
  | storing entry pos ticket =>
      exact ⟨informed.1, List.getElem?_append_left (List.getElem?_eq_some_iff.mp informed.2).1 ▸
        informed.2⟩
  | popSwapping pos since =>
      refine ⟨informed.1, informed.2.1, fun now => ?_⟩
      have full := informed.2.2 now
      exact (kept _ (by rw [full]; exact Stage.noConfusion)).trans full
  | releasing pos ticket entry =>
      refine ⟨informed.1, by simpa using Nat.lt_succ_of_lt informed.2.1, ?_⟩
      rw [informed.2.2, List.getElem?_append_left informed.2.1]
  | _ => exact informed

theorem content_append {won : List α} {t : Nat} (inside : t < won.length) (entry : α)
    (σ : Stage) :
    σ.content capacity (won ++ [entry]) t = σ.content capacity won t := by
  cases σ <;> simp only [Stage.content, List.getElem?_append_left inside]

/-- A push wins the next ticket. -/
theorem winPush (board : Board capacity q stage) {i : ι} {entry : α} {pos : Word} {since : Nat}
    (pc : q.thread i = .pushSwapping entry pos since) (now : since = q.won.length) :
    Board capacity ({ q with tail := pos + 1, won := q.won ++ [entry] }.goto i
      (.storing entry pos q.won.length)) (Function.update stage q.won.length .storing) := by
  have := capacity.two_le_size
  have informed := board.informed i
  simp only [pc, QueuePc.Informed] at informed
  obtain ⟨position, -, free⟩ := informed
  subst now
  have ahead : stage q.won.length = .ahead := (board.ahead _).mpr le_rfl
  have done := free rfl
  have others : ∀ u, u ≠ q.won.length →
      Function.update stage q.won.length .storing u = stage u := fun u apart =>
    Function.update_of_ne apart _ _
  have finished : ∀ u, stage u = .done → u < q.won.length := fun u past => by
    by_contra outside
    rw [(board.ahead u).mpr (by omega)] at past
    cases past
  refine ⟨?_, board.head, ?_, ?_, ?_, ?_, ?_, ?_, ?_, ?_, ?_, board.once⟩
  · simp only [LogQueue.goto, position, word_succ, List.length_append, List.length_singleton]
  · intro u
    simp only [LogQueue.goto, List.length_append, List.length_singleton]
    by_cases same : u = q.won.length
    · subst same
      simp
    · rw [others u same, board.ahead u]
      omega
  · intro u
    by_cases same : u = q.won.length
    · subst same
      have := board.taken_le
      simp only [LogQueue.goto, Function.update_self, Stage.Taken, false_iff]
      omega
    · rw [others u same]
      exact board.taken u
  · intro u old
    simp only [LogQueue.goto, List.length_append, List.length_singleton] at old
    rw [others u (by omega)]
    by_cases last : u + capacity.size = q.won.length
    · have := done (by omega)
      rwa [← last, Nat.add_sub_cancel] at this
    · exact board.old u (by omega)
  · intro u young lasts
    simp only [LogQueue.goto, List.length_append, List.length_singleton] at young lasts
    by_cases same : u = q.won.length
    · subst same
      rw [Function.update_self]
      exact board.free_slot done
    · rw [others u same]
      refine (board.slot u (by omega) (by omega)).trans ?_
      exact (content_append (by omega) entry _).symm
  · intro u fresh small
    simp only [LogQueue.goto, List.length_append, List.length_singleton] at fresh
    exact board.unused u (by omega) small
  · refine board.roster.move ?_ ?_ rfl
    · intro u σ held
      simp [pc, QueuePc.holds] at held
    · intro j σ held
      have busy := busy_of_holds held
      rw [← board.roster.holds j _ σ held, ahead] at busy
      exact busy.elim
  · intro j
    by_cases same : j = i
    · simp only [LogQueue.goto, same, Function.update_self]
      exact ⟨position, by simp⟩
    · simp only [LogQueue.goto, Function.update_of_ne same]
      exact informed_of_push (board.informed j) ahead entry
  · intro u r member
    have past := (board.returned u).mpr (List.mem_map_of_mem member)
    rw [board.results u r member]
    exact (List.getElem?_append_left (finished u past)).symm
  · intro u
    by_cases same : u = q.won.length
    · subst same
      simp only [Function.update_self, reduceCtorEq, false_iff]
      intro member
      exact Nat.lt_irrefl _ (finished _ ((board.returned _).mpr member))
    · rw [others u same]
      exact board.returned u

/-- What another thread knows survives the win of the next ticket of `head_`. -/
theorem informed_of_pop {pc : QueuePc α} {won : List α} {taken : Nat}
    (informed : pc.Informed capacity won taken stage) (full : stage taken = .full) :
    pc.Informed capacity won (taken + 1) (Function.update stage taken .exchanging) := by
  cases pc with
  | pushSwapping entry pos since =>
      refine ⟨informed.1, informed.2.1, fun now later => ?_⟩
      have done := informed.2.2 now later
      refine (Function.update_of_ne ?_ _ _).trans done
      rintro same
      rw [same, full] at done
      cases done
  | popReading pos since => exact ⟨informed.1, Nat.le_succ_of_le informed.2⟩
  | popSwapping pos since =>
      refine ⟨informed.1, Nat.le_succ_of_le informed.2.1, fun now => ?_⟩
      have := informed.2.1
      omega
  | _ => exact informed

/-- A pop wins the next ticket. -/
theorem winPop (board : Board capacity q stage) {i : ι} {pos : Word} {since : Nat}
    (pc : q.thread i = .popSwapping pos since) (now : since = q.taken) :
    Board capacity ({ q with head := pos + 1, taken := q.taken + 1 }.goto i
      (.exchanging pos q.taken)) (Function.update stage q.taken .exchanging) := by
  have informed := board.informed i
  simp only [pc, QueuePc.Informed] at informed
  obtain ⟨position, -, full⟩ := informed
  subst now
  have here := full rfl
  have others : ∀ u, u ≠ q.taken → Function.update stage q.taken .exchanging u = stage u :=
    fun u apart => Function.update_of_ne apart _ _
  refine ⟨board.tail, ?_, ?_, ?_, ?_, ?_, board.unused, ?_, ?_, board.results, ?_, board.once⟩
  · simp only [LogQueue.goto, position, word_succ]
  · intro u
    by_cases same : u = q.taken
    · subst same
      simp only [LogQueue.goto, Function.update_self, reduceCtorEq, ← board.ahead, here]
    · rw [others u same]
      exact board.ahead u
  · intro u
    simp only [LogQueue.goto]
    by_cases same : u = q.taken
    · subst same
      simp [Stage.Taken]
    · rw [others u same, board.taken u]
      omega
  · intro u old
    by_cases same : u = q.taken
    · subst same
      have := board.old _ old
      rw [here] at this
      cases this
    · rw [others u same]
      exact board.old u old
  · intro u young lasts
    by_cases same : u = q.taken
    · subst same
      rw [Function.update_self]
      have before := board.slot _ young lasts
      rw [here] at before
      exact before
    · rw [others u same]
      exact board.slot u young lasts
  · refine board.roster.move ?_ ?_ rfl
    · intro u σ held
      simp [pc, QueuePc.holds] at held
    · intro j σ held
      have busy := busy_of_holds held
      rw [← board.roster.holds j _ σ held, here] at busy
      exact busy.elim
  · intro j
    by_cases same : j = i
    · simp only [LogQueue.goto, same, Function.update_self]
      exact position
    · simp only [LogQueue.goto, Function.update_of_ne same]
      exact informed_of_pop (board.informed j) here
  · intro u
    by_cases same : u = q.taken
    · subst same
      simp only [Function.update_self, reduceCtorEq, false_iff]
      intro member
      have := (board.returned _).mpr member
      rw [here] at this
      cases this
    · rw [others u same]
      exact board.returned u

end Board

/-- A compare-exchange comes less than a round of words after the load it relies on. -/
def Timely (q : LogQueue ι α) : QueueStep ι α → Prop
  | .advance i false =>
      match q.thread i with
      | .pushSwapping _ _ since => q.won.length < since + 2 ^ 64
      | .popSwapping _ since => q.taken < since + 2 ^ 64
      | _ => True
  | _ => True

instance (q : LogQueue ι α) : DecidablePred q.Timely
  | .advance i false => by
      unfold Timely
      simp only
      split <;> infer_instance
  | .advance _ true | .push _ _ | .pop _ => .isTrue trivial

theorem Board.construct : Board capacity (construct ι α) fun _ => .ahead where
  tail := rfl
  head := rfl
  ahead := fun t => by simp [LogQueue.construct]
  taken := fun t => by simp [LogQueue.construct, Stage.Taken]
  old := fun t old => by simp [LogQueue.construct] at old
  slot := fun t inside => by simp [LogQueue.construct] at inside
  unused := fun t _ small => by
    have same : word t &&& capacity.mask = word t := by
      rw [← BitVec.toNat_inj, capacity.word_and_mask, Nat.mod_eq_of_lt small, word,
        BitVec.toNat_ofNat, Nat.mod_eq_of_lt (small.trans capacity.size_lt)]
    simp only [LogQueue.construct, LogQueue.slot, same]
  roster := ⟨fun i t σ held => by simp [LogQueue.construct, QueuePc.holds] at held,
    fun t busy => busy.elim, fun i j held first => by
      simp [LogQueue.construct, QueuePc.holds] at first⟩
  informed := fun i => trivial
  results := fun t r member => by simp [LogQueue.construct] at member
  returned := fun t => by simp [LogQueue.construct]
  once := by simp [LogQueue.construct]

theorem holds_of_outside {pc : QueuePc α} (outside : pc.Outside) : pc.holds = none := by
  cases pc <;> first | rfl | exact outside.elim

variable [DecidableEq ι]

/-- Work on a ticket that pops have not seen the end of. -/
theorem Board.work (board : Board capacity q stage) (next : Stage) {i : ι} {t : Nat} {σ : Stage}
    {pc : QueuePc α} {slot : Slot α} (held : (q.thread i).holds = some (t, σ))
    (behind : pc.holds = if next.Busy then some (t, next) else none)
    (begun : next ≠ .ahead ∧ next ≠ .done) (sameTaken : next.Taken ↔ σ.Taken)
    (written : q.slot capacity (word t) = σ.content capacity q.won t →
      slot = next.content capacity q.won t)
    (informed : pc.Informed capacity q.won q.taken (Function.update stage t next)) :
    ∃ stage, Board capacity ((q.setSlot capacity (word t) slot).goto i pc) stage := by
  have here := board.roster.holds i t σ held
  have busy : (stage t).Busy := here ▸ Board.busy_of_holds held
  obtain ⟨inside, lasting⟩ := board.busy_inside busy
  refine ⟨Function.update stage t next, ?_⟩
  rw [written (here ▸ board.slot t inside lasting)]
  refine board.advance held behind begun.1 sameTaken informed board.results (fun u => ?_) board.once
  by_cases same : u = t
  · subst same
    simp only [Function.update_self, begun.2, false_iff, ← board.returned, here]
    rintro rfl
    exact Board.busy_of_holds held
  · rw [Function.update_of_ne same]
    exact board.returned u

section Advance

variable {i : ι} {entry : α} {pos : Word} {since ticket : Nat} {spurious : Bool}

/-- A push reads the sequence of its slot. -/
theorem Board.readPush (board : Board capacity q stage)
    (pc : q.thread i = .pushReading entry pos since)
    (taken : q.advance capacity i spurious = some q') : ∃ stage, Board capacity q' stage := by
  have informed := board.informed i
  simp only [LogQueue.advance, pc] at taken informed
  split at taken
  case isTrue read =>
    obtain rfl := Option.some.inj taken
    refine ⟨stage, board.goto (by rw [pc]; rfl) rfl ⟨informed.1, informed.2, ?_⟩⟩
    rintro rfl later
    exact board.free (informed.1 ▸ (diff_eq_zero_iff _ _).mp read) later
  case isFalse =>
    split at taken <;> obtain rfl := Option.some.inj taken <;>
      exact ⟨stage, board.goto (by rw [pc]; rfl) rfl trivial⟩

/-- A push tries to win the ticket it has read. -/
theorem Board.swapPush (board : Board capacity q stage)
    (timely : q.Timely (.advance i spurious))
    (pc : q.thread i = .pushSwapping entry pos since)
    (taken : q.advance capacity i spurious = some q') : ∃ stage, Board capacity q' stage := by
  have informed := board.informed i
  simp only [LogQueue.advance, pc] at taken informed
  split at taken
  case isTrue swapped =>
    obtain rfl := Option.some.inj taken
    obtain ⟨same, rfl⟩ := swapped
    simp only [Timely, pc] at timely
    have now : since = q.won.length := by
      refine word_inj informed.2.1 timely ?_
      rw [← informed.1, ← same, board.tail]
    exact ⟨_, board.winPush pc now⟩
  case isFalse =>
    obtain rfl := Option.some.inj taken
    exact ⟨stage, board.goto (by rw [pc]; rfl) rfl ⟨board.tail, le_rfl⟩⟩

/-- A pop reads the sequence of its slot. -/
theorem Board.readPop (board : Board capacity q stage) (pc : q.thread i = .popReading pos since)
    (taken : q.advance capacity i spurious = some q') : ∃ stage, Board capacity q' stage := by
  have informed := board.informed i
  simp only [LogQueue.advance, pc] at taken informed
  split at taken
  case isTrue read =>
    obtain rfl := Option.some.inj taken
    refine ⟨stage, board.goto (by rw [pc]; rfl) rfl ⟨informed.1, informed.2, ?_⟩⟩
    rintro rfl
    refine board.full ?_
    rw [← word_succ, ← informed.1]
    exact (diff_eq_zero_iff _ _).mp read
  case isFalse =>
    split at taken <;> obtain rfl := Option.some.inj taken <;>
      exact ⟨stage, board.goto (by rw [pc]; rfl) rfl trivial⟩

/-- A pop tries to win the ticket it has read. -/
theorem Board.swapPop (board : Board capacity q stage)
    (timely : q.Timely (.advance i spurious)) (pc : q.thread i = .popSwapping pos since)
    (taken : q.advance capacity i spurious = some q') : ∃ stage, Board capacity q' stage := by
  have informed := board.informed i
  simp only [LogQueue.advance, pc] at taken informed
  split at taken
  case isTrue swapped =>
    obtain rfl := Option.some.inj taken
    obtain ⟨same, rfl⟩ := swapped
    simp only [Timely, pc] at timely
    have now : since = q.taken := by
      refine word_inj informed.2.1 timely ?_
      rw [← informed.1, ← same, board.head]
    exact ⟨_, board.winPop pc now⟩
  case isFalse =>
    obtain rfl := Option.some.inj taken
    exact ⟨stage, board.goto (by rw [pc]; rfl) rfl ⟨board.head, le_rfl⟩⟩

/-- A pop takes the entry out of its slot. -/
theorem Board.exchange (board : Board capacity q stage)
    (pc : q.thread i = .exchanging pos ticket)
    (taken : q.advance capacity i spurious = some q') : ∃ stage, Board capacity q' stage := by
  have informed := board.informed i
  simp only [LogQueue.advance, pc, Option.some.injEq] at taken informed
  obtain rfl := informed
  subst taken
  have held : (q.thread i).holds = some (ticket, .exchanging) := by rw [pc]; rfl
  have here := board.roster.holds i _ _ held
  obtain ⟨inside, lasting⟩ := board.busy_inside (by rw [here]; trivial)
  have content := board.slot ticket inside lasting
  refine board.work .releasing held rfl (by decide) Iff.rfl (fun same => ?_) ⟨rfl, inside, ?_⟩
  · simp only [same, Stage.content]
  · rw [content, here]
    rfl

/-- A pop leaves its slot to the ticket a round later, and has its result. -/
theorem Board.release {entry : Option α} (board : Board capacity q stage)
    (pc : q.thread i = .releasing pos ticket entry)
    (taken : q.advance capacity i spurious = some q') : ∃ stage, Board capacity q' stage := by
  have informed := board.informed i
  simp only [LogQueue.advance, pc, Option.some.injEq] at taken informed
  obtain ⟨rfl, inside, rfl⟩ := informed
  subst taken
  have held : (q.thread i).holds = some (ticket, .releasing) := by rw [pc]; rfl
  have here := board.roster.holds i _ _ held
  obtain ⟨-, lasting⟩ := board.busy_inside (by rw [here]; trivial)
  have content := board.slot ticket inside lasting
  have written : ({ q.slot capacity (word ticket) with
      sequence := word ticket + capacity.mask + 1 } : Slot α) =
      Stage.content capacity q.won ticket .done := by
    simp only [content, here, Stage.content, capacity.word_add_size]
  refine ⟨Function.update stage ticket .done, ?_⟩
  rw [written]
  refine board.advance held rfl Stage.noConfusion Iff.rfl trivial ?_ ?_ ?_
  · intro u r member
    rcases List.mem_append.mp member with before | last
    · exact board.results u r before
    · obtain ⟨rfl, rfl⟩ := Prod.mk.inj (List.mem_singleton.mp last)
      rfl
  · intro u
    simp only [List.map_append, List.map_cons, List.map_nil, List.mem_append, List.mem_singleton]
    by_cases same : u = ticket
    · simp only [same, Function.update_self, or_true]
    · rw [Function.update_of_ne same, board.returned u]
      exact (or_iff_left same).symm
  · have absent : ticket ∉ q.results.map Prod.fst := fun member => by
      have done := (board.returned ticket).mpr member
      rw [here] at done
      cases done
    rw [List.map_append, List.map_cons, List.map_nil]
    exact board.once.append (List.nodup_singleton _) (by simpa using absent)

end Advance

theorem Board.step (board : Board capacity q stage) {action : QueueStep ι α}
    (timely : q.Timely action) (taken : (logQueue ι α capacity).step q action = some q') :
    ∃ stage, Board capacity q' stage := by
  cases action with
  | push i entry =>
      simp only [logQueue, Option.ite_none_right_eq_some, Option.some.injEq] at taken
      obtain ⟨outside, rfl⟩ := taken
      exact ⟨stage, board.goto (holds_of_outside outside) rfl trivial⟩
  | pop i =>
      simp only [logQueue, Option.ite_none_right_eq_some, Option.some.injEq] at taken
      obtain ⟨outside, rfl⟩ := taken
      exact ⟨stage, board.goto (holds_of_outside outside) rfl trivial⟩
  | advance i spurious =>
      have taken : q.advance capacity i spurious = some q' := taken
      have informed := board.informed i
      cases pc : q.thread i with
      | idle | pushed | popped => simp only [LogQueue.advance, pc, reduceCtorEq] at taken
      | loadingTail entry =>
          simp only [LogQueue.advance, pc, Option.some.injEq] at taken
          exact ⟨stage, taken ▸ board.goto (by rw [pc]; rfl) rfl ⟨board.tail, le_rfl⟩⟩
      | pushReading entry pos since => exact board.readPush pc taken
      | pushSwapping entry pos since => exact board.swapPush timely pc taken
      | storing entry pos ticket =>
          simp only [LogQueue.advance, pc, Option.some.injEq] at taken informed
          obtain ⟨rfl, won⟩ := informed
          subst taken
          have held : (q.thread i).holds = some (ticket, .storing) := by rw [pc]; rfl
          refine board.work .publishing held rfl (by decide) Iff.rfl (fun same => ?_) rfl
          simp only [same, Stage.content, won]
      | publishing pos ticket =>
          simp only [LogQueue.advance, pc, Option.some.injEq] at taken informed
          obtain rfl := informed
          subst taken
          have held : (q.thread i).holds = some (ticket, .publishing) := by rw [pc]; rfl
          refine board.work .full held rfl (by decide) Iff.rfl (fun same => ?_) trivial
          simp only [same, Stage.content, word_succ]
      | loadingHead =>
          simp only [LogQueue.advance, pc, Option.some.injEq] at taken
          exact ⟨stage, taken ▸ board.goto (by rw [pc]; rfl) rfl ⟨board.head, le_rfl⟩⟩
      | popReading pos since => exact board.readPop pc taken
      | popSwapping pos since => exact board.swapPop timely pc taken
      | exchanging pos ticket => exact board.exchange pc taken
      | releasing pos ticket entry => exact board.release pc taken

end LogQueue

end Corio.Logging
