import Corio.Logging.Buffers
import Mathlib.Data.List.Nodup

/-! # No line is lost between the buffers

Every pointer has one owner, spare buffers are empty, and the buffers that were ever filled
hold the appended lines one after the other, none of them cut. What was given to the file is
what the turns kept of them.
-/

namespace Corio.Logging

section Packed

variable {lines : List Line} {boxes : List Bytes}

def bytes (lines : List Line) : Bytes := (lines.map Subtype.val).flatten

@[simp] theorem bytes_append (first second : List Line) :
    bytes (first ++ second) = bytes first ++ bytes second := by
  simp only [bytes, List.map_append, List.flatten_append]

theorem bytes_flatten (groups : List (List Line)) :
    bytes groups.flatten = (groups.map bytes).flatten := by
  induction groups with
  | nil => rfl
  | cons group rest ih =>
      rw [List.flatten_cons, bytes_append, ih, List.map_cons, List.flatten_cons]

/-- The boxes hold the lines one after the other, none of them cut. -/
def Packed (lines : List Line) (boxes : List Bytes) : Prop :=
  ∃ groups : List (List Line), groups.flatten = lines ∧ groups.map bytes = boxes

theorem Packed.nil : Packed [] [[]] := ⟨[[]], rfl, rfl⟩

/-- Another line goes into the last box. -/
theorem Packed.extend {box : Bytes} (packed : Packed lines (boxes ++ [box])) (line : Line) :
    Packed (lines ++ [line]) (boxes ++ [box ++ line.val]) := by
  obtain ⟨groups, rfl, same⟩ := packed
  obtain ⟨front, last, rfl, rfl, ends⟩ := List.map_eq_append_iff.mp same
  obtain ⟨group, rfl, rfl⟩ := List.map_eq_singleton_iff.mp ends
  exact ⟨front ++ [group ++ [line]], by simp, by simp [bytes]⟩

/-- A new box. -/
theorem Packed.open (packed : Packed lines boxes) : Packed lines (boxes ++ [[]]) := by
  obtain ⟨groups, rfl, rfl⟩ := packed
  exact ⟨groups ++ [[]], by simp, by simp [bytes]⟩

/-- Lists of boxes hold lists of groups. -/
theorem split_groups {groups : List (List Line)} {heaps : List (List Bytes)}
    (same : groups.map bytes = heaps.flatten) :
    ∃ taken : List (List (List Line)), taken.flatten = groups ∧
      taken.map (·.map bytes) = heaps := by
  induction heaps generalizing groups with
  | nil => exact ⟨[], by simpa using same.symm, rfl⟩
  | cons stack rest ih =>
      obtain ⟨front, back, rfl, rfl, later⟩ := List.map_eq_append_iff.mp same
      obtain ⟨taken, rfl, rfl⟩ := ih later
      exact ⟨front :: taken, rfl, rfl⟩

end Packed

theorem kept_map {α β : Type} (f : α → β) (buffers : List α) :
    (AsyncLogging.kept buffers).map f = AsyncLogging.kept (buffers.map f) := by
  simp only [AsyncLogging.kept, List.length_map]
  split
  · exact List.map_take
  · rfl

theorem kept_sublist {α : Type} (buffers : List α) :
    (AsyncLogging.kept buffers).Sublist buffers := by
  unfold AsyncLogging.kept
  split
  · exact List.take_sublist _ _
  · exact List.Sublist.refl _

/-- Dropping buffers leaves two. -/
theorem le_length_kept {α : Type} {buffers : List α} {n : Nat} (small : n ≤ 2)
    (enough : n ≤ buffers.length) : n ≤ (AsyncLogging.kept buffers).length := by
  unfold AsyncLogging.kept
  split
  · simp only [List.length_take]
    omega
  · exact enough

theorem LogFile.append_given (file : LogFile) (data : Bytes) :
    (file.append data).given = file.given ++ data := by
  unfold LogFile.append LogFile.flush
  simp only
  split <;> rfl

/-- A write that misses all these buffers. -/
theorem map_update {heap : Addr → Bytes} {p : Addr} {ps : List Addr} (absent : p ∉ ps)
    (data : Bytes) : ps.map (Function.update heap p data) = ps.map heap := by
  refine List.map_congr_left fun q member => Function.update_of_ne ?_ _ _
  rintro rfl
  exact absent member

namespace AsyncLogging

/-- The pointers to buffers in the program's variables. -/
def pointers (s : AsyncLogging) : List Addr :=
  s.currentBuffer.toList ++ s.nextBuffer.toList ++ s.buffers ++ s.newBuffer1.toList ++
    s.newBuffer2.toList ++ s.buffersToWrite

/-- Filled and not taken yet. -/
def waiting (s : AsyncLogging) : List Addr := s.buffers ++ s.currentBuffer.toList

/-- Taken, and not counted as a turn yet. -/
def inFlight (s : AsyncLogging) : List Addr :=
  match s.thread with
  | .taken => s.buffersToWrite
  | _ => []

/-- Kept by the last turn, and not given to the file yet. -/
def unwritten (s : AsyncLogging) : List Addr :=
  match s.thread with
  | .writing i => s.buffersToWrite.drop i
  | _ => []

/-- All buffers ever filled, in order. -/
def filled (s : AsyncLogging) : List Bytes :=
  s.turns.flatten ++ s.inFlight.map s.heap ++ s.waiting.map s.heap

/-- The background thread has its two spare buffers. -/
def Idle (s : AsyncLogging) : Prop :=
  match s.thread with
  | .testing | .locking | .waiting | .flushing | .finishing | .finished => True
  | _ => False

/-- The background thread has taken buffers. -/
def Loaded (s : AsyncLogging) : Prop :=
  match s.thread with
  | .taken | .writing _ | .recycling => True
  | _ => False

/-- The background thread has no buffers yet. -/
def Bare (s : AsyncLogging) : Prop := s.thread = .unborn ∨ s.thread = .entering

structure Owned (s : AsyncLogging) : Prop where
  distinct : s.pointers.Nodup
  old : ∀ p ∈ s.pointers, p < s.next
  current : s.currentBuffer ≠ none
  spare : ∀ p ∈ s.nextBuffer.toList ++ s.newBuffer1.toList ++ s.newBuffer2.toList, s.heap p = []
  used : s.nextBuffer = none → s.buffers ≠ []
  idle : s.Idle → s.newBuffer1 ≠ none ∧ s.newBuffer2 ≠ none ∧ s.buffersToWrite = []
  loaded : s.Loaded → s.newBuffer1 = none ∧ s.buffersToWrite ≠ [] ∧
    (s.newBuffer2 = none → 2 ≤ s.buffersToWrite.length)
  bare : s.Bare → s.newBuffer1 = none ∧ s.newBuffer2 = none ∧ s.buffersToWrite = []
  unborn : s.owner = .constructed → s.thread = .unborn
  entering : s.thread = .entering → s.owner = .latched ∧ s.running = true
  ok : s.failed = false

structure Conserved (s : AsyncLogging) : Prop where
  owned : s.Owned
  packed : Packed s.appended s.filled
  output : s.output.given ++ (s.unwritten.map s.heap).flatten = (s.turns.map kept).flatten.flatten

variable {s s' : AsyncLogging}

theorem avail_nil (line : Line) : FixedBuffer.avail [] > line.val.length := by
  have := line.property
  simp only [FixedBuffer.avail, List.length_nil]
  omega

theorem append_fits {data logline : Bytes} (fits : FixedBuffer.avail data > logline.length) :
    FixedBuffer.append data logline = data ++ logline := if_pos fits

/-- `append` in one of its two branches, the second one with a spare buffer or a new one. -/
theorem Owned.append_cases (owned : s.Owned) (line : Line) :
    ∃ current, s.currentBuffer = some current ∧
      (s.append line = { s with heap := Function.update s.heap current (s.heap current ++ line.val),
                                appended := s.appended ++ [line] } ∨
      ∃ p next, (s.nextBuffer = some p ∧ next = s.next ∨
          s.nextBuffer = none ∧ p = s.next ∧ next = s.next + 1) ∧
        s.append line =
          { s with heap := Function.update s.heap p line.val, next := next,
                   currentBuffer := some p, nextBuffer := none,
                   buffers := s.buffers ++ [current], appended := s.appended ++ [line] }) := by
  obtain ⟨current, there⟩ := Option.ne_none_iff_exists'.mp owned.current
  refine ⟨current, there, ?_⟩
  simp only [append, place, there]
  split
  case isTrue fits =>
      left
      simp only [write, store, append_fits fits]
  case isFalse full =>
      right
      cases spare : s.nextBuffer with
      | some p =>
          refine ⟨p, s.next, .inl ⟨rfl, rfl⟩, ?_⟩
          have empty : s.heap p = [] := owned.spare p (by simp [spare])
          simp only [write, store, empty, append_fits (avail_nil line), List.nil_append]
      | none =>
          refine ⟨s.next, s.next + 1, .inr ⟨rfl, rfl, rfl⟩, ?_⟩
          simp only [write, store, Function.update_self, append_fits (avail_nil line),
            List.nil_append, Function.update_idem]

/-- A step that moves and drops pointers keeps the rest apart. -/
theorem moved {ps : List Addr} (qs : List Addr) {bound : Nat} (distinct : ps.Nodup)
    (old : ∀ p ∈ ps, p < bound) (fewer : ∀ a, qs.count a ≤ ps.count a) :
    qs.Nodup ∧ ∀ p ∈ qs, p < bound := by
  refine ⟨List.nodup_iff_count_le_one.mpr fun a => ?_, fun p member => old p ?_⟩
  · exact (fewer a).trans (List.nodup_iff_count_le_one.mp distinct a)
  · exact List.count_pos_iff.mp (Nat.lt_of_lt_of_le (List.count_pos_iff.mpr member) (fewer p))

/-- `new` gives out a pointer of its own. -/
theorem fresh {ps : List Addr} {bound : Nat} (distinct : ps.Nodup) (old : ∀ p ∈ ps, p < bound) :
    (bound :: ps).Nodup ∧ ∀ p ∈ bound :: ps, p < bound + 1 := by
  refine ⟨List.nodup_cons.mpr ⟨fun member => ?_, distinct⟩, fun p member => ?_⟩
  · exact Nat.lt_irrefl bound (old bound member)
  · rcases List.mem_cons.mp member with rfl | member
    · exact Nat.lt_succ_self _
    · exact Nat.lt_succ_of_lt (old p member)

/-- What holds of the pointers wherever the background thread is. -/
structure Apart (s : AsyncLogging) : Prop where
  distinct : s.pointers.Nodup
  old : ∀ p ∈ s.pointers, p < s.next
  current : s.currentBuffer ≠ none
  spare : ∀ p ∈ s.nextBuffer.toList ++ s.newBuffer1.toList ++ s.newBuffer2.toList, s.heap p = []
  used : s.nextBuffer = none → s.buffers ≠ []

theorem Owned.apart (owned : s.Owned) : s.Apart :=
  ⟨owned.distinct, owned.old, owned.current, owned.spare, owned.used⟩

/-- Where a line of any length goes: into the current buffer, or behind it into the spare one or
    a new one. -/
theorem place_cases {current : Addr} (there : s.currentBuffer = some current) (logline : Bytes) :
    (∃ data, s.place logline = { s with heap := Function.update s.heap current data }) ∨
      ∃ p next data, (s.nextBuffer = some p ∧ next = s.next ∨
          s.nextBuffer = none ∧ p = s.next ∧ next = s.next + 1) ∧
        s.place logline =
          { s with heap := Function.update s.heap p data, next := next, currentBuffer := some p,
                   nextBuffer := none, buffers := s.buffers ++ [current] } := by
  simp only [place, there]
  split
  · refine .inl ⟨FixedBuffer.append (s.heap current) logline, ?_⟩
    simp only [write, store, ← there]
  · right
    cases spare : s.nextBuffer with
    | some p => exact ⟨p, s.next, _, .inl ⟨rfl, rfl⟩, rfl⟩
    | none =>
        refine ⟨s.next, s.next + 1, FixedBuffer.append [] logline, .inr ⟨rfl, rfl, rfl⟩, ?_⟩
        simp only [write, store, Function.update_self, Function.update_idem]

theorem Apart.place (apart : s.Apart) (logline : Bytes) : (s.place logline).Apart := by
  obtain ⟨current, there⟩ := Option.ne_none_iff_exists'.mp apart.current
  rcases place_cases there logline with ⟨data, same⟩ | ⟨p, next, data, source, same⟩
  · have distinct := apart.distinct
    rw [same]
    simp only [pointers, there] at distinct
    refine ⟨apart.distinct, apart.old, apart.current, fun q member => ?_, apart.used⟩
    refine (Function.update_of_ne ?_ _ _).trans (apart.spare q member)
    rintro rfl
    simp at distinct member
    tauto
  · have keeps : (s.place logline).pointers.Nodup ∧
        ∀ q ∈ (s.place logline).pointers, q < next := by
      rcases source with ⟨spare, rfl⟩ | ⟨empty, rfl, rfl⟩
      · refine moved _ apart.distinct apart.old fun a => ?_
        simp only [same, pointers, there, spare, Option.toList, List.count_append, List.count_nil]
        omega
      · have grown := fresh apart.distinct apart.old
        refine moved _ grown.1 grown.2 fun a => ?_
        simp only [same, pointers, there, empty, Option.toList, List.count_append, List.count_nil,
          List.count_cons]
        omega
    rw [same] at keeps ⊢
    refine ⟨keeps.1, keeps.2, by simp, fun q member => ?_, by simp⟩
    have free := keeps.1
    simp only [pointers] at free
    refine (Function.update_of_ne ?_ _ _).trans (apart.spare q (by simp at member ⊢; tauto))
    rintro rfl
    simp at free member
    tauto

/-- A line only touches the buffers that are being filled. -/
theorem Owned.place (owned : s.Owned) (logline : Bytes) : (s.place logline).Owned := by
  have apart := owned.apart.place logline
  obtain ⟨current, there⟩ := Option.ne_none_iff_exists'.mp owned.current
  rcases place_cases there logline with ⟨data, same⟩ | ⟨p, next, data, source, same⟩ <;>
  · rw [same] at apart ⊢
    exact ⟨apart.distinct, apart.old, apart.current, apart.spare, apart.used, owned.idle,
      owned.loaded, owned.bare, owned.unborn, owned.entering, owned.ok⟩

theorem Owned.append (owned : s.Owned) (line : Line) : (s.append line).Owned :=
  Owned.place (s := { s with appended := s.appended ++ [line] })
    ⟨owned.distinct, owned.old, owned.current, owned.spare, owned.used, owned.idle, owned.loaded,
      owned.bare, owned.unborn, owned.entering, owned.ok⟩ line.val

theorem mem_inFlight {p : Addr} (member : p ∈ s.inFlight) : p ∈ s.buffersToWrite := by
  unfold inFlight at member
  split at member
  · exact member
  · exact absurd member List.not_mem_nil

theorem mem_unwritten {p : Addr} (member : p ∈ s.unwritten) : p ∈ s.buffersToWrite := by
  unfold unwritten at member
  split at member
  · exact List.mem_of_mem_drop member
  · exact absurd member List.not_mem_nil

/-- A write outside the taken buffers leaves what the file still gets. -/
theorem update_taken {p : Addr} (free : p ∉ s.buffersToWrite) (data : Bytes) :
    s.inFlight.map (Function.update s.heap p data) = s.inFlight.map s.heap ∧
      s.unwritten.map (Function.update s.heap p data) = s.unwritten.map s.heap :=
  ⟨map_update (fun member => free (mem_inFlight member)) data,
    map_update (fun member => free (mem_unwritten member)) data⟩

/-- The current buffer is the last one of those filled so far. -/
theorem filled_eq {current : Addr} (there : s.currentBuffer = some current) :
    s.filled = s.turns.flatten ++ s.inFlight.map s.heap ++ s.buffers.map s.heap ++
      [s.heap current] := by
  simp only [filled, waiting, there, Option.toList, List.map_append, List.map_cons, List.map_nil,
    List.append_assoc]

theorem Conserved.append (conserved : s.Conserved) (line : Line) : (s.append line).Conserved := by
  have owned := conserved.owned
  have ownedNext := owned.append line
  obtain ⟨current, there, taken⟩ := owned.append_cases line
  have packed := conserved.packed
  rw [filled_eq there] at packed
  rcases taken with same | ⟨p, next, source, same⟩
  · have outside : current ∉ s.buffers ∧ current ∉ s.buffersToWrite := by
      have distinct := owned.distinct
      simp [pointers, there] at distinct
      tauto
    obtain ⟨flying, unwritten⟩ := update_taken outside.2 (s.heap current ++ line.val)
    refine ⟨ownedNext, ?_, ?_⟩
    · rw [filled_eq (s := s.append line) (by rw [same]; exact there), same]
      simp only [map_update outside.1, Function.update_self]
      exact flying.symm ▸ packed.extend line
    · rw [same]
      exact unwritten.symm ▸ conserved.output
  · have outside : p ∉ s.buffers ∧ p ≠ current ∧ p ∉ s.buffersToWrite := by
      have distinct := ownedNext.distinct
      rw [same] at distinct
      simp [pointers] at distinct
      tauto
    obtain ⟨flying, unwritten⟩ := update_taken outside.2.2 line.val
    refine ⟨ownedNext, ?_, ?_⟩
    · rw [filled_eq (s := s.append line) (by rw [same]), same]
      simp only [List.map_append, map_update outside.1, Function.update_self, List.map_cons,
        List.map_nil, Function.update_of_ne outside.2.1.symm]
      have grown := packed.open.extend line
      simp only [List.append_assoc] at grown ⊢
      exact flying.symm ▸ grown
    · rw [same]
      exact unwritten.symm ▸ conserved.output

theorem idle_quiet (idle : s.Idle) : s.inFlight = [] ∧ s.unwritten = [] := by
  unfold Idle at idle
  unfold inFlight unwritten
  split at idle <;> simp_all

theorem idle_begun (idle : s.Idle) : ¬ s.Bare := by
  unfold Idle at idle
  unfold Bare
  split at idle <;> simp_all

/-- One spare buffer becomes the current one, the other one the next where that is gone. -/
theorem Owned.swap_eq (owned : s.Owned) (idle : s.Idle) :
    ∃ current spare1 spare2 next rest, s.currentBuffer = some current ∧
      s.newBuffer1 = some spare1 ∧ s.newBuffer2 = some spare2 ∧
      (s.nextBuffer = none ∧ next = some spare2 ∧ rest = none ∨
        s.nextBuffer ≠ none ∧ next = s.nextBuffer ∧ rest = some spare2) ∧
      s.swap = { s with currentBuffer := some spare1, nextBuffer := next, newBuffer1 := none,
                        newBuffer2 := rest, buffers := [], buffersToWrite := s.buffers ++ [current],
                        thread := .taken } := by
  obtain ⟨current, there⟩ := Option.ne_none_iff_exists'.mp owned.current
  obtain ⟨has1, has2, empty⟩ := owned.idle idle
  obtain ⟨spare1, has1⟩ := Option.ne_none_iff_exists'.mp has1
  obtain ⟨spare2, has2⟩ := Option.ne_none_iff_exists'.mp has2
  refine ⟨current, spare1, spare2, if s.nextBuffer = none then some spare2 else s.nextBuffer,
    if s.nextBuffer = none then none else some spare2, there, has1, has2, ?_, ?_⟩
  · by_cases gone : s.nextBuffer = none
    · exact .inl ⟨gone, if_pos gone, if_pos gone⟩
    · exact .inr ⟨gone, if_neg gone, if_neg gone⟩
  · simp only [swap, there, has1, has2, empty, goto]
    split <;> rfl

theorem Owned.swap (owned : s.Owned) (idle : s.Idle) : s.swap.Owned := by
  obtain ⟨current, spare1, spare2, next, rest, there, has1, has2, source, same⟩ :=
    owned.swap_eq idle
  have empty : s.buffersToWrite = [] := (owned.idle idle).2.2
  have apart := moved s.swap.pointers owned.distinct owned.old fun a => by
    simp only [same, pointers, there, has1, has2, empty, Option.toList_some, Option.toList_none,
      List.count_append, List.count_nil]
    rcases source with ⟨gone, rfl, rfl⟩ | ⟨spare, rfl, rfl⟩
    · simp only [gone, Option.toList_some, Option.toList_none, List.count_nil]
      omega
    · simp only [Option.toList_some]
      omega
  rw [same] at apart ⊢
  refine ⟨apart.1, apart.2, Option.some_ne_none _, fun p member => owned.spare p ?_, ?_, False.elim,
    fun _ => ⟨rfl, by simp, ?_⟩, ?_, ?_, ?_, owned.ok⟩
  · rcases source with ⟨gone, rfl, rfl⟩ | ⟨spare, rfl, rfl⟩ <;>
    · simp [has2] at member ⊢
      tauto
  · rcases source with ⟨gone, rfl, rfl⟩ | ⟨spare, rfl, rfl⟩
    · exact fun none => absurd none (Option.some_ne_none _)
    · exact fun none => absurd none spare
  · rcases source with ⟨gone, rfl, rfl⟩ | ⟨spare, rfl, rfl⟩
    · have := List.length_pos_iff.mpr (owned.used gone)
      simp
      omega
    · exact fun none => absurd none (Option.some_ne_none _)
  · exact fun bare => by simp [Bare] at bare
  · exact fun early => absurd (.inl (owned.unborn early)) (idle_begun idle)
  · exact fun entering => ThreadPc.noConfusion entering

theorem Conserved.swap (conserved : s.Conserved) (idle : s.Idle) : s.swap.Conserved := by
  have owned := conserved.owned
  obtain ⟨current, spare1, spare2, next, rest, there, has1, has2, -, same⟩ := owned.swap_eq idle
  obtain ⟨grounded, written⟩ := idle_quiet idle
  have blank : s.heap spare1 = [] := owned.spare spare1 (by simp [has1])
  have packed := conserved.packed
  have output := conserved.output
  rw [filled_eq there, grounded] at packed
  rw [written] at output
  refine ⟨owned.swap idle, ?_, ?_⟩
  · rw [filled_eq (s := s.swap) (by rw [same]), same]
    simpa [inFlight, blank] using packed.open
  · rw [same]
    exact output

theorem Owned.take (owned : s.Owned) (pc : s.thread = .taken) {turns : List (List Bytes)} :
    ({ s with buffersToWrite := kept s.buffersToWrite, turns := turns }.goto
      (.writing 0)).Owned := by
  have loaded := owned.loaded (by simp only [Loaded, pc])
  have apart := moved { s with buffersToWrite := kept s.buffersToWrite }.pointers
    owned.distinct owned.old fun a => by
      have := (kept_sublist s.buffersToWrite).count_le a
      simp only [pointers, List.count_append]
      omega
  refine ⟨apart.1, apart.2, owned.current, owned.spare, owned.used, False.elim,
    fun _ => ⟨loaded.1, ?_, fun none => ?_⟩, ?_, ?_, ThreadPc.noConfusion, owned.ok⟩
  · have some := List.length_pos_iff.mpr loaded.2.1
    exact List.length_pos_iff.mp (le_length_kept (by omega) some)
  · exact le_length_kept le_rfl (loaded.2.2 none)
  · exact fun bare => by simp [Bare, goto] at bare
  · exact fun early => ThreadPc.noConfusion (pc.symm.trans (owned.unborn early))

/-- The taken buffers become a turn, and all but two may be dropped. -/
theorem Conserved.take (conserved : s.Conserved) (pc : s.thread = .taken) :
    ({ s with buffersToWrite := kept s.buffersToWrite,
              turns := s.turns ++ [s.buffersToWrite.map s.heap] }.goto (.writing 0)).Conserved := by
  have packed := conserved.packed
  have output := conserved.output
  simp only [filled, inFlight, unwritten, pc, List.map_nil, List.flatten_nil] at packed output
  refine ⟨conserved.owned.take pc, ?_, ?_⟩
  · simpa [goto, filled, inFlight, waiting] using packed
  · simp only [List.append_nil] at output
    simp only [goto, unwritten, List.drop_zero, kept_map, List.map_append, List.flatten_append,
      List.append_nil, List.map_cons, List.map_nil, List.flatten_cons, List.flatten_nil, output]

/-- The background thread goes on with the buffers it has taken. -/
theorem Owned.loading (owned : s.Owned) (loaded : s.Loaded) {pc : ThreadPc} {output : LogFile}
    (next : ({ s with output := output }.goto pc).Loaded) :
    ({ s with output := output }.goto pc).Owned := by
  refine ⟨owned.distinct, owned.old, owned.current, owned.spare, owned.used, fun idle => ?_,
    fun _ => owned.loaded loaded, fun bare => ?_, fun early => ?_, fun entering => ?_, owned.ok⟩
  · simp only [Idle, Loaded, goto] at idle next
    split at idle <;> simp_all
  · rcases bare with unborn | entering
    · simp only [Loaded, goto] at unborn next
      simp only [unborn] at next
    · simp only [Loaded, goto] at entering next
      simp only [entering] at next
  · have unborn := owned.unborn early
    simp only [Loaded, unborn] at loaded
  · simp only [Loaded, goto] at entering next
    simp only [entering] at next

theorem Conserved.give (conserved : s.Conserved) {i : Nat} (pc : s.thread = .writing i) {p : Addr}
    (there : s.buffersToWrite[i]? = some p) :
    ({ s with output := s.output.append (s.heap p) }.goto (.writing (i + 1))).Conserved := by
  have packed := conserved.packed
  have output := conserved.output
  simp only [filled, inFlight, unwritten, pc] at packed output
  refine ⟨conserved.owned.loading (by simp only [Loaded, pc]) (by simp only [Loaded, goto]),
    packed, ?_⟩
  · obtain ⟨inside, rfl⟩ := List.getElem?_eq_some_iff.mp there
    rw [List.drop_eq_getElem_cons inside, List.map_cons, List.flatten_cons,
      ← List.append_assoc] at output
    simpa only [goto, unwritten, LogFile.append_given] using output

theorem refill1_snoc {front : List Addr} {p : Addr} (used : s.newBuffer1 = none)
    (ends : s.buffersToWrite = front ++ [p]) :
    s.refill1 = { s with heap := Function.update s.heap p [], buffersToWrite := front,
                         newBuffer1 := some p } := by
  simp only [refill1, if_pos used, recycle, ends, List.getLast?_concat, Option.map_some,
    List.dropLast_concat, store]

theorem refill2_snoc (front : List Addr) (p : Addr) (used : s.newBuffer2 = none)
    (ends : s.buffersToWrite = front ++ [p]) :
    s.refill2 = { s with heap := Function.update s.heap p [], buffersToWrite := front,
                         newBuffer2 := some p } := by
  simp only [refill2, if_pos used, recycle, ends, List.getLast?_concat, Option.map_some,
    List.dropLast_concat, store]

theorem Conserved.written (conserved : s.Conserved) {i : Nat} (pc : s.thread = .writing i)
    (past : s.buffersToWrite.length ≤ i) : (s.goto .recycling).Conserved := by
  have packed := conserved.packed
  have output := conserved.output
  simp only [filled, inFlight, unwritten, pc] at packed output
  refine ⟨conserved.owned.loading (by simp only [Loaded, pc]) (by simp only [Loaded, goto]),
    packed, ?_⟩
  · rw [List.drop_eq_nil_of_le past] at output
    exact output

/-- Two of the taken buffers, or one and the spare one that is left, are empty and spare. -/
theorem Owned.recycled (owned : s.Owned) (pc : s.thread = .recycling) :
    ∃ spare1 spare2 heap, s.threadStep =
        some { s with heap := heap, newBuffer1 := some spare1, newBuffer2 := some spare2,
                      buffersToWrite := [], thread := .flushing } ∧
      heap spare1 = [] ∧ heap spare2 = [] ∧ (∀ p ∉ s.buffersToWrite, heap p = s.heap p) ∧
      ∀ a, [spare1, spare2].count a ≤ (s.newBuffer2.toList ++ s.buffersToWrite).count a := by
  obtain ⟨used1, taken, used2⟩ := owned.loaded (by simp only [Loaded, pc])
  obtain ⟨front, spare1, ends⟩ := List.eq_nil_or_concat (s.buffersToWrite.take 2) |>.resolve_left
    (by simpa using taken)
  rw [List.concat_eq_append] at ends
  have inside : ∀ p ∈ front ++ [spare1], p ∈ s.buffersToWrite := fun p member =>
    List.mem_of_mem_take (ends ▸ member)
  have fewer : ∀ a, (front ++ [spare1]).count a ≤ s.buffersToWrite.count a := fun a =>
    ends ▸ (List.take_sublist 2 s.buffersToWrite).count_le a
  have first := refill1_snoc (s := { s with buffersToWrite := s.buffersToWrite.take 2 }) used1 ends
  have step : s.threadStep = some ({ { s with buffersToWrite := s.buffersToWrite.take 2 }
      |>.refill1.refill2 with buffersToWrite := [] }.goto .flushing) := by
    simp only [threadStep, pc]
  rw [step, first]
  cases has2 : s.newBuffer2 with
  | some spare2 =>
      refine ⟨spare1, spare2, Function.update s.heap spare1 [], ?_, Function.update_self .., ?_,
        fun p absent => Function.update_of_ne ?_ _ _, fun a => ?_⟩
      · simp only [refill2, goto]
        rfl
      · by_cases same : spare2 = spare1
        · rw [same, Function.update_self]
        · rw [Function.update_of_ne same]
          exact owned.spare spare2 (by simp [has2])
      · rintro rfl
        exact absent (inside p (by simp))
      · have := fewer a
        simp only [Option.toList_some, List.count_append, List.count_cons, List.count_nil] at this ⊢
        omega
  | none =>
      have two := congrArg List.length ends
      simp only [List.length_take, List.length_append, List.length_singleton] at two
      have := used2 has2
      obtain ⟨spare2, rfl⟩ := List.length_eq_one_iff.mp (show front.length = 1 by omega)
      refine ⟨spare1, spare2, Function.update (Function.update s.heap spare1 []) spare2 [], ?_, ?_,
        Function.update_self .., fun p absent => ?_, fun a => ?_⟩
      · rw [refill2_snoc [] spare2]
        · rfl
        · rfl
        · rfl
      · by_cases same : spare1 = spare2
        · rw [same, Function.update_self]
        · rw [Function.update_of_ne same, Function.update_self]
      · rw [Function.update_of_ne, Function.update_of_ne]
        · rintro rfl
          exact absent (inside p (by simp))
        · rintro rfl
          exact absent (inside p (by simp))
      · have := fewer a
        simp only [Option.toList_none, List.count_append, List.count_cons, List.count_nil] at this ⊢
        omega

/-- A step that gives the background thread its two spare buffers. -/
def Supplied (s s' : AsyncLogging) : Prop :=
  ∃ heap next spare1 spare2 pc, heap spare1 = [] ∧ heap spare2 = [] ∧
    (∀ p ∈ s.currentBuffer.toList ++ s.nextBuffer.toList ++ s.buffers, heap p = s.heap p) ∧
    s' = { s with heap := heap, next := next, newBuffer1 := some spare1, newBuffer2 := some spare2,
                  buffersToWrite := [], thread := pc } ∧
    (s'.pointers.Nodup ∧ ∀ p ∈ s'.pointers, p < next) ∧ s'.Idle

theorem Owned.supplied (owned : s.Owned) (born : s.thread ≠ .unborn) (supplied : Supplied s s') :
    s'.Owned := by
  obtain ⟨heap, next, spare1, spare2, pc, empty1, empty2, frame, rfl, apart, idle⟩ := supplied
  refine ⟨apart.1, apart.2, owned.current, fun p member => ?_, owned.used,
    fun _ => ⟨Option.some_ne_none _, Option.some_ne_none _, rfl⟩, fun loaded => ?_,
    fun bare => absurd bare (idle_begun idle), fun early => absurd (owned.unborn early) born,
    fun entering => absurd (.inr entering) (idle_begun idle), owned.ok⟩
  · simp only [Option.toList_some, List.mem_append, List.mem_singleton] at member
    rcases member with (member | rfl) | rfl
    · rw [← owned.spare p (by simp [member])]
      exact frame p (by simp [member])
    · exact empty1
    · exact empty2
  · simp only [Idle, Loaded] at idle loaded
    split at idle <;> simp_all

theorem Conserved.supplied (conserved : s.Conserved) (quiet : s.inFlight = [] ∧ s.unwritten = [])
    (born : s.thread ≠ .unborn) (supplied : Supplied s s') : s'.Conserved := by
  have owned := conserved.owned.supplied born supplied
  obtain ⟨heap, next, spare1, spare2, pc, empty1, empty2, frame, rfl, apart, idle⟩ := supplied
  have packed := conserved.packed
  have output := conserved.output
  obtain ⟨grounded, written⟩ := idle_quiet idle
  have front : s.waiting.map heap = s.waiting.map s.heap := by
    refine List.map_congr_left fun p member => frame p ?_
    simp only [waiting, List.mem_append] at member ⊢
    tauto
  simp only [filled, quiet, List.map_nil, List.append_nil] at packed
  simp only [quiet, List.map_nil, List.flatten_nil, List.append_nil] at output
  refine ⟨owned, ?_, ?_⟩
  · simp only [filled, grounded, List.map_nil, List.append_nil]
    exact front.symm ▸ packed
  · rw [written]
    simpa only [List.map_nil, List.flatten_nil, List.append_nil] using output

theorem Owned.recycled_supplied (owned : s.Owned) (pc : s.thread = .recycling)
    (taken : s.threadStep = some s') : Supplied s s' := by
  obtain ⟨spare1, spare2, heap, same, empty1, empty2, frame, fewer⟩ := owned.recycled pc
  have result := Option.some.inj (taken.symm.trans same)
  have used1 := (owned.loaded (by simp only [Loaded, pc])).1
  refine ⟨heap, s.next, spare1, spare2, .flushing, empty1, empty2,
    fun p member => frame p fun again => ?_, result, ?_, ?_⟩
  · exact List.disjoint_of_nodup_append owned.distinct
      (List.mem_append_left _ (List.mem_append_left _ member)) again
  · refine moved _ owned.distinct owned.old fun a => ?_
    have := fewer a
    simp only [result, pointers, used1, Option.toList_some, Option.toList_none, List.count_append,
      List.count_cons, List.count_nil] at this ⊢
    omega
  · simp only [result, Idle]

theorem Owned.enter_supplied (owned : s.Owned) (pc : s.thread = .entering)
    (taken : s.threadStep = some s') : Supplied s s' := by
  have bare := owned.bare (.inr pc)
  simp only [threadStep, pc, if_pos (owned.entering pc).2, Option.some.injEq, store, goto] at taken
  have once := fresh owned.distinct owned.old
  have twice := fresh once.1 once.2
  refine ⟨_, s.next + 2, s.next, s.next + 1, .testing, ?_, Function.update_self ..,
    fun p member => ?_, taken.symm, ?_, ?_⟩
  · rw [Function.update_of_ne (Nat.ne_of_lt (Nat.lt_succ_self _)), Function.update_self]
  · have inside := owned.old p (by simp only [pointers, List.mem_append] at member ⊢; tauto)
    rw [Function.update_of_ne, Function.update_of_ne]
    · exact Nat.ne_of_lt inside
    · exact Nat.ne_of_lt (Nat.lt_succ_of_lt inside)
  · refine moved _ twice.1 twice.2 fun a => ?_
    simp only [← taken, pointers, bare, Option.toList_some, Option.toList_none, List.count_append,
      List.count_cons, List.count_nil]
    omega
  · simp only [← taken, Idle]

theorem Owned.onward (owned : s.Owned) (idle : s.Idle) {pc : ThreadPc} {output : LogFile}
    (next : ({ s with output := output }.goto pc).Idle) :
    ({ s with output := output }.goto pc).Owned := by
  refine ⟨owned.distinct, owned.old, owned.current, owned.spare, owned.used,
    fun _ => owned.idle idle, fun loaded => ?_, fun bare => absurd bare (idle_begun next),
    fun early => absurd (.inl (owned.unborn early)) (idle_begun idle),
    fun entering => absurd (.inr entering) (idle_begun next), owned.ok⟩
  simp only [Idle, Loaded, goto] at next loaded
  split at next <;> simp_all

/-- A step of the background thread that only moves on. -/
theorem Conserved.onward (conserved : s.Conserved) (idle : s.Idle) {pc : ThreadPc}
    {output : LogFile} (same : output.given = s.output.given)
    (next : ({ s with output := output }.goto pc).Idle) :
    ({ s with output := output }.goto pc).Conserved := by
  have packed := conserved.packed
  have given := conserved.output
  obtain ⟨grounded, written⟩ := idle_quiet idle
  obtain ⟨groundedNext, writtenNext⟩ := idle_quiet next
  rw [written] at given
  refine ⟨conserved.owned.onward idle next, ?_, ?_⟩
  · simp only [filled, grounded] at packed
    simp only [filled, groundedNext]
    exact packed
  · rw [writtenNext]
    simpa only [goto, same] using given

/-- The assertions at the head of the loop hold. -/
theorem Owned.asserted (owned : s.Owned) (idle : s.Idle) :
    s.isEmptyBuffer s.newBuffer1 ∧ s.isEmptyBuffer s.newBuffer2 ∧ s.buffersToWrite = [] := by
  obtain ⟨has1, has2, empty⟩ := owned.idle idle
  obtain ⟨spare1, has1⟩ := Option.ne_none_iff_exists'.mp has1
  obtain ⟨spare2, has2⟩ := Option.ne_none_iff_exists'.mp has2
  have blank1 : s.heap spare1 = [] := owned.spare spare1 (by simp [has1])
  have blank2 : s.heap spare2 = [] := owned.spare spare2 (by simp [has2])
  simp [isEmptyBuffer, has1, has2, blank1, blank2, empty]

/-- What the background thread does in one step, where its assertions hold. -/
inductive ThreadMove (s : AsyncLogging) : AsyncLogging → Prop where
  | supplied {s' : AsyncLogging} (quiet : s.inFlight = [] ∧ s.unwritten = [])
      (born : s.thread ≠ .unborn) (supplied : Supplied s s') : ThreadMove s s'
  | onward {pc : ThreadPc} {output : LogFile} (idle : s.Idle)
      (same : output.given = s.output.given) (next : ({ s with output := output }.goto pc).Idle) :
      ThreadMove s ({ s with output := output }.goto pc)
  | swap (idle : s.Idle) : ThreadMove s s.swap
  | take (pc : s.thread = .taken) :
      ThreadMove s ({ s with buffersToWrite := kept s.buffersToWrite,
                             turns := s.turns ++ [s.buffersToWrite.map s.heap] }.goto (.writing 0))
  | give {i : Nat} (pc : s.thread = .writing i) {p : Addr} (there : s.buffersToWrite[i]? = some p) :
      ThreadMove s ({ s with output := s.output.append (s.heap p) }.goto (.writing (i + 1)))
  | written {i : Nat} (pc : s.thread = .writing i) (past : s.buffersToWrite.length ≤ i) :
      ThreadMove s (s.goto .recycling)

theorem Owned.threadStep_cases (owned : s.Owned) (taken : s.threadStep = some s') :
    ThreadMove s s' := by
  cases pc : s.thread with
  | unborn | finished => simp [AsyncLogging.threadStep, pc] at taken
  | entering =>
      refine .supplied ?_ ?_ (owned.enter_supplied pc taken)
      · simp only [inFlight, unwritten, pc, and_self]
      · simp only [pc, ne_eq, reduceCtorEq, not_false_eq_true]
  | testing =>
      have idle : s.Idle := by simp only [Idle, pc]
      simp only [AsyncLogging.threadStep, pc, Option.some.injEq] at taken
      subst taken
      refine .onward idle rfl ?_
      split <;> simp only [Idle, goto]
  | locking =>
      have idle : s.Idle := by simp only [Idle, pc]
      simp only [AsyncLogging.threadStep, pc, if_pos (owned.asserted idle)] at taken
      split at taken
      · obtain rfl := Option.some.inj taken
        exact .onward idle rfl (by simp only [Idle, goto])
      · obtain rfl := Option.some.inj taken
        exact .swap idle
  | waiting =>
      simp only [AsyncLogging.threadStep, pc, Option.some.injEq] at taken
      subst taken
      exact .swap (by simp only [Idle, pc])
  | taken =>
      have some := (owned.loaded (by simp only [Loaded, pc])).2.1
      simp only [AsyncLogging.threadStep, pc, if_neg some, Option.some.injEq] at taken
      subst taken
      exact .take pc
  | writing i =>
      simp only [AsyncLogging.threadStep, pc] at taken
      split at taken
      case h_1 past =>
          obtain rfl := Option.some.inj taken
          exact .written pc (List.getElem?_eq_none_iff.mp past)
      case h_2 p there =>
          obtain rfl := Option.some.inj taken
          exact .give pc there
  | recycling =>
      refine .supplied ?_ ?_ (owned.recycled_supplied pc taken)
      · simp only [inFlight, unwritten, pc, and_self]
      · simp only [pc, ne_eq, reduceCtorEq, not_false_eq_true]
  | flushing | finishing =>
      simp only [AsyncLogging.threadStep, pc, Option.some.injEq] at taken
      subst taken
      exact .onward (by simp only [Idle, pc]) rfl (by simp only [Idle, goto])

theorem Owned.threadStep (owned : s.Owned) (taken : s.threadStep = some s') : s'.Owned := by
  cases owned.threadStep_cases taken with
  | supplied _ born supplied => exact owned.supplied born supplied
  | onward idle _ next => exact owned.onward idle next
  | swap idle => exact owned.swap idle
  | take pc => exact owned.take pc
  | give pc _ => exact owned.loading (by simp only [Loaded, pc]) (by simp only [Loaded, goto])
  | written pc _ => exact owned.loading (by simp only [Loaded, pc]) (by simp only [Loaded, goto])

theorem Conserved.threadStep (conserved : s.Conserved) (taken : s.threadStep = some s') :
    s'.Conserved := by
  cases conserved.owned.threadStep_cases taken with
  | supplied quiet born supplied => exact conserved.supplied quiet born supplied
  | onward idle same next => exact conserved.onward idle same next
  | swap idle => exact conserved.swap idle
  | take pc => exact conserved.take pc
  | give pc there => exact conserved.give pc there
  | written pc past => exact conserved.written pc past

/-- What the owner does in one step. -/
inductive OwnerMove (s : AsyncLogging) : AsyncLogging → Prop where
  | started (unborn : s.thread = .unborn) :
      OwnerMove s ({ s with running := true, owner := .latched }.goto .entering)
  | onward {running : Bool} {owner : OwnerPc} {promised : Nat} (later : owner ≠ .constructed)
      (still : s.thread = .entering → owner = .latched ∧ running = true) :
      OwnerMove s { s with running := running, owner := owner, promised := promised }

theorem ownerStep_cases (unborn : s.owner = .constructed → s.thread = .unborn)
    (latched : s.thread = .entering → s.owner = .latched) (taken : s.ownerStep = some s') :
    OwnerMove s s' := by
  have begun : s.owner ≠ .latched → s.thread ≠ .entering := fun other entering =>
    other (latched entering)
  cases pc : s.owner with
  | constructed =>
      simp only [AsyncLogging.ownerStep, pc, Option.some.injEq] at taken
      exact taken ▸ .started (unborn pc)
  | latched =>
      simp only [AsyncLogging.ownerStep, pc] at taken
      split at taken
      · cases taken
      · rename_i ready
        obtain rfl := Option.some.inj taken
        exact .onward OwnerPc.noConfusion fun entering => absurd (.inr entering) ready
  | started | stopping | notifying =>
      simp only [AsyncLogging.ownerStep, pc, Option.some.injEq] at taken
      exact taken ▸ .onward OwnerPc.noConfusion fun entering =>
        absurd entering (begun (by simp only [pc, ne_eq, reduceCtorEq, not_false_eq_true]))
  | joining =>
      simp only [AsyncLogging.ownerStep, pc, Option.ite_none_right_eq_some, Option.some.injEq]
        at taken
      obtain ⟨finished, rfl⟩ := taken
      exact .onward OwnerPc.noConfusion fun entering =>
        ThreadPc.noConfusion (finished.symm.trans entering)
  | stopped => simp only [AsyncLogging.ownerStep, pc, reduceCtorEq] at taken

theorem Owned.ownerStep_cases (owned : s.Owned) (taken : s.ownerStep = some s') :
    OwnerMove s s' :=
  AsyncLogging.ownerStep_cases owned.unborn (fun entering => (owned.entering entering).1) taken

/-- A step of the owner leaves the buffers alone. -/
theorem Owned.ownerStep (owned : s.Owned) (taken : s.ownerStep = some s') : s'.Owned := by
  cases owned.ownerStep_cases taken with
  | started unborn =>
      exact ⟨owned.distinct, owned.old, owned.current, owned.spare, owned.used, False.elim,
        False.elim, fun _ => owned.bare (.inl unborn), OwnerPc.noConfusion, fun _ => ⟨rfl, rfl⟩,
        owned.ok⟩
  | onward later still =>
      exact ⟨owned.distinct, owned.old, owned.current, owned.spare, owned.used, owned.idle,
        owned.loaded, owned.bare, fun early => absurd early later, still, owned.ok⟩

theorem Conserved.ownerStep (conserved : s.Conserved) (taken : s.ownerStep = some s') :
    s'.Conserved := by
  have owned := conserved.owned.ownerStep taken
  have packed := conserved.packed
  have output := conserved.output
  cases conserved.owned.ownerStep_cases taken with
  | started unborn =>
      simp only [filled, inFlight, unwritten, unborn] at packed output
      exact ⟨owned, packed, output⟩
  | onward => exact ⟨owned, packed, output⟩

theorem Owned.init : asyncLogging.init.Owned := by
  refine ⟨by decide, by decide, by simp [asyncLogging], fun _ _ => rfl, ?_, False.elim, False.elim,
    fun _ => ⟨rfl, rfl, rfl⟩, fun _ => rfl, ThreadPc.noConfusion, rfl⟩
  exact fun none => absurd none (Option.some_ne_none _)

theorem Conserved.init : asyncLogging.init.Conserved := ⟨Owned.init, Packed.nil, rfl⟩

theorem Conserved.step {action : LogStep} (conserved : s.Conserved)
    (taken : asyncLogging.step s action = some s') : s'.Conserved := by
  simp only [asyncLogging, conserved.owned.ok, Bool.false_eq_true, if_false] at taken
  cases action with
  | append line => exact Option.some.inj taken ▸ conserved.append line
  | thread => exact conserved.threadStep taken
  | owner => exact conserved.ownerStep taken

theorem Conserved.reached (reached : asyncLogging.Reachable s) : s.Conserved :=
  reached.induct Conserved.init fun _ _ _ => Conserved.step

/-- What was given to the file, and what is in the buffers that are still to be given. -/
def visible (s : AsyncLogging) : Bytes :=
  s.output.given ++
    ((s.unwritten ++ s.inFlight ++ s.buffers ++ s.currentBuffer.toList).map s.heap).flatten

/-- The lines of each turn, and the lines behind them. -/
theorem Conserved.groups (conserved : s.Conserved) :
    ∃ (taken : List (List (List Line))) (rest : List (List Line)),
      s.appended = taken.flatten.flatten ++ rest.flatten ∧
      taken.map (·.map bytes) = s.turns ∧
      rest.map bytes = (s.inFlight ++ s.buffers ++ s.currentBuffer.toList).map s.heap ∧
      s.visible = bytes ((taken.map kept).flatten.flatten ++ rest.flatten) := by
  obtain ⟨groups, whole, same⟩ := conserved.packed
  simp only [filled, List.append_assoc] at same
  obtain ⟨front, rest, rfl, first, second⟩ := List.map_eq_append_iff.mp same
  obtain ⟨taken, rfl, turns⟩ := split_groups first
  refine ⟨taken, rest, ?_, turns, ?_, ?_⟩
  · rw [← whole, List.flatten_append]
  · rw [second]
    simp only [waiting, List.map_append, List.append_assoc]
  · have turned : (s.turns.map kept).flatten = (taken.map kept).flatten.map bytes := by
      simp only [← turns, List.map_map, List.map_flatten, Function.comp_def, kept_map]
    calc s.visible
        = s.output.given ++ (s.unwritten.map s.heap).flatten ++
            (s.inFlight.map s.heap ++ s.waiting.map s.heap).flatten := by
          simp only [visible, waiting, List.map_append, List.flatten_append, List.append_assoc]
      _ = ((taken.map kept).flatten.map bytes).flatten ++ (rest.map bytes).flatten := by
          rw [conserved.output, turned, second]
      _ = bytes ((taken.map kept).flatten.flatten ++ rest.flatten) := by
          simp only [bytes_append, bytes_flatten]

/-- Turns that drop nothing leave everything visible. -/
theorem Conserved.complete (conserved : s.Conserved) (few : ∀ turn ∈ s.turns, turn.length ≤ 25) :
    s.visible = bytes s.appended := by
  obtain ⟨taken, rest, appended, turns, -, shown⟩ := conserved.groups
  have all : taken.map kept = taken := by
    refine (List.map_congr_left fun turn member => ?_).trans (List.map_id taken)
    have small := few (turn.map bytes) (turns ▸ List.mem_map_of_mem member)
    rw [List.length_map] at small
    exact if_neg (Nat.not_lt.mpr small)
  rw [shown, appended, all]

/-- What is visible is whole lines in the order of the mutex. Those missing were in the
    buffers that a turn with more than 25 of them dropped. -/
theorem lines_conserved (reached : asyncLogging.Reachable s) :
    s.failed = false ∧
      ∃ (taken : List (List (List Line))) (rest : List (List Line)),
        s.appended = taken.flatten.flatten ++ rest.flatten ∧
        taken.map (·.map bytes) = s.turns ∧
        rest.map bytes = (s.inFlight ++ s.buffers ++ s.currentBuffer.toList).map s.heap ∧
        s.visible = bytes ((taken.map kept).flatten.flatten ++ rest.flatten) ∧
        ((∀ turn ∈ s.turns, turn.length ≤ 25) → s.visible = bytes s.appended) := by
  have conserved := Conserved.reached reached
  obtain ⟨taken, rest, appended, turns, held, shown⟩ := conserved.groups
  exact ⟨conserved.owned.ok, taken, rest, appended, turns, held, shown, conserved.complete⟩

def shortLine : Line := ⟨[104, 10], by decide⟩

/-- Two lines, one given to the file and the other one appended behind the swap. -/
def twoLines : List LogStep :=
  [.owner, .thread, .append shortLine, .thread, .thread, .thread,
    .append ⟨[105, 10], by decide⟩, .thread, .thread]

theorem twoLines_run : (asyncLogging.run asyncLogging.init twoLines).isSome := by decide +kernel

theorem lines_conserved_two : ∃ s, asyncLogging.run asyncLogging.init twoLines = some s ∧
    s.output.given = [104, 10] ∧ s.visible = [104, 10, 105, 10] ∧
    s.visible = bytes s.appended :=
  ⟨Option.get _ twoLines_run, (Option.some_get _).symm, by decide +kernel, by decide +kernel,
    let ⟨_, _, _, _, _, _, _, whole⟩ := lines_conserved ⟨twoLines, (Option.some_get _).symm⟩
    whole (by decide +kernel)⟩

end AsyncLogging

end Corio.Logging
