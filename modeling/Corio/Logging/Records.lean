import Corio.Logging.Decimal
import Mathlib.Data.List.Induction

/-! # Lines of the log

Whatever is inserted, a buffer is written past its end only by a string of 2 GiB and more
whose length, cast to `int`, is less than the room. And a statement loses its newline only when
something fills the buffer up to the last byte: `append` never uses that byte, and nothing
fits any more.
-/

namespace Corio.LogStream

variable {SIZE : Size} {b : FixedBuffer SIZE} {v : Insertion} {values : List Insertion}

namespace Insertion

/-- What is to be read in the log. -/
def text : Insertion → Bytes
  | .bool v => if v then bytes "1" else bytes "0"
  | .char v => [v]
  | .integer v => decimalText v.val
  | .floating text => text
  | .cString str => str.getD (bytes "(null)")
  | .string v => v

/-- Numbers have a guard of their own, and are written with a terminator. -/
def numeric : Insertion → Bool
  | .integer _ | .floating _ => true
  | .bool _ | .char _ | .cString _ | .string _ => false

/-- A number is shorter than its guard demands. -/
theorem length_text_numeric (number : v.numeric = true) : v.text.length < kMaxNumericSize := by
  cases v with
  | bool | char | cString | string => cases number
  | integer v => exact Nat.lt_of_le_of_lt (length_decimalText v) (by decide)
  | floating text => exact text.property

end Insertion

/-- The guard in front of an insertion. -/
def Taken (b : FixedBuffer SIZE) (v : Insertion) : Prop :=
  if v.numeric then b.avail ≥ kMaxNumericSize else b.avail > toInt v.text.length

instance (b : FixedBuffer SIZE) (v : Insertion) : Decidable (Taken b v) := by
  unfold Taken
  infer_instance

/-- A string is taken for shorter than it is. -/
def Narrows (b : FixedBuffer SIZE) (v : Insertion) : Prop :=
  v.numeric = false ∧ 2 ^ 31 ≤ v.text.length ∧ toInt v.text.length < b.avail

/-- All of the room but one byte. -/
def Fills (b : FixedBuffer SIZE) (v : Insertion) : Prop :=
  (v.numeric = true → b.avail ≥ kMaxNumericSize) ∧ v.text.length + 1 = b.avail

/-- `length()` is in range, and so was every write. -/
structure Inside (b : FixedBuffer SIZE) : Prop where
  natural : 0 ≤ b.length
  atMost : b.length ≤ SIZE.val
  writes : ∀ write ∈ b.writes, write.2 ≤ SIZE.val

/-- A condition on every insertion, read in the buffer in front of it. -/
def Throughout (SIZE : Size) (P : FixedBuffer SIZE → Insertion → Prop)
    (values : List Insertion) : Prop :=
  ∀ earlier v, earlier ++ [v] <+: values → P (inserted SIZE earlier) v

theorem inserted_concat (values : List Insertion) (v : Insertion) :
    inserted SIZE (values ++ [v]) = insert (inserted SIZE values) v := by
  rw [inserted, List.foldl_append]
  rfl

theorem throughout_nil (P : FixedBuffer SIZE → Insertion → Prop) : Throughout SIZE P [] := by
  intro earlier v inside
  exact absurd (List.prefix_nil.mp inside) (List.append_ne_nil_of_right_ne_nil _ (by simp))

theorem throughout_concat {P : FixedBuffer SIZE → Insertion → Prop} :
    Throughout SIZE P (values ++ [v]) ↔
      Throughout SIZE P values ∧ P (inserted SIZE values) v := by
  constructor
  · intro all
    exact ⟨fun earlier w before => all earlier w (before.trans (List.prefix_append _ _)),
      all values v (List.prefix_refl _)⟩
  · intro ⟨before, last⟩ earlier w inside
    rcases List.prefix_concat_iff.mp inside with whole | shorter
    · obtain ⟨rfl, same⟩ := List.append_inj' whole rfl
      obtain rfl := (List.cons.inj same).1
      exact last
    · exact before earlier w shorter

/-- What an insertion does to the buffer. -/
theorem insert_eq (b : FixedBuffer SIZE) (v : Insertion) :
    insert b v =
      if Taken b v then b.put (v.text ++ if v.numeric then [0] else []) v.text.length else b := by
  cases v with
  | bool v => simp [insert, FixedBuffer.append, Taken, Insertion.text, Insertion.numeric]
  | char v => simp [insert, FixedBuffer.append, Taken, Insertion.text, Insertion.numeric]
  | integer v =>
      simp [insert, FixedBuffer.formatInteger, Taken, Insertion.text, Insertion.numeric, convert_eq,
        Value.widened]
  | floating text =>
      simp [insert, FixedBuffer.formatFloating, Taken, Insertion.text, Insertion.numeric]
  | cString str =>
      cases str <;> simp [insert, FixedBuffer.append, Taken, Insertion.text, Insertion.numeric]
  | string v => simp [insert, FixedBuffer.append, Taken, Insertion.text, Insertion.numeric]

theorem insert_taken (taken : Taken b v) :
    (insert b v).data = b.data ++ v.text ∧
      (insert b v).writes =
        b.writes ++ [(b.data.length,
          b.data.length + v.text.length + if v.numeric then 1 else 0)] := by
  rw [insert_eq, if_pos taken]
  refine ⟨?_, ?_⟩
  · simp only [FixedBuffer.put, List.take_left]
  · simp only [FixedBuffer.put, List.length_append, Nat.add_assoc]
    split <;> rfl

theorem insert_dropped (dropped : ¬ Taken b v) : insert b v = b := by
  rw [insert_eq, if_neg dropped]

/-- The room of a buffer that has not been written past its end. -/
theorem avail_eq (inside : b.data.length ≤ SIZE.val) :
    b.avail = (SIZE.val : Int) - b.data.length := by
  have small := SIZE.property.2
  rw [FixedBuffer.avail, ← Int.ofNat_sub inside, toInt_small (by omega)]

/-- Something that is inserted into a buffer without being narrowed has room there. -/
theorem room_of_taken (short : b.data.length < SIZE.val) (kept : ¬ Narrows b v)
    (taken : Taken b v) :
    b.data.length + v.text.length < SIZE.val ∧
      b.data.length + v.text.length + (if v.numeric then 1 else 0) ≤ SIZE.val := by
  have room := avail_eq (Nat.le_of_lt short)
  cases kind : v.numeric with
  | true =>
      have few := Insertion.length_text_numeric kind
      simp only [Taken, kind, if_true] at taken
      simp only [if_true]
      omega
  | false =>
      simp only [Taken, kind, Bool.false_eq_true, if_false] at taken
      simp only [Bool.false_eq_true, if_false]
      have small : v.text.length < 2 ^ 31 := by
        rcases Nat.lt_or_ge v.text.length (2 ^ 31) with small | large
        · exact small
        · exact absurd ⟨kind, large, taken⟩ kept
      rw [toInt_small small] at taken
      omega

section Overflow

/-- The buffer has been kept within its bounds, and there is a byte left. -/
structure Bounded (b : FixedBuffer SIZE) : Prop where
  short : b.data.length < SIZE.val
  writes : ∀ write ∈ b.writes, write.2 ≤ SIZE.val

theorem Bounded.inside (bounded : Bounded b) : Inside b := by
  have small := SIZE.property.2
  have short := bounded.short
  have length : b.length = b.data.length := toInt_small (by omega)
  exact ⟨by omega, by omega, bounded.writes⟩

theorem Bounded.empty : Bounded (.empty SIZE) := 
  ⟨SIZE.property.1, fun _ member => absurd member List.not_mem_nil⟩

theorem Bounded.insert (bounded : Bounded b) (kept : ¬ Narrows b v) : Bounded (insert b v) := by
  by_cases taken : Taken b v
  · obtain ⟨data, writes⟩ := insert_taken taken
    obtain ⟨room, ends⟩ := room_of_taken bounded.short kept taken
    refine ⟨?_, ?_⟩
    · rw [data, List.length_append]
      exact room
    · intro write member
      rw [writes, List.mem_append, List.mem_singleton] at member
      rcases member with earlier | rfl
      · exact bounded.writes write earlier
      · exact ends
  · rw [insert_dropped taken]
    exact bounded

/-- A narrowed string is written past the end. -/
theorem Narrows.outside (narrows : Narrows b v) : ¬ Inside (LogStream.insert b v) := by
  obtain ⟨kind, large, less⟩ := narrows
  have taken : Taken b v := by
    simp only [Taken, kind, Bool.false_eq_true, if_false]
    exact less
  intro inside
  have ends := inside.writes (b.data.length, b.data.length + v.text.length) (by
    rw [(insert_taken taken).2, kind]
    exact List.mem_append_right _ List.mem_cons_self)
  have small := SIZE.property.2
  simp only at ends
  omega

theorem Bounded.inserted (kept : Throughout SIZE (fun b v => ¬ Narrows b v) values) :
    Bounded (inserted SIZE values) := by
  induction values using List.reverseRecOn with
  | nil => exact .empty
  | append_singleton values v ih =>
      obtain ⟨before, last⟩ := throughout_concat.mp kept
      rw [inserted_concat]
      exact (ih before).insert last

/-- The buffer stays within its bounds exactly as long as no string of 2 GiB and more is taken
    for a shorter one. -/
theorem logLine_inside_iff (SIZE : Size) (values : List Insertion) :
    (∀ earlier, earlier <+: values → Inside (inserted SIZE earlier)) ↔
      Throughout SIZE (fun b v => ¬ Narrows b v) values := by
  constructor
  · intro inside
    induction values using List.reverseRecOn with
    | nil => exact throughout_nil _
    | append_singleton values v ih =>
        have before := ih fun earlier front => inside earlier (front.trans (List.prefix_append _ _))
        refine throughout_concat.mpr ⟨before, fun narrows => narrows.outside ?_⟩
        rw [← inserted_concat]
        exact inside _ (List.prefix_refl _)
  · intro kept earlier front
    exact (Bounded.inserted fun first v within => kept first v (within.trans front)).inside

/-- A string of 2 GiB overruns the buffer of a `LogStream`. -/
theorem long_string_overruns :
    ¬ ∀ (SIZE : Size) (values : List Insertion),
        ∀ earlier, earlier <+: values → Inside (inserted SIZE earlier) := by
  intro always
  obtain ⟨text, size⟩ : ∃ text : Bytes, text.length = 2 ^ 31 :=
    ⟨List.replicate (2 ^ 31) 120, List.length_replicate⟩
  have narrows : Narrows (.empty LogStatement.smallBuffer) (.string text) := by
    refine ⟨rfl, Nat.le_of_eq size.symm, ?_⟩
    simp only [Insertion.text, size]
    decide
  exact narrows.outside (always _ [.string text] _ (List.prefix_refl _))

end Overflow

section Newline

/-- At least two bytes are left. -/
def Roomy (b : FixedBuffer SIZE) : Prop := b.data.length + 1 < SIZE.val

/-- One byte is left, or the buffer has been overrun. -/
def Stuffed (b : FixedBuffer SIZE) : Prop := b.data.length + 1 = SIZE.val ∨ 2 ^ 31 ≤ b.data.length

theorem Roomy.insert (roomy : Roomy b) (kept : ¬ Narrows b v) (spaced : ¬ Fills b v) :
    Roomy (insert b v) := by
  rw [Roomy] at roomy ⊢
  by_cases taken : Taken b v
  · have room := (room_of_taken (by omega) kept taken).1
    have left := avail_eq (b := b) (by omega)
    have notLast : b.data.length + v.text.length + 1 ≠ SIZE.val := by
      intro last
      refine spaced ⟨?_, by omega⟩
      intro number
      rwa [Taken, number, if_pos rfl] at taken
    rw [(insert_taken taken).1, List.length_append]
    omega
  · rwa [insert_dropped taken]

theorem Roomy.stuffed (roomy : Roomy b) (bad : Narrows b v ∨ Fills b v) :
    Stuffed (LogStream.insert b v) := by
  rw [Roomy] at roomy
  have left := avail_eq (b := b) (by omega)
  rcases bad with ⟨kind, large, less⟩ | ⟨number, last⟩
  · have taken : Taken b v := by
      simp only [Taken, kind, Bool.false_eq_true, if_false]
      exact less
    refine .inr ?_
    rw [(insert_taken taken).1, List.length_append]
    omega
  · have taken : Taken b v := by
      have small := SIZE.property.2
      rw [Taken]
      split
      · rename_i kind
        exact number kind
      · rw [toInt_small (by omega)]
        omega
    refine .inl ?_
    rw [(insert_taken taken).1, List.length_append]
    omega

/-- There is no way back. -/
theorem Stuffed.insert (stuffed : Stuffed b) : Stuffed (insert b v) := by
  by_cases taken : Taken b v
  · rw [Stuffed, (insert_taken taken).1, List.length_append]
    rcases stuffed with last | overrun
    · have left := avail_eq (b := b) (by omega)
      have small := SIZE.property.2
      cases kind : v.numeric with
      | true =>
          simp only [Taken, kind, if_true, kMaxNumericSize] at taken
          omega
      | false =>
          simp only [Taken, kind, Bool.false_eq_true, if_false] at taken
          rcases Nat.lt_or_ge v.text.length (2 ^ 31) with few | many
          · rw [toInt_small few] at taken
            omega
          · omega
    · omega
  · rwa [insert_dropped taken]

/-- What the insertions leave room for. -/
theorem roomy_or_stuffed (SIZE : Size) (two : 1 < SIZE.val) (values : List Insertion) :
    (Throughout SIZE (fun b v => ¬ Narrows b v ∧ ¬ Fills b v) values ∧
        Roomy (inserted SIZE values)) ∨
      (¬ Throughout SIZE (fun b v => ¬ Narrows b v ∧ ¬ Fills b v) values ∧
        Stuffed (inserted SIZE values)) := by
  induction values using List.reverseRecOn with
  | nil => exact .inl ⟨throughout_nil _, two⟩
  | append_singleton values v ih =>
      rw [throughout_concat, inserted_concat]
      rcases ih with ⟨before, roomy⟩ | ⟨broken, stuffed⟩
      · by_cases kept : ¬ Narrows (inserted SIZE values) v ∧ ¬ Fills (inserted SIZE values) v
        · exact .inl ⟨⟨before, kept⟩, roomy.insert kept.1 kept.2⟩
        · refine .inr ⟨fun both => kept both.2, roomy.stuffed ?_⟩
          rwa [← not_or, not_not] at kept
      · exact .inr ⟨fun both => broken both.1, stuffed.insert⟩

namespace LogStatement

/-- The bytes passed to `output` are those in front of the newline, and the newline. -/
def EndsOwnLine (log : LogStatement) : Prop := log.output = log.beforeNewline.data ++ bytes "\n"

variable {log : LogStatement}

theorem ends_of_roomy (roomy : Roomy log.beforeNewline) : log.EndsOwnLine := by
  have small := smallBuffer.property.2
  rw [Roomy] at roomy
  have taken : Taken log.beforeNewline (.char 10) := by
    have left := avail_eq (b := log.beforeNewline) (by omega)
    simp only [Taken, Insertion.numeric, Bool.false_eq_true, if_false, Insertion.text,
      List.length_singleton, toInt_small (n := 1) (by decide)]
    omega
  have data := (insert_taken taken).1
  have size := congrArg List.length data
  rw [List.length_append] at size
  simp only [Insertion.text, List.length_singleton] at size
  rw [EndsOwnLine, output]
  simp only [FixedBuffer.length, size]
  rw [toInt_small (by omega), Int.toNat_natCast, ← size, List.take_length, data]
  rfl

theorem not_ends_of_stuffed (stuffed : Stuffed log.beforeNewline) : ¬ log.EndsOwnLine := by
  intro ends
  have size := congrArg List.length ends
  have one : (bytes "\n").length = 1 := by decide
  rw [output, List.length_take, List.length_append, one] at size
  rcases stuffed with last | overrun
  · have left := avail_eq (b := log.beforeNewline) (by omega)
    have dropped : ¬ Taken log.beforeNewline (.char 10) := by
      simp only [Taken, Insertion.numeric, Bool.false_eq_true, if_false, Insertion.text,
        List.length_singleton, toInt_small (n := 1) (by decide)]
      omega
    rw [insert_dropped dropped] at size
    omega
  · have := toInt_lt (LogStream.insert log.beforeNewline (.char 10)).data.length
    rw [FixedBuffer.length] at size
    omega

/-- A statement ends its own line exactly when nothing in front of the newline fills the buffer
    up to the last byte, or overruns it. -/
theorem ends_own_line_iff (log : LogStatement) :
    log.EndsOwnLine ↔
      Throughout smallBuffer (fun b v => ¬ Narrows b v ∧ ¬ Fills b v) log.insertions := by
  rcases roomy_or_stuffed smallBuffer (by decide) log.insertions with
    ⟨kept, roomy⟩ | ⟨broken, stuffed⟩
  · exact iff_of_true (ends_of_roomy roomy) kept
  · exact iff_of_false (not_ends_of_stuffed stuffed) broken

/-- A request of 3979 bytes is the last thing on its line, and on that of the next record. -/
theorem filled_line_goes_on : ¬ ∀ log : LogStatement, log.EndsOwnLine := by
  intro always
  obtain ⟨request, size⟩ : ∃ request : Bytes, request.length = 3979 :=
    ⟨List.replicate 3979 71, List.length_replicate⟩
  let log : LogStatement :=
    { time := ⟨bytes "2026-01-01 00:00:00\n", by decide⟩, fileName := bytes "HttpData.cpp",
      line := ⟨159, by decide, by decide⟩, values := [.string request] }
  have room : (inserted smallBuffer [.cString (some (bytes "2026-01-01 00:00:00\n"))]).avail =
      3980 := by decide
  have fills : Fills (inserted smallBuffer [.cString (some log.time)]) (.string request) := by
    refine ⟨by simp [Insertion.numeric], ?_⟩
    rw [Insertion.text, size, room]
    rfl
  rcases roomy_or_stuffed smallBuffer (by decide) log.insertions with
    ⟨kept, _⟩ | ⟨_, stuffed⟩
  · exact (kept [.cString (some log.time)] (.string request) (List.prefix_append _ _)).2 fills
  · exact not_ends_of_stuffed stuffed (always log)

end LogStatement

end Newline

end Corio.LogStream
