import Corio.Epoll.Timers

/-! # The clock of the timers

`TimerNode` reads `gettimeofday` modulo ten thousand seconds, adds the timeout to one
reading and compares another one with the sum. Whether the answer is right depends on how
often the clock has wrapped in between.
-/

namespace Corio.Epoll

/-- `struct timeval`, as `gettimeofday` fills it. -/
structure Timeval where
  sec : Nat
  usec : Nat
  usec_lt : usec < 1000000

namespace Timeval

/-- The time in milliseconds. -/
def ms (now : Timeval) : Nat := now.sec * 1000 + now.usec / 1000

/-- The time as a `TimerNode` reads it. -/
def clock (now : Timeval) : Nat := now.sec % 10000 * 1000 + now.usec / 1000

/-- The milliseconds after which the clock starts again. -/
def period : Nat := 10000000

/-- How often the clock started again between two times. -/
def wraps (start now : Timeval) : Nat := now.ms / period - start.ms / period

theorem clock_eq (now : Timeval) : now.clock = now.ms % period := by
  have usec := now.usec_lt
  simp only [clock, ms, period]
  omega

theorem clock_lt (now : Timeval) : now.clock < period := by
  rw [clock_eq]
  exact Nat.mod_lt _ (by decide)

end Timeval

namespace TimerNode

/-- The constructor. -/
def make (address requestData : Nat) (timeout : Int) (now : Timeval) : TimerNode where
  address := address
  deleted := false
  expiredTime := toSize (now.clock + timeout)
  holds := some requestData

def update (node : TimerNode) (timeout : Int) (now : Timeval) : TimerNode :=
  { node with expiredTime := toSize (now.clock + timeout) }

/-- `TimerNode::isValid`, and what it leaves of the node. -/
def checkValid (node : TimerNode) (now : Timeval) : Bool × TimerNode :=
  if now.clock < node.expiredTime then (true, node) else (false, { node with deleted := true })

/-- The nodes whose timeout was last set at this time. -/
inductive Started (timeout : Int) (start : Timeval) : TimerNode → Prop where
  | created (address requestData : Nat) :
      Started timeout start (make address requestData timeout start)
  | updated (node : TimerNode) : Started timeout start (node.update timeout start)

theorem checkValid_fst (node : TimerNode) (now : Timeval) :
    (node.checkValid now).1 = node.isValid now.clock := by
  simp only [checkValid, isValid]
  split <;> simp_all

/-- A node that was found invalid is popped at the next look. -/
theorem checkValid_deleted (node : TimerNode) (now : Timeval) :
    (node.checkValid now).2.deleted = (node.deleted || !(node.checkValid now).1) := by
  simp only [checkValid]
  split <;> simp

theorem Started.expiredTime {timeout : Nat} {start : Timeval} {node : TimerNode}
    (started : Started timeout start node) (int : timeout < 2 ^ 31) :
    node.expiredTime = start.clock + timeout := by
  have reading := start.clock_lt
  have sum : toSize (start.clock + timeout) = start.clock + timeout := by
    rw [toSize, BitVec.toNat_ofInt]
    simp only [Timeval.period] at reading
    omega
  cases started with
  | created address requestData => exact sum
  | updated node => exact sum

/-- A timeout that reaches beyond the period never expires. -/
theorem Started.stays_valid {timeout : Nat} {start : Timeval} {node : TimerNode}
    (started : Started timeout start node) (int : timeout < 2 ^ 31)
    (beyond : Timeval.period ≤ start.clock + timeout) (now : Timeval) :
    (node.checkValid now).1 = true := by
  have reading := now.clock_lt
  rw [checkValid_fst, isValid, started.expiredTime int, decide_eq_true_eq]
  omega

/-- The expiry is exact while the timeout has not elapsed, and once it has elapsed by at
    least a period for every wrap of the clock since the start. -/
theorem expiry_exact_iff {timeout : Nat} {start : Timeval} {node : TimerNode}
    (started : Started timeout start node) (int : timeout < 2 ^ 31)
    (now : Timeval) (later : start.ms ≤ now.ms) :
    ((node.checkValid now).1 = true ↔ now.ms < start.ms + timeout) ↔
      now.ms - start.ms < timeout ∨
        timeout + start.wraps now * Timeval.period ≤ now.ms - start.ms := by
  rw [checkValid_fst, isValid, started.expiredTime int, decide_eq_true_eq]
  simp only [Timeval.clock_eq, Timeval.wraps, Timeval.period]
  omega

def atSecond (sec : Nat) : Timeval := ⟨sec, 0, by decide⟩

/-- One second, looked at one second and a period later. -/
theorem expiry_exact_wrapped :
    ((make 0 0 1000 (atSecond 5)).checkValid (atSecond 10006)).1 = true ↔
      (atSecond 10006).ms < (atSecond 5).ms + 1000 := by
  have started : Started (1000 : Nat) (atSecond 5) (make 0 0 1000 (atSecond 5)) := .created 0 0
  exact (expiry_exact_iff started (by decide) (atSecond 10006) (by decide)).mpr (by decide)

/-- Two seconds set at second 9999 are not over at second 10002. -/
theorem expiry_missed :
    Started 2000 (atSecond 9999) (make 0 0 2000 (atSecond 9999)) ∧
      (atSecond 9999).ms ≤ (atSecond 10002).ms ∧
      ¬ (((make 0 0 2000 (atSecond 9999)).checkValid (atSecond 10002)).1 = true ↔
        (atSecond 10002).ms < (atSecond 9999).ms + 2000) :=
  ⟨.created 0 0, by decide, by decide⟩

end TimerNode

end Corio.Epoll
