import X86Kernel.Lib.Run
import X86Kernel.Lib.Sorted
import X86Kernel.Mem.Heap

/-! Timer events: `events.c`, with `api_sleep` of `api.c`. -/
namespace X86Kernel.Tasks

open Mem (int32)

/-- The values of an `int`. -/
abbrev CInt := { x : ℤ // -2 ^ 31 ≤ x ∧ x < 2 ^ 31 }

/-- What an event calls, and for which task: -1 is the kernel. -/
structure Callback where
  callback : ℕ
  msg : ℕ
  task : ℤ
  taskUid : ℕ
  deriving DecidableEq

/-- `event_t`; the list of events is kept as a list. -/
structure TimerEvent where
  time : ℕ
  call : Callback
  deriving DecidableEq

/-- What `events.c` reads of a task. -/
structure TaskInfo where
  enabled : Bool
  taskUid : ℕ

/-- What becomes of an event whose time has come: it is skipped if its task has ended, and
`event_fire` does nothing without a callback or if the task is not the one that asked. -/
inductive Outcome where
  | ended | noCallback | otherTask | subroutine | kernel
  deriving DecidableEq

def Callback.eventFire (c : Callback) (tasks : ℤ → TaskInfo) : Outcome :=
  if c.callback = 0 then .noCallback
  else if 0 ≤ c.task then if (tasks c.task).taskUid ≠ c.taskUid then .otherTask else .subroutine
  else .kernel

/-- One turn of the loop of `events_check` for an event whose time has come. -/
def Callback.turn (c : Callback) (tasks : ℤ → TaskInfo) : Outcome :=
  if 0 ≤ c.task ∧ !(tasks c.task).enabled then .ended else c.eventFire tasks

structure Timer where
  /-- `timer_i` -/
  tick : ℕ
  eventsActive : Bool
  /-- The list from `first_event` on. -/
  events : List TimerEvent

namespace Timer

def eventTimeUntil (tick : ℕ) (e : TimerEvent) : ℤ := int32 (e.time - tick)

/-- The loop of `events_add`: sooner than the next, or last. -/
def placeAfter (tick : ℕ) (event : TimerEvent) : List TimerEvent → List TimerEvent
  | [] => [event]
  | next :: l =>
    if eventTimeUntil tick event < eventTimeUntil tick next then event :: next :: l
    else next :: placeAfter tick event l

/-- `events_add`; `granted` is whether the event could be allocated. -/
def eventsAdd (t : Timer) (delta : CInt) (c : Callback) (granted : Bool) : Timer :=
  let t := { t with eventsActive := true }
  if granted then
    let event := ⟨((t.tick + delta.val) % 2 ^ 32).toNat, c⟩
    match t.events with
    | [] => { t with events := [event] }
    | first :: l =>
      if eventTimeUntil t.tick event < eventTimeUntil t.tick first then
        { t with events := event :: first :: l }
      else { t with events := first :: placeAfter t.tick event l }
  else t

/-- The loop of `events_check`: what happened to the events it took, and what is left. The tasks are
as each turn finds them. -/
def checkLoop (tick : ℕ) (tasks : ℕ → ℤ → TaskInfo) :
    ℕ → List TimerEvent → List (Callback × Outcome) × List TimerEvent
  | _, [] => ([], [])
  | turn, e :: l =>
    if eventTimeUntil tick e ≤ 0 then
      let r := checkLoop tick tasks (turn + 1) l
      ((e.call, e.call.turn (tasks turn)) :: r.1, r.2)
    else ([], e :: l)

def eventsCheck (t : Timer) (tasks : ℕ → ℤ → TaskInfo) : Timer × List (Callback × Outcome) :=
  if !t.eventsActive then (t, [])
  else
    let r := checkLoop t.tick tasks 0 t.events
    ({ t with events := r.2 }, r.1)

def init : Timer := ⟨0, false, []⟩

end Timer

/-- A call of `events_add` or `events_check`, or a timer interrupt counting up. -/
inductive TimerOp where
  | add (delta : CInt) (c : Callback) (granted : Bool)
  | tick
  | check (tasks : ℕ → ℤ → TaskInfo)

def timerExec (t : Timer) : TimerOp → Timer × List (Callback × Outcome)
  | .add delta c granted => (t.eventsAdd delta c granted, [])
  | .tick => ({ t with tick := (t.tick + 1) % 2 ^ 32 }, [])
  | .check tasks => t.eventsCheck tasks

/-- What the queue is for: an event is pending with the tick it is due at, in whole numbers, and
events are kept in the order they were added. -/
structure Schedule where
  now : ℕ
  pending : List (ℤ × Callback)

namespace Schedule

/-- The events that are due, by due tick and then by age, and what is left. -/
def due (s : Schedule) : List (ℤ × Callback) :=
  Sorted.sort Prod.fst (s.pending.filter fun e => e.1 ≤ s.now)

def exec (s : Schedule) : TimerOp → Schedule × List (Callback × Outcome)
  | .add delta c granted =>
    (if granted then { s with pending := s.pending ++ [(s.now + delta.val, c)] } else s, [])
  | .tick => ({ s with now := s.now + 1 }, [])
  | .check tasks =>
    ({ s with pending := s.pending.filter fun e => !decide (e.1 ≤ s.now) },
      s.due.zipIdx.map fun e => (e.1.2, e.1.2.turn (tasks e.2)))

def init : Schedule := ⟨0, []⟩

end Schedule

/-- The `ticks` of `api_sleep`: a product and a quotient of 32 bits. -/
def sleepTicks (timerHz ms : ℕ) : ℕ := timerHz * ms % 2 ^ 32 / 1000

theorem sleepTicks_lt (timerHz ms : ℕ) :
    -2 ^ 31 ≤ (sleepTicks timerHz ms : ℤ) ∧ (sleepTicks timerHz ms : ℤ) < 2 ^ 31 := by
  unfold sleepTicks
  omega

/-- The event of `api_sleep`: `callback` is `api_sleep_callback`, which resumes the task that `msg`
points to. -/
def sleepCall (callback msg : ℕ) : Callback := ⟨callback, msg, -1, 0⟩

/-- `api_sleep` from where its task is paused and its message filled in. -/
def Timer.apiSleep (t : Timer) (timerHz ms callback msg : ℕ) (granted : Bool) : Timer :=
  t.eventsAdd ⟨sleepTicks timerHz ms, sleepTicks_lt timerHz ms⟩ (sleepCall callback msg) granted

end X86Kernel.Tasks
