import X86Kernel.Lib.RoundRobin
import X86Kernel.Lib.Run
import X86Kernel.Msg.Kernel

/-! The round robin of `next_task` is fair: a task that can run waits for one turn of every other
task at most. -/
namespace X86Kernel.Sched

open Msg (TaskId Task Parked)

/-- What `next_task` reads. `idle` is set where `switch_task` finds no task and launches the idle
process. -/
structure Turns where
  tasks : TaskId → Task
  current : TaskId
  switching : Bool
  idle : Bool

namespace Turns

variable (s : Turns)

/-- `task_resumable` -/
def taskResumable (resumeKernel : Bool) (t : TaskId) : Bool :=
  (s.tasks t).enabled && !(s.tasks t).paused && (resumeKernel || (s.tasks t).kernelEsp.isNone)

/-- `next_task`: round robin from the current task, itself last. -/
def nextTask (resumeKernel : Bool) : Option TaskId :=
  RoundRobin.next (s.taskResumable resumeKernel) s.current

/-- A task goes on, in the kernel if it was parked there. -/
def goOn (t : TaskId) : Turns :=
  { s with current := t, tasks := Function.update s.tasks t { s.tasks t with kernelEsp := none } }

def park (t : TaskId) (parked : Parked) : Turns :=
  { s with tasks := Function.update s.tasks t { s.tasks t with kernelEsp := some parked } }

/-- `switch_task` -/
def switchTask (resume : Bool) : Turns :=
  if !s.switching then s
  else
    match s.nextTask resume with
    | none => { s with idle := true }
    | some t => s.goOn t

/-- `kernel_yield` of a task that can be parked, where the next one does not crash on the way. -/
def kernelYield (parked : Parked) : Turns :=
  match s.nextTask true with
  | none => s
  | some t => if t = s.current then s else (s.park s.current parked).goOn t

end Turns

/-- The turn of the timer, and of `api_yield`, is `switchTask true`. What happens between two turns
may do anything to the tasks: it pauses, resumes, parks, starts, ends and crashes them. -/
inductive Turn where
  | switchTask (resume : Bool)
  | kernelYield (parked : Parked)
  | work (tasks : TaskId → Task)

namespace Turn

def exec (s : Turns) : Turn → Turns
  | .switchTask resume => s.switchTask resume
  | .kernelYield parked => s.kernelYield parked
  | .work tasks => { s with tasks := tasks }

def isSwitch : Turn → Bool
  | .work _ => false
  | _ => true

/-- Whether a task that is parked in the kernel may have the turn. -/
def resumes : Turn → Bool
  | .switchTask resume => resume
  | _ => true

end Turn

namespace Turns

variable {s : Turns} {t : TaskId}

/-- The scheduler is on, and has always found a task. -/
structure Scheduling (s : Turns) : Prop where
  switching : s.switching = true
  busy : s.idle = false

/-- A turn goes to the task that `next_task` finds. -/
theorem Scheduling.turn (h : s.Scheduling) {a : Turn} (ha : a.isSwitch = true) {u : TaskId}
    (hu : s.nextTask a.resumes = some u) : (a.exec s).Scheduling ∧ (a.exec s).current = u := by
  cases a with
  | switchTask resume =>
    change s.nextTask resume = some u at hu
    change (s.switchTask resume).Scheduling ∧ (s.switchTask resume).current = u
    unfold switchTask
    rw [h.switching, hu]
    exact ⟨⟨h.switching, h.busy⟩, rfl⟩
  | kernelYield parked =>
    change s.nextTask true = some u at hu
    change (s.kernelYield parked).Scheduling ∧ (s.kernelYield parked).current = u
    unfold kernelYield
    rw [hu]
    dsimp only
    split_ifs with hself
    · exact ⟨h, hself.symm⟩
    · exact ⟨⟨h.switching, h.busy⟩, rfl⟩
  | work tasks => exact absurd ha Bool.false_ne_true

theorem Scheduling.work (h : s.Scheduling) {a : Turn} (ha : a.isSwitch = false) :
    (a.exec s).Scheduling ∧ (a.exec s).current = s.current := by
  cases a with
  | switchTask resume => exact absurd ha.symm Bool.false_ne_true
  | kernelYield parked => exact absurd ha.symm Bool.false_ne_true
  | work tasks => exact ⟨⟨h.switching, h.busy⟩, rfl⟩

/-- While a task stays resumable it only waits, and `switch_task` always finds one. -/
theorem Scheduling.waits (h : s.Scheduling) {l : List Turn}
    (hready : Machine.Along (fun s a => (Turn.exec s a, ()))
      (fun s a => s.taskResumable a.resumes t = true) s l) :
    RoundRobin.Waits Turn.exec current Turn.isSwitch (fun s a => s.taskResumable a.resumes) t s l ∧
      (l.foldl Turn.exec s).Scheduling := by
  induction l generalizing s with
  | nil => exact ⟨trivial, h⟩
  | cons a l ih =>
    obtain ⟨ht, hrest⟩ := hready
    obtain ⟨u, hnext, -⟩ := RoundRobin.next_of_ready s.current ht
    by_cases ha : a.isSwitch = true
    · obtain ⟨hstep, hcurrent⟩ := h.turn ha hnext
      obtain ⟨hwaits, hend⟩ := ih hstep hrest
      refine ⟨⟨ht, ?_, hwaits⟩, hend⟩
      rw [if_pos ha, hcurrent]
      exact hnext
    · obtain ⟨hstep, hcurrent⟩ := h.work (Bool.eq_false_iff.mpr ha)
      obtain ⟨hwaits, hend⟩ := ih hstep hrest
      refine ⟨⟨ht, ?_, hwaits⟩, hend⟩
      rw [if_neg ha]
      exact hcurrent

end Turns

/-- A task that stays resumable has its turn once there were more turns than there are tasks before
it, with no more turns before it than that, and the idle process is not launched. -/
theorem fair_run (s : Turns) (hs : s.Scheduling) (t : TaskId) (l : List Turn)
    (hready : Machine.Along (fun s a => (Turn.exec s a, ()))
      (fun s a => s.taskResumable a.resumes t = true) s l) :
    (RoundRobin.distance s.current t < l.countP Turn.isSwitch →
      ∃ p a q, l = p ++ a :: q ∧ a.isSwitch = true ∧
      ((p ++ [a]).foldl Turn.exec s).current = t ∧
      p.countP Turn.isSwitch ≤ RoundRobin.distance s.current t) ∧
    (l.foldl Turn.exec s).idle = false := by
  obtain ⟨hwaits, hend⟩ := hs.waits hready
  exact ⟨hwaits.served, hend.busy⟩

/-- Four tasks that can run, the second of them parked in the kernel. -/
def fourTasks : Turns where
  tasks t := if t.val < 4 then
    { Task.empty with enabled := true, kernelEsp := if t.val = 1 then some .other else none }
      else Task.empty
  current := ⟨0, by decide⟩
  switching := true
  idle := false

/-- Task 1 goes on in the kernel and yields to task 2, which is paused. -/
def threeTurns : List Turn :=
  [.switchTask true, .kernelYield .other,
    .work fun t => { Task.empty with enabled := decide (t.val < 4), paused := decide (t.val = 2) },
    .switchTask true]

theorem fair_run_threeTurns : ∃ p a q, threeTurns = p ++ a :: q ∧ a.isSwitch = true ∧
    ((p ++ [a]).foldl Turn.exec fourTasks).current = ⟨3, by decide⟩ ∧
    p.countP Turn.isSwitch ≤ 2 := by
  obtain ⟨hserved, -⟩ := fair_run fourTasks ⟨rfl, rfl⟩ ⟨3, by decide⟩ threeTurns (by decide +kernel)
  exact hserved (by decide +kernel)

end X86Kernel.Sched
