import X86Kernel.Kobj.Objects
import X86Kernel.Msg.Kernel

/-! Futexes: `futex.c`, its two system calls, and the tasks that come and go around them. -/
namespace X86Kernel.Futex

open Msg (TaskId PauseReason)
open Kobj (Region Inst)

/-- `futex_waiter_t`. -/
structure Waiter where
  taskId : TaskId
  taskUid : ℕ
  processUid : ℕ
  keyAddr : ℕ
  deriving DecidableEq

/-- The fields of a task that futexes use. A process is its uid; `main` is whether the task is its
first thread, and `futexAddr` is where the task waited last. -/
structure Task where
  enabled : Bool
  taskUid : ℕ
  paused : Bool
  pauseReason : PauseReason
  process : ℕ
  main : Bool
  futexAddr : ℕ

/-- Tasks, the regions of each process, the objects mapped there, and the buckets. -/
structure State where
  tasks : TaskId → Task
  regions : ℕ → List Region
  insts : ℕ → Inst
  buckets : ℕ → List Waiter
  taskUidCounter : ℕ
  processUidCounter : ℕ

def privateHash (k : ℕ) : ℕ := (k >>> 2) % 256

namespace State

variable (s : State)

/-- `process_find_vm`. -/
def processFindVm (process vaddr : ℕ) : Option Region :=
  (s.regions process).find? fun r => r.covers vaddr

/-- `futex_key`: the process, 0 for shared memory, and the address. -/
def futexKey (process vaddr : ℕ) : ℕ × ℕ :=
  match s.processFindVm process vaddr with
  | some region =>
    if (s.insts region.inst).type = .shared then
      (0, ((s.insts region.inst).paddr + (vaddr - region.vaddr)) % 2 ^ 32)
    else (process, vaddr)
  | none => (process, vaddr)

def modifyTask (t : TaskId) (f : Task → Task) : State :=
  { s with tasks := Function.update s.tasks t (f (s.tasks t)) }

def setBucket (hash : ℕ) (waiters : List Waiter) : State :=
  { s with buckets := Function.update s.buckets hash waiters }

def taskPause (t : TaskId) (reason : PauseReason) : State :=
  s.modifyTask t fun x => { x with paused := true, pauseReason := reason }

def taskResume (t : TaskId) : State :=
  s.modifyTask t fun x => { x with paused := false, pauseReason := .none }

/-- `futex_wait` of task `t`; `val` is what its memory holds at the address, `none` if it cannot be
read, and `memory` is whether the waiter could be allocated. -/
def futexWait (t : TaskId) (futexAddr : ℕ) (val : Option ℕ) (expected : ℕ) (memory : Bool) :
    State × ℤ :=
  match val with
  | none => (s, -2)
  | some val =>
    if val ≠ expected then (s, 0)
    else if !memory then (s, -2)
    else
      let key := s.futexKey (s.tasks t).process futexAddr
      let hash := privateHash key.2
      ((s.setBucket hash
        (⟨t, (s.tasks t).taskUid, key.1, key.2⟩ :: s.buckets hash)).modifyTask t fun x =>
          { x with futexAddr := futexAddr }, -1)

/-- `api_futex_wait`. -/
def apiFutexWait (t : TaskId) (futexAddr : ℕ) (val : Option ℕ) (expected : ℕ) (memory : Bool) :
    State × ℤ :=
  let r := s.futexWait t futexAddr val expected memory
  if r.2 = -1 then (r.1.taskPause t .futex, 0) else if r.2 = -2 then (r.1, -1) else (r.1, 1)

/-- The task of a waiter is still the one that waited. -/
def Current (w : Waiter) : Prop :=
  (s.tasks w.taskId).enabled = true ∧ (s.tasks w.taskId).taskUid = w.taskUid

instance (w : Waiter) : Decidable (s.Current w) := inferInstanceAs (Decidable (_ ∧ _))

/-- The loop of `futex_wake`: what is left of the bucket, and the task found. -/
def wakeWalk (key : ℕ × ℕ) : List Waiter → List Waiter × Option TaskId
  | [] => ([], none)
  | w :: ws =>
    if s.Current w ∧ ¬(w.processUid, w.keyAddr) = key then
      (w :: (wakeWalk key ws).1, (wakeWalk key ws).2)
    else if s.Current w then (ws, some w.taskId)
    else wakeWalk key ws

/-- `futex_wake`, with the task that is resumed and switched to. -/
def futexWake (t : TaskId) (futexAddr : ℕ) : State × Option TaskId :=
  let key := s.futexKey (s.tasks t).process futexAddr
  let hash := privateHash key.2
  let r := s.wakeWalk key (s.buckets hash)
  match r.2 with
  | none => (s.setBucket hash r.1, none)
  | some t' => ((s.setBucket hash r.1).taskResume t', some t')

/-- A task ends, and with the main thread all of its process; the idle task does not. -/
def endTask (t : TaskId) : State :=
  if t.val = 0 ∨ (s.tasks t).enabled = false then s
  else if (s.tasks t).main then
    { s with
      tasks := fun t' => if (s.tasks t').process = (s.tasks t).process then
      { s.tasks t' with enabled := false }
        else s.tasks t'
      regions := Function.update s.regions (s.tasks t).process [] }
  else s.modifyTask t fun x => { x with enabled := false }

/-- A free slot is given to a new process, or to a new thread of `parent`. -/
def createTask (t : TaskId) (parent : Option TaskId) : State :=
  match parent with
  | none =>
    { s with
      tasks := Function.update s.tasks t
        ⟨true, s.taskUidCounter, false, .none, s.processUidCounter, true, 0⟩
      regions := Function.update s.regions s.processUidCounter []
      taskUidCounter := s.taskUidCounter + 1
      processUidCounter := s.processUidCounter + 1 }
  | some p =>
    { s with
      tasks := Function.update s.tasks t
        ⟨true, s.taskUidCounter, false, .none, (s.tasks p).process, false, 0⟩
      taskUidCounter := s.taskUidCounter + 1 }

/-- A task that makes system calls: it runs, and it is not of process 0, the idle process, which
only yields. -/
def Runs (t : TaskId) : Prop :=
  (s.tasks t).enabled = true ∧ (s.tasks t).paused = false ∧ (s.tasks t).process ≠ 0

instance (t : TaskId) : Decidable (s.Runs t) := inferInstanceAs (Decidable (_ ∧ _ ∧ _))

end State

inductive Op where
  | wait (t : TaskId) (futexAddr : ℕ) (val : Option ℕ) (expected : ℕ) (memory : Bool)
  | wake (t : TaskId) (futexAddr : ℕ)
  | endTask (t : TaskId)
  | create (t : TaskId) (parent : Option TaskId)

/-- One operation and the task it wakes. System calls are made by tasks that run, and slots are
given away when they are free. -/
def exec (s : State) : Op → State × Option TaskId
  | .wait t futexAddr val expected memory =>
    if s.Runs t then ((s.apiFutexWait t futexAddr val expected memory).1, none) else (s, none)
  | .wake t futexAddr => if s.Runs t then s.futexWake t futexAddr else (s, none)
  | .endTask t => (s.endTask t, none)
  | .create t parent =>
    if (s.tasks t).enabled = false ∧ (∀ p, parent = some p → (s.tasks p).enabled = true) then
      (s.createTask t parent, none)
    else (s, none)

end X86Kernel.Futex
