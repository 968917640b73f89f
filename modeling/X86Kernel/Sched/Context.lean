import X86Kernel.Msg.Notify

/-! Register contexts: the live frame of a system call, the saved registers of each task and those
it returns to from a callback, as `tasks.c` moves them. -/
namespace X86Kernel.Sched

open Msg

def taskEventMaxArgs : ℕ := 4

/-- `registers_t` without `ebx`. -/
structure Rest where
  ds : ℕ
  edi : ℕ
  esi : ℕ
  ebp : ℕ
  esp : ℕ
  edx : ℕ
  ecx : ℕ
  eax : ℕ
  errCode : ℕ
  eip : ℕ
  cs : ℕ
  eflags : ℕ
  useresp : ℕ
  ss : ℕ
  deriving DecidableEq, Repr

structure Regs where
  ebx : ℤ
  rest : Rest
  deriving DecidableEq, Repr

/-- The kernel with its registers. `frame` is what `regs` points at; the saved `ebx` of a task is in
the kernel's own state. `halted` is set by a panic, and by a switch that finds no task and goes on
to launch the idle process. -/
structure Cpu where
  kernel : Kernel
  current : TaskId
  frame : Regs
  rest : TaskId → Rest
  returnRegs : TaskId → Regs
  switching : Bool
  halted : Bool

namespace Cpu

/-- `tasks[t].registers`. -/
def saved (s : Cpu) (t : TaskId) : Regs := ⟨(s.kernel.tasks t).ebx, s.rest t⟩

/-- The registers task `t` goes on with. -/
def ctx (s : Cpu) (t : TaskId) : Regs := if t = s.current then s.frame else s.saved t

def routine (s : Cpu) (t : TaskId) : EventType := (s.kernel.tasks t).routine

def withKernel (s : Cpu) (kernel : Kernel) : Cpu := { s with kernel := kernel }

def save (s : Cpu) (t : TaskId) (r : Regs) : Cpu :=
  { s with
    kernel := s.kernel.modifyTask t fun task => { task with ebx := r.ebx }
    rest := Function.update s.rest t r.rest }

/-- The frame is saved for the task it belongs to, and loaded for the one that runs next. -/
def swapTo (s : Cpu) (t : TaskId) : Cpu :=
  if t = s.current then s else { s.save s.current s.frame with current := t, frame := s.saved t }

/-- `task_resumable` for a task that is not parked in the kernel. -/
def resumable (s : Cpu) (t : TaskId) : Bool := s.kernel.switchToTask t

/-- `next_task(false)`: round robin from the current task, itself last. -/
def nextTask (s : Cpu) : Option TaskId :=
  ((List.range totalTasks).map fun i =>
    (⟨(s.current.val + 1 + i) % totalTasks, Nat.mod_lt _ (by decide)⟩ : TaskId)).find? s.resumable

/-- `switch_task` with `resume` false. -/
def switchTask (s : Cpu) : Cpu :=
  if !s.switching then s
  else
    match s.nextTask with
    | none => { s with halted := true }
    | some t => s.swapTo t

/-- `switch_to_task`. -/
def switchToTask (s : Cpu) (t : TaskId) : Cpu × Bool :=
  if s.resumable t then (s.swapTo t, true) else (s, false)

/-- `task_exists`. -/
def taskExists (s : Cpu) : Bool :=
  (List.finRange totalTasks).any fun t => (s.kernel.tasks t).enabled && !(s.kernel.tasks t).paused

/-- `task_execute_subroutine`, in the current task. -/
def taskExecuteSubroutine (s : Cpu) (env : Env) (type : EventType) (addr : ℕ) (args : List ℕ) :
    Cpu × Bool :=
  if args.length > taskEventMaxArgs then ({ s with halted := true }, false)
  else if env.stackOk s.current then
    ({ s with
        kernel := s.kernel.modifyTask s.current fun task => { task with routine := type }
        returnRegs := Function.update s.returnRegs s.current s.frame
        frame :=
          { s.frame with
            rest :=
              { s.frame.rest with
                useresp := (s.frame.rest.useresp + 2 ^ 32 - 4 * (args.length + 1)) % 2 ^ 32
                eip := addr } } }, true)
  else (s, false)

/-- `crash_task`, with `regs` or without. -/
def crashTask (s : Cpu) (env : Env) (regs : Bool) (t : TaskId) : Cpu :=
  if (s.kernel.tasks t).enabled then
    let s := s.withKernel (s.kernel.crashTask env t)
    if regs && (t == s.current || !s.taskExists) then s.switchTask else s
  else s

/-- The loop of `task_execute_queued_subroutine`. -/
def executeQueued (env : Env) (t : TaskId) : ℕ → Cpu → Cpu × Bool
  | 0, s => (s, false)
  | n + 1, s =>
    match (s.kernel.tasks t).eventQueue with
    | [] => (s, false)
    | e :: _ =>
      if e.type = .msg ∧ e.arg 2 = 0 ∧ s.kernel.msgNotifIsStale t (e.arg 0) (e.arg 1) then
        executeQueued env t n (s.withKernel ((s.kernel.dropEvent t).msgRetryTaskNotifications t))
      else
        let r := s.switchToTask t
        if r.2 then
          let r := r.1.taskExecuteSubroutine env e.type e.addr e.args
          if r.2 then (r.1.withKernel ((r.1.kernel.dropEvent t).msgRetryTaskNotifications t), true)
          else (r.1.crashTask env false t, false)
        else (s, false)

def taskExecuteQueuedSubroutine (s : Cpu) (env : Env) (t : TaskId) : Cpu × Bool :=
  if s.routine t ≠ .none ∨ (s.kernel.tasks t).crashed then (s, false)
  else executeQueued env t Kernel.eventTurns s

def taskQueueSubroutine (s : Cpu) (t : TaskId) (type : EventType) (addr : ℕ) (args : List ℕ) :
    Cpu × Bool :=
  if args.length > taskEventMaxArgs then (s, false)
  else
    let r := s.kernel.taskQueueSubroutine t type addr args
    (s.withKernel r.1, r.2)

def taskCallSubroutine (s : Cpu) (env : Env) (t : TaskId) (type : EventType) (addr : ℕ)
    (args : List ℕ) :
    Cpu × Bool :=
  if !(s.kernel.tasks t).enabled then (s, false)
  else
    let s := s.withKernel (s.kernel.modifyTask t Task.unsnooze)
    if (s.kernel.tasks t).paused ∨ s.routine t ≠ .none ∨ (s.kernel.tasks t).kernelEsp.isSome then
      s.taskQueueSubroutine t type addr args
    else
      let r := s.switchToTask t
      if !r.2 then (r.1, false)
      else
        match (r.1.kernel.tasks t).eventQueue with
        | _ :: _ =>
          let q := r.1.taskQueueSubroutine t type addr args
          let e := q.1.taskExecuteQueuedSubroutine env q.1.current
          (if !e.2 && (e.1.kernel.tasks t).crashed then e.1.switchTask else e.1, q.2)
        | [] =>
          let e := r.1.taskExecuteSubroutine env type addr args
          if e.2 then (e.1, true) else (e.1.crashTask env true t, false)

/-- `task_subroutine_end`. -/
def taskSubroutineEnd (s : Cpu) (env : Env) : Cpu :=
  if s.routine s.current = .none then s
  else
    let s :=
      { s with
        frame := s.returnRegs s.current
        kernel := s.kernel.modifyTask s.current fun task => { task with routine := .none } }
    let s := (s.taskExecuteQueuedSubroutine env s.current).1
    let s := s.withKernel (s.kernel.msgRetryTaskNotifications s.current)
    if (s.kernel.tasks s.current).paused then s.switchTask else s

end Cpu

inductive Op where
  | switchTask
  | switchToTask (t : TaskId)
  | callSubroutine (env : Env) (t : TaskId) (type : EventType) (addr : ℕ) (args : List ℕ)
  | executeQueuedSubroutine (env : Env) (t : TaskId)
  | subroutineEnd (env : Env)
  | user (regs : Regs)
  | queueSubroutine (t : TaskId) (type : EventType) (addr : ℕ) (args : List ℕ)
  | pause (t : TaskId) (reason : PauseReason)
  | resume (t : TaskId)

/-- One step; `user` is the code of the current task, which comes back with any registers. Callbacks
are for events of some type. -/
def exec (s : Cpu) (op : Op) : Cpu :=
  if s.halted then s
  else
    match op with
    | .switchTask => s.switchTask
    | .switchToTask t => (s.switchToTask t).1
    | .callSubroutine env t type addr args =>
      if type = .none then s else (s.taskCallSubroutine env t type addr args).1
    | .executeQueuedSubroutine env t => (s.taskExecuteQueuedSubroutine env t).1
    | .subroutineEnd env => s.taskSubroutineEnd env
    | .user regs => { s with frame := regs }
    | .queueSubroutine t type addr args =>
      if type = .none then s else (s.taskQueueSubroutine t type addr args).1
    | .pause t reason => s.withKernel (s.kernel.modifyTask t fun task => task.pause reason)
    | .resume t => s.withKernel (s.kernel.modifyTask t Task.resume)

end X86Kernel.Sched
