import X86Kernel.Lib.Chain
import X86Kernel.Lib.FifoLock
import X86Kernel.Msg.Kernel

/-! The kernel mutex of `ksync.c`: two intrusive lists, the waiters of a mutex through the tasks and
the mutexes of a task through the mutexes. -/
namespace X86Kernel.Sync

open Msg (TaskId PauseReason totalTasks)

variable {n : ℕ}

abbrev Event (n : ℕ) := FifoLock.Event TaskId (Fin n)

/-- Tasks and `n` mutexes, field by field. `locking` and `holding` say where a task is: in the loop
of `kmutex_lock`, or past it and not past the unlock. -/
structure State (n : ℕ) where
  enabled : TaskId → Bool
  inSyscall : TaskId → Bool
  paused : TaskId → Bool
  pauseReason : TaskId → PauseReason
  mutex : TaskId → Option (Fin n)
  mutexNextWaiter : TaskId → Option TaskId
  ownedMutexes : TaskId → Option (Fin n)
  owner : Fin n → Option TaskId
  waiters : Fin n → Option TaskId
  waitersTail : Fin n → Option TaskId
  ownedNext : Fin n → Option (Fin n)
  locking : TaskId → Option (Fin n)
  holding : TaskId → Fin n → Bool
  panicked : Bool

namespace State

def taskPause (s : State n) (t : TaskId) (reason : PauseReason) : State n :=
  { s with
    paused := Function.update s.paused t true
    pauseReason := Function.update s.pauseReason t reason }

def taskResume (s : State n) (t : TaskId) : State n :=
  { s with
    paused := Function.update s.paused t false
    pauseReason := Function.update s.pauseReason t .none }

/-- The start of `kmutex_wait`, up to its `kernel_block`. -/
def kmutexWait (s : State n) (t : TaskId) (m : Fin n) : State n :=
  let next := Function.update s.mutexNextWaiter t none
  { s.taskPause t .ksync with
    mutex := Function.update s.mutex t (some m)
    mutexNextWaiter :=
      match s.waitersTail m with
      | some tail => Function.update next tail (some t)
      | none => next
    waiters :=
      match s.waitersTail m with
      | some _ => s.waiters
      | none => Function.update s.waiters m (some t)
    waitersTail := Function.update s.waitersTail m (some t) }

/-- A task becomes the owner, and the mutex heads its list. -/
def own (s : State n) (t : TaskId) (m : Fin n) : State n :=
  { s with
    owner := Function.update s.owner m (some t)
    ownedNext := Function.update s.ownedNext m (s.ownedMutexes t)
    ownedMutexes := Function.update s.ownedMutexes t (some m) }

/-- `kmutex_wake`, less the yield to the task that it wakes. -/
def kmutexWake (s : State n) (m : Fin n) : State n × List (Event n) :=
  match s.waiters m with
  | none => (s, [])
  | some t =>
    let waiters := s.mutexNextWaiter t
    let s' :=
      { s with
        waiters := Function.update s.waiters m waiters
        waitersTail := if waiters.isNone then Function.update s.waitersTail m none
        else s.waitersTail
        mutex := Function.update s.mutex t none
        mutexNextWaiter := Function.update s.mutexNextWaiter t none }
    ((s'.taskResume t).own t m, [.pass m t])

/-- The part of `kmutex_release` that takes the mutex off its owner's list. -/
def disown (s : State n) (t : TaskId) (m : Fin n) : State n :=
  let s' :=
    match Chain.search s.ownedNext m n none (s.ownedMutexes t) with
    | none => s
    | some prev =>
      { s with
        ownedNext := (Chain.bypass s.ownedNext (s.ownedMutexes t) m prev).1
        ownedMutexes :=
          Function.update s.ownedMutexes t (Chain.bypass s.ownedNext (s.ownedMutexes t) m prev).2 }
  { s' with
    ownedNext := Function.update s'.ownedNext m none
    owner := Function.update s'.owner m none }

def kmutexRelease (s : State n) (t : TaskId) (m : Fin n) : State n × List (Event n) :=
  (s.disown t m).kmutexWake m

def enter (s : State n) (t : TaskId) (m : Fin n) : State n :=
  { s with
    locking := Function.update s.locking t none
    holding := Function.update s.holding t (Function.update (s.holding t) m true) }

/-- The loop of `kmutex_lock`. -/
def lockLoop (s : State n) (t : TaskId) (m : Fin n) : State n × List (Event n) :=
  if s.owner m = some t then (s.enter t m, [])
  else ({ s.kmutexWait t m with locking := Function.update s.locking t (some m) }, [.arrive m t])

/-- `kmutex_lock`, up to where it blocks. -/
def kmutexLock (s : State n) (t : TaskId) (m : Fin n) : State n × List (Event n) :=
  if !s.inSyscall t then ({ s with panicked := true }, [])
  else if s.owner m = some t then ({ s with panicked := true }, [])
  else if s.owner m = none then ((s.own t m).enter t m, [])
  else s.lockLoop t m

/-- A task in `kmutex_lock` runs again: it waits on unless the mutex was handed to it. -/
def kmutexResumed (s : State n) (t : TaskId) : State n × List (Event n) :=
  match s.locking t with
  | none => (s, [])
  | some m => if (s.mutex t).isSome then (s.taskPause t .ksync, []) else s.lockLoop t m

def leave (s : State n) (t : TaskId) (m : Fin n) : State n :=
  { s with holding := Function.update s.holding t (Function.update (s.holding t) m false) }

/-- `kmutex_unlock` and `kmutex_unlock_yield`, which differ in who runs next only. -/
def kmutexUnlock (s : State n) (t : TaskId) (m : Fin n) : State n × Bool × List (Event n) :=
  if s.owner m ≠ some t then (s, false, [])
  else
    let r := (s.leave t m).kmutexRelease t m
    (r.1, true, r.2)

/-- The part of `ksync_cleanup_task` that takes the task off the queue it waits in. -/
def leaveQueue (s : State n) (t : TaskId) : State n × List (Event n) :=
  match s.mutex t with
  | none => (s, [])
  | some m =>
    let s' :=
      match Chain.search s.mutexNextWaiter t totalTasks none (s.waiters m) with
      | none => s
      | some prev =>
        { s with
          mutexNextWaiter := (Chain.bypass s.mutexNextWaiter (s.waiters m) t prev).1
          waiters :=
          Function.update s.waiters m (Chain.bypass s.mutexNextWaiter (s.waiters m) t prev).2
          waitersTail :=
            if s.waitersTail m = some t then Function.update s.waitersTail m prev
            else s.waitersTail }
    ({ s' with
        mutex := Function.update s'.mutex t none
        mutexNextWaiter := Function.update s'.mutexNextWaiter t none }, [.cancel m t])

/-- The loop of `ksync_cleanup_task`. -/
def releaseAll (t : TaskId) : ℕ → State n → State n × List (Event n)
  | 0, s => (s, [])
  | k + 1, s =>
    match s.ownedMutexes t with
    | none => (s, [])
    | some m =>
      let r := s.kmutexRelease t m
      ((releaseAll t k r.1).1, r.2 ++ (releaseAll t k r.1).2)

def ksyncCleanupTask (s : State n) (t : TaskId) : State n × List (Event n) :=
  let r := s.leaveQueue t
  ((releaseAll t n r.1).1, r.2 ++ (releaseAll t n r.1).2)

/-- The running task is the one whose kernel code this is. -/
def running (s : State n) (t : TaskId) : Bool := s.enabled t && !s.paused t && (s.locking t).isNone

end State

inductive Op (n : ℕ) where
  | lock (t : TaskId) (m : Fin n)
  | unlock (t : TaskId) (m : Fin n)
  | resumed (t : TaskId)
  | resume (t : TaskId)
  | pause (t : TaskId) (reason : PauseReason)
  | syscall (t : TaskId) (inSyscall : Bool)
  | startTask (t : TaskId)
  | endTask (t : TaskId)

/-- One step. A panic stops the kernel, and a task that ends leaves its code wherever it was. -/
def exec (s : State n) (op : Op n) : State n × List (Event n) :=
  if s.panicked then (s, [])
  else
    match op with
    | .lock t m => if s.running t then s.kmutexLock t m else (s, [])
    | .unlock t m =>
      if s.running t then ((s.kmutexUnlock t m).1, (s.kmutexUnlock t m).2.2) else (s, [])
    | .resumed t => if s.enabled t && !s.paused t then s.kmutexResumed t else (s, [])
    | .resume t => (s.taskResume t, [])
    | .pause t reason => if s.running t then (s.taskPause t reason, []) else (s, [])
    | .syscall t b =>
      if s.running t then ({ s with inSyscall := Function.update s.inSyscall t b }, []) else (s, [])
    | .startTask t =>
      if s.enabled t then (s, [])
      else
        ({ s with
            enabled := Function.update s.enabled t true
            inSyscall := Function.update s.inSyscall t false
            paused := Function.update s.paused t false
            pauseReason := Function.update s.pauseReason t .none
            mutex := Function.update s.mutex t none
            mutexNextWaiter := Function.update s.mutexNextWaiter t none
            ownedMutexes := Function.update s.ownedMutexes t none }, [])
    | .endTask t =>
      if s.enabled t then
        { s with
          enabled := Function.update s.enabled t false
          locking := Function.update s.locking t none
          holding := Function.update s.holding t fun _ => false }.ksyncCleanupTask t
      else (s, [])

def State.init (n : ℕ) : State n :=
  ⟨fun _ => false, fun _ => false, fun _ => false, fun _ => .none, fun _ => none, fun _ => none,
    fun _ => none,
    fun _ => none, fun _ => none, fun _ => none, fun _ => none, fun _ => none,
    fun _ _ => false, false⟩

end X86Kernel.Sync
