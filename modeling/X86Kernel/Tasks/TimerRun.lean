import X86Kernel.Tasks.Timer
import Mathlib.Data.List.TakeWhile

/-! Timer events over whole runs: the queue against the schedule that it is for, and how long
`api_sleep` sleeps. -/
namespace X86Kernel.Tasks

open Mem (int32)

/-- `int` holds the number that is in its range. -/
theorem int32_of_emod {x y : ℤ} (h : (x - y) % 2 ^ 32 = 0) (h1 : -2 ^ 31 ≤ y) (h2 : y < 2 ^ 31) :
    int32 x = y := by
  unfold int32 Int.bmod
  norm_num
  split_ifs <;> omega

namespace Timer

theorem placeAfter_eq (tick : ℕ) (event : TimerEvent) (l : List TimerEvent) :
    placeAfter tick event l = Sorted.insert (eventTimeUntil tick) event l := by
  induction l with
  | nil => rfl
  | cons next l ih => rw [placeAfter, Sorted.insert, ih]

/-- The event that `events_add` queues. -/
def newEvent (t : Timer) (delta : CInt) (c : Callback) : TimerEvent :=
  ⟨((t.tick + delta.val) % 2 ^ 32).toNat, c⟩

theorem eventsAdd_granted (t : Timer) (delta : CInt) (c : Callback) :
    t.eventsAdd delta c true =
      ⟨t.tick, true, Sorted.insert (eventTimeUntil t.tick) (t.newEvent delta c) t.events⟩ := by
  unfold eventsAdd newEvent
  rw [if_pos rfl]
  dsimp only
  cases t.events with
  | nil => rfl
  | cons first l =>
    dsimp only
    rw [placeAfter_eq, Sorted.insert]
    split_ifs <;> rfl

theorem checkLoop_eq (tick : ℕ) (tasks : ℕ → ℤ → TaskInfo) (turn : ℕ) (l : List TimerEvent) :
    checkLoop tick tasks turn l =
      (((l.takeWhile fun e => eventTimeUntil tick e ≤ 0).zipIdx turn).map
          fun e => (e.1.call, e.1.call.turn (tasks e.2)),
        l.dropWhile fun e => eventTimeUntil tick e ≤ 0) := by
  induction l generalizing turn with
  | nil => rfl
  | cons e l ih =>
    rw [checkLoop]
    by_cases he : eventTimeUntil tick e ≤ 0
    · rw [if_pos he, List.takeWhile_cons_of_pos (by simpa using he),
        List.dropWhile_cons_of_pos (by simpa using he), ih]
      rfl
    · rw [if_neg he, List.takeWhile_cons_of_neg (by simpa using he),
        List.dropWhile_cons_of_neg (by simpa using he)]
      rfl

end Timer

namespace Schedule

/-- The event of the queue. -/
def event (e : ℤ × Callback) : TimerEvent := ⟨(e.1 % 2 ^ 32).toNat, e.2⟩

/-- The queue holds the pending events by due tick, and each is within half a round of the
counter. -/
structure Rep (t : Timer) (s : Schedule) : Prop where
  tick : t.tick = s.now % 2 ^ 32
  near : ∀ e ∈ s.pending, -2 ^ 31 ≤ e.1 - s.now ∧ e.1 - s.now < 2 ^ 31
  events : t.events = (Sorted.sort Prod.fst s.pending).map event
  active : t.eventsActive = false → s.pending = []

theorem rep_init : Rep Timer.init init := ⟨rfl, by simp [init], rfl, fun _ => rfl⟩

/-- `event_time_until` tells how long it is until an event that is within half a round. -/
theorem eventTimeUntil_event {tick now : ℕ} (htick : tick = now % 2 ^ 32) {e : ℤ × Callback}
    (h1 : -2 ^ 31 ≤ e.1 - now) (h2 : e.1 - now < 2 ^ 31) :
      Timer.eventTimeUntil tick (event e) = e.1 - now := by
  unfold Timer.eventTimeUntil event
  refine int32_of_emod ?_ h1 h2
  dsimp only
  omega

theorem Rep.until {t : Timer} {s : Schedule} (h : Rep t s) {e : ℤ × Callback} (he : e ∈ s.pending) :
    Timer.eventTimeUntil t.tick (event e) = e.1 - s.now :=
  eventTimeUntil_event h.tick (h.near e he).1 (h.near e he).2

theorem Rep.add {t : Timer} {s : Schedule} (h : Rep t s) (delta : CInt) (c : Callback)
    (granted : Bool) :
    Rep (t.eventsAdd delta c granted) (s.exec (.add delta c granted)).1 := by
  cases granted with
  | false => exact ⟨h.tick, h.near, h.events, fun ha => absurd ha (by simp [Timer.eventsAdd])⟩
  | true =>
    rw [Timer.eventsAdd_granted]
    show Rep _ ⟨s.now, s.pending ++ [(s.now + delta.val, c)]⟩
    have hnear : ∀ e ∈ s.pending ++ [((s.now : ℤ) + delta.val, c)],
        -2 ^ 31 ≤ e.1 - s.now ∧ e.1 - s.now < 2 ^ 31 := by
      intro e he
      rcases List.mem_append.mp he with he | he
      · exact h.near e he
      · obtain rfl := List.mem_singleton.mp he
        have := delta.property
        dsimp only
        omega
    have hevent : t.newEvent delta c = event (s.now + delta.val, c) := by
      unfold Timer.newEvent event
      dsimp only
      rw [h.tick]
      congr 2
      push_cast
      omega
    refine ⟨h.tick, hnear, ?_, fun ha => absurd ha (by simp)⟩
    dsimp only
    rw [hevent, h.events, Sorted.insert_map Prod.fst event, Sorted.insert_sort]
    intro e he
    have hnew := hnear (s.now + delta.val, c) (by simp)
    rw [h.until ((Sorted.mem_sort _).mp he), eventTimeUntil_event h.tick hnew.1 hnew.2]
    constructor <;> intro hlt <;> omega

/-- A tick moves every event by one, unless one is overdue by half a round. -/
theorem Rep.step {t : Timer} {s : Schedule} (h : Rep t s)
    (hwrap : ∀ e ∈ t.events, Timer.eventTimeUntil t.tick e ≠ -2 ^ 31) :
    Rep { t with tick := (t.tick + 1) % 2 ^ 32 } (s.exec .tick).1 := by
  refine ⟨?_, ?_, h.events, h.active⟩
  · show (t.tick + 1) % 2 ^ 32 = (s.now + 1) % 2 ^ 32
    rw [h.tick]
    omega
  · intro e he
    have hmem : event e ∈ t.events := by
      rw [h.events]
      exact List.mem_map_of_mem ((Sorted.mem_sort _).mpr he)
    have hne := hwrap (event e) hmem
    rw [h.until he] at hne
    have hnear := h.near e he
    show -2 ^ 31 ≤ e.1 - ((s.now + 1 : ℕ) : ℤ) ∧ e.1 - ((s.now + 1 : ℕ) : ℤ) < 2 ^ 31
    push_cast
    omega

theorem Rep.check {t : Timer} {s : Schedule} (h : Rep t s) (tasks : ℕ → ℤ → TaskInfo) :
    Rep (t.eventsCheck tasks).1 (s.exec (.check tasks)).1 ∧
    (t.eventsCheck tasks).2 = (s.exec (.check tasks)).2 := by
  have hspan := Sorted.span_of_pairwise Prod.fst (Sorted.pairwise_sort Prod.fst s.pending)
    (p := fun e => Timer.eventTimeUntil t.tick (event e) ≤ 0) (t := (s.now : ℤ)) fun e he => by
      rw [decide_eq_true_eq, h.until ((Sorted.mem_sort _).mp he)]
      constructor <;> intro hle <;> omega
  have htake :
      t.events.takeWhile (fun e => Timer.eventTimeUntil t.tick e ≤ 0) = s.due.map event := by
    rw [h.events, List.takeWhile_map, due, Sorted.sort_filter, ← hspan.1]
    rfl
  have hdrop : t.events.dropWhile (fun e => Timer.eventTimeUntil t.tick e ≤ 0) =
      (Sorted.sort Prod.fst (s.pending.filter fun e => !decide (e.1 ≤ (s.now : ℤ)))).map event := by
    rw [h.events, List.dropWhile_map, Sorted.sort_filter, ← hspan.2]
    rfl
  unfold Timer.eventsCheck
  cases hactive : t.eventsActive with
  | false =>
    -- nothing was ever added
    have hnone := h.active hactive
    refine ⟨⟨h.tick, ?_, ?_, ?_⟩, ?_⟩
    · show ∀ e ∈ s.pending.filter _, _
      rw [hnone]
      simp
    · show t.events = (Sorted.sort Prod.fst (s.pending.filter _)).map event
      rw [h.events, hnone]
      rfl
    · intro _
      show s.pending.filter _ = []
      rw [hnone]
      rfl
    · show [] = s.due.zipIdx.map _
      unfold due
      rw [hnone]
      rfl
  | true =>
    dsimp only [Bool.not_true]
    rw [if_neg (by simp), Timer.checkLoop_eq, htake, hdrop]
    refine ⟨⟨h.tick, fun e he => h.near e (List.mem_of_mem_filter he), rfl, fun ha => ?_⟩, ?_⟩
    · exact absurd ha (by simp)
    · show ((s.due.map event).zipIdx).map _ = s.due.zipIdx.map _
      rw [List.zipIdx_map, List.map_map]
      rfl

end Schedule

/-- A tick finds no event that is overdue by half a round of the counter. -/
def TimerOp.NoWrap (t : Timer) : TimerOp → Prop
  | .tick => ∀ e ∈ t.events, Timer.eventTimeUntil t.tick e ≠ -2 ^ 31
  | _ => True

theorem Schedule.Rep.exec {t : Timer} {s : Schedule} (h : Rep t s) (op : TimerOp)
    (hop : op.NoWrap t) :
    Rep (timerExec t op).1 (s.exec op).1 ∧ (timerExec t op).2 = (s.exec op).2 := by
  cases op with
  | add delta c granted => exact ⟨h.add delta c granted, rfl⟩
  | tick => exact ⟨h.step hop, rfl⟩
  | check tasks => exact h.check tasks

/-- Every check takes the events that are due, in the order of their due ticks and of their age, and
leaves the others pending. -/
theorem events_on_time (ops : List TimerOp)
    (h : Machine.Along timerExec (fun t op => op.NoWrap t) Timer.init ops) :
    (Machine.run timerExec Timer.init ops).2 = (Machine.run Schedule.exec Schedule.init ops).2 ∧
      (Machine.run timerExec Timer.init ops).1.events =
        (Sorted.sort Prod.fst (Machine.run Schedule.exec Schedule.init ops).1.pending).map
          Schedule.event := by
  obtain ⟨hrep, hanswers⟩ :=
    Machine.run_simulates (fun _ _ op hR hop => hR.exec op hop) Schedule.rep_init h
  exact ⟨hanswers, hrep.events⟩

theorem events_on_time_two :
    let ops : List TimerOp :=
      [.add ⟨1, by decide⟩ ⟨7, 0, -1, 0⟩ true, .add ⟨-1, by decide⟩ ⟨8, 0, -1, 0⟩ true, .tick,
      .check fun _ _ => ⟨true, 0⟩]
    (Machine.run timerExec Timer.init ops).1.events = [] := by
  intro ops
  have hwrap : TimerOp.NoWrap (Machine.run timerExec Timer.init (ops.take 2)).1 .tick := by
    show ∀ e ∈ (Machine.run timerExec Timer.init (ops.take 2)).1.events, _
    decide +kernel
  have hok : Machine.Along timerExec (fun t op => op.NoWrap t) Timer.init ops :=
    ⟨trivial, trivial, hwrap, trivial, trivial⟩
  exact (events_on_time ops hok).2.trans (by decide +kernel)

/-- There is a check in the last `2 ^ 30` ticks, `elapsed` of them having gone since the last
one. -/
def CheckedEvery : ℕ → List TimerOp → Prop
  | _, [] => True
  | elapsed, .tick :: ops => elapsed < 2 ^ 30 ∧ CheckedEvery (elapsed + 1) ops
  | _, .check _ :: ops => CheckedEvery 0 ops
  | elapsed, .add .. :: ops => CheckedEvery elapsed ops

/-- An event that is far overdue when it is added is not taken by the check after the next tick. -/
theorem overdue_event_waits :
    let ops : List TimerOp :=
      [.add ⟨-2 ^ 31, by decide⟩ ⟨7, 0, -1, 0⟩ true, .tick, .check fun _ _ => ⟨true, 0⟩]
    CheckedEvery 0 ops ∧
      (Machine.run timerExec Timer.init ops).2.map Prod.snd ≠
      (Machine.run Schedule.exec Schedule.init ops).2.map Prod.snd := by
  refine ⟨⟨by norm_num, trivial⟩, ?_⟩
  decide +kernel

def TimerOp.NotFarOverdue : TimerOp → Prop
  | .add delta .. => -2 ^ 30 ≤ delta.val
  | _ => True

/-- With regular checks, no event gets overdue by half a round unless it was added overdue by a
quarter. -/
theorem noWrap_of_checkedEvery {ops : List TimerOp} {t : Timer} {s : Schedule} {elapsed : ℕ}
    (hrep : Schedule.Rep t s) (hlate : ∀ e ∈ s.pending, -2 ^ 30 - (elapsed : ℤ) ≤ e.1 - s.now)
    (hchecked : CheckedEvery elapsed ops) (hops : ∀ op ∈ ops, op.NotFarOverdue) :
      Machine.Along timerExec (fun t op => op.NoWrap t) t ops := by
  induction ops generalizing t s elapsed with
  | nil => trivial
  | cons op ops ih =>
    have hop := hops op (.head _)
    have hrest : ∀ op ∈ ops, op.NotFarOverdue := fun op' h => hops op' (.tail _ h)
    cases op with
    | add delta c granted =>
      refine ⟨trivial, ih (hrep.exec (.add delta c granted) trivial).1 ?_ hchecked hrest⟩
      have hdelta : -2 ^ 30 ≤ delta.val := hop
      intro e he
      cases granted with
      | false => exact hlate e he
      | true =>
        rcases List.mem_append.mp he with he | he
        · exact hlate e he
        · obtain rfl := List.mem_singleton.mp he
          show -2 ^ 30 - (elapsed : ℤ) ≤ s.now + delta.val - s.now
          omega
    | tick =>
      obtain ⟨helapsed, hchecked⟩ := hchecked
      have hwrap : TimerOp.NoWrap t .tick := by
        intro e he
        rw [hrep.events] at he
        obtain ⟨e, hmem, rfl⟩ := List.mem_map.mp he
        have hpending := (Sorted.mem_sort _).mp hmem
        rw [hrep.until hpending]
        have := hlate e hpending
        omega
      refine ⟨hwrap, ih (hrep.exec .tick hwrap).1 (fun e he => ?_) hchecked hrest⟩
      have := hlate e he
      show -2 ^ 30 - ((elapsed + 1 : ℕ) : ℤ) ≤ e.1 - ((s.now + 1 : ℕ) : ℤ)
      push_cast
      omega
    | check tasks =>
      refine ⟨trivial, ih (hrep.exec (.check tasks) trivial).1 (fun e he => ?_) hchecked hrest⟩
      have hfuture : ¬e.1 ≤ s.now := by simpa using (List.mem_filter.mp he).2
      show -2 ^ 30 - ((0 : ℕ) : ℤ) ≤ e.1 - s.now
      omega

section Sleep

/-- The number of ticks in a run. -/
def ticks (ops : List TimerOp) : ℕ :=
  ops.countP fun op => match op with | .tick => true | _ => false

/-- An event is not due before `n` ticks have passed, and it is pending until then whatever else
happens. -/
structure NotBefore (t : Timer) (e : TimerEvent) (n : ℕ) (t' : Timer) : Prop where
  due : ∀ d < n, 0 < Timer.eventTimeUntil ((t.tick + d) % 2 ^ 32) e
  pending : ∀ ops, ticks ops < n → e ∈ (Machine.run timerExec t' ops).1.events

/-- A run moves the counter by its ticks. -/
theorem run_tick (t : Timer) (ops : List TimerOp) :
    (Machine.run timerExec t ops).1.tick % 2 ^ 32 = (t.tick + ticks ops) % 2 ^ 32 := by
  induction ops generalizing t with
  | nil => rfl
  | cons op ops ih =>
    show (Machine.run timerExec (timerExec t op).1 ops).1.tick % 2 ^ 32 = _
    rw [ih]
    unfold ticks
    cases op with
    | add delta c granted =>
      have htick : (t.eventsAdd delta c granted).tick = t.tick := by
        cases granted with
        | false => rfl
        | true => rw [Timer.eventsAdd_granted]
      rw [List.countP_cons_of_neg (by simp)]
      show ((t.eventsAdd delta c granted).tick + _) % 2 ^ 32 = _
      rw [htick]
    | tick =>
      rw [List.countP_cons_of_pos (by simp)]
      show ((t.tick + 1) % 2 ^ 32 + _) % 2 ^ 32 = _
      omega
    | check tasks =>
      have htick : (t.eventsCheck tasks).1.tick = t.tick := by
        unfold Timer.eventsCheck
        split_ifs <;> rfl
      rw [List.countP_cons_of_neg (by simp)]
      show ((t.eventsCheck tasks).1.tick + _) % 2 ^ 32 = _
      rw [htick]

/-- `event_time_until` only sees the 32 bits of the counter. -/
theorem eventTimeUntil_mod (tick : ℕ) (e : TimerEvent) :
    Timer.eventTimeUntil (tick % 2 ^ 32) e = Timer.eventTimeUntil tick e := by
  unfold Timer.eventTimeUntil int32
  rw [← Int.emod_bmod (x := (e.time : ℤ) - (tick % 2 ^ 32 : ℕ)),
    ← Int.emod_bmod (x := (e.time : ℤ) - tick)]
  congr 1
  push_cast
  omega

/-- No step takes an event before its time. -/
theorem mem_events_exec {t : Timer} {e : TimerEvent} (he : e ∈ t.events)
    (hnot : 0 < Timer.eventTimeUntil t.tick e) (op : TimerOp) : e ∈ (timerExec t op).1.events := by
  cases op with
  | add delta c granted =>
    show e ∈ (t.eventsAdd delta c granted).events
    cases granted with
    | false => exact he
    | true =>
      rw [Timer.eventsAdd_granted]
      exact Sorted.mem_insert.mpr (.inr he)
  | tick => exact he
  | check tasks =>
    show e ∈ (t.eventsCheck tasks).1.events
    unfold Timer.eventsCheck
    split_ifs
    · exact he
    · dsimp only
      rw [Timer.checkLoop_eq]
      rw [← List.takeWhile_append_dropWhile
        (p := fun e => decide (Timer.eventTimeUntil t.tick e ≤ 0)) (l := t.events)] at he
      rcases List.mem_append.mp he with htaken | hleft
      · have := List.mem_takeWhile_imp htaken
        rw [decide_eq_true_eq] at this
        omega
      · exact hleft

theorem mem_events_run {e : TimerEvent} {tick n : ℕ}
    (hdue : ∀ d < n, 0 < Timer.eventTimeUntil ((tick + d) % 2 ^ 32) e)
    {t : Timer} {d : ℕ} (htick : t.tick % 2 ^ 32 = (tick + d) % 2 ^ 32) (he : e ∈ t.events)
    {ops : List TimerOp}
    (hops : d + ticks ops < n) : e ∈ (Machine.run timerExec t ops).1.events := by
  induction ops using List.reverseRecOn with
  | nil => exact he
  | append_singleton ops op ih =>
    have hcount : ticks ops ≤ ticks (ops ++ [op]) := by
      unfold ticks
      rw [List.countP_append]
      omega
    rw [Machine.run_snoc]
    refine mem_events_exec (ih (by omega)) ?_ op
    rw [← eventTimeUntil_mod, run_tick, ← Nat.mod_add_mod, htick, Nat.mod_add_mod, Nat.add_assoc]
    exact hdue _ (by omega)

/-- The event of `api_sleep` waits for the time asked for exactly if the product of the frequency
and the milliseconds fits 32 bits. -/
theorem apiSleep_notBefore_iff (t : Timer) (timerHz ms callback msg : ℕ) (granted : Bool) :
    (granted = true → NotBefore t
      (t.newEvent ⟨sleepTicks timerHz ms, sleepTicks_lt timerHz ms⟩ (sleepCall callback msg))
        (timerHz * ms / 1000) (t.apiSleep timerHz ms callback msg granted)) ↔
      granted = false ∨ timerHz * ms < 2 ^ 32 := by
  cases granted with
  | false => exact iff_of_true (fun h => absurd h (by simp)) (.inl rfl)
  | true =>
    generalize he :
      t.newEvent ⟨sleepTicks timerHz ms, sleepTicks_lt timerHz ms⟩ (sleepCall callback msg) = e
    have huntil : ∀ d : ℕ, d ≤ sleepTicks timerHz ms →
        Timer.eventTimeUntil ((t.tick + d) % 2 ^ 32) e = sleepTicks timerHz ms - d := by
      intro d hd
      have hlt := sleepTicks_lt timerHz ms
      rw [← he]
      unfold Timer.eventTimeUntil Timer.newEvent
      refine int32_of_emod ?_ (by omega) (by omega)
      dsimp only
      push_cast
      omega
    constructor
    · intro h
      refine .inr (not_le.mp fun hover => ?_)
      -- the product wraps, so that the event is due after fewer ticks
      have hshort : sleepTicks timerHz ms < timerHz * ms / 1000 := by
        unfold sleepTicks
        omega
      have hdue := (h rfl).due _ hshort
      rw [huntil _ le_rfl] at hdue
      omega
    · rintro (hfalse | hfit) -
      · exact absurd hfalse (by simp)
      have hticks : sleepTicks timerHz ms = timerHz * ms / 1000 := by
        unfold sleepTicks
        rw [Nat.mod_eq_of_lt hfit]
      have hdue :
          ∀ d < timerHz * ms / 1000, 0 < Timer.eventTimeUntil ((t.tick + d) % 2 ^ 32) e := by
        intro d hd
        rw [huntil d (by omega)]
        omega
      refine ⟨hdue, fun ops hops => ?_⟩
      unfold Timer.apiSleep
      rw [Timer.eventsAdd_granted, he]
      refine mem_events_run hdue (t := ⟨t.tick, true, _⟩) (d := 0) rfl
        (Sorted.mem_insert.mpr (.inl rfl)) ?_
      rwa [Nat.zero_add]

/-- At 1000 ticks a second, a sleep of 72 minutes ends at once. -/
theorem apiSleep_wraps : ¬NotBefore Timer.init
    (Timer.init.newEvent ⟨sleepTicks 1000 4294968, sleepTicks_lt 1000 4294968⟩ (sleepCall 1 1))
    (1000 * 4294968 / 1000) (Timer.init.apiSleep 1000 4294968 1 1 true) := by
  intro h
  have hdue := h.due 0 (by norm_num)
  revert hdue
  decide +kernel

end Sleep

end X86Kernel.Tasks
