import Mathlib
import X86Kernel.Lib.Run
import X86Kernel.Tasks.Kqueue

/-! The window manager's queue of events, where an event may be merged into the last one:
`wm_event`. -/
namespace X86Kernel.Gui

open Tasks (Kqueue)

inductive WmEventType where
  | mouseClick
  | mouseRightclick
  | mouseRelease
  | mouseHover
  | mouseDrag
  | mouseScroll
  | keyPress
  | keyRelease
  | taskCrash
  deriving DecidableEq

/-- `wm_event_t` -/
structure WmEvent where
  type : WmEventType
  x : BitVec 32
  y : BitVec 32
  relX : BitVec 32
  relY : BitVec 32
  c : UInt16
  deriving DecidableEq

def wmEventQueueSize : ℕ := 32

/-- The events that may be merged. -/
def WmEventType.merges (type : WmEventType) : Bool :=
  type == .mouseHover || type == .mouseDrag || type == .mouseScroll

namespace WmEvent

variable (e new : WmEvent)

/-- The last event with a new one merged into it, or `none` where they are kept apart. -/
def coalesce : Option WmEvent :=
  if e.type ≠ new.type then none
  else if new.type = .mouseHover then some { e with x := new.x, y := new.y }
  else if new.type = .mouseDrag then
    some { e with x := new.x, y := new.y, relX := e.relX + new.relX, relY := e.relY + new.relY }
  else if new.type = .mouseScroll ∧ e.y = new.y then
    if new.y = -1 then some { e with x := e.x + new.x } else some { e with x := new.x }
  else none

end WmEvent

/-- What becomes of an event: `wm_event` drops it where the queue is full. -/
inductive WmAnswer where
  | posted (e : WmEvent)
  | dropped (e : WmEvent)
  | handled (e : WmEvent)
  | idle

/-- `wm_event` without the wake-up. -/
def wmEvent (q : Kqueue WmEvent) (new : WmEvent) : Kqueue WmEvent × WmAnswer :=
  let merged : Option (Kqueue WmEvent) :=
    if new.type.merges && !q.empty then
      match q.last with
      | none => none
      | some i => ((q.buffer i).coalesce new).map (q.write i)
    else none
  match merged with
  | some q => (q, .posted new)
  | none =>
    match q.reserve with
    | none => (q, .dropped new)
    | some (i, q) => (q.write i new, .posted new)

/-- `kqueue_pop` in the loop of `wm_event_thread_main`. -/
def wmPop (q : Kqueue WmEvent) : Kqueue WmEvent × WmAnswer :=
  match q.peek with
  | none => (q, .idle)
  | some i => (q.drop, .handled (q.buffer i))

/-- A call of `wm_event` by an interrupt handler or a program, or a turn of the event thread. -/
inductive WmOp where
  | event (e : WmEvent)
  | next

def wmExec (q : Kqueue WmEvent) : WmOp → Kqueue WmEvent × WmAnswer
  | .event e => wmEvent q e
  | .next => wmPop q

/-- `wm_event_queue` at boot, on a buffer of any contents. -/
def wmEventQueue (buffer : ℕ → WmEvent) : Kqueue WmEvent := .init buffer wmEventQueueSize

def WmAnswer.accepted? : WmAnswer → Option WmEvent
  | .posted e => some e
  | _ => none

def WmAnswer.handled? : WmAnswer → Option WmEvent
  | .handled e => some e
  | _ => none

/-- The events that were not dropped, in order. -/
def accepted (history : List (WmOp × WmAnswer)) : List WmEvent :=
  history.filterMap fun h => h.2.accepted?

/-- The events that the handlers got, in order. -/
def handled (history : List (WmOp × WmAnswer)) : List WmEvent :=
  history.filterMap fun h => h.2.handled?

/-! ### What a merged event stands for -/

/-- The event `e` stands for the events `l` that were posted one after the other: the pointer is
where the last of them has it, a drag goes as far as all of them, and so does a scroll by steps; a
scroll of a window to a line goes to the last. -/
structure StandsFor (l : List WmEvent) (e : WmEvent) : Prop where
  ne : l ≠ []
  type : ∀ p ∈ l, p.type = e.type
  alone : e.type.merges = false → l = [e]
  pointer : e.type = .mouseHover ∨ e.type = .mouseDrag → ∀ p ∈ l.getLast?, e.x = p.x ∧ e.y = p.y
  drag : e.type = .mouseDrag → e.relX = (l.map WmEvent.relX).sum ∧ e.relY = (l.map WmEvent.relY).sum
  scroll : e.type = .mouseScroll → (∀ p ∈ l, p.y = e.y) ∧
    if e.y = -1 then e.x = (l.map WmEvent.x).sum else ∀ p ∈ l.getLast?, e.x = p.x

variable {l : List WmEvent} {e new c : WmEvent} {q : Kqueue WmEvent}

theorem standsFor_single (e : WmEvent) : StandsFor [e] e := by
  constructor
  · exact List.cons_ne_nil _ _
  · simp
  · exact fun _ => rfl
  · simp
  · simp
  · simp

theorem StandsFor.snoc (h : StandsFor l e) (hmerge : e.coalesce new = some c) :
    StandsFor (l ++ [new]) c := by
  obtain ⟨hne, htype, -, -, hdrag, hscroll⟩ := h
  have htypes : e.type = new.type → ∀ p ∈ l ++ [new], p.type = e.type := by
    intro hsame p hp
    rcases List.mem_append.mp hp with hp | hp
    · exact htype p hp
    · rw [List.mem_singleton.mp hp, hsame]
  have hwindows : (∀ p ∈ l, p.y = e.y) → e.y = new.y → ∀ p ∈ l ++ [new], p.y = e.y := by
    intro hall hsame p hp
    rcases List.mem_append.mp hp with hp | hp
    · exact hall p hp
    · rw [List.mem_singleton.mp hp, hsame]
  unfold WmEvent.coalesce at hmerge
  split_ifs at hmerge with hne' hover hdragged hscrolled hsteps
  · -- the pointer moves
    obtain rfl := Option.some.inj hmerge
    have hsame := not_not.mp hne'
    have he := hsame.trans hover
    constructor
    · simp
    · exact htypes hsame
    · simp [he, WmEventType.merges]
    · simp
    · simp [he]
    · simp [he]
  · -- a drag goes on
    obtain rfl := Option.some.inj hmerge
    have hsame := not_not.mp hne'
    have he := hsame.trans hdragged
    obtain ⟨hx, hy⟩ := hdrag he
    constructor
    · simp
    · exact htypes hsame
    · simp [he, WmEventType.merges]
    · simp
    · simp [hx, hy]
    · simp [he]
  · -- a scroll by steps goes on
    obtain rfl := Option.some.inj hmerge
    have hsame := not_not.mp hne'
    have he := hsame.trans hscrolled.1
    obtain ⟨hall, hsum⟩ := hscroll he
    have hy : e.y = -1 := hscrolled.2.trans hsteps
    rw [if_pos hy] at hsum
    constructor
    · simp
    · exact htypes hsame
    · simp [he, WmEventType.merges]
    · simp [he]
    · simp [he]
    · intro _
      rw [if_pos hy]
      exact ⟨hwindows hall hscrolled.2, by simp [hsum]⟩
  · -- a window is scrolled to another line
    obtain rfl := Option.some.inj hmerge
    have hsame := not_not.mp hne'
    have he := hsame.trans hscrolled.1
    obtain ⟨hall, -⟩ := hscroll he
    have hy : e.y ≠ -1 := fun hy => hsteps (hscrolled.2.symm.trans hy)
    constructor
    · simp
    · exact htypes hsame
    · simp [he, WmEventType.merges]
    · simp [he]
    · simp [he]
    · intro _
      rw [if_neg hy]
      exact ⟨hwindows hall hscrolled.2, by simp⟩

theorem merges_of_coalesce (h : e.coalesce new = some c) : new.type.merges = true := by
  unfold WmEvent.coalesce at h
  split_ifs at h with _ hover hdragged hscrolled
  · simp [hover, WmEventType.merges]
  · simp [hdragged, WmEventType.merges]
  · simp [hscrolled.1, WmEventType.merges]
  · simp [hscrolled.1, WmEventType.merges]

/-! ### The queue -/

/-- The queue has its size, and both ends are in it. -/
structure WmQueueOk (q : Kqueue WmEvent) : Prop where
  ok : q.Ok
  capacity : q.capacity = wmEventQueueSize

/-- What `wm_event` does: it merges, it adds, or there is no room. -/
inductive Posting (q : Kqueue WmEvent) (new : WmEvent) : Kqueue WmEvent × WmAnswer → Prop
  | merged {q' : Kqueue WmEvent} (front : List WmEvent) (last c : WmEvent)
      (hlist : q.toList = front ++ [last])
      (hmerge : last.coalesce new = some c) (hok : WmQueueOk q')
      (hlist' : q'.toList = front ++ [c]) :
      Posting q new (q', .posted new)
  | added {q' : Kqueue WmEvent} (hok : WmQueueOk q') (hlist' : q'.toList = q.toList ++ [new]) :
      Posting q new (q', .posted new)
  | full (hfull : q.toList.length = wmEventQueueSize)
      (hapart : ∀ last ∈ q.toList.getLast?, last.coalesce new = none) :
        Posting q new (q, .dropped new)

/-- The last element through the pointer to it. -/
theorem last_cases (h : q.Ok) :
    q.last = none ∧ q.toList = [] ∨ ∃ i front, q.last = some i ∧ i = q.nth (q.count - 1) ∧
    0 < q.count ∧ q.toList = front ++ [q.buffer i] := by
  rw [Kqueue.last_eq h]
  by_cases hcount : q.count = 0
  · rw [if_pos hcount]
    exact .inl ⟨rfl, List.eq_nil_of_length_eq_zero ((Kqueue.length_toList q).trans hcount)⟩
  · rw [if_neg hcount]
    right
    have hlt : q.count - 1 < q.toList.length := by
      rw [Kqueue.length_toList]
      omega
    have hne : q.toList ≠ [] := List.ne_nil_of_length_pos (by omega)
    refine ⟨_, q.toList.dropLast, rfl, rfl, Nat.pos_of_ne_zero hcount, ?_⟩
    rw [← Kqueue.getElem_toList h hlt]
    have hlast := List.dropLast_append_getLast hne
    rw [List.getLast_eq_getElem] at hlast
    simpa using hlast.symm

theorem wmEvent_posting (h : WmQueueOk q) (new : WmEvent) : Posting q new (wmEvent q new) := by
  obtain ⟨hok, hcapacity⟩ := h
  -- what happens where nothing is merged
  have hkept : (∀ last ∈ q.toList.getLast?, last.coalesce new = none) → Posting q new
      (match q.reserve with
        | none => (q, .dropped new)
        | some (i, q) => (q.write i new, .posted new)) := by
    intro hapart
    cases hreserve : q.reserve with
    | none =>
      have hfull := Kqueue.reserve_none.mp hreserve
      exact .full ((Kqueue.length_toList q).trans (hfull.trans hcapacity)) hapart
    | some r =>
      obtain ⟨hok', hlist, hcap⟩ := Kqueue.reserve_spec hok hreserve new
      exact .added ⟨hok', hcap.trans hcapacity⟩ hlist
  unfold wmEvent
  dsimp only
  by_cases hmay : (new.type.merges && !q.empty) = true
  · rw [if_pos hmay]
    rcases last_cases hok with ⟨hnone, hnil⟩ | ⟨i, front, hlast, hi, hpos, hlist⟩
    · rw [hnone]
      exact hkept (by simp [hnil])
    · rw [hlast]
      dsimp only
      cases hmerge : (q.buffer i).coalesce new with
      | none => exact hkept (by simp [hlist, hmerge])
      | some c =>
        obtain ⟨hok', hlist'⟩ := Kqueue.write_spec hok (n := q.count - 1) (by omega) c
        rw [← hi] at hok' hlist'
        refine .merged front _ c hlist hmerge ⟨hok', hcapacity⟩ ?_
        have hlength : q.count - 1 = front.length := by
          rw [← Kqueue.length_toList, hlist]
          simp
        rw [hlist', hlist, hlength]
        simp
  · rw [if_neg hmay]
    apply hkept
    intro last hmem
    by_contra hmerged
    obtain ⟨c, hc⟩ := Option.ne_none_iff_exists'.mp hmerged
    have hmerges := merges_of_coalesce hc
    apply hmay
    rw [hmerges, Bool.true_and]
    have hne : q.toList ≠ [] := by
      intro hnil
      rw [hnil] at hmem
      cases hmem
    have hcount : q.count ≠ 0 := by
      rw [← Kqueue.length_toList]
      exact fun hzero => hne (List.eq_nil_of_length_eq_zero hzero)
    have hempty := mt (Kqueue.empty_iff hok).mp hcount
    simpa using hempty

theorem wmPop_spec (h : WmQueueOk q) : wmPop q = (q, .idle) ∧ q.toList = [] ∨
    ∃ e q', wmPop q = (q', .handled e) ∧ WmQueueOk q' ∧ q.toList = e :: q'.toList := by
  unfold wmPop
  cases hpeek : q.peek with
  | none => exact .inl ⟨rfl, Kqueue.toList_of_peek_none h.ok hpeek⟩
  | some i =>
    obtain ⟨hok, hlist⟩ := Kqueue.drop_of_peek h.ok hpeek
    exact .inr ⟨_, _, rfl, ⟨hok, h.capacity⟩, hlist⟩

/-- Every event that was handled or waits stands for events that were accepted one after the other,
and together they are all that was accepted; a full queue is the only reason to drop one. -/
structure WmQueue (history : List (WmOp × WmAnswer)) (q : Kqueue WmEvent) : Prop where
  batches : ∃ batches, List.Forall₂ StandsFor batches (handled history ++ q.toList) ∧
    batches.flatten = accepted history
  drops : ∀ new, (wmEvent q new).2 = .dropped new ↔
    q.toList.length = wmEventQueueSize ∧ ∀ last ∈ q.toList.getLast?, last.coalesce new = none

/-- What is kept along a run. -/
structure WmKept (history : List (WmOp × WmAnswer)) (q : Kqueue WmEvent) : Prop where
  queue : WmQueueOk q
  batches : ∃ batches, List.Forall₂ StandsFor batches (handled history ++ q.toList) ∧
    batches.flatten = accepted history

theorem forall₂_snoc {ls : List (List WmEvent)} {es : List WmEvent}
    (h : List.Forall₂ StandsFor ls es)
    (hl : StandsFor l e) : List.Forall₂ StandsFor (ls ++ [l]) (es ++ [e]) :=
  List.rel_append h (.cons hl .nil)

/-- The last event of a queue, and the events it stands for. -/
theorem forall₂_last {ls : List (List WmEvent)} {es : List WmEvent}
    (h : List.Forall₂ StandsFor ls (es ++ [e])) :
    ∃ ls' l, ls = ls' ++ [l] ∧ List.Forall₂ StandsFor ls' es ∧ StandsFor l e := by
  have hfront := List.forall₂_take_append ls es [e] h
  have hrest := List.forall₂_drop_append ls es [e] h
  obtain ⟨l, tail, hl, hnil, hdrop⟩ := List.forall₂_cons_right_iff.mp hrest
  obtain rfl := List.forall₂_nil_right_iff.mp hnil
  exact ⟨ls.take es.length, l, by rw [← hdrop, List.take_append_drop], hfront, hl⟩

theorem handled_snoc (history : List (WmOp × WmAnswer)) (op : WmOp) (answer : WmAnswer) :
    handled (history ++ [(op, answer)]) = handled history ++ answer.handled?.toList :=
  Machine.filterMap_snoc _ _ _

theorem accepted_snoc (history : List (WmOp × WmAnswer)) (op : WmOp) (answer : WmAnswer) :
    accepted (history ++ [(op, answer)]) = accepted history ++ answer.accepted?.toList :=
  Machine.filterMap_snoc _ _ _

theorem WmKept.step {history : List (WmOp × WmAnswer)} (h : WmKept history q) (op : WmOp) :
    WmKept (history ++ [(op, (wmExec q op).2)]) (wmExec q op).1 := by
  obtain ⟨batches, hbatches, hflat⟩ := h.batches
  cases op with
  | event new =>
    have hposting := wmEvent_posting h.queue new
    change WmKept (history ++ [(.event new, (wmEvent q new).2)]) (wmEvent q new).1
    generalize wmEvent q new = r at hposting
    cases hposting with
    | merged front last c hlist hmerge hok hlist' =>
      rw [hlist, ← List.append_assoc] at hbatches
      obtain ⟨ls, l, rfl, hfront, hlast⟩ := forall₂_last hbatches
      refine ⟨hok, ls ++ [l ++ [new]], ?_, ?_⟩
      · rw [handled_snoc, hlist', ← List.append_assoc]
        simpa [WmAnswer.handled?] using forall₂_snoc hfront (hlast.snoc hmerge)
      · rw [accepted_snoc, ← hflat]
        simp [WmAnswer.accepted?]
    | added hok hlist' =>
      refine ⟨hok, batches ++ [[new]], ?_, ?_⟩
      · rw [handled_snoc, hlist', ← List.append_assoc]
        simpa [WmAnswer.handled?] using forall₂_snoc hbatches (standsFor_single new)
      · rw [accepted_snoc, ← hflat]
        simp [WmAnswer.accepted?]
    | full =>
      refine ⟨h.queue, batches, ?_, ?_⟩
      · simpa [handled_snoc, WmAnswer.handled?] using hbatches
      · simpa [accepted_snoc, WmAnswer.accepted?] using hflat
  | next =>
    change WmKept (history ++ [(.next, (wmPop q).2)]) (wmPop q).1
    rcases wmPop_spec h.queue with ⟨hpop, -⟩ | ⟨e, q', hpop, hok, hlist⟩
    · rw [hpop]
      refine ⟨h.queue, batches, ?_, ?_⟩
      · simpa [handled_snoc, WmAnswer.handled?] using hbatches
      · simpa [accepted_snoc, WmAnswer.accepted?] using hflat
    · rw [hpop]
      refine ⟨hok, batches, ?_, ?_⟩
      · rw [hlist] at hbatches
        simpa [handled_snoc, WmAnswer.handled?] using hbatches
      · simpa [accepted_snoc, WmAnswer.accepted?] using hflat

theorem drops_iff (h : WmQueueOk q) (new : WmEvent) : (wmEvent q new).2 = .dropped new ↔
    q.toList.length = wmEventQueueSize ∧ ∀ last ∈ q.toList.getLast?, last.coalesce new = none := by
  have hposting := wmEvent_posting h new
  generalize wmEvent q new = r at hposting
  cases hposting with
  | merged front last c hlist hmerge =>
    refine iff_of_false (by simp) fun hboth => ?_
    have hnone := hboth.2 last (by simp [hlist])
    rw [hmerge] at hnone
    cases hnone
  | added hok hlist' =>
    refine iff_of_false (by simp) fun hboth => ?_
    have hlength := congrArg List.length hlist'
    have hle := hok.ok.count_le
    rw [hok.capacity] at hle
    rw [Kqueue.length_toList, List.length_append, hboth.1, List.length_singleton] at hlength
    omega
  | full hfull hapart => exact iff_of_true rfl ⟨hfull, hapart⟩

/-- Over any order of events and turns of the event thread, no accepted event is lost, doubled or
overtaken. -/
theorem wmEvents_run (buffer : ℕ → WmEvent) (ops : List WmOp) :
    WmQueue (Machine.run wmExec (wmEventQueue buffer) ops).2
      (Machine.run wmExec (wmEventQueue buffer) ops).1 := by
  obtain ⟨hok, hnil⟩ := Kqueue.init_spec buffer (show 0 < wmEventQueueSize by decide)
  have hstart : WmKept [] (wmEventQueue buffer) := by
    refine ⟨⟨hok, rfl⟩, [], ?_, rfl⟩
    unfold wmEventQueue
    rw [hnil]
    exact .nil
  have hkept : WmKept (Machine.run wmExec (wmEventQueue buffer) ops).2
      (Machine.run wmExec (wmEventQueue buffer) ops).1 :=
    Machine.run_history hstart (fun _ _ op h => h.step op) ops
  exact ⟨hkept.batches, drops_iff hkept.queue⟩

end X86Kernel.Gui
