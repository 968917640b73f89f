import X86Kernel.Kobj.Handles

/-! Handles in messages: `msg_do_copy` of `msg.c` duplicates the sender's handles into the receiver,
or none of them. -/
namespace X86Kernel.Kobj

/-- The errors of `msg_err_t` that a copy ends with. -/
inductive MsgErr where
  | limit | invalidBuf | invalidMsg | peerInvalidBuf | invalidHandles | peerInvalidHandles
  | peerInvalidMsg
  deriving DecidableEq

def MsgErr.code : MsgErr → ℤ
  | .limit => -7
  | .invalidBuf => -12
  | .invalidMsg => -21
  | .peerInvalidBuf => -23
  | .invalidHandles => -24
  | .peerInvalidHandles => -25
  | .peerInvalidMsg => -26

theorem MsgErr.code_neg (e : MsgErr) : e.code < 0 := by cases e <;> decide

/-- The fields of `msg_send_t`; `buffer` is whether it is set. -/
structure MsgSend where
  buffer : Bool
  size : ℤ
  handleCount : ℤ

/-- The fields of `msg_recv_t` that the receiver sets. -/
structure MsgRecv where
  bufferSize : ℤ
  handleCount : ℤ

/-- `msg_copy_receipt_t`. -/
structure Receipt where
  bytes : ℤ
  handles : ℤ
  senderStatus : ℤ
  receiverStatus : ℤ

/-- What the copies of user memory come to: how many bytes each returns for the size it is asked
for, the handles read from the sender, whether the receipt can be written, and which references can
be allocated. -/
structure Copies where
  bufferIn : ℤ → ℤ
  bufferOut : ℤ → ℤ
  handlesIn : ℤ → ℤ
  handles : ℕ → ℤ
  handlesOut : ℤ → ℤ
  receipt : Bool
  refMem : ℕ → Bool

namespace State

variable {ι : Type} [DecidableEq ι]

def msgFreeHandles (s : State ι) (p : ι) : List ℤ → State ι
  | [] => s
  | h :: handles => (s.processReleaseKobj p h).1.msgFreeHandles p handles

/-- The loop of `msg_do_copy` from handle `i` on, which overwrites `handles` in place: what it ends
with, and the result of the copy that failed. -/
def copyHandles (send receive : ι) (refMem : ℕ → Bool) :
    ℕ → ℕ → List ℤ → State ι → State ι × List ℤ × Option ℤ
  | 0, _, handles, s => (s, handles, none)
  | n + 1, i, handles, s =>
    let r := s.processCopyKobj send receive (handles.getD i 0) (refMem i)
    if r.2 < 0 then (r.1.msgFreeHandles receive (handles.take i), handles, some r.2)
    else copyHandles send receive refMem n (i + 1) (handles.set i r.2) r.1

theorem copyHandles_succ (send receive : ι) (refMem : ℕ → Bool) (n i : ℕ) (handles : List ℤ)
    (s : State ι) :
    copyHandles send receive refMem (n + 1) i handles s =
      if (s.processCopyKobj send receive (handles.getD i 0) (refMem i)).2 < 0 then
        ((s.processCopyKobj send receive (handles.getD i 0) (refMem i)).1.msgFreeHandles receive
          (handles.take i),
          handles, some (s.processCopyKobj send receive (handles.getD i 0) (refMem i)).2)
      else
        copyHandles send receive refMem n (i + 1)
          (handles.set i (s.processCopyKobj send receive (handles.getD i 0) (refMem i)).2)
          (s.processCopyKobj send receive (handles.getD i 0) (refMem i)).1 := rfl

/-- The copy of the message: its length, or how it failed. -/
def copyBuffer (sendMsg : MsgSend) (recvMsg : MsgRecv) (c : Copies) : Except Receipt ℤ :=
  if sendMsg.buffer then
    let copyLen := min recvMsg.bufferSize sendMsg.size
    if c.bufferIn copyLen ≠ copyLen then .error ⟨0, 0, MsgErr.invalidBuf.code, 0⟩
    else if c.bufferOut copyLen ≠ copyLen then
      .error ⟨0, 0, MsgErr.peerInvalidBuf.code, MsgErr.invalidBuf.code⟩
    else .ok copyLen
  else .ok 0

/-- `msg_do_copy`, with the handles that it has written to the receiver. -/
def msgDoCopy (s : State ι) (send receive : ι) (sendMsg : MsgSend) (recvMsg : MsgRecv)
    (c : Copies) :
    State ι × Receipt × List ℤ :=
  match copyBuffer sendMsg recvMsg c with
  | .error r => (s, r, [])
  | .ok bytes =>
    let n := min sendMsg.handleCount recvMsg.handleCount
    if 0 < n then
      let sz := n * 4
      if c.handlesIn sz ≠ sz then (s, ⟨bytes, 0, MsgErr.invalidHandles.code, 0⟩, [])
      else
        match copyHandles send receive c.refMem n.toNat 0
          ((List.range n.toNat).map c.handles) s with
        | (s, _, some h) =>
          if h = -2 then (s, ⟨bytes, 0, MsgErr.peerInvalidHandles.code, MsgErr.limit.code⟩, [])
          else (s, ⟨bytes, 0, MsgErr.invalidHandles.code, 0⟩, [])
        | (s, handles, none) =>
          if c.handlesOut sz ≠ sz then
            (s.msgFreeHandles receive (handles.take n.toNat),
              ⟨bytes, 0, MsgErr.peerInvalidHandles.code, MsgErr.invalidHandles.code⟩, [])
          else if c.receipt then (s, ⟨bytes, n, 0, 0⟩, handles.take n.toNat)
          else
            (s.msgFreeHandles receive (handles.take n.toNat),
              ⟨bytes, n, MsgErr.peerInvalidMsg.code, MsgErr.invalidMsg.code⟩, [])
    else if c.receipt then (s, ⟨bytes, 0, 0, 0⟩, [])
    else (s, ⟨bytes, 0, MsgErr.peerInvalidMsg.code, MsgErr.invalidMsg.code⟩, [])

/-- An instance with `n` more handles on it. -/
def opened (inst : Inst) (n : ℕ) : Inst :=
  { inst with refCount := inst.refCount + n, handleCount := inst.handleCount + n }

/-- `t` is `s` with the slots of `l` opened in `p`, on instances that had a handle. -/
structure Opened (s t : State ι) (p : ι) (l : List (Fin processMaxKobj × Ref)) : Prop where
  nodup : (l.map Prod.fst).Nodup
  free : ∀ x ∈ l, (s.procs p).kobj x.1 = none
  slot : ∀ x ∈ l, (t.procs p).kobj x.1 = some x.2
  others : ∀ q j, (q = p → j ∉ l.map Prod.fst) → (t.procs q).kobj j = (s.procs q).kobj j
  insts : ∀ i, t.objects.insts i = opened (s.objects.insts i) (l.countP fun x => x.2.inst = i)
  held : ∀ x ∈ l, 1 ≤ (s.objects.insts x.2.inst).refCount ∧
    1 ≤ (s.objects.insts x.2.inst).handleCount

omit [DecidableEq ι] in
theorem Opened.nil (s : State ι) (p : ι) : Opened s s p [] :=
  ⟨List.nodup_nil, by simp, by simp, fun _ _ _ => rfl, fun i => by simp [opened], by simp⟩

theorem createKobjRef_insts (o : Objects) (i k : ℕ) :
    (o.createKobjRef i).1.insts k = opened (o.insts k) (if i = k then 1 else 0) := by
  unfold Objects.createKobjRef Objects.kobjAddRef opened
  dsimp only [Objects.emit_insts]
  by_cases hk : k = i
  · subst hk
    simp
  · rw [Objects.modify_ne _ _ hk, Objects.modify_ne _ _ hk, if_neg (Ne.symm hk)]
    simp

/-- One more slot is opened. -/
theorem Opened.snoc {s t : State ι} {p : ι} {l : List (Fin processMaxKobj × Ref)}
    (h : Opened s t p l) {j : Fin processMaxKobj} (hfree : (t.procs p).kobj j = none) {i : ℕ}
    (hheld : 1 ≤ (s.objects.insts i).refCount ∧ 1 ≤ (s.objects.insts i).handleCount) :
    Opened s (t.openSlot p j (t.objects.createKobjRef i).1 (t.objects.createKobjRef i).2) p
      (l ++ [(j, (t.objects.createKobjRef i).2)]) := by
  have hj : j ∉ l.map Prod.fst := by
    intro hmem
    obtain ⟨x, hx, rfl⟩ := List.mem_map.mp hmem
    rw [h.slot x hx] at hfree
    exact absurd hfree (by simp)
  refine ⟨?_, ?_, ?_, ?_, ?_, ?_⟩
  · rw [List.map_append, List.nodup_append]
    exact ⟨h.nodup, List.nodup_singleton _, fun a ha b hb => by
      obtain rfl := List.mem_singleton.mp hb
      exact fun he => hj (he ▸ ha)⟩
  · intro x hx
    rcases List.mem_append.mp hx with hx | hx
    · exact h.free x hx
    · obtain rfl := List.mem_singleton.mp hx
      rw [← h.others p j fun _ => hj]
      exact hfree
  · intro x hx
    rw [openSlot_kobj]
    rcases List.mem_append.mp hx with hx' | hx
    · rw [if_neg, h.slot x hx']
      rintro ⟨-, rfl⟩
      exact hj (List.mem_map.mpr ⟨x, hx', rfl⟩)
    · obtain rfl := List.mem_singleton.mp hx
      rw [if_pos ⟨rfl, rfl⟩]
  · intro q j' hq
    rw [openSlot_kobj, if_neg]
    · refine h.others q j' fun hp hmem => hq hp ?_
      rw [List.map_append]
      exact List.mem_append_left _ hmem
    · rintro ⟨hp, rfl⟩
      exact hq hp (by simp)
  · intro k
    rw [openSlot_objects, createKobjRef_insts, h.insts k, List.countP_append]
    have hinst : (t.objects.createKobjRef i).2.inst = i := rfl
    unfold opened
    simp only [List.countP_cons, List.countP_nil, hinst, decide_eq_true_eq, Nat.zero_add]
    push_cast
    simp only [add_assoc]
  · intro x hx
    rcases List.mem_append.mp hx with hx | hx
    · exact h.held x hx
    · obtain rfl := List.mem_singleton.mp hx
      exact hheld

/-- Closing a handle that is not the last one. -/
theorem kobjRelease_insts (o : Objects) (i : ℕ) (hr : 2 ≤ (o.insts i).refCount)
    (hh : 2 ≤ (o.insts i).handleCount) (k : ℕ) : (o.kobjRelease i).insts k =
      if k = i then { o.insts i with
        refCount := (o.insts i).refCount - 1, handleCount := (o.insts i).handleCount - 1 }
      else o.insts k := by
  have hhandles :
      ¬((o.modify i fun x => { x with handleCount := x.handleCount - 1 }).insts i).handleCount =
      0 := by
    rw [Objects.modify_self]
    dsimp only
    omega
  have hrefs : ¬(((o.modify i fun x => { x with handleCount := x.handleCount - 1 }).modify i
      fun x => { x with refCount := x.refCount - 1 }).insts i).refCount = 0 := by
    rw [Objects.modify_self, Objects.modify_self]
    dsimp only
    omega
  unfold Objects.kobjRelease Objects.kobjReleaseRef
  dsimp only
  rw [if_neg hhandles, if_neg hrefs]
  by_cases hk : k = i
  · subst hk
    rw [if_pos rfl, Objects.modify_self, Objects.modify_self]
  · rw [if_neg hk, Objects.modify_ne _ _ hk, Objects.modify_ne _ _ hk]

/-- The first slot is closed again. -/
theorem Opened.close {s t : State ι} {p : ι} {l : List (Fin processMaxKobj × Ref)}
    {j : Fin processMaxKobj} {ref : Ref}
    (h : Opened s t p ((j, ref) :: l)) : Opened s (t.closeSlot p j ref) p l := by
  obtain ⟨hj, hnodup⟩ := List.nodup_cons.mp h.nodup
  refine ⟨hnodup, fun x hx => h.free x (.tail _ hx), ?_, ?_, ?_, fun x hx => h.held x (.tail _ hx)⟩
  · intro x hx
    rw [closeSlot_kobj, if_neg, h.slot x (.tail _ hx)]
    rintro ⟨-, rfl⟩
    exact hj (List.mem_map.mpr ⟨x, hx, rfl⟩)
  · intro q j' hq
    rw [closeSlot_kobj]
    split_ifs with he
    · obtain ⟨rfl, rfl⟩ := he
      exact (h.free (j', ref) (.head _)).symm
    · refine h.others q j' fun hp hmem => ?_
      rcases List.mem_cons.mp hmem with rfl | hmem
      · exact he ⟨hp, rfl⟩
      · exact hq hp hmem
  · intro k
    obtain ⟨hr, hh⟩ := h.held (j, ref) (.head _)
    have hinst := h.insts ref.inst
    have hpos : 0 < ((j, ref) :: l).countP fun x => x.2.inst = ref.inst := by
      rw [List.countP_cons_of_pos (by simp)]
      omega
    have hrefs : (t.objects.insts ref.inst).refCount =
        (s.objects.insts ref.inst).refCount + ((j, ref) :: l).countP fun x =>
          x.2.inst = ref.inst := by rw [hinst]; rfl
    have hhandles : (t.objects.insts ref.inst).handleCount =
        (s.objects.insts ref.inst).handleCount + ((j, ref) :: l).countP fun x =>
          x.2.inst = ref.inst := by
      rw [hinst]; rfl
    dsimp only at hr hh
    rw [closeSlot_objects, kobjRelease_insts _ _ (by omega) (by omega)]
    split_ifs with hk
    · subst hk
      rw [hinst]
      unfold opened
      rw [List.countP_cons_of_pos (by simp)]
      dsimp only
      push_cast
      congr 1 <;> omega
    · rw [h.insts k, List.countP_cons_of_neg (by simpa using Ne.symm hk)]

/-- Releasing the handles of all slots that were opened leads back. -/
theorem msgFreeHandles_opened {s t : State ι} {p : ι} {l : List (Fin processMaxKobj × Ref)}
    (h : Opened s t p l) :
    Opened s (t.msgFreeHandles p (l.map fun x => handleOf x.1 x.2)) p [] := by
  induction l generalizing t with
  | nil => exact h
  | cons x l ih =>
    obtain ⟨j, ref⟩ := x
    have hg : (t.procs p).getKobj (handleOf j ref) = some (j, ref) :=
      Process.getKobj_eq_some.mpr ⟨h.slot (j, ref) (.head _), rfl⟩
    show Opened s ((t.processReleaseKobj p (handleOf j ref)).1.msgFreeHandles p _) p []
    unfold processReleaseKobj
    rw [hg]
    exact ih h.close

omit [DecidableEq ι] in
theorem Opened.keeps {s t : State ι} {p : ι} {l : List (Fin processMaxKobj × Ref)}
    (h : Opened s t p l) {q : ι}
    {j : Fin processMaxKobj} {ref : Ref} (hk : (s.procs q).kobj j = some ref) :
      (t.procs q).kobj j = some ref := by
  rw [h.others q j, hk]
  rintro rfl hmem
  obtain ⟨x, hx, rfl⟩ := List.mem_map.mp hmem
  rw [h.free x hx] at hk
  exact absurd hk (by simp)

omit [DecidableEq ι] in
/-- Whatever is in a slot has a handle to count, also while slots are being opened. -/
theorem Opened.counted {s t : State ι} {p : ι} {l : List (Fin processMaxKobj × Ref)}
    (h : Opened s t p l) (hs : ∀ q j ref, (s.procs q).kobj j = some ref →
      1 ≤ (s.objects.insts ref.inst).refCount ∧ 1 ≤ (s.objects.insts ref.inst).handleCount)
    {q : ι} {j : Fin processMaxKobj} {ref : Ref} (hk : (t.procs q).kobj j = some ref) :
    1 ≤ (s.objects.insts ref.inst).refCount ∧ 1 ≤ (s.objects.insts ref.inst).handleCount := by
  by_cases hnew : q = p ∧ j ∈ l.map Prod.fst
  · obtain ⟨rfl, hmem⟩ := hnew
    obtain ⟨x, hx, rfl⟩ := List.mem_map.mp hmem
    rw [h.slot x hx] at hk
    obtain rfl := Option.some.inj hk
    exact h.held x hx
  · rw [h.others q j fun hq hmem => hnew ⟨hq, hmem⟩] at hk
    exact hs q j ref hk

/-- The handles of the slots opened. -/
def handlesOf (l : List (Fin processMaxKobj × Ref)) : List ℤ := l.map fun x => handleOf x.1 x.2

/-- A handle of `p` and a slot that are of one instance. -/
def SameInst (t : State ι) (p : ι) (h : ℤ) (x : Fin processMaxKobj × Ref) : Prop :=
  ∃ j ref, (t.procs p).getKobj h = some (j, ref) ∧ ref.inst = x.2.inst

/-- The loop, with the slots of `l` opened and `rest` still to come: all of it is undone, or every
handle of `rest` has a slot of its own. -/
theorem copyHandles_spec {s : State ι} (send receive : ι) (refMem : ℕ → Bool)
    (hs : ∀ q j ref, (s.procs q).kobj j = some ref →
      1 ≤ (s.objects.insts ref.inst).refCount ∧ 1 ≤ (s.objects.insts ref.inst).handleCount)
    (rest : List ℤ) (l : List (Fin processMaxKobj × Ref)) (t : State ι) (h : Opened s t receive l) :
    let out := copyHandles send receive refMem rest.length l.length (handlesOf l ++ rest) t
    (∃ e, out.2.2 = some e ∧ Opened s out.1 receive []) ∨
      ∃ m, out.2.2 = none ∧ out.2.1 = handlesOf (l ++ m) ∧ Opened s out.1 receive (l ++ m) ∧
        (∀ q j ref, (t.procs q).kobj j = some ref → (out.1.procs q).kobj j = some ref) ∧
        List.Forall₂ (SameInst out.1 send) rest m := by
  induction rest generalizing l t with
  | nil =>
    exact .inr ⟨[], rfl, by simp [copyHandles], by simpa [copyHandles] using h,
      fun _ _ _ hk => hk, .nil⟩
  | cons sent rest ih =>
    have hlen : (handlesOf l).length = l.length := List.length_map _
    have hget : (handlesOf l ++ sent :: rest).getD l.length 0 = sent := by
      rw [List.getD_eq_getElem?_getD, ← hlen, List.getElem?_append_right le_rfl]
      simp
    have htake : (handlesOf l ++ sent :: rest).take l.length = handlesOf l := by
      rw [← hlen, List.take_left]
    rw [List.length_cons, copyHandles_succ, hget, htake]
    rcases t.processCopyKobj_cases send receive sent (refMem l.length)
      with ⟨hsame, hneg⟩ | ⟨j, ref, j', hg, hfree, hcopy⟩
    · rw [if_pos hneg, hsame]
      exact .inl ⟨_, rfl, msgFreeHandles_opened h⟩
    · rw [hcopy]
      dsimp only
      rw [if_neg (not_lt.mpr (handleOf_nonneg _ _))]
      have hslot := (Process.getKobj_eq_some.mp hg).1
      have hopened := h.snoc hfree (h.counted hs hslot)
      generalize hx : (j', (t.objects.createKobjRef ref.inst).2) = x at hopened
      have hset : (handlesOf l ++ sent :: rest).set l.length
            (handleOf j' (t.objects.createKobjRef ref.inst).2) =
          handlesOf (l ++ [x]) ++ rest := by
        rw [← hlen, List.set_append_right _ _ le_rfl, ← hx]
        simp [handlesOf]
      rw [hset, show l.length + 1 = (l ++ [x]).length by simp]
      have hkept : ∀ q j ref', (t.procs q).kobj j = some ref' →
          ((t.openSlot receive j' (t.objects.createKobjRef ref.inst).1
            (t.objects.createKobjRef ref.inst).2).procs q).kobj
            j = some ref' := by
        intro q j ref' hk
        rw [openSlot_kobj, if_neg, hk]
        rintro ⟨rfl, rfl⟩
        rw [hk] at hfree
        exact absurd hfree (by simp)
      rcases ih (l ++ [x]) _ hopened with ⟨e, he, hback⟩ | ⟨m, hnone, hhandles, hall, hlater, hsame⟩
      · exact .inl ⟨e, he, hback⟩
      · rw [List.append_assoc] at hhandles hall
        refine .inr ⟨x :: m, hnone, hhandles, hall,
          fun q j ref' hk => hlater q j ref' (hkept q j ref' hk), ?_⟩
        refine .cons ⟨j, ref, Process.getKobj_eq_some.mpr ⟨?_, (Process.getKobj_eq_some.mp hg).2⟩,
          by rw [← hx]; rfl⟩ hsame
        exact hlater send j ref (hkept send j ref hslot)

/-- The handle tables and the instances are what they were. -/
structure Unchanged (s t : State ι) : Prop where
  table : ∀ p, (t.procs p).kobj = (s.procs p).kobj
  insts : t.objects.insts = s.objects.insts

omit [DecidableEq ι] in
theorem Opened.unchanged {s t : State ι} {p : ι} (h : Opened s t p []) : Unchanged s t :=
  ⟨fun q => funext fun j => h.others q j (by simp),
    funext fun i => by rw [h.insts i]; simp [opened]⟩

/-- The receiver has the handles `new` more than before, in the order of the handles sent and on
their instances; the sender's handles are what they were. -/
structure Passed (s t : State ι) (send receive : ι) (sent new : List ℤ) : Prop where
  instances : List.Forall₂ (fun h h' => ∃ j ref j' ref', (t.procs send).getKobj h = some (j, ref) ∧
    (t.procs receive).getKobj h' = some (j', ref') ∧ ref'.inst = ref.inst) sent new
  fresh : ∀ h ∈ new, (s.procs receive).getKobj h = none
  distinct : new.Nodup
  exactly : ∀ h, (t.procs receive).getKobj h ≠ none → (s.procs receive).getKobj h ≠ none ∨ h ∈ new
  sender : ∀ h found, (s.procs send).getKobj h = some found → (t.procs send).getKobj h = some found

omit [DecidableEq ι] in
theorem Opened.passed {s t : State ι} {send receive : ι} {l : List (Fin processMaxKobj × Ref)}
    {sent : List ℤ} (h : Opened s t receive l) (hsame : List.Forall₂ (SameInst t send) sent l) :
    Passed s t send receive sent (handlesOf l) := by
  refine ⟨?_, ?_, ?_, ?_, ?_⟩
  · refine List.forall₂_map_right_iff.mpr ?_
    have hslot := h.slot
    clear h
    induction hsame with
    | nil => exact .nil
    | @cons hd x sent l hx _ ih =>
      obtain ⟨j, ref, hg, hinst⟩ := hx
      refine .cons ⟨j, ref, x.1, x.2, hg, ?_, hinst.symm⟩ (ih fun y hy => hslot y (.tail _ hy))
      exact Process.getKobj_eq_some.mpr ⟨hslot x (.head _), rfl⟩
  · intro hd hmem
    obtain ⟨x, hx, rfl⟩ := List.mem_map.mp hmem
    rw [Option.eq_none_iff_forall_ne_some]
    rintro ⟨j, ref⟩ hg
    obtain ⟨hk, he⟩ := Process.getKobj_eq_some.mp hg
    obtain rfl := handleOf_slot he
    rw [h.free x hx] at hk
    exact absurd hk (by simp)
  · refine List.Nodup.of_map (fun hd : ℤ => hd % 0x10000) ?_
    have hindex : (handlesOf l).map (fun hd : ℤ => hd % 0x10000) = (l.map Prod.fst).map fun j =>
        (j.val : ℤ) := by
      unfold handlesOf
      rw [List.map_map, List.map_map]
      refine List.map_congr_left fun x _ => ?_
      have hj : x.1.val < 64 := x.1.isLt
      show handleOf x.1 x.2 % 0x10000 = (x.1.val : ℤ)
      unfold handleOf
      omega
    rw [hindex]
    exact h.nodup.map fun a b hab => Fin.ext (by simpa using hab)
  · intro hd hne
    obtain ⟨⟨j, ref⟩, hg⟩ := Option.ne_none_iff_exists'.mp hne
    obtain ⟨hk, rfl⟩ := Process.getKobj_eq_some.mp hg
    by_cases hmem : j ∈ l.map Prod.fst
    · obtain ⟨x, hx, rfl⟩ := List.mem_map.mp hmem
      rw [h.slot x hx] at hk
      obtain rfl := Option.some.inj hk
      exact .inr (List.mem_map.mpr ⟨x, hx, rfl⟩)
    · rw [h.others receive j fun _ => hmem] at hk
      exact .inl (by rw [Process.getKobj_eq_some.mpr ⟨hk, rfl⟩]; simp)
  · intro hd found hg
    obtain ⟨hk, hh⟩ := Process.getKobj_eq_some.mp hg
    exact Process.getKobj_eq_some.mpr ⟨h.keeps hk, hh⟩

omit [DecidableEq ι] in
/-- The instance of a reference counts it. -/
theorem Inv.counted [Fintype ι] {s : State ι} (hs : s.Inv) {q : ι} {j : Fin processMaxKobj}
    {ref : Ref} (hk : (s.procs q).kobj j = some ref) :
    1 ≤ (s.objects.insts ref.inst).refCount ∧ 1 ≤ (s.objects.insts ref.inst).handleCount := by
  have hpos := handles_pos hk
  have hle := s.handles_le_refs ref.inst
  obtain ⟨h1, h2⟩ := hs.counts ref.inst (by omega)
  omega

/-- The end of `msg_do_copy` once the message is copied. -/
theorem msgDoCopy_ok {s : State ι} {send receive : ι} {sendMsg : MsgSend} {recvMsg : MsgRecv}
    {c : Copies} {bytes : ℤ} (hbuffer : copyBuffer sendMsg recvMsg c = .ok bytes)
    (hs : ∀ q j ref, (s.procs q).kobj j = some ref →
      1 ≤ (s.objects.insts ref.inst).refCount ∧ 1 ≤ (s.objects.insts ref.inst).handleCount) :
    let out := s.msgDoCopy send receive sendMsg recvMsg c
    let n := (min sendMsg.handleCount recvMsg.handleCount).toNat
    (out.2.1.senderStatus < 0 ∧ Unchanged s out.1) ∨
      (out.2.1.senderStatus = 0 ∧ out.2.1.handles = n ∧
        Passed s out.1 send receive ((List.range n).map c.handles) out.2.2) := by
  unfold msgDoCopy
  rw [hbuffer]
  dsimp only
  generalize min sendMsg.handleCount recvMsg.handleCount = n
  have hnil := Opened.nil s receive
  by_cases hn : 0 < n
  · rw [if_pos hn]
    by_cases hin : c.handlesIn (n * 4) ≠ n * 4
    · rw [if_pos hin]
      exact .inl ⟨MsgErr.code_neg .invalidHandles, hnil.unchanged⟩
    rw [if_neg hin]
    have hloop :=
      copyHandles_spec send receive c.refMem hs ((List.range n.toNat).map c.handles) [] s hnil
    simp only [List.length_map, List.length_range, List.length_nil, handlesOf, List.map_nil,
      List.nil_append] at hloop
    generalize copyHandles send receive c.refMem n.toNat 0 ((List.range n.toNat).map c.handles) s =
      out at hloop
    obtain ⟨t, handles, failed⟩ := out
    rcases hloop with ⟨e, he, hback⟩ | ⟨l, hnone, hhandles, hopened, -, hsame⟩
    · -- the loop has undone what it did
      obtain rfl : failed = some e := he
      dsimp only at hback ⊢
      split_ifs
      · exact .inl ⟨MsgErr.code_neg .peerInvalidHandles, hback.unchanged⟩
      · exact .inl ⟨MsgErr.code_neg .invalidHandles, hback.unchanged⟩
    · obtain rfl : failed = none := hnone
      obtain rfl : handles = l.map fun x => handleOf x.1 x.2 := hhandles
      dsimp only at hopened hsame ⊢
      have hlen : n.toNat = (l.map fun x => handleOf x.1 x.2).length := by
        rw [List.length_map, ← hsame.length_eq, List.length_map, List.length_range]
      have htake : (l.map fun x => handleOf x.1 x.2).take n.toNat = l.map fun x =>
          handleOf x.1 x.2 := by
        rw [hlen, List.take_length]
      rw [htake]
      have hback := (msgFreeHandles_opened hopened).unchanged
      split_ifs with hout hreceipt
      · exact .inl ⟨MsgErr.code_neg .peerInvalidHandles, hback⟩
      · exact .inr ⟨rfl, (Int.toNat_of_nonneg hn.le).symm, hopened.passed hsame⟩
      · exact .inl ⟨MsgErr.code_neg .peerInvalidMsg, hback⟩
  · rw [if_neg hn]
    have hzero : n.toNat = 0 := by omega
    split_ifs with hreceipt
    · refine .inr ⟨rfl, by rw [hzero]; rfl, ?_⟩
      rw [hzero]
      exact hnil.passed .nil
    · exact .inl ⟨MsgErr.code_neg .peerInvalidMsg, hnil.unchanged⟩

end State

/-- A copy that fails leaves every handle table and every instance as it was, wherever it fails; one
that succeeds gives the receiver as many new handles as were sent and accepted. -/
theorem msgDoCopy_all_or_nothing {ι : Type} [Fintype ι] [DecidableEq ι] (ops : List (Op ι))
    (send receive : ι) (sendMsg : MsgSend) (recvMsg : MsgRecv) (c : Copies) :
    let s := (Machine.run exec (State.init : State ι) ops).1
    let out := s.msgDoCopy send receive sendMsg recvMsg c
    let n := (min sendMsg.handleCount recvMsg.handleCount).toNat
    (out.2.1.senderStatus < 0 → State.Unchanged s out.1) ∧
      (0 ≤ out.2.1.senderStatus → out.2.1.handles = n ∧
        State.Passed s out.1 send receive ((List.range n).map c.handles) out.2.2) := by
  intro s
  have hs : s.Inv := State.inv_run ops
  cases hbuffer : State.copyBuffer sendMsg recvMsg c with
  | error r =>
    have hneg : r.senderStatus < 0 := by
      unfold State.copyBuffer at hbuffer
      dsimp only at hbuffer
      split_ifs at hbuffer
      · obtain rfl := Except.error.inj hbuffer
        exact MsgErr.code_neg .invalidBuf
      · obtain rfl := Except.error.inj hbuffer
        exact MsgErr.code_neg .peerInvalidBuf
    unfold State.msgDoCopy
    rw [hbuffer]
    exact ⟨fun _ => ⟨fun _ => rfl, rfl⟩, fun h => absurd hneg (not_lt.mpr h)⟩
  | ok bytes =>
    rcases State.msgDoCopy_ok hbuffer (fun q j ref hk => hs.counted hk) with ⟨hneg, h⟩ | ⟨hzero, h⟩
    · exact ⟨fun _ => h, fun hpos => absurd hneg (not_lt.mpr hpos)⟩
    · exact ⟨fun hneg => absurd hneg (by rw [hzero]; exact lt_irrefl 0), fun _ => h⟩

end X86Kernel.Kobj
