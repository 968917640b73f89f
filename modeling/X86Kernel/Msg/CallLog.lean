import X86Kernel.Msg.TalkTeardown

/-! What the answers so far say about the calls made, handed over and replied to, and how it agrees
with the calls the channels hold. -/
namespace X86Kernel.Msg

/-- The calls made, as their numbers with the client's; those handed over, with the `call_uid`; and
the `call_uid`s replied to. -/
structure CallLog where
  made : List (ℕ × ℕ)
  given : List (ℕ × ℕ)
  replied : List ℕ

namespace Talk

/-- The channels that store a call. -/
def storedCalls (k : Talk) : Finset ℕ :=
  (Finset.range k.channelBlocks).filter fun c =>
    (k.channels c).live = true ∧ (k.channels c).stored = true

/-- The log agrees with the calls in the channels. `N` is the `call_uid` given out next, before it
is cut to 32 bits. -/
structure Logged (k : Talk) (N : ℕ) (g : CallLog) : Prop where
  counter : k.callUidCounter = N % 2 ^ 32
  pos : 0 < N
  stored : ∀ c, (k.channels c).live = true → (k.channels c).stored = true →
    (k.channels c).callNo ∉ g.given.map Prod.fst ∧
      ((k.channels c).callNo, ((k.channels c).party false).2) ∈ g.made
  stored_inj : ∀ c c', (k.channels c).live = true → (k.channels c').live = true →
    (k.channels c).stored = true → (k.channels c').stored = true →
    (k.channels c).callNo = (k.channels c').callNo → c = c'
  called : ∀ c, (k.channels c).live = true → (k.channels c).callUid ≠ 0 →
    ((k.channels c).callNo, (k.channels c).callUid) ∈ g.given ∧
      ((k.channels c).callNo, ((k.channels c).party false).2) ∈ g.made ∧
        (k.channels c).callUid ∉ g.replied
  made_no : (g.made.map Prod.fst).Nodup
  made_lt : ∀ x ∈ g.made, x.1 < k.callCounter
  given_no : (g.given.map Prod.fst).Nodup
  given_made : ∀ n ∈ g.given.map Prod.fst, n ∈ g.made.map Prod.fst
  given_uid : (g.given.map Prod.snd).Nodup
  given_lt : ∀ u ∈ g.given.map Prod.snd, u < N
  replied_given : ∀ u ∈ g.replied, u ∈ g.given.map Prod.snd
  replied_nodup : g.replied.Nodup

variable {k k' : Talk} {X : TaskId → Prop} {N : ℕ} {g : CallLog}

theorem mem_storedCalls (h : k.Bounded) {c : ℕ} :
    c ∈ k.storedCalls ↔ (k.channels c).live = true ∧ (k.channels c).stored = true := by
  unfold storedCalls
  rw [Finset.mem_filter, Finset.mem_range]
  exact ⟨And.right, fun hc => ⟨h.channel c hc.1, hc⟩⟩

theorem Fewer.storedCalls_subset (h : Fewer k k') (hb : k.Bounded) :
    k'.storedCalls ⊆ k.storedCalls := by
  intro c hc
  obtain ⟨hl, hs⟩ := (Finset.mem_filter.mp hc).2
  obtain ⟨hl', hs', -⟩ := h.stored c hl hs
  exact (mem_storedCalls hb).mpr ⟨hl', hs'⟩

/-- Dropping calls leaves the log right. -/
theorem Logged.fewer (h : k.Logged N g) (hf : Fewer k k') : k'.Logged N g := by
  refine ⟨hf.callUidCounter.trans h.counter, h.pos, fun c hl hs => ?_,
    fun c c' hl hl' hs hs' he => ?_,
    fun c hl hu => ?_, h.made_no, fun x hx => ?_, h.given_no, h.given_made, h.given_uid, h.given_lt,
    h.replied_given, h.replied_nodup⟩
  · obtain ⟨hl', hs', hn, hp⟩ := hf.stored c hl hs
    rw [hn, hp]
    exact h.stored c hl' hs'
  · obtain ⟨hl1, hs1, hn, -⟩ := hf.stored c hl hs
    obtain ⟨hl2, hs2, hn', -⟩ := hf.stored c' hl' hs'
    rw [hn, hn'] at he
    exact h.stored_inj c c' hl1 hl2 hs1 hs2 he
  · obtain ⟨hl', hu', hn, hp⟩ := hf.called c hl hu
    rw [hu'] at hu ⊢
    rw [hn, hp]
    exact h.called c hl' hu
  · rw [hf.callCounter]
    exact h.made_lt x hx

/-- A `call_uid` is used up. -/
theorem Logged.tick (h : k.Logged N g) :
    ({ k with callUidCounter := (k.callUidCounter + 1) % 2 ^ 32 } : Talk).Logged (N + 1) g := by
  refine ⟨?_, Nat.succ_pos N, h.stored, h.stored_inj, h.called, h.made_no, h.made_lt, h.given_no,
    h.given_made,
    h.given_uid, fun u hu => Nat.lt_succ_of_lt (h.given_lt u hu), h.replied_given, h.replied_nodup⟩
  rw [h.counter, Nat.mod_add_mod]

theorem nodup_snoc {α : Type} {l : List α} {a : α} (h : l.Nodup) (ha : a ∉ l) : (l ++ [a]).Nodup :=
  List.nodup_append.mpr ⟨h, List.nodup_singleton a, fun x hx y hy => by
    rw [List.mem_singleton.mp hy]
    exact fun he => ha (he ▸ hx)⟩

/-- A call is stored in a channel. -/
theorem Logged.make (h : k.Logged N g) (c : ℕ) (ch : ChannelTalk) (hno : ch.callNo = k.callCounter)
    (hu : ch.callUid = 0) :
    ({ k.setChannel c ch with callCounter := k.callCounter + 1 } : Talk).Logged N
      { g with made := g.made ++ [(k.callCounter, (ch.party false).2)] } := by
  have hfresh : k.callCounter ∉ g.made.map Prod.fst := by
    intro hm
    obtain ⟨x, hx, he⟩ := List.mem_map.mp hm
    exact absurd (h.made_lt x hx) (by rw [he]; exact lt_irrefl _)
  have hold : ∀ c', (k.channels c').live = true → (k.channels c').stored = true →
      (k.channels c').callNo ≠ k.callCounter := by
    intro c' hl hs he
    exact hfresh (he ▸ List.mem_map.mpr ⟨_, (h.stored c' hl hs).2, rfl⟩)
  refine ⟨h.counter, h.pos, fun c' hl hs => ?_, fun c' c'' hl hl' hs hs' he => ?_,
    fun c' hl hu' => ?_, ?_,
    fun x hx => ?_, h.given_no, fun n hn => ?_, h.given_uid, h.given_lt, h.replied_given,
    h.replied_nodup⟩
  · dsimp only at hl hs ⊢
    by_cases hc : c' = c
    · subst hc
      rw [channels_setChannel_self, hno]
      exact ⟨fun hm => hfresh (h.given_made _ hm),
        List.mem_append_right _ (List.mem_singleton.mpr rfl)⟩
    · rw [channels_setChannel_of_ne k hc] at hl hs ⊢
      exact ⟨(h.stored c' hl hs).1, List.mem_append_left _ (h.stored c' hl hs).2⟩
  · dsimp only at hl hl' hs hs' he
    by_cases hc : c' = c <;> by_cases hc' : c'' = c
    · exact hc.trans hc'.symm
    · subst hc
      rw [channels_setChannel_of_ne k hc'] at hl' hs' he
      rw [channels_setChannel_self, hno] at he
      exact absurd he.symm (hold c'' hl' hs')
    · subst hc'
      rw [channels_setChannel_of_ne k hc] at hl hs he
      rw [channels_setChannel_self, hno] at he
      exact absurd he (hold c' hl hs)
    · rw [channels_setChannel_of_ne k hc] at hl hs he
      rw [channels_setChannel_of_ne k hc'] at hl' hs' he
      exact h.stored_inj c' c'' hl hl' hs hs' he
  · dsimp only at hl hu' ⊢
    by_cases hc : c' = c
    · subst hc
      rw [channels_setChannel_self] at hu'
      exact absurd hu hu'
    · rw [channels_setChannel_of_ne k hc] at hl hu' ⊢
      obtain ⟨h1, h2, h3⟩ := h.called c' hl hu'
      exact ⟨h1, List.mem_append_left _ h2, h3⟩
  · rw [List.map_append]
    exact nodup_snoc h.made_no hfresh
  · rcases List.mem_append.mp hx with hx | hx
    · exact Nat.lt_succ_of_lt (h.made_lt x hx)
    · rw [List.mem_singleton.mp hx]
      exact Nat.lt_succ_self _
  · rw [List.map_append]
    exact List.mem_append_left _ (h.given_made n hn)

/-- A stored call is handed over. -/
theorem Logged.take (h : k.Logged N g) {c : ℕ} (hl : (k.channels c).live = true)
    (hs : (k.channels c).stored = true) :
    ({ k.setChannel c { k.channels c with stored := false, callUid := N } with
        callUidCounter := (k.callUidCounter + 1) % 2 ^ 32 } : Talk).Logged (N + 1)
      { g with given := g.given ++ [((k.channels c).callNo, N)] } := by
  obtain ⟨hnew, hmade⟩ := h.stored c hl hs
  have hfresh : N ∉ g.given.map Prod.snd := fun hm => absurd (h.given_lt N hm) (lt_irrefl N)
  have hother : ∀ c', c' ≠ c → ∀ ch, (k.setChannel c ch).channels c' = k.channels c' :=
    fun c' hc ch => channels_setChannel_of_ne k hc ch
  have hne :
        ∀ c',
        ((k.setChannel c { k.channels c with stored := false, callUid := N }).channels c').stored =
        true →
      c' ≠ c := by
    rintro c' hs' rfl
    rw [channels_setChannel_self] at hs'
    exact absurd hs' (by simp)
  refine ⟨?_, Nat.succ_pos N, fun c' hl' hs' => ?_, fun c' c'' hl' hl'' hs' hs'' he => ?_,
    fun c' hl' hu' => ?_,
    h.made_no, h.made_lt, ?_, fun n hn => ?_, ?_, fun u hu => ?_, fun u hu => ?_, h.replied_nodup⟩
  · show (k.callUidCounter + 1) % 2 ^ 32 = _
    rw [h.counter, Nat.mod_add_mod]
  · dsimp only at hl' hs' ⊢
    have hc := hne c' hs'
    rw [hother c' hc] at hl' hs' ⊢
    obtain ⟨h1, h2⟩ := h.stored c' hl' hs'
    refine ⟨?_, h2⟩
    rw [List.map_append, List.mem_append, not_or]
    refine ⟨h1, fun hm => hc (h.stored_inj c' c hl' hl hs' hs ?_)⟩
    simpa using hm
  · dsimp only at hl' hl'' hs' hs'' he
    have hc := hne c' hs'
    have hc' := hne c'' hs''
    rw [hother c' hc] at hl' hs' he
    rw [hother c'' hc'] at hl'' hs'' he
    exact h.stored_inj c' c'' hl' hl'' hs' hs'' he
  · dsimp only at hl' hu' ⊢
    by_cases hc : c' = c
    · subst hc
      rw [channels_setChannel_self]
      exact ⟨List.mem_append_right _ (List.mem_singleton.mpr rfl), hmade,
        fun hm => hfresh (h.replied_given N hm)⟩
    · rw [hother c' hc] at hl' hu' ⊢
      obtain ⟨h1, h2, h3⟩ := h.called c' hl' hu'
      exact ⟨List.mem_append_left _ h1, h2, h3⟩
  · rw [List.map_append]
    exact nodup_snoc h.given_no hnew
  · rw [List.map_append, List.mem_append] at hn
    rcases hn with hn | hn
    · exact h.given_made n hn
    · rw [List.mem_singleton.mp hn]
      exact List.mem_map.mpr ⟨_, hmade, rfl⟩
  · rw [List.map_append]
    exact nodup_snoc h.given_uid hfresh
  · rw [List.map_append, List.mem_append] at hu
    rcases hu with hu | hu
    · exact Nat.lt_succ_of_lt (h.given_lt u hu)
    · rw [List.mem_singleton.mp hu]
      exact Nat.lt_succ_self N
  · rw [List.map_append]
    exact List.mem_append_left _ (h.replied_given u hu)

/-- A call is answered: no channel holds its `call_uid` any more. -/
theorem Logged.answer (h : k.Logged N g) (hC : k.Calling X N) (hf : Fewer k k') {c : ℕ}
    (hl : (k.channels c).live = true) (hu : (k.channels c).callUid ≠ 0)
    (hgone : (k'.channels c).callUid = 0) :
    k'.Logged N { g with replied := g.replied ++ [(k.channels c).callUid] } := by
  have h' := h.fewer hf
  refine ⟨h'.counter, h'.pos, h'.stored, h'.stored_inj, fun c' hl' hu' => ?_, h'.made_no,
    h'.made_lt, h'.given_no,
    h'.given_made, h'.given_uid, h'.given_lt, fun u hu' => ?_,
    nodup_snoc h.replied_nodup (h.called c hl hu).2.2⟩
  · obtain ⟨h1, h2, h3⟩ := h'.called c' hl' hu'
    refine ⟨h1, h2, ?_⟩
    rw [List.mem_append, not_or]
    refine ⟨h3, fun hm => ?_⟩
    obtain ⟨hl1, hu1, -⟩ := hf.called c' hl' hu'
    have he : (k.channels c').callUid = (k.channels c).callUid :=
      hu1.symm.trans (List.mem_singleton.mp hm)
    obtain rfl := hC.uid_inj c' c hl1 hl (he ▸ hu) he
    exact hu' hgone
  · rcases List.mem_append.mp hu' with hu' | hu'
    · exact h.replied_given u hu'
    · rw [List.mem_singleton.mp hu']
      exact List.mem_map.mpr ⟨_, (h.called c hl hu).1, rfl⟩

/-- All that a run keeps: who waits for whom, the log, and no more `call_uid`s than calls. -/
def Kept (k : Talk) (calls : ℕ) (g : CallLog) : Prop :=
  ∃ N, k.Ok (fun _ => False) N ∧ k.Logged N g ∧ N + k.storedCalls.card ≤ 1 + calls

variable {calls : ℕ}

theorem Kept.eased (h : k.Kept calls g)
    (he : ∀ N, k.Ok (fun _ => False) N → Eased (fun _ => False) N k k') :
    k'.Kept calls g := by
  obtain ⟨N, hok, hlog, hb⟩ := h
  have he' := he N hok
  have hcard := Finset.card_le_card (he'.fewer.storedCalls_subset hok.bounded)
  exact ⟨N, he'.ok, hlog.fewer he'.fewer, by omega⟩

theorem Kept.more (h : k.Kept calls g) : k.Kept (calls + 1) g := by
  obtain ⟨N, hok, hlog, hb⟩ := h
  exact ⟨N, hok, hlog, by omega⟩

theorem Ok.counters (h : k.Ok X N) (u n : ℕ) :
    Ok X N { k with callUidCounter := u, callCounter := n } :=
  ⟨⟨h.calling.ending, h.calling.connected, h.calling.named, h.calling.client, h.calling.single,
    h.calling.one,
    h.calling.held, h.calling.uid_lt, h.calling.uid_inj⟩, ⟨h.waiting.waits, h.waiting.inj⟩,
    ⟨h.blocking.waits, h.blocking.inj⟩,
    ⟨h.bounded.party, h.bounded.owner, h.bounded.waiter, h.bounded.channel⟩⟩

/-- A call that is refused uses a `call_uid` up. -/
theorem Kept.tick (h : k.Kept calls g) :
    ({ k with callUidCounter := (k.callUidCounter + 1) % 2 ^ 32 } : Talk).Kept (calls + 1) g := by
  obtain ⟨N, hok, hlog, hb⟩ := h
  refine ⟨N + 1, (hok.counters _ k.callCounter).mono (Nat.le_succ N), hlog.tick, ?_⟩
  have : ({ k with callUidCounter := (k.callUidCounter + 1) % 2 ^ 32 } : Talk).storedCalls =
      k.storedCalls := rfl
  rw [this]
  omega

/-- No call is on a channel whose client runs. -/
theorem Ok.idle (h : k.Ok (fun _ => False) N) {c : ℕ} (hl : (k.channels c).live = true)
    (hwait : k.wait ((k.channels c).party false).1 = none) : ¬(k.channels c).Busy := by
  intro hb
  have := (h.calling.client c hl hb id).2
  rw [hwait] at this
  exact absurd this (by simp)

section Call

variable {c : ℕ} {t : TaskId} (hl : (k.channels c).live = true)
  (ht : (k.channels c).party false = (t, (k.tasks t).taskUid)) (hen : (k.tasks t).enabled = true)
  (hwait : k.wait t = none) (hconn : ∀ d, (k.channels c).connected d = true)
include hl ht hen hwait hconn

/-- A running client's call is stored in its channel. -/
theorem Kept.store (h : k.Kept calls g) :
    ({ (k.setWait t (some .call)).setChannel c
      { k.channels c with stored := true, callNo := k.callCounter } with
        callCounter := k.callCounter + 1 } : Talk).Kept (calls + 1)
      { g with made := g.made ++ [(k.callCounter, (k.tasks t).taskUid)] } := by
  obtain ⟨N, hok, hlog, hb⟩ := h
  have hidle := hok.idle hl (by rw [ht]; exact hwait)
  have hu : (k.channels c).callUid = 0 := by
    by_contra hu
    exact hidle (.inr hu)
  set ch : ChannelTalk := { k.channels c with stored := true, callNo := k.callCounter } with hch
  have hok' : Ok (fun _ => False) N ((k.setWait t (some .call)).setChannel c ch) :=
    hok.occupy ch hl ht hen hwait hconn rfl rfl rfl rfl (.inl rfl) (fun _ => hu) le_rfl fun hx =>
      absurd hu hx
  have hlog' := (hlog.fewer (.setWait k t (some .call))).make c ch rfl hu
  have hp : (ch.party false).2 = (k.tasks t).taskUid := congrArg Prod.snd ht
  rw [hp] at hlog'
  refine ⟨N, hok'.counters k.callUidCounter (k.callCounter + 1), hlog', ?_⟩
  have hsub :
        ({ (k.setWait t (some .call)).setChannel c ch with callCounter := k.callCounter + 1 } :
      Talk).storedCalls ⊆ insert c k.storedCalls := by
    intro c' hc'
    obtain ⟨hlt, hc'⟩ := Finset.mem_filter.mp hc'
    by_cases he : c' = c
    · exact Finset.mem_insert.mpr (.inl he)
    · dsimp only at hc'
      rw [channels_setChannel_of_ne _ he] at hc'
      exact Finset.mem_insert_of_mem (Finset.mem_filter.mpr ⟨hlt, hc'⟩)
  have hcard := (Finset.card_le_card hsub).trans (Finset.card_insert_le c k.storedCalls)
  omega

/-- A running client's call is handed to a waiter at once. -/
theorem Kept.hand (h : k.Kept calls g) (hcalls : calls + 1 < 2 ^ 32) :
    ({ (k.setWait t (some .call)).setChannel c
          { k.channels c with callUid := k.callUidCounter, callNo := k.callCounter } with
        callUidCounter := (k.callUidCounter + 1) % 2 ^ 32
        callCounter := k.callCounter + 1 } : Talk).Kept (calls + 1)
      { g with
        made := g.made ++ [(k.callCounter, (k.tasks t).taskUid)]
        given := g.given ++ [(k.callCounter, k.callUidCounter)] } := by
  obtain ⟨N, hok, hlog, hb⟩ := h
  have hN : k.callUidCounter = N := by
    rw [hlog.counter]
    exact Nat.mod_eq_of_lt (by omega)
  have hidle := hok.idle hl (by rw [ht]; exact hwait)
  have hs : (k.channels c).stored = false := by
    by_contra hs
    exact hidle (.inl (by simpa using hs))
  have hu : (k.channels c).callUid = 0 := by
    by_contra hu
    exact hidle (.inr hu)
  set ch : ChannelTalk :=
    { k.channels c with callUid := k.callUidCounter, callNo := k.callCounter } with hch
  have hok' : Ok (fun _ => False) (N + 1) ((k.setWait t (some .call)).setChannel c ch) := by
    refine hok.occupy ch hl ht hen hwait hconn rfl rfl rfl rfl (.inr ?_) (fun hx => ?_)
      (Nat.le_succ N) fun _ =>
        ⟨hN, Nat.lt_succ_self N⟩
    · show k.callUidCounter ≠ 0
      have := hlog.pos
      omega
    · exact absurd (hs.symm.trans hx) (by simp)
  -- in the log, the call is made and taken up
  have hlog1 := (hlog.fewer (.setWait k t (some .call))).make c
    ({ k.channels c with stored := true, callNo := k.callCounter }) rfl hu
  have hlog2 := hlog1.take (c := c) (by simpa [setChannel] using hl) (by simp [setChannel])
  have hp : ((k.channels c).party false).2 = (k.tasks t).taskUid := congrArg Prod.snd ht
  have hends :
      ({ k.channels c with stored := false, callUid := N, callNo := k.callCounter } : ChannelTalk) =
      ch := by
    simp only [hch, hN, hs]
  refine ⟨N + 1, hok'.counters _ _, ?_, ?_⟩
  · simp only [setChannel, Function.update_self, Function.update_idem, hp] at hlog2 ⊢
    rw [← hends]
    nth_rewrite 2 [hN]
    exact hlog2
  · have hsub : ({ (k.setWait t (some .call)).setChannel c ch with
        callUidCounter := (k.callUidCounter + 1) % 2 ^ 32, callCounter := k.callCounter + 1 } :
        Talk).storedCalls ⊆ k.storedCalls := by
      intro c' hc'
      obtain ⟨hlt, hc'⟩ := Finset.mem_filter.mp hc'
      dsimp only at hc'
      by_cases he : c' = c
      · subst he
        rw [channels_setChannel_self] at hc'
        exact Finset.mem_filter.mpr ⟨hlt, hc'⟩
      · rw [channels_setChannel_of_ne _ he] at hc'
        exact Finset.mem_filter.mpr ⟨hlt, hc'⟩
    have hcard := Finset.card_le_card hsub
    omega

end Call

/-- The channels that store a call once this one does not. -/
theorem card_storedCalls_lt (k' : Talk) (hb : k.Bounded) {c : ℕ} (hl : (k.channels c).live = true)
    (hs : (k.channels c).stored = true)
    (hsub : ∀ c' ∈ k'.storedCalls, c' ≠ c ∧ c' ∈ k.storedCalls) :
    k'.storedCalls.card + 1 ≤ k.storedCalls.card := by
  have hc : c ∈ k.storedCalls := (mem_storedCalls hb).mpr ⟨hl, hs⟩
  have hcard := Finset.card_le_card fun c' hc' => Finset.mem_erase.mpr (hsub c' hc')
  rw [Finset.card_erase_of_mem hc] at hcard
  have hpos := Finset.card_pos.mpr ⟨c, hc⟩
  omega

theorem mem_storedCalls_setChannel {c : ℕ} (ch : ChannelTalk) (hch : ch.stored = false) :
    ∀ c' ∈ (k.setChannel c ch).storedCalls, c' ≠ c ∧ c' ∈ k.storedCalls := by
  intro c' hc'
  obtain ⟨hlt, hc'⟩ := Finset.mem_filter.mp hc'
  have he : c' ≠ c := by
    rintro rfl
    rw [channels_setChannel_self, hch] at hc'
    exact absurd hc'.2 (by simp)
  rw [channels_setChannel_of_ne _ he] at hc'
  exact ⟨he, Finset.mem_filter.mpr ⟨hlt, hc'⟩⟩

/-- A stored call is taken up. -/
theorem Kept.take (h : k.Kept calls g) (hcalls : calls < 2 ^ 32) {c : ℕ}
    (hl : (k.channels c).live = true) (hs : (k.channels c).stored = true) :
    k.callUidCounter ≠ 0 ∧
    ({ k.setChannel c { k.channels c with stored := false, callUid := k.callUidCounter } with
        callUidCounter := (k.callUidCounter + 1) % 2 ^ 32 } : Talk).Kept calls
      { g with given := g.given ++ [((k.channels c).callNo, k.callUidCounter)] } := by
  obtain ⟨N, hok, hlog, hb⟩ := h
  have hlt := card_storedCalls_lt _ hok.bounded hl hs
    (mem_storedCalls_setChannel ({ k.channels c with stored := false, callUid := N }) rfl)
  have hN : k.callUidCounter = N := by
    rw [hlog.counter]
    exact Nat.mod_eq_of_lt (by omega)
  have hpos := hlog.pos
  refine ⟨by omega, N + 1, ?_, ?_, ?_⟩
  · rw [hN]
    exact (hok.take hl hs (by omega)).counters _ k.callCounter
  · have hlog' := hlog.take hl hs
    rw [hN] at hlog' ⊢
    exact hlog'
  · rw [hN]
    have hsame : ({ k.setChannel c { k.channels c with stored := false, callUid := N } with
        callUidCounter := (N + 1) % 2 ^ 32 } : Talk).storedCalls =
      (k.setChannel c { k.channels c with stored := false, callUid := N }).storedCalls := rfl
    rw [hsame]
    omega

/-- A stored call is refused: its client goes on. -/
theorem Kept.refuse (h : k.Kept calls g) {c : ℕ} (hl : (k.channels c).live = true)
    (hs : (k.channels c).stored = true) :
    ({ (k.setWait ((k.channels c).party false).1 none).setChannel c
      { k.channels c with stored := false } with
        callUidCounter := (k.callUidCounter + 1) % 2 ^ 32 } : Talk).Kept calls g := by
  obtain ⟨N, hok, hlog, hb⟩ := h
  have hu := hok.calling.single c hl hs
  have hfree : ¬({ k.channels c with stored := false } : ChannelTalk).Busy := by
    rintro (hx | hx)
    · exact absurd hx (by simp)
    · exact hx hu
  have he := hok.release ({ k.channels c with stored := false }) hl
    (.inl hs) id id rfl hfree rfl fun _ => id
  have hlt := card_storedCalls_lt ((k.setWait ((k.channels c).party false).1 none).setChannel c
    { k.channels c with stored := false }) hok.bounded hl hs
    (mem_storedCalls_setChannel (k := k.setWait ((k.channels c).party false).1 none) _ rfl)
  refine ⟨N + 1, (he.ok.counters _ k.callCounter).mono (Nat.le_succ N),
    (hlog.fewer he.fewer).tick, ?_⟩
  have hsame : ({ (k.setWait ((k.channels c).party false).1 none).setChannel c
      { k.channels c with stored := false } with callUidCounter :=
      (k.callUidCounter + 1) % 2 ^ 32 } :
      Talk).storedCalls = ((k.setWait ((k.channels c).party false).1 none).setChannel c
        { k.channels c with stored := false }).storedCalls := rfl
  rw [hsame]
  omega

/-- A call is answered: its client goes on. -/
theorem Kept.reply (h : k.Kept calls g) {c : ℕ} (hl : (k.channels c).live = true)
    (hu : (k.channels c).callUid ≠ 0) :
    ((k.setWait ((k.channels c).party false).1 none).setChannel c
      { k.channels c with callUid := 0 }).Kept calls
      { g with replied := g.replied ++ [(k.channels c).callUid] } := by
  obtain ⟨N, hok, hlog, hb⟩ := h
  have hfree : ¬({ k.channels c with callUid := 0 } : ChannelTalk).Busy := by
    rintro (hx | hx)
    · exact hu (hok.calling.single c hl hx)
    · exact hx rfl
  have he :=
    hok.release ({ k.channels c with callUid := 0 }) hl (.inr hu) id id rfl hfree rfl fun _ => id
  have hcard := Finset.card_le_card (he.fewer.storedCalls_subset hok.bounded)
  refine ⟨N, he.ok, hlog.answer hok.calling he.fewer hl hu ?_, by omega⟩
  rw [channels_setChannel_self]

end Talk

end X86Kernel.Msg
