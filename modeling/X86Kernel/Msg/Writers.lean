import X86Kernel.Msg.Shrink

/-! Blocked writers: who waits in `msg_wait_on_receive`, where that is recorded, and the changes
that keep both together. -/
namespace X86Kernel.Msg

namespace Talk

/-- Every set flag is the one of a task that waits, and every task that waits has one. The tasks in
`X` are ending, and their flags are still to go. -/
structure Writers (X : TaskId → Prop) (k : Talk) : Prop where
  ending : ∀ t, X t → (k.tasks t).enabled = false
  set : ∀ c d, (k.channels c).live = true → (k.channels c).blocked d = true →
    ¬X ((k.channels c).party d).1 →
    k.Alive ((k.channels c).party d) ∧ k.wait ((k.channels c).party d).1 = some .write ∧
      ∀ d', (k.channels c).connected d' = true
  inj : ∀ c d c' d', (k.channels c).live = true → (k.channels c').live = true →
    (k.channels c).blocked d = true →
    (k.channels c').blocked d' = true → ¬X ((k.channels c).party d).1 →
    ((k.channels c).party d).1 = ((k.channels c').party d').1 → c = c' ∧ d = d'
  held : ∀ t, (k.tasks t).enabled = true → k.wait t = some .write →
    ∃ c d, (k.channels c).live = true ∧ (k.channels c).blocked d = true ∧
      (k.channels c).party d = (t, (k.tasks t).taskUid)

namespace Writers

variable {X : TaskId → Prop} {k : Talk}

theorem setPort (h : k.Writers X) (p : ℕ) (port : PortTalk) : (k.setPort p port).Writers X :=
  ⟨h.ending, h.set, h.inj, h.held⟩

theorem setWait (h : k.Writers X) {t : TaskId} (ht : k.wait t ≠ some .write) {w : Option Wait}
    (hw : w ≠ some .write) : (k.setWait t w).Writers X := by
  refine ⟨fun t' hx => by simpa using h.ending t' hx, fun c d hl hb hx => ?_, h.inj,
    fun t' hen hwait => ?_⟩
  · obtain ⟨halive, hwait, hconn⟩ := h.set c d hl hb hx
    refine ⟨(alive_setWait _ _ _ _).mpr halive, ?_, hconn⟩
    refine (wait_setWait_of_ne k ?_ w).trans hwait
    intro he
    exact ht (he ▸ hwait)
  · have he : t' ≠ t := by
      rintro rfl
      exact hw ((wait_setWait_self k t' w).symm.trans hwait)
    obtain ⟨c, d, hl, hb, hp⟩ :=
      h.held t' (by simpa using hen) ((wait_setWait_of_ne k he w).symm.trans hwait)
    exact ⟨c, d, hl, hb, by rw [taskUid_setWait]; exact hp⟩

/-- A channel may lose flags and sides as long as nobody is left waiting for them. -/
theorem setChannel (h : k.Writers X) {c : ℕ} {ch : ChannelTalk}
    (hlive : ch.live = true → (k.channels c).live = true) (hparty : ch.party = (k.channels c).party)
    (hblocked : ∀ d, ch.blocked d = true → (k.channels c).blocked d = true)
    (hconn : ch.live = true → ∀ d, ch.blocked d = true → ¬X ((k.channels c).party d).1 →
      ∀ d', ch.connected d' = true)
    (hheld : (k.channels c).live = true → ∀ d, (k.channels c).blocked d = true →
      (ch.live = true ∧ ch.blocked d = true) ∨
      ¬((k.tasks ((k.channels c).party d).1).enabled = true ∧
        k.wait ((k.channels c).party d).1 = some .write)) : (k.setChannel c ch).Writers X := by
  have hof : ∀ c' d, ((k.setChannel c ch).channels c').live = true →
      ((k.setChannel c ch).channels c').blocked d = true → (k.channels c').live = true ∧
      (k.channels c').blocked d = true := by
    intro c' d hl hb
    by_cases he : c' = c
    · subst he
      rw [channels_setChannel_self] at hl hb
      exact ⟨hlive hl, hblocked d hb⟩
    · rw [channels_setChannel_of_ne k he] at hl hb
      exact ⟨hl, hb⟩
  have hparties : ∀ c', ((k.setChannel c ch).channels c').party = (k.channels c').party := by
    intro c'
    by_cases he : c' = c
    · subst he
      rw [channels_setChannel_self, hparty]
    · rw [channels_setChannel_of_ne k he]
  refine ⟨h.ending, fun c' d hl hb hx => ?_, fun c' d c'' d' hl hl' hb hb' hx he => ?_,
    fun t hen hwait => ?_⟩
  · obtain ⟨hl', hb'⟩ := hof c' d hl hb
    rw [hparties] at hx ⊢
    obtain ⟨halive, hwait, hold⟩ := h.set c' d hl' hb' hx
    refine ⟨halive, hwait, ?_⟩
    by_cases he : c' = c
    · subst he
      rw [channels_setChannel_self] at hl hb ⊢
      exact hconn hl d hb hx
    · rw [channels_setChannel_of_ne k he]
      exact hold
  · rw [hparties] at hx he
    rw [hparties] at he
    exact h.inj c' d c'' d' (hof c' d hl hb).1 (hof c'' d' hl' hb').1 (hof c' d hl hb).2
      (hof c'' d' hl' hb').2 hx he
  · obtain ⟨c', d, hl, hb, hp⟩ := h.held t hen hwait
    refine ⟨c', d, ?_⟩
    rw [hparties]
    by_cases he : c' = c
    · subst he
      rw [channels_setChannel_self]
      rcases hheld hl d hb with ⟨hl', hb'⟩ | hnot
      · exact ⟨hl', hb', hp⟩
      · rw [hp] at hnot
        exact absurd ⟨hen, hwait⟩ hnot
    · rw [channels_setChannel_of_ne k he]
      exact ⟨hl, hb, hp⟩

/-- A blocked writer goes on. -/
theorem unblock (h : k.Writers X) {c : ℕ} {d : Bool} (hl : (k.channels c).live = true)
    (hb : (k.channels c).blocked d = true) (halive : k.Alive ((k.channels c).party d)) :
    ((k.setWait ((k.channels c).party d).1 none).setChannel c
      ((k.channels c).unblock d)).Writers X := by
  set t := ((k.channels c).party d).1 with ht
  have hx : ¬X t := fun hx => absurd (halive.1.symm.trans (h.ending t hx)) (by simp)
  have hof : ∀ c' d',
        (((k.setWait t none).setChannel c ((k.channels c).unblock d)).channels c').live = true →
      (((k.setWait t none).setChannel c ((k.channels c).unblock d)).channels c').blocked d' = true →
      (k.channels c').live = true ∧ (k.channels c').blocked d' = true ∧
        (((k.setWait t none).setChannel c ((k.channels c).unblock d)).channels c').party =
          (k.channels c').party ∧
        (((k.setWait t none).setChannel c ((k.channels c).unblock d)).channels c').connected =
          (k.channels c').connected ∧ ¬(c' = c ∧ d' = d) := by
    intro c' d' hl' hb'
    by_cases he : c' = c
    · subst he
      rw [channels_setChannel_self] at hl' hb' ⊢
      dsimp only [ChannelTalk.unblock] at hl' hb' ⊢
      by_cases hd : d' = d
      · subst hd
        simp at hb'
      · rw [Function.update_of_ne hd] at hb'
        exact ⟨hl', hb', rfl, rfl, fun hx => hd hx.2⟩
    · rw [channels_setChannel_of_ne _ he] at hl' hb' ⊢
      exact ⟨hl', hb', rfl, rfl, fun hx => he hx.1⟩
  refine ⟨fun t' hx => (enabled_setWait k t t' none).trans (h.ending t' hx),
    fun c' d' hl' hb' hx' => ?_,
    fun c' d' c'' d'' hl' hl'' hb' hb'' hx' he => ?_, fun t' hen hwait => ?_⟩
  · obtain ⟨hl1, hb1, hp, hcn, hne⟩ := hof c' d' hl' hb'
    rw [hp] at hx' ⊢
    rw [hcn]
    obtain ⟨h1, h2, h3⟩ := h.set c' d' hl1 hb1 hx'
    refine ⟨(alive_setWait k t none _).mpr h1, (wait_setWait_of_ne k ?_ none).trans h2, h3⟩
    exact fun he => hne (h.inj c' d' c d hl1 hl hb1 hb hx' he)
  · obtain ⟨hl1, hb1, hp, -, -⟩ := hof c' d' hl' hb'
    obtain ⟨hl2, hb2, hp', -, -⟩ := hof c'' d'' hl'' hb''
    rw [hp] at hx' he
    rw [hp'] at he
    exact h.inj c' d' c'' d'' hl1 hl2 hb1 hb2 hx' he
  · have he : t' ≠ t := by
      rintro rfl
      exact absurd ((wait_setWait_self k t none).symm.trans hwait) (by simp)
    obtain ⟨c', d', hl', hb', hp⟩ := h.held t' ((enabled_setWait k t t' none).symm.trans hen)
      ((wait_setWait_of_ne k he none).symm.trans hwait)
    -- its flag is another one, since the task is
    have hne : ¬(c' = c ∧ d' = d) := by
      rintro ⟨rfl, rfl⟩
      exact he (congrArg Prod.fst hp).symm
    refine ⟨c', d', ?_⟩
    have huid : (((k.setWait t none).setChannel c ((k.channels c).unblock d)).tasks t').taskUid =
        (k.tasks t').taskUid := taskUid_setWait k t t' none
    rw [huid]
    by_cases hc : c' = c
    · subst hc
      rw [channels_setChannel_self]
      refine ⟨hl', ?_, hp⟩
      dsimp only [ChannelTalk.unblock]
      rw [Function.update_of_ne fun hd => hne ⟨rfl, hd⟩]
      exact hb'
    · rw [channels_setChannel_of_ne _ hc]
      exact ⟨hl', hb', hp⟩

/-- A running task blocks on its side of a channel that has both. -/
theorem block (h : k.Writers X) {c : ℕ} {d : Bool} {t : TaskId} (hl : (k.channels c).live = true)
    (hp : (k.channels c).party d = (t, (k.tasks t).taskUid)) (hen : (k.tasks t).enabled = true)
    (hwait : k.wait t = none) (hconn : ∀ d', (k.channels c).connected d' = true) :
    ((k.setWait t (some .write)).setChannel c ((k.channels c).block d)).Writers X := by
  have hfree : ∀ c' d', (k.channels c').live = true → (k.channels c').blocked d' = true →
      ((k.channels c').party d').1 ≠ t := by
    intro c' d' hl' hb' he
    have hx : ¬X ((k.channels c').party d').1 := by
      rw [he]
      exact fun hx => absurd (hen.symm.trans (h.ending t hx)) (by simp)
    have := (h.set c' d' hl' hb' hx).2.1
    rw [he, hwait] at this
    exact absurd this (by simp)
  have hof : ∀ c' d',
        (((k.setWait t (some .write)).setChannel c ((k.channels c).block d)).channels c').live =
        true →
      (((k.setWait t (some .write)).setChannel c ((k.channels c).block d)).channels c').blocked d' =
        true →
      (k.channels c').live = true ∧
        (((k.setWait t (some .write)).setChannel c ((k.channels c).block d)).channels c').party =
          (k.channels c').party ∧
        (((k.setWait t (some .write)).setChannel c ((k.channels c).block d)).channels
          c').connected =
          (k.channels c').connected ∧ ((c' = c ∧ d' = d) ∨ (k.channels c').blocked d' = true) := by
    intro c' d' hl' hb'
    by_cases he : c' = c
    · subst he
      rw [channels_setChannel_self] at hl' hb' ⊢
      dsimp only [ChannelTalk.block] at hl' hb' ⊢
      by_cases hd : d' = d
      · exact ⟨hl', rfl, rfl, .inl ⟨rfl, hd⟩⟩
      · rw [Function.update_of_ne hd] at hb'
        exact ⟨hl', rfl, rfl, .inr hb'⟩
    · rw [channels_setChannel_of_ne _ he] at hl' hb' ⊢
      exact ⟨hl', rfl, rfl, .inr hb'⟩
  refine ⟨fun t' hx => (enabled_setWait k t t' _).trans (h.ending t' hx),
    fun c' d' hl' hb' hx' => ?_,
    fun c' d' c'' d'' hl' hl'' hb' hb'' hx' he => ?_, fun t' hen' hwait' => ?_⟩
  · obtain ⟨hl1, hp1, hcn, ⟨rfl, rfl⟩ | hb1⟩ := hof c' d' hl' hb'
    · rw [hp1, hcn, hp]
      exact ⟨(alive_setWait k t _ _).mpr ⟨hen, rfl⟩, wait_setWait_self k t _, hconn⟩
    · rw [hp1] at hx' ⊢
      rw [hcn]
      obtain ⟨h1, h2, h3⟩ := h.set c' d' hl1 hb1 hx'
      exact ⟨(alive_setWait k t _ _).mpr h1,
        (wait_setWait_of_ne k (hfree c' d' hl1 hb1) _).trans h2, h3⟩
  · obtain ⟨hl1, hp1, -, h1⟩ := hof c' d' hl' hb'
    obtain ⟨hl2, hp2, -, h2⟩ := hof c'' d'' hl'' hb''
    rw [hp1] at hx' he
    rw [hp2] at he
    rcases h1 with ⟨rfl, rfl⟩ | h1 <;> rcases h2 with ⟨rfl, rfl⟩ | h2
    · exact ⟨rfl, rfl⟩
    · rw [hp] at he
      exact absurd he.symm (hfree c'' d'' hl2 h2)
    · rw [hp] at he
      exact absurd he (hfree c' d' hl1 h1)
    · exact h.inj c' d' c'' d'' hl1 hl2 h1 h2 hx' he
  · have huid :
          (((k.setWait t (some .write)).setChannel c ((k.channels c).block d)).tasks t').taskUid =
        (k.tasks t').taskUid := taskUid_setWait k t t' _
    rw [huid]
    by_cases he : t' = t
    · subst he
      refine ⟨c, d, ?_⟩
      rw [channels_setChannel_self]
      exact ⟨hl, Function.update_self _ _ _, hp⟩
    · obtain ⟨c', d', hl', hb', hp'⟩ := h.held t' ((enabled_setWait k t t' _).symm.trans hen')
        ((wait_setWait_of_ne k he _).symm.trans hwait')
      refine ⟨c', d', ?_⟩
      by_cases hc : c' = c
      · subst hc
        rw [channels_setChannel_self]
        refine ⟨hl', ?_, hp'⟩
        dsimp only [ChannelTalk.block]
        by_cases hd : d' = d
        · subst hd
          exact Function.update_self _ _ _
        · rw [Function.update_of_ne hd]
          exact hb'
      · rw [channels_setChannel_of_ne _ hc]
        exact ⟨hl', hb', hp'⟩

theorem disable (h : k.Writers X) (t : TaskId) : (k.disable t).Writers fun t' => X t' ∨ t' = t := by
  have hother : ∀ t', t' ≠ t → (k.disable t).tasks t' = k.tasks t' := fun t' he => by
    simp [Talk.disable, he]
  have hself : ((k.disable t).tasks t).enabled = false := by simp [Talk.disable]
  refine ⟨fun t' hx => ?_, fun c d hl hb hx => ?_, fun c d c' d' hl hl' hb hb' hx => ?_,
    fun t' hen hwait => ?_⟩
  · by_cases he : t' = t
    · rw [he]
      exact hself
    · rw [hother t' he]
      exact h.ending t' (hx.resolve_right he)
  · rw [not_or] at hx
    obtain ⟨h1, h2, h3⟩ := h.set c d hl hb hx.1
    unfold Alive wait
    rw [hother _ hx.2]
    exact ⟨h1, h2, h3⟩
  · exact h.inj c d c' d' hl hl' hb hb' fun h' => hx (.inl h')
  · have he : t' ≠ t := by
      rintro rfl
      exact absurd (hself.symm.trans hen) (by simp)
    unfold wait at hwait
    rw [hother t' he] at hen hwait ⊢
    exact h.held t' hen hwait

theorem settle {t : TaskId} (h : k.Writers fun t' => X t' ∨ t' = t)
    (hfree : ∀ c d, (k.channels c).live = true → (k.channels c).blocked d = true →
      ((k.channels c).party d).1 ≠ t) :
    k.Writers X :=
  ⟨fun t' hx => h.ending t' (.inl hx),
    fun c d hl hb hx => h.set c d hl hb fun h' => h'.elim hx (hfree c d hl hb),
    fun c d c' d' hl hl' hb hb' hx => h.inj c d c' d' hl hl' hb hb' fun h' =>
      h'.elim hx (hfree c d hl hb), h.held⟩

/-- A free task slot is taken under a new number. -/
theorem addTask (h : k.Writers fun _ => False) {t : TaskId} (hd : (k.tasks t).enabled = false)
    (enabled : Bool) :
    ({ k with
      tasks := Function.update k.tasks t ⟨enabled, k.taskUidCounter, none⟩
      taskUidCounter := k.taskUidCounter + 1 } : Talk).Writers fun _ => False := by
  set k' : Talk :=
    { k with
      tasks := Function.update k.tasks t ⟨enabled, k.taskUidCounter, none⟩
      taskUidCounter := k.taskUidCounter + 1 } with hk'
  have hself : k'.tasks t = ⟨enabled, k.taskUidCounter, none⟩ := by simp [hk']
  have hother : ∀ t', t' ≠ t → k'.tasks t' = k.tasks t' := fun t' he => by simp [hk', he]
  refine ⟨fun _ => False.elim, fun c d hl hb hx => ?_, h.inj, fun t' hen hwait => ?_⟩
  · obtain ⟨h1, h2, h3⟩ := h.set c d hl hb hx
    have he : ((k'.channels c).party d).1 ≠ t := by
      intro he
      have := h1.1
      rw [show ((k.channels c).party d).1 = t from he, hd] at this
      exact absurd this (by simp)
    unfold Alive wait
    rw [hother _ he]
    exact ⟨h1, h2, h3⟩
  · have he : t' ≠ t := by
      rintro rfl
      unfold wait at hwait
      rw [hself] at hwait
      exact absurd hwait (by simp)
    unfold wait at hwait
    rw [hother t' he] at hen hwait ⊢
    exact h.held t' hen hwait

/-- A new channel blocks nobody. -/
theorem addChannel (h : k.Writers X)
    (hbound : ∀ c, (k.channels c).live = true → c < k.channelBlocks)
    {ch : ChannelTalk} (hfree : ∀ d, ch.blocked d = false) :
    ({ k.setChannel k.channelBlocks ch with channelBlocks := k.channelBlocks + 1 } :
      Talk).Writers X := by
  set k' : Talk :=
    { k.setChannel k.channelBlocks ch with channelBlocks := k.channelBlocks + 1 } with hk'
  have hself : k'.channels k.channelBlocks = ch := channels_setChannel_self k _ ch
  have hother : ∀ c, c ≠ k.channelBlocks → k'.channels c = k.channels c := fun c he =>
    channels_setChannel_of_ne k he ch
  have hblock : ∀ c d, (k'.channels c).blocked d = true → k'.channels c = k.channels c := by
    intro c d hb
    refine hother c ?_
    rintro rfl
    rw [hself, hfree] at hb
    exact absurd hb (by simp)
  refine ⟨h.ending, fun c d hl hb hx => ?_, fun c d c' d' hl hl' hb hb' hx he => ?_,
    fun t hen hwait => ?_⟩
  · have heq := hblock c d hb
    rw [heq] at hl hb hx ⊢
    exact h.set c d hl hb hx
  · have heq := hblock c d hb
    have heq' := hblock c' d' hb'
    rw [heq] at hl hb hx he
    rw [heq'] at hl' hb' he
    exact h.inj c d c' d' hl hl' hb hb' hx he
  · obtain ⟨c, d, hl, hb, hp⟩ := h.held t hen hwait
    have he : c ≠ k.channelBlocks := fun he => absurd (hbound c hl) (by rw [he]; exact lt_irrefl _)
    refine ⟨c, d, ?_⟩
    rw [hother c he]
    exact ⟨hl, hb, hp⟩

end Writers

end Talk

end X86Kernel.Msg
