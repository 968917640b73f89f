import X86Kernel.Net.ArpInv

/-! Every step keeps the ARP cache and the queue together, and what follows for all runs. -/
namespace X86Kernel.Net

namespace Arp

variable {E : ℕ → Prop} {m n a ip hop now : ℕ} {s s' s₁ s₂ : Arp} {i k : Fin arpCacheSize}
  {j : Fin arpQueueSize}
  {mac : List UInt8} {p : Packet} {known : Option (List UInt8)} {e : PendingPkt → ArpEvent}

/-! ### Sweeping the queue -/

/-- Nothing happened but that packets left the queue. -/
structure Shrunk (s s' : Arp) : Prop where
  cache : s'.cache = s.cache
  given : s'.given = s.given
  learned : ∀ a, lastLearned s'.log a = lastLearned s.log a
  queue : ∀ j, (s'.queue j).used = true → s'.queue j = s.queue j

theorem Shrunk.refl (s : Arp) : Shrunk s s := ⟨rfl, rfl, fun _ => rfl, fun _ _ => rfl⟩

theorem Shrunk.trans (h : Shrunk s s₁) (h' : Shrunk s₁ s₂) : Shrunk s s₂ where
  cache := h'.cache.trans h.cache
  given := h'.given.trans h.given
  learned a := (h'.learned a).trans (h.learned a)
  queue j hj := by
    have hlast := h'.queue j hj
    rw [hlast] at hj ⊢
    exact h.queue j hj

theorem sweepSlot_spec (h : Inv E m s) (hknown : lastLearned s.log hop = known)
    (he : ∀ log p, lastLearned log hop = known → p.packet.nextHop = hop →
      Ends log p.call p.packet (e p))
    (j : Fin arpQueueSize) :
    Inv E m (sweepSlot hop (fun s p => s.emit (e p)) s j) ∧
    Shrunk s (sweepSlot hop (fun s p => s.emit (e p)) s j) ∧
      (((sweepSlot hop (fun s p => s.emit (e p)) s j).queue j).used = true →
        ((sweepSlot hop (fun s p => s.emit (e p)) s j).queue j).packet.nextHop ≠ hop) := by
  unfold sweepSlot
  split_ifs with hmatch
  · have hends := he s.log (s.queue j) hknown hmatch.2
    refine ⟨h.finish hmatch.1 hends, ⟨rfl, rfl, hends.lastLearned, ?_⟩, ?_⟩
    · intro k hk
      by_cases hkj : k = j
      · subst hkj
        simp at hk
      · exact Function.update_of_ne hkj _ _
    · simp
  · exact ⟨h, Shrunk.refl s, fun hused hhop => hmatch ⟨hused, hhop⟩⟩

theorem foldl_sweepSlot_spec (l : List (Fin arpQueueSize)) (h : Inv E m s)
    (hknown : lastLearned s.log hop = known)
    (he : ∀ log p, lastLearned log hop = known → p.packet.nextHop = hop →
      Ends log p.call p.packet (e p)) :
    Inv E m (l.foldl (sweepSlot hop fun s p => s.emit (e p)) s) ∧
      Shrunk s (l.foldl (sweepSlot hop fun s p => s.emit (e p)) s) ∧
      ∀ j ∈ l, ((l.foldl (sweepSlot hop fun s p => s.emit (e p)) s).queue j).used = true →
        ((l.foldl (sweepSlot hop fun s p => s.emit (e p)) s).queue j).packet.nextHop ≠ hop := by
  induction l generalizing s with
  | nil => exact ⟨h, Shrunk.refl s, fun j hj => absurd hj List.not_mem_nil⟩
  | cons i l ih =>
    obtain ⟨hinv, hshrunk, hclean⟩ := sweepSlot_spec h hknown he i
    obtain ⟨hinv', hshrunk', hclean'⟩ := ih hinv ((hshrunk.learned hop).trans hknown)
    refine ⟨hinv', hshrunk.trans hshrunk', ?_⟩
    intro j hj hused
    rcases List.mem_cons.mp hj with rfl | hmem
    · rw [List.foldl_cons] at hused ⊢
      have hkept := hshrunk'.queue j hused
      rw [hkept] at hused ⊢
      exact hclean hused
    · exact hclean' j hmem hused

/-- After a sweep no packet waits for the next hop, so that it needs no entry. -/
theorem sweep_spec (h : Inv (fun a => E a ∨ a = hop) m s) (hknown : lastLearned s.log hop = known)
    (he : ∀ log p, lastLearned log hop = known → p.packet.nextHop = hop →
      Ends log p.call p.packet (e p)) :
    Inv E m (s.sweep hop fun s p => s.emit (e p)) ∧ Shrunk s (s.sweep hop fun s p => s.emit (e p)) ∧
      ∀ j, ((s.sweep hop fun s p => s.emit (e p)).queue j).used = true →
        ((s.sweep hop fun s p => s.emit (e p)).queue j).packet.nextHop ≠ hop := by
  obtain ⟨hinv, hshrunk, hclean⟩ := foldl_sweepSlot_spec (List.finRange arpQueueSize) h hknown he
  have hclean' := fun j => hclean j (List.mem_finRange j)
  refine ⟨⟨hinv.unique, hinv.learned, ?_, hinv.own, hinv.sent, hinv.accounted⟩, hshrunk, hclean'⟩
  intro j hj hE
  apply hinv.waiting j hj
  rintro (hexempt | hhop)
  · exact hE hexempt
  · exact hclean' j hj hhop

theorem arpDropQueue_spec (h : Inv (fun a => E a ∨ a = hop) m s) (reason : DropReason) :
    Inv E m (s.arpDropQueue hop reason) ∧ Shrunk s (s.arpDropQueue hop reason) ∧
      ∀ j, ((s.arpDropQueue hop reason).queue j).used = true →
        ((s.arpDropQueue hop reason).queue j).packet.nextHop ≠ hop :=
  sweep_spec h rfl fun _ _ _ _ => .dropped reason

/-! ### Finding and making entries -/

theorem arpFind_some (h : s.arpFind ip = some i) :
    (s.cache i).state ≠ .free ∧ (s.cache i).ip = ip := by
  unfold arpFind at h
  simpa using List.find?_some h

theorem arpFind_none (h : s.arpFind ip = none) (i : Fin arpCacheSize)
    (hi : (s.cache i).state ≠ .free) :
    (s.cache i).ip ≠ ip := by
  unfold arpFind at h
  have hno := List.find?_eq_none.mp h i (List.mem_finRange i)
  simp only [decide_eq_true_eq, not_and] at hno
  exact hno hi

theorem arpLookup_some (h : s.arpLookup ip = some mac) :
    ∃ i, (s.cache i).state = .resolved ∧ (s.cache i).ip = ip ∧ (s.cache i).mac = mac := by
  unfold arpLookup at h
  cases hfind : s.arpFind ip with
  | none => simp [hfind] at h
  | some i =>
    simp only [hfind] at h
    split_ifs at h with hstate
    exact ⟨i, not_not.mp hstate, (arpFind_some hfind).2, Option.some.inj h⟩

/-- What is known of an address that is looked up. -/
theorem Inv.lookup (h : Inv E m s) (hlookup : s.arpLookup ip = some mac) :
    lastLearned s.log ip = some mac := by
  obtain ⟨i, hstate, rfl, rfl⟩ := arpLookup_some hlookup
  exact h.learned i hstate

/-- A slot that the entry for an address can be written to. -/
structure Available (s : Arp) (ip : ℕ) (i : Fin arpCacheSize) : Prop where
  others : ∀ k, k ≠ i → (s.cache k).state ≠ .free → (s.cache k).ip ≠ ip
  waiting : ∀ j, (s.queue j).used = true → (s.queue j).packet.nextHop ≠ ip →
    ∃ k, k ≠ i ∧ (s.cache k).state = .pending ∧ (s.cache k).ip = (s.queue j).packet.nextHop

theorem Inv.update_cache (h : Inv (· = ip) m s) (hi : Available s ip i) (e : ArpEntry)
    (he : e.ip = ip) :
    (∀ i' k, ((Function.update s.cache i e) i').state ≠ .free →
      ((Function.update s.cache i e) k).state ≠ .free →
        ((Function.update s.cache i e) i').ip = ((Function.update s.cache i e) k).ip → i' = k) ∧
      ∀ j, (s.queue j).used = true → (s.queue j).packet.nextHop ≠ ip →
        ∃ k, ((Function.update s.cache i e) k).state = .pending ∧
          ((Function.update s.cache i e) k).ip = (s.queue j).packet.nextHop := by
  constructor
  · intro i' k hi' hk heq
    by_cases hi'i : i' = i <;> by_cases hki : k = i
    · rw [hi'i, hki]
    · subst hi'i
      rw [Function.update_self, Function.update_of_ne hki, he] at heq
      rw [Function.update_of_ne hki] at hk
      exact absurd heq.symm (hi.others k hki hk)
    · subst hki
      rw [Function.update_self, Function.update_of_ne hi'i, he] at heq
      rw [Function.update_of_ne hi'i] at hi'
      exact absurd heq (hi.others i' hi'i hi')
    · rw [Function.update_of_ne hi'i] at hi' heq
      rw [Function.update_of_ne hki] at hk heq
      exact h.unique i' k hi' hk heq
  · intro j hj hne
    obtain ⟨k, hki, hk⟩ := hi.waiting j hj hne
    refine ⟨k, ?_⟩
    rw [Function.update_of_ne hki]
    exact hk

theorem arpAllocSlot_spec (h : Inv (· = ip) m s) (hnone : s.arpFind ip = none) :
    Inv (· = ip) m s.arpAllocSlot.1 ∧ Shrunk s s.arpAllocSlot.1 ∧
    Available s.arpAllocSlot.1 ip s.arpAllocSlot.2 := by
  have habsent := arpFind_none hnone
  unfold arpAllocSlot
  split
  next i hfree =>
    have hstate : (s.cache i).state = .free := by
      simpa using List.find?_some hfree
    refine ⟨h, Shrunk.refl s, fun k _ => habsent k, ?_⟩
    intro j hj hne
    obtain ⟨k, hk, hip⟩ := h.waiting j hj hne
    refine ⟨k, ?_, hk, hip⟩
    rintro rfl
    rw [hstate] at hk
    cases hk
  next hfull =>
    have hnext : Inv (fun a => a = ip ∨ a = (s.cache s.next).ip) m { s with next := s.next + 1 } :=
      ⟨h.unique, h.learned, fun j hj hE => h.waiting j hj fun hn => hE (.inl hn), h.own, h.sent,
        h.accounted⟩
    obtain ⟨hinv, hshrunk, hclean⟩ := arpDropQueue_spec hnext .evicted
    refine ⟨hinv, ⟨hshrunk.cache, hshrunk.given, hshrunk.learned, hshrunk.queue⟩, ?_, ?_⟩
    · intro k _ hk
      rw [hshrunk.cache] at hk ⊢
      exact habsent k hk
    · intro j hj hne
      obtain ⟨k, hk, hip⟩ := hinv.waiting j hj hne
      refine ⟨k, ?_, hk, hip⟩
      rintro rfl
      rw [hshrunk.cache] at hip
      exact hclean j hj hip.symm

theorem arpFindOrAlloc_spec (h : Inv (fun _ => False) m s) (ip : ℕ) :
    Inv (· = ip) m (s.arpFindOrAlloc ip).1 ∧ Shrunk s (s.arpFindOrAlloc ip).1 ∧
      Available (s.arpFindOrAlloc ip).1 ip (s.arpFindOrAlloc ip).2 := by
  have hmono : Inv (· = ip) m s := h.mono fun _ hf => hf.elim
  unfold arpFindOrAlloc
  cases hfind : s.arpFind ip with
  | none => exact arpAllocSlot_spec hmono hfind
  | some i =>
    obtain ⟨hstate, hip⟩ := arpFind_some hfind
    refine ⟨hmono, Shrunk.refl s, ?_, ?_⟩
    · intro k hki hk heq
      exact hki (h.unique k i hk hstate (heq.trans hip.symm))
    · intro j hj hne
      obtain ⟨k, hk, hkip⟩ := h.waiting j hj not_false
      refine ⟨k, ?_, hk, hkip⟩
      rintro rfl
      exact hne (hkip.symm.trans hip)

/-! ### The steps -/

/-- What was learned goes into a slot; packets may still wait for it. -/
theorem Inv.learn (h : Inv (· = ip) m s) (hi : Available s ip i) :
    Inv (· = ip) m ((s.setEntry i { s.cache i with ip, mac, state := .resolved }).emit
      (.learned ip mac)) := by
  obtain ⟨hunique, hwaiting⟩ := h.update_cache hi { s.cache i with ip, mac, state := .resolved } rfl
  refine ⟨hunique, ?_, hwaiting, h.own, h.sent.cons fun _ => rfl, ?_⟩
  · intro k hk
    simp only [emit_cache, setEntry_cache, emit_log, setEntry_log, lastLearned] at hk ⊢
    by_cases hki : k = i
    · rw [hki, Function.update_self, if_pos rfl]
    · rw [Function.update_of_ne hki] at hk ⊢
      have hother : (s.cache k).ip ≠ ip := by
        apply hi.others k hki
        simp [hk]
      rw [if_neg hother.symm]
      exact h.learned k hk
  · intro n
    rw [emit_fate_of rfl rfl, setEntry_fate]
    exact h.accounted n

/-- A slot becomes the pending entry that packets wait for. -/
theorem Inv.expect (h : Inv (· = ip) m s) (hi : Available s ip i) (now : ℕ) :
    Inv (fun _ => False) m
      ((s.setEntry i { s.cache i with
        ip, state := .pending, tries := 1, lastReq := now }).arpRequest ip) := by
  obtain ⟨hunique, hwaiting⟩ :=
    h.update_cache hi { s.cache i with ip, state := .pending, tries := 1, lastReq := now } rfl
  have hinv : Inv (fun _ => False) m
      (s.setEntry i { s.cache i with ip, state := .pending, tries := 1, lastReq := now }) := by
    refine ⟨hunique, ?_, ?_, h.own, h.sent, h.accounted⟩
    · intro k hk
      simp only [setEntry_cache, setEntry_log] at hk ⊢
      by_cases hki : k = i
      · rw [hki, Function.update_self] at hk
        cases hk
      · rw [Function.update_of_ne hki] at hk ⊢
        exact h.learned k hk
    · intro j hj _
      by_cases hhop : (s.queue j).packet.nextHop = ip
      · refine ⟨i, ?_⟩
        simp only [setEntry_cache, setEntry_queue, Function.update_self]
        exact ⟨trivial, hhop.symm⟩
      · exact hwaiting j hj hhop
  exact hinv.emit (fun _ => rfl) (fun _ => rfl) fun _ => rfl

theorem arpUpdateCache_spec (h : Inv (fun _ => False) m s) (ip : ℕ) (mac : List UInt8) :
    Inv (· = ip) m (s.arpUpdateCache ip mac) ∧ (s.arpUpdateCache ip mac).given = s.given ∧
      ∃ i, ((s.arpUpdateCache ip mac).cache i).state = .resolved ∧
        ((s.arpUpdateCache ip mac).cache i).ip = ip := by
  obtain ⟨hinv, hshrunk, havail⟩ := arpFindOrAlloc_spec h ip
  refine ⟨hinv.learn havail, hshrunk.given, (s.arpFindOrAlloc ip).2, ?_⟩
  simp [arpUpdateCache]

/-- An address with a resolved entry is found, as no other entry has it. -/
theorem Inv.lookup_ne_none (h : Inv E m s)
    (hi : ∃ i, (s.cache i).state = .resolved ∧ (s.cache i).ip = ip) :
    s.arpLookup ip ≠ none := by
  obtain ⟨i, hstate, hip⟩ := hi
  have hfree : (s.cache i).state ≠ .free := by
    simp [hstate]
  unfold arpLookup
  cases hfind : s.arpFind ip with
  | none => exact absurd hip (arpFind_none hfind i hfree)
  | some k =>
    obtain ⟨hk, hkip⟩ := arpFind_some hfind
    obtain rfl := h.unique k i hk hfree (hkip.trans hip.symm)
    simp [hstate]

theorem arpFlush_spec (h : Inv (· = ip) m s) (hlookup : s.arpLookup ip ≠ none) :
    Inv (fun _ => False) m (s.arpFlush ip) ∧ (s.arpFlush ip).given = s.given := by
  obtain ⟨mac, hmac⟩ := Option.ne_none_iff_exists'.mp hlookup
  have hknown := h.lookup hmac
  have hempty : Inv (fun a => False ∨ a = ip) m s := h.mono fun a ha => .inr ha
  have hends : ∀ log (p : PendingPkt), lastLearned log ip = some mac → p.packet.nextHop = ip →
      Ends log p.call p.packet (.sent p.call mac p.packet.ethertype p.packet.data) := by
    intro log p hlog hhop
    apply Ends.sent
    rw [hhop]
    exact hlog
  unfold arpFlush
  rw [hmac]
  simp only [ethSend_eq]
  obtain ⟨hinv, hshrunk, -⟩ := sweep_spec hempty hknown hends
  exact ⟨hinv, hshrunk.given⟩

theorem arpLearn_spec (h : Inv (fun _ => False) m s) (learned : Option (ℕ × List UInt8)) :
    Inv (fun _ => False) m (s.arpLearn learned) ∧ (s.arpLearn learned).given = s.given := by
  cases learned with
  | none => exact ⟨h, rfl⟩
  | some pair =>
    obtain ⟨hinv, hgiven, hresolved⟩ := arpUpdateCache_spec h pair.1 pair.2
    obtain ⟨hinv', hgiven'⟩ := arpFlush_spec hinv (hinv.lookup_ne_none hresolved)
    exact ⟨hinv', hgiven'.trans hgiven⟩

theorem arpInput_spec (h : Inv (fun _ => False) m s) (host len : ℕ) (frame : Traced.Bytes) :
    Inv (fun _ => False) m (s.arpInput host len frame) ∧
    (s.arpInput host len frame).given = s.given := by
  obtain ⟨hinv, hgiven⟩ := arpLearn_spec h (Net.arpInput host len frame).value.learned
  unfold arpInput
  dsimp only
  unfold arpAnswer
  split
  · exact ⟨hinv.emit (fun _ => rfl) (fun _ => rfl) fun _ => rfl, hgiven⟩
  · exact ⟨hinv, hgiven⟩

theorem arpResolve_spec (h : Inv (· = ip) m s)
    (hfound : s.arpFind ip ≠ none → Inv (fun _ => False) m s) (now : ℕ) :
    Inv (fun _ => False) m (s.arpResolve ip now) ∧ (s.arpResolve ip now).given = s.given := by
  unfold arpResolve
  cases hfind : s.arpFind ip with
  | some i => exact ⟨hfound (by simp [hfind]), rfl⟩
  | none =>
    obtain ⟨hinv, hshrunk, havail⟩ := arpAllocSlot_spec h hfind
    exact ⟨hinv.expect havail now, hshrunk.given⟩

theorem arpEnqueue_spec (h : Inv (fun _ => False) s.given.length s) (p : Packet) :
    Inv (· = p.nextHop) (s.given.length + 1) ((s.give p).arpEnqueue s.given.length p) ∧
      ((s.give p).arpEnqueue s.given.length p).given = s.given ++ [p] ∧
      ((s.give p).arpEnqueue s.given.length p).cache = s.cache := by
  unfold arpEnqueue
  split
  next j hfree =>
    have hunused : ((s.give p).queue j).used = false := by
      simpa using List.find?_some hfree
    refine ⟨(h.enqueue_new hunused).mono ?_, rfl, rfl⟩
    intro a ha
    simpa using ha
  · refine ⟨(h.finish_new (.dropped .queueFull)).mono ?_, rfl, rfl⟩
    simp

theorem netTx_spec (h : Inv (fun _ => False) s.given.length s) (p : Packet) (now : ℕ) :
    Inv (fun _ => False) (s.given.length + 1) (s.netTx p now) ∧
    (s.netTx p now).given = s.given ++ [p] := by
  unfold netTx
  dsimp only
  cases hlookup : (s.give p).arpLookup p.nextHop with
  | some mac =>
    have hknown : lastLearned s.log p.nextHop = some mac := h.lookup hlookup
    dsimp only
    rw [ethSend_eq]
    exact ⟨h.finish_new (.sent hknown), rfl⟩
  | none =>
    obtain ⟨hinv, hgiven, hcache⟩ := arpEnqueue_spec h p
    have hfound : ((s.give p).arpEnqueue s.given.length p).arpFind p.nextHop ≠ none →
        Inv (fun _ => False) (s.given.length + 1) ((s.give p).arpEnqueue s.given.length p) := by
      intro hne
      obtain ⟨i, hi⟩ := Option.ne_none_iff_exists'.mp hne
      obtain ⟨hfree, hip⟩ := arpFind_some hi
      -- the lookup failed, so the entry that is there is a pending one
      have hpending : (((s.give p).arpEnqueue s.given.length p).cache i).state = .pending := by
        have hnot : (s.cache i).state ≠ .resolved := by
          intro hresolved
          rw [hcache] at hip
          have hsome : s.arpLookup p.nextHop ≠ none := h.lookup_ne_none ⟨i, hresolved, hip⟩
          exact hsome hlookup
        rw [hcache] at hfree ⊢
        cases hstate : (s.cache i).state with
        | free => exact absurd hstate hfree
        | pending => rfl
        | resolved => exact absurd hstate hnot
      refine ⟨hinv.unique, hinv.learned, ?_, hinv.own, hinv.sent, hinv.accounted⟩
      intro j hj _
      by_cases hhop : (((s.give p).arpEnqueue s.given.length p).queue j).packet.nextHop = p.nextHop
      · exact ⟨i, hpending, hip.trans hhop.symm⟩
      · exact hinv.waiting j hj hhop
    obtain ⟨hinv', hgiven'⟩ := arpResolve_spec hinv hfound now
    exact ⟨hinv', hgiven'.trans hgiven⟩

/-- A change to an entry that keeps what packets go by. -/
theorem Inv.retry (h : Inv E m s) (i : Fin arpCacheSize) (entry : ArpEntry)
    (hip : entry.ip = (s.cache i).ip)
    (hmac : entry.mac = (s.cache i).mac) (hstate : entry.state = (s.cache i).state) :
    Inv E m (s.setEntry i entry) := by
  have hsame : ∀ k, ((s.setEntry i entry).cache k).ip = (s.cache k).ip ∧
      ((s.setEntry i entry).cache k).mac = (s.cache k).mac ∧
      ((s.setEntry i entry).cache k).state = (s.cache k).state := by
    intro k
    rw [setEntry_cache]
    by_cases hki : k = i
    · subst hki
      rw [Function.update_self]
      exact ⟨hip, hmac, hstate⟩
    · rw [Function.update_of_ne hki]
      exact ⟨rfl, rfl, rfl⟩
  constructor
  · intro k l hk hl heq
    rw [(hsame k).2.2] at hk
    rw [(hsame l).2.2] at hl
    rw [(hsame k).1, (hsame l).1] at heq
    exact h.unique k l hk hl heq
  · intro k hk
    obtain ⟨hkip, hkmac, hkstate⟩ := hsame k
    rw [hkstate] at hk
    rw [hkip, hkmac]
    exact h.learned k hk
  · intro j hj hE
    obtain ⟨k, hk, hkip⟩ := h.waiting j hj hE
    refine ⟨k, ?_⟩
    rw [(hsame k).2.2, (hsame k).1]
    exact ⟨hk, hkip⟩
  · exact h.own
  · exact h.sent
  · exact h.accounted

/-- An entry that no packet waits for is given up. -/
theorem Inv.giveUp (h : Inv (fun _ => False) m s) (hclean : ∀ j, (s.queue j).used = true →
    (s.queue j).packet.nextHop ≠ (s.cache i).ip) (entry : ArpEntry) (hfree : entry.state = .free) :
    Inv (fun _ => False) m (s.setEntry i entry) := by
  have hother : ∀ k, ((s.setEntry i entry).cache k).state ≠ .free →
      k ≠ i ∧ (s.setEntry i entry).cache k = s.cache k := by
    intro k hk
    rw [setEntry_cache] at hk ⊢
    by_cases hki : k = i
    · subst hki
      rw [Function.update_self] at hk
      exact absurd hfree hk
    · exact ⟨hki, Function.update_of_ne hki _ _⟩
  constructor
  · intro k l hk hl heq
    obtain ⟨-, hk'⟩ := hother k hk
    obtain ⟨-, hl'⟩ := hother l hl
    rw [hk'] at hk heq
    rw [hl'] at hl heq
    exact h.unique k l hk hl heq
  · intro k hk
    obtain ⟨-, hk'⟩ := hother k (by rw [hk]; decide)
    rw [hk'] at hk ⊢
    exact h.learned k hk
  · intro j hj _
    obtain ⟨k, hk, hkip⟩ := h.waiting j hj not_false
    have hki : k ≠ i := by
      rintro rfl
      exact hclean j hj hkip.symm
    refine ⟨k, ?_⟩
    rw [setEntry_cache, Function.update_of_ne hki]
    exact ⟨hk, hkip⟩
  · exact h.own
  · exact h.sent
  · exact h.accounted

theorem arpTickEntry_spec (h : Inv (fun _ => False) m s) (now : ℕ) (i : Fin arpCacheSize) :
    Inv (fun _ => False) m (arpTickEntry now s i) ∧ (arpTickEntry now s i).given = s.given := by
  unfold arpTickEntry
  dsimp only
  split_ifs
  · exact ⟨h, rfl⟩
  · exact ⟨h, rfl⟩
  · have hempty : Inv (fun a => False ∨ a = (s.cache i).ip) m s := h.mono fun a ha => .inl ha
    obtain ⟨hinv, hshrunk, hclean⟩ := arpDropQueue_spec hempty .unresolved
    refine ⟨hinv.giveUp ?_ _ rfl, hshrunk.given⟩
    rw [hshrunk.cache]
    exact hclean
  · have hretry := h.retry i { s.cache i with
      tries := (s.cache i).tries + 1, lastReq := now } rfl rfl rfl
    exact ⟨hretry.emit (fun _ => rfl) (fun _ => rfl) fun _ => rfl, rfl⟩

theorem arpTick_spec (h : Inv (fun _ => False) m s) (now : ℕ) :
    Inv (fun _ => False) m (s.arpTick now) ∧ (s.arpTick now).given = s.given := by
  unfold arpTick
  apply List.foldlRecOn (motive := fun s' => Inv (fun _ => False) m s' ∧ s'.given = s.given)
  · exact ⟨h, rfl⟩
  · rintro s' ⟨hinv, hgiven⟩ i -
    obtain ⟨hinv', hgiven'⟩ := arpTickEntry_spec hinv now i
    exact ⟨hinv', hgiven'.trans hgiven⟩

/-! ### Runs -/

theorem inv_init : Inv (fun _ => False) 0 init where
  unique i _ hi := absurd rfl hi
  learned i hi := by cases hi
  waiting j hj := by cases hj
  own j hj := by cases hj
  sent call dest ethertype data earlier hsuffix := by simp [init] at hsuffix
  accounted n := by simp [fate, timesSent, timesQueued, timesDropped, init, PendingPkt.waits]

end Arp

/-- The packets that a step gives to `net_tx`. -/
def ArpStep.given : ArpStep → List Packet
  | .netTx p _ => [p]
  | _ => []

namespace Arp

theorem step_spec (h : Inv (fun _ => False) s.given.length s) (step : ArpStep) :
    Inv (fun _ => False) (s.step step).given.length (s.step step) ∧
    (s.step step).given = s.given ++ step.given := by
  have hquiet : ∀ {s' : Arp}, Inv (fun _ => False) s.given.length s' ∧ s'.given = s.given →
      Inv (fun _ => False) s'.given.length s' ∧ s'.given = s.given ++ [] := by
    rintro s' ⟨hinv, hgiven⟩
    rw [hgiven, List.append_nil]
    exact ⟨hinv, rfl⟩
  cases step with
  | netTx p now =>
    obtain ⟨hinv, hgiven⟩ := netTx_spec h p now.toNat
    refine ⟨?_, hgiven⟩
    rw [step, hgiven, List.length_append]
    exact hinv
  | arpInput host len frame => exact hquiet (arpInput_spec h host.toNat len.toNat frame)
  | arpResolve ip now =>
    exact hquiet (arpResolve_spec (h.mono fun _ hf => hf.elim) (fun _ => h) now.toNat)
  | arpTick now => exact hquiet (arpTick_spec h now.toNat)

def run (steps : List ArpStep) : Arp := steps.foldl step init

theorem run_inv (steps : List ArpStep) :
    Inv (fun _ => False) (run steps).given.length (run steps) ∧
    (run steps).given = steps.flatMap ArpStep.given := by
  induction steps using List.reverseRecOn with
  | nil => exact ⟨inv_init, rfl⟩
  | append_singleton steps step ih =>
    obtain ⟨hinv, hgiven⟩ := step_spec ih.1 step
    rw [run, List.foldl_append, List.flatMap_append, ← ih.2]
    refine ⟨hinv, hgiven.trans ?_⟩
    rw [List.flatMap_singleton]

/-- What the ARP tables keep: one entry for an address, a pending entry for every packet that waits;
and every packet given to `net_tx` is sent once, with its own bytes to the address that its next hop
had last, or waits, or was dropped. -/
structure Kept (s : Arp) : Prop where
  unique : ∀ i k, (s.cache i).state ≠ .free → (s.cache k).state ≠ .free →
    (s.cache i).ip = (s.cache k).ip → i = k
  waiting : ∀ j, (s.queue j).used = true →
    ∃ i, (s.cache i).state = .pending ∧ (s.cache i).ip = (s.queue j).packet.nextHop
  own : ∀ j, (s.queue j).used = true → s.given[(s.queue j).call]? = some (s.queue j).packet
  sent : SentRight s.given s.log
  once : ∀ call < s.given.length, s.timesSent call + s.timesQueued call + s.timesDropped call = 1

theorem run_kept (steps : List ArpStep) :
    Kept (run steps) ∧ (run steps).given = steps.flatMap ArpStep.given := by
  obtain ⟨hinv, hgiven⟩ := run_inv steps
  refine ⟨⟨hinv.unique, fun j hj => hinv.waiting j hj not_false, hinv.own, hinv.sent, ?_⟩, hgiven⟩
  intro call hcall
  exact (hinv.accounted call).trans (if_pos hcall)

end Arp

end X86Kernel.Net
