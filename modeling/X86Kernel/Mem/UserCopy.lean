import X86Kernel.Mem.UserMem

/-! The copies to a task agree with the validation. -/
namespace X86Kernel.Paging

theorem toInt_eq {x : ℤ} (hlo : 0 ≤ x) (hhi : x < 2 ^ 31) : toInt x = x := by
  unfold toInt
  exact Int.bmod_eq_of_le (by omega) (by omega)

/-- The length up to which no sum in the routines wraps. -/
def copyLimit : ℕ := 0x7FFFE000

namespace Mem

variable {m : Mem} {p : Process} {rw : Bool} {vaddr : ℕ}

theorem admittedPages_spec (n : ℕ) :
    ∀ i, i ≤ m.admittedPages p rw vaddr n i ∧ m.admittedPages p rw vaddr n i ≤ i + n ∧
    (∀ j, i ≤ j → j < m.admittedPages p rw vaddr n i → m.admits p rw (pageAddr vaddr j) = true) ∧
    (m.admittedPages p rw vaddr n i < i + n →
      m.admits p rw (pageAddr vaddr (m.admittedPages p rw vaddr n i)) ≠ true) := by
  induction n with
  | zero =>
    exact fun i => ⟨le_refl _, le_refl _, fun j hj hlt => absurd hlt (not_lt.mpr hj),
      fun h => absurd h (lt_irrefl i)⟩
  | succ n ih =>
    intro i
    rw [admittedPages]
    by_cases hi : m.admits p rw (pageAddr vaddr i) = true
    · rw [hi, Bool.not_true, if_neg Bool.false_ne_true]
      obtain ⟨hlo, hhi, hbelow, hstop⟩ := ih (i + 1)
      refine ⟨by omega, by omega, fun j hj hlt => ?_, fun h => hstop (by omega)⟩
      by_cases heq : j = i
      · exact heq ▸ hi
      · exact hbelow j (by omega) hlt
    · rw [if_pos (by simpa using hi)]
      exact ⟨le_refl _, by omega, fun j hj hlt => absurd hlt (not_lt.mpr hj), fun _ => hi⟩

/-- The byte `k` of a range has a page that is let through. -/
def Admitted (m : Mem) (p : Process) (rw : Bool) (vaddr k : ℕ) : Prop :=
  m.admits p rw (pageAlignDown ((vaddr + k) % 2 ^ 32)) = true

theorem taskValidateMaxsize_spec {n : ℕ} (hn : n ≤ copyLimit) :
    ∃ k : ℕ, m.taskValidateMaxsize p rw vaddr n = k ∧ k ≤ n ∧
    (∀ j < k, m.Admitted p rw vaddr j) ∧ (k < n → ¬m.Admitted p rw vaddr k) := by
  unfold copyLimit at hn
  unfold taskValidateMaxsize Admitted
  rw [if_neg (by omega)]
  by_cases hzero : n = 0
  · rw [if_pos (by omega)]
    exact ⟨0, rfl, Nat.zero_le _, fun j hj => absurd hj (Nat.not_lt_zero j),
      fun h => absurd h (by omega)⟩
  rw [if_neg (by omega), Int.toNat_natCast]
  obtain ⟨-, hle, hbelow, hstop⟩ := @admittedPages_spec m p rw vaddr (pages vaddr n) 0
  dsimp only
  generalize m.admittedPages p rw vaddr (pages vaddr n) 0 = maxpages at hle hbelow hstop
  rw [Nat.zero_add] at hle hstop
  have hall : ∀ j, (vaddr % pageSize + j) / pageSize < maxpages →
      m.admits p rw (pageAlignDown ((vaddr + j) % 2 ^ 32)) = true := fun j hj => by
    rw [pageAlignDown_eq]
    exact hbelow _ (Nat.zero_le _) hj
  by_cases hnone : maxpages = 0
  · rw [if_pos hnone]
    refine ⟨0, rfl, Nat.zero_le _, fun j hj => absurd hj (Nat.not_lt_zero j), fun _ h => ?_⟩
    have hpage : (vaddr % pageSize + 0) / pageSize = maxpages := by
      unfold pageSize
      omega
    rw [pageAlignDown_eq, hpage] at h
    exact hstop (by unfold pages pageSize; omega) h
  rw [if_neg hnone]
  have hcount : maxpages ≤ (n + vaddr % 0x1000 + 0xFFF) / 0x1000 := hle
  rw [toInt_eq (by unfold pageSize; omega) (by unfold pageSize; omega)]
  by_cases hfull : maxpages = pages vaddr n
  · refine ⟨n, if_neg ?_, le_refl _, fun j hj => hall j (hfull ▸ page_lt_pages hj),
      fun h => absurd h (lt_irrefl n)⟩
    rw [hfull]
    unfold pages pageSize
    omega
  · refine ⟨maxpages * pageSize - vaddr % pageSize, ?_, ?_, fun j hj => hall j ?_, fun _ h => ?_⟩
    · rw [if_pos]
      · unfold pageSize
        omega
      · have hlt := lt_of_le_of_ne hle hfull
        unfold pages pageSize at hlt
        unfold pageSize
        omega
    · have hlt := lt_of_le_of_ne hle hfull
      unfold pages pageSize at hlt
      unfold pageSize
      omega
    · unfold pageSize at hj ⊢
      omega
    · obtain ⟨-, hpage⟩ := exists_byte (Nat.pos_of_ne_zero hzero) (lt_of_le_of_ne hle hfull)
      rw [pageAlignDown_eq, hpage] at h
      exact hstop (lt_of_le_of_ne hle hfull) h

end Mem

namespace Space

variable {e : Env} {s s' : Space} {p : Process}

/-- Memory as the task sees it: a page of the heap that is not there yet is one of zeros. -/
def view (s : Space) (p : Process) (addr : ℕ) : Option UInt8 :=
  match s.mem.flat p.pageDir (addr / pageSize) with
  | some page =>
    if page.user then some (s.bytes (page.frame * pageSize + addr % pageSize)) else none
  | none => if p.taskAddrDemandPaged (pageAlignDown addr) then some 0 else none

/-- Where a byte lies. -/
def place (s : Space) (p : Process) (addr : ℕ) : Option ℕ :=
  (s.mem.flat p.pageDir (addr / pageSize)).map fun page => page.frame * pageSize + addr % pageSize

/-- `malloc` returns no frame that the task has mapped. -/
def Own (e : Env) (s : Space) (p : Process) : Prop :=
  ∀ page entry, s.mem.flat p.pageDir page = some entry → entry.user = true →
    ∀ n, s.mem.mallocs ≤ n → e.malloc n ≠ some entry.frame

/-- Nothing has happened but demand paging. -/
structure Grown (e : Env) (p : Process) (s s' : Space) : Prop where
  tables : Mem.Tables e s'.mem p.pageDir
  own : Own e s' p
  view : ∀ addr, s'.view p addr = s.view p addr
  new : ∀ page, s'.mem.flat p.pageDir page = s.mem.flat p.pageDir page ∨
    s.mem.flat p.pageDir page = none ∧ p.taskAddrDemandPaged (page * pageSize) = true
  mallocs : s.mem.mallocs ≤ s'.mem.mallocs

theorem Grown.refl (h : Mem.Tables e s.mem p.pageDir) (hown : Own e s p) : Grown e p s s :=
  ⟨h, hown, fun _ => rfl, fun _ => .inl rfl, le_refl _⟩

theorem Grown.trans {s'' : Space} (h : Grown e p s s') (h' : Grown e p s' s'') :
    Grown e p s s'' := by
  refine ⟨h'.tables, h'.own, fun addr => (h'.view addr).trans (h.view addr), fun page => ?_,
    h.mallocs.trans h'.mallocs⟩
  rcases h'.new page with hsame | ⟨hnone, hheap⟩
  · rw [hsame]
    exact h.new page
  · rcases h.new page with hsame | hnew
    · exact .inr ⟨hsame ▸ hnone, hheap⟩
    · exact .inr hnew

theorem Refused.mono {s₁ s₂ : Space} (h : Refused e s₁ s₂) (hle : s.mem.mallocs ≤ s₁.mem.mallocs) :
    Refused e s s₂ := by
  obtain ⟨n, hlo, hhi, hnone⟩ := h
  exact ⟨n, hle.trans hlo, hhi, hnone⟩

/-- A page that was mapped stays so. -/
theorem Grown.mapping (h : Grown e p s s') {addr : ℕ}
    (hthere : s.mem.pageCheckmapping p.pageDir addr ≠ pageNotpresent) :
    s'.mem.pageCheckmapping p.pageDir addr = s.mem.pageCheckmapping p.pageDir addr := by
  rw [Mem.pageCheckmapping_eq, Mem.pageCheckmapping_eq]
  unfold Mem.Flat.mapping
  rcases h.new (addr / pageSize) with hsame | ⟨hnone, -⟩
  · rw [hsame]
  · rw [Mem.pageCheckmapping_eq] at hthere
    unfold Mem.Flat.mapping at hthere
    rw [hnone] at hthere
    exact (hthere rfl).elim

/-- Outside of the heap no mapping changes. -/
theorem Grown.mapping_outside (h : Grown e p s s') {addr : ℕ}
    (hout : p.taskAddrDemandPaged (pageAlignDown addr) ≠ true) :
    s'.mem.pageCheckmapping p.pageDir addr = s.mem.pageCheckmapping p.pageDir addr := by
  rw [Mem.pageCheckmapping_eq, Mem.pageCheckmapping_eq]
  unfold Mem.Flat.mapping
  rcases h.new (addr / pageSize) with hsame | ⟨-, hheap⟩
  · rw [hsame]
  · exact (hout hheap).elim

theorem flat_none_iff {addr : ℕ} : s.mem.pageCheckmapping p.pageDir addr = pageNotpresent ↔
    s.mem.flat p.pageDir (addr / pageSize) = none := by
  rw [Mem.pageCheckmapping_eq]
  unfold Mem.Flat.mapping
  constructor
  · intro h
    split at h
    · assumption
    · split_ifs at h <;> exact absurd h (by decide)
  · intro h
    rw [h]
    rfl

/-- A page of the heap that is mapped on demand changes nothing the task sees. -/
theorem grown_taskDemandMap (hf : Fresh e.malloc) (h : Mem.Tables e s.mem p.pageDir)
    (hown : Own e s p) {addr : ℕ} (hheap : p.taskAddrDemandPaged (pageAlignDown addr) = true) :
    Grown e p s (s.taskDemandMap e p addr).1 := by
  by_cases habsent : s.mem.pageCheckmapping p.pageDir addr = pageNotpresent
  · obtain ⟨htab, hlt, hbytes, hok, hno⟩ := taskDemandMap_absent hf h habsent
    have hkept : ∀ page entry, s.mem.flat p.pageDir page = some entry → entry.user = true →
          ∀ off < pageSize,
        (s.taskDemandMap e p addr).1.bytes (entry.frame * pageSize + off) =
          s.bytes (entry.frame * pageSize + off) := by
      intro page entry hentry huser off hoff
      refine hbytes _ fun hmalloc => hown page entry hentry huser _ (le_refl _) ?_
      rw [hmalloc, Nat.mul_comm, Nat.mul_add_div (by decide), Nat.div_eq_of_lt hoff, Nat.add_zero]
    generalize s.taskDemandMap e p addr = r at *
    cases hr : r.2 with
    | false =>
      obtain ⟨-, hflat⟩ := hno hr
      refine ⟨htab, fun page entry hentry huser n hn => ?_, fun a => ?_,
        fun page => .inl (by rw [hflat]), hlt.le⟩
      · rw [hflat] at hentry
        exact hown page entry hentry huser n (by omega)
      · unfold Space.view
        rw [hflat]
        cases hentry : s.mem.flat p.pageDir (a / pageSize) with
        | none => rfl
        | some entry =>
          dsimp only
          split_ifs with huser
          · rw [hkept _ _ hentry huser _ (Nat.mod_lt _ (by decide))]
          · rfl
    | true =>
      obtain ⟨frame, hmalloc, hzero, hflat⟩ := hok hr
      have hother : ∀ page, page ≠ addr / pageSize →
          r.1.mem.flat p.pageDir page = s.mem.flat p.pageDir page := by
        intro page hne
        rw [hflat]
        exact if_neg (by omega)
      have hpage : r.1.mem.flat p.pageDir (addr / pageSize) = some ⟨frame, true, true⟩ := by
        rw [hflat]
        unfold Flat.mapRange
        rw [if_pos ⟨le_refl _, Nat.lt_succ_self _⟩, Nat.sub_self, Nat.add_zero]
      refine ⟨htab, fun page entry hentry huser n hn => ?_, fun a => ?_, fun page => ?_, hlt.le⟩
      · by_cases heq : page = addr / pageSize
        · rw [heq, hpage] at hentry
          obtain rfl := Option.some.inj hentry
          exact fun hagain => absurd (hf.once _ _ _ hagain hmalloc) (by omega)
        · rw [hother page heq] at hentry
          exact hown page entry hentry huser n (by omega)
      · unfold Space.view
        by_cases heq : a / pageSize = addr / pageSize
        · have hzeros : r.1.bytes (frame * pageSize + a % pageSize) = 0 := by
            refine hzero _ ?_
            rw [Nat.mul_comm, Nat.mul_add_div (by decide),
              Nat.div_eq_of_lt (Nat.mod_lt _ (by decide)), Nat.add_zero]
          have hheap' : p.taskAddrDemandPaged (pageAlignDown a) = true := by
            unfold pageAlignDown at hheap ⊢
            rw [heq]
            exact hheap
          rw [heq, hpage, flat_none_iff.mp habsent, hheap']
          dsimp only
          rw [hzeros]
        · rw [hother _ heq]
          cases hentry : s.mem.flat p.pageDir (a / pageSize) with
          | none => rfl
          | some entry =>
            dsimp only
            split_ifs with huser
            · rw [hkept _ _ hentry huser _ (Nat.mod_lt _ (by decide))]
            · rfl
      · by_cases heq : page = addr / pageSize
        · exact .inr ⟨heq ▸ flat_none_iff.mp habsent, heq ▸ hheap⟩
        · exact .inl (hother page heq)
  · have hsame : (s.taskDemandMap e p addr).1 = s := by
      unfold taskDemandMap
      dsimp only
      rw [pageCheckmapping_alignDown]
      by_cases hrw : s.mem.pageCheckmapping p.pageDir addr = pageUserrw
      · rw [if_pos hrw]
      · rw [if_neg hrw, if_pos habsent]
    rw [hsame]
    exact .refl h hown

/-- The page of a byte is neither writable nor could it be made so. -/
def Unmappable (e : Env) (s s' : Space) (p : Process) (addr : ℕ) : Prop :=
  s'.mem.pageCheckmapping p.pageDir addr ≠ pageUserrw ∧
    (p.taskAddrDemandPaged (pageAlignDown addr) = false ∨
      s'.mem.pageCheckmapping p.pageDir addr ≠ pageNotpresent ∨
      Refused e s s')

/-- What the loop of `task_prefault` returns when page `i` stops it. -/
def prefaultStop (vaddr i : ℕ) : ℤ := if i = 0 then 0 else toInt ((pageAddr vaddr i : ℤ) - vaddr)

theorem pageAlignDown_pageAddr (vaddr i : ℕ) :
    pageAlignDown (pageAddr vaddr i) = pageAddr vaddr i := by
  unfold pageAddr pageAlignDown pageSize
  omega

/-- `task_demand_map` leaves a page writable, or one that cannot be made so. -/
theorem taskDemandMap_result (hf : Fresh e.malloc) (h : Mem.Tables e s.mem p.pageDir) {addr : ℕ} :
    ((s.taskDemandMap e p addr).2 = true →
      (s.taskDemandMap e p addr).1.mem.pageCheckmapping p.pageDir addr = pageUserrw) ∧
    ((s.taskDemandMap e p addr).2 = false →
      Unmappable e s (s.taskDemandMap e p addr).1 p addr) := by
  by_cases habsent : s.mem.pageCheckmapping p.pageDir addr = pageNotpresent
  · obtain ⟨-, -, -, hok, hno⟩ := taskDemandMap_absent hf h habsent
    constructor
    · intro hr
      obtain ⟨page, -, -, hflat⟩ := hok hr
      rw [Mem.pageCheckmapping_eq, hflat]
      unfold Mem.Flat.mapping Flat.mapRange
      rw [if_pos ⟨le_refl _, Nat.lt_succ_self _⟩]
      rfl
    · intro hr
      obtain ⟨hrefused, hflat⟩ := hno hr
      refine ⟨?_, .inr (.inr hrefused)⟩
      rw [Mem.pageCheckmapping_eq, hflat, ← Mem.pageCheckmapping_eq, habsent]
      decide
  · unfold taskDemandMap
    dsimp only
    rw [pageCheckmapping_alignDown]
    by_cases hrw : s.mem.pageCheckmapping p.pageDir addr = pageUserrw
    · rw [if_pos hrw]
      exact ⟨fun _ => hrw, fun h => absurd h.symm Bool.false_ne_true⟩
    · rw [if_neg hrw, if_pos habsent]
      exact ⟨fun h => absurd h Bool.false_ne_true, fun _ => ⟨hrw, .inr (.inl habsent)⟩⟩

theorem Unmappable.mono {s₁ : Space} {addr : ℕ} (h : Unmappable e s₁ s' p addr)
    (hle : s.mem.mallocs ≤ s₁.mem.mallocs) :
    Unmappable e s s' p addr :=
  ⟨h.1, h.2.imp_right (Or.imp_right fun hrefused => hrefused.mono hle)⟩

/-- What the loop of `task_prefault` has done when it ends. -/
theorem prefaultPages_spec (hf : Fresh e.malloc) (vaddr : ℕ) (size : ℤ) (n : ℕ) :
    ∀ (i : ℕ) (s : Space), Mem.Tables e s.mem p.pageDir → Own e s p →
      Grown e p s (prefaultPages e p vaddr size n i s).1 ∧
      ∃ j, i ≤ j ∧ j ≤ i + n ∧
        (∀ k, i ≤ k → k < j → (prefaultPages e p vaddr size n i s).1.mem.pageCheckmapping p.pageDir
          (pageAddr vaddr k) = pageUserrw) ∧
        (j = i + n ∧ (prefaultPages e p vaddr size n i s).2 = size ∨
          j < i + n ∧ (prefaultPages e p vaddr size n i s).2 = prefaultStop vaddr j ∧
            Unmappable e s (prefaultPages e p vaddr size n i s).1 p (pageAddr vaddr j)) := by
  induction n with
  | zero =>
    exact fun i s h hown =>
      ⟨.refl h hown, i, le_refl _, le_refl _, fun k hk hlt => absurd hlt (not_lt.mpr hk),
        .inl ⟨rfl, rfl⟩⟩
  | succ n ih =>
    intro i s h hown
    -- the pages from the next one on, after a page that is writable now
    have hnext : ∀ s₁, Grown e p s s₁ →
          s₁.mem.pageCheckmapping p.pageDir (pageAddr vaddr i) = pageUserrw →
        Grown e p s (prefaultPages e p vaddr size n (i + 1) s₁).1 ∧ ∃ j, i ≤ j ∧ j ≤ i + (n + 1) ∧
          (∀ k, i ≤ k → k < j →
            (prefaultPages e p vaddr size n (i + 1) s₁).1.mem.pageCheckmapping p.pageDir
              (pageAddr vaddr k) = pageUserrw) ∧
          (j = i + (n + 1) ∧ (prefaultPages e p vaddr size n (i + 1) s₁).2 = size ∨
            j < i + (n + 1) ∧ (prefaultPages e p vaddr size n (i + 1) s₁).2 = prefaultStop vaddr j ∧
              Unmappable e s (prefaultPages e p vaddr size n (i + 1) s₁).1 p
                (pageAddr vaddr j)) := by
      intro s₁ hgrown hrw
      obtain ⟨hgrown', j, hij, hjn, hmapped, hend⟩ := ih (i + 1) s₁ hgrown.tables hgrown.own
      refine ⟨hgrown.trans hgrown', j, by omega, by omega, fun k hk hkj => ?_, ?_⟩
      · by_cases heq : k = i
        · rw [heq, hgrown'.mapping (hrw ▸ by decide), hrw]
        · exact hmapped k (by omega) hkj
      · rcases hend with ⟨hj, hsize⟩ | ⟨hj, hstop, hun⟩
        · exact .inl ⟨by omega, hsize⟩
        · exact .inr ⟨by omega, hstop, hun.mono hgrown.mallocs⟩
    rw [prefaultPages]
    by_cases hrw : s.mem.pageCheckmapping p.pageDir (pageAddr vaddr i) = pageUserrw
    · rw [if_pos hrw]
      exact hnext s (.refl h hown) hrw
    rw [if_neg hrw]
    by_cases hheap : p.taskAddrDemandPaged (pageAddr vaddr i) = true
    · have halign : p.taskAddrDemandPaged (pageAlignDown (pageAddr vaddr i)) = true := by
        rw [pageAlignDown_pageAddr]
        exact hheap
      have hgrown := grown_taskDemandMap hf h hown halign
      obtain ⟨hok, hno⟩ := @taskDemandMap_result e s p hf h (pageAddr vaddr i)
      rw [hheap, Bool.not_true, if_neg Bool.false_ne_true]
      by_cases hr : (s.taskDemandMap e p (pageAddr vaddr i)).2 = true
      · rw [if_pos hr]
        exact hnext _ hgrown (hok hr)
      · rw [if_neg hr]
        exact ⟨hgrown, i, le_refl _, by omega, fun k hk hlt => absurd hlt (not_lt.mpr hk),
          .inr ⟨by omega, rfl, hno (by simpa using hr)⟩⟩
    · rw [Bool.not_eq_true] at hheap
      rw [hheap, Bool.not_false, if_pos rfl]
      refine ⟨.refl h hown, i, le_refl _, by omega, fun k hk hlt => absurd hlt (not_lt.mpr hk),
        .inr ⟨by omega, rfl, hrw, .inl ?_⟩⟩
      rw [pageAlignDown_pageAddr]
      exact hheap

/-! ### The copy -/

@[simp] theorem memcpy_mem (dir dest : ℕ) (src : ℕ → UInt8) (n : ℕ) :
    (s.memcpy dir dest src n).mem = s.mem := by
  induction n with
  | zero => rfl
  | succ n ih => exact ih

/-- `memcpy` stores its bytes and no others; of two at one place the later one stays. -/
theorem memcpy_bytes (dir dest : ℕ) (src : ℕ → UInt8) (n : ℕ) :
    (∀ x, (∀ j < n, x ≠ s.mem.pageGetphysical dir ((dest + j) % 2 ^ 32)) →
      (s.memcpy dir dest src n).bytes x = s.bytes x) ∧
    ∀ j < n, (∀ i, j < i → i < n → s.mem.pageGetphysical dir ((dest + i) % 2 ^ 32) ≠
      s.mem.pageGetphysical dir ((dest + j) % 2 ^ 32)) →
      (s.memcpy dir dest src n).bytes (s.mem.pageGetphysical dir ((dest + j) % 2 ^ 32)) =
      src j := by
  induction n with
  | zero => exact ⟨fun _ _ => rfl, fun j hj => absurd hj (Nat.not_lt_zero j)⟩
  | succ n ih =>
    obtain ⟨hkept, hstored⟩ := ih
    rw [memcpy, memcpy_mem]
    dsimp only
    constructor
    · intro x hx
      rw [if_neg (hx n (Nat.lt_succ_self n))]
      exact hkept x fun j hj => hx j (Nat.lt_succ_of_lt hj)
    · intro j hj hlast
      by_cases heq : j = n
      · rw [heq, if_pos rfl]
      · rw [if_neg fun hsame => hlast n (by omega) (Nat.lt_succ_self n) hsame.symm]
        exact hstored j (by omega) fun i hi hin => hlast i hi (by omega)

/-- `k` bytes of the `n` have been copied. -/
structure Copied (e : Env) (s s' : Space) (p : Process) (dest : ℕ) (src : ℕ → UInt8)
    (n k : ℕ) : Prop where
  le : k ≤ n
  stored : ∀ j < k,
    (∀ i, j < i → i < k → s'.place p ((dest + i) % 2 ^ 32) ≠ s'.place p ((dest + j) % 2 ^ 32)) →
    s'.view p ((dest + j) % 2 ^ 32) = some (src j)
  writable : ∀ j < k, s'.mem.pageCheckmapping p.pageDir ((dest + j) % 2 ^ 32) = pageUserrw
  others : ∀ addr, (∀ j < k, s'.place p addr ≠ s'.place p ((dest + j) % 2 ^ 32)) →
    s'.view p addr = s.view p addr
  short : k < n → Unmappable e s s' p ((dest + k) % 2 ^ 32)

/-- The entry of a page that the task may read. -/
theorem entry_of_user {addr : ℕ} (h : pageUserread ≤ s.mem.pageCheckmapping p.pageDir addr) :
    ∃ entry, s.mem.flat p.pageDir (addr / pageSize) = some entry ∧ entry.user = true := by
  rw [Mem.pageCheckmapping_eq] at h
  unfold Mem.Flat.mapping at h
  cases hentry : s.mem.flat p.pageDir (addr / pageSize) with
  | none =>
    rw [hentry] at h
    exact absurd h (by decide)
  | some entry =>
    rw [hentry] at h
    refine ⟨entry, rfl, ?_⟩
    by_contra huser
    dsimp only at h
    rw [if_neg huser] at h
    split_ifs at h <;> exact absurd h (by decide)

theorem place_of_entry (h : Mem.Tables e s.mem p.pageDir) {addr : ℕ} {entry : Page}
    (hentry : s.mem.flat p.pageDir (addr / pageSize) = some entry) :
    s.place p addr = some (s.mem.pageGetphysical p.pageDir addr) ∧
      s.mem.pageGetphysical p.pageDir addr = entry.frame * pageSize + addr % pageSize := by
  have hphysical :
      s.mem.pageGetphysical p.pageDir addr = entry.frame * pageSize + addr % pageSize := by
    rw [Mem.pageGetphysical_eq h]
    unfold Mem.Flat.physical
    rw [hentry]
  refine ⟨?_, hphysical⟩
  unfold place
  rw [hentry, hphysical]
  rfl

/-- Stores to pages that are writable, after demand paging. -/
theorem Grown.copied {s₁ : Space} (h : Grown e p s s₁) {dest n k : ℕ} (src : ℕ → UInt8)
    (hle : k ≤ n)
    (hrw : ∀ j < k, s₁.mem.pageCheckmapping p.pageDir ((dest + j) % 2 ^ 32) = pageUserrw)
    (hshort : k < n → Unmappable e s s₁ p ((dest + k) % 2 ^ 32)) :
    Copied e s (s₁.memcpy p.pageDir dest src k) p dest src n k := by
  obtain ⟨hkept, hstored⟩ := @memcpy_bytes s₁ p.pageDir dest src k
  have hplace : ∀ addr, (s₁.memcpy p.pageDir dest src k).place p addr = s₁.place p addr :=
    fun addr => by
    unfold place
    rw [memcpy_mem]
  have hread : ∀ j < k, pageUserread ≤ s₁.mem.pageCheckmapping p.pageDir ((dest + j) % 2 ^ 32) :=
    fun j hj => (hrw j hj).symm ▸ by decide
  have hwhere : ∀ j < k, s₁.place p ((dest + j) % 2 ^ 32) =
      some (s₁.mem.pageGetphysical p.pageDir ((dest + j) % 2 ^ 32)) := by
    intro j hj
    obtain ⟨entry, hentry, -⟩ := entry_of_user (hread j hj)
    exact (place_of_entry h.tables hentry).1
  refine ⟨hle, fun j hj hlast => ?_, fun j hj => ?_, fun addr hother => ?_, fun hlt => ?_⟩
  · obtain ⟨entry, hentry, huser⟩ := entry_of_user (hread j hj)
    have hbyte := hstored j hj fun i hji hik hsame =>
      hlast i hji hik (by rw [hplace, hplace, hwhere i hik, hwhere j hj, hsame])
    rw [(place_of_entry h.tables hentry).2] at hbyte
    unfold Space.view
    rw [memcpy_mem, hentry]
    dsimp only
    rw [if_pos huser, hbyte]
  · rw [memcpy_mem]
    exact hrw j hj
  · rw [← h.view addr]
    unfold Space.view
    rw [memcpy_mem]
    cases hentry : s₁.mem.flat p.pageDir (addr / pageSize) with
    | none => rfl
    | some entry =>
      dsimp only
      rw [hkept]
      intro j hj hsame
      obtain ⟨hat, hphysical⟩ := place_of_entry h.tables hentry
      exact hother j hj (by rw [hplace, hplace, hat, hwhere j hj, hphysical, hsame])
  · obtain ⟨hno, hwhy⟩ := hshort hlt
    unfold Unmappable Refused
    rw [memcpy_mem]
    exact ⟨hno, hwhy⟩

/-- The offset of the page that stopped the loop. -/
theorem prefaultStop_eq {vaddr j size : ℕ} (hv : vaddr < 2 ^ 32) (hpos : 0 < j)
    (hj : j < pages vaddr size) (hsize : size ≤ copyLimit) :
    prefaultStop vaddr j = ((j * pageSize - vaddr % pageSize : ℕ) : ℤ) := by
  unfold copyLimit at hsize
  unfold pages pageSize at hj
  have hadd : ((pageAddr vaddr j : ℤ) - vaddr) = ((j * pageSize - vaddr % pageSize : ℕ) : ℤ) ∨
      ((pageAddr vaddr j : ℤ) - vaddr) = ((j * pageSize - vaddr % pageSize : ℕ) : ℤ) - 2 ^ 32 := by
    unfold pageAddr pageAlignDown pageSize
    omega
  unfold prefaultStop toInt
  rw [if_neg hpos.ne']
  unfold pageSize at hadd ⊢
  rw [Int.bmod_eq_iff (by decide)]
  refine ⟨by omega, by omega, ?_⟩
  rcases hadd with hadd | hadd
  · rw [hadd, sub_self]
    exact dvd_zero _
  · rw [hadd, sub_sub_cancel]
    exact dvd_refl _

/-- The page of byte `j * pageSize - vaddr % pageSize`, the first one of page `j`. -/
theorem pageAddr_eq_byte {vaddr j : ℕ} (hpos : 0 < j) :
    (vaddr + (j * pageSize - vaddr % pageSize)) % 2 ^ 32 = pageAddr vaddr j := by
  unfold pageAddr pageAlignDown pageSize
  omega

theorem copyToTask_eq {dest n : ℕ} {src : ℕ → UInt8} {maxsize : ℤ}
    (h : s.mem.taskValidateMaxsize p true dest (toInt n) = maxsize) : s.copyToTask e p dest src n =
      if maxsize < 0 ∨ 0 < n ∧ maxsize = 0 then (s, -1)
      else if 0 < n ∧ (s.taskPrefault e p dest maxsize).2 = 0 then
        ((s.taskPrefault e p dest maxsize).1, -1)
      else ((s.taskPrefault e p dest maxsize).1.memcpy p.pageDir dest src
        (s.taskPrefault e p dest maxsize).2.toNat,
        (s.taskPrefault e p dest maxsize).2) := by
  unfold copyToTask
  rw [h]

theorem copyToTask_spec (hf : Fresh e.malloc) (h : Mem.Tables e s.mem p.pageDir) (hown : Own e s p)
    {dest n : ℕ} (hd : dest < 2 ^ 32) (src : ℕ → UInt8) (hn : n ≤ copyLimit)
    (hok : 0 ≤ (s.copyToTask e p dest src n).2) :
    ∃ k : ℕ, (s.copyToTask e p dest src n).2 = k ∧
      Copied e s (s.copyToTask e p dest src n).1 p dest src n k := by
  have hint : toInt (n : ℤ) = n := toInt_eq (by omega) (by unfold copyLimit at hn; omega)
  obtain ⟨K, hmax, hKn, hadmitted, hstop⟩ := @Mem.taskValidateMaxsize_spec s.mem p true dest n hn
  rw [copyToTask_eq (hint.symm ▸ hmax)] at hok ⊢
  by_cases hbad : (K : ℤ) < 0 ∨ 0 < n ∧ (K : ℤ) = 0
  · rw [if_pos hbad] at hok
    dsimp only at hok
    omega
  rw [if_neg hbad] at hok ⊢
  have hprefault := prefaultPages_spec (p := p) hf dest (K : ℤ) (pages dest K) 0 s h hown
  have hK : (s.taskPrefault e p dest (K : ℤ)) = prefaultPages e p dest K (pages dest K) 0 s := by
    unfold taskPrefault
    rw [Int.toNat_natCast]
  rw [hK] at hok ⊢
  generalize prefaultPages e p dest K (pages dest K) 0 s = r at hok hprefault ⊢
  obtain ⟨hgrown, j, -, hj, hmapped, hend⟩ := hprefault
  rw [Nat.zero_add] at hj hend
  by_cases hmem : 0 < n ∧ r.2 = 0
  · rw [if_pos hmem] at hok
    dsimp only at hok
    omega
  rw [if_neg hmem] at hok ⊢
  dsimp only
  -- the bytes before page `j` are writable
  have hrw : ∀ k, (dest % pageSize + k) / pageSize < j →
      r.1.mem.pageCheckmapping p.pageDir ((dest + k) % 2 ^ 32) = pageUserrw := by
    intro k hk
    rw [← pageCheckmapping_alignDown, pageAlignDown_eq]
    exact hmapped _ (Nat.zero_le _) hk
  rcases hend with ⟨hall, hsize⟩ | ⟨hj, hsize, hun⟩
  · refine ⟨K, hsize, ?_⟩
    rw [hsize, Int.toNat_natCast]
    refine hgrown.copied src hKn (fun k hk => hrw k (hall ▸ page_lt_pages hk)) fun hlt => ?_
    have hnot := hstop hlt
    unfold Mem.Admitted at hnot
    rw [Mem.admits_iff, not_or, not_le, pageCheckmapping_alignDown] at hnot
    have hout : p.taskAddrDemandPaged (pageAlignDown ((dest + K) % 2 ^ 32)) = false := by
      by_contra hheap
      exact hnot.2 ⟨rfl, by simpa using hheap⟩
    refine ⟨?_, .inl hout⟩
    rw [hgrown.mapping_outside (by rw [hout]; exact Bool.false_ne_true)]
    exact ne_of_lt hnot.1
  · by_cases hzero : j = 0
    · have hnone : r.2 = 0 := by
        rw [hsize, hzero]
        exact if_pos rfl
      have hn0 : n = 0 := by
        by_contra hne
        exact hmem ⟨Nat.pos_of_ne_zero hne, hnone⟩
      refine ⟨0, hnone, ?_⟩
      rw [hnone]
      exact hgrown.copied src (Nat.zero_le _) (fun k hk => absurd hk (Nat.not_lt_zero k)) fun hlt =>
        absurd hlt (by omega)
    · have hpos := Nat.pos_of_ne_zero hzero
      have hKlimit := hKn.trans hn
      have hcopied := hsize.trans (prefaultStop_eq hd hpos hj hKlimit)
      have hKpos : 0 < K := by
        by_contra hK0
        unfold pages pageSize at hj
        omega
      refine ⟨j * pageSize - dest % pageSize, hcopied, ?_⟩
      rw [hcopied, Int.toNat_natCast]
      obtain ⟨hlt, -⟩ := exists_byte hKpos hj
      refine hgrown.copied src (by omega) (fun k hk => hrw k ?_) fun _ => ?_
      · unfold pageSize at hk ⊢
        omega
      · rw [pageAddr_eq_byte hpos]
        exact hun

theorem copyFromTask_eq {src n : ℕ} {dest : ℕ → UInt8} {maxsize : ℤ}
    (h : s.mem.taskValidateMaxsize p false src (toInt n) = maxsize) : s.copyFromTask p dest src n =
      if maxsize < 0 ∨ 0 < n ∧ maxsize = 0 then (dest, -1)
      else (fun k => if k < maxsize.toNat then
        s.bytes (s.mem.pageGetphysical p.pageDir ((src + k) % 2 ^ 32)) else dest k,
        maxsize) := by
  unfold copyFromTask
  rw [h]

/-- A copy from a task gives the first bytes it sees there, up to a page it may not read. -/
theorem copyFromTask_spec (h : Mem.Tables e s.mem p.pageDir) {src n : ℕ} (dest : ℕ → UInt8)
    (hn : n ≤ copyLimit) (hok : 0 ≤ (s.copyFromTask p dest src n).2) :
    ∃ k : ℕ, (s.copyFromTask p dest src n).2 = k ∧ k ≤ n ∧
      (∀ j < k, s.view p ((src + j) % 2 ^ 32) = some ((s.copyFromTask p dest src n).1 j)) ∧
      (∀ j, k ≤ j → (s.copyFromTask p dest src n).1 j = dest j) ∧
      (k < n → s.mem.pageCheckmapping p.pageDir ((src + k) % 2 ^ 32) < pageUserread) := by
  have hint : toInt (n : ℤ) = n := toInt_eq (by omega) (by unfold copyLimit at hn; omega)
  obtain ⟨k, hmax, hkn, hadmitted, hstop⟩ := @Mem.taskValidateMaxsize_spec s.mem p false src n hn
  have hread : ∀ j, s.mem.Admitted p false src j ↔
      pageUserread ≤ s.mem.pageCheckmapping p.pageDir ((src + j) % 2 ^ 32) := by
    intro j
    unfold Mem.Admitted
    rw [Mem.admits_iff, pageCheckmapping_alignDown]
    exact ⟨fun hor => hor.resolve_right fun hno => Bool.false_ne_true hno.1, .inl⟩
  rw [copyFromTask_eq (hint.symm ▸ hmax)] at hok ⊢
  by_cases hbad : (k : ℤ) < 0 ∨ 0 < n ∧ (k : ℤ) = 0
  · rw [if_pos hbad] at hok
    dsimp only at hok
    omega
  rw [if_neg hbad]
  dsimp only
  rw [Int.toNat_natCast]
  refine ⟨k, rfl, hkn, fun j hj => ?_, fun j hj => if_neg (not_lt.mpr hj), fun hlt => ?_⟩
  · obtain ⟨entry, hentry, huser⟩ := entry_of_user ((hread j).mp (hadmitted j hj))
    rw [if_pos hj, (place_of_entry h hentry).2]
    unfold view
    rw [hentry]
    dsimp only
    rw [if_pos huser]
  · exact not_le.mp fun hle => hstop hlt ((hread k).mpr hle)

/-- The routines agree on a process, an address and a mode. -/
structure RoutinesAgree (e : Env) (s : Space) (p : Process) (rw : Bool) (vaddr : ℕ) : Prop where
  validate : ∀ n ≤ copyLimit, s.mem.taskValidateMem p rw vaddr n = true ↔
    s.mem.taskValidateMaxsize p rw vaddr n = n
  monotone : ∀ n n', n ≤ n' → n' ≤ copyLimit →
    s.mem.taskValidateMaxsize p rw vaddr n ≤ s.mem.taskValidateMaxsize p rw vaddr n'
  greatest : ∀ n ≤ copyLimit,
    IsGreatest {k : ℤ | 0 ≤ k ∧ k ≤ n ∧ ∀ j < k.toNat, s.mem.Admitted p rw vaddr j}
    (s.mem.taskValidateMaxsize p rw vaddr n)
  copy : ∀ n ≤ copyLimit, ∀ src, 0 ≤ (s.copyToTask e p vaddr src n).2 →
    ∃ k : ℕ, (s.copyToTask e p vaddr src n).2 = k ∧
      Copied e s (s.copyToTask e p vaddr src n).1 p vaddr src n k

theorem isGreatest_maxsize {rw : Bool} {vaddr n : ℕ} (hn : n ≤ copyLimit) :
    IsGreatest {k : ℤ | 0 ≤ k ∧ k ≤ n ∧ ∀ j < k.toNat, s.mem.Admitted p rw vaddr j}
      (s.mem.taskValidateMaxsize p rw vaddr n) := by
  obtain ⟨K, hmax, hle, hall, hstop⟩ := @Mem.taskValidateMaxsize_spec s.mem p rw vaddr n hn
  rw [hmax]
  refine ⟨⟨by omega, by omega, fun j hj => hall j (by omega)⟩, fun k ⟨hpos, hkn, hk⟩ => ?_⟩
  by_contra hlt
  exact hstop (by omega) (hk K (by omega))

theorem routines_agree (hf : Fresh e.malloc) (h : Mem.Tables e s.mem p.pageDir) (hown : Own e s p)
    (rw : Bool) {vaddr : ℕ} (hv : vaddr < 2 ^ 32) : RoutinesAgree e s p rw vaddr where
  validate := by
    intro n hn
    obtain ⟨K, hmax, hle, hall, hstop⟩ := @Mem.taskValidateMaxsize_spec s.mem p rw vaddr n hn
    rw [Mem.taskValidateMem_iff, hmax, Int.toNat_natCast]
    constructor
    · intro hvalid
      by_contra hne
      exact hstop (by omega) (hvalid.2 K (by omega))
    · intro heq
      exact ⟨by omega, fun k hk => hall k (by omega)⟩
  monotone := by
    intro n n' hnn' hn'
    obtain ⟨⟨hpos, hle, hall⟩, -⟩ := @isGreatest_maxsize s p rw vaddr n (hnn'.trans hn')
    exact (isGreatest_maxsize hn').2 ⟨hpos, by omega, hall⟩
  greatest := fun n hn => isGreatest_maxsize hn
  copy := fun n hn src => copyToTask_spec hf h hown hv src hn

/-- The kernel's pages are not the task's. -/
theorem identityFlat_user (ranges : List (ℕ × ℕ)) :
    ∀ f : Flat, (∀ page entry, f page = some entry → entry.user = false) →
    ∀ page entry, Mem.identityFlat ranges f page = some entry → entry.user = false := by
  induction ranges with
  | nil => exact fun f hf => hf
  | cons r ranges ih =>
    intro f hf
    refine ih _ fun page entry hentry => ?_
    unfold Flat.mapRange at hentry
    split_ifs at hentry
    · obtain rfl := Option.some.inj hentry
      rfl
    · exact hf page entry hentry

/-- A copy that starts before the last bytes of a page, in a heap of two pages. -/
theorem routines_agree_two_pages : ∃ m dir, blankMem.newPage smallEnv = (m, some dir) ∧
    RoutinesAgree smallEnv ⟨m, fun _ => 0⟩ ⟨dir, 0x20000000, 0x20002000⟩ true 0x20000FF0 := by
  obtain ⟨m, dir, hnew, htab, hflat⟩ := newPage_kernelFlat
  refine ⟨m, dir, hnew,
    routines_agree smallEnv_fresh htab (fun page entry hentry huser => ?_) true (by decide)⟩
  rw [hflat] at hentry
  have hkernel :=
    identityFlat_user _ _ (fun _ _ h => (Option.some_ne_none _ h.symm).elim) page entry hentry
  rw [hkernel] at huser
  exact absurd huser Bool.false_ne_true

end Space

end X86Kernel.Paging
