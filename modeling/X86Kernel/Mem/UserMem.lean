import X86Kernel.Mem.PagingRun

/-! The kernel's access to the memory of a task: validation, demand paging and the copies. -/
namespace X86Kernel.Paging

/-- `PAGE_USERRW`. -/
def pageUserrw : ℤ := 2

/-- `PAGE_USERREAD`. -/
def pageUserread : ℤ := 1

/-- `PAGE_NOTPRESENT`. -/
def pageNotpresent : ℤ := 0

/-- What the routines read of a process. -/
structure Process where
  pageDir : ℕ
  heapStart : ℕ
  heapEnd : ℕ

def Process.taskAddrDemandPaged (p : Process) (addr : ℕ) : Bool :=
  p.heapStart ≤ addr ∧ addr < p.heapEnd

/-- A number as an `int`. -/
def toInt (x : ℤ) : ℤ := x.bmod (2 ^ 32)

/-- `page_addr` of the loops: the `i`th page from that of `vaddr` on. -/
def pageAddr (vaddr i : ℕ) : ℕ := (pageAlignDown vaddr + i * pageSize) % 2 ^ 32

/-- The number of pages the loops go over. -/
def pages (vaddr size : ℕ) : ℕ := (size + vaddr % pageSize + (pageSize - 1)) / pageSize

namespace Mem

variable (m : Mem) (p : Process) (rw : Bool)

/-- `check`. -/
def check (rw : Bool) : ℤ := if rw then pageUserrw else pageUserread

/-- A page is let through. -/
def admits (addr : ℕ) : Bool :=
  !(m.pageCheckmapping p.pageDir addr < check rw ∧ !(rw ∧ p.taskAddrDemandPaged addr))

/-- The loop of `task_validate_mem` from page `i` on. -/
def validatePages (vaddr : ℕ) : ℕ → ℕ → Bool
  | 0, _ => true
  | n + 1, i => if !m.admits p rw (pageAddr vaddr i) then false else validatePages vaddr n (i + 1)

def taskValidateMem (vaddr : ℕ) (len : ℤ) : Bool :=
  if len < 0 then false
  else if len = 0 then true
  else m.validatePages p rw vaddr (pages vaddr len.toNat) 0

/-- The loop of `task_validate_maxsize` from page `i` on: how many pages are let through. -/
def admittedPages (vaddr : ℕ) : ℕ → ℕ → ℕ
  | 0, i => i
  | n + 1, i => if !m.admits p rw (pageAddr vaddr i) then i else admittedPages vaddr n (i + 1)

def taskValidateMaxsize (vaddr : ℕ) (max : ℤ) : ℤ :=
  if max < 0 then -1
  else if max = 0 then 0
  else
    let maxpages := m.admittedPages p rw vaddr (pages vaddr max.toNat) 0
    if maxpages = 0 then 0
    else
      let maxsize := toInt (maxpages * pageSize - vaddr % pageSize)
      if maxsize < max then maxsize else max

end Mem

/-- The page tables, and the bytes of the frames they map. -/
structure Space where
  mem : Mem
  bytes : ℕ → UInt8

namespace Space

variable (e : Env) (s : Space) (p : Process)

def taskDemandMap (addr : ℕ) : Space × Bool :=
  let addr := pageAlignDown addr
  let mapping := s.mem.pageCheckmapping p.pageDir addr
  if mapping = pageUserrw then (s, true)
  else if mapping ≠ pageNotpresent then (s, false)
  else
    match (s.mem.mallocPage e).2 with
    | none => ({ s with mem := (s.mem.mallocPage e).1 }, false)
    | some page =>
      let r := (s.mem.mallocPage e).1.map e p.pageDir (page * pageSize) addr true true false
      (⟨r.1, fun x => if x / pageSize = page then 0 else s.bytes x⟩, r.2)

/-- `page_fault_handler` on a fault at `addr` of the task that is served. -/
def pageFaultHandler (addr : ℕ) : Space × Bool :=
  if p.taskAddrDemandPaged addr then s.taskDemandMap e p addr else (s, false)

/-- The loop of `task_prefault` from page `i` on. -/
def prefaultPages (vaddr : ℕ) (size : ℤ) : ℕ → ℕ → Space → Space × ℤ
  | 0, _, s => (s, size)
  | n + 1, i, s =>
    let addr := pageAddr vaddr i
    let stop := if i = 0 then 0 else toInt ((addr : ℤ) - vaddr)
    if s.mem.pageCheckmapping p.pageDir addr = pageUserrw then prefaultPages vaddr size n (i + 1) s
    else if !p.taskAddrDemandPaged addr then (s, stop)
    else if (s.taskDemandMap e p addr).2 then
    prefaultPages vaddr size n (i + 1) (s.taskDemandMap e p addr).1
    else ((s.taskDemandMap e p addr).1, stop)

def taskPrefault (vaddr : ℕ) (size : ℤ) : Space × ℤ :=
  prefaultPages e p vaddr size (pages vaddr size.toNat) 0 s

/-- `n` bytes stored through a page directory, in the order of their addresses. -/
def memcpy (dir dest : ℕ) (src : ℕ → UInt8) : ℕ → Space
  | 0 => s
  | n + 1 =>
    let s' := memcpy dir dest src n
    { s' with bytes := fun x => if x = s'.mem.pageGetphysical dir ((dest + n) % 2 ^ 32) then src n
      else s'.bytes x }

/-- `copy_to_task` for a task, whose process is `p`. -/
def copyToTask (dest : ℕ) (src : ℕ → UInt8) (size : ℕ) : Space × ℤ :=
  let maxsize := s.mem.taskValidateMaxsize p true dest (toInt size)
  if maxsize < 0 ∨ (0 < size ∧ maxsize = 0) then (s, -1)
  else
    let r := s.taskPrefault e p dest maxsize
    if 0 < size ∧ r.2 = 0 then (r.1, -1) else (r.1.memcpy p.pageDir dest src r.2.toNat, r.2)

/-- `copy_from_task` for a task: the buffer, which holds `dest` before, and the bytes copied. -/
def copyFromTask (dest : ℕ → UInt8) (src size : ℕ) : (ℕ → UInt8) × ℤ :=
  let maxsize := s.mem.taskValidateMaxsize p false src (toInt size)
  if maxsize < 0 ∨ (0 < size ∧ maxsize = 0) then (dest, -1)
  else
    (fun k => if k < maxsize.toNat then
      s.bytes (s.mem.pageGetphysical p.pageDir ((src + k) % 2 ^ 32)) else dest k, maxsize)

end Space

/-! ### Pages -/

theorem pageAlignDown_eq (vaddr k : ℕ) :
    pageAlignDown ((vaddr + k) % 2 ^ 32) = pageAddr vaddr ((vaddr % pageSize + k) / pageSize) := by
  unfold pageAlignDown pageAddr pageAlignDown pageSize
  omega

theorem page_lt_pages {vaddr k size : ℕ} (h : k < size) :
    (vaddr % pageSize + k) / pageSize < pages vaddr size := by
  unfold pages pageSize
  omega

/-- Every page of the range holds a byte of it. -/
theorem exists_byte {vaddr i size : ℕ} (hsize : 0 < size) (h : i < pages vaddr size) :
    i * pageSize - vaddr % pageSize < size ∧
    (vaddr % pageSize + (i * pageSize - vaddr % pageSize)) / pageSize = i := by
  unfold pages pageSize at h
  unfold pageSize
  omega

theorem pageCheckmapping_alignDown (m : Mem) (dir addr : ℕ) :
    m.pageCheckmapping dir (pageAlignDown addr) = m.pageCheckmapping dir addr := by
  have hpage : pageAlignDown addr / pageSize = addr / pageSize := Nat.mul_div_cancel _ (by decide)
  rw [Mem.pageCheckmapping_eq, Mem.pageCheckmapping_eq]
  unfold Mem.Flat.mapping
  rw [hpage]

/-! ### Demand paging -/

namespace Mem

variable {e : Env} {m : Mem} {dir : ℕ}

/-- A new page takes none of the directory's. -/
theorem mallocPage_spec (hf : Fresh e.malloc) (h : Tables e m dir) :
    Tables e (m.mallocPage e).1 dir ∧ (m.mallocPage e).1.flat dir = m.flat dir ∧
      (m.mallocPage e).1.mallocs = m.mallocs + 1 ∧ (m.mallocPage e).2 = e.malloc m.mallocs := by
  unfold mallocPage
  cases hm : e.malloc m.mallocs with
  | none => exact ⟨h.tick, rfl, rfl, rfl⟩
  | some page =>
    have hne : ∀ a, (∃ n < m.mallocs, e.malloc n = some a) → a ≠ page := by
      rintro a ⟨n, hn, hd⟩ rfl
      exact absurd (hf.once _ _ _ hd hm) hn.ne
    have hdir : ∀ i, (if dir = page then Entry.zero else m.entries dir i) = m.entries dir i :=
      fun i => if_neg (hne dir h.dir_used)
    have htable : ∀ i j, (m.entries dir i).present →
          (if (m.entries dir i).address = page then Entry.zero
        else m.entries (m.entries dir i).address j) = m.entries (m.entries dir i).address j :=
          fun i j hi => if_neg (hne _ (h.used i hi))
    have hused : ∀ a, (∃ n < m.mallocs, e.malloc n = some a) →
        ∃ n < m.mallocs + 1, e.malloc n = some a :=
      fun a ⟨n, hn, hd⟩ => ⟨n, Nat.lt_succ_of_lt hn, hd⟩
    refine ⟨⟨h.dir_pos, hused _ h.dir_used, fun i => ?_, fun i => ?_, fun i => ?_, fun i j => ?_,
      fun i j => ?_⟩, ?_, rfl, rfl⟩
    · dsimp only
      rw [hdir]
      exact fun hi => hused _ (h.used i hi)
    · dsimp only
      rw [hdir]
      exact h.pos i
    · dsimp only
      rw [hdir]
      exact h.ne_dir i
    · dsimp only
      rw [hdir, hdir]
      exact h.apart i j
    · dsimp only
      rw [hdir]
      intro hi
      rw [htable i j hi]
      exact h.narrow i j hi
    · funext a
      unfold flat
      dsimp only
      rw [hdir]
      by_cases hd : (m.entries dir (a / 1024)).present
      · rw [htable _ _ hd]
      · rw [if_neg fun hh => hd hh.1, if_neg fun hh => hd hh.1]

/-- `map` fails only for want of memory. -/
theorem map_mallocs (hd : 0 < dir) (addr vaddr : ℕ) (user rw noCache : Bool) :
    m.mallocs ≤ (m.map e dir addr vaddr user rw noCache).1.mallocs ∧
      ((m.map e dir addr vaddr user rw noCache).2 = false →
        e.malloc m.mallocs = none ∧
        m.mallocs < (m.map e dir addr vaddr user rw noCache).1.mallocs) := by
  unfold map table mallocPage
  rw [if_neg hd.ne']
  dsimp only
  by_cases hold : (!(m.entries dir (vaddr / 0x1000 / 1024)).present) = true ∨
    (m.entries dir (vaddr / 0x1000 / 1024)).address = 0
  · rw [if_pos hold]
    cases e.malloc m.mallocs with
    | none => exact ⟨Nat.le_succ _, fun _ => ⟨rfl, Nat.lt_succ_self _⟩⟩
    | some page => exact ⟨Nat.le_succ _, fun h => absurd h.symm Bool.false_ne_true⟩
  · rw [if_neg hold]
    exact ⟨le_refl _, fun h => absurd h.symm Bool.false_ne_true⟩

end Mem

namespace Space

variable {e : Env} {s : Space} {p : Process}

/-- `malloc` refused a page between the two states. -/
def Refused (e : Env) (s s' : Space) : Prop :=
  ∃ n, s.mem.mallocs ≤ n ∧ n < s'.mem.mallocs ∧ e.malloc n = none

/-- What `task_demand_map` does with a page that is not there. -/
theorem taskDemandMap_absent (hf : Fresh e.malloc) (h : Mem.Tables e s.mem p.pageDir) {addr : ℕ}
    (habsent : s.mem.pageCheckmapping p.pageDir addr = pageNotpresent) :
    Mem.Tables e (s.taskDemandMap e p addr).1.mem p.pageDir ∧
    s.mem.mallocs < (s.taskDemandMap e p addr).1.mem.mallocs ∧
    (∀ x, e.malloc s.mem.mallocs ≠ some (x / pageSize) →
      (s.taskDemandMap e p addr).1.bytes x = s.bytes x) ∧
    ((s.taskDemandMap e p addr).2 = true → ∃ page, e.malloc s.mem.mallocs = some page ∧
      (∀ x, x / pageSize = page → (s.taskDemandMap e p addr).1.bytes x = 0) ∧
      (s.taskDemandMap e p addr).1.mem.flat p.pageDir =
      (s.mem.flat p.pageDir).mapRange (addr / pageSize) page 1 true true) ∧
    ((s.taskDemandMap e p addr).2 = false → Refused e s (s.taskDemandMap e p addr).1 ∧
      (s.taskDemandMap e p addr).1.mem.flat p.pageDir = s.mem.flat p.pageDir) := by
  obtain ⟨htab, hflat, hcount, hpage⟩ := Mem.mallocPage_spec hf h
  have halign : pageAlignDown addr / 0x1000 = addr / pageSize := Nat.mul_div_cancel _ (by decide)
  unfold taskDemandMap
  dsimp only
  rw [pageCheckmapping_alignDown, habsent, if_neg (by decide), if_neg (by decide), hpage]
  cases hm : e.malloc s.mem.mallocs with
  | none =>
    dsimp only
    refine ⟨htab, hcount ▸ Nat.lt_succ_self _, fun _ _ => rfl, fun h => absurd h Bool.false_ne_true,
      fun _ => ⟨?_, hflat⟩⟩
    exact ⟨s.mem.mallocs, le_refl _, hcount ▸ Nat.lt_succ_self _, hm⟩
  | some page =>
    dsimp only
    have hfits := (hf.page _ _ hm).2
    have hframe : page * pageSize / 0x1000 = page := Nat.mul_div_cancel _ (by decide)
    have haddr : page * pageSize < 2 ^ 32 := by
      unfold pageSize
      omega
    obtain ⟨htab', hmapped, hfailed⟩ :=
      Mem.map_spec hf htab haddr (pageAlignDown addr) true true false
    obtain ⟨hle, hrefused⟩ :=
      @Mem.map_mallocs e (s.mem.mallocPage e).1 p.pageDir h.dir_pos (page * pageSize)
      (pageAlignDown addr) true true false
    rw [hframe, halign, hflat] at hmapped
    rw [hflat] at hfailed
    refine ⟨htab', by omega, fun x hx => if_neg fun heq => hx (congrArg some heq.symm),
      fun hok => ⟨page, rfl, fun x hx => if_pos hx, hmapped hok⟩,
      fun hno => ⟨?_, hfailed hno⟩⟩
    obtain ⟨hnone, hlt⟩ := hrefused hno
    exact ⟨(s.mem.mallocPage e).1.mallocs, by omega, hlt, hnone⟩

/-! ### Validation -/

/-- The fault on a byte ends well, or for want of memory. -/
def Served (e : Env) (s : Space) (p : Process) (addr : ℕ) : Prop :=
  ((s.pageFaultHandler e p addr).2 = true ∧
    (s.pageFaultHandler e p addr).1.mem.pageCheckmapping p.pageDir addr = pageUserrw) ∨
  Refused e s (s.pageFaultHandler e p addr).1

/-- The kernel can access a byte of a task. -/
structure ByteOk (e : Env) (s : Space) (p : Process) (rw : Bool) (addr : ℕ) : Prop where
  access : Mem.check rw ≤ s.mem.pageCheckmapping p.pageDir addr ∨ rw = true ∧ Served e s p addr
  notKernel : pageNotpresent ≤ s.mem.pageCheckmapping p.pageDir addr

def ValidationSound (e : Env) (s : Space) (p : Process) (rw : Bool) (vaddr : ℕ) (len : ℤ) : Prop :=
  s.mem.taskValidateMem p rw vaddr len = true →
    ∀ k < len.toNat, ByteOk e s p rw ((vaddr + k) % 2 ^ 32)

/-- The page starts in the heap and is not writable, but it is there or the heap ends before the
byte. -/
def SlipsAt (s : Space) (p : Process) (addr : ℕ) : Prop :=
  p.taskAddrDemandPaged (pageAlignDown addr) = true ∧
    s.mem.pageCheckmapping p.pageDir addr ≠ pageUserrw ∧
    (s.mem.pageCheckmapping p.pageDir addr ≠ pageNotpresent ∨ p.heapEnd ≤ addr)

/-- Every page of the range is writable or starts in the heap, and one of its bytes is not
served. -/
def Slips (s : Space) (p : Process) (rw : Bool) (vaddr : ℕ) (len : ℤ) : Prop :=
  rw = true ∧
  (∀ k < len.toNat, s.mem.pageCheckmapping p.pageDir ((vaddr + k) % 2 ^ 32) = pageUserrw ∨
    p.taskAddrDemandPaged (pageAlignDown ((vaddr + k) % 2 ^ 32)) = true) ∧
  ∃ k < len.toNat, SlipsAt s p ((vaddr + k) % 2 ^ 32)

end Space

namespace Mem

variable {m : Mem} {p : Process} {rw : Bool} {vaddr : ℕ}

theorem pageCheckmapping_le (m : Mem) (dir addr : ℕ) :
    m.pageCheckmapping dir addr ≤ pageUserrw := by
  unfold pageCheckmapping pageUserrw
  dsimp only
  split_ifs <;> decide

theorem admits_iff {addr : ℕ} : m.admits p rw addr = true ↔
    check rw ≤ m.pageCheckmapping p.pageDir addr ∨
    rw = true ∧ p.taskAddrDemandPaged addr = true := by
  unfold admits
  rw [Bool.not_eq_true', decide_eq_false_iff_not, not_and_or, not_lt]
  simp

theorem validatePages_iff (n : ℕ) : ∀ i, m.validatePages p rw vaddr n i = true ↔
    ∀ j, i ≤ j → j < i + n → m.admits p rw (pageAddr vaddr j) = true := by
  induction n with
  | zero => exact fun i => ⟨fun _ j _ _ => by omega, fun _ => rfl⟩
  | succ n ih =>
    intro i
    rw [validatePages]
    by_cases hi : m.admits p rw (pageAddr vaddr i) = true
    · rw [hi, Bool.not_true, if_neg Bool.false_ne_true, ih]
      constructor
      · intro h j hj hlt
        by_cases heq : j = i
        · exact heq ▸ hi
        · exact h j (by omega) (by omega)
      · exact fun h j hj hlt => h j (by omega) (by omega)
    · rw [if_pos (by simpa using hi)]
      exact ⟨fun h => absurd h Bool.false_ne_true, fun h => (hi (h i (le_refl _) (by omega))).elim⟩

/-- The pages of a range are the pages of its bytes. -/
theorem forall_pages_iff {size : ℕ} (hsize : 0 < size) (P : ℕ → Prop) :
    (∀ j < pages vaddr size, P (pageAddr vaddr j)) ↔
      ∀ k < size, P (pageAlignDown ((vaddr + k) % 2 ^ 32)) := by
  constructor
  · intro h k hk
    rw [pageAlignDown_eq]
    exact h _ (page_lt_pages hk)
  · intro h j hj
    obtain ⟨hlt, hpage⟩ := exists_byte hsize hj
    have hP := h _ hlt
    rw [pageAlignDown_eq, hpage] at hP
    exact hP

theorem taskValidateMem_iff {len : ℤ} : m.taskValidateMem p rw vaddr len = true ↔
    0 ≤ len ∧ ∀ k < len.toNat, m.admits p rw (pageAlignDown ((vaddr + k) % 2 ^ 32)) = true := by
  unfold taskValidateMem
  by_cases hneg : len < 0
  · rw [if_pos hneg]
    exact ⟨fun h => absurd h Bool.false_ne_true, fun h => absurd h.1 (by omega)⟩
  rw [if_neg hneg]
  by_cases hzero : len = 0
  · rw [if_pos hzero, hzero]
    exact ⟨fun _ => ⟨le_refl _, fun k hk => absurd hk (Nat.not_lt_zero k)⟩, fun _ => rfl⟩
  rw [if_neg hzero, validatePages_iff,
    ← forall_pages_iff (by omega) fun a => m.admits p rw a = true]
  exact ⟨fun h => ⟨by omega, fun j hj => h j (Nat.zero_le _) (by omega)⟩,
    fun h j _ hj => h.2 j (by omega)⟩

end Mem

namespace Space

variable {e : Env} {s : Space} {p : Process}

/-- In a page that is there, but not writable, a fault is not served. -/
theorem not_served {addr : ℕ} (hrw : s.mem.pageCheckmapping p.pageDir addr ≠ pageUserrw)
    (h : s.mem.pageCheckmapping p.pageDir addr ≠ pageNotpresent ∨ p.heapEnd ≤ addr) :
    ¬Served e s p addr := by
  have hhandler : s.pageFaultHandler e p addr = (s, false) := by
    unfold pageFaultHandler
    split_ifs with hheap
    · unfold Process.taskAddrDemandPaged at hheap
      have hbelow := (of_decide_eq_true hheap).2
      have hthere := h.resolve_right (by omega)
      unfold taskDemandMap
      dsimp only
      rw [pageCheckmapping_alignDown, if_neg hrw, if_pos hthere]
    · rfl
  unfold Served Refused
  rw [hhandler]
  rintro (⟨hok, -⟩ | ⟨n, hle, hlt, -⟩)
  · exact Bool.false_ne_true hok
  · exact absurd (lt_of_le_of_lt hle hlt) (lt_irrefl _)

theorem served_of_absent (hf : Fresh e.malloc) (h : Mem.Tables e s.mem p.pageDir) {addr : ℕ}
    (hheap : p.taskAddrDemandPaged addr = true)
    (habsent : s.mem.pageCheckmapping p.pageDir addr = pageNotpresent) :
    Served e s p addr := by
  obtain ⟨-, -, -, hok, hno⟩ := taskDemandMap_absent hf h habsent
  have hhandler : s.pageFaultHandler e p addr = s.taskDemandMap e p addr := if_pos hheap
  unfold Served
  rw [hhandler]
  cases hr : (s.taskDemandMap e p addr).2 with
  | false => exact .inr (hno hr).1
  | true =>
    obtain ⟨page, -, -, hflat⟩ := hok hr
    refine .inl ⟨rfl, ?_⟩
    rw [Mem.pageCheckmapping_eq, hflat]
    unfold Mem.Flat.mapping Flat.mapRange
    rw [if_pos ⟨le_refl _, Nat.lt_succ_self _⟩]
    rfl

/-- Among the pages let through, the bytes that are not right are those that slip. -/
theorem byteOk_iff (hf : Fresh e.malloc) (h : Mem.Tables e s.mem p.pageDir) {addr : ℕ}
    (hadmits : s.mem.admits p true (pageAlignDown addr) = true) : ByteOk e s p true addr ↔
    ¬SlipsAt s p addr := by
  rw [Mem.admits_iff, pageCheckmapping_alignDown] at hadmits
  have hle := Mem.pageCheckmapping_le s.mem p.pageDir addr
  by_cases hrw : s.mem.pageCheckmapping p.pageDir addr = pageUserrw
  · exact ⟨fun _ hslips => hslips.2.1 hrw, fun _ => ⟨.inl hrw.ge, hrw ▸ by decide⟩⟩
  have hcheck : ¬Mem.check true ≤ s.mem.pageCheckmapping p.pageDir addr :=
    fun hge => hrw (le_antisymm hle hge)
  have hheap := (hadmits.resolve_left hcheck).2
  by_cases hslips : s.mem.pageCheckmapping p.pageDir addr ≠ pageNotpresent ∨ p.heapEnd ≤ addr
  · have hnot := @not_served e _ _ _ hrw hslips
    exact ⟨fun hok => (hok.access.elim hcheck fun hserved => hnot hserved.2).elim,
      fun hno => (hno ⟨hheap, hrw, hslips⟩).elim⟩
  · rw [not_or, not_not] at hslips
    have hbyte : p.taskAddrDemandPaged addr = true := by
      unfold Process.taskAddrDemandPaged pageAlignDown at hheap
      have hstart := (of_decide_eq_true hheap).1
      have hdown := Nat.div_mul_le_self addr pageSize
      exact decide_eq_true ⟨by omega, by omega⟩
    exact ⟨fun _ h => h.2.2.elim (fun hthere => hthere hslips.1) hslips.2,
      fun _ => ⟨.inr ⟨rfl, served_of_absent hf h hbyte hslips.1⟩, hslips.1.ge⟩⟩

/-- A range that validates can be accessed, unless it reaches a page of the heap that is mapped
otherwise, or past the end of the heap in a page that is not there yet. -/
theorem validationSound_iff (hf : Fresh e.malloc) (h : Mem.Tables e s.mem p.pageDir) (rw : Bool)
    (vaddr : ℕ) (len : ℤ) :
    ValidationSound e s p rw vaddr len ↔ ¬Slips s p rw vaddr len := by
  unfold ValidationSound
  rw [Mem.taskValidateMem_iff]
  cases rw with
  | false =>
    refine ⟨fun _ hslips => Bool.false_ne_true hslips.1, fun _ hvalid k hk => ?_⟩
    have hadmits := Mem.admits_iff.mp (hvalid.2 k hk)
    rw [pageCheckmapping_alignDown] at hadmits
    have hread := hadmits.resolve_right fun hno => Bool.false_ne_true hno.1
    exact ⟨.inl hread, le_trans (by decide) hread⟩
  | true =>
    constructor
    · rintro hsound ⟨-, hall, k, hk, hslips⟩
      have hadmits :
          ∀ k < len.toNat, s.mem.admits p true (pageAlignDown ((vaddr + k) % 2 ^ 32)) = true := by
        intro k hk
        rw [Mem.admits_iff, pageCheckmapping_alignDown]
        exact (hall k hk).imp (fun hrw => hrw.ge) fun hheap => ⟨rfl, hheap⟩
      exact (byteOk_iff hf h (hadmits k hk)).mp (hsound ⟨by omega, hadmits⟩ k hk) hslips
    · intro hno hvalid k hk
      rw [byteOk_iff hf h (hvalid.2 k hk)]
      refine fun hslips => hno ⟨rfl, fun j hj => ?_, k, hk, hslips⟩
      have hadmits := Mem.admits_iff.mp (hvalid.2 j hj)
      rw [pageCheckmapping_alignDown] at hadmits
      exact hadmits.imp (fun hge => le_antisymm (Mem.pageCheckmapping_le _ _ _) hge) fun hheap =>
        hheap.2

theorem kernelFlat_none : Mem.kernelFlat smallEnv 0x20000 = none := by
  unfold Mem.kernelFlat Mem.identityRanges Mem.identityFlat Mem.identityFlat Mem.identityFlat
    Mem.identityFlat Flat.mapRange
  rfl

/-- A directory that maps the kernel only, with nothing at 0x20000000. -/
theorem absent_of_kernelFlat {m : Mem} {dir : ℕ}
    (hflat : m.flat dir = Mem.kernelFlat smallEnv) {addr : ℕ}
    (hlo : 0x20000000 ≤ addr) (hhi : addr < 0x20001000) :
      m.pageCheckmapping dir addr = pageNotpresent := by
  have hpage : addr / pageSize = 0x20000 := by
    unfold pageSize
    omega
  rw [Mem.pageCheckmapping_eq]
  unfold Mem.Flat.mapping
  rw [hpage, hflat, kernelFlat_none]
  rfl

theorem newPage_kernelFlat :
    ∃ m dir, blankMem.newPage smallEnv = (m, some dir) ∧ Mem.Tables smallEnv m dir ∧
    m.flat dir = Mem.kernelFlat smallEnv := by
  obtain ⟨dir, hdir⟩ := smallEnv_newPage
  obtain ⟨htab, hflat⟩ := Mem.newPage_spec smallEnv_fresh hdir
  have hpair : ∀ r : Mem × Option ℕ, r.2 = some dir → r = (r.1, some dir) := fun r h => by rw [← h]
  exact ⟨_, dir, hpair _ hdir, htab, hflat⟩

/-- With a heap of one whole page. -/
theorem validationSound_one_page : ∃ m dir, blankMem.newPage smallEnv = (m, some dir) ∧
    m.taskValidateMem ⟨dir, 0x20000000, 0x20001000⟩ true 0x20000010 0x100 = true ∧
    ValidationSound smallEnv ⟨m, fun _ => 0⟩
      ⟨dir, 0x20000000, 0x20001000⟩ true 0x20000010 0x100 := by
  obtain ⟨m, dir, hnew, htab, hflat⟩ := newPage_kernelFlat
  refine ⟨m, dir, hnew, ?_, ?_⟩
  · rw [Mem.taskValidateMem_iff]
    refine ⟨by decide, fun k hk => Mem.admits_iff.mpr (.inr ⟨rfl, decide_eq_true ?_⟩)⟩
    change k < 0x100 at hk
    unfold pageAlignDown pageSize
    dsimp only
    omega
  · rw [validationSound_iff smallEnv_fresh htab]
    rintro ⟨-, -, k, hk, -, -, hslips⟩
    change k < 0x100 at hk
    have hno := absent_of_kernelFlat hflat
      (show 0x20000000 ≤ (0x20000010 + k) % 2 ^ 32 by omega) (by omega)
    rcases hslips with hthere | hend
    · exact hthere hno
    · dsimp only at hend
      omega

/-- With a heap of one byte, as `sbrk(1)` makes it, 256 bytes validate and the second one is not
served. -/
theorem validation_past_heap_end : ∃ m dir, blankMem.newPage smallEnv = (m, some dir) ∧
    ¬ValidationSound smallEnv ⟨m, fun _ => 0⟩
      ⟨dir, 0x20000000, 0x20000001⟩ true 0x20000000 0x100 := by
  obtain ⟨m, dir, hnew, -, hflat⟩ := newPage_kernelFlat
  refine ⟨m, dir, hnew, fun hsound => ?_⟩
  have hvalid : m.taskValidateMem ⟨dir, 0x20000000, 0x20000001⟩ true 0x20000000 0x100 = true := by
    rw [Mem.taskValidateMem_iff]
    refine ⟨by decide, fun k hk => Mem.admits_iff.mpr (.inr ⟨rfl, decide_eq_true ?_⟩)⟩
    change k < 0x100 at hk
    unfold pageAlignDown pageSize
    dsimp only
    omega
  have hno := absent_of_kernelFlat hflat (show 0x20000000 ≤ 0x20000001 by decide) (by decide)
  have hrw : m.pageCheckmapping dir 0x20000001 ≠ pageUserrw :=
    fun h => absurd (hno.symm.trans h) (by decide)
  have haddr : (0x20000000 + 1) % 2 ^ 32 = 0x20000001 := by decide
  have hbyte := (hsound hvalid 1 (by decide)).access
  rw [haddr] at hbyte
  rcases hbyte with hge | ⟨-, hserved⟩
  · exact absurd (hge.trans hno.le) (by decide)
  · exact not_served hrw (.inr (Nat.le_of_eq rfl)) hserved

end Space

end X86Kernel.Paging
