import X86Kernel.Fat.Resolve

/-! The parent of a path: where the walk of a lookup ends, and where an update looks for the
entry. -/
namespace X86Kernel.Fat

open Vol

variable {g : Geom} {v v' v'' : Vol} {e : Env}

/-! ### Splitting a path -/

theorem exists_last_slash {path : Str} (h : slash ∈ path) :
    ∃ p q, path = p ++ slash :: q ∧ slash ∉ q := by
  obtain ⟨as, bs, heq, hnot⟩ := List.eq_append_cons_of_mem (List.mem_reverse.mpr h)
  refine ⟨bs.reverse, as.reverse, ?_, fun hmem => hnot (List.mem_reverse.mp hmem)⟩
  rw [← List.reverse_reverse path, heq, List.reverse_append, List.reverse_cons, List.append_assoc]
  rfl

theorem strsplitLast_append {p q : Str} (hq : slash ∉ q) :
    strsplitLast (p ++ slash :: q) slash = (p, q) := by
  have hrev : (p ++ slash :: q).reverse = q.reverse ++ slash :: p.reverse := by
    rw [List.reverse_append, List.reverse_cons, List.append_assoc]
    rfl
  have hall : ∀ b ∈ q.reverse, decide (b ≠ slash) = true := fun b hb =>
    decide_eq_true fun heq => hq (heq ▸ List.mem_reverse.mp hb)
  unfold strsplitLast
  rw [if_pos (List.mem_append_right _ List.mem_cons_self), hrev, List.dropWhile_append_of_pos hall,
    List.takeWhile_append_of_pos hall, List.dropWhile_cons_of_neg (by decide),
    List.takeWhile_cons_of_neg (by decide),
    List.append_nil, List.tail_cons, List.reverse_reverse, List.reverse_reverse]

theorem pathElements_of_notMem {q : Str} (hq : slash ∉ q) : pathElements q = ([], q) := by
  rw [pathElements_eq]
  unfold strsplit
  rw [if_neg hq]
  exact if_neg Bool.false_ne_true

theorem pathElements_append {q : Str} (hq : slash ∉ q) (p : Str) :
    pathElements (p ++ slash :: q) = (components p, q) := by
  induction p with
  | nil =>
    rw [List.nil_append, pathElements, if_pos rfl, pathElements_of_notMem hq]
    rfl
  | cons c p ih =>
    rw [List.cons_append, pathElements, ih]
    unfold components
    rw [pathElements]
    by_cases hc : c = slash
    · rw [if_pos hc, if_pos hc]
      rfl
    · rw [if_neg hc, if_neg hc]
      cases (pathElements p).1 <;> rfl

/-! ### The directory a walk ends in -/

/-- Going on by one component. -/
theorem parseElements_snoc (e : Env) (last : Str) (l : List Str) : ∀ (cur : Option Raw) (v : Vol),
    (parseElements e (l ++ [last]) cur v).2.join = finish e last (parseElements e l cur v) := by
  induction l with
  | nil =>
    intro cur v
    rw [List.nil_append, parseElements, parseElements]
    unfold finish
    dsimp only
    cases hf : (v.fatFollowPathChain e last cur).2 with
    | same => rfl
    | entry dir => rfl
    | missing =>
      dsimp only
      cases cur with
      | none => rfl
      | some dir => rfl
  | cons c l ih =>
    intro cur v
    rw [List.cons_append, parseElements, parseElements]
    cases hf : (v.fatFollowPathChain e c cur).2 with
    | same => exact ih cur _
    | entry dir => exact ih (some dir) _
    | missing =>
      dsimp only
      split_ifs
      · exact ih none _
      · rfl

/-- Where the walk through a list of components ends; `none` is the root, or nowhere. -/
def walkEnd (e : Env) (v : Vol) (l : List Str) : Option Raw := (parseElements e l none v).2.join

theorem fatParsePath_false (e : Env) (v : Vol) (path : Str) :
    (v.fatParsePath e path false).2 = walkEnd e v (pathElements path).1 := by
  unfold fatParsePath walkEnd
  dsimp only
  cases (parseElements e (pathElements path).1 none v).2 with
  | none => rfl
  | some cur => rfl

theorem fatParsePath_true (e : Env) (v : Vol) (path : Str) :
    (v.fatParsePath e path true).2 = walkEnd e v (components path) := by
  rw [fatParsePath_finish]
  exact (parseElements_snoc e _ _ none v).symm

/-! ### Lookups depend on the directories they go through -/

/-- A directory in use that is no part of `chain`. -/
structure Aside (g : Geom) (v : Vol) (chain : List ℕ) (d : ℕ) : Prop where
  area : g.IsArea d
  taken : d = 0 ∨ v.table d ≠ 0
  notMem : d ∉ chain

/-- The directories apart from `chain` have the entries they had. -/
def DirsKept (g : Geom) (chain : List ℕ) (v v' : Vol) : Prop :=
  ∀ d, Aside g v chain d → ∀ i < (dirRegion g d).entries, entryIn g v' d i = entryIn g v d i

/-- The number of the directory a walk is in. -/
def dirOf : Option Raw → ℕ
  | none => 0
  | some dir => dir.firstClusterNo

/-- A walk is in the root or in a directory apart from `chain`. -/
def InDir (g : Geom) (v : Vol) (chain : List ℕ) (cur : Option Raw) : Prop :=
  cur = none ∨ fatValidCluster g (dirOf cur) = true ∧ v.table (dirOf cur) ≠ 0 ∧ dirOf cur ∉ chain

theorem InDir.aside {chain : List ℕ} {cur : Option Raw} (h : InDir g v chain cur) (h0 : 0 ∉ chain) :
    Aside g v chain (dirOf cur) := by
  rcases h with rfl | ⟨hvalid, hne, hnot⟩
  · exact ⟨.inl rfl, .inl rfl, h0⟩
  · exact ⟨.inr hvalid, .inr hne, hnot⟩

/-- A walk goes through directories apart from `chain`. -/
def WalkIn (e : Env) (chain : List ℕ) : List Str → Option Raw → Vol → Prop
  | [], cur, v => InDir e.geom v chain cur
  | c :: rest, cur, v => InDir e.geom v chain cur ∧
    match (v.fatFollowPathChain e c cur).2 with
    | .same => WalkIn e chain rest cur v
    | .entry dir => WalkIn e chain rest (some dir) v
    | .missing => cur = none → WalkIn e chain rest none v

/-- The entry that a component names in the directory the walk is in. `..` is entry 1, but not in
the root. -/
def findIn (g : Geom) (v : Vol) (cur : Option Raw) (c : Str) : Option ℕ :=
  if c = dotdot ∧ cur.isSome then some 1
  else scanFrom ((dirRegion g (dirOf cur)).buf v.disk) (nameOf c) (extensionOf c)
    (dirRegion g (dirOf cur)).entries 0

theorem scanFrom_congr {buf buf' : Buf} {name extension : Str} (n : ℕ) : ∀ {i : ℕ},
    (∀ k, i ≤ k → k < i + n → entryAt buf' k = entryAt buf k) →
    scanFrom buf' name extension n i = scanFrom buf name extension n i := by
  induction n with
  | zero => exact fun _ => rfl
  | succ n ih =>
    intro i h
    rw [scanFrom, scanFrom, h i (le_refl _) (by omega),
      ih fun k hk hk' => h k (by omega) (by omega)]

theorem scanFrom_upper {buf : Buf} {name extension name' extension' : Str}
    (hn : strtoupper name' = strtoupper name)
    (hx : strtoupper extension' = strtoupper extension) (n i : ℕ) :
    scanFrom buf name' extension' n i = scanFrom buf name extension n i := by
  induction n generalizing i with
  | zero => rfl
  | succ n ih =>
    rw [scanFrom, scanFrom, ih]
    unfold fatEntryMatchesFilename
    rw [hn, hx]

theorem take_two_nameOf {c : Str} : (nameOf c).take 2 = [dot, dot] ↔ c = dotdot := by
  constructor
  · intro h
    by_contra hne
    refine dot_notMem_nameOf hne (List.mem_of_mem_take (i := 2) ?_)
    rw [h]
    exact List.mem_cons_self
  · rintro rfl
    rfl

theorem fatFindInRoot_eq (hio : ∀ n, e.io n = none) (name extension : Str) :
    (v.fatFindInRoot e name extension).2 =
    (scanFrom ((dirRegion e.geom 0).buf v.disk) name extension (dirRegion e.geom 0).entries 0).map
      (entryIn e.geom v 0) := by
  unfold fatFindInRoot ataReadExact
  rw [hio, show (dirRegion e.geom 0).entries = e.geom.noRootEntries
    from Nat.mul_div_cancel_left _ (by decide)]
  rfl

theorem fatFindInDir_eq (hio : ∀ n, e.io n = none) {d : ℕ} (hd : d ≠ 0) (name extension : Str) :
    (v.fatFindInDir e d name extension).2 = if name.take 2 = [dot, dot] then
      some (entryIn e.geom v d 1)
      else (scanFrom ((dirRegion e.geom d).buf v.disk) name extension
        (dirRegion e.geom d).entries 0).map (entryIn e.geom v d) := by
  have hregion : dirRegion e.geom d = e.geom.clusterRegion d := if_neg hd
  unfold fatFindInDir ataReadExact entryIn
  rw [hio, hregion]
  dsimp only
  rw [if_pos rfl]
  dsimp only
  split_ifs
  · rfl
  · rfl

/-- What the code finds, in a directory that is one. -/
theorem follow_find (hio : ∀ n, e.io n = none) {cur : Option Raw}
    (hcur : ∀ dir, cur = some dir → dir.firstClusterNo ≠ 0)
    {c : Str} (hc : skipped c = false) (hlen : c.length ≤ 12) :
    (v.fatFollowPathChain e c cur).2 = match findIn e.geom v cur c with
      | none => .missing
      | some i => .entry (entryIn e.geom v (dirOf cur) i) := by
  have hproper := of_decide_eq_false hc
  rw [not_or] at hproper
  have hfind : (match cur with
      | none => v.fatFindInRoot e (nameOf c) (extensionOf c)
      | some dir => v.fatFindInDir e dir.firstClusterNo (nameOf c) (extensionOf c)).2 =
      (findIn e.geom v cur c).map (entryIn e.geom v (dirOf cur)) := by
    unfold findIn
    cases cur with
    | none =>
      rw [if_neg
        (fun h => Bool.false_ne_true h.2 : ¬(c = dotdot ∧ (none : Option Raw).isSome = true))]
      exact fatFindInRoot_eq hio _ _
    | some dir =>
      dsimp only [dirOf]
      rw [fatFindInDir_eq hio (hcur dir rfl)]
      by_cases hdd : c = dotdot
      · rw [if_pos (take_two_nameOf.mpr hdd), if_pos ⟨hdd, rfl⟩]
        rfl
      · rw [if_neg (fun h => hdd (take_two_nameOf.mp h) : ¬(nameOf c).take 2 = [dot, dot]),
          if_neg (fun h => hdd h.1 : ¬(c = dotdot ∧ (some dir).isSome = true))]
  unfold fatFollowPathChain
  rw [if_neg hproper.1, if_neg (by omega), if_neg hproper.2]
  change (match (match cur with
      | none => v.fatFindInRoot e (nameOf c) (extensionOf c)
      | some dir => v.fatFindInDir e dir.firstClusterNo (nameOf c) (extensionOf c)).2 with
    | none => (_, Follow.missing)
    | some dir => (_, Follow.entry dir)).2 = _
  rw [hfind]
  cases findIn e.geom v cur c <;> rfl

theorem follow_long (e : Env) (v : Vol) {c : Str} (h : 12 < c.length) (cur : Option Raw) :
    (v.fatFollowPathChain e c cur).2 = .missing := by
  unfold fatFollowPathChain
  rw [if_neg fun hc => by rw [hc] at h; exact absurd h (by decide), if_pos h]

section Congr

variable {chain : List ℕ} {cur : Option Raw}

theorem InDir.ne_zero (h : InDir g v chain cur) :
    ∀ dir, cur = some dir → dir.firstClusterNo ≠ 0 := by
  rintro dir rfl
  have hvalid := (h.resolve_left (Option.some_ne_none dir)).1
  have := (valid_lt hvalid).1
  exact fun hzero => absurd (hzero ▸ this : 2 ≤ 0) (by decide)

/-- An entry that is found is one of the directory. -/
theorem findIn_lt (hg : g.Ok) (h : InDir g v chain cur) {c : Str} {i : ℕ}
    (hfind : findIn g v cur c = some i) :
    i < (dirRegion g (dirOf cur)).entries := by
  unfold findIn at hfind
  split_ifs at hfind with hdots
  · obtain rfl := Option.some.inj hfind
    have hvalid :=
      (h.resolve_left fun hnone => by rw [hnone] at hdots; exact Bool.false_ne_true hdots.2).1
    have hsize := Nat.le_of_dvd hg.clusterSize_pos hg.dvd_clusterSize
    rw [hg.dirRegion_cluster hvalid]
    change 1 < g.clusterSize / 32
    omega
  · have := scanFrom_spec _ hfind
    omega

theorem findIn_congr (h : InDir g v chain cur) (h0 : 0 ∉ chain) (hkept : DirsKept g chain v v')
    (c : Str) :
    findIn g v' cur c = findIn g v cur c := by
  unfold findIn
  rw [scanFrom_congr _ fun k _ hk => hkept _ (h.aside h0) k (by omega)]

theorem follow_congr (hg : e.geom.Ok) (hio : ∀ n, e.io n = none) (h : InDir e.geom v chain cur)
    (h0 : 0 ∉ chain) (hkept : DirsKept e.geom chain v v') (c : Str) :
      (v'.fatFollowPathChain e c cur).2 = (v.fatFollowPathChain e c cur).2 := by
  by_cases hc : skipped c = true
  · rw [follow_skipped e v hc, follow_skipped e v' hc]
  by_cases hlen : 12 < c.length
  · rw [follow_long e v hlen, follow_long e v' hlen]
  rw [follow_find hio h.ne_zero (Bool.eq_false_iff.mpr hc) (not_lt.mp hlen),
    follow_find hio h.ne_zero (Bool.eq_false_iff.mpr hc) (not_lt.mp hlen), findIn_congr h h0 hkept]
  cases hfind : findIn e.geom v cur c with
  | none => rfl
  | some i =>
    dsimp only
    rw [hkept _ (h.aside h0) i (findIn_lt hg h hfind)]

/-- The walk sees only the disk. -/
theorem DirsKept.of_disk (h : v'.disk = v.disk) : DirsKept g chain v v' := fun d _ i _ => by
  unfold entryIn
  rw [h]

/-- A walk through directories that are kept ends where it did. -/
theorem walk_congr (hg : e.geom.Ok) (hio : ∀ n, e.io n = none) (h0 : 0 ∉ chain)
    (hkept : DirsKept e.geom chain v v')
    (l : List Str) : ∀ {cur : Option Raw} {u u' : Vol}, u.disk = v.disk → u'.disk = v'.disk →
      WalkIn e chain l cur v →
    (parseElements e l cur u').2 = (parseElements e l cur u).2 := by
  induction l with
  | nil => exact fun _ _ _ => rfl
  | cons c l ih =>
    intro cur u u' hu hu' h
    obtain ⟨hin, hrest⟩ := h
    have hsame : (u.fatFollowPathChain e c cur).2 = (v.fatFollowPathChain e c cur).2 :=
      follow_congr hg hio hin h0 (DirsKept.of_disk hu) c
    have hsame' : (u'.fatFollowPathChain e c cur).2 = (v.fatFollowPathChain e c cur).2 := by
      refine follow_congr hg hio hin h0 (fun d hd i hi => ?_) c
      rw [← hkept d hd i hi]
      unfold entryIn
      rw [hu']
    have hread := (fatFollowPathChain_onlyRead e u c cur).disk.trans hu
    have hread' := (fatFollowPathChain_onlyRead e u' c cur).disk.trans hu'
    rw [parseElements, parseElements, hsame, hsame']
    cases hf : (v.fatFollowPathChain e c cur).2 with
    | same =>
      rw [hf] at hrest
      exact ih hread hread' hrest
    | entry dir =>
      rw [hf] at hrest
      exact ih hread hread' hrest
    | missing =>
      rw [hf] at hrest
      dsimp only
      cases cur with
      | none => exact ih hread hread' (hrest rfl)
      | some dir => rfl

/-- Where a walk through directories apart from `chain` ends is one. -/
theorem WalkIn.ends (hg : e.geom.Ok) (hio : ∀ n, e.io n = none) (h0 : 0 ∉ chain) (l : List Str) :
    ∀ {cur : Option Raw} {u : Vol}, u.disk = v.disk → WalkIn e chain l cur v →
    InDir e.geom v chain (parseElements e l cur u).2.join := by
  induction l with
  | nil => exact fun _ h => h
  | cons c l ih =>
    intro cur u hu h
    obtain ⟨hin, hrest⟩ := h
    have hsame : (u.fatFollowPathChain e c cur).2 = (v.fatFollowPathChain e c cur).2 :=
      follow_congr hg hio hin h0 (DirsKept.of_disk hu) c
    have hread := (fatFollowPathChain_onlyRead e u c cur).disk.trans hu
    rw [parseElements, hsame]
    cases hf : (v.fatFollowPathChain e c cur).2 with
    | same =>
      rw [hf] at hrest
      exact ih hread hrest
    | entry dir =>
      rw [hf] at hrest
      exact ih hread hrest
    | missing =>
      rw [hf] at hrest
      dsimp only
      cases cur with
      | none => exact ih hread (hrest rfl)
      | some dir => exact .inl rfl

end Congr

end X86Kernel.Fat
