import X86Kernel.Fat.Names

/-! Created entries: when a path that `fat_new_file` or `fat_new_dir` made is found again. -/
namespace X86Kernel.Fat

open Vol

/-- Entry `i` of directory `d`, the end mark before, is now `dir`; nothing else has changed but
cluster `f`, which was free. -/
structure Created (g : Geom) (v : Vol) (d i f : ℕ) (dir : Raw) (v' : Vol) : Prop where
  area : g.IsArea d
  taken : d = 0 ∨ v.table d ≠ 0
  valid : fatValidCluster g f = true
  free : v.table f = 0
  place : placeFrom ((dirRegion g d).buf v.disk) dir (dirRegion g d).entries 0 = .free i
  entry : entryIn g v' d i = dir
  others : ∀ d' j, g.IsArea d' → d' ≠ f → j < (dirRegion g d').entries → (d', j) ≠ (d, i) →
    entryIn g v' d' j = entryIn g v d' j

/-- What was created for the path `p/q` is found again: the buffers hold the parts of its name and
of every component on the way, the path in any letter case leads to the entry, and the entry is
shown under its name in lower case. -/
def FoundAgain (e : Env) (v : Vol) (p q : Str) (r : Vol) : Prop :=
  Fits83 q ∧ ElementsFit e (components p) none v ∧
    ∃ d i f dir, parentDir e v (p ++ slash :: q) = some d ∧ Created e.geom v d i f dir r ∧
      (∀ path, strtoupper path = strtoupper (p ++ slash :: q) →
        ElementsFit e (components path) none r ∧ (r.fatParsePath e path true).2 = some dir) ∧
      (fsGetDirEntry dir).filename = strtolower q

/-- No live entry of directory `d` has the name of the component. -/
def Fresh (g : Geom) (v : Vol) (d : ℕ) (q : Str) : Prop :=
  scanFrom ((dirRegion g d).buf v.disk) (nameOf q) (extensionOf q) (dirRegion g d).entries 0 = none

/-- The names that `fat_new_file` keeps. -/
structure FileNameOk (g : Geom) (v : Vol) (d : ℕ) (p q : Str) : Prop where
  way : ∀ c ∈ components p, ElementFits c
  fits : Fits83 q
  proper : skipped q = false ∧ q ≠ dotdot
  noSpace : space ∉ q
  noFinalDot : dot ∈ q → (strsplit q dot).2.1 ≠ []
  first : q.head? ≠ some 0xE5
  fresh : Fresh g v d q

/-- The names that `fat_new_dir` keeps. -/
structure DirNameOk (g : Geom) (v : Vol) (d : ℕ) (p q : Str) : Prop where
  way : ∀ c ∈ components p, ElementFits c
  proper : skipped q = false
  noDot : dot ∈ q → q = dotdot ∧ d = 0
  noSpace : space ∉ q
  first : q.head? ≠ some 0xE5
  fresh : Fresh g v d q

variable {g : Geom} {v v' : Vol} {e : Env} {d i f : ℕ} {dir : Raw} {p q : Str}

/-! ### The slot -/

theorem placeFrom_spec {buf : Buf} (n : ℕ) : ∀ {k : ℕ}, placeFrom buf dir n k = .free i →
    k ≤ i ∧ i < k + n ∧ (∀ j, k ≤ j → j < i →
      sameName (entryAt buf j) dir = false ∧ (entryAt buf j).isEnd = false) ∧
      (entryAt buf i).isEnd = true := by
  induction n with
  | zero => exact fun h => nomatch h
  | succ n ih =>
    intro k h
    rw [placeFrom] at h
    split_ifs at h with hsame hend
    · obtain rfl := Slot.free.inj h
      exact ⟨le_refl _, by omega, fun j hj hlt => absurd hlt (by omega), hend⟩
    · obtain ⟨h1, h2, h3, h4⟩ := ih h
      refine ⟨by omega, by omega, fun j hj hlt => ?_, h4⟩
      rcases Nat.eq_or_lt_of_le hj with rfl | hj
      · exact ⟨Bool.eq_false_iff.mpr hsame, Bool.eq_false_iff.mpr hend⟩
      · exact h3 j hj hlt

theorem placeFrom_congr {buf buf' : Buf} (n : ℕ) :
    ∀ {k : ℕ}, (∀ j, k ≤ j → j < k + n → entryAt buf' j = entryAt buf j) →
    placeFrom buf' dir n k = placeFrom buf dir n k := by
  induction n with
  | zero => exact fun _ => rfl
  | succ n ih =>
    intro k h
    rw [placeFrom, placeFrom, h k (le_refl k) (by omega),
      ih fun j hj hlt => h j (by omega) (by omega)]

section Slot

variable (h : Created g v d i f dir v')

include h

theorem Created.slot : i < (dirRegion g d).entries := by
  have := (placeFrom_spec _ h.place).2.1
  omega

theorem Created.before {j : ℕ} (hj : j < i) :
    sameName (entryIn g v d j) dir = false ∧ (entryIn g v d j).isEnd = false :=
  (placeFrom_spec _ h.place).2.2.1 j (Nat.zero_le j) hj

theorem Created.isEnd : (entryIn g v d i).isEnd = true := (placeFrom_spec _ h.place).2.2.2

theorem Created.ne_free (hg : g.Ok) : d ≠ f := by
  rintro rfl
  rcases h.taken with hzero | hne
  · exact hg.ne_zero_of_valid h.valid hzero
  · exact hne h.free

/-- The entries before the new one are not it. -/
theorem Created.ne_before {j : ℕ} (hj : j < i) : entryIn g v d j ≠ dir := fun heq => by
  have hsame := (h.before hj).1
  rw [heq] at hsame
  exact absurd hsame (by unfold sameName; simp)

theorem Created.kept (hg : g.Ok) {j : ℕ} (hj : j < i) : entryIn g v' d j = entryIn g v d j :=
  h.others d j h.area (h.ne_free hg) (hj.trans h.slot) fun heq =>
    absurd (Prod.mk.inj heq).2 (by omega)

/-- The slot and what is in it are determined. -/
theorem Created.unique {i' f' : ℕ} {dir' : Raw} (h' : Created g v d i' f' dir' v') :
    i' = i ∧ dir' = dir := by
  have heq : i' = i := by
    rcases Nat.lt_trichotomy i' i with hlt | heq | hlt
    · exact absurd (h'.isEnd.symm.trans (h.before hlt).2) (by decide)
    · exact heq
    · exact absurd (h.isEnd.symm.trans (h'.before hlt).2) (by decide)
  subst heq
  exact ⟨rfl, h'.entry.symm.trans h.entry⟩

end Slot

/-! ### The search of a directory with a new entry -/

theorem scanFrom_before {buf buf' : Buf} {name extension : Str} (n : ℕ) :
    ∀ {s k : ℕ}, scanFrom buf name extension n s = some k →
    (∀ j, s ≤ j → j ≤ k → entryAt buf' j = entryAt buf j) →
      scanFrom buf' name extension n s = some k := by
  induction n with
  | zero => exact fun h => nomatch h
  | succ n ih =>
    intro s k h hsame
    have hle := (scanFrom_spec _ h).1
    rw [scanFrom] at h ⊢
    rw [hsame s (le_refl s) hle]
    split_ifs at h with hend hdel hmatch
    · rw [if_neg hend, if_pos hdel]
      exact ih h fun j hj hjk => hsame j (by omega) hjk
    · rw [if_neg hend, if_neg hdel, if_pos hmatch]
      exact h
    · rw [if_neg hend, if_neg hdel, if_neg hmatch]
      exact ih h fun j hj hjk => hsame j (by omega) hjk

/-- A search that goes past entry `j` passes it over. -/
theorem scanFrom_none {buf : Buf} {name extension : Str} (n : ℕ) :
    ∀ {s j : ℕ}, scanFrom buf name extension n s = none → s ≤ j → j < s + n →
    (∀ k, s ≤ k → k ≤ j → (entryAt buf k).isEnd = false) →
    (entryAt buf j).isDeleted = true ∨
    fatEntryMatchesFilename (entryAt buf j) name extension = false := by
  induction n with
  | zero => exact fun _ hle hlt => absurd hlt (by omega)
  | succ n ih =>
    intro s j h hle hlt hends
    rw [scanFrom, hends s (le_refl s) hle, if_neg Bool.false_ne_true] at h
    split_ifs at h with hdel hmatch
    · rcases Nat.eq_or_lt_of_le hle with rfl | hle
      · exact .inl hdel
      · exact ih h hle (by omega) fun k hk hkj => hends k (by omega) hkj
    · rcases Nat.eq_or_lt_of_le hle with rfl | hle
      · exact .inr (Bool.eq_false_iff.mpr hmatch)
      · exact ih h hle (by omega) fun k hk hkj => hends k (by omega) hkj

theorem scanFrom_reach {buf : Buf} {name extension : Str} (n : ℕ) : ∀ {s : ℕ}, s ≤ i → i < s + n →
    (∀ j, s ≤ j → j < i → (entryAt buf j).isEnd = false ∧
      ((entryAt buf j).isDeleted = true ∨
        fatEntryMatchesFilename (entryAt buf j) name extension = false)) →
    (entryAt buf i).isEnd = false → (entryAt buf i).isDeleted = false →
    fatEntryMatchesFilename (entryAt buf i) name extension = true →
    scanFrom buf name extension n s = some i := by
  induction n with
  | zero => exact fun hle hlt => absurd hlt (by omega)
  | succ n ih =>
    intro s hle hlt hbefore hend hdel hmatch
    rw [scanFrom]
    rcases Nat.eq_or_lt_of_le hle with rfl | hle
    · rw [hend, hdel, hmatch, if_neg Bool.false_ne_true, if_neg Bool.false_ne_true, if_pos rfl]
    · obtain ⟨hnot, hpass⟩ := hbefore s (le_refl s) hle
      have hrest := ih hle (by omega) (fun j hj hji => hbefore j (by omega) hji) hend hdel hmatch
      rw [hnot, if_neg Bool.false_ne_true]
      cases hs : (entryAt buf s).isDeleted with
      | true => exact hrest
      | false =>
        rw [hs] at hpass
        rw [hpass.resolve_left Bool.false_ne_true, if_neg Bool.false_ne_true,
          if_neg Bool.false_ne_true]
        exact hrest

section Search

variable (hg : g.Ok) (h : Created g v d i f dir v')

include hg h

/-- An entry that was found before is found still. -/
theorem Created.scan_some {name extension : Str} {k : ℕ}
    (hscan : scanFrom ((dirRegion g d).buf v.disk) name extension
      (dirRegion g d).entries 0 = some k) :
    k < i ∧ scanFrom ((dirRegion g d).buf v'.disk) name extension (dirRegion g d).entries 0 =
      some k := by
  obtain ⟨-, -, hends, -⟩ := scanFrom_spec _ hscan
  have hlt : k < i := by
    by_contra hle
    have hend : (entryIn g v d i).isEnd = false := hends i (Nat.zero_le i) (by omega)
    exact absurd (h.isEnd.symm.trans hend) (by decide)
  exact ⟨hlt, scanFrom_before _ hscan fun j _ hj => h.kept hg (by omega)⟩

/-- The new entry is found just when nothing else was, and it has the name. -/
theorem Created.scan_iff (hend : dir.isEnd = false) (name extension : Str) :
    (scanFrom ((dirRegion g d).buf v'.disk) name extension (dirRegion g d).entries 0).map
      (entryIn g v' d) = some dir ↔
      scanFrom ((dirRegion g d).buf v.disk) name extension (dirRegion g d).entries 0 = none ∧
      dir.isDeleted = false ∧
        dir.key = (strtoupper name, strtoupper extension) := by
  constructor
  · intro hsome
    obtain ⟨k, hscan, hk⟩ := Option.map_eq_some_iff.mp hsome
    obtain ⟨-, -, -, hdel, hkey⟩ := scanFrom_spec _ hscan
    change (entryIn g v' d k).isDeleted = false at hdel
    change (entryIn g v' d k).key = _ at hkey
    rw [hk] at hdel hkey
    refine ⟨?_, hdel, hkey⟩
    cases hbefore :
      scanFrom ((dirRegion g d).buf v.disk) name extension (dirRegion g d).entries 0 with
    | none => rfl
    | some k' =>
      obtain ⟨hlt, hscan'⟩ := h.scan_some hg hbefore
      obtain rfl := Option.some.inj (hscan.symm.trans hscan')
      rw [h.kept hg hlt] at hk
      exact absurd hk (h.ne_before hlt)
  · rintro ⟨hnone, hdel, hkey⟩
    have hreach : scanFrom ((dirRegion g d).buf v'.disk) name extension (dirRegion g d).entries 0 =
        some i := by
      refine scanFrom_reach _ (Nat.zero_le i) (by rw [Nat.zero_add]; exact h.slot)
        (fun j _ hj => ?_) ?_ ?_ ?_
      · have hsame : entryAt ((dirRegion g d).buf v'.disk) j =
            entryAt ((dirRegion g d).buf v.disk) j := h.kept hg hj
        rw [hsame]
        refine ⟨(h.before hj).2,
          scanFrom_none _ hnone (Nat.zero_le j) ?_ fun k _ hk => (h.before (by omega)).2⟩
        rw [Nat.zero_add]
        exact hj.trans h.slot
      · exact (congrArg Raw.isEnd h.entry).trans hend
      · exact (congrArg Raw.isDeleted h.entry).trans hdel
      · change fatEntryMatchesFilename (entryIn g v' d i) name extension = true
        rw [h.entry]
        exact beq_iff_eq.mpr hkey
    rw [hreach, Option.map_some, h.entry]

end Search

/-! ### The walk to a directory with a new entry -/

section Walk

variable (hg : e.geom.Ok) (hio : ∀ n, e.io n = none) (h : Created e.geom v d i f dir v')
  (hdots : d ≠ 0 → 2 ≤ i)
  {cur : Option Raw} {c : Str}

include hg h

/-- Another directory in use is as it was. -/
theorem Created.other (hin : InDir e.geom v [] cur) (hne : dirOf cur ≠ d) {k : ℕ}
    (hk : k < (dirRegion e.geom (dirOf cur)).entries) :
    entryIn e.geom v' (dirOf cur) k = entryIn e.geom v (dirOf cur) k := by
  obtain ⟨harea, htaken, -⟩ := hin.aside List.not_mem_nil
  refine h.others _ k harea ?_ hk fun heq => hne (Prod.mk.inj heq).1
  rintro rfl
  rcases htaken with hzero | hne
  · exact hg.ne_zero_of_valid h.valid hzero
  · exact hne h.free

include hdots

/-- What a component named, it names still. -/
theorem Created.findIn_some (hin : InDir e.geom v [] cur) {k : ℕ}
    (hfind : findIn e.geom v cur c = some k) :
    findIn e.geom v' cur c = some k ∧
    entryIn e.geom v' (dirOf cur) k = entryIn e.geom v (dirOf cur) k := by
  have hk := findIn_lt hg hin hfind
  unfold findIn at hfind ⊢
  by_cases hdd : c = dotdot ∧ cur.isSome = true
  · rw [if_pos hdd] at hfind ⊢
    refine ⟨hfind, ?_⟩
    obtain rfl := Option.some.inj hfind
    by_cases heq : dirOf cur = d
    · have hvalid :=
        (hin.resolve_left fun hnone => by rw [hnone] at hdd; exact Bool.false_ne_true hdd.2).1
      rw [heq] at hvalid ⊢
      exact h.kept hg (hdots (hg.ne_zero_of_valid hvalid))
    · exact h.other hg hin heq hk
  · rw [if_neg hdd] at hfind ⊢
    by_cases heq : dirOf cur = d
    · rw [heq] at hfind ⊢
      obtain ⟨hlt, hscan⟩ := h.scan_some hg hfind
      exact ⟨hscan, h.kept hg hlt⟩
    · refine ⟨?_, h.other hg hin heq hk⟩
      rw [← hfind]
      exact scanFrom_congr _ fun j _ hj => h.other hg hin heq (by omega)

include hio

/-- A walk that ends somewhere ends there still. In the root the walk does not notice that something
is missing, so what is new there must not be on the way. -/
theorem Created.walk (l : List Str) :
    ∀ {cur : Option Raw} {u u' : Vol}, u.disk = v.disk → u'.disk = v'.disk →
    WalkIn e [] l cur v → (d = 0 → l.all skipped = true) → (parseElements e l cur u).2 ≠ none →
    (parseElements e l cur u').2 = (parseElements e l cur u).2 := by
  induction l with
  | nil => exact fun _ _ _ _ _ => rfl
  | cons c l ih =>
    intro cur u u' hu hu' hwalk hroot hsome
    obtain ⟨hin, hrest⟩ := hwalk
    have hroot' : d = 0 → l.all skipped = true := fun hd => by
      have := hroot hd
      rw [List.all_cons, Bool.and_eq_true] at this
      exact this.2
    have hread := (fatFollowPathChain_onlyRead e u c cur).disk.trans hu
    have hread' := (fatFollowPathChain_onlyRead e u' c cur).disk.trans hu'
    rw [← follow_disk hio hu] at hrest
    rw [parseElements] at hsome ⊢
    rw [parseElements]
    cases hc : skipped c with
    | true =>
      rw [follow_skipped e u hc] at hrest hsome hread ⊢
      rw [follow_skipped e u' hc] at hread' ⊢
      exact ih hread hread' hrest hroot' hsome
    | false =>
      have hsame : (u.fatFollowPathChain e c cur).2 ≠ .missing →
          (u'.fatFollowPathChain e c cur).2 = (u.fatFollowPathChain e c cur).2 := by
        intro hfound
        by_cases hlong : 12 < c.length
        · exact absurd (follow_long e u hlong cur) hfound
        have hlook := follow_find (v := v) hio hin.ne_zero hc (not_lt.mp hlong)
        have hlook' := follow_find (v := v') hio hin.ne_zero hc (not_lt.mp hlong)
        rw [follow_disk hio hu, hlook] at hfound
        rw [follow_disk hio hu, follow_disk hio hu', hlook, hlook']
        cases hfind : findIn e.geom v cur c with
        | none =>
          rw [hfind] at hfound
          exact absurd rfl hfound
        | some k =>
          obtain ⟨hfind', hentry⟩ := h.findIn_some hg hdots hin hfind
          rw [hfind']
          dsimp only
          rw [hentry]
      cases hf : (u.fatFollowPathChain e c cur).2 with
      | same =>
        rw [hsame (by rw [hf]; exact Follow.noConfusion), hf]
        rw [hf] at hrest hsome
        exact ih hread hread' hrest hroot' hsome
      | entry dir =>
        rw [hsame (by rw [hf]; exact Follow.noConfusion), hf]
        rw [hf] at hrest hsome
        exact ih hread hread' hrest hroot' hsome
      | missing =>
        rw [hf] at hrest hsome
        dsimp only at hsome ⊢
        cases cur with
        | some dir => exact absurd rfl hsome
        | none =>
          have hd : d ≠ 0 := fun hd => by
            have := hroot hd
            rw [List.all_cons, hc] at this
            exact Bool.false_ne_true this
          have hmissing : (u'.fatFollowPathChain e c none).2 = .missing := by
            by_cases hlong : 12 < c.length
            · exact follow_long e u' hlong none
            rw [follow_disk hio hu, follow_find hio hin.ne_zero hc (not_lt.mp hlong)] at hf
            rw [follow_disk hio hu', follow_find hio hin.ne_zero hc (not_lt.mp hlong)]
            have hfind : findIn e.geom v' none c = findIn e.geom v none c := by
              unfold findIn
              rw [scanFrom_congr _ fun j _ hj => h.other hg hin (Ne.symm hd) (by omega)]
            rw [hfind]
            cases hcase : findIn e.geom v none c with
            | none => rfl
            | some k =>
              rw [hcase] at hf
              exact absurd hf Follow.noConfusion
          rw [hmissing]
          exact ih hread hread' (hrest rfl) hroot' hsome

omit hg h hdots hio in
/-- Where the part before the last slash leads. -/
theorem parentDir_walk (hg : e.geom.Ok) (hio : ∀ n, e.io n = none) (hq : slash ∉ q)
    (hwalk : WalkIn e [] (components p) none v)
    (hparent : parentDir e v (p ++ slash :: q) = some d) :
      ∃ cur, (parseElements e (components p) none v).2 = some cur ∧
      dirOf cur = d ∧ InDir e.geom v [] cur ∧
      (d = 0 → cur = none ∧ (components p).all skipped = true) := by
  unfold parentDir at hparent
  rw [strsplitLast_append hq] at hparent
  dsimp only at hparent
  have hends := hwalk.ends hg hio List.not_mem_nil _ (u := v) rfl
  split_ifs at hparent with hp
  · obtain rfl := Option.some.inj hparent
    have hall : (components p).all skipped = true := by
      rcases hp with rfl | rfl <;> rfl
    exact ⟨none, by rw [parseElements_skipped e hall], rfl, .inl rfl, fun _ => ⟨rfl, hall⟩⟩
  · obtain ⟨parent, hend, rfl⟩ := Option.map_eq_some_iff.mp hparent
    unfold walkEnd at hend
    rw [hend] at hends
    refine ⟨some parent, Option.join_eq_some_iff.mp hend, rfl, hends,
      fun hzero => absurd hzero (hends.ne_zero parent rfl)⟩

/-- When the path leads to the new entry. -/
theorem Created.parse_iff (hq : slash ∉ q) (hlen : q.length ≤ 12)
    (hwalk : WalkIn e [] (components p) none v) (hparent : parentDir e v (p ++ slash :: q) = some d)
    (hend : skipped q = false → dir.isEnd = false) (hfirst : dir.firstClusterNo = f) :
    (v'.fatParsePath e (p ++ slash :: q) true).2 = some dir ↔
    skipped q = false ∧ (q = dotdot → d = 0) ∧ Fresh e.geom v d q ∧
      dir.isDeleted = false ∧ dir.key = (strtoupper (nameOf q), strtoupper (extensionOf q)) := by
  obtain ⟨cur, hcur, hdir, hin, hzero⟩ := parentDir_walk hg hio hq hwalk hparent
  have hwalk' : (parseElements e (components p) none v').2 = some cur := by
    rw [h.walk hg hio hdots _ rfl rfl hwalk (fun hd => (hzero hd).2)
      (by rw [hcur]; exact Option.some_ne_none cur), hcur]
  have hread := (parseElements_onlyRead e (components p) none v').disk
  rw [fatParsePath_true, components_append hq]
  unfold walkEnd
  rw [parseElements_append e [q] _ hwalk']
  generalize (parseElements e (components p) none v').1 = u at hread
  have hone : (parseElements e [q] cur u).2.join = finish e q (u, some cur) :=
    parseElements_snoc e q [] cur u
  rw [hone]
  cases hproper : skipped q with
  | true =>
    unfold finish
    dsimp only
    rw [follow_skipped e u hproper]
    refine iff_of_false (fun hsome => ?_) fun hall => absurd hall.1 Bool.noConfusion
    have hcur' : cur = some dir := hsome
    rw [hcur'] at hdir
    exact h.ne_free hg (hdir.symm.trans hfirst)
  | false =>
    have hfinish : finish e q (u, some cur) =
        (findIn e.geom v' cur q).map (entryIn e.geom v' (dirOf cur)) := by
      unfold finish
      dsimp only
      rw [follow_disk hio hread, follow_find hio hin.ne_zero hproper hlen]
      cases findIn e.geom v' cur q <;> rfl
    rw [hfinish, hdir]
    unfold findIn
    rw [hdir]
    by_cases hdd : q = dotdot ∧ cur.isSome = true
    · have hd : d ≠ 0 := fun hd => by
        rw [(hzero hd).1] at hdd
        exact Bool.false_ne_true hdd.2
      rw [if_pos hdd]
      refine iff_of_false (fun hsome => ?_) fun hall => hd (hall.2.1 hdd.1)
      have hlt : 1 < i := hdots hd
      have heq : entryIn e.geom v' d 1 = dir := Option.some.inj hsome
      rw [h.kept hg hlt] at heq
      exact h.ne_before hlt heq
    · rw [if_neg hdd, h.scan_iff hg (hend hproper)]
      refine ⟨fun hall => ⟨rfl, fun hq => ?_, hall⟩, fun hall => hall.2.2⟩
      cases cur with
      | none => exact hdir.symm
      | some parent => exact absurd ⟨hq, rfl⟩ hdd

end Walk

/-! ### What a creation that succeeds has done -/

theorem newEntry_zero (name : ℕ → UInt8) (a : UInt8) (f k : ℕ) (hk : 32 ≤ k) :
    newEntry name a f k = 0 := by
  unfold newEntry
  rw [if_neg (by omega), if_neg (by omega), if_neg (by omega), if_neg (by omega)]

theorem storeEntry_replaced (hg : e.geom.Ok) (v : Vol) {dir : Raw} (hd : e.geom.IsArea d)
    (hi : i < (dirRegion e.geom d).entries) (hdir : ∀ k, 32 ≤ k → dir k = 0)
    (hok : (v.storeEntry e (dirRegion e.geom d) ((dirRegion e.geom d).buf v.disk) i dir).2 = true) :
    Replaced e.geom d i dir v
      (v.storeEntry e (dirRegion e.geom d) ((dirRegion e.geom d).buf v.disk) i dir).1 := by
  obtain ⟨m, -, -, hdisk, hall, htable, -⟩ := ataWriteExact_cases e v (dirRegion e.geom d).addr
    (setEntry ((dirRegion e.geom d).buf v.disk) i dir) (dirRegion e.geom d).size
  obtain rfl := hall hok
  exact .of_disk hg hd hi hdir hdisk htable

/-- The root is spelled as nothing or as one slash. -/
theorem splitParent_root (hq : slash ∉ q) : (splitParent (p ++ slash :: q)).1 = [slash] ↔
    p = [] ∨ p = [slash] := by
  unfold splitParent
  rw [strsplitLast_append hq]
  dsimp only
  split_ifs with hp
  · exact iff_of_true rfl (.inl hp)
  · exact ⟨.inr, fun h => h.resolve_left hp⟩

/-- The directory that a new entry goes to. -/
theorem parentRegion_spec (hg : e.geom.Ok) (hio : ∀ n, e.io n = none) (hq : slash ∉ q)
    (hwalk : WalkIn e [] (components p) none v)
    {inroot : Bool} (hinroot : inroot = true ↔ p = [] ∨ p = [slash]) {parent : Option Raw}
    (hpath : inroot = false → parent = walkEnd e v (components p)) {region : Region}
    (hregion : parentRegion e.geom inroot parent = some region) :
    ∃ d, parentDir e v (p ++ slash :: q) = some d ∧ region = dirRegion e.geom d ∧ e.geom.IsArea d ∧
      (d = 0 ∨ v.table d ≠ 0) := by
  unfold parentDir
  rw [strsplitLast_append hq]
  dsimp only
  cases inroot with
  | true =>
    obtain rfl := Option.some.inj hregion
    rw [if_pos (hinroot.mp rfl)]
    exact ⟨0, rfl, rfl, .inl rfl, .inl rfl⟩
  | false =>
    rw [if_neg fun hp => Bool.false_ne_true (hinroot.mpr hp), ← hpath rfl]
    obtain ⟨dir, rfl, rfl⟩ := Option.map_eq_some_iff.mp hregion
    have hends := hwalk.ends hg hio List.not_mem_nil _ (u := v) rfl
    change InDir e.geom v [] (walkEnd e v (components p)) at hends
    rw [← hpath rfl] at hends
    obtain ⟨hvalid, htaken, -⟩ := hends.resolve_left (Option.some_ne_none dir)
    exact ⟨dir.firstClusterNo, rfl, (hg.dirRegion_cluster hvalid).symm, .inr hvalid, .inr htaken⟩

/-- Outside the root the parent is the one that the path leads to. -/
theorem parse_splitParent (e : Env) (v : Vol) (hq : slash ∉ q) (hp : ¬(p = [] ∨ p = [slash])) :
    (v.fatParsePath e (splitParent (p ++ slash :: q)).1 true).2 = walkEnd e v (components p) := by
  unfold splitParent
  rw [strsplitLast_append hq, fatParsePath_true]
  dsimp only
  rw [if_neg (not_or.mp hp).1]

theorem claimCluster_entry (hg : e.geom.Ok) (hd : e.geom.IsArea d) (f : ℕ) :
    entryIn e.geom (v.claimCluster e f).1 d i = entryIn e.geom v d i := by
  have hupdate := (fatTableUpdateCluster_clock e.geom v f 0xFFFF).2
  have hsame :
      entryIn e.geom (v.fatTableUpdateCluster e.geom f 0xFFFF).1 d i = entryIn e.geom v d i := by
    unfold entryIn
    rw [hupdate]
  unfold claimCluster
  dsimp only
  split_ifs
  · exact (entryIn_flushed hg (flushed_fatTableFlushCache hg _ f f) hd).trans hsame
  · exact hsame

theorem claimCluster_table (hg : e.geom.Ok) (hvalid : fatValidCluster e.geom f = true) :
    (v.claimCluster e f).1.table = Function.update v.table f 0xFFFF := by
  unfold claimCluster
  rw [update_valid hvalid]
  exact (flushed_fatTableFlushCache hg _ f f).table

theorem fatNewFile_created (hg : e.geom.Ok) (hio : ∀ n, e.io n = none) (hq : slash ∉ q)
    (hwalk : WalkIn e [] (components p) none v)
    (hok : (v.fatNewFile e (p ++ slash :: q)).2 = true) :
    q.length ≤ 11 ∧ ∃ d i f, parentDir e v (p ++ slash :: q) = some d ∧
      Created e.geom v d i f (fileEntry q f) (v.fatNewFile e (p ++ slash :: q)).1 ∧
      (v.fatNewFile e (p ++ slash :: q)).1.table = Function.update v.table f 0xFFFF := by
  have hlast : (splitParent (p ++ slash :: q)).2 = q := by
    unfold splitParent
    rw [strsplitLast_append hq]
  have hread := fatParsePath_onlyRead e v (splitParent (p ++ slash :: q)).1 true
  have hinroot : decide ((splitParent (p ++ slash :: q)).1 = [slash]) = true ↔
      p = [] ∨ p = [slash] := by
    rw [decide_eq_true_eq, splitParent_root hq]
  have hpath : decide ((splitParent (p ++ slash :: q)).1 = [slash]) = false →
      (v.fatParsePath e (splitParent (p ++ slash :: q)).1 true).2 = walkEnd e v (components p) :=
        fun hfalse =>
          parse_splitParent e v hq fun hp =>
            absurd (hinroot.mpr hp) (by rw [hfalse]; exact Bool.false_ne_true)
  unfold fatNewFile at hok ⊢
  dsimp only at hok ⊢
  rw [hlast, length_strtoupper] at hok ⊢
  by_cases hlen : 11 < q.length
  · rw [if_pos hlen] at hok
    exact absurd hok Bool.false_ne_true
  refine ⟨not_lt.mp hlen, ?_⟩
  rw [if_neg hlen] at hok ⊢
  generalize v.fatParsePath e (splitParent (p ++ slash :: q)).1 true = r at hread hpath hok ⊢
  cases hregion :
    parentRegion e.geom (decide ((splitParent (p ++ slash :: q)).1 = [slash])) r.2 with
  | none =>
    rw [hregion] at hok
    exact absurd hok Bool.false_ne_true
  | some region =>
    rw [hregion] at hok
    obtain ⟨d, hparent, rfl, harea, htaken⟩ :=
      parentRegion_spec hg hio hq hwalk hinroot hpath hregion
    dsimp only at hok ⊢
    cases hfree : r.1.findFree e.geom 2 with
    | none =>
      rw [hfree] at hok
      exact absurd hok Bool.false_ne_true
    | some f =>
      obtain ⟨hf2, hfn, hfzero⟩ := findFree_spec hg.clusters hfree
      have hvalid : fatValidCluster e.geom f = true :=
        (fatValidCluster_iff hg.clusters).mpr ⟨hf2, hfn⟩
      rw [hfree] at hok
      unfold ataReadExact at hok ⊢
      rw [hio] at hok ⊢
      dsimp only at hok ⊢
      rw [if_pos rfl] at hok ⊢
      dsimp only at hok ⊢
      have hentry :
          newEntry (paddedName (strsplit (strtoupper q) dot).1 (strsplit (strtoupper q) dot).2.1)
          0x20 f = fileEntry q f := rfl
      have hbuf : (fun k => r.1.disk ((dirRegion e.geom d).addr + k)) =
          (dirRegion e.geom d).buf r.1.tick.disk := rfl
      rw [hentry, hbuf] at hok ⊢
      cases hplace : placeFrom ((dirRegion e.geom d).buf r.1.tick.disk) (fileEntry q f)
        (dirRegion e.geom d).entries 0 with
      | taken =>
        rw [hplace] at hok
        exact absurd hok Bool.false_ne_true
      | full =>
        rw [hplace] at hok
        exact absurd hok Bool.false_ne_true
      | free i =>
        rw [hplace] at hok
        dsimp only at hok ⊢
        have hi : i < (dirRegion e.geom d).entries := by
          have := (placeFrom_spec _ hplace).2.1
          omega
        have hzero : ∀ k, 32 ≤ k → fileEntry q f k = 0 := newEntry_zero _ _ f
        have hreplaced := storeEntry_replaced hg r.1.tick harea hi hzero
        generalize r.1.tick.storeEntry e (dirRegion e.geom d)
          ((dirRegion e.geom d).buf r.1.tick.disk) i (fileEntry q f) = w
          at hreplaced hok ⊢
        cases hw : w.2 with
        | false =>
          rw [hw, if_neg Bool.false_ne_true, hw, if_neg Bool.false_ne_true] at hok
          exact absurd hok Bool.false_ne_true
        | true =>
          obtain ⟨htable, hslot, hothers⟩ := hreplaced hw
          rw [hw, if_pos rfl] at hok
          rw [if_pos rfl]
          cases hc : (w.1.claimCluster e f).2 with
          | false =>
            rw [hc, if_neg Bool.false_ne_true] at hok
            exact absurd hok Bool.false_ne_true
          | true =>
            rw [if_pos rfl]
            have hsame : ∀ d' j, entryIn e.geom r.1.tick d' j = entryIn e.geom v d' j :=
              fun d' j => by
              unfold entryIn
              rw [show r.1.tick.disk = v.disk from hread.disk]
            refine ⟨d, i, f, hparent,
              ⟨harea, htaken, hvalid, ?_, ?_, ?_, fun d' j hd' _ hj hne => ?_⟩, ?_⟩
            · rw [← hread.table]
              exact hfzero
            · rw [← show r.1.tick.disk = v.disk from hread.disk]
              exact hplace
            · rw [claimCluster_entry hg harea, hslot]
            · rw [claimCluster_entry hg hd', hothers d' j hd' hj hne, hsame]
            · rw [claimCluster_table hg hvalid, htable]
              exact congrArg (Function.update · f 0xFFFF) hread.table

/-- The entry of a new directory that was linked. -/
theorem linkDir_spec (hg : e.geom.Ok) (hio : ∀ n, e.io n = none) (v : Vol) (hd : e.geom.IsArea d)
    (hdir : ∀ k, 32 ≤ k → dir k = 0)
    (hok : (v.linkDir e (dirRegion e.geom d) dir f).2 = true) :
    ∃ i, placeFrom ((dirRegion e.geom d).buf v.disk) dir (dirRegion e.geom d).entries 0 = .free i ∧
      entryIn e.geom (v.linkDir e (dirRegion e.geom d) dir f).1 d i = dir ∧
      (∀ d' j, e.geom.IsArea d' → j < (dirRegion e.geom d').entries → (d', j) ≠ (d, i) →
        entryIn e.geom (v.linkDir e (dirRegion e.geom d) dir f).1 d' j = entryIn e.geom v d' j) ∧
      (v.linkDir e (dirRegion e.geom d) dir f).1.table = v.table := by
  unfold linkDir ataReadExact at hok ⊢
  rw [hio] at hok ⊢
  dsimp only at hok ⊢
  rw [if_pos rfl] at hok ⊢
  have hbuf : (fun k => v.disk ((dirRegion e.geom d).addr + k)) =
      (dirRegion e.geom d).buf v.tick.disk := rfl
  have hsame : ∀ d' j, entryIn e.geom v.tick d' j = entryIn e.geom v d' j := fun _ _ => rfl
  dsimp only at hok ⊢
  rw [hbuf] at hok ⊢
  change ∃ i, placeFrom ((dirRegion e.geom d).buf v.tick.disk) dir (dirRegion e.geom d).entries 0 =
    .free i ∧ _
  cases hplace :
    placeFrom ((dirRegion e.geom d).buf v.tick.disk) dir (dirRegion e.geom d).entries 0 with
  | taken =>
    rw [hplace] at hok
    exact absurd hok Bool.false_ne_true
  | full =>
    rw [hplace] at hok
    exact absurd hok Bool.false_ne_true
  | free i =>
    rw [hplace] at hok
    dsimp only at hok ⊢
    have hi : i < (dirRegion e.geom d).entries := by
      have := (placeFrom_spec _ hplace).2.1
      omega
    have hreplaced := storeEntry_replaced hg v.tick hd hi hdir
    generalize v.tick.storeEntry e (dirRegion e.geom d)
      ((dirRegion e.geom d).buf v.tick.disk) i dir = w at hreplaced hok ⊢
    cases hw : w.2 with
    | false =>
      rw [hw, if_neg Bool.false_ne_true] at hok
      exact absurd (hw.symm.trans hok) Bool.false_ne_true
    | true =>
      obtain ⟨htable, hslot, hothers⟩ := hreplaced hw
      rw [if_pos rfl]
      have hflush := flushed_fatTableFlushCache hg w.1 f f
      refine ⟨i, rfl, (entryIn_flushed hg hflush hd).trans hslot, fun d' j hd' hj hne => ?_,
        hflush.table.trans htable⟩
      rw [entryIn_flushed hg hflush hd', hothers d' j hd' hj hne, hsame]

/-- What a write of a whole directory stores. -/
theorem ataWriteExact_region (v : Vol) (d : ℕ) (buf : Buf)
    (hok : (v.ataWriteExact e (dirRegion e.geom d).addr buf (dirRegion e.geom d).size).2 = true) :
    ∀ j < (dirRegion e.geom d).entries,
      entryIn e.geom (v.ataWriteExact e (dirRegion e.geom d).addr buf (dirRegion e.geom d).size).1 d
        j = entryAt buf j := by
  obtain ⟨m, -, -, hdisk, hall, -, -⟩ :=
    ataWriteExact_cases e v (dirRegion e.geom d).addr buf (dirRegion e.geom d).size
  obtain rfl := hall hok
  intro j hj
  funext k
  unfold entryIn entryAt Region.buf
  rw [hdisk]
  split_ifs with hk
  · have hin := slot_lt hj hk
    unfold blit
    rw [if_pos (by omega)]
    exact congrArg buf (by omega)
  · rfl

theorem fatNewDir_created (hg : e.geom.Ok) (hio : ∀ n, e.io n = none) (hq : slash ∉ q)
    (hwalk : WalkIn e [] (components p) none v) (hok : (v.fatNewDir e (p ++ slash :: q)).2 = true) :
    q.length ≤ 8 ∧ ∃ d i f junk, parentDir e v (p ++ slash :: q) = some d ∧
      Created e.geom v d i f (subdirEntry junk q f) (v.fatNewDir e (p ++ slash :: q)).1 ∧
      (v.fatNewDir e (p ++ slash :: q)).1.table = Function.update v.table f 0xFFFF ∧
      ∃ parent, ∀ j < (dirRegion e.geom f).entries,
        entryIn e.geom (v.fatNewDir e (p ++ slash :: q)).1 f j =
        entryAt (newDirBuf f parent) j := by
  have hlast : (splitParent (p ++ slash :: q)).2 = q := by
    unfold splitParent
    rw [strsplitLast_append hq]
  have hinroot : decide ((splitParent (p ++ slash :: q)).1 = [slash]) = true ↔
      p = [] ∨ p = [slash] := by
    rw [decide_eq_true_eq, splitParent_root hq]
  unfold fatNewDir at hok ⊢
  dsimp only at hok ⊢
  rw [hlast, length_strtoupper] at hok ⊢
  by_cases hlen : 8 < q.length
  · rw [if_pos hlen] at hok
    exact absurd hok Bool.false_ne_true
  refine ⟨not_lt.mp hlen, ?_⟩
  rw [if_neg hlen] at hok ⊢
  generalize hin : decide ((splitParent (p ++ slash :: q)).1 = [slash]) = inroot at hinroot hok ⊢
  have hread : OnlyRead v (if inroot = true then (v, none)
      else v.fatParsePath e (splitParent (p ++ slash :: q)).1 true).1 := by
    split_ifs
    · exact .refl v
    · exact fatParsePath_onlyRead e v _ true
  have hpath : inroot = false →
      (if inroot = true then (v, none)
        else v.fatParsePath e (splitParent (p ++ slash :: q)).1 true).2 =
        walkEnd e v (components p) := by
    rintro rfl
    rw [if_neg Bool.false_ne_true]
    exact parse_splitParent e v hq fun hp => Bool.false_ne_true (hinroot.mpr hp)
  generalize (if inroot = true then (v, none)
    else v.fatParsePath e (splitParent (p ++ slash :: q)).1 true) = r at hread hpath hok ⊢
  cases hregion : parentRegion e.geom inroot r.2 with
  | none =>
    rw [hregion] at hok
    exact absurd hok Bool.false_ne_true
  | some region =>
    rw [hregion] at hok
    obtain ⟨d, hparent, rfl, harea, htaken⟩ :=
      parentRegion_spec hg hio hq hwalk hinroot hpath hregion
    dsimp only at hok ⊢
    cases hfree : r.1.findFree e.geom 2 with
    | none =>
      rw [hfree] at hok
      exact absurd hok Bool.false_ne_true
    | some f =>
      obtain ⟨hf2, hfn, hfzero⟩ := findFree_spec hg.clusters hfree
      have hvalid : fatValidCluster e.geom f = true :=
        (fatValidCluster_iff hg.clusters).mpr ⟨hf2, hfn⟩
      rw [hread.table] at hfzero
      have hne : d ≠ f := by
        rintro rfl
        rcases htaken with hzero | hne
        · exact hg.ne_zero_of_valid hvalid hzero
        · exact hne hfzero
      rw [hfree] at hok
      dsimp only at hok ⊢
      rw [update_valid hvalid] at hok ⊢
      dsimp only at hok ⊢
      rw [if_neg (by decide)] at hok ⊢
      generalize hnewBuf : newDirBuf f _ = newBuf at hok ⊢
      obtain ⟨parent, hnewBuf⟩ : ∃ parent, newDirBuf f parent = newBuf := ⟨_, hnewBuf⟩
      -- the new directory is written to the free cluster
      have hwrite : ∀ (u : Vol), u.disk = v.disk → ∀ d' j, e.geom.IsArea d' → d' ≠ f →
            j < (dirRegion e.geom d').entries →
          entryIn e.geom (u.ataWriteExact e (e.geom.clusterAddr f) newBuf e.geom.clusterSize).1 d'
            j = entryIn e.geom v d' j := by
        intro u hu d' j hd' hne' hj
        refine entryIn_congr fun k hk => ?_
        have hin := slot_lt hj hk
        have hapart := hg.apart hd' (.inr hvalid) hne'
        rw [hg.dirRegion_cluster hvalid] at hapart
        change _ ≤ e.geom.clusterAddr f ∨ e.geom.clusterAddr f + e.geom.clusterSize ≤ _ at hapart
        rw [ataWriteExact_outside (by omega), hu]
      have hwrite' :=
        hwrite ⟨r.1.disk, Function.update r.1.table f 65535, Function.update r.1.dirty f true,
          r.1.clock⟩ hread.disk
      have hstored := ataWriteExact_region (e := e)
        ⟨r.1.disk, Function.update r.1.table f 65535, Function.update r.1.dirty f true,
          r.1.clock⟩ f newBuf
      rw [hg.dirRegion_cluster hvalid] at hstored
      unfold Geom.clusterRegion at hstored
      dsimp only at hstored
      have htable :=
        (ataWriteExact_cases e ⟨r.1.disk, Function.update r.1.table f 65535,
          Function.update r.1.dirty f true, r.1.clock⟩
        (e.geom.clusterAddr f) newBuf e.geom.clusterSize).choose_spec.2.2.2.2.1
      replace htable := htable.trans (congrArg (Function.update · f 65535) hread.table)
      generalize (Vol.mk r.1.disk (Function.update r.1.table f 65535)
        (Function.update r.1.dirty f true) r.1.clock).ataWriteExact e
        (e.geom.clusterAddr f) newBuf e.geom.clusterSize = w at hwrite' hstored htable hok ⊢
      cases hw : w.2 with
      | false =>
        rw [hw, if_pos (by decide)] at hok
        exact absurd hok Bool.false_ne_true
      | true =>
        rw [hw, if_neg (by decide)] at hok
        rw [if_neg (by decide)]
        have hentry : newEntry (dirName (e.junk r.1.clock) (strtoupper q)) 0x10 f =
            subdirEntry (e.junk r.1.clock) q f := rfl
        rw [hentry] at hok ⊢
        have hlink := @linkDir_spec e d f (subdirEntry (e.junk r.1.clock) q f) hg hio w.1 harea
          (newEntry_zero _ _ _)
        generalize w.1.linkDir e (dirRegion e.geom d) (subdirEntry (e.junk r.1.clock) q f) f = l
          at hlink hok ⊢
        cases hl : l.2 with
        | false =>
          rw [hl, if_neg Bool.false_ne_true] at hok
          exact absurd hok Bool.false_ne_true
        | true =>
          rw [if_pos rfl]
          obtain ⟨i, hplace, hslot, hothers, hlinked⟩ := hlink hl
          refine ⟨d, i, f, e.junk r.1.clock, hparent,
            ⟨harea, htaken, hvalid, hfzero, ?_, hslot, fun d' j hd' hne' hj hne => ?_⟩,
            hlinked.trans htable, parent, fun j hj => ?_⟩
          · rw [← hplace]
            exact (placeFrom_congr _ fun j _ hj => hwrite' d j harea hne (by omega)).symm
          · rw [hothers d' j hd' hj hne, hwrite' d' j hd' hne' hj]
          · rw [hothers f j (.inr hvalid) hj fun heq => hne (Prod.mk.inj heq).1.symm, hnewBuf]
            exact hstored hw j (by rwa [hg.dirRegion_cluster hvalid] at hj)

/-! ### Names that are found again -/

/-- What was created is found again if its path fits and leads to it, and it is shown under its
name. -/
theorem Created.foundAgain_iff (h : Created e.geom v d i f dir v') (hq : slash ∉ q)
    (hparent : parentDir e v (p ++ slash :: q) = some d) :
    FoundAgain e v p q v' ↔ Fits83 q ∧ (∀ c ∈ components p, ElementFits c) ∧
      (v'.fatParsePath e (p ++ slash :: q) true).2 = some dir ∧
      (fsGetDirEntry dir).filename = strtolower q := by
  have hcomponents : components (p ++ slash :: q) = components p ++ [q] := by
    unfold components
    rw [pathElements_append hq]
    rfl
  constructor
  · rintro ⟨hfits, -, d', i', f', dir', hparent', h', hfind, hname⟩
    obtain rfl := Option.some.inj (hparent.symm.trans hparent')
    obtain ⟨-, rfl⟩ := h.unique h'
    obtain ⟨hway, hparse⟩ := hfind _ rfl
    refine ⟨hfits, fun c hc => ?_, hparse, hname⟩
    have hends : (parseElements e (components (p ++ slash :: q)) none v').2 ≠ none := by
      intro hnone
      rw [fatParsePath_true] at hparse
      unfold walkEnd at hparse
      rw [hnone] at hparse
      cases hparse
    refine all_of_elementsFit hway hends c ?_
    rw [hcomponents]
    exact List.mem_append_left _ hc
  · rintro ⟨hfits, hway, hfind, hname⟩
    have hall : ∀ c ∈ components (p ++ slash :: q), ElementFits c := by
      rw [hcomponents, List.forall_mem_append, List.forall_mem_singleton]
      exact ⟨hway, .inr hfits⟩
    refine ⟨hfits, elementsFit_of_all hway none v, d, i, f, dir, hparent, h,
      fun path hpath => ⟨?_, ?_⟩, hname⟩
    · exact elementsFit_of_all ((componentsFit_upper hpath).mpr hall) none v'
    · rw [← fatParsePath_upper, hpath, fatParsePath_upper]
      exact hfind

section Names

variable (hg : e.geom.Ok) (hio : ∀ n, e.io n = none) (hq : slash ∉ q) (h0 : 0 ∉ q)
  (hwalk : WalkIn e [] (components p) none v)
  (hparent : parentDir e v (p ++ slash :: q) = some d)
    (hdots : d ≠ 0 → ∀ j < 2, (entryIn e.geom v d j).isEnd = false)

include hdots in
/-- The new entry comes after `.` and `..`. -/
theorem Created.two_le (h : Created e.geom v d i f dir v') (hd : d ≠ 0) : 2 ≤ i := by
  by_contra hlt
  exact absurd (h.isEnd.symm.trans (hdots hd i (by omega))) (by decide)

include hg hio hq h0 hwalk hparent hdots

theorem fatNewFile_foundAgain (hok : (v.fatNewFile e (p ++ slash :: q)).2 = true) :
    FoundAgain e v p q (v.fatNewFile e (p ++ slash :: q)).1 ↔ FileNameOk e.geom v d p q := by
  obtain ⟨hlen, d', i, f, hparent', h, -⟩ := fatNewFile_created hg hio hq hwalk hok
  obtain rfl := Option.some.inj (hparent.symm.trans hparent')
  have hsmall : f < 2 ^ 16 := by
    have := (valid_lt h.valid).2
    have := hg.clusters
    omega
  rw [h.foundAgain_iff hq hparent,
    h.parse_iff hg hio (h.two_le hdots) hq (by omega) hwalk hparent (fun _ => isEnd_fileEntry h0 f)
    (firstClusterNo_newEntry _ _ hsmall), isDeleted_fileEntry]
  constructor
  · rintro ⟨hfits, hway, ⟨hproper, -, hfresh, hfirst, hkey⟩, hname⟩
    have hdd : q ≠ dotdot := by
      rintro rfl
      have hfst := congrArg Prod.fst hkey
      unfold Raw.key at hfst
      rw [name_fileEntry hfits] at hfst
      change strtoupper (strtoupper (List.takeWhile inName (strsplit dotdot dot).1)) =
        strtoupper (nameOf dotdot) at hfst
      exact absurd hfst (by decide)
    have hspace : space ∉ q := by
      unfold nameOf extensionOf at hkey
      rw [if_neg hdd, if_neg hdd] at hkey
      exact (key_fileEntry hfits h0 f).mp hkey
    exact ⟨hway, hfits, ⟨hproper, hdd⟩, hspace, (filename_fileEntry hfits h0 hspace f).mp hname,
      hfirst, hfresh⟩
  · rintro ⟨hway, hfits, ⟨hproper, hdd⟩, hspace, hdot, hfirst, hfresh⟩
    refine ⟨hfits, hway, ⟨hproper, fun h => absurd h hdd, hfresh, hfirst, ?_⟩,
      (filename_fileEntry hfits h0 hspace f).mpr hdot⟩
    unfold nameOf extensionOf
    rw [if_neg hdd, if_neg hdd]
    exact (key_fileEntry hfits h0 f).mpr hspace

theorem fatNewDir_foundAgain (hok : (v.fatNewDir e (p ++ slash :: q)).2 = true) :
    FoundAgain e v p q (v.fatNewDir e (p ++ slash :: q)).1 ↔ DirNameOk e.geom v d p q := by
  obtain ⟨hlen, d', i, f, junk, hparent', h, -⟩ := fatNewDir_created hg hio hq hwalk hok
  obtain rfl := Option.some.inj (hparent.symm.trans hparent')
  have hsmall : f < 2 ^ 16 := by
    have := (valid_lt h.valid).2
    have := hg.clusters
    omega
  have hne : skipped q = false → q ≠ [] := by
    rintro hproper rfl
    exact absurd hproper Bool.noConfusion
  rw [h.foundAgain_iff hq hparent, h.parse_iff hg hio (h.two_le hdots) hq (by omega) hwalk hparent
    (fun hproper => isEnd_subdirEntry h0 (hne hproper) junk f) (firstClusterNo_newEntry _ _ hsmall),
    isDeleted_subdirEntry,
    key_subdirEntry hlen h0]
  constructor
  · rintro ⟨-, hway, ⟨hproper, hdd, hfresh, hfirst, hspace, hdot⟩, -⟩
    exact ⟨hway, hproper, fun hmem => ⟨hdot hmem, hdd (hdot hmem)⟩, hspace, hfirst, hfresh⟩
  · rintro ⟨hway, hproper, hdot, hspace, hfirst, hfresh⟩
    have hfits : Fits83 q := by
      by_cases hmem : dot ∈ q
      · rw [(hdot hmem).1]
        exact ⟨by decide, by decide⟩
      · unfold Fits83
        rw [split_of_noDot hmem]
        exact ⟨hlen, Nat.zero_le _⟩
    have hroot : q = dotdot → d = 0 := by
      rintro rfl
      exact (hdot List.mem_cons_self).2
    exact ⟨hfits, hway, ⟨hproper, hroot, hfresh, hfirst, hspace, fun hmem => (hdot hmem).1⟩,
      filename_subdirEntry hlen h0 hspace junk f⟩

end Names

/-- What `fat_new_file` or `fat_new_dir` has created is found again just when its name is one of
those that are kept. -/
theorem created_foundAgain_iff (e : Env) (hg : e.geom.Ok) (hio : ∀ n, e.io n = none) (v : Vol)
    (p q : Str) (hq : slash ∉ q) (h0 : 0 ∉ q) (hwalk : WalkIn e [] (components p) none v) (d : ℕ)
    (hparent : parentDir e v (p ++ slash :: q) = some d)
    (hdots : d ≠ 0 → ∀ j < 2, (entryIn e.geom v d j).isEnd = false) :
    ((v.fatNewFile e (p ++ slash :: q)).2 = true →
      (FoundAgain e v p q (v.fatNewFile e (p ++ slash :: q)).1 ↔ FileNameOk e.geom v d p q)) ∧
    ((v.fatNewDir e (p ++ slash :: q)).2 = true →
      (FoundAgain e v p q (v.fatNewDir e (p ++ slash :: q)).1 ↔ DirNameOk e.geom v d p q)) :=
  ⟨fatNewFile_foundAgain hg hio hq h0 hwalk hparent hdots,
    fatNewDir_foundAgain hg hio hq h0 hwalk hparent hdots⟩

/-- `/D/B` as a file and `/D/C` as a directory. -/
theorem oneDir_foundAgain :
    (oneDir.fatNewFile (calm smallGeom) [slash, 68, slash, 66]).2 = true ∧
    FoundAgain (calm smallGeom) oneDir [slash, 68] [66]
      (oneDir.fatNewFile (calm smallGeom) [slash, 68, slash, 66]).1 ∧
    (oneDir.fatNewDir (calm smallGeom) [slash, 68, slash, 67]).2 = true ∧
    FoundAgain (calm smallGeom) oneDir [slash, 68] [67]
      (oneDir.fatNewDir (calm smallGeom) [slash, 68, slash, 67]).1 := by
  have hwalk : WalkIn (calm smallGeom) [] (components [slash, 68]) none oneDir :=
    ⟨.inl rfl, .inl rfl, .inr (by decide +kernel)⟩
  have hdots : (2 : ℕ) ≠ 0 → ∀ j < 2, (entryIn (calm smallGeom).geom oneDir 2 j).isEnd = false :=
    fun _ => by decide +kernel
  have hfile : (oneDir.fatNewFile (calm smallGeom) [slash, 68, slash, 66]).2 = true := by
    decide +kernel
  have hdir : (oneDir.fatNewDir (calm smallGeom) [slash, 68, slash, 67]).2 = true := by
    decide +kernel
  have hB := created_foundAgain_iff (calm smallGeom) smallGeom_ok (fun _ => rfl) oneDir [slash, 68]
    [66] (by decide) (by decide) hwalk 2
    (by decide +kernel) hdots
  have hC := created_foundAgain_iff (calm smallGeom) smallGeom_ok (fun _ => rfl) oneDir [slash, 68]
    [67] (by decide) (by decide) hwalk 2
    (by decide +kernel) hdots
  have hfresh : Fresh smallGeom oneDir 2 [66] ∧ Fresh smallGeom oneDir 2 [67] := by
    unfold Fresh
    decide +kernel
  have hway : ∀ c ∈ components [slash, 68], ElementFits c := by decide
  exact ⟨hfile, (hB.1 hfile).mpr ⟨hway, ⟨by decide, by decide⟩, by decide, by decide, by decide,
    by decide, hfresh.1⟩,
    hdir, (hC.2 hdir).mpr ⟨hway, rfl, by decide, by decide, by decide, hfresh.2⟩⟩

/-- `fat_new_dir` makes `/A.B`, and no path leads to it. -/
theorem oneDir_lost :
    (oneDir.fatNewDir (calm smallGeom) [slash, 65, dot, 66]).2 = true ∧
    ((oneDir.fatNewDir (calm smallGeom) [slash, 65, dot, 66]).1.fatParsePath (calm smallGeom)
      [slash, 65, dot, 66] true).2 = none ∧
    ¬FoundAgain (calm smallGeom) oneDir [] [65, dot, 66]
      (oneDir.fatNewDir (calm smallGeom) [slash, 65, dot, 66]).1 := by
  have hnone :
      ((oneDir.fatNewDir (calm smallGeom) [slash, 65, dot, 66]).1.fatParsePath (calm smallGeom)
        [slash, 65, dot, 66] true).2 =
    none := by decide +kernel
  refine ⟨by decide +kernel, hnone, ?_⟩
  rintro ⟨-, -, d, i, f, dir, -, -, hfind, -⟩
  exact nomatch hnone.symm.trans (hfind _ rfl).2

end X86Kernel.Fat
