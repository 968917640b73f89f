import X86Kernel.Fat.WriteFile

/-! Paths in the directory tree, and when `fat_parse_path` ends where the walk through the tree
does. -/
namespace X86Kernel.Fat

open Vol

def dotdot : Str := [dot, dot]

/-- Empty components and `.` are skipped. -/
def skipped (component : Str) : Bool := component = [] ∨ component = [dot]

/-- The parts of a path between its slashes. -/
def components (path : Str) : List Str := (pathElements path).1 ++ [(pathElements path).2]

/-- A component as name and extension. -/
def nameOf (component : Str) : Str := if component = dotdot then component
  else (strsplit component dot).1

def extensionOf (component : Str) : Str :=
  if component = dotdot then [] else (strsplit component dot).2.1

/-- The entry of directory `d` that a component names. -/
def named (g : Geom) (v : Vol) (d : ℕ) (component : Str) : Option Raw :=
  (scanFrom ((dirRegion g d).buf v.disk) (nameOf component) (extensionOf component)
    (dirRegion g d).entries 0).map
    (entryIn g v d)

/-- The directory reached, the last of `dirs`; the root if there is none. -/
def here (dirs : List ℕ) : ℕ := dirs.headD 0

/-- The walk through the tree. `dirs` are the directories entered, the last one first. -/
def walk (g : Geom) (v : Vol) : List ℕ → List Str → Option Raw
  | _, [] => none
  | dirs, component :: rest =>
    if skipped component then walk g v dirs rest
    else if rest.all skipped then named g v (here dirs) component
    else if component = dotdot then walk g v dirs.tail rest
    else
      match named g v (here dirs) component with
      | none => none
      | some dir => if dir.isDir then walk g v (dir.firstClusterNo :: dirs) rest else none

/-- The directories of the tree, each with the ones it is in. -/
inductive InTree (g : Geom) (v : Vol) : List ℕ → Prop
  | root : InTree g v []
  | sub {dirs : List ℕ} {i : ℕ} (h : InTree g v dirs)
      (hlive : (dirRegion g (here dirs)).Live v.disk i)
      (hdir : (entryIn g v (here dirs) i).isDir = true)
      (hdots : isDots (entryIn g v (here dirs) i) = false) :
      InTree g v ((entryIn g v (here dirs) i).firstClusterNo :: dirs)

/-- Every directory but the root has a cluster, and `..` as its second entry. -/
structure TreeOk (g : Geom) (v : Vol) : Prop where
  cluster : ∀ d dirs, InTree g v (d :: dirs) → fatValidCluster g d = true
  parent : ∀ d dirs, InTree g v (d :: dirs) →
    scanFrom ((dirRegion g d).buf v.disk) dotdot [] (dirRegion g d).entries 0 = some 1 ∧
      (entryIn g v d 1).firstClusterNo = here dirs
  root : scanFrom (g.rootRegion.buf v.disk) dotdot [] g.rootRegion.entries 0 = none

/-- The walk meets no component that exceeds the buffers, and none of the steps that
`fat_parse_path` takes otherwise: a name that the root does not have, an entry that is no directory,
`..` to the root, each before the last component. -/
def Straight (g : Geom) (v : Vol) : List ℕ → List Str → Prop
  | _, [] => True
  | dirs, component :: rest =>
    if skipped component then Straight g v dirs rest
    else
      ElementFits component ∧
        if rest.all skipped then True
        else if component = dotdot then dirs.length ≠ 1 ∧ Straight g v dirs.tail rest
        else
          match named g v (here dirs) component with
          | none => dirs ≠ []
          | some dir => dir.isDir = true ∧ Straight g v (dir.firstClusterNo :: dirs) rest

variable {g : Geom} {v v' : Vol} {e : Env} {dirs : List ℕ} {c : Str}

theorem InTree.tail (h : InTree g v dirs) : InTree g v dirs.tail := by
  cases h with
  | root => exact .root
  | sub h => exact h

/-! ### Names -/

/-- The search ends at a live entry with the name. -/
theorem scanFrom_spec {buf : Buf} {name extension : Str} (n : ℕ) :
    ∀ {i j : ℕ}, scanFrom buf name extension n i = some j →
    i ≤ j ∧ j < i + n ∧ (∀ k, i ≤ k → k ≤ j → (entryAt buf k).isEnd = false) ∧
      (entryAt buf j).isDeleted = false ∧
      (entryAt buf j).key = (strtoupper name, strtoupper extension) := by
  induction n with
  | zero => exact fun h => nomatch h
  | succ n ih =>
    intro i j h
    rw [scanFrom] at h
    have hnext : (entryAt buf i).isEnd = false → scanFrom buf name extension n (i + 1) = some j →
        i ≤ j ∧ j < i + (n + 1) ∧ (∀ k, i ≤ k → k ≤ j → (entryAt buf k).isEnd = false) ∧
          (entryAt buf j).isDeleted = false ∧
            (entryAt buf j).key = (strtoupper name, strtoupper extension) := by
      intro hend hrest
      obtain ⟨h1, h2, h3, h4⟩ := ih hrest
      refine ⟨by omega, by omega, fun k hk hkj => ?_, h4⟩
      rcases Nat.eq_or_lt_of_le hk with rfl | hk
      · exact hend
      · exact h3 k hk hkj
    split_ifs at h with hend hdel hmatch
    · exact hnext (Bool.eq_false_iff.mpr hend) h
    · obtain rfl := Option.some.inj h
      refine ⟨le_refl _, by omega, fun k hk hkj => ?_, Bool.eq_false_iff.mpr hdel, ?_⟩
      · rw [le_antisymm hkj hk]
        exact Bool.eq_false_iff.mpr hend
      · exact eq_of_beq hmatch
    · exact hnext (Bool.eq_false_iff.mpr hend) h

theorem named_spec {d : ℕ} {dir : Raw} (h : named g v d c = some dir) :
    ∃ i, (dirRegion g d).Live v.disk i ∧ dir = entryIn g v d i ∧
      dir.key = (strtoupper (nameOf c), strtoupper (extensionOf c)) := by
  unfold named at h
  obtain ⟨i, hscan, rfl⟩ := Option.map_eq_some_iff.mp h
  obtain ⟨-, hlt, hend, hdel, hkey⟩ := scanFrom_spec _ hscan
  exact ⟨i, ⟨by omega, fun j hj => hend j (Nat.zero_le j) hj, hdel⟩, rfl, hkey⟩

theorem named_congr (h : v'.disk = v.disk) (d : ℕ) (c : Str) : named g v' d c = named g v d c := by
  unfold named entryIn
  rw [h]

/-- A name of 8 bytes, a dot and 3 more are as much as an entry can have. -/
theorem named_long (h : 12 < c.length) (d : ℕ) : named g v d c = none := by
  cases hnamed : named g v d c with
  | none => rfl
  | some dir =>
    obtain ⟨i, -, -, hkey⟩ := named_spec hnamed
    have hne : c ≠ dotdot := by
      rintro rfl
      exact absurd h (by decide)
    have hname : (nameOf c).length ≤ 8 := by
      have hlen := congrArg (fun k => k.1.length) hkey
      simp only [Raw.key, strtoupper, List.length_map] at hlen
      rw [← hlen]
      exact (List.takeWhile_sublist _).length_le.trans (by simp)
    have hext : (extensionOf c).length ≤ 3 := by
      have hlen := congrArg (fun k => k.2.length) hkey
      simp only [Raw.key, strtoupper, List.length_map] at hlen
      rw [← hlen]
      exact (List.takeWhile_sublist _).length_le.trans (by simp)
    unfold nameOf at hname
    unfold extensionOf at hext
    rw [if_neg hne] at hname hext
    unfold strsplit at hname hext
    split_ifs at hname hext
    all_goals dsimp only at hname hext
    · have hsplit := congrArg List.length
        (List.takeWhile_append_dropWhile (p := fun b => decide (b ≠ dot)) (l := c))
      rw [List.length_append] at hsplit
      rw [List.length_tail] at hext
      omega
    · omega

theorem toupper_eq_dot {b : UInt8} (h : toupper b = dot) : b = dot := by
  unfold toupper at h
  split_ifs at h with hrange
  · have hb : b = dot + 32 := by rw [← h, UInt8.sub_add_cancel]
    subst hb
    exact absurd hrange.1 (by decide)
  · exact h

/-- The dot of a component is not in its name. -/
theorem dot_notMem_nameOf (hc : c ≠ dotdot) : dot ∉ nameOf c := by
  unfold nameOf strsplit
  rw [if_neg hc]
  split_ifs with hmem
  · exact fun hb => absurd (List.all_eq_true.mp List.all_takeWhile dot hb) (by decide)
  · exact hmem

theorem isDots_of_named {d : ℕ} {dir : Raw} (hc : c ≠ dotdot) (h : named g v d c = some dir) :
    isDots dir = false := by
  obtain ⟨i, -, -, hkey⟩ := named_spec h
  by_contra hdots
  rw [Bool.not_eq_false] at hdots
  unfold isDots at hdots
  rw [Bool.and_eq_true] at hdots
  have hfirst : dir 0 = dot := eq_of_beq hdots.1
  have hmem : dot ∈ dir.name := by
    unfold Raw.name
    have hrange : (List.range 8).map dir = dir 0 :: (List.range 7).map fun k => dir (k + 1) := by
      rw [List.range_succ_eq_map, List.map_cons, List.map_map]
      rfl
    rw [hrange, hfirst, List.takeWhile_cons_of_pos (by decide)]
    exact List.mem_cons_self
  have hupper : dot ∈ strtoupper (nameOf c) := by
    have hname : strtoupper dir.name = strtoupper (nameOf c) := congrArg Prod.fst hkey
    rw [← hname]
    exact List.mem_map.mpr ⟨dot, hmem, by decide⟩
  obtain ⟨b, hb, hbdot⟩ := List.mem_map.mp hupper
  rw [toupper_eq_dot hbdot] at hb
  exact dot_notMem_nameOf hc hb

/-! ### One component -/

/-- Where `fat_parse_path` is when the walk is in `dirs`. -/
inductive At : Option Raw → List ℕ → Prop
  | root : At none []
  | dir {dir : Raw} {dirs : List ℕ} : At (some dir) (dir.firstClusterNo :: dirs)

theorem follow_skipped (e : Env) (v : Vol) (hc : skipped c = true) (cur : Option Raw) :
    v.fatFollowPathChain e c cur = (v, .same) := by
  unfold fatFollowPathChain
  rcases of_decide_eq_true hc with rfl | rfl
  · rfl
  · rfl

/-- What the code finds is what the tree has. -/
theorem follow_named (hio : ∀ n, e.io n = none) (htree : TreeOk e.geom v)
    (hdirs : InTree e.geom v dirs) {cur : Option Raw}
    (hat : At cur dirs) (hc : skipped c = false) (hv : v'.disk = v.disk) :
    (v'.fatFollowPathChain e c cur).2 = match named e.geom v (here dirs) c with
      | none => .missing
      | some dir => .entry dir := by
  have hproper := of_decide_eq_false hc
  rw [not_or] at hproper
  rw [← named_congr hv]
  unfold fatFollowPathChain
  rw [if_neg hproper.1]
  by_cases hlong : 12 < c.length
  · rw [if_pos hlong, named_long hlong]
  rw [if_neg hlong, if_neg hproper.2]
  dsimp only
  cases hat with
  | root =>
    have hfind : (v'.fatFindInRoot e (nameOf c) (extensionOf c)).2 = named e.geom v' 0 c := by
      unfold fatFindInRoot ataReadExact
      rw [hio]
      dsimp only
      rw [if_pos rfl]
      unfold named
      rw [show (dirRegion e.geom 0).entries = e.geom.noRootEntries
        from Nat.mul_div_cancel_left _ (by decide)]
      rfl
    change (match (v'.fatFindInRoot e (nameOf c) (extensionOf c)).2 with
      | none => ((v'.fatFindInRoot e (nameOf c) (extensionOf c)).1, Follow.missing)
      | some dir => ((v'.fatFindInRoot e (nameOf c) (extensionOf c)).1, Follow.entry dir)).2 = _
    rw [hfind]
    change _ = match named e.geom v' 0 c with
      | none => _
      | some dir => _
    cases named e.geom v' 0 c <;> rfl
  | dir =>
    rename_i dir dirs
    have hfind : (v'.fatFindInDir e dir.firstClusterNo (nameOf c) (extensionOf c)).2 =
        named e.geom v' dir.firstClusterNo c := by
      have hregion :
          dirRegion e.geom dir.firstClusterNo = e.geom.clusterRegion dir.firstClusterNo := by
        have hlt := (valid_lt (htree.cluster _ _ hdirs)).1
        exact if_neg (by omega)
      obtain ⟨hscan, -⟩ := htree.parent _ _ hdirs
      unfold fatFindInDir ataReadExact
      rw [hio]
      dsimp only
      rw [if_pos rfl]
      by_cases hdd : c = dotdot
      · subst hdd
        unfold named
        rw [hv, show nameOf dotdot = dotdot from rfl, show extensionOf dotdot = [] from rfl, hscan]
        change some _ = some _
        unfold entryIn
        rw [hregion, hv]
        rfl
      · have hname : ¬(nameOf c).take 2 = [dot, dot] := by
          intro htake
          refine dot_notMem_nameOf hdd (List.mem_of_mem_take (i := 2) ?_)
          rw [htake]
          exact List.mem_cons_self
        dsimp only
        rw [if_neg hname]
        unfold named entryIn
        rw [hregion]
        rfl
    change (match (v'.fatFindInDir e dir.firstClusterNo (nameOf c) (extensionOf c)).2 with
      | none =>
        ((v'.fatFindInDir e dir.firstClusterNo (nameOf c) (extensionOf c)).1, Follow.missing)
      | some dir' =>
        ((v'.fatFindInDir e dir.firstClusterNo (nameOf c) (extensionOf c)).1,
          Follow.entry dir')).2 = _
    rw [hfind]
    change _ = match named e.geom v' dir.firstClusterNo c with
      | none => _
      | some dir => _
    cases named e.geom v' dir.firstClusterNo c <;> rfl

/-! ### The whole path -/

/-- The last component of `fat_parse_path`. -/
def finish (e : Env) (last : Str) (r : Vol × Option (Option Raw)) : Option Raw :=
  match r.2 with
  | none => none
  | some curDir =>
    match (r.1.fatFollowPathChain e last curDir).2 with
    | .same => curDir
    | .entry dir => some dir
    | .missing => none

theorem fatParsePath_finish (e : Env) (v : Vol) (path : Str) :
    (v.fatParsePath e path true).2 = finish e (pathElements path).2
      (parseElements e (pathElements path).1 none v) := by
  unfold fatParsePath finish
  dsimp only
  generalize parseElements e (pathElements path).1 none v = r
  cases r.2 with
  | none => rfl
  | some curDir =>
    dsimp only
    rw [if_pos rfl]
    cases (r.1.fatFollowPathChain e (pathElements path).2 curDir).2 <;> rfl

theorem elementFits_skipped (hc : skipped c = true) : ElementFits c := by
  rcases of_decide_eq_true hc with rfl | rfl
  · exact .inr (by decide)
  · exact .inr (by decide)

theorem elementsFit_skipped (e : Env) (l : List Str) (cur : Option Raw) (v : Vol)
    (h : l.all skipped = true) :
    ElementsFit e l cur v := by
  induction l with
  | nil => trivial
  | cons c l ih =>
    rw [List.all_cons, Bool.and_eq_true] at h
    refine ⟨elementFits_skipped h.1, ?_⟩
    rw [follow_skipped e v h.1]
    exact ih h.2

/-- Skipped components lead nowhere. -/
theorem parse_skipped (e : Env) (last : Str) (l : List Str) : ∀ (cur : Option Raw) (v : Vol),
    (l ++ [last]).all skipped = true → finish e last (parseElements e l cur v) = cur := by
  induction l with
  | nil =>
    intro cur v h
    have hlast : skipped last = true := by simpa using h
    rw [parseElements]
    unfold finish
    dsimp only
    rw [follow_skipped e v hlast]
  | cons c l ih =>
    intro cur v h
    rw [List.cons_append, List.all_cons, Bool.and_eq_true] at h
    rw [parseElements, follow_skipped e v h.1]
    exact ih cur v h.2

theorem walk_skipped (l : List Str) (h : l.all skipped = true) : walk g v dirs l = none := by
  induction l with
  | nil => rfl
  | cons c l ih =>
    rw [List.all_cons, Bool.and_eq_true] at h
    rw [walk, if_pos h.1]
    exact ih h.2

theorem parse_eq_walk (hio : ∀ n, e.io n = none) (htree : TreeOk e.geom v) (last : Str)
    (l : List Str) :
    ∀ {cur : Option Raw} {dirs : List ℕ} {v' : Vol}, InTree e.geom v dirs → At cur dirs →
      v'.disk = v.disk →
    Straight e.geom v dirs (l ++ [last]) → (l ++ [last]).all skipped = false →
    ElementsFit e (l ++ [last]) cur v' ∧
      finish e last (parseElements e l cur v') = walk e.geom v dirs (l ++ [last]) := by
  induction l with
  | nil =>
    intro cur dirs v' hdirs hat hv hstraight hall
    have hlast : skipped last = false := by simpa using hall
    rw [List.nil_append, Straight, hlast, if_neg Bool.false_ne_true] at hstraight
    rw [parseElements, List.nil_append, walk, hlast, if_neg Bool.false_ne_true, List.all_nil,
      if_pos rfl]
    unfold finish
    dsimp only
    have hfollow := follow_named hio htree hdirs hat hlast hv
    constructor
    · refine ⟨hstraight.1, ?_⟩
      dsimp only
      cases (v'.fatFollowPathChain e last cur).2 with
      | same => trivial
      | entry dir => trivial
      | missing => exact fun _ => trivial
    · rw [hfollow]
      cases named e.geom v (here dirs) last <;> rfl
  | cons c l ih =>
    intro cur dirs v' hdirs hat hv hstraight hall
    have hread := fatFollowPathChain_onlyRead e v' c cur
    rw [parseElements]
    rw [List.cons_append, Straight] at hstraight
    rw [List.cons_append, walk, ElementsFit]
    rw [List.cons_append, List.all_cons] at hall
    cases hc : skipped c with
    | true =>
      rw [hc, if_pos rfl] at hstraight
      rw [hc, Bool.true_and] at hall
      rw [if_pos rfl, follow_skipped e v' hc]
      obtain ⟨hfit, hwalk⟩ := ih hdirs hat hv hstraight hall
      exact ⟨⟨elementFits_skipped hc, hfit⟩, hwalk⟩
    | false =>
      rw [hc, if_neg Bool.false_ne_true] at hstraight
      obtain ⟨hfits, hstraight⟩ := hstraight
      rw [if_neg Bool.false_ne_true]
      have hfollow := follow_named hio htree hdirs hat hc hv
      generalize v'.fatFollowPathChain e c cur = r at hfollow hread ⊢
      have hr : r.1.disk = v.disk := hread.disk.trans hv
      dsimp only
      rw [hfollow]
      by_cases hrest : (l ++ [last]).all skipped = true
      · -- the last name of the path
        have hfit : ∀ cur', ElementsFit e (l ++ [last]) cur' r.1 :=
          fun cur' => elementsFit_skipped e _ cur' r.1 hrest
        rw [if_pos hrest]
        cases named e.geom v (here dirs) c with
        | some dir => exact ⟨⟨hfits, hfit _⟩, parse_skipped e last l (some dir) r.1 hrest⟩
        | none =>
          cases hat with
          | root => exact ⟨⟨hfits, fun _ => hfit _⟩, parse_skipped e last l none r.1 hrest⟩
          | dir => exact ⟨⟨hfits, fun _ => hfit _⟩, rfl⟩
      rw [if_neg hrest] at hstraight ⊢
      rw [Bool.not_eq_true] at hrest
      by_cases hdd : c = dotdot
      · rw [if_pos hdd] at hstraight ⊢
        subst hdd
        obtain ⟨hlen, hstraight⟩ := hstraight
        cases hat with
        | root =>
          have hnone : named e.geom v (here []) dotdot = none := by
            unfold named
            exact congrArg (Option.map _) htree.root
          rw [hnone]
          obtain ⟨hfit, hwalk⟩ := ih hdirs .root hr hstraight hrest
          exact ⟨⟨hfits, fun _ => hfit⟩, hwalk⟩
        | dir =>
          rename_i dir dirs
          obtain ⟨hscan, hparent⟩ := htree.parent _ _ hdirs
          have hsome : named e.geom v (here (dir.firstClusterNo :: dirs)) dotdot =
              some (entryIn e.geom v dir.firstClusterNo 1) := by
            unfold named
            exact congrArg (Option.map _) hscan
          rw [hsome]
          obtain _ | ⟨d, dirs⟩ := dirs
          · exact absurd rfl hlen
          have hup : InTree e.geom v (d :: dirs) := hdirs.tail
          have hd : d = (entryIn e.geom v dir.firstClusterNo 1).firstClusterNo := hparent.symm
          subst hd
          obtain ⟨hfit, hwalk⟩ := ih hup .dir hr hstraight hrest
          exact ⟨⟨hfits, hfit⟩, hwalk⟩
      · rw [if_neg hdd] at hstraight ⊢
        cases hnamed : named e.geom v (here dirs) c with
        | none =>
          rw [hnamed] at hstraight
          cases hat with
          | root => exact absurd rfl hstraight
          | dir => exact ⟨⟨hfits, fun hroot => absurd hroot Bool.false_ne_true⟩, rfl⟩
        | some dir =>
          rw [hnamed] at hstraight
          dsimp only at hstraight ⊢
          rw [if_pos hstraight.1]
          obtain ⟨i, hlive, rfl, -⟩ := named_spec hnamed
          obtain ⟨hfit, hwalk⟩ :=
            ih (.sub hdirs hlive hstraight.1 (isDots_of_named hdd hnamed)) .dir hr hstraight.2 hrest
          exact ⟨⟨hfits, hfit⟩, hwalk⟩

/-- On a well-formed tree `fat_parse_path` exceeds no buffer and finds what the walk finds, if no
read fails, unless the walk takes one of the steps. -/
theorem fatParsePath_eq_walk (e : Env) (hio : ∀ n, e.io n = none) (v : Vol)
    (htree : TreeOk e.geom v) (path : Str) (hstraight : Straight e.geom v [] (components path)) :
    ElementsFit e (components path) none v ∧
      (v.fatParsePath e path true).2 = walk e.geom v [] (components path) := by
  rw [fatParsePath_finish]
  by_cases hall : (components path).all skipped = true
  · rw [parse_skipped e _ _ none v hall, walk_skipped _ hall]
    exact ⟨elementsFit_skipped e _ none v hall, rfl⟩
  · exact parse_eq_walk hio htree _ _ .root .root rfl hstraight (Bool.eq_false_iff.mpr hall)

/-- A volume with a directory `D` that has one file, `A`. -/
def oneDir : Vol :=
  { disk := blit (blit (fun _ => 0) smallGeom.rootAddr
    (newEntry (paddedName [68] []) 0x10 2) 32) (smallGeom.clusterAddr 2)
      (setEntry (newDirBuf 2 0) 2 (newEntry (paddedName [65] []) 0x20 3)) 512
    table := Function.update (Function.update (fun _ => 0) 2 0xFFFF) 3 0xFFFF
    dirty := fun _ => false
    clock := 0 }

theorem oneDir_inTree {dirs : List ℕ} (h : InTree smallGeom oneDir dirs) :
    dirs = [] ∨ dirs = [2] := by
  induction h with
  | root => exact .inl rfl
  | @sub dirs i h hlive hdir hdots ih =>
    obtain ⟨hlt, hend, -⟩ := hlive
    rcases ih with rfl | rfl
    · have hi : i < 1 := by
        by_contra hge
        exact absurd (hend 1 (by omega)) (by decide +kernel)
      obtain rfl : i = 0 := by omega
      exact .inr (by decide +kernel)
    · have hi : i < 3 := by
        by_contra hge
        exact absurd (hend 3 (by omega)) (by decide +kernel)
      interval_cases i
      · exact absurd hdots (by decide +kernel)
      · exact absurd hdots (by decide +kernel)
      · exact absurd hdir (by decide +kernel)

theorem oneDir_treeOk : TreeOk smallGeom oneDir where
  cluster := by
    intro d dirs h
    rcases oneDir_inTree h with h | h
    · cases h
    · obtain ⟨rfl, rfl⟩ := List.cons.inj h
      decide
  parent := by
    intro d dirs h
    rcases oneDir_inTree h with h | h
    · cases h
    · obtain ⟨rfl, rfl⟩ := List.cons.inj h
      decide +kernel
  root := by decide +kernel

theorem fatParsePath_oneDir :
    ElementsFit (calm smallGeom) [[], [68], [dot], [65]] none oneDir ∧
    (oneDir.fatParsePath (calm smallGeom) [slash, 68, slash, dot, slash, 65] true).2 =
      walk smallGeom oneDir [] [[], [68], [dot], [65]] ∧
    walk smallGeom oneDir [] [[], [68], [dot], [65]] = some (entryIn smallGeom oneDir 2 2) := by
  have hstraight : Straight smallGeom oneDir [] [[], [68], [dot], [65]] :=
    ⟨.inr (by decide), by decide +kernel, .inr (by decide), trivial⟩
  obtain ⟨hfit, hwalk⟩ := fatParsePath_eq_walk (calm smallGeom) (fun _ => rfl) oneDir oneDir_treeOk
    [slash, 68, slash, dot, slash, 65] hstraight
  exact ⟨hfit, hwalk, rfl⟩

/-- `/X/D` without an `X`: the directory `D` of the root. -/
theorem fatParsePath_missingDir : TreeOk smallGeom oneDir ∧
    walk smallGeom oneDir [] (components [slash, 88, slash, 68]) = none ∧
    (oneDir.fatParsePath (calm smallGeom) [slash, 88, slash, 68] true).2 =
    some (entryIn smallGeom oneDir 0 0) :=
  ⟨oneDir_treeOk, rfl, rfl⟩

end X86Kernel.Fat
