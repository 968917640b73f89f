import X86Kernel.Fat.ReadDir
import X86Kernel.Fat.Rename
import X86Kernel.Fat.Delete

/-! Names: how a path component becomes the name bytes of an entry, and how it is found and shown
again. -/
namespace X86Kernel.Fat

open Vol

/-! ### Letter case -/

theorem toNat_toupper (b : UInt8) :
    (toupper b).toNat = if 97 ≤ b.toNat ∧ b.toNat ≤ 122 then b.toNat - 32 else b.toNat := by
  have hiff : 97 ≤ b ∧ b ≤ 122 ↔ 97 ≤ b.toNat ∧ b.toNat ≤ 122 := by
    rw [UInt8.le_iff_toNat_le, UInt8.le_iff_toNat_le]
    rfl
  unfold toupper
  by_cases hb : 97 ≤ b ∧ b ≤ 122
  · have hle : (32 : UInt8) ≤ b := by
      rw [UInt8.le_iff_toNat_le]
      exact le_trans (by decide : 32 ≤ 97) (hiff.mp hb).1
    rw [if_pos hb, if_pos (hiff.mp hb), UInt8.toNat_sub_of_le b 32 hle]
    rfl
  · rw [if_neg hb, if_neg fun h => hb (hiff.mpr h)]

theorem toNat_tolower (b : UInt8) :
    (tolower b).toNat = if 65 ≤ b.toNat ∧ b.toNat ≤ 90 then b.toNat + 32 else b.toNat := by
  have hiff : 65 ≤ b ∧ b ≤ 90 ↔ 65 ≤ b.toNat ∧ b.toNat ≤ 90 := by
    rw [UInt8.le_iff_toNat_le, UInt8.le_iff_toNat_le]
    rfl
  unfold tolower
  by_cases hb : 65 ≤ b ∧ b ≤ 90
  · have hrange := hiff.mp hb
    rw [if_pos hb, if_pos hrange, UInt8.toNat_add]
    exact Nat.mod_eq_of_lt (show b.toNat + 32 < 256 by omega)
  · rw [if_neg hb, if_neg fun h => hb (hiff.mpr h)]

/-- A byte that is no letter comes from itself only. -/
theorem toupper_eq_iff {b t : UInt8} (ht : ¬(65 ≤ t.toNat ∧ t.toNat ≤ 90))
    (ht' : ¬(97 ≤ t.toNat ∧ t.toNat ≤ 122)) :
    toupper b = t ↔ b = t := by
  rw [← UInt8.toNat_inj, ← UInt8.toNat_inj, toNat_toupper]
  split_ifs <;> omega

theorem toupper_eq_slash {b : UInt8} : toupper b = slash ↔ b = slash :=
  toupper_eq_iff (by decide) (by decide)

theorem toupper_eq_space {b : UInt8} : toupper b = space ↔ b = space :=
  toupper_eq_iff (by decide) (by decide)

theorem toupper_eq_zero {b : UInt8} : toupper b = 0 ↔ b = 0 :=
  toupper_eq_iff (by decide) (by decide)

theorem toupper_toupper (b : UInt8) : toupper (toupper b) = toupper b := by
  rw [← UInt8.toNat_inj, toNat_toupper, toNat_toupper]
  split_ifs <;> omega

theorem tolower_toupper (b : UInt8) : tolower (toupper b) = tolower b := by
  rw [← UInt8.toNat_inj, toNat_tolower, toNat_tolower, toNat_toupper]
  split_ifs <;> omega

theorem length_strtoupper (s : Str) : (strtoupper s).length = s.length := List.length_map _

theorem strtoupper_strtoupper (s : Str) : strtoupper (strtoupper s) = strtoupper s := by
  unfold strtoupper
  rw [List.map_map]
  exact List.map_congr_left fun b _ => toupper_toupper b

theorem strtolower_strtoupper (s : Str) : strtolower (strtoupper s) = strtolower s := by
  unfold strtoupper strtolower
  rw [List.map_map]
  exact List.map_congr_left fun b _ => tolower_toupper b

theorem mem_strtoupper {t : UInt8} (ht : ¬(65 ≤ t.toNat ∧ t.toNat ≤ 90))
    (ht' : ¬(97 ≤ t.toNat ∧ t.toNat ≤ 122)) {s : Str} :
    t ∈ strtoupper s ↔ t ∈ s := by
  unfold strtoupper
  rw [List.mem_map]
  constructor
  · rintro ⟨b, hb, heq⟩
    rwa [← (toupper_eq_iff ht ht').mp heq]
  · exact fun h => ⟨t, h, (toupper_eq_iff ht ht').mpr rfl⟩

/-- Splitting does not look at letters. -/
theorem strsplit_upper {t : UInt8} (ht : ¬(65 ≤ t.toNat ∧ t.toNat ≤ 90))
    (ht' : ¬(97 ≤ t.toNat ∧ t.toNat ≤ 122)) (s : Str) :
    strsplit (strtoupper s) t =
    (strtoupper (strsplit s t).1, strtoupper (strsplit s t).2.1, (strsplit s t).2.2) := by
  have hcomp : (fun b => decide (b ≠ t)) ∘ toupper = fun b => decide (b ≠ t) := by
    funext b
    exact decide_eq_decide.mpr (not_congr (toupper_eq_iff ht ht'))
  unfold strsplit
  by_cases hmem : t ∈ s
  · rw [if_pos hmem, if_pos ((mem_strtoupper ht ht').mpr hmem)]
    unfold strtoupper
    rw [List.takeWhile_map, List.dropWhile_map, hcomp, List.map_tail]
  · rw [if_neg hmem, if_neg fun h => hmem ((mem_strtoupper ht ht').mp h)]
    rfl

/-- A string of dots comes from itself only. -/
theorem strtoupper_eq_dots {s t : Str} (ht : ∀ b ∈ t, b = dot) : strtoupper s = t ↔ s = t := by
  unfold strtoupper
  induction t generalizing s with
  | nil => exact List.map_eq_nil_iff
  | cons b t ih =>
    cases s with
    | nil => exact iff_of_false (List.cons_ne_nil b t).symm (List.cons_ne_nil b t).symm
    | cons a s =>
      obtain rfl := ht b List.mem_cons_self
      rw [List.map_cons, List.cons_eq_cons, List.cons_eq_cons,
        toupper_eq_iff (by decide) (by decide),
        ih fun c hc => ht c (List.mem_cons_of_mem _ hc)]

/-! ### A path in any letter case -/

theorem pathElements_upper (path : Str) :
    pathElements (strtoupper path) =
    ((pathElements path).1.map strtoupper, strtoupper (pathElements path).2) := by
  induction path with
  | nil => rfl
  | cons c path ih =>
    change pathElements (toupper c :: strtoupper path) = _
    rw [pathElements, pathElements, ih]
    by_cases hc : c = slash
    · rw [if_pos hc, if_pos (toupper_eq_slash.mpr hc)]
      rfl
    · rw [if_neg hc, if_neg fun h => hc (toupper_eq_slash.mp h)]
      cases (pathElements path).1 <;> rfl

theorem follow_upper (e : Env) (v : Vol) (c : Str) (cur : Option Raw) :
    v.fatFollowPathChain e (strtoupper c) cur = v.fatFollowPathChain e c cur := by
  have hempty : strtoupper c = [] ↔ c = [] := strtoupper_eq_dots (by simp)
  have hdot : strtoupper c = [dot] ↔ c = [dot] := strtoupper_eq_dots (by simp)
  have hdots : strtoupper c = [dot, dot] ↔ c = [dot, dot] := strtoupper_eq_dots (by simp)
  have hlen := length_strtoupper c
  have hscan : ∀ (name extension : Str) (buf : Buf) (n i : ℕ),
      scanFrom buf (strtoupper name) (strtoupper extension) n i = scanFrom buf name extension n i :=
        fun name extension _ n i =>
          scanFrom_upper (strtoupper_strtoupper name) (strtoupper_strtoupper extension) n i
  have hroot : ∀ name extension, v.fatFindInRoot e (strtoupper name) (strtoupper extension) =
      v.fatFindInRoot e name extension := by
    intro name extension
    unfold fatFindInRoot
    simp only [hscan]
  have hdir : ∀ d name extension, v.fatFindInDir e d (strtoupper name) (strtoupper extension) =
      v.fatFindInDir e d name extension := by
    intro d name extension
    have htake : (strtoupper name).take 2 = [dot, dot] ↔ name.take 2 = [dot, dot] := by
      rw [show (strtoupper name).take 2 = strtoupper (name.take 2) from (List.map_take).symm]
      exact strtoupper_eq_dots (by simp)
    unfold fatFindInDir
    simp only [hscan, htake]
  have hsplit := strsplit_upper (t := dot) (by decide) (by decide) c
  unfold fatFollowPathChain
  by_cases h1 : c = []
  · rw [if_pos h1, if_pos (hempty.mpr h1)]
  rw [if_neg h1, if_neg (mt hempty.mp h1), hlen]
  by_cases h2 : 12 < c.length
  · rw [if_pos h2, if_pos h2]
  rw [if_neg h2, if_neg h2]
  by_cases h3 : c = [dot]
  · rw [if_pos h3, if_pos (hdot.mpr h3)]
  rw [if_neg h3, if_neg (mt hdot.mp h3)]
  have hname :
        (if strtoupper c = [dot, dot] then strtoupper c else (strsplit (strtoupper c) dot).1) =
      strtoupper (if c = [dot, dot] then c else (strsplit c dot).1) := by
    by_cases h4 : c = [dot, dot]
    · rw [if_pos h4, if_pos (hdots.mpr h4)]
    · rw [if_neg h4, if_neg (mt hdots.mp h4), hsplit]
  have hext : (if strtoupper c = [dot, dot] then [] else (strsplit (strtoupper c) dot).2.1) =
      strtoupper (if c = [dot, dot] then [] else (strsplit c dot).2.1) := by
    by_cases h4 : c = [dot, dot]
    · rw [if_pos h4, if_pos (hdots.mpr h4)]
      rfl
    · rw [if_neg h4, if_neg (mt hdots.mp h4), hsplit]
  dsimp only
  rw [hname, hext]
  cases cur with
  | none => rw [hroot]
  | some dir =>
    dsimp only
    rw [hdir]

theorem parseElements_upper (e : Env) (l : List Str) : ∀ (cur : Option Raw) (v : Vol),
    parseElements e (l.map strtoupper) cur v = parseElements e l cur v := by
  induction l with
  | nil => exact fun _ _ => rfl
  | cons c l ih =>
    intro cur v
    rw [List.map_cons, parseElements, parseElements, follow_upper]
    generalize v.fatFollowPathChain e c cur = r
    cases r.2 with
    | same => exact ih cur r.1
    | entry dir => exact ih (some dir) r.1
    | missing =>
      dsimp only
      rw [ih none r.1]

/-- A lookup does not look at letter case. -/
theorem components_upper (path : Str) :
    components (strtoupper path) = (components path).map strtoupper := by
  unfold components
  rw [pathElements_upper, List.map_append, List.map_singleton]

theorem elementFits_upper (c : Str) : ElementFits (strtoupper c) ↔ ElementFits c := by
  unfold ElementFits Fits83
  rw [strsplit_upper (by decide) (by decide)]
  simp only [length_strtoupper]

/-- A path fits the buffers in any letter case. -/
theorem componentsFit_upper {path path' : Str} (h : strtoupper path = strtoupper path') :
    (∀ c ∈ components path, ElementFits c) ↔ ∀ c ∈ components path', ElementFits c := by
  have hall (path : Str) : (∀ c ∈ components (strtoupper path), ElementFits c) ↔
      ∀ c ∈ components path, ElementFits c := by
    rw [components_upper, List.forall_mem_map]
    exact forall₂_congr fun c _ => elementFits_upper c
  rw [← hall path, h, hall path']

theorem elementsFit_of_all {e : Env} {l : List Str} (h : ∀ c ∈ l, ElementFits c) (cur : Option Raw)
    (v : Vol) :
    ElementsFit e l cur v := by
  induction l generalizing cur v with
  | nil => trivial
  | cons c l ih =>
    have hrest : ∀ c ∈ l, ElementFits c := fun c hc => h c (.tail _ hc)
    refine ⟨h c (.head _), ?_⟩
    dsimp only
    cases (v.fatFollowPathChain e c cur).2 with
    | same => exact ih hrest _ _
    | entry dir => exact ih hrest _ _
    | missing => exact fun _ => ih hrest _ _

/-- A walk that does not stop comes to every component. -/
theorem all_of_elementsFit {e : Env} {l : List Str} {cur : Option Raw} {v : Vol}
    (h : ElementsFit e l cur v)
    (hends : (parseElements e l cur v).2 ≠ none) : ∀ c ∈ l, ElementFits c := by
  induction l generalizing cur v with
  | nil => exact fun c hc => absurd hc List.not_mem_nil
  | cons c l ih =>
    obtain ⟨hfits, hrest⟩ := h
    rw [parseElements] at hends
    dsimp only at hrest hends
    refine List.forall_mem_cons.mpr ⟨hfits, ?_⟩
    cases hfollow : (v.fatFollowPathChain e c cur).2 with
    | same =>
      rw [hfollow] at hrest hends
      exact ih hrest hends
    | entry dir =>
      rw [hfollow] at hrest hends
      exact ih hrest hends
    | missing =>
      rw [hfollow] at hrest hends
      cases cur with
      | none => exact ih (hrest rfl) hends
      | some dir => exact absurd rfl hends

theorem fatParsePath_upper (e : Env) (v : Vol) (path : Str) (isFile : Bool) :
    v.fatParsePath e (strtoupper path) isFile = v.fatParsePath e path isFile := by
  unfold fatParsePath
  rw [pathElements_upper]
  dsimp only
  rw [parseElements_upper]
  generalize parseElements e (pathElements path).1 none v = r
  cases r.2 with
  | none => rfl
  | some cur =>
    dsimp only
    rw [follow_upper]

/-! ### The name bytes of a new entry -/

/-- The bytes of a name go up to the first zero or space. -/
def inName (b : UInt8) : Bool := b ≠ 0 && b ≠ space

theorem takeWhile_append_stop {P : UInt8 → Bool} {rest : Str}
    (h : ∀ b, rest.head? = some b → P b = false) (s : Str) :
    (s ++ rest).takeWhile P = s.takeWhile P := by
  induction s with
  | nil =>
    cases rest with
    | nil => rfl
    | cons b rest =>
      rw [List.nil_append, List.takeWhile_cons_of_neg (by rw [h b rfl]; exact Bool.false_ne_true)]
      rfl
  | cons b s ih =>
    cases hb : P b with
    | true =>
      rw [List.cons_append, List.takeWhile_cons_of_pos hb, List.takeWhile_cons_of_pos hb, ih]
    | false =>
      rw [List.cons_append, List.takeWhile_cons_of_neg (by rw [hb]; exact Bool.false_ne_true),
        List.takeWhile_cons_of_neg (by rw [hb]; exact Bool.false_ne_true)]

/-- A field that starts with the bytes of `s` and goes on with a byte that ends a name. -/
theorem takeWhile_field {field : ℕ → UInt8} {s : Str} {n : ℕ} (hle : s.length ≤ n)
    (hbytes : ∀ j, ∀ hj : j < s.length, field j = s[j])
    (hstop : s.length < n → inName (field s.length) = false) :
      ((List.range n).map field).takeWhile inName = s.takeWhile inName := by
  have hsplit : (List.range n).map field = s ++ (List.range (n - s.length)).map fun j =>
      field (s.length + j) := by
    conv_lhs => rw [← Nat.add_sub_cancel' hle]
    rw [List.range_add, List.map_append, List.map_map]
    congr 1
    refine List.ext_getElem (by simp) fun j hj hj' => ?_
    rw [List.getElem_map, List.getElem_range, hbytes j hj']
  rw [hsplit]
  refine takeWhile_append_stop (fun b hb => ?_) s
  cases hk : n - s.length with
  | zero =>
    rw [hk] at hb
    exact (Option.some_ne_none b hb.symm).elim
  | succ k =>
    rw [hk, List.range_succ_eq_map, List.map_cons] at hb
    obtain rfl := Option.some.inj hb
    exact hstop (by omega)

theorem takeWhile_inName_eq {s : Str} (h0 : 0 ∉ s) : (s.takeWhile inName).length = s.length ↔
    space ∉ s := by
  have hall : (∀ b ∈ s, inName b = true) ↔ space ∉ s := by
    unfold inName
    constructor
    · intro h hmem
      exact absurd (h space hmem) (by decide)
    · intro h b hb
      rw [Bool.and_eq_true, decide_eq_true_eq, decide_eq_true_eq]
      exact ⟨fun heq => h0 (heq ▸ hb), fun heq => h (heq ▸ hb)⟩
  rw [← hall, ← List.takeWhile_eq_self_iff]
  exact ⟨fun hlen => (List.takeWhile_prefix inName).eq_of_length hlen, fun heq => by rw [heq]⟩

theorem upper_takeWhile_eq {s : Str} : strtoupper (s.takeWhile inName) = strtoupper s ↔
    (s.takeWhile inName).length = s.length := by
  constructor
  · intro h
    rw [← length_strtoupper (s.takeWhile inName), h, length_strtoupper]
  · intro h
    rw [(List.takeWhile_prefix inName).eq_of_length h]

theorem inName_toupper (b : UInt8) : inName (toupper b) = inName b := by
  unfold inName
  rw [decide_eq_decide.mpr (not_congr toupper_eq_zero),
    decide_eq_decide.mpr (not_congr toupper_eq_space)]

theorem takeWhile_upper (s : Str) :
    (strtoupper s).takeWhile inName = strtoupper (s.takeWhile inName) := by
  unfold strtoupper
  rw [List.takeWhile_map]
  congr 2
  funext b
  exact inName_toupper b

theorem name_newFile {n x : Str} (h : n.length ≤ 8) (a : UInt8) (f : ℕ) :
    (newEntry (paddedName n x) a f).name = n.takeWhile inName := by
  refine takeWhile_field h (fun j hj => ?_) fun hlt => ?_
  · unfold newEntry paddedName
    rw [if_pos (by omega), if_pos (by omega), List.getD_eq_getElem _ _ hj]
  · unfold newEntry paddedName
    rw [if_pos (by omega), if_pos hlt, List.getD_eq_default _ _ (le_refl _)]
    rfl

theorem extension_newFile {n x : Str} (h : x.length ≤ 3) (a : UInt8) (f : ℕ) :
    (newEntry (paddedName n x) a f).extension = x.takeWhile inName := by
  change ((List.range 3).map fun j => newEntry (paddedName n x) a f (8 + j)).takeWhile inName = _
  refine takeWhile_field h (fun j hj => ?_) fun hlt => ?_
  · unfold newEntry paddedName
    rw [if_pos (by omega), if_neg (by omega), Nat.add_sub_cancel_left, List.getD_eq_getElem _ _ hj]
  · unfold newEntry paddedName
    rw [if_pos (by omega), if_neg (by omega), Nat.add_sub_cancel_left,
      List.getD_eq_default _ _ (le_refl _)]
    rfl

theorem name_newDir {q : Str} (h : q.length ≤ 8) (junk : ℕ → UInt8) (a : UInt8) (f : ℕ) :
    (newEntry (dirName junk q) a f).name = q.takeWhile inName := by
  refine takeWhile_field h (fun j hj => ?_) fun hlt => ?_
  · unfold newEntry dirName
    rw [if_pos (by omega), if_pos (by omega), if_pos hj, List.getD_eq_getElem _ _ hj]
  · unfold newEntry dirName
    rw [if_pos (by omega), if_pos hlt, if_neg (lt_irrefl _), if_pos rfl]
    rfl

/-! ### One component, written and read back -/

/-- The entry that `fat_new_file` makes for a last component. -/
def fileEntry (q : Str) (cluster : ℕ) : Raw := newEntry (form83 (strtoupper q)) 0x20 cluster

/-- The entry that `fat_new_dir` makes for a last component. -/
def subdirEntry (junk : ℕ → UInt8) (q : Str) (cluster : ℕ) : Raw :=
  newEntry (dirName junk (strtoupper q)) 0x10 cluster

variable {q : Str}

theorem split_of_dot (h : dot ∈ q) : q = (strsplit q dot).1 ++ dot :: (strsplit q dot).2.1 := by
  unfold strsplit
  rw [if_pos h]
  dsimp only
  conv_lhs => rw [← List.takeWhile_append_dropWhile (p := fun b => decide (b ≠ dot)) (l := q)]
  congr 1
  cases hrest : q.dropWhile fun b => decide (b ≠ dot) with
  | nil =>
    have hall := List.dropWhile_eq_nil_iff.mp hrest dot h
    exact absurd hall (by decide)
  | cons b rest =>
    have hb : b = dot := by
      have := List.head?_dropWhile_not (fun b => decide (b ≠ dot)) q
      rw [hrest] at this
      simpa using this
    rw [hb, List.tail_cons]

theorem split_of_noDot (h : dot ∉ q) : strsplit q dot = (q, [], false) := if_neg h

theorem space_mem_split : space ∉ q ↔
    space ∉ (strsplit q dot).1 ∧ space ∉ (strsplit q dot).2.1 := by
  by_cases h : dot ∈ q
  · conv_lhs => rw [split_of_dot h]
    rw [List.mem_append, List.mem_cons, not_or, not_or]
    exact and_congr_right fun _ => ⟨And.right, fun hx => ⟨by decide, hx⟩⟩
  · rw [split_of_noDot h]
    exact ⟨fun hq => ⟨hq, List.not_mem_nil⟩, And.left⟩

theorem zero_mem_split (h0 : 0 ∉ q) : 0 ∉ (strsplit q dot).1 ∧ 0 ∉ (strsplit q dot).2.1 := by
  by_cases h : dot ∈ q
  · rw [split_of_dot h, List.mem_append, List.mem_cons, not_or, not_or] at h0
    exact ⟨h0.1, h0.2.2⟩
  · rw [split_of_noDot h]
    exact ⟨h0, List.not_mem_nil⟩

theorem form83_upper (q : Str) :
    form83 (strtoupper q) = paddedName (strtoupper (strsplit q dot).1)
    (strtoupper (strsplit q dot).2.1) := by
  unfold form83
  rw [strsplit_upper (by decide) (by decide)]

section File

variable (hfits : Fits83 q)

include hfits

theorem name_fileEntry (f : ℕ) :
    (fileEntry q f).name = strtoupper ((strsplit q dot).1.takeWhile inName) := by
  unfold fileEntry
  rw [form83_upper, name_newFile (by rw [length_strtoupper]; exact hfits.1), takeWhile_upper]

theorem extension_fileEntry (f : ℕ) :
    (fileEntry q f).extension = strtoupper ((strsplit q dot).2.1.takeWhile inName) := by
  unfold fileEntry
  rw [form83_upper, extension_newFile (by rw [length_strtoupper]; exact hfits.2), takeWhile_upper]

/-- The entry has the name that the component is looked up by. -/
theorem key_fileEntry (h0 : 0 ∉ q) (f : ℕ) :
    (fileEntry q f).key = (strtoupper (strsplit q dot).1, strtoupper (strsplit q dot).2.1) ↔
    space ∉ q := by
  obtain ⟨hn, hx⟩ := zero_mem_split h0
  unfold Raw.key
  rw [name_fileEntry hfits, extension_fileEntry hfits, strtoupper_strtoupper, strtoupper_strtoupper,
    space_mem_split,
    ← takeWhile_inName_eq hn, ← takeWhile_inName_eq hx, Prod.mk.injEq]
  rw [upper_takeWhile_eq, upper_takeWhile_eq]

/-- The component is shown as it was, in lower case. -/
theorem filename_fileEntry (h0 : 0 ∉ q) (hspace : space ∉ q) (f : ℕ) :
    (fsGetDirEntry (fileEntry q f)).filename = strtolower q ↔
    (dot ∈ q → (strsplit q dot).2.1 ≠ []) := by
  obtain ⟨hn, hx⟩ := zero_mem_split h0
  obtain ⟨hsn, hsx⟩ := space_mem_split.mp hspace
  have hwhole : ∀ s : Str, 0 ∉ s → space ∉ s → s.takeWhile inName = s := fun s hs hsp =>
    (List.takeWhile_prefix inName).eq_of_length ((takeWhile_inName_eq hs).mpr hsp)
  have hempty : strtolower (strsplit q dot).2.1 = [] ↔ (strsplit q dot).2.1 = [] :=
    List.map_eq_nil_iff
  unfold fsGetDirEntry
  dsimp only
  rw [name_fileEntry hfits, extension_fileEntry hfits, hwhole _ hn hsn, hwhole _ hx hsx,
    strtolower_strtoupper,
    strtolower_strtoupper]
  by_cases hdot : dot ∈ q
  · by_cases hnil : (strsplit q dot).2.1 = []
    · rw [if_neg (not_not.mpr (hempty.mpr hnil))]
      refine iff_of_false (fun h => ?_) fun h => h hdot hnil
      have hlen := congrArg List.length h
      conv_rhs at hlen => rw [split_of_dot hdot]
      simp [strtolower] at hlen
    · rw [if_pos (mt hempty.mp hnil)]
      refine iff_of_true ?_ fun _ => hnil
      conv_rhs => rw [split_of_dot hdot]
      unfold strtolower
      rw [List.map_append, List.map_cons]
      rfl
  · rw [split_of_noDot hdot]
    exact iff_of_true (if_neg (not_not.mpr rfl)) fun h => absurd h hdot

end File

section Subdir

variable (hlen : q.length ≤ 8)

include hlen

theorem name_subdirEntry (junk : ℕ → UInt8) (f : ℕ) :
    (subdirEntry junk q f).name = strtoupper (q.takeWhile inName) := by
  unfold subdirEntry
  rw [name_newDir (by rw [length_strtoupper]; exact hlen), takeWhile_upper]

/-- A directory has its whole name before the extension, where a lookup does not look for a dot. -/
theorem key_subdirEntry (h0 : 0 ∉ q) (junk : ℕ → UInt8) (f : ℕ) :
    (subdirEntry junk q f).key = (strtoupper (nameOf q), strtoupper (extensionOf q)) ↔
    space ∉ q ∧ (dot ∈ q → q = dotdot) := by
  have hkey : (subdirEntry junk q f).key = (strtoupper (q.takeWhile inName), []) := by
    unfold Raw.key
    rw [name_subdirEntry hlen, strtoupper_strtoupper]
    rfl
  rw [hkey]
  unfold nameOf extensionOf
  by_cases hdots : q = dotdot
  · subst hdots
    exact iff_of_true rfl ⟨by decide, fun _ => rfl⟩
  rw [if_neg hdots, if_neg hdots]
  by_cases hdot : dot ∈ q
  · refine iff_of_false (fun h => ?_) fun h => hdots (h.2 hdot)
    have hname := congrArg (fun k : Str × Str => k.1.length) h
    dsimp only at hname
    rw [length_strtoupper, length_strtoupper] at hname
    conv_lhs at hname => rw [split_of_dot hdot]
    rw [List.takeWhile_append] at hname
    split_ifs at hname with hall
    · rw [List.length_append, List.takeWhile_cons_of_pos (by decide), List.length_cons] at hname
      omega
    · exact hall hname
  · rw [split_of_noDot hdot, ← takeWhile_inName_eq h0]
    dsimp only
    rw [Prod.mk.injEq, upper_takeWhile_eq]
    exact ⟨fun h => ⟨h.1, fun hmem => absurd hmem hdot⟩, fun h => ⟨h.1, rfl⟩⟩

theorem filename_subdirEntry (h0 : 0 ∉ q) (hspace : space ∉ q) (junk : ℕ → UInt8) (f : ℕ) :
    (fsGetDirEntry (subdirEntry junk q f)).filename = strtolower q := by
  change strtolower (subdirEntry junk q f).name = strtolower q
  rw [name_subdirEntry hlen, strtolower_strtoupper,
    (List.takeWhile_prefix inName).eq_of_length ((takeWhile_inName_eq h0).mpr hspace)]

end Subdir

/-! ### The first byte -/

theorem fileEntry_zero (q : Str) (f : ℕ) :
    fileEntry q f 0 = (strtoupper (strsplit q dot).1).getD 0 space := by
  unfold fileEntry
  rw [form83_upper]
  rfl

theorem subdirEntry_zero (junk : ℕ → UInt8) (q : Str) (f : ℕ) :
    subdirEntry junk q f 0 = (strtoupper q).getD 0 0 := by
  unfold subdirEntry newEntry dirName
  rw [if_pos (by decide), if_pos (by decide)]
  cases q <;> rfl

theorem isEnd_fileEntry (h0 : 0 ∉ q) (f : ℕ) : (fileEntry q f).isEnd = false := by
  unfold Raw.isEnd
  rw [fileEntry_zero]
  have hzero := (zero_mem_split h0).1
  cases hn : (strsplit q dot).1 with
  | nil => rfl
  | cons b n =>
    rw [hn] at hzero
    exact beq_eq_false_iff_ne.mpr fun h => hzero (toupper_eq_zero.mp h ▸ List.mem_cons_self)

theorem isEnd_subdirEntry (h0 : 0 ∉ q) (hne : q ≠ []) (junk : ℕ → UInt8) (f : ℕ) :
    (subdirEntry junk q f).isEnd = false := by
  unfold Raw.isEnd
  rw [subdirEntry_zero]
  obtain ⟨b, q, rfl⟩ := List.exists_cons_of_ne_nil hne
  exact beq_eq_false_iff_ne.mpr fun h => h0 (toupper_eq_zero.mp h ▸ List.mem_cons_self)

/-- The byte of a deleted entry. -/
theorem head_upper {s : Str} {t : UInt8} (ht : t ≠ 0xE5) :
    ((strtoupper s).getD 0 t == 0xE5) = false ↔ s.head? ≠ some 0xE5 := by
  cases s with
  | nil => exact iff_of_true (beq_eq_false_iff_ne.mpr ht) (Option.some_ne_none _).symm
  | cons b s =>
    change (toupper b == 0xE5) = false ↔ some b ≠ some 0xE5
    rw [beq_eq_false_iff_ne, Ne, Ne, toupper_eq_iff (by decide) (by decide), Option.some_inj]

theorem isDeleted_fileEntry (q : Str) (f : ℕ) : (fileEntry q f).isDeleted = false ↔
    q.head? ≠ some 0xE5 := by
  unfold Raw.isDeleted
  rw [fileEntry_zero, head_upper (by decide)]
  by_cases hdot : dot ∈ q
  · conv_rhs => rw [split_of_dot hdot]
    cases (strsplit q dot).1 with
    | nil =>
      exact iff_of_true (Option.some_ne_none _).symm fun h : some dot = some 0xE5 =>
        absurd (Option.some.inj h) (by decide)
    | cons b n => exact Iff.rfl
  · rw [split_of_noDot hdot]

theorem isDeleted_subdirEntry (junk : ℕ → UInt8) (q : Str) (f : ℕ) :
    (subdirEntry junk q f).isDeleted = false ↔ q.head? ≠ some 0xE5 := by
  unfold Raw.isDeleted
  rw [subdirEntry_zero, head_upper (by decide)]

theorem firstClusterNo_newEntry (name : ℕ → UInt8) (a : UInt8) {f : ℕ} (hf : f < 2 ^ 16) :
    (newEntry name a f).firstClusterNo = f := by
  change (UInt8.ofNat (f % 256)).toNat + 256 * (UInt8.ofNat (f / 256 % 256)).toNat = f
  rw [UInt8.toNat_ofNat', UInt8.toNat_ofNat']
  omega

end X86Kernel.Fat
