import X86Kernel.Fat.Parent

/-! Lookup and update: when a write, a resize or a deletion changes the entry that its path leads
to. -/
namespace X86Kernel.Fat

open Vol

/-- `path` leads to entry `i` of directory `d`: the last component that counts names it there, and
the ones before lead to `d`, through directories that are no part of `chain`. -/
def Resolves (e : Env) (v : Vol) (chain : List ℕ) (path : Str) (d i : ℕ) : Prop :=
  ∃ l c t cur, components path = l ++ c :: t ∧ t.all skipped = true ∧ skipped c = false ∧
    c.length ≤ 12 ∧
    WalkIn e chain l none v ∧ (parseElements e l none v).2 = some cur ∧ dirOf cur = d ∧
      findIn e.geom v cur c = some i

/-- An update of `path` looks for the entry where the lookup found it: the path has a slash and a
name after it, the root is spelled as nothing or as one slash, the entry is the first of its name,
and its directory has whole sectors. -/
structure SameParent (g : Geom) (v : Vol) (path : Str) (d i : ℕ) : Prop where
  shape : ∃ p q, path = p ++ slash :: q ∧ slash ∉ q ∧ skipped q = false ∧
    (d = 0 → p = [] ∨ p = [slash])
  first : scanFrom ((dirRegion g d).buf v.disk) (entryIn g v d i).name (entryIn g v d i).extension
    (dirRegion g d).entries 0 = some i
  whole : 512 ∣ (dirRegion g d).size

/-- A call that succeeds leaves `dir` in entry `i` of directory `d`, one that fails leaves the table
as it was, and neither changes another entry. What is left may depend on what is returned, which is
negative for an error. -/
structure Agrees (g : Geom) (chain : List ℕ) (d i : ℕ) (dir : ℤ → Raw) (v : Vol)
    (r : Vol × ℤ) : Prop where
  updated : 0 ≤ r.2 → entryIn g r.1 d i = dir r.2
  failed : r.2 < 0 → r.1.table = v.table
  others : ∀ d' i', Aside g v chain d' → i' < (dirRegion g d').entries → (d', i') ≠ (d, i) →
    entryIn g r.1 d' i' = entryIn g v d' i'

/-- The calls that change a file; their numbers have 32 bits. -/
inductive FileCall where
  | resize (size : UInt32)
  | write (buffer : Buf) (offset size : UInt32) (mapped : ℕ → ℕ → Bool)
  | delete

/-- The entry of a file whose bytes now go up to `stop`. -/
def Raw.grown (dir : Raw) (stop : ℕ) : Raw :=
  if dir.fileSize < stop then dir.setFileSize stop else dir

namespace FileCall

def run (e : Env) (v : Vol) (path : Str) : FileCall → Vol × ℤ
  | resize size => v.fatResizeFile e path size.toNat
  | write buffer offset size mapped => v.fatWriteFileAt e path buffer offset.toNat size.toNat mapped
  | delete => ((v.fatDeleteFile e path).1, if (v.fatDeleteFile e path).2 then 0 else -1)

/-- What a call that succeeds makes of the entry. -/
def entry (dir : Raw) : FileCall → ℤ → Raw
  | resize size, _ => dir.setFileSize size.toNat
  | write _ offset _ _, ret => dir.grown (offset.toNat + ret.toNat)
  | delete, _ => dir.setDeleted

/-- A write that ends within the file, or that writes something and whose end fits in 32 bits. -/
def Plain (dir : Raw) : FileCall → Prop
  | write _ offset size _ => (offset.toNat + size.toNat) % 2 ^ 32 ≤ dir.fileSize ∨
    0 < size.toNat ∧ offset.toNat + size.toNat < 2 ^ 32
  | _ => True

end FileCall

variable {g : Geom} {v v' w : Vol} {e : Env} {chain : List ℕ} {d i : ℕ} {dir : Raw} {path : Str}

/-! ### What the file's own clusters leave alone -/

/-- Address `x` is in no cluster of `chain`, in no free cluster and in no table. -/
structure Spared (g : Geom) (v : Vol) (chain : List ℕ) (x : ℕ) : Prop where
  clusters : ∀ c, fatValidCluster g c = true → c ∈ chain ∨ v.table c = 0 →
    x < g.clusterAddr c ∨ g.clusterAddr c + g.clusterSize ≤ x
  tables : ¬g.TableArea x

/-- The disk has changed in clusters of `chain`, in free ones and in the tables only. -/
def DiskKept (g : Geom) (v : Vol) (chain : List ℕ) (v' : Vol) : Prop :=
  ∀ x, Spared g v chain x → v'.disk x = v.disk x

theorem slot_lt {r : Region} {k : ℕ} (hi : i < r.entries) (hk : k < 32) : 32 * i + k < r.size := by
  unfold Region.entries at hi
  omega

theorem Aside.spared (hg : g.Ok) (h : Aside g v chain d) (hi : i < (dirRegion g d).entries) {k : ℕ}
    (hk : k < 32) :
    Spared g v chain ((dirRegion g d).addr + (32 * i + k)) where
  clusters := by
    intro c hc hmem
    have hne : d ≠ c := by
      rintro rfl
      rcases hmem with hmem | hzero
      · exact h.notMem hmem
      · exact h.taken.elim (hg.ne_zero_of_valid hc) fun hne => hne hzero
    have hapart := hg.apart h.area (.inr hc) hne
    rw [hg.dirRegion_cluster hc] at hapart
    have hin := slot_lt hi hk
    change _ ≤ g.clusterAddr c ∨ g.clusterAddr c + g.clusterSize ≤ _ at hapart
    omega
  tables := fun hx => by
    have := hg.table_lt hx h.area
    omega

theorem DiskKept.dirs (hg : g.Ok) (h : DiskKept g v chain v') : DirsKept g chain v v' :=
  fun _ hd _ hi => entryIn_congr fun _ hk => h _ (hd.spared hg hi hk)

theorem IsFile.aside (h : IsFile g v d i chain) : Aside g v chain d := ⟨h.area, h.taken, h.apart⟩

theorem IsFile.zero_notMem (h : IsFile g v d i chain) : 0 ∉ chain := fun hmem => by
  have := (valid_lt (h.isChain.valid 0 hmem)).1
  omega

/-! ### One entry is replaced -/

/-- Entry `i` of directory `d` is `dir`, and the other entries are as before. -/
structure Replaced (g : Geom) (d i : ℕ) (dir : Raw) (v v' : Vol) : Prop where
  table : v'.table = v.table
  entry : entryIn g v' d i = dir
  others : ∀ d' i', g.IsArea d' → i' < (dirRegion g d').entries → (d', i') ≠ (d, i) →
    entryIn g v' d' i' = entryIn g v d' i'

theorem fatUpdateInDir_eq (hio : ∀ n, e.io n = none) (c : ℕ) (name extension : Str) (dir : Raw) :
    v.fatUpdateInDir e c name extension dir =
      match scanFrom ((dirRegion e.geom c).buf v.disk) name extension
        (dirRegion e.geom c).entries 0 with
      | none => (v.tick, false)
      | some i =>
        v.tick.storeEntry e (dirRegion e.geom c) ((dirRegion e.geom c).buf v.disk) i dir := by
  unfold fatUpdateInDir ataReadExact
  rw [hio]
  dsimp only
  rw [if_pos rfl]
  rfl

/-- A directory written back with one entry replaced. -/
theorem Replaced.of_disk (hg : g.Ok) (hd : g.IsArea d) (hi : i < (dirRegion g d).entries)
    (hdir : ∀ k, 32 ≤ k → dir k = 0) (hdisk : v'.disk = blit v.disk (dirRegion g d).addr
      (setEntry ((dirRegion g d).buf v.disk) i dir) (dirRegion g d).size)
    (htable : v'.table = v.table) : Replaced g d i dir v v' := by
  refine ⟨htable, ?_, fun d' i' hd' hi' hne => entryIn_congr fun k hk => ?_⟩
  · funext k
    unfold entryIn entryAt Region.buf
    rw [hdisk]
    split_ifs with hk
    · have hin := slot_lt hi hk
      unfold Region.buf
      rw [blit_setEntry, if_pos (by omega)]
      congr 1
      omega
    · exact (hdir k (by omega)).symm
  · rw [hdisk]
    unfold Region.buf
    rw [blit_setEntry, if_neg]
    have hin := slot_lt hi hk
    have hin' := slot_lt hi' hk
    by_cases hsame : d' = d
    · subst hsame
      have : i' ≠ i := fun h => hne (by rw [h])
      omega
    · have := hg.apart hd' hd hsame
      omega

theorem fatUpdateInDir_replaced (hg : e.geom.Ok) (hio : ∀ n, e.io n = none) (hd : e.geom.IsArea d)
    {name extension : Str} (hscan : scanFrom ((dirRegion e.geom d).buf v.disk) name extension
      (dirRegion e.geom d).entries 0 = some i)
    (hwhole : 512 ∣ (dirRegion e.geom d).size) (hdir : ∀ k, 32 ≤ k → dir k = 0) :
    (v.fatUpdateInDir e d name extension dir).2 = true ∧
      Replaced e.geom d i dir v (v.fatUpdateInDir e d name extension dir).1 := by
  have hi : i < (dirRegion e.geom d).entries := by
    have := (scanFrom_spec _ hscan).2.1
    omega
  have hpos := slot_lt hi (k := 0) (by decide)
  have haddr := hg.addr_dvd hd
  have heq : v.fatUpdateInDir e d name extension dir = ({ v.tick.tick with
      disk :=
      blit v.disk (dirRegion e.geom d).addr (setEntry ((dirRegion e.geom d).buf v.disk) i dir)
        (dirRegion e.geom d).size }, true) := by
    rw [fatUpdateInDir_eq hio, hscan]
    dsimp only
    unfold storeEntry ataWriteExact
    rw [if_neg (by omega), if_neg (by unfold ataSectorSize; omega), hio]
    rfl
  rw [heq]
  exact ⟨rfl, .of_disk hg hd hi hdir rfl rfl⟩

theorem entryIn_flushed (hg : g.Ok) (h : Flushed g v v') (hd : g.IsArea d) :
    entryIn g v' d i = entryIn g v d i :=
  entryIn_congr fun _ _ => h.disk _ fun hx => by
    have := hg.table_lt hx hd
    omega

theorem parentCluster_onlyRead (e : Env) (v : Vol) (path : Str) :
    OnlyRead v (v.parentCluster e path).1 := by
  unfold parentCluster
  dsimp only
  split_ifs
  · exact .refl v
  · exact fatParsePath_onlyRead e v _ true

/-- `l` lists the clusters that are met from `start` on; there are none if `start` is no cluster. -/
def ChainOf (g : Geom) (table : ℕ → ℕ) (start : ℕ) (l : List ℕ) : Prop :=
  Chain.Linked (nextOf g table) (if fatValidCluster g start then some start else none) l

theorem IsChain.chainOf {table : ℕ → ℕ} {start : ℕ} (h : IsChain g table start chain) :
    ChainOf g table start chain := by
  unfold ChainOf
  rw [if_pos h.valid_start]
  exact h.linked

theorem ChainOf.valid {table : ℕ → ℕ} {start : ℕ} (h : ChainOf g table start chain) :
    ∀ c ∈ chain, fatValidCluster g c = true := by
  refine valid_of_linked h fun c hc => ?_
  split_ifs at hc with hvalid
  exact Option.some.inj hc ▸ hvalid

/-- The entry is marked deleted and its chain freed. -/
structure Deleted (g : Geom) (d i : ℕ) (dir : Raw) (chain : List ℕ) (v v' : Vol) : Prop where
  table : v'.table = fun x => if x ∈ chain then 0 else v.table x
  entry : entryIn g v' d i = dir.setDeleted
  others : ∀ d' i', g.IsArea d' → i' < (dirRegion g d').entries → (d', i') ≠ (d, i) →
    entryIn g v' d' i' = entryIn g v d' i'

theorem deleteEntry_deleted (hg : e.geom.Ok) (hio : ∀ n, e.io n = none) (hd : e.geom.IsArea d)
    (hparent : (v.parentCluster e path).2 = some d) {extension : Str}
    (hscan : scanFrom ((dirRegion e.geom d).buf v.disk) dir.name extension
      (dirRegion e.geom d).entries 0 = some i)
    (hwhole : 512 ∣ (dirRegion e.geom d).size) (hdir : ∀ k, 32 ≤ k → dir k = 0)
    (hchain : ChainOf e.geom v.table dir.firstClusterNo chain) :
    (v.deleteEntry e path dir extension).2 = true ∧
    Deleted e.geom d i dir chain v (v.deleteEntry e path dir extension).1 := by
  have hread := parentCluster_onlyRead e v path
  unfold deleteEntry
  generalize v.parentCluster e path = p at hparent hread
  dsimp only
  rw [hparent]
  have hzero : ∀ k, 32 ≤ k → dir.setDeleted k = 0 :=
    fun k hk => (if_neg (by omega)).trans (hdir k hk)
  obtain ⟨hok, hupdate⟩ :=
    fatUpdateInDir_replaced (v := p.1) hg hio hd (by rw [hread.disk]; exact hscan) hwhole hzero
  dsimp only
  generalize p.1.fatUpdateInDir e d dir.name extension dir.setDeleted = u at hok hupdate ⊢
  rw [hok, if_pos rfl]
  have htable : u.1.table = v.table := hupdate.table.trans hread.table
  obtain ⟨hfreed, hdisk, -, -, hfok⟩ :=
    freeChain_spec (e.geom.noClusters + 1) (c := dir.firstClusterNo)
    (f := ⟨u.1, dir.firstClusterNo, dir.firstClusterNo, 0, true⟩) (htable.symm ▸ hchain) rfl
    (Nat.lt_succ_of_le (length_le_of_valid hchain.nodup hchain.valid))
  unfold freeFrom
  generalize freeChain e.geom (e.geom.noClusters + 1) dir.firstClusterNo
    ⟨u.1, dir.firstClusterNo, dir.firstClusterNo, 0, true⟩
    = f at hfreed hdisk hfok ⊢
  have hflush := flushed_fatTableFlushCache hg f.vol f.lo f.hi
  have hflushed :=
    (fatTableFlushCache_spec (v := f.vol) (tablesOk_of_ok hg) f.lo f.hi fun j _ => hio _).1
  dsimp only at hfreed hdisk hfok
  have hentry : ∀ d' i', entryIn e.geom f.vol d' i' = entryIn e.geom u.1 d' i' := fun d' i' => by
    unfold entryIn
    rw [hdisk]
  refine ⟨by rw [hfok, hflushed]; rfl, ?_, ?_, fun d' i' hd' hi' hne => ?_⟩
  · rw [hflush.table, hfreed, htable]
  · rw [entryIn_flushed hg hflush hd, hentry, hupdate.entry]
  · rw [entryIn_flushed hg hflush hd', hentry, hupdate.others d' i' hd' hi' hne]
    unfold entryIn
    rw [hread.disk]

/-! ### Where the lookup and the update end -/

theorem parseElements_append (e : Env) (m l : List Str) : ∀ {cur cur' : Option Raw} {v : Vol},
    (parseElements e l cur v).2 = some cur' →
    parseElements e (l ++ m) cur v = parseElements e m cur' (parseElements e l cur v).1 := by
  induction l with
  | nil =>
    intro cur cur' v h
    obtain rfl := Option.some.inj h
    rfl
  | cons c l ih =>
    intro cur cur' v h
    rw [parseElements] at h
    rw [List.cons_append, parseElements, parseElements]
    cases hf : (v.fatFollowPathChain e c cur).2 with
    | same =>
      rw [hf] at h
      exact ih h
    | entry dir =>
      rw [hf] at h
      exact ih h
    | missing =>
      rw [hf] at h
      dsimp only at h ⊢
      cases cur with
      | none => exact ih h
      | some dir => exact (Option.some_ne_none _ h.symm).elim

theorem parseElements_skipped (e : Env) {t : List Str} (h : t.all skipped = true) (cur : Option Raw)
    (v : Vol) :
    parseElements e t cur v = (v, some cur) := by
  induction t with
  | nil => rfl
  | cons c t ih =>
    rw [List.all_cons, Bool.and_eq_true] at h
    rw [parseElements, follow_skipped e v h.1]
    exact ih h.2

/-- The last component is the one that counts, or one of those after it. -/
theorem append_singleton_eq {m l t : List Str} {q c : Str} (h : m ++ [q] = l ++ c :: t) :
    t = [] ∧ m = l ∧ q = c ∨ ∃ t', t = t' ++ [q] ∧ m = l ++ c :: t' := by
  rcases List.eq_nil_or_concat t with rfl | ⟨t', last, rfl⟩
  · obtain ⟨hm, hq⟩ := List.append_inj' h rfl
    exact .inl ⟨rfl, hm, List.singleton_inj.mp hq⟩
  · rw [List.concat_eq_append, ← List.cons_append, ← List.append_assoc] at h
    obtain ⟨hm, hq⟩ := List.append_inj' h rfl
    exact .inr ⟨t', by rw [List.singleton_inj.mp hq, List.concat_eq_append], hm⟩

theorem components_append {p q : Str} (hq : slash ∉ q) :
    components (p ++ slash :: q) = components p ++ [q] := by
  conv_lhs => unfold components
  rw [pathElements_append hq]

theorem Resolves.notSkipped (h : Resolves e v chain path d i) :
    (components path).all skipped ≠ true := by
  obtain ⟨l, c, t, cur, heq, -, hc, -⟩ := h
  intro hall
  rw [heq, List.all_append, Bool.and_eq_true, List.all_cons, Bool.and_eq_true, hc] at hall
  exact absurd hall.2.1 Bool.false_ne_true

section Resolved

variable (hg : e.geom.Ok) (hio : ∀ n, e.io n = none) (h0 : 0 ∉ chain)

include hg hio h0

/-- The walk to the entry of a volume that has the same directories. -/
theorem Resolves.walk (h : Resolves e v chain path d i) (hkept : DirsKept e.geom chain v w) :
    walkEnd e w (components path) = some (entryIn e.geom v d i) := by
  obtain ⟨l, c, t, cur, heq, ht, hc, hlen, hwalk, hcur, rfl, hfind⟩ := h
  have hin : InDir e.geom v chain cur := by
    have := hwalk.ends hg hio h0 l rfl
    rwa [hcur] at this
  have hsame : (parseElements e l none w).2 = (parseElements e l none v).2 :=
    walk_congr hg hio h0 hkept l rfl rfl hwalk
  rw [hcur] at hsame
  have hread := (parseElements_onlyRead e l none w).disk
  unfold walkEnd
  rw [heq, parseElements_append e (c :: t) l hsame]
  generalize (parseElements e l none w).1 = u at hread ⊢
  have hfollow : (u.fatFollowPathChain e c cur).2 = .entry (entryIn e.geom v (dirOf cur) i) := by
    have hdirs : DirsKept e.geom chain v u := fun d hd j hj => by
      rw [← hkept d hd j hj]
      unfold entryIn
      rw [hread]
    rw [follow_congr hg hio hin h0 hdirs, follow_find hio hin.ne_zero hc hlen, hfind]
  rw [parseElements, hfollow]
  dsimp only
  rw [parseElements_skipped e ht]
  rfl

/-- Where the update looks for the entry. -/
theorem SameParent.parent (hsame : SameParent e.geom v path d i) (h : Resolves e v chain path d i)
    (hkept : DirsKept e.geom chain v w) : ∃ p q, path = p ++ slash :: q ∧ slash ∉ q ∧
      ((p = [] ∨ p = [slash]) ∧ d = 0 ∨ ¬(p = [] ∨ p = [slash]) ∧
        (walkEnd e w (components p)).map Raw.firstClusterNo = some d) := by
  obtain ⟨p, q, rfl, hq, hproper, hroot⟩ := hsame.shape
  refine ⟨p, q, rfl, hq, ?_⟩
  obtain ⟨l, c, t, cur, heq, ht, hc, hlen, hwalk, hcur, rfl, hfind⟩ := h
  have hl : components p = l := by
    rw [components_append hq] at heq
    -- the last component is a name, so nothing is skipped after it
    rcases append_singleton_eq heq with ⟨-, hl, -⟩ | ⟨t', rfl, -⟩
    · exact hl
    · rw [List.all_append, Bool.and_eq_true, List.all_cons, hproper] at ht
      exact absurd ht.2 Bool.false_ne_true
  subst hl
  have hin : InDir e.geom v chain cur := by
    have := hwalk.ends hg hio h0 _ rfl
    rwa [hcur] at this
  by_cases hp : p = [] ∨ p = [slash]
  · refine .inl ⟨hp, ?_⟩
    have hnone : cur = none := by
      have hskip : (components p).all skipped = true := by
        rcases hp with rfl | rfl <;> rfl
      rw [parseElements_skipped e hskip] at hcur
      exact (Option.some.inj hcur).symm
    rw [hnone]
    rfl
  · refine .inr ⟨hp, ?_⟩
    have hwalk' :
        (parseElements e (components p) none w).2 = (parseElements e (components p) none v).2 :=
      walk_congr hg hio h0 hkept _ rfl rfl hwalk
    unfold walkEnd
    rw [hwalk', hcur]
    cases cur with
    | none => exact absurd (hroot rfl) hp
    | some dir => rfl

theorem SameParent.parentCluster (hsame : SameParent e.geom v path d i)
    (h : Resolves e v chain path d i)
    (hkept : DirsKept e.geom chain v w) : (w.parentCluster e path).2 = some d := by
  obtain ⟨p, q, rfl, hq, hparent⟩ := hsame.parent hg hio h0 h hkept
  unfold Vol.parentCluster splitParent
  rw [strsplitLast_append hq]
  dsimp only
  rcases hparent with ⟨hp, rfl⟩ | ⟨hp, hparent⟩
  · have hslash : (if p = [] then [slash] else p) = [slash] := by
      rcases hp with rfl | rfl <;> rfl
    rw [if_pos hslash]
  · rw [not_or] at hp
    rw [if_neg hp.1, if_neg hp.2]
    dsimp only
    rw [fatParsePath_true]
    exact hparent

end Resolved

section Updated

variable (hg : e.geom.Ok) (hio : ∀ n, e.io n = none) (hfile : IsFile e.geom v d i chain)

include hfile

/-- The entry is found again by its own name. -/
theorem SameParent.found (hsame : SameParent e.geom v path d i)
    (hkept : DirsKept e.geom chain v w) :
    scanFrom ((dirRegion e.geom d).buf w.disk) (entryIn e.geom v d i).name
      (entryIn e.geom v d i).extension
      (dirRegion e.geom d).entries 0 = some i := by
  rw [← hsame.first]
  exact scanFrom_congr _ fun k _ hk => hkept d hfile.aside k (by omega)

include hg hio

theorem updateSize_replaced (hsame : SameParent e.geom v path d i) (h : Resolves e v chain path d i)
    (hkept : DirsKept e.geom chain v w) (size : ℕ) :
    (w.updateSize e path (entryIn e.geom v d i) size).2 = true ∧
      Replaced e.geom d i ((entryIn e.geom v d i).setFileSize size) w
        (w.updateSize e path (entryIn e.geom v d i) size).1 := by
  obtain ⟨p, q, rfl, hq, hparent⟩ := hsame.parent hg hio hfile.zero_notMem h hkept
  have hread := fatParsePath_onlyRead e w (p ++ slash :: q) false
  have hend : (w.fatParsePath e (p ++ slash :: q) false).2 = walkEnd e w (components p) := by
    rw [fatParsePath_false, pathElements_append hq]
  unfold updateSize
  rw [strsplitLast_append hq]
  dsimp only
  generalize w.fatParsePath e (p ++ slash :: q) false = r at hread hend ⊢
  have hzero : ∀ k, 32 ≤ k → (entryIn e.geom v d i).setFileSize size k = 0 := fun k hk => by
    unfold Raw.setFileSize
    rw [if_neg (by omega), if_neg (by omega), if_neg (by omega), if_neg (by omega)]
    exact if_neg (by omega)
  have hkept' : DirsKept e.geom chain v r.1 := fun d hd j hj => by
    rw [← hkept d hd j hj]
    unfold entryIn
    rw [hread.disk]
  have hupdate :=
    fatUpdateInDir_replaced hg hio hfile.area (hsame.found hfile hkept') hsame.whole hzero
  have hback :
        Replaced e.geom d i ((entryIn e.geom v d i).setFileSize size) w (r.1.fatUpdateInDir e d
      (entryIn e.geom v d i).name (entryIn e.geom v d i).extension
        ((entryIn e.geom v d i).setFileSize size)).1 := by
    refine ⟨hupdate.2.table.trans hread.table, hupdate.2.entry, fun d' i' hd' hi' hne => ?_⟩
    rw [hupdate.2.others d' i' hd' hi' hne]
    unfold entryIn
    rw [hread.disk]
  rcases hparent with ⟨hp, rfl⟩ | ⟨hp, hparent⟩
  · rw [if_pos (decide_eq_true hp.symm)]
    exact ⟨hupdate.1, hback⟩
  · rw [if_neg (by rw [decide_eq_true_eq]; exact fun hor => hp hor.symm), hend]
    obtain ⟨dir, hdir, rfl⟩ := Option.map_eq_some_iff.mp hparent
    rw [hdir]
    exact ⟨hupdate.1, hback⟩

end Updated

/-! ### The chain changes before the entry does -/

theorem freeChain_ok (n : ℕ) : ∀ (c : ℕ) (f : Freeing), (freeChain g n c f).ok = f.ok := by
  induction n with
  | zero => exact fun _ _ => rfl
  | succ n ih =>
    intro c f
    rw [freeChain]
    split_ifs with hc
    · rw [ih, update_valid hc]
      exact Bool.and_true _
    · rfl

theorem fatShrinkClusterChain_spec (hg : e.geom.Ok) (hio : ∀ n, e.io n = none) {start : ℕ}
    (hchain : IsChain e.geom v.table start chain) (oldSize newSize : ℕ) :
    (v.fatShrinkClusterChain e start oldSize newSize).2.isSome = true ∧
      ∀ x, ¬e.geom.TableArea x →
        (v.fatShrinkClusterChain e start oldSize newSize).1.disk x = v.disk x := by
  unfold fatShrinkClusterChain
  dsimp only
  rw [hchain.valid_start, if_neg (by decide)]
  by_cases hle : e.geom.clustersOf oldSize ≤ e.geom.clustersOf newSize
  · rw [if_pos hle]
    exact ⟨rfl, fun _ _ => rfl⟩
  · rw [if_neg hle]
    have hmem := walkChain_mem (e.geom.clustersOf newSize - 1) hchain.linked
    generalize walkChain e.geom v.table (e.geom.clustersOf newSize - 1) start = cur at hmem ⊢
    rw [update_valid (hchain.valid cur hmem)]
    dsimp only
    unfold freeFrom
    have hok := freeChain_ok (g := e.geom) (e.geom.noClusters + 1) (v.table cur)
      ⟨⟨v.disk, Function.update v.table cur 0xFFFF, Function.update v.dirty cur true, v.clock⟩, cur,
        cur, 0, true⟩
    have hdisk := (freeChain_clock e.geom (e.geom.noClusters + 1) (v.table cur)
      ⟨⟨v.disk, Function.update v.table cur 0xFFFF, Function.update v.dirty cur true, v.clock⟩, cur,
        cur, 0, true⟩).2
    generalize freeChain e.geom (e.geom.noClusters + 1) (v.table cur)
      ⟨⟨v.disk, Function.update v.table cur 0xFFFF, Function.update v.dirty cur true, v.clock⟩, cur,
        cur, 0, true⟩
      = f at hok hdisk ⊢
    have hflush := flushed_fatTableFlushCache hg f.vol f.lo f.hi
    have hflushed :=
      (fatTableFlushCache_spec (v := f.vol) (tablesOk_of_ok hg) f.lo f.hi fun j _ => hio _).1
    rw [hok, hflushed]
    exact ⟨rfl, fun x hx => (hflush.disk x hx).trans (congrFun hdisk x)⟩

theorem DiskKept.of_onlyRead {u : Vol} (h : OnlyRead v u) (hkept : DiskKept g u chain v') :
    DiskKept g v chain v' := fun x hx => by
  rw [← h.disk]
  refine hkept x ⟨fun c hc hmem => hx.clusters c hc ?_, hx.tables⟩
  rwa [h.table] at hmem

/-- The extension writes to the chain, to free clusters and to the tables. -/
theorem fatExtendClusterChain_kept (hg : e.geom.Ok) {start : ℕ}
    (hchain : IsChain e.geom v.table start chain) (oldSize newSize : ℕ) :
    DiskKept e.geom v chain (v.fatExtendClusterChain e start oldSize newSize).1 := fun _ hx =>
  fatExtendClusterChain_frame hg hchain.linked
    (fun c hc => hx.clusters c (hchain.valid c hc) (.inl hc))
    (fun c hc hzero => hx.clusters c hc (.inr hzero)) hx.tables oldSize newSize

theorem skipTo_isSome {table : ℕ → ℕ} (n : ℕ) :
    ∀ {start : ℕ} {l : List ℕ}, Chain.Linked (nextOf g table) (some start) l →
    n < l.length → (skipTo g table n start).isSome = true := by
  induction n with
  | zero => exact fun _ _ => rfl
  | succ n ih =>
    intro start l h hn
    obtain _ | ⟨a, l⟩ := l
    · exact absurd h.head_eq (by simp)
    obtain rfl := Option.some.inj h.1
    obtain _ | ⟨b, l⟩ := l
    · simp at hn
    obtain ⟨hvalid, hnext⟩ := nextOf_valid h.2.1
    rw [skipTo, hnext, if_pos hvalid]
    refine ih (l := b :: l) ?_ (by simpa using hn)
    rw [← h.2.1]
    exact h.2

theorem setFileSize_self (dir : Raw) : dir.setFileSize dir.fileSize = dir := by
  have hbyte : ∀ (b : UInt8) (n : ℕ), n = b.toNat → UInt8.ofNat n = b := fun b n h => by
    rw [h, UInt8.ofNat_toNat]
  have h0 := (dir 28).toNat_lt
  have h1 := (dir 29).toNat_lt
  have h2 := (dir 30).toNat_lt
  have h3 := (dir 31).toNat_lt
  funext j
  unfold Raw.setFileSize Raw.fileSize
  split_ifs with hj hj hj hj
  · exact hbyte _ _ (by rw [hj]; omega)
  · exact hbyte _ _ (by rw [hj]; omega)
  · exact hbyte _ _ (by rw [hj]; omega)
  · exact hbyte _ _ (by rw [hj]; omega)
  · rfl

theorem Replaced.agrees {ret : ℤ} {dir : ℤ → Raw} (h : Replaced g d i (dir ret) w v')
    (hret : 0 ≤ ret) (hkept : DirsKept g chain v w) : Agrees g chain d i dir v (v', ret) :=
  ⟨fun _ => h.entry, fun hlt => absurd hlt (not_lt.mpr hret), fun d' i' hd' hi' hne =>
    (h.others d' i' hd'.area hi' hne).trans (hkept d' hd' i' hi')⟩

section Calls

variable (hg : e.geom.Ok) (hio : ∀ n, e.io n = none) (hfile : IsFile e.geom v d i chain)
  (hsame : SameParent e.geom v path d i) (h : Resolves e v chain path d i)

include hg hio hfile hsame h

end Calls

/-! ### A path that is spelled otherwise -/

end X86Kernel.Fat
