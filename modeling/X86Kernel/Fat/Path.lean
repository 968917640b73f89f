import X86Kernel.Fat.Directory

/-! Paths: `fat_follow_path_chain` and `fat_parse_path`. -/
namespace X86Kernel.Fat

/-- What `fat_follow_path_chain` returns: the directory it was given, a copy of an entry, or
`NULL`. -/
inductive Follow where
  | same
  | entry (dir : Raw)
  | missing

/-- The parts of a path before each slash, and the rest after the last one. -/
def pathElements : Str → List Str × Str
  | [] => ([], [])
  | c :: path =>
    if c = slash then ([] :: (pathElements path).1, (pathElements path).2)
    else
      match (pathElements path).1 with
      | [] => ([], c :: (pathElements path).2)
      | element :: rest => ((c :: element) :: rest, (pathElements path).2)

/-- The loop of `fat_parse_path` takes the elements off one by one. -/
theorem pathElements_eq (path : Str) : pathElements path =
    if (strsplit path slash).2.2 then
      ((strsplit path slash).1 :: (pathElements (strsplit path slash).2.1).1,
        (pathElements (strsplit path slash).2.1).2)
    else ([], path) := by
  induction path with
  | nil => rfl
  | cons c path ih =>
    rw [pathElements]
    by_cases hc : c = slash
    · subst hc
      simp [strsplit]
    · rw [if_neg hc, ih]
      by_cases hs : slash ∈ path
      · have hne : ¬slash = c := fun h => hc h.symm
        simp [strsplit, hs, hc]
      · have hne : ¬slash = c := fun h => hc h.symm
        simp [strsplit, hs, hne]

/-- Name and extension fit the buffers `char[9]` and `char[4]`. -/
def Fits83 (name : Str) : Prop :=
  (strsplit name dot).1.length ≤ 8 ∧ (strsplit name dot).2.1.length ≤ 3

/-- What `fat_follow_path_chain` copies to `name` and `ext`, if it comes to that, fits. -/
def ElementFits (pathElement : Str) : Prop := 12 < pathElement.length ∨ Fits83 pathElement

instance (name : Str) : Decidable (Fits83 name) := inferInstanceAs (Decidable (_ ∧ _))

instance (pathElement : Str) : Decidable (ElementFits pathElement) :=
  inferInstanceAs (Decidable (_ ∨ _))

namespace Vol

variable (e : Env) (v : Vol)

/-- `fat_follow_path_chain`; `none` stands for the root. What becomes of an element that does not
fit (`ElementFits`) is undefined. -/
def fatFollowPathChain (pathElement : Str) (dir : Option Raw) : Vol × Follow :=
  if pathElement = [] then (v, .same)
  else if 12 < pathElement.length then (v, .missing)
  else if pathElement = [dot] then (v, .same)
  else
    let name := if pathElement = [dot, dot] then pathElement else (strsplit pathElement dot).1
    let ext := if pathElement = [dot, dot] then [] else (strsplit pathElement dot).2.1
    let r := match dir with
      | none => v.fatFindInRoot e name ext
      | some dir => v.fatFindInDir e dir.firstClusterNo name ext
    match r.2 with
    | none => (r.1, .missing)
    | some dir => (r.1, .entry dir)

/-- The loop of `fat_parse_path`. The inner `none` is the root; at the root a missing element is
taken for an element that leads nowhere else. -/
def parseElements : List Str → Option Raw → Vol → Vol × Option (Option Raw)
  | [], curDir, v => (v, some curDir)
  | element :: rest, curDir, v =>
    let r := v.fatFollowPathChain e element curDir
    match r.2 with
    | .same => parseElements rest curDir r.1
    | .entry dir => parseElements rest (some dir) r.1
    | .missing => if curDir.isNone then parseElements rest none r.1 else (r.1, none)

/-- No element that the loop comes to exceeds the buffers. -/
def ElementsFit : List Str → Option Raw → Vol → Prop
  | [], _, _ => True
  | element :: rest, curDir, v =>
    ElementFits element ∧
      let r := v.fatFollowPathChain e element curDir
      match r.2 with
      | .same => ElementsFit rest curDir r.1
      | .entry dir => ElementsFit rest (some dir) r.1
      | .missing => curDir.isNone = true → ElementsFit rest none r.1

/-- `fat_parse_path`; `none` is both the root and a path that was not found. -/
def fatParsePath (path : Str) (isFile : Bool) : Vol × Option Raw :=
  let r := parseElements e (pathElements path).1 none v
  match r.2 with
  | none => (r.1, none)
  | some curDir =>
    if isFile then
      let f := r.1.fatFollowPathChain e (pathElements path).2 curDir
      match f.2 with
      | .same => (f.1, curDir)
      | .entry dir => (f.1, some dir)
      | .missing => (f.1, none)
    else (r.1, curDir)

end Vol

end X86Kernel.Fat
