import X86Kernel.Usr.InterpSpec

/-! What the interpreter does with one line of a program, and what it keeps. -/
namespace X86Kernel.Usr

open Lines (linesFrom lineAt linesFrom_eq linesFrom_cons_iff linesFrom_of_lt)

/-! ### Reading lines -/

/-- The buffer holds the text. -/
structure Loaded (b : ℕ → UInt8) (text : Text) : Prop where
  string : 0 ∉ text
  chars : ∀ k < text.length, text[k]? = some (b k)
  nul : b text.length = 0

variable {b : ℕ → UInt8} {text : Text}

theorem Loaded.readLine (h : Loaded b text) {room pos : ℕ} (hpos : pos ≤ text.length)
    (hfit : (lineAt newline text pos).length < room) :
      readLine b room pos = some (lineAt newline text pos) := by
  induction room generalizing pos with
  | zero => exact absurd hfit (Nat.not_lt_zero _)
  | succ room ih =>
    unfold lineAt at hfit ⊢
    unfold Usr.readLine
    by_cases hend : pos = text.length
    · rw [hend, if_pos (.inr h.nul), List.drop_length, List.takeWhile_nil]
    · have hlt : pos < text.length := by omega
      have hchar : text[pos] = b pos := by
        have hsome := h.chars pos hlt
        rw [List.getElem?_eq_getElem hlt] at hsome
        exact Option.some.inj hsome
      have hne : b pos ≠ 0 := by
        rw [← hchar]
        intro hzero
        exact h.string (hzero ▸ List.getElem_mem hlt)
      rw [List.drop_eq_getElem_cons hlt, hchar] at hfit ⊢
      by_cases hnew : b pos = newline
      · rw [if_pos (.inl hnew), List.takeWhile_cons_of_neg (by simpa using hnew)]
      · rw [if_neg (by simp [hnew, hne])]
        rw [List.takeWhile_cons_of_pos (by simpa using hnew)] at hfit ⊢
        rw [List.length_cons] at hfit
        have hrest := ih (show pos + 1 ≤ text.length from hlt) (by unfold lineAt; omega)
        rw [hrest]
        rfl

/-- The lines from a position of the program on. -/
structure At (text : Text) (pos : ℕ) (rest : List Text) : Prop where
  lines : rest = linesFrom newline text pos
  le : pos ≤ text.length + 1
  suffix : rest <:+ text.splitOn newline

theorem At.next {pos : ℕ} {l : Text} {rest : List Text} (h : At text pos (l :: rest)) :
    pos ≤ text.length ∧ l = lineAt newline text pos ∧ At text (pos + l.length + 1) rest := by
  have hle := Lines.le_of_linesFrom_cons newline text h.lines.symm
  obtain ⟨hl, hrest⟩ := linesFrom_cons_iff newline text h.lines.symm
  have hlen : (lineAt newline text pos).length ≤ text.length - pos := by
    rw [← List.length_drop]
    exact (List.takeWhile_sublist _).length_le
  refine ⟨hle, hl, hrest, by rw [hl]; omega, (List.suffix_cons l rest).trans h.suffix⟩

/-- Behind the last line there is none. -/
theorem At.nil {pos : ℕ} (h : At text pos []) : pos = text.length + 1 := by
  by_contra hne
  have hle : pos ≤ text.length := by
    have := h.le
    omega
  have hcons := h.lines
  rw [linesFrom_eq newline text hle] at hcons
  exact absurd hcons.symm (List.cons_ne_nil _ _)

/-- What a command of the program defines is one of its names. -/
theorem mem_names {l name : Text} {rest : List Text} (hsuffix : rest <:+ text.splitOn newline)
    (hl : l ∈ rest) (hname : definedName (parse l) = some name) : name ∈ names text := by
  unfold names
  rw [List.mem_toFinset, List.mem_filterMap]
  exact ⟨l, hsuffix.subset hl, hname⟩

/-! ### The variables -/

/-- A variable is what the program has made of its name. -/
def Agrees (text : Text) : Var → Binding → Prop
  | .func location, .func body => At text location body ∧ wellFormed true body = true
  | .func _, .value => False
  | _, .func _ => False
  | _, .value => True

def VarsMatch (text : Text) (v : Variables) (env : Env) : Prop :=
  ∀ name binding, env name = some binding → ∃ x, v.lookup name = some x ∧ Agrees text x binding

theorem VarsMatch.varSet {v : Variables} {env : Env} (h : VarsMatch text v env)
    {name : Text} {x : Var}
    {binding : Binding} (hlen : name.length ≤ keyMaxLen) (hroom : v.map.probeKey name ≠ .full)
    (hx : Agrees text x binding) :
    VarsMatch text (v.varSet name x) (Function.update env name (some binding)) := by
  intro other binding' henv
  by_cases hother : other = name
  · rw [hother, Function.update_self] at henv
    rw [hother, ← Option.some.inj henv]
    exact ⟨x, (Variables.lookup_varSet_self hlen hroom).1, hx⟩
  · rw [Function.update_of_ne hother] at henv
    obtain ⟨y, hy, hagrees⟩ := h other binding' henv
    exact ⟨y, Variables.lookup_varSet_of_ne hlen hother hy, hagrees⟩

/-! ### Configurations -/

/-- Where the run of a program stands: what it made of names, whether it skips, the lines to come,
and in a function those behind its call. -/
structure Config where
  env : Env
  skip : Bool
  rest : List Text
  ret : Option (List Text)

/-- What is to happen. -/
def Config.events (c : Config) : List Event :=
  match c.ret with
  | none => runLines c.env c.skip c.rest
  | some ret => (runBody c.env c.rest).1 ++ runLines (runBody c.env c.rest).2 false ret

/-- Where the interpreter stands, in its code and in the program. -/
structure Matches (b : ℕ → UInt8) (text : Text) (s : Interp) (c : Config) : Prop where
  buffer : s.buffer = b
  size : s.bufferSize = text.length + 1
  noExe : s.noExe = c.skip
  position : At text s.location c.rest
  lines : wellFormed (c.skip || c.ret.isSome) c.rest = true
  top : c.ret = none → s.inFunc = false ∨ Calm c.events
  body : ∀ ret, c.ret = some ret → s.inFunc = true ∧ c.skip = false ∧ At text s.returnLocation ret ∧
    wellFormed false ret = true
  vars : VarsMatch text s.vars c.env
  room : s.vars.Room (names text)
  stale : c.ret = none ∧ s.inFunc = true ∨ ∀ d, .unknown d ∈ c.events → ¬s.vars.Stale d.arg
  prints : ∀ d, .executed d ∈ c.events → kindOf d.command = .buffer → printable b d.arg = true
  widgets : s.woCount + c.events.countP Event.creates ≤ woCount

/-- The commands that have no part in functions. -/
def Kind.Plain : Kind → Prop
  | .create => True
  | .set => True
  | .seti => True
  | .setwidget => True
  | .buffer => True
  | .other => True
  | _ => False

/-! ### The names that a run defines -/

theorem Env.eq_none_of_define {env : Env} {c : Command} {name : Text}
    (h : env.define c name = none) :
    env name = none ∧ definedName c ≠ some name := by
  unfold Env.define at h
  cases hname : definedName c with
  | none =>
    rw [hname] at h
    exact ⟨h, (Option.some_ne_none name).symm⟩
  | some other =>
    rw [hname] at h
    dsimp only at h
    by_cases hother : name = other
    · rw [hother, Function.update_self] at h
      exact absurd h (Option.some_ne_none _)
    · rw [Function.update_of_ne hother] at h
      exact ⟨h, fun hsome => hother (Option.some.inj hsome).symm⟩

theorem runBody_env_none {env : Env} {lines : List Text} {name : Text}
    (h : (runBody env lines).2 name = none) :
    env name = none := by
  induction lines generalizing env with
  | nil => exact h
  | cons l lines ih =>
    unfold runBody at h
    split_ifs at h
    · exact ih h
    · exact h
    · exact (Env.eq_none_of_define (ih h)).1

theorem unknown_notMem_runBody (env : Env) (lines : List Text) (c : Command) :
    .unknown c ∉ (runBody env lines).1 := by
  induction lines generalizing env with
  | nil => exact List.not_mem_nil
  | cons l lines ih =>
    unfold runBody
    split_ifs <;> simp [ih]

/-- A call is of an unknown name only where the program has defined nothing of this name before. -/
theorem env_none_of_unknown {env : Env} {skip : Bool} {lines : List Text} {c : Command}
    (h : .unknown c ∈ runLines env skip lines) : env c.arg = none := by
  induction lines generalizing env skip with
  | nil => exact absurd h List.not_mem_nil
  | cons l lines ih =>
    unfold runLines at h
    split_ifs at h
    · exact ih (by simpa using h)
    · exact ih (by simpa using h)
    · exact ih (by simpa using h)
    · split at h
      · -- a function
        have hnone := ih (by simpa using h)
        by_cases hname : c.arg = (parse l).arg
        · rw [hname, Function.update_self] at hnone
          exact absurd hnone (Option.some_ne_none _)
        · rwa [Function.update_of_ne hname] at hnone
      · split at h
        · rw [List.mem_append, List.mem_cons] at h
          rcases h with (h | h) | h
          · exact absurd h (by simp)
          · exact absurd h (unknown_notMem_runBody _ _ c)
          · exact runBody_env_none (ih h)
        · exact ih (by simpa using h)
        · rename_i hnone
          rw [List.mem_cons] at h
          rcases h with h | h
          · rw [Event.unknown.injEq] at h
            rw [h, hnone]
          · exact ih h
      · exact (Env.eq_none_of_define (ih (by simpa using h))).1

theorem Config.env_none_of_unknown {c : Config} {d : Command} (h : .unknown d ∈ c.events) :
    c.env d.arg = none := by
  unfold Config.events at h
  split at h
  · exact Usr.env_none_of_unknown h
  · rw [List.mem_append] at h
    rcases h with h | h
    · exact absurd h (unknown_notMem_runBody _ _ d)
    · exact runBody_env_none (Usr.env_none_of_unknown h)

/-! ### One line -/

theorem Interp.parseLine_eq (s : Interp) (files : Text → Option Text)
    (loops : Which → Interp → Except Halt Interp)
    {l : Text} (h : lineFits l = true) : s.parseLine files loops l =
      if s.noExe && kindOf (parse l).command != .endfunc then .ok s
      else s.execute files loops (parse l) := by
  unfold lineFits at h
  rw [Bool.and_eq_true, Bool.and_eq_true] at h
  unfold Interp.parseLine
  rw [h.1.2, h.2]
  rfl

/-- The variables after a command that defines no function. -/
inductive Assigned (c : Command) (v : Variables) : Variables → Prop where
  | nothing (h : definedName c = none) : Assigned c v v
  | set (name : Text) (x : Var) (h : definedName c = some name)
      (hx : ∀ location, x ≠ .func location) :
    Assigned c v (v.varSet name x)

/-- The widgets that an event makes. -/
def Event.widgets (e : Event) : ℕ := if e.creates then 1 else 0

theorem Event.widgets_of_kind {c : Command} (h : kindOf c.command ≠ .create) :
    (Event.executed c).widgets = 0 := by
  unfold Event.widgets Event.creates
  simp [h]

/-- A command that has no part in functions. -/
theorem Interp.execute_plain {s : Interp} {c : Command} (hkind : (kindOf c.command).Plain)
    (hprints : kindOf c.command = .buffer → printable s.buffer c.arg = true)
    (hwidgets : s.woCount + (Event.executed c).widgets ≤ Usr.woCount) :
    ∃ v, Assigned c s.vars v ∧ ∀ files loops, s.execute files loops c = .ok { s with
      vars := v, woCount := s.woCount + (Event.executed c).widgets, executed :=
        s.executed ++ [c] } := by
  simp only [Interp.execute]
  cases hk : kindOf c.command with
  | create =>
    dsimp only [Interp.cmdCreate]
    cases hargs : createArgs c.arg with
    | none =>
      have hzero : (Event.executed c).widgets = 0 := by simp [Event.widgets, Event.creates, hargs]
      have hname : definedName c = none := by simp [definedName, hk, hargs]
      rw [hzero]
      exact ⟨s.vars, .nothing hname, fun _ _ => rfl⟩
    | some args =>
      have hone : (Event.executed c).widgets = 1 := by
        simp [Event.widgets, Event.creates, hk, hargs]
      have hname : definedName c = some args.1 := by simp [definedName, hk, hargs]
      rw [hone] at hwidgets ⊢
      refine ⟨s.vars.varSet args.1 (.wo s.woCount), .set _ _ hname (by simp), ?_⟩
      intro files loops
      dsimp only
      rw [if_neg (by omega), if_neg (by omega)]
  | set =>
    rw [Event.widgets_of_kind (by simp [hk])]
    dsimp only [Interp.cmdSet]
    by_cases hok : (strsplit c.arg space).2.2 = true
    · have hname : definedName c = some (strsplit c.arg space).1 := by simp [definedName, hk, hok]
      refine ⟨_, .set _ (.str (strsplit c.arg space).2.1) hname (by simp), fun files loops => ?_⟩
      rw [hok]
      rfl
    · have hname : definedName c = none := by simp [definedName, hk, hok]
      refine ⟨_, .nothing hname, fun files loops => ?_⟩
      rw [if_pos (by simpa using hok)]
      rfl
  | seti =>
    rw [Event.widgets_of_kind (by simp [hk])]
    dsimp only [Interp.cmdSeti]
    by_cases hok : (strsplit c.arg space).2.2 = true
    · have hname : definedName c = some (strsplit c.arg space).1 := by simp [definedName, hk, hok]
      refine ⟨_, .set _ .int hname (by simp), fun files loops => ?_⟩
      rw [hok]
      rfl
    · have hname : definedName c = none := by simp [definedName, hk, hok]
      refine ⟨_, .nothing hname, fun files loops => ?_⟩
      rw [if_pos (by simpa using hok)]
      rfl
  | setwidget =>
    rw [Event.widgets_of_kind (by simp [hk])]
    exact ⟨s.vars, .nothing (by simp [definedName, hk]), fun _ _ => rfl⟩
  | buffer =>
    rw [Event.widgets_of_kind (by simp [hk])]
    refine ⟨s.vars, .nothing (by simp [definedName, hk]), fun _ _ => ?_⟩
    exact if_pos (hprints hk)
  | other =>
    rw [Event.widgets_of_kind (by simp [hk])]
    exact ⟨s.vars, .nothing (by simp [definedName, hk]), fun _ _ => rfl⟩
  | free => simp [hk, Kind.Plain] at hkind
  | reset => simp [hk, Kind.Plain] at hkind
  | func => simp [hk, Kind.Plain] at hkind
  | call => simp [hk, Kind.Plain] at hkind
  | endfunc => simp [hk, Kind.Plain] at hkind
  | openFile => simp [hk, Kind.Plain] at hkind
  | run => simp [hk, Kind.Plain] at hkind

/-- What a command that defines no function keeps. -/
theorem Assigned.keeps {c : Command} {v v' : Variables} (h : Assigned c v v') {env : Env}
    (hnames : ∀ name, definedName c = some name → name ∈ names text)
    (hkeys : ∀ name ∈ names text, name.length ≤ keyMaxLen)
    (hvars : VarsMatch text v env) (hroom : v.Room (names text)) :
    VarsMatch text v' (env.define c) ∧ v'.Room (names text) ∧
      ∀ name, env.define c name = none → ¬v.Stale name → ¬v'.Stale name := by
  cases h with
  | nothing hname =>
    unfold Env.define
    rw [hname]
    exact ⟨hvars, hroom, fun _ _ h => h⟩
  | set name x hname hx =>
    have hmem := hnames name hname
    obtain ⟨hroom', hfull⟩ := hroom.varSet (x := x) hmem (hkeys name hmem)
    have hagrees : Agrees text x .value := by
      cases x with
      | func location => exact absurd rfl (hx location)
      | int => trivial
      | str value => trivial
      | wo index => trivial
    have hdefine : env.define c = Function.update env name (some .value) := by
      unfold Env.define
      rw [hname]
    constructor
    · rw [hdefine]
      exact hvars.varSet (hkeys name hmem) hfull hagrees
    · refine ⟨hroom', fun other hother hstale => ?_⟩
      have hne : other ≠ name := by
        rintro rfl
        exact (Env.eq_none_of_define hother).2 hname
      exact Variables.not_stale_varSet (hkeys name hmem) hne hstale

/-- What a line of a program is. -/
theorem wellFormed_cases {skip : Bool} {l : Text} {rest : List Text} (hl : l ≠ [])
    (h : wellFormed skip (l :: rest) = true) : lineFits l = true ∧
      (((kindOf (parse l).command).Plain ∨ kindOf (parse l).command = .call) ∧
        wellFormed skip rest = true ∨
        kindOf (parse l).command = .func ∧ skip = false ∧ wellFormed true rest = true ∨
        kindOf (parse l).command = .endfunc ∧ wellFormed false rest = true) := by
  unfold wellFormed at h
  rw [if_neg hl, Bool.and_eq_true] at h
  refine ⟨h.1, ?_⟩
  have hrest := h.2
  cases hk : kindOf (parse l).command <;> simp_all [Kind.Plain]

theorem Matches.skip_false {s : Interp} {c : Config} (h : Matches b text s c)
    (hret : c.ret.isSome) : c.skip = false := by
  obtain ⟨ret, hret⟩ := Option.isSome_iff_exists.mp hret
  exact (h.body ret hret).2.1

/-- The interpreter goes on to the next line. -/
theorem Matches.advance {s : Interp} {c c' : Config} {l : Text} {e : Event} (v : Variables)
    (executed : List Command) (h : Matches b text s c) (hrest : c.rest = l :: c'.rest)
    (hret : c'.ret = c.ret) (hevents : c.events = e :: c'.events)
    (hlines : wellFormed (c'.skip || c'.ret.isSome) c'.rest = true)
    (hskip : c.ret.isSome → c'.skip = false) (hvars : VarsMatch text v c'.env)
    (hroom : v.Room (names text))
    (hstale : ∀ name, c'.env name = none → ¬s.vars.Stale name → ¬v.Stale name) :
    Matches b text { s with
      location := s.location + l.length + 1
      vars := v
      woCount := s.woCount + e.widgets
      noExe := c'.skip
      executed := executed } c' where
  buffer := h.buffer
  size := h.size
  noExe := rfl
  position := by
    have hposition := h.position
    rw [hrest] at hposition
    exact hposition.next.2.2
  lines := hlines
  top := by
    intro hnone
    rw [hret] at hnone
    refine (h.top hnone).imp id fun hcalm e he => hcalm e ?_
    rw [hevents]
    exact List.mem_cons_of_mem _ he
  body := by
    intro ret hsome
    rw [hret] at hsome
    obtain ⟨hin, -, hreturn⟩ := h.body ret hsome
    exact ⟨hin, hskip (by rw [hsome]; rfl), hreturn⟩
  vars := hvars
  room := hroom
  stale := by
    rw [hret]
    refine h.stale.imp id fun hnone d hd => hstale _ (Config.env_none_of_unknown hd) (hnone d ?_)
    rw [hevents]
    exact List.mem_cons_of_mem _ hd
  prints := by
    intro d hd
    apply h.prints
    rw [hevents]
    exact List.mem_cons_of_mem _ hd
  widgets := by
    have hwidgets := h.widgets
    rw [hevents, List.countP_cons] at hwidgets
    unfold Event.widgets
    dsimp only
    omega

/-- A call goes on in the loop of `cmd_call`, any other line in the loop it was read by. -/
def Event.next (loops : Which → Interp → Except Halt Interp) (s : Interp) :
    Event → Except Halt Interp
  | .called _ => loops .call s
  | _ => .ok s

/-- What the interpreter does with a line that is not blank. -/
structure Step (b : ℕ → UInt8) (text : Text) (s : Interp) (l : Text) (c : Config) (e : Event)
    (s' : Interp) (c' : Config) : Prop where
  events : c.events = e :: c'.events
  line : e ≠ .blank
  state : Matches b text s' c'
  executed : s'.executed = s.executed ++ e.command?.toList
  parsed : ∀ files loops,
    ({ s with location := s.location + l.length + 1 } : Interp).parseLine files loops l =
      e.next loops s'

section Step

variable {s : Interp} {env : Env} {skip : Bool} {l : Text} {rest : List Text}
  {ret : Option (List Text)}

theorem Matches.step_skip (h : Matches b text s ⟨env, true, l :: rest, ret⟩) (hl : l ≠ []) :
    ∃ e s' c', Step b text s l ⟨env, true, l :: rest, ret⟩ e s' c' := by
  obtain rfl : ret = none := by
    cases ret with
    | none => rfl
    | some ret => exact absurd (h.body ret rfl).2.1 Bool.true_eq_false.mp
  obtain ⟨hfit, hkinds⟩ := wellFormed_cases hl h.lines
  by_cases hend : kindOf (parse l).command = .endfunc
  · have hzero := Event.widgets_of_kind (c := parse l) (by simp [hend])
    have hevents : Config.events ⟨env, true, l :: rest, none⟩ =
        .executed (parse l) :: Config.events ⟨env, false, rest, none⟩ := by
      simp [Config.events, runLines, hl, hend]
    have hin : s.inFunc = false := by
      refine (h.top rfl).resolve_right fun hcalm => ?_
      rw [hevents] at hcalm
      exact (hcalm _ List.mem_cons_self).2 _ rfl hend
    have hlines : wellFormed false rest = true := by simpa [hend, Kind.Plain] using hkinds
    refine ⟨.executed (parse l), _, ⟨env, false, rest, none⟩, hevents, by simp, h.advance s.vars
      (s.executed ++ [parse l]) rfl rfl hevents hlines (fun _ => rfl) h.vars h.room
        (fun _ _ hs => hs),
      rfl, ?_⟩
    intro files loops
    rw [Interp.parseLine_eq _ _ _ hfit, hzero]
    simp [hend, Interp.execute, Interp.cmdEndfunc, hin, Event.next]
  · have hevents : Config.events ⟨env, true, l :: rest, none⟩ =
        .skipped :: Config.events ⟨env, true, rest, none⟩ := by
      simp [Config.events, runLines, hl, hend]
    have hlines : ((kindOf (parse l).command).Plain ∨ kindOf (parse l).command = .call) ∧
        wellFormed true rest = true := by simpa [hend] using hkinds
    refine ⟨.skipped, _, ⟨env, true, rest, none⟩, hevents, by simp, h.advance s.vars
      s.executed rfl rfl hevents hlines.2 (by simp) h.vars h.room (fun _ _ hs => hs),
      by simp [Event.command?], ?_⟩
    intro files loops
    have hexe : s.noExe = true := h.noExe
    rw [Interp.parseLine_eq _ _ _ hfit, hexe, if_pos (by simpa using hend)]
    simp [Event.next, Event.widgets, Event.creates]

/-- A line whose command defines no function, and does not go elsewhere. -/
theorem Matches.step_assigned (h : Matches b text s ⟨env, false, l :: rest, ret⟩)
    (hkeys : ∀ name ∈ names text, name.length ≤ keyMaxLen) (hfit : lineFits l = true) {e : Event}
    (hevents : Config.events ⟨env, false, l :: rest, ret⟩ =
      e :: Config.events ⟨env.define (parse l), false, rest, ret⟩)
    (hcommand : e.command? = some (parse l)) (hcalled : ∀ c, e ≠ .called c)
    (hlines : wellFormed (false || ret.isSome) rest = true) {v : Variables}
    (hv : Assigned (parse l) s.vars v) (hexec : ∀ files loops,
      ({ s with location := s.location + l.length + 1 } : Interp).execute files loops (parse l) =
      .ok { s with
        location := s.location + l.length + 1
        vars := v
        woCount := s.woCount + e.widgets
        executed := s.executed ++ [parse l] }) :
    ∃ e s' c', Step b text s l ⟨env, false, l :: rest, ret⟩ e s' c' := by
  have hnames : ∀ name, definedName (parse l) = some name → name ∈ names text :=
    fun name => mem_names h.position.suffix List.mem_cons_self
  obtain ⟨hvars, hroom, hstale⟩ := hv.keeps hnames hkeys h.vars h.room
  have hexe : s.noExe = false := h.noExe
  refine ⟨e, _, ⟨env.define (parse l), false, rest, ret⟩, hevents, ?_, h.advance v
    (s.executed ++ [parse l]) rfl rfl hevents hlines (fun _ => rfl) hvars hroom hstale,
    by rw [hcommand]; rfl, ?_⟩
  · rintro rfl
    exact absurd hcommand (Option.some_ne_none _).symm
  · intro files loops
    rw [Interp.parseLine_eq _ _ _ hfit, if_neg (by simp [hexe]), hexec, hexe]
    cases e with
    | called c => exact absurd rfl (hcalled c)
    | _ => rfl

theorem Config.events_assigned (env : Env) (hl : l ≠ []) (rest : List Text)
    (ret : Option (List Text))
    (h : (kindOf (parse l).command).Plain ∨ kindOf (parse l).command = .call ∧ ret.isSome ∨
      kindOf (parse l).command = .endfunc ∧ ret = none) :
    Config.events ⟨env, false, l :: rest, ret⟩ =
      .executed (parse l) :: Config.events ⟨env.define (parse l), false, rest, ret⟩ := by
  cases ret with
  | none =>
    simp only [Config.events, runLines, hl, if_false]
    cases hk : kindOf (parse l).command <;> simp_all [Kind.Plain]
  | some ret =>
    simp only [Config.events, runBody, hl, if_false]
    cases hk : kindOf (parse l).command <;> simp_all [Kind.Plain]

theorem Interp.cmdCall_of_inFunc {s : Interp} (h : s.inFunc = true)
    (loops : Which → Interp → Except Halt Interp) (arg : Text) : s.cmdCall loops arg = .ok s := by
  unfold Interp.cmdCall
  split
  · rw [if_pos h]
  · rfl

theorem Interp.cmdCall_of_not_func {s : Interp} {arg : Text}
    (h : ∀ location, s.vars.lookup arg ≠ some (.func location))
    (loops : Which → Interp → Except Halt Interp) : s.cmdCall loops arg = .ok s := by
  unfold Interp.cmdCall
  split
  · rename_i location hfound
    exact absurd hfound (h location)
  · rfl

theorem Env.define_of_none {c : Command} (h : definedName c = none) (env : Env) :
    env.define c = env := by
  unfold Env.define
  rw [h]

theorem definedName_call {c : Command} (h : kindOf c.command = .call) : definedName c = none := by
  unfold definedName
  rw [h]

theorem definedName_endfunc {c : Command} (h : kindOf c.command = .endfunc) :
    definedName c = none := by
  unfold definedName
  rw [h]

/-- A command that has no part in functions, in a function or outside. -/
theorem Matches.step_plain (h : Matches b text s ⟨env, false, l :: rest, ret⟩) (hl : l ≠ [])
    (hkeys : ∀ name ∈ names text, name.length ≤ keyMaxLen)
    (hkind : (kindOf (parse l).command).Plain)
    (hfit : lineFits l = true) (hlines : wellFormed (false || ret.isSome) rest = true) :
    ∃ e s' c', Step b text s l ⟨env, false, l :: rest, ret⟩ e s' c' := by
  have hevents := Config.events_assigned env hl rest ret (.inl hkind)
  have hwidgets := h.widgets
  rw [hevents, List.countP_cons] at hwidgets
  have hprints : kindOf (parse l).command = .buffer → printable s.buffer (parse l).arg = true := by
    rw [h.buffer]
    apply h.prints
    rw [hevents]
    exact List.mem_cons_self
  obtain ⟨v, hv, hexec⟩ :=
    Interp.execute_plain (s := { s with location := s.location + l.length + 1 }) hkind hprints
    (by unfold Event.widgets; dsimp only; omega)
  exact h.step_assigned hkeys hfit hevents rfl (by simp) hlines hv hexec

/-- A call that is refused: in a function, or where the name is not one of a function. -/
theorem Matches.step_refused (h : Matches b text s ⟨env, false, l :: rest, ret⟩)
    (hkeys : ∀ name ∈ names text, name.length ≤ keyMaxLen)
    (hkind : kindOf (parse l).command = .call)
    (hfit : lineFits l = true) (hlines : wellFormed (false || ret.isSome) rest = true) {e : Event}
    (hevents : Config.events ⟨env, false, l :: rest, ret⟩ =
      e :: Config.events ⟨env, false, rest, ret⟩)
    (he : e = .executed (parse l) ∨ e = .unknown (parse l))
    (hrefused : s.inFunc = true ∨ ∀ location, s.vars.lookup (parse l).arg ≠ some (.func location)) :
    ∃ e s' c', Step b text s l ⟨env, false, l :: rest, ret⟩ e s' c' := by
  have hname := definedName_call hkind
  have hzero : e.widgets = 0 := by
    rcases he with rfl | rfl
    · exact Event.widgets_of_kind (by simp [hkind])
    · rfl
  have hcommand : e.command? = some (parse l) := by
    rcases he with rfl | rfl <;> rfl
  refine h.step_assigned hkeys hfit (e := e) ?_ hcommand ?_ hlines (.nothing hname) ?_
  · rw [Env.define_of_none hname, hevents]
  · rcases he with rfl | rfl <;> simp
  · intro files loops
    rw [hzero]
    simp only [Interp.execute, hkind]
    rcases hrefused with hin | hfunc
    · rw [Interp.cmdCall_of_inFunc (by exact hin)]
      rfl
    · rw [Interp.cmdCall_of_not_func (by exact hfunc)]
      rfl

/-- An `endfunc` outside of functions. -/
theorem Matches.step_stray (h : Matches b text s ⟨env, false, l :: rest, none⟩) (hl : l ≠ [])
    (hkeys : ∀ name ∈ names text, name.length ≤ keyMaxLen)
    (hkind : kindOf (parse l).command = .endfunc)
    (hfit : lineFits l = true) (hlines : wellFormed false rest = true) :
    ∃ e s' c', Step b text s l ⟨env, false, l :: rest, none⟩ e s' c' := by
  have hexe : s.noExe = false := h.noExe
  have hevents := Config.events_assigned env hl rest none (.inr (.inr ⟨hkind, rfl⟩))
  have hin : s.inFunc = false := by
    refine (h.top rfl).resolve_right fun hcalm => ?_
    rw [hevents] at hcalm
    exact (hcalm _ List.mem_cons_self).2 _ rfl hkind
  refine h.step_assigned hkeys hfit hevents rfl (by simp) hlines
    (.nothing (definedName_endfunc hkind)) ?_
  intro files loops
  rw [Event.widgets_of_kind (by simp [hkind])]
  simp [Interp.execute, Interp.cmdEndfunc, hkind, hin, hexe]

/-- The end of a function: on behind its call. -/
theorem Matches.step_endfunc {back : List Text}
    (h : Matches b text s ⟨env, false, l :: rest, some back⟩) (hl : l ≠ [])
    (hkind : kindOf (parse l).command = .endfunc) (hfit : lineFits l = true) :
    ∃ e s' c', Step b text s l ⟨env, false, l :: rest, some back⟩ e s' c' := by
  obtain ⟨hin, -, hreturn, hback⟩ := h.body back rfl
  have hexe : s.noExe = false := h.noExe
  have hevents : Config.events ⟨env, false, l :: rest, some back⟩ =
      .executed (parse l) :: Config.events ⟨env, false, back, none⟩ := by
    simp [Config.events, runBody, hl, hkind]
  have hwidgets := h.widgets
  rw [hevents, List.countP_cons] at hwidgets
  refine ⟨.executed (parse l), { s with
    location := s.returnLocation
    inFunc := false
    noExe := false
    executed := s.executed ++ [parse l] }, ⟨env, false, back, none⟩, hevents, by simp, ?_, rfl, ?_⟩
  · constructor
    · exact h.buffer
    · exact h.size
    · rfl
    · exact hreturn
    · exact hback
    · exact fun _ => .inl rfl
    · exact fun ret hret => absurd hret (Option.some_ne_none ret).symm
    · exact h.vars
    · exact h.room
    · right
      intro d hd
      refine (h.stale.resolve_left fun hnone => absurd hnone.1 (Option.some_ne_none back)) d ?_
      rw [hevents]
      exact List.mem_cons_of_mem _ hd
    · intro d hd
      apply h.prints
      rw [hevents]
      exact List.mem_cons_of_mem _ hd
    · dsimp only
      omega
  · intro files loops
    rw [Interp.parseLine_eq _ _ _ hfit]
    simp [Interp.execute, Interp.cmdEndfunc, hkind, hin, hexe, Event.next]

/-- A call of a function, outside of functions. -/
theorem Matches.step_called (h : Matches b text s ⟨env, false, l :: rest, none⟩) (hl : l ≠ [])
    (hkind : kindOf (parse l).command = .call) (hfit : lineFits l = true)
    (hlines : wellFormed false rest = true)
    {body : List Text} (hbody : env (parse l).arg = some (.func body)) :
    ∃ e s' c', Step b text s l ⟨env, false, l :: rest, none⟩ e s' c' := by
  have hexe : s.noExe = false := h.noExe
  obtain ⟨x, hlookup, hagrees⟩ := h.vars _ _ hbody
  have hevents : Config.events ⟨env, false, l :: rest, none⟩ =
      .called (parse l) :: Config.events ⟨env, false, body, some rest⟩ := by
    simp [Config.events, runLines, hl, hkind, hbody]
  have hin : s.inFunc = false := by
    refine (h.top rfl).resolve_right fun hcalm => ?_
    rw [hevents] at hcalm
    exact (hcalm _ List.mem_cons_self).1 _ rfl
  have hwidgets := h.widgets
  rw [hevents, List.countP_cons] at hwidgets
  cases x with
  | func location =>
    refine ⟨.called (parse l), { s with
      returnLocation := s.location + l.length + 1
      location := location
      inFunc := true
      executed := s.executed ++ [parse l] }, ⟨env, false, body, some rest⟩, hevents, by simp,
        ?_, rfl, ?_⟩
    · constructor
      · exact h.buffer
      · exact h.size
      · exact hexe
      · exact hagrees.1
      · exact hagrees.2
      · exact fun hnone => absurd hnone (Option.some_ne_none rest)
      · intro ret hret
        rw [← Option.some.inj hret]
        exact ⟨rfl, rfl, h.position.next.2.2, hlines⟩
      · exact h.vars
      · exact h.room
      · right
        intro d hd
        refine (h.stale.resolve_left fun hnone =>
          absurd (hin.symm.trans hnone.2) Bool.false_ne_true) d ?_
        rw [hevents]
        exact List.mem_cons_of_mem _ hd
      · intro d hd
        apply h.prints
        rw [hevents]
        exact List.mem_cons_of_mem _ hd
      · dsimp only
        omega
    · intro files loops
      rw [Interp.parseLine_eq _ _ _ hfit]
      simp [Interp.execute, Interp.cmdCall, hkind, hin, hexe, hlookup, Event.next]
  | int => exact absurd hagrees (by simp [Agrees])
  | str value => exact absurd hagrees (by simp [Agrees])
  | wo index => exact absurd hagrees (by simp [Agrees])

/-- The definition of a function. -/
theorem Matches.step_func (h : Matches b text s ⟨env, false, l :: rest, none⟩) (hl : l ≠ [])
    (hkeys : ∀ name ∈ names text, name.length ≤ keyMaxLen)
    (hkind : kindOf (parse l).command = .func)
    (hfit : lineFits l = true) (hlines : wellFormed true rest = true) :
    ∃ e s' c', Step b text s l ⟨env, false, l :: rest, none⟩ e s' c' := by
  have hexe : s.noExe = false := h.noExe
  have hmem : (parse l).arg ∈ names text :=
    mem_names h.position.suffix List.mem_cons_self (by simp [definedName, hkind])
  have hlen := hkeys _ hmem
  have hnext := h.position.next.2.2
  obtain ⟨hroom, hfull⟩ := h.room.varSet (x := .func (s.location + l.length + 1)) hmem hlen
  have hevents : Config.events ⟨env, false, l :: rest, none⟩ = .executed (parse l) ::
      Config.events ⟨Function.update env (parse l).arg (some (.func rest)), true, rest, none⟩ := by
    simp [Config.events, runLines, hl, hkind]
  have hagrees : Agrees text (.func (s.location + l.length + 1)) (.func rest) := ⟨hnext, hlines⟩
  have hvars := h.vars.varSet hlen hfull hagrees
  have hstale : ∀ name, Function.update env (parse l).arg (some (.func rest)) name = none →
        ¬s.vars.Stale name →
      ¬(s.vars.varSet (parse l).arg (.func (s.location + l.length + 1))).Stale name := by
    intro name hnone hname
    refine Variables.not_stale_varSet hlen ?_ hname
    rintro rfl
    rw [Function.update_self] at hnone
    exact absurd hnone (Option.some_ne_none _)
  refine ⟨.executed (parse l), _,
    ⟨Function.update env (parse l).arg (some (.func rest)), true, rest, none⟩, hevents,
    by simp, h.advance _ (s.executed ++ [parse l]) rfl rfl hevents hlines
      (by simp) hvars hroom hstale, rfl, ?_⟩
  intro files loops
  rw [Interp.parseLine_eq _ _ _ hfit, Event.widgets_of_kind (by simp [hkind])]
  simp [Interp.execute, Interp.cmdFunc, hkind, hexe, Event.next]

end Step

end X86Kernel.Usr
