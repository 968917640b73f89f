import X86Kernel.Usr.InterpLine

/-! The two loops of the interpreter run a program as its lines say, if nothing that was run before
disturbs it. -/
namespace X86Kernel.Usr

open Strings (ch)
open Lines (linesFrom_of_lt)

variable {b : ℕ → UInt8} {text : Text} {s : Interp} {c : Config}

/-- One line that is not blank. -/
theorem Matches.step (h : Matches b text s c)
    (hkeys : ∀ name ∈ names text, name.length ≤ keyMaxLen) {l : Text}
    {rest : List Text} (hrest : c.rest = l :: rest) (hl : l ≠ []) :
    ∃ e s' c', Step b text s l c e s' c' := by
  obtain ⟨env, skip, lines, ret⟩ := c
  dsimp only at hrest
  subst hrest
  cases skip with
  | true => exact h.step_skip hl
  | false =>
    obtain ⟨hfit, (⟨hplain | hcall, hlines⟩ | ⟨hfunc, hskip, hlines⟩ | ⟨hend, hlines⟩)⟩ :=
      wellFormed_cases hl h.lines
    · exact h.step_plain hl hkeys hplain hfit hlines
    · cases ret with
      | some back =>
        -- in a function
        have hevents := Config.events_assigned env hl rest (some back) (.inr (.inl ⟨hcall, rfl⟩))
        rw [Env.define_of_none (definedName_call hcall)] at hevents
        exact h.step_refused hkeys hcall hfit hlines hevents (.inl rfl) (.inl (h.body back rfl).1)
      | none =>
        cases hname : env (parse l).arg with
        | none =>
          have hevents : Config.events ⟨env, false, l :: rest, none⟩ =
              .unknown (parse l) :: Config.events ⟨env, false, rest, none⟩ := by
            simp [Config.events, runLines, hl, hcall, hname]
          refine h.step_refused hkeys hcall hfit hlines hevents (.inr rfl)
            (h.stale.imp And.right fun hstale => ?_)
          exact Variables.not_func_of_not_stale (hstale _ (hevents ▸ List.mem_cons_self))
        | some binding =>
          cases binding with
          | func body => exact h.step_called hl hcall hfit hlines hname
          | value =>
            have hevents : Config.events ⟨env, false, l :: rest, none⟩ =
                .executed (parse l) :: Config.events ⟨env, false, rest, none⟩ := by
              simp [Config.events, runLines, hl, hcall, hname]
            obtain ⟨x, hlookup, hagrees⟩ := h.vars _ _ hname
            refine h.step_refused hkeys hcall hfit hlines hevents (.inl rfl)
              (.inr fun location hfunc => ?_)
            rw [Option.some.inj (hlookup.symm.trans hfunc)] at hagrees
            exact hagrees
    · rw [Bool.or_eq_false_iff] at hskip
      obtain rfl : ret = none := by simpa using hskip.2
      exact h.step_func hl hkeys hfunc hfit hlines
    · cases ret with
      | some back => exact h.step_endfunc hl hend hfit
      | none => exact h.step_stray hl hkeys hend hfit hlines

/-- The interpreter has come from a configuration to another. -/
structure Came (b : ℕ → UInt8) (text : Text) (s : Interp) (c : Config) (s' : Interp)
    (c' : Config) : Prop where
  state : Matches b text s' c'
  trace : ∃ es, c.events = es ++ c'.events ∧ s'.executed = s.executed ++ es.filterMap Event.command?

theorem Came.refl (h : Matches b text s c) : Came b text s c s c := ⟨h, [], rfl, by simp⟩

theorem Came.trans {s' s'' : Interp} {c' c'' : Config} (h : Came b text s c s' c')
    (h' : Came b text s' c' s'' c'') :
    Came b text s c s'' c'' := by
  obtain ⟨es, hevents, hexecuted⟩ := h.trace
  obtain ⟨es', hevents', hexecuted'⟩ := h'.trace
  refine ⟨h'.state, es ++ es', ?_, ?_⟩
  · rw [hevents, hevents', List.append_assoc]
  · rw [hexecuted', hexecuted, List.filterMap_append, List.append_assoc]

theorem Came.length_le {s' : Interp} {c' : Config} (h : Came b text s c s' c') :
    c'.events.length ≤ c.events.length := by
  obtain ⟨es, hevents, -⟩ := h.trace
  rw [hevents, List.length_append]
  omega

theorem Config.events_blank {rest : List Text} (hrest : c.rest = [] :: rest) :
    c.events = .blank :: Config.events { c with rest := rest } := by
  obtain ⟨env, skip, lines, ret⟩ := c
  dsimp only at hrest
  subst hrest
  cases ret <;> simp [Config.events, runLines, runBody]

/-- A blank line. -/
theorem Matches.blank (h : Matches b text s c) {rest : List Text} (hrest : c.rest = [] :: rest) :
    Came b text s c { s with location := s.location + 1 } { c with rest := rest } := by
  have hlines : wellFormed (c.skip || c.ret.isSome) rest = true := by
    have hlines := h.lines
    rw [hrest] at hlines
    unfold wellFormed at hlines
    rwa [if_pos rfl] at hlines
  have hevents := Config.events_blank hrest
  have hstate : Matches b text _ { c with rest := rest } :=
    h.advance s.vars s.executed hrest rfl hevents
    hlines h.skip_false h.vars h.room (fun _ _ hs => hs)
  have hsame : ({ s with location := s.location + 1, noExe := c.skip } : Interp) =
      { s with location := s.location + 1 } := by
    rw [← h.noExe]
  exact ⟨hsame ▸ hstate, [.blank], hevents, by simp [Event.command?]⟩

theorem Matches.readLine (h : Matches b text s c) (hb : Loaded b text) {l : Text} {rest : List Text}
    (hrest : c.rest = l :: rest) :
      s.location ≤ text.length ∧ Usr.readLine s.buffer 128 s.location = some l := by
  have hposition := h.position
  rw [hrest] at hposition
  obtain ⟨hle, hline, -⟩ := hposition.next
  have hfit : l.length < 128 := by
    by_cases hl : l = []
    · rw [hl]
      decide
    · have hlines := h.lines
      rw [hrest] at hlines
      have hfits := (wellFormed_cases hl hlines).1
      unfold lineFits at hfits
      simp only [Bool.and_eq_true, decide_eq_true_eq] at hfits
      exact hfits.1.1
  refine ⟨hle, ?_⟩
  rw [h.buffer, hb.readLine hle (hline ▸ hfit), hline]

/-- A call of a function before it is defined, and one behind its body. -/
def callTwice : Text :=
  word ['c', 'a', 'l', 'l', ' ', 'f', '\n', 'f', 'u', 'n', 'c', ' ', 'f', '\n',
  'e', 'n', 'd', 'f', 'u', 'n', 'c', '\n', 'c', 'a', 'l', 'l', ' ', 'f', '\n']

namespace Interp

/-- The interpreter with the text in a variable. -/
def holding (text : Text) : Interp :=
  { start (fun _ => 0) with vars := Variables.init.varSet [ch 'p'] (.str text) }

/-- The disk has the text under the name `a`. -/
def disk (path : Text) : Option Text := if path = [ch 'a'] then some callTwice else none

end Interp

end X86Kernel.Usr
