import X86Kernel.Usr.InterpVars

/-! What a f3BASIC program is, and what running it means, on the lines of its text. -/
namespace X86Kernel.Usr

/-- What a program has made of a name: a function, with the lines behind its `func`, or another
variable. -/
inductive Binding where
  | func (body : List Text)
  | value

abbrev Env := Text → Option Binding

/-- What happens to a line. -/
inductive Event where
  | blank
  | skipped
  | executed (c : Command)
  /-- A call of a function of the program, outside of functions. -/
  | called (c : Command)
  /-- A call of a name that the program has not defined. -/
  | unknown (c : Command)

namespace Event

def command? : Event → Option Command
  | .blank => none
  | .skipped => none
  | .executed c => some c
  | .called c => some c
  | .unknown c => some c

end Event

/-- The name that a command defines. -/
def definedName (c : Command) : Option Text :=
  match kindOf c.command with
  | .func => some c.arg
  | .set => if (strsplit c.arg space).2.2 then some (strsplit c.arg space).1 else none
  | .seti => if (strsplit c.arg space).2.2 then some (strsplit c.arg space).1 else none
  | .create => (createArgs c.arg).map fun args => args.1
  | _ => none

/-- A command that makes a variable. -/
def Env.define (env : Env) (c : Command) : Env :=
  match definedName c with
  | none => env
  | some name => Function.update env name (some .value)

/-- The body of a function up to its `endfunc`: calls in it are refused. -/
def runBody (env : Env) : List Text → List Event × Env
  | [] => ([], env)
  | l :: rest =>
    if l = [] then (.blank :: (runBody env rest).1, (runBody env rest).2)
    else if kindOf (parse l).command = .endfunc then ([.executed (parse l)], env)
    else (.executed (parse l) :: (runBody (env.define (parse l)) rest).1,
      (runBody (env.define (parse l)) rest).2)

/-- The lines in order; those of a function are skipped where it is defined, up to its `endfunc`. -/
def runLines (env : Env) : Bool → List Text → List Event
  | _, [] => []
  | skip, l :: rest =>
    if l = [] then .blank :: runLines env skip rest
    else if skip then
      if kindOf (parse l).command = .endfunc then .executed (parse l) :: runLines env false rest
      else .skipped :: runLines env true rest
    else
      match kindOf (parse l).command with
      | .func =>
        .executed (parse l) :: runLines
          (Function.update env (parse l).arg (some (.func rest))) true rest
      | .call =>
        match env (parse l).arg with
        | some (.func body) =>
          .called (parse l) :: (runBody env body).1 ++ runLines (runBody env body).2 false rest
        | some .value => .executed (parse l) :: runLines env false rest
        | none => .unknown (parse l) :: runLines env false rest
      | _ => .executed (parse l) :: runLines (env.define (parse l)) false rest

/-- What happens in a run of a program. -/
def events (text : Text) : List Event := runLines (fun _ => none) false (text.splitOn newline)

/-- Functions are closed and not nested, every line fits, and there is no `run`, `open`, `reset` or
`free`. -/
def wellFormed : Bool → List Text → Bool
  | skip, [] => !skip
  | skip, l :: rest =>
    if l = [] then wellFormed skip rest
    else
      lineFits l &&
        match kindOf (parse l).command with
        | .free => false
        | .reset => false
        | .openFile => false
        | .run => false
        | .func => !skip && wellFormed true rest
        | .endfunc => wellFormed false rest
        | _ => wellFormed skip rest

/-- The names that a program defines. -/
def names (text : Text) : Finset Text :=
  ((text.splitOn newline).filterMap fun l => definedName (parse l)).toFinset

/-- Another widget is made. -/
def Event.creates : Event → Bool
  | .executed c => kindOf c.command = .create && (createArgs c.arg).isSome
  | _ => false

/-- The calls since the last blank line, that is how deep the loops of `cmd_call` are nested. -/
def depth : ℕ → List Event → ℕ
  | d, [] => d
  | _, .blank :: es => depth 0 es
  | d, .called _ :: es => depth (d + 1) es
  | d, _ :: es => depth d es

/-- No function is called, and no `endfunc` is executed. -/
def Calm (es : List Event) : Prop :=
  ∀ e ∈ es, (∀ c, e ≠ .called c) ∧ ∀ c, e = .executed c → kindOf c.command ≠ .endfunc

end X86Kernel.Usr
