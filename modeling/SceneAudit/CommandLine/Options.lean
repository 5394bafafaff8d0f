import SceneAudit.CommandLine.Argument

/-! # Options

Arguments are read from left to right, and what is wrong first counts. A request for help or for the
version ends the reading at once. The project and the output directory are the two ordinary
arguments.
-/

namespace SceneAudit.CommandLine

/-- What the program is asked to do. -/
structure Options where
  project : Text
  output : Text
  config : Option Text
  policy : Option UsagePolicy
  json : Option Text
  verbose : Bool
  quiet : Bool
  deriving DecidableEq, Repr

/-- Why arguments are not read to the end. -/
inductive Stop where
  | help
  | version
  | misuse (error : UsageError)
  deriving DecidableEq, Repr

/-- What the arguments so far have given. -/
structure Draft where
  project : Option Text
  output : Option Text
  config : Option Text
  policy : Option UsagePolicy
  json : Option Text
  verbose : Bool
  quiet : Bool
  deriving DecidableEq, Repr

namespace Draft

def empty : Draft :=
  ⟨none, none, none, none, none, false, false⟩

def misuse {α : Type} (error : UsageError) : Except Stop α :=
  .error (.misuse error)

/-- Take an ordinary argument: first the project, then the output directory. -/
def addOrdinary (d : Draft) (t : Text) : Except Stop Draft :=
  match d.project, d.output with
  | none, _ =>
    if t = [] then misuse (.emptyValue "project".toList) else .ok { d with project := some t }
  | some _, none =>
    if t = [] then misuse (.emptyValue "output".toList) else .ok { d with output := some t }
  | some _, some _ => misuse (.unknown t)

def raise (d : Draft) : Flag → Except Stop Draft
  | .help => .error .help
  | .version => .error .version
  | .verbose =>
    if d.verbose then misuse (.repeated Flag.verbose.name) else .ok { d with verbose := true }
  | .quiet =>
    if d.quiet then misuse (.repeated Flag.quiet.name) else .ok { d with quiet := true }

def checkPath (old : Option Text) (s : Setting) (value : Text) : Except Stop Text :=
  if old.isSome then misuse (.repeated s.name)
  else if value = [] then misuse (.emptyValue s.name)
  else .ok value

/-- Take a setting with its value. -/
def assign (d : Draft) (s : Setting) (value : Text) : Except Stop Draft :=
  match s with
  | .config => do
    let path ← checkPath d.config s value
    return { d with config := some path }
  | .json => do
    let path ← checkPath d.json s value
    return { d with json := some path }
  | .policy =>
    if d.policy.isSome then misuse (.repeated s.name)
    else match UsagePolicy.ofWord? value with
      | some policy => .ok { d with policy := some policy }
      | none => misuse (.notAPolicy value)

/-- The value that follows a setting in its own argument, from the text behind its letter. -/
def attached? : Text → Option Text
  | [] => none
  | '=' :: value => some value
  | value => some value

/-- Take the letters of one argument. A setting takes the letters behind it as its value; one
without any is returned, for its value is the next argument. -/
def addLetters (d : Draft) : Text → Except Stop (Draft × Option Setting)
  | [] => .ok (d, none)
  | c :: rest =>
    match Switch.ofLetter? c with
    | none => misuse (.unknown ['-', c])
    | some (.flag f) => do
      let d ← d.raise f
      addLetters d rest
    | some (.setting s) =>
      match attached? rest with
      | none => .ok (d, some s)
      | some value => do
        let d ← d.assign s value
        return (d, none)

/-- Take a long argument. A setting without a value is returned, for its value is the next
argument. -/
def addLong (d : Draft) (name : Text) (value : Option Text) :
    Except Stop (Draft × Option Setting) :=
  match Switch.ofName? name, value with
  | none, _ => misuse (.unknown ('-' :: '-' :: name))
  | some (.flag f), none => do
    let d ← d.raise f
    return (d, none)
  | some (.flag f), some _ => misuse (.unexpectedValue f)
  | some (.setting s), none => .ok (d, some s)
  | some (.setting s), some value => do
    let d ← d.assign s value
    return (d, none)

def addAllOrdinary (d : Draft) : List Text → Except Stop Draft
  | [] => .ok d
  | t :: rest => do
    let d ← d.addOrdinary t
    addAllOrdinary d rest

/-- Take arguments; `waiting` is the setting that has yet to get its value. -/
def addAll (d : Draft) (waiting : Option Setting) : List Text → Except Stop Draft
  | [] =>
    match waiting with
    | none => .ok d
    | some s => misuse (.missingValue s)
  | t :: rest =>
    match waiting, Argument.ofText t with
    | some s, .ordinary value => do
      let d ← d.assign s value
      addAll d none rest
    | some s, _ => misuse (.missingValue s)
    | none, .ordinary value => do
      let d ← d.addOrdinary value
      addAll d none rest
    | none, .separator => addAllOrdinary d rest
    | none, .short letters => do
      let (d, waiting) ← d.addLetters letters
      addAll d waiting rest
    | none, .long name value => do
      let (d, waiting) ← d.addLong name value
      addAll d waiting rest

def finish (d : Draft) : Except Stop Options :=
  match d.project, d.output with
  | none, _ => misuse (.missingArgument "PROJECT".toList)
  | some _, none => misuse (.missingArgument "OUTPUT".toList)
  | some project, some output =>
    .ok ⟨project, output, d.config, d.policy, d.json, d.verbose, d.quiet⟩

end Draft

def Options.ofArguments (arguments : List Text) : Except Stop Options := do
  let d ← Draft.empty.addAll none arguments
  d.finish

end SceneAudit.CommandLine
