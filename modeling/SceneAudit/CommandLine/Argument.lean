import SceneAudit.Usage.Policy

/-! # Arguments

The forms that an argument can take, the switches of the program, and the ways in which arguments
can be wrong. A single `-` is an ordinary argument.
-/

namespace SceneAudit.CommandLine

/-- The form of one argument. -/
inductive Argument where
  /-- Two dashes, after which every argument is ordinary. -/
  | separator
  /-- Two dashes and a name, and perhaps a value behind an equals sign. -/
  | long (name : Text) (value : Option Text)
  /-- One dash and letters. -/
  | short (letters : Text)
  | ordinary (text : Text)
  deriving DecidableEq, Repr

def Argument.ofLong (body : Text) : Argument :=
  match Text.cutAt? ['='] body with
  | some (name, value) => .long name (some value)
  | none => .long body none

def Argument.ofText : Text → Argument
  | ['-', '-'] => .separator
  | '-' :: '-' :: body => .ofLong body
  | '-' :: c :: letters => .short (c :: letters)
  | t => .ordinary t

/-- A switch that stands alone. -/
inductive Flag where
  | verbose
  | quiet
  | help
  | version
  deriving DecidableEq, Repr

/-- A switch that takes a value. -/
inductive Setting where
  | config
  | policy
  | json
  deriving DecidableEq, Repr

/-- A switch of the program. -/
inductive Switch where
  | flag (f : Flag)
  | setting (s : Setting)
  deriving DecidableEq, Repr

def Flag.name : Flag → Text
  | .verbose => "verbose".toList
  | .quiet => "quiet".toList
  | .help => "help".toList
  | .version => "version".toList

def Setting.name : Setting → Text
  | .config => "config".toList
  | .policy => "policy".toList
  | .json => "json".toList

namespace Switch

def all : List Switch :=
  [.flag .verbose, .flag .quiet, .flag .help, .flag .version, .setting .config, .setting .policy,
    .setting .json]

def name : Switch → Text
  | .flag f => f.name
  | .setting s => s.name

def letter? : Switch → Option Char
  | .flag .verbose => some 'v'
  | .flag .quiet => some 'q'
  | .flag .help => some 'h'
  | .flag .version => some 'V'
  | .setting .config => some 'c'
  | .setting .policy => none
  | .setting .json => none

def ofName? (name : Text) : Option Switch :=
  all.find? fun s => s.name = name

def ofLetter? (c : Char) : Option Switch :=
  all.find? fun s => s.letter? = some c

end Switch

/-- What is wrong with the arguments. -/
inductive UsageError where
  | unknown (argument : Text)
  | missingValue (setting : Setting)
  | unexpectedValue (flag : Flag)
  | emptyValue (name : Text)
  | notAPolicy (word : Text)
  | repeated (name : Text)
  | missingArgument (name : Text)
  deriving DecidableEq, Repr

def UsageError.message : UsageError → Text
  | .unknown argument => "unexpected argument '".toList ++ argument ++ "' found".toList
  | .missingValue setting =>
    "a value is required for '--".toList ++ setting.name ++ "' but none was given".toList
  | .unexpectedValue flag => "'--".toList ++ flag.name ++ "' takes no value".toList
  | .emptyValue name => "the value of '".toList ++ name ++ "' is empty".toList
  | .notAPolicy word => "'".toList ++ word ++ "' is no usage policy".toList
  | .repeated name => "the argument '--".toList ++ name ++ "' is given twice".toList
  | .missingArgument name => "the argument '<".toList ++ name ++ ">' is missing".toList

end SceneAudit.CommandLine
