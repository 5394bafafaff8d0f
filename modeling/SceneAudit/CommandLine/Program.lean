import SceneAudit.Audit.Run
import SceneAudit.CommandLine.Options
import SceneAudit.Config.Load
import SceneAudit.Report.Publish

/-! # The program

From arguments and a file tree to what is printed, what is written and the exit status. Arguments
are checked first, then the project, then the configuration; the audit and the publication of its
report come last.
-/

namespace SceneAudit.CommandLine

/-- Why a run that was asked for fails. -/
inductive ProgramError where
  | config (error : Config.LoadError)
  | run (error : RunError)
  | publish (error : PublishError)
  deriving DecidableEq, Repr

def ProgramError.message : ProgramError → Text
  | .config error => error.message
  | .run error => error.message
  | .publish error => error.message

/-- A run that came to its end. -/
structure Finished where
  report : AuditReport
  /-- The lines of the report for the terminal. -/
  lines : Text
  csvPath : Text
  quiet : Bool
  deriving Repr

/-- How the program ends. -/
inductive Ending where
  | help
  | version
  | misuse (error : UsageError)
  | failed (error : ProgramError)
  | finished (run : Finished)
  deriving Repr

/-- The configuration of a run: that of the file that the options name or of the project, with the
policy of the options in place of its own. -/
def Options.configuration (o : Options) (tree : FileTree) : Except Config.LoadError Config :=
  let found := match o.config with
    | some path => Config.load tree path
    | none => Config.ofProject tree o.project
  match found with
  | .error e => .error e
  | .ok config =>
    .ok { config with
      usage := { config.usage with policy := o.policy.getD config.usage.policy } }

def Options.publication (o : Options) (config : Config) (color : Bool) : Publication where
  csvPath := Path.join o.output config.report.csvName
  jsonPath := o.json
  terminal := !o.quiet
  color := color

def Options.audit (o : Options) (tree : FileTree) (config : Config) (color : Bool) :
    FileTree × Ending :=
  match Audit.run tree config o.project o.output with
  | .error e => (tree, .failed (.run e))
  | .ok (tree, report) =>
    let publication := o.publication config color
    match publication.publish tree o.project report with
    | (tree, .error e) => (tree, .failed (.publish e))
    | (tree, .ok lines) => (tree, .finished ⟨report, lines, publication.csvPath, o.quiet⟩)

def Options.perform (o : Options) (tree : FileTree) (color : Bool) : FileTree × Ending :=
  if !tree.pathExists o.project then (tree, .failed (.run (.projectNotFound o.project)))
  else match o.configuration tree with
    | .error e => (tree, .failed (.config e))
    | .ok config => o.audit tree config color

/-- Run the program. -/
def run (tree : FileTree) (color : Bool) (arguments : List Text) : FileTree × Ending :=
  match Options.ofArguments arguments with
  | .error .help => (tree, .help)
  | .error .version => (tree, .version)
  | .error (.misuse e) => (tree, .misuse e)
  | .ok options => options.perform tree color

/-- How the program is called. -/
def usage : Text :=
  Text.unlines (["Find unused scripts and dump scene hierarchies", "",
    "Usage: scriptsweep [OPTIONS] <PROJECT> <OUTPUT>", "",
    "Arguments:",
    "  <PROJECT>  Path to the project",
    "  <OUTPUT>   Directory for the hierarchy dumps and the summary of unused scripts", "",
    "Options:",
    "  -c, --config <CONFIG>  Path to a configuration file",
    "      --policy <POLICY>  Usage policy: preserve or strict",
    "      --json <FILE>      Also write a JSON report to this file",
    "  -v, --verbose          Verbose output",
    "  -q, --quiet            Quiet mode - only errors",
    "  -h, --help             Print help",
    "  -V, --version          Print version"].map String.toList)

def Finished.closingLine (f : Finished) (color : Bool) (elapsed : Text) : Text :=
  Terminal.paint color .dimmed
    ("Wrote ".toList ++ Text.ofNat f.report.scenesProcessed ++ " hierarchy dumps and ".toList ++
      f.csvPath ++ " in ".toList ++ elapsed ++ ['s'])

namespace Ending

def status : Ending → Nat
  | .help => 0
  | .version => 0
  | .misuse _ => 2
  | .failed _ => 1
  | .finished _ => 0

def output (color : Bool) (elapsed : Text) : Ending → Text
  | .help => usage
  | .version => "scriptsweep ".toList ++ JsonReport.version ++ ['\n']
  | .misuse _ => []
  | .failed _ => []
  | .finished f =>
    f.lines ++ (if f.quiet then [] else f.closingLine color elapsed ++ ['\n'])

def complaint : Ending → Text
  | .misuse e => "error: ".toList ++ e.message ++ ['\n']
  | .failed e => "error: ".toList ++ e.message ++ ['\n']
  | _ => []

end Ending

end SceneAudit.CommandLine
