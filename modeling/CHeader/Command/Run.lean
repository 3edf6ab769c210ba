import CHeader.Command.Arguments
import CHeader.Config
import CHeader.Console.Display

/-!
# Runs of the program

A run reads the program's settings, then the configuration, then the settings of the command, and
then does what the command says. Whatever stops it decides its exit status: 0 if help was asked for,
2 if it was used wrongly, and 1 otherwise.
-/
namespace CHeader

open Text

/-- A failure that the program has no words of its own for. -/
inductive Fault where
  | config (cause : ConfigError)
  | numeral (cause : NumeralError)
  | path (cause : PathError)
  | display (cause : Console.DisplayError)

def Fault.message : Fault → Text
  | .config cause => cause.message
  | .numeral cause => cause.message
  | .path cause => cause.message
  | .display cause => cause.message

/-- Why a run stops before its end. -/
inductive Stop where
  | help (level : Level)
  | misuse (level : Level) (cause : UsageError)
  | failure (message : Text)
  | fault (cause : Fault)

/-- What a run leaves behind. -/
structure Ending where
  status : Nat
  output : Text := []
  errors : Text := []
  log : List (LogLevel × Text) := []
  fault : Option Fault := none

namespace Ending

def ofStop : Stop → Ending
  | .help level => { status := 0, output := level.help ++ ['\n'] }
  | .misuse level cause => { status := 2, errors := cause.report level ++ ['\n'] }
  | .failure message => { status := 1, errors := "Error: ".toList ++ message ++ ['\n'] }
  | .fault cause => { status := 1, fault := some cause }

def ofOutput (output : Text) : Ending := { status := 0, output := output ++ ['\n'] }

def ofPrintout (printout : Console.Printout) : Ending :=
  match printout.failure with
  | none => { status := 0, output := printout.text }
  | some cause => { status := 1, output := printout.text, fault := some (.display cause) }

/-- The records of the events at the given levels, before those of the run so far. -/
def logged (levels : List LogLevel) (events : List Event) (ending : Ending) : Ending :=
  { ending with
    log := (events.filterMap Event.record?).filter (·.1 ∈ levels) ++ ending.log }

end Ending

namespace Command

/-! ## Checking values -/

/-- A path that can be looked up at all. -/
def checkPath (path : Text) : Except Stop Unit :=
  if '\x00' ∈ path then .error (.fault (.path .nullCharacter)) else .ok ()

def checkConfig (tree : FileTree) (path : Text) : Except Stop Unit := do
  checkPath path
  match tree.find? path with
  | some (_, .directory) => .error (.misuse .program (.configIsDirectory path))
  | _ => .ok ()

def checkIncludeDir (tree : FileTree) (level : Level) (path : Text) : Except Stop Unit := do
  checkPath path
  if tree.isFile path then .error (.misuse level (.includeDirIsFile path)) else .ok ()

/-- Check the values of one setting. -/
def checkSetting (tree : FileTree) (level : Level) (arguments : Arguments) :
    Setting → Except Stop Unit
  | .config => (arguments.value? .config).toList.forM (checkConfig tree)
  | .extractor => (arguments.value? .extractor).toList.forM fun name =>
      if (Extractor.ofName? name).isSome then .ok ()
      else .error (.misuse level (.unknownExtractor name))
  | .includeDir => (arguments.values .includeDir).forM (checkIncludeDir tree level)
  | _ => .ok ()

/-- The arguments at a level, with the values of their settings checked in the order in which the
settings were given first. A wish for help comes before any wrong value. -/
def readArguments (tree : FileTree) (level : Level) (mixed : Bool) (arguments : List Text) :
    Except Stop Arguments :=
  match Arguments.parse level.settings mixed arguments with
  | .error cause => .error (.misuse level cause)
  | .ok arguments => do
    if arguments.has .help then .error (.help level)
    (arguments.given.map Prod.fst).eraseDups.forM (checkSetting tree level arguments)
    return arguments

/-! ## Doing what a command says -/

def failureOf : ResolveError → Stop
  | .header cause => .failure cause.message
  | .circular header => .failure (circularReport header).message
  | .path cause => .fault (.path cause)

/-- The end of a run that asked the resolver for something. -/
def endingOf {α : Type} (levels : List LogLevel) (done : α → Ending) (outcome : Outcome α) :
    Ending :=
  match outcome with
  | (.ok result, s) => (done result).logged levels s.events
  | (.error cause, s) => (Ending.ofStop (failureOf cause)).logged levels s.events

def listEnding (screen : Nat) (asJson : Bool) (title : Text) (paths : List Text) : Ending :=
  if asJson then .ofOutput (JsonValue.render .ascii 0 (.strings paths))
  else .ofPrintout (Console.showPaths screen title paths)

def graphEnding (asJson : Bool) (graph : Graph) : Ending :=
  if asJson then
    .ofOutput (JsonValue.render .ascii 0 (.object (graph.map fun (node, dependencies) =>
      (node, .strings dependencies))))
  else .ofPrintout (Console.showGraph graph)

def analysisEnding (screen : Nat) (asJson : Bool) (header : Text) (analysis : Analysis) : Ending :=
  if asJson then .ofOutput analysis.toJson
  else .ofPrintout (Console.showAnalysis screen header analysis)

def runAnalyze (config : Config) (tree : FileTree) (screen : Nat) (levels : List LogLevel)
    (asJson : Bool) (header : Text) : Ending :=
  let (result, events) := config.extractor.analyze tree header
  (match result with
    | .ok analysis => analysisEnding screen asJson header analysis
    | .error (.header cause) => .ofStop (.failure cause.message)
    | .error (.numeral cause) => .ofStop (.fault (.numeral cause))).logged levels events

def noHeaders : Stop := .failure "No headers given and none configured".toList

/-- Do what a command says with the headers given, or else with those of the configuration. -/
def runWith (command : Command) (config : Config) (tree : FileTree) (screen : Nat)
    (levels : List LogLevel) (arguments : Arguments) (headers : List Text) : Ending :=
  let asJson := arguments.has .json
  let search := config.searchDirectories ++ (arguments.values .includeDir).map Path.tidy
  let resolver := config.resolver
  let given := if headers = [] then config.headerPaths else headers
  match command, headers with
  | .analyze, header :: _ => runAnalyze config tree screen levels asJson header
  | .deps, header :: _ =>
    endingOf levels (listEnding screen asJson ("Dependencies of ".toList ++ header))
      (resolver.dependencies tree header search .empty)
  | .order, _ =>
    if given = [] then .ofStop noHeaders
    else endingOf levels (listEnding screen asJson "Compilation order".toList)
      (resolver.compilationOrder tree given search .empty)
  | .graph, _ =>
    if given = [] then .ofStop noHeaders
    else endingOf levels (graphEnding asJson)
      (resolver.graph tree given search (arguments.has .all) .empty)
  | _, [] => .ofStop (.misuse (.command command) .missingHeader)

/-- Read what follows a command, and do what it says. -/
def run (command : Command) (config : Config) (tree : FileTree) (screen : Nat)
    (levels : List LogLevel) (arguments : List Text) : Ending :=
  let level := Level.command command
  let read : Except Stop (Arguments × List Text) := do
    let arguments ← readArguments tree level true arguments
    let headers := if command.takesMany then arguments.others else arguments.others.take 1
    headers.forM checkPath
    let excess := arguments.others.drop headers.length
    if !excess.isEmpty then .error (.misuse level (.unexpected excess))
    return (arguments, headers.map Path.tidy)
  match read with
  | .ok (arguments, headers) => command.runWith config tree screen levels arguments headers
  | .error stop => .ofStop stop

end Command

namespace Program

/-- The program's settings, the command, and what follows it. An unknown command that looks like a
setting is read as settings once more before it is refused. -/
def readCommand (tree : FileTree) (arguments : List Text) :
    Except Stop (Arguments × Command × List Text) := do
  if arguments.isEmpty then .error (.misuse .program .noArguments)
  let read ← Command.readArguments tree .program false arguments
  match read.others with
  | [] => .error (.misuse .program .missingCommand)
  | name :: rest =>
    match Command.ofName? name with
    | some command => return (read, command, rest)
    | none =>
      if name.head? = some '-' then
        let _ ← Command.readArguments tree .program false read.others
      .error (.misuse .program (.unknownCommand name))

section

variable {ε : Type}

/-- The configuration in the given file, or else the nearest one, or else the default. -/
def readConfig (host : Host ε) (tree : FileTree) (arguments : Arguments) :
    Except ε (Except Stop Config) :=
  let directory := FileTree.locationText tree.workingDirectory
  let found : Except ε (Except ConfigError (Option Config)) :=
    match arguments.value? .config with
    | some path => (Config.loadOn host tree path).map fun loaded => loaded.map some
    | none => Config.findOn host tree directory
  found.map fun found => do
    let config ← match found with
      | .ok config => .ok (config.getD (Config.default directory))
      | .error (.config fault path) => .error (.failure (fault.message path))
      | .error cause => .error (.fault (.config cause))
    match (arguments.value? .extractor).bind Extractor.ofName? with
    | some extractor => return { config with extractor := extractor }
    | none => return config

/-- Run the program on a file tree, for a screen of a given width. What the system raises while the
configuration is read ends the run before anything is written. -/
def runOn (host : Host ε) (tree : FileTree) (screen : Nat) (arguments : List Text) :
    Except ε Ending :=
  match readCommand tree arguments with
  | .error stop => .ok (.ofStop stop)
  | .ok (read, command, rest) =>
    (readConfig host tree read).map fun
      | .error stop => .ofStop stop
      | .ok config =>
        let levels := if read.has .verbose then [.debug, .warning] else [.warning]
        (command.run config tree screen levels rest).logged levels
          [.configured config.projectRoot config.extractor.name]

def run (tree : FileTree) (screen : Nat) (arguments : List Text) : Ending :=
  Host.settle (runOn .ample tree screen arguments)

end

end Program

end CHeader
