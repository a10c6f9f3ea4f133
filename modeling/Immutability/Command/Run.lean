import Immutability.Command.Line
import Immutability.Config.Toml
import Immutability.Discovery
import Immutability.Explanation
import Immutability.Graph.Fingerprint
import Immutability.Lookup
import Immutability.Report.Json
import Immutability.Report.Markdown

/-! Running a command.

    A run reads and writes files through `Files` and ends in an outcome: its exit status and what is
    printed. Files are written before anything is printed, and a run that fails prints nothing but the
    failure. -/

namespace Immutability

/-- How a run ended. -/
structure Outcome where
  status : UInt32 := 0
  stdout : String := ""
  stderr : String := ""
  deriving DecidableEq

/-- The outcome of a failure, after what has been said before it. -/
def Outcome.failure (said text : String) : Outcome :=
  { status := 1, stderr := said ++ "Error: " ++ text ++ "\n" }

/-- What a run is given besides its command: whether the terminal shows colours, and the time. -/
structure Surroundings where
  color : Bool
  now : String

variable {m : Type → Type} [Monad m] [Files m]

/-! ### Configuration -/

/-- Why there is no configuration. -/
inductive ConfigError where
  | unreadable (cause : FileError)
  | unparsable (fault : Fault)
  deriving DecidableEq

/-- The wording of an error. -/
def ConfigError.message : ConfigError → String
  | unreadable cause => "IO error: " ++ cause.message
  | unparsable fault => "Parse error: " ++ fault.message

/-- The configuration of a text. -/
def Config.ofText (s : String) : Except ConfigError Config :=
  match Config.ofToml s with
  | .error fault => .error (.unparsable fault)
  | .ok c => .ok c

/-- The configuration of a file. -/
def Config.ofFile (path : String) : m (Except ConfigError Config) := do
  match ← Files.read path with
  | .error cause => return .error (.unreadable cause)
  | .ok text => return Config.ofText text

/-- The configuration of the named file, or of the usual one if it is there. -/
def Config.find (path : Option String) : m (Except ConfigError Config) := do
  match path with
  | some path => Config.ofFile path
  | none =>
    if ← Files.present Config.fileName then Config.ofFile Config.fileName else return .ok .default

/-- Makes a file hold a configuration. -/
def Config.save (c : Config) (path : String) : m (Except ConfigError Unit) := do
  match ← Files.write path c.toToml with
  | .error cause => return .error (.unreadable cause)
  | .ok () => return .ok ()

/-! ### Checking -/

/-- What a report of a run says of the graph. -/
def runMetadata (g : TypeGraph) (o : Verification) : Json :=
  .table [("graph_fingerprint", .text g.fingerprint), ("producer", .ofText? g.metadata.producer),
    ("skipped", .sequence (o.skipped.map .text)), ("types", .integer g.size)]

/-- The report of a run. -/
def runReport (now : String) (g : TypeGraph) (o : Verification) : Report :=
  (o.toReport now).withMetadata (runMetadata g o)

/-- What a run says of its progress if it is asked for detail. -/
structure Progress where
  color : Bool
  verbose : Bool

/-- Something to say if the run is asked for detail. -/
def Progress.say (p : Progress) (text : String) : String := if p.verbose then text else ""

/-- What is said before documents are loaded. -/
def Progress.loading (p : Progress) : String :=
  p.say (styled p.color .cyan "Loading type graph..." ++ "\n")

/-- What is said of a run over a graph. -/
def Progress.checked (p : Progress) (g : TypeGraph) (o : Verification) : String :=
  p.say (styled p.color .cyan "Loaded" ++ " " ++ toString g.size ++ " types\n"
    ++ String.join (o.skipped.map fun name => "  " ++ styled p.color .yellow "Skipped" ++ " " ++ name
      ++ "\n")
    ++ "Checked " ++ toString o.elementsChecked ++ " annotated elements ("
    ++ toString o.classesVerified ++ " classes, " ++ toString o.fieldsClassified ++ " fields)\n")

/-- What is said of a file that has been written. -/
def Progress.saved (p : Progress) (label path : String) : String :=
  p.say (styled p.color .green label ++ " " ++ path ++ "\n")

/-- Makes a file hold the Markdown of a report, if a path is given, and tells what is said of it. -/
def saveMarkdown (p : Progress) (r : Report) : Option String → m (Except FileError String)
  | none => return .ok ""
  | some path => do
    match ← Files.write path r.markdown with
    | .error e => return .error e
    | .ok () => return .ok (p.saved "Markdown report saved to:" path)

/-- Writes the files of a report and shows it. -/
def publish (s : Surroundings) (p : Progress) (said : String) (r : Report) (output : String)
    (markdown : Option String) : m Outcome := do
  match ← Files.write output r.text with
  | .error e => return .failure said e.message
  | .ok () =>
    let said := said ++ p.saved "Report saved to:" output
    match ← saveMarkdown p r markdown with
    | .error e => return .failure said e.message
    | .ok more =>
      return { status := if r.hasErrors then 1 else 0, stdout := r.screen s.color,
               stderr := said ++ more }

/-- Verifies the documents at paths and reports the outcome. -/
def runCheck (s : Surroundings) (c : Config) (verbose : Bool) (paths : List String) (output : String)
    (markdown : Option String) : m Outcome := do
  let p : Progress := ⟨s.color, verbose⟩
  match ← loadPaths paths with
  | .error e => return .failure p.loading ("Failed to load type graph: " ++ e.message)
  | .ok g =>
    let o := (Verifier.ofConfig c).verify g
    publish s p (p.loading ++ p.checked g o) (runReport s.now g o) output markdown

/-! ### Other commands -/

/-- Explains a type of the documents at a path. -/
def runExplain (s : Surroundings) (c : Config) (path typeName : String) : m Outcome := do
  match ← loadPaths [path] with
  | .error e => return .failure "" ("Failed to load type graph: " ++ e.message)
  | .ok g =>
    match g.find typeName with
    | .error e => return .failure "" e.message
    | .ok t => return { stdout := explain s.color c g t }

/-- Lists the known types. -/
def runRegistry (s : Surroundings) (c : Config) : Outcome :=
  let r := c.registry
  { stdout := styled s.color .bold "Known immutable types:" ++ "\n"
      ++ String.join (r.toList.map fun id => "  - " ++ id ++ "\n")
      ++ "\n" ++ toString r.size ++ " types\n" }

/-- Runs an invocation. -/
def run (s : Surroundings) (i : Invocation) : m Outcome := do
  match ← Config.find i.config with
  | .error e => return .failure "" e.message
  | .ok c =>
    match i.command with
    | .check paths output markdown => runCheck s c i.verbose paths output markdown
    | .explain path typeName => runExplain s c path typeName
    | .registry => return runRegistry s c

/-- The name and version of the program. -/
def versionText : String := "immutcheck 0.1.0\n"

/-- How the program is used. -/
def usageText : String :=
  "Usage: immutcheck [OPTIONS] <COMMAND>\n\n"
    ++ "Commands:\n"
    ++ "  check <PATHS>...         Verify every type and field carrying the marker\n"
    ++ "  explain <PATH> <TYPE>    Show how each field of a type is classified\n"
    ++ "  registry                 List the effective known-immutable registry\n\n"
    ++ "Options:\n"
    ++ "  -c, --config <CONFIG>      Path to config file (default: immutcheck.toml)\n"
    ++ "  -v, --verbose              Enable verbose output\n"
    ++ "  -o, --output <OUTPUT>      Output file of check (default: report.json)\n"
    ++ "  -m, --markdown <MARKDOWN>  Also output markdown report of check\n"
    ++ "  -h, --help                 Print help\n"
    ++ "  -V, --version              Print version\n"

/-- Runs a command line. -/
def runLine (s : Surroundings) (args : List String) : m Outcome :=
  match CommandLine.parse args with
  | .ok i => run s i
  | .error .version => return { stdout := versionText }
  | .error .help => return { stdout := usageText }
  | .error .misuse => return { status := 2, stderr := usageText }

end Immutability
