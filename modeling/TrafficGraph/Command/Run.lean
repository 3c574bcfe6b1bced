import TrafficGraph.Command.Basic
import TrafficGraph.Command.Display
import TrafficGraph.Json.Printer
import TrafficGraph.Policy.Manifest
import TrafficGraph.Settings

/-!
# Running a command

Running a command with an environment and a file tree gives an outcome: the
exit status, what is printed, what is shown on the console, the events on the
way, and a fault that was not told to the user in words.

Files are read with any way of decoding a document, and notices are shown on any
console; `run` uses YAML and a console that can show everything.
-/

namespace TrafficGraph

/-- A request to serve the interface for programs. -/
structure Service where
  host : String
  port : Int
  deduplicate : Bool
  deriving DecidableEq, Repr

structure Outcome where
  status : Nat
  output : String
  console : List Notice
  journal : Journal
  fault : Option Fault
  services : List Service

/-- Which notices a console can show. -/
abbrev Console := Notice → Bool

namespace Outcome

def success : Outcome := ⟨0, "", [], [], none, []⟩

def printed (text : String) : Outcome := { success with output := text }

def usageStatus : Nat := 2

def misuse : Outcome := { success with status := usageStatus }

def refused (text : Styled) : Outcome := { success with status := 1, console := [.line text] }

def failed (fault : Fault) : Outcome := { success with status := 1, fault := some fault }

/-- An outcome on a console.  A notice that the console cannot show ends the command. -/
def shownOn (console : Console) (outcome : Outcome) : Outcome :=
  if outcome.console.all console then outcome
  else
    { outcome with
      status := 1
      console := outcome.console.takeWhile console
      fault := some .badMarkup
      services := [] }

def after (journal : Journal) (outcome : Outcome) : Outcome :=
  { outcome with journal := journal ++ outcome.journal }

def ofExcept : Except Fault Outcome → Outcome
  | .ok outcome => outcome
  | .error fault => failed fault

end Outcome

/-- The policies of some files, the events of reading them, and the outcome that
the reading ends in if a file is faulty. -/
structure FileLoading where
  policies : List Policy
  journal : Journal
  refusal : Option Outcome

namespace FileLoading

def refusalLine (path : String) (index : Nat) (message : String) : Styled :=
  [.styled .red (path ++ ": " ++ Fault.documentMessage index message)]

/-- What a fault in a file means to the user: a message if a document is not
valid. -/
def refusalOf (path : String) : Fault → Outcome
  | .invalidDocument index message => .refused (refusalLine path index message)
  | fault => .failed fault

def ofFile (decode : Manifest.Decoder) (tree : FileTree) (path : String) : FileLoading :=
  match tree.read (Path.ofString path).text with
  | .error fault => ⟨[], [], some (.failed fault)⟩
  | .ok bytes =>
    let loading := Manifest.loadBytesWith decode bytes
    ⟨loading.policies, loading.journal, loading.fault.map (refusalOf path)⟩

/-- One reading in front of another.  What follows a refusal is not read. -/
def append (first second : FileLoading) : FileLoading :=
  match first.refusal with
  | some _ => first
  | none =>
    ⟨first.policies ++ second.policies, first.journal ++ second.journal, second.refusal⟩

def ofFiles (decode : Manifest.Decoder) (tree : FileTree) : List String → FileLoading
  | [] => ⟨[], [], none⟩
  | path :: rest => (ofFile decode tree path).append (ofFiles decode tree rest)

end FileLoading

namespace Graph

def jsonText (graph : Graph) : Except Fault String := do
  let doc ← graph.toValue
  match Json.indented doc with
  | .ok text => return text ++ "\n"
  | .error fault => throw (.unwritable fault)

def outcome (graph : Graph) (json : Bool) : Outcome :=
  .ofExcept <|
    if json then graph.jsonText.map Outcome.printed
    else graph.display.map fun notices => { Outcome.success with console := notices }

end Graph

namespace GraphRequest

/-- The files that a request is about: those it names, or else the policy files
of the settings. -/
def paths (request : GraphRequest) (settings : Settings) (tree : FileTree) : List String :=
  if request.files.isEmpty then (settings.policyFiles tree).map Path.text else request.files

def display (request : GraphRequest) (settings : Settings) (policies : List Policy) : Outcome :=
  let deduplicate := settings.deduplicate && request.shared
  let graph := request.shown.apply (Graph.compile deduplicate policies)
  (graph.outcome request.json).after (Graph.compileJournal deduplicate policies)

def runWith (decode : Manifest.Decoder) (request : GraphRequest) (settings : Settings)
    (tree : FileTree) : Outcome :=
  match request.paths settings tree with
  | [] => .refused [.styled .red "No policy files given."]
  | paths =>
    let loading := FileLoading.ofFiles decode tree paths
    (loading.refusal.getD (request.display settings loading.policies)).after loading.journal

end GraphRequest

namespace Service

def banner (service : Service) : List Notice :=
  [.line [.styled .bold Settings.programName, .plain " API starting on ",
      .styled .cyan ("http://" ++ service.host ++ ":" ++ toString service.port)],
    .line [.plain "  ", .styled .dim ("Bound to " ++ Settings.localHost ++ " only"), .plain "\n"]]

/-- The service that settings ask for, on another port if one is given. -/
def ofSettings (settings : Settings) (port : Option Int) : Service :=
  ⟨settings.webHost, port.getD settings.webPort, settings.deduplicate⟩

end Service

namespace HelpTopic

def text : HelpTopic → String
  | .program =>
    "Usage: netpolgraph [OPTIONS] COMMAND [ARGS]...\n\n" ++
    "  netpolgraph — see which workloads your NetworkPolicies let talk.\n\n" ++
    "Options:\n" ++
    "  --version      Show the version and exit.\n" ++
    "  -v, --verbose  Enable verbose output.\n" ++
    "  --help         Show this message and exit.\n\n" ++
    "Commands:\n" ++
    "  graph   Compile NetworkPolicy documents into a traffic graph.\n" ++
    "  server  Start the netpolgraph HTTP API.\n"
  | .graph =>
    "Usage: netpolgraph graph [OPTIONS] [FILES]...\n\n" ++
    "  Compile NetworkPolicy documents into a traffic graph.\n\n" ++
    "Options:\n" ++
    "  --no-dedup                      Keep one node per policy instead of merging\n" ++
    "                                  identical selectors.\n" ++
    "  -d, --direction [all|ingress|egress]\n" ++
    "                                  Only show links flowing in this direction.\n" ++
    "  --json                          Print the graph as JSON.\n" ++
    "  --help                          Show this message and exit.\n"
  | .server =>
    "Usage: netpolgraph server [OPTIONS]\n\n" ++
    "  Start the netpolgraph HTTP API.\n\n" ++
    "Options:\n" ++
    "  --port INTEGER  Port to listen on (default: 8480).\n" ++
    "  --help          Show this message and exit.\n"

end HelpTopic

def programVersion : String := "0.1.0"

namespace Command

def withSettings (environment : Environment) (tree : FileTree) (outcome : Settings → Outcome) :
    Outcome :=
  .ofExcept ((Settings.load environment tree).map outcome)

def outcomeWith (decode : Manifest.Decoder) (environment : Environment) (tree : FileTree) :
    Command → Outcome
  | .version => .printed (Settings.programName ++ ", version " ++ programVersion ++ "\n")
  | .help topic => .printed topic.text
  | .graph request =>
    withSettings environment tree fun settings => request.runWith decode settings tree
  | .server port =>
    withSettings environment tree fun settings =>
      let service := Service.ofSettings settings port
      { Outcome.success with console := service.banner, services := [service] }

def runWith (decode : Manifest.Decoder) (console : Console) (environment : Environment)
    (tree : FileTree) (command : Command) : Outcome :=
  (command.outcomeWith decode environment tree).shownOn console

def run (environment : Environment) (tree : FileTree) (command : Command) : Outcome :=
  command.runWith Manifest.yaml (fun _ => true) environment tree

end Command

namespace Invocation

def level (invocation : Invocation) : Level :=
  if invocation.verbose then .debug else .warning

def run (environment : Environment) (tree : FileTree) (invocation : Invocation) : Outcome :=
  let outcome := invocation.command.run environment tree
  { outcome with journal := outcome.journal.atLeast invocation.level }

def runArguments (environment : Environment) (tree : FileTree) (arguments : List String) :
    Outcome :=
  match ofArguments? tree arguments with
  | some invocation => invocation.run environment tree
  | none => .misuse

end Invocation
end TrafficGraph
