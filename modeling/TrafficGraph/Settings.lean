import TrafficGraph.FileTree
import TrafficGraph.Text.Lines
import TrafficGraph.Text.Characters
import TrafficGraph.Text.Numeral

/-!
# Settings

Settings come from variables of the environment, with defaults for those that
are missing or empty.  The directory for policies is used if it is there, and
the files in it whose names end in one of three ways are policy files.
-/

namespace TrafficGraph

abbrev Environment := List (String × String)

def Environment.get? (environment : Environment) (name : String) : Option String :=
  (List.find? (fun entry => entry.1 == name) environment).map Prod.snd

def Environment.filled? (environment : Environment) (name : String) : Option String :=
  (environment.get? name).filter fun value => value != ""

structure Settings where
  configDir : Path
  policyDirs : List Path
  deduplicate : Bool
  webHost : String
  webPort : Int
  verbose : Bool

namespace Settings

def programName : String := "netpolgraph"

/-- The host that the interface for programs is bound to, and no other one. -/
def localHost : String := "127.0.0.1"

/-- The port that the interface for programs listens on, unless another one is set. -/
def defaultPort : Int := 8480

/-- The home directory: without slashes at its end, and the root if nothing is
left.  A tilde at its front would have to be looked up elsewhere. -/
def homeDir (environment : Environment) : Except Fault Path :=
  let given := ((environment.get? "HOME").getD "").toList
  match (given.reverse.dropWhile (· == '/')).reverse with
  | [] => .ok (.ofString "/")
  | '~' :: _ => .error .noHome
  | cs => .ok (.ofChars cs)

def configDirOf (environment : Environment) : Except Fault Path :=
  match environment.filled? "XDG_CONFIG_HOME" with
  | some directory => .ok ((Path.ofString directory).child programName)
  | none => (homeDir environment).map fun home => (home.child ".config").child programName

def offWords : List String := ["0", "false", "no", "off"]

/-- Whether a word switches something off, whatever its case and the blanks
around it. -/
def isOff (word : String) : Bool :=
  offWords.contains (String.ofList ((Text.trim word.toList).map Char.toLower))

def deduplicateOf (environment : Environment) : Bool :=
  match environment.filled? "NETPOLGRAPH_DEDUPLICATE" with
  | some word => !isOff word
  | none => true

def webPortOf (environment : Environment) : Except Fault Int :=
  match environment.filled? "NETPOLGRAPH_WEB_PORT" with
  | none => .ok defaultPort
  | some word =>
    match Text.readInt? 10 word.toList with
    | some port => .ok port
    | none => .error (.notAnInteger word)

def load (environment : Environment) (tree : FileTree) : Except Fault Settings := do
  let configDir ← configDirOf environment
  let webPort ← webPortOf environment
  let policyDir := configDir.child "policies"
  return {
    configDir := configDir
    policyDirs := if tree.isDirectory policyDir.text then [policyDir] else []
    deduplicate := deduplicateOf environment
    webHost := localHost
    webPort := webPort
    verbose := false }

def policyEndings : List String := [".yaml", ".yml", ".json"]

def isPolicyName (name : List Char) : Bool :=
  policyEndings.any fun ending => ending.toList.isSuffixOf name

def policyFilesIn (tree : FileTree) (directory : Path) : List Path :=
  let names := (tree.names directory.text).filter isPolicyName
  (Sorting.sort (fun a b => decide (a < b)) names).map fun name =>
    directory.child (String.ofList name)

def policyFiles (settings : Settings) (tree : FileTree) : List Path :=
  settings.policyDirs.flatMap (policyFilesIn tree)

end Settings
end TrafficGraph
