import TrafficGraph.Command.Run
import TrafficGraph.Http.Answer

/-!
# The program

The outer layer: it looks at the environment and at the files that the
arguments and the settings name, carries out the command, and prints what has
come of it.  A service reads its requests from the standard input, one a line:
the method, the target and the body, with a blank between them.
-/

namespace TrafficGraph
namespace Program

def variableNames : List String :=
  ["HOME", "XDG_CONFIG_HOME", "NETPOLGRAPH_DEDUPLICATE", "NETPOLGRAPH_WEB_PORT"]

def waypoints (path : String) : List String :=
  let parts := Text.pieces '/' path.toList
  (List.range parts.length).map fun i =>
    String.ofList (Text.joinPieces '/' (parts.take (i + 1)))

def readEnvironment : IO Environment :=
  variableNames.filterMapM fun name => do
    return (← IO.getEnv name).map fun value => (name, value)

def look (tree : FileTree) (path : String) : IO FileTree := do
  if path.isEmpty then return tree
  try
    let real ← IO.FS.realPath path
    if ← real.isDir then return tree.put (tree.placeOf path) .directory
    let bytes ← IO.FS.readBinFile path
    return tree.put (tree.placeOf path) (.file bytes.toList)
  catch _ => return tree

def lookAlong (tree : FileTree) (path : String) : IO FileTree :=
  (waypoints path).foldlM look tree

def lookInto (tree : FileTree) (directory : Path) : IO FileTree := do
  let tree ← lookAlong tree directory.text
  try
    let real ← IO.FS.realPath directory.text
    let names := (← real.readDir).toList.map fun entry => entry.fileName
    (names.filter fun name => Settings.isPolicyName name.toList).foldlM
      (fun tree name => look tree (directory.child name).text) tree
  catch _ => return tree

def readTree (environment : Environment) (arguments : List String) : IO FileTree := do
  let here ← IO.currentDir
  let parts := (Text.pieces '/' here.toString.toList).filter fun part => !part.isEmpty
  let tree ← arguments.foldlM lookAlong (.empty parts)
  match Settings.configDirOf environment with
  | .ok directory => lookInto tree (directory.child "policies")
  | .error _ => return tree

def requestOf (line : String) : Http.Request :=
  let cs := line.toList.filter fun c => c != '\n'
  let method := cs.takeWhile (· != ' ')
  let rest := (cs.dropWhile (· != ' ')).drop 1
  let target := rest.takeWhile (· != ' ')
  let body := (rest.dropWhile (· != ' ')).drop 1
  ⟨String.ofList method, String.ofList target, String.ofList body⟩

def replyLine (reply : Http.Reply) : String :=
  let body :=
    match reply with
    | .answer _ doc => (Json.compact doc).toOption.getD ""
    | .failure _ => ""
  toString reply.status ++ " " ++ body

/-- Reply to every line of the input. -/
partial def serve (deduplicate : Bool) (input output : IO.FS.Stream) : IO Unit := do
  let line ← input.getLine
  if line.isEmpty then return
  output.putStrLn (replyLine (Http.reply deduplicate (requestOf line)))
  output.flush
  serve deduplicate input output

def report (outcome : Outcome) : IO Unit := do
  for event in outcome.journal do
    IO.eprintln ("[" ++ event.level.name ++ "] " ++ event.source ++ ": " ++ event.message)
  for notice in outcome.console do
    IO.eprintln notice.plain
  if outcome.status = Outcome.usageStatus then IO.eprint HelpTopic.program.text
  IO.print outcome.output
  match outcome.fault with
  | some fault => IO.eprintln ("error: " ++ (fault.message?.getD "the input cannot be processed"))
  | none => return

end Program
end TrafficGraph

open TrafficGraph in
def main (arguments : List String) : IO UInt32 := do
  let environment ← Program.readEnvironment
  let tree ← Program.readTree environment arguments
  let outcome := Invocation.runArguments environment tree arguments
  Program.report outcome
  for service in outcome.services do
    Program.serve service.deduplicate (← IO.getStdin) (← IO.getStdout)
  return UInt32.ofNat outcome.status
