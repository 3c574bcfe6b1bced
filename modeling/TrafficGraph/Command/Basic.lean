import TrafficGraph.Command.Options
import TrafficGraph.FileTree
import TrafficGraph.Graph.Basic
import TrafficGraph.Text.Numeral

/-!
# Commands

The program has two commands: one compiles policy files into a graph and shows
it, the other one serves the interface for programs.  Arguments that are not in
order make no invocation.  Asking for help or for the version takes precedence
over everything that is wrong with the values of other options.
-/

namespace TrafficGraph

inductive HelpTopic where
  | program
  | graph
  | server
  deriving DecidableEq, Repr

structure GraphRequest where
  files : List String
  /-- Whether policies may share nodes and links. -/
  shared : Bool
  shown : DirectionFilter
  json : Bool
  deriving DecidableEq, Repr

inductive Command where
  | version
  | help (topic : HelpTopic)
  | graph (request : GraphRequest)
  | server (port : Option Int)
  deriving DecidableEq, Repr

/-- A command, and whether everything worth noting is told. -/
structure Invocation where
  verbose : Bool
  command : Command
  deriving DecidableEq, Repr

namespace Command

inductive ProgramOption where
  | verbose
  | version
  | help
  deriving DecidableEq, Repr

inductive GraphOption where
  | noDedup
  | direction (word : String)
  | json
  | help
  deriving DecidableEq, Repr

inductive ServerOption where
  | port (word : String)
  | help
  deriving DecidableEq, Repr

def programForms : List (OptionForm ProgramOption) :=
  [⟨"version", none, .flag .version⟩, ⟨"verbose", some 'v', .flag .verbose⟩,
    ⟨"help", none, .flag .help⟩]

def graphForms : List (OptionForm GraphOption) :=
  [⟨"no-dedup", none, .flag .noDedup⟩, ⟨"direction", some 'd', .value .direction⟩,
    ⟨"json", none, .flag .json⟩, ⟨"help", none, .flag .help⟩]

def serverForms : List (OptionForm ServerOption) :=
  [⟨"port", none, .value .port⟩, ⟨"help", none, .flag .help⟩]

/-- The words for which links are shown; all links without such a word. -/
def directionWords (options : List GraphOption) : List String :=
  options.filterMap fun option =>
    match option with
    | .direction word => some word
    | _ => none

def shownOf? (options : List GraphOption) : Option DirectionFilter :=
  match (directionWords options).getLast? with
  | none => some .all
  | some word => DirectionFilter.ofWord? word

def graphOf? (tree : FileTree) (arguments : List String) : Option Command := do
  let parsed ← ParsedArguments.parse? graphForms true arguments
  if parsed.options.contains .help then return .help .graph
  let shown ← shownOf? parsed.options
  if parsed.words.all tree.isFile then
    return .graph
      { files := parsed.words
        shared := !parsed.options.contains .noDedup
        shown := shown
        json := parsed.options.contains .json }
  none

def portWords (options : List ServerOption) : List String :=
  options.filterMap fun option =>
    match option with
    | .port word => some word
    | .help => none

def portOf? (options : List ServerOption) : Option (Option Int) :=
  match (portWords options).getLast? with
  | none => some none
  | some word => (Text.readInt? 10 word.toList).map some

def serverOf? (arguments : List String) : Option Command := do
  let parsed ← ParsedArguments.parse? serverForms true arguments
  if parsed.options.contains .help then return .help .server
  let port ← portOf? parsed.options
  if parsed.words.isEmpty then return .server port
  none

def named? (tree : FileTree) (name : String) (arguments : List String) : Option Command :=
  if name = "graph" then graphOf? tree arguments
  else if name = "server" then serverOf? arguments
  else none

def answered? : ProgramOption → Option Command
  | .version => some .version
  | .help => some (.help .program)
  | .verbose => none

end Command

namespace Invocation

open Command

/-- The invocation that arguments make, if they are in order.  The options of
the program stand in front of the name of a command. -/
def ofArguments? (tree : FileTree) (arguments : List String) : Option Invocation := do
  let parsed ← ParsedArguments.parse? programForms false arguments
  let verbose := parsed.options.contains .verbose
  match parsed.options.findSome? answered?, parsed.words with
  | some command, _ => return ⟨verbose, command⟩
  | none, [] => none
  | none, name :: rest => (named? tree name rest).map (Invocation.mk verbose)

end Invocation
end TrafficGraph
