import ChordSearch.CommandLine.Flag

/-! # The command tree

The program's command line is a tree of verbs under the program name: `run` runs a ring
member, `ctl exec` and `ctl state` drive a running member, `help` explains a verb, and
`completion` writes shell completion scripts. Each verb has a use line, a one-line and a
longer description, its own flags and the flags it passes down to the verbs under it.

Finding the verb of a command line walks down the tree: at each verb the first word that is
not a flag (a flag that is not a boolean taking the word after it) names the next verb, and
is dropped from the words; the walk stops at a word that names no verb. A word left over at
the top, which takes no words, is an unknown command.

The help text of a verb is its longer description (or the one-line one), then its usage:
the use line when it runs, the verbs under it, its flags and the flags it inherits.
-/

namespace ChordSearch

/-- The verbs of the command line. -/
inductive Verb where
  | top
  | run
  | ctl
  | exec
  | state
  | help
  | completion
  | bash
  | fish
  | powershell
  | zsh
  deriving DecidableEq, Repr

/-- How many words a verb accepts after its flags. -/
inductive Arity where
  /-- Any words; a verb with verbs under it checks them when it is found. -/
  | free
  /-- No words. -/
  | none
  /-- At least this many words. -/
  | atLeast (n : Nat)
  deriving DecidableEq, Repr

namespace Verb

/-- The program's name. -/
def program : String := "gusearch"

/-- The verb's name. -/
def name : Verb → String
  | .top => program
  | .run => "run"
  | .ctl => "ctl"
  | .exec => "exec"
  | .state => "state"
  | .help => "help"
  | .completion => "completion"
  | .bash => "bash"
  | .fish => "fish"
  | .powershell => "powershell"
  | .zsh => "zsh"

/-- The verb one level up. -/
def parent : Verb → Option Verb
  | .top => none
  | .run | .ctl | .help | .completion => some .top
  | .exec | .state => some .ctl
  | .bash | .fish | .powershell | .zsh => some .completion

/-- The verbs one level down, by name. -/
def children : Verb → List Verb
  | .top => [.completion, .ctl, .help, .run]
  | .ctl => [.exec, .state]
  | .completion => [.bash, .fish, .powershell, .zsh]
  | _ => []

/-- The verbs from the top down to this one. -/
def path : Verb → List Verb
  | .top => [.top]
  | .run => [.top, .run]
  | .ctl => [.top, .ctl]
  | .exec => [.top, .ctl, .exec]
  | .state => [.top, .ctl, .state]
  | .help => [.top, .help]
  | .completion => [.top, .completion]
  | .bash => [.top, .completion, .bash]
  | .fish => [.top, .completion, .fish]
  | .powershell => [.top, .completion, .powershell]
  | .zsh => [.top, .completion, .zsh]

/-- The names from the top down to this verb. -/
def commandPath (v : Verb) : String := " ".intercalate (v.path.map name)

/-- The use line's text after the names of the verbs above. -/
def use : Verb → String
  | .exec => "exec <command> [args...]"
  | .help => "help [command]"
  | v => v.name

/-- The one-line description. -/
def short : Verb → String
  | .top => "A Chord ring with a sharded inverted index"
  | .run => "Run a ring member with an interactive command prompt"
  | .ctl => "Drive a running node over its gRPC operator port"
  | .exec => "Run one command on the node, e.g. ctl exec search 2 chord ring"
  | .state => "Print the node's ring state as JSON"
  | .help => "Help about any command"
  | .completion => "Generate the autocompletion script for the specified shell"
  | v => "Generate the autocompletion script for " ++ v.name

/-- The longer description, empty when there is none. -/
def long : Verb → String
  | .top => "Gusearch runs one member of a Chord ring over UDP. Members publish\n" ++
      "document metadata, the index terms are spread across the ring by hash and\n" ++
      "conjunctive searches are answered by walking the owners of each term."
  | .run => "Run binds the shared UDP port on this node's address and reads operator\n" ++
      "commands from stdin. Type \"help\" for the command list and \"quit\" to leave\nthe ring and exit."
  | .help => "Help provides help for any command in the application.\n" ++
      "Simply type " ++ program ++ " help [path to command] for full details."
  | .completion => "Generate the autocompletion script for " ++ program ++ " for the specified shell.\n" ++
      "See each sub-command's help for details on how to use the generated script.\n"
  | .bash => "Generate the autocompletion script for the bash shell.\n\n" ++
      "This script depends on the 'bash-completion' package.\n" ++
      "If it is not installed already, you can install it via your OS's package manager.\n\n" ++
      "To load completions in your current shell session:\n\n" ++
      "\tsource <(" ++ program ++ " completion bash)\n\n" ++
      "To load completions for every new session, execute once:\n\n" ++
      "#### Linux:\n\n\t" ++ program ++ " completion bash > /etc/bash_completion.d/" ++ program ++ "\n\n" ++
      "#### macOS:\n\n\t" ++ program ++ " completion bash > $(brew --prefix)/etc/bash_completion.d/" ++
      program ++ "\n\nYou will need to start a new shell for this setup to take effect.\n"
  | .zsh => "Generate the autocompletion script for the zsh shell.\n\n" ++
      "If shell completion is not already enabled in your environment you will need\n" ++
      "to enable it.  You can execute the following once:\n\n" ++
      "\techo \"autoload -U compinit; compinit\" >> ~/.zshrc\n\n" ++
      "To load completions in your current shell session:\n\n" ++
      "\tsource <(" ++ program ++ " completion zsh)\n\n" ++
      "To load completions for every new session, execute once:\n\n" ++
      "#### Linux:\n\n\t" ++ program ++ " completion zsh > \"$\x7bfpath[1]\x7d/_" ++ program ++ "\"\n\n" ++
      "#### macOS:\n\n\t" ++ program ++ " completion zsh > $(brew --prefix)/share/zsh/site-functions/_" ++
      program ++ "\n\nYou will need to start a new shell for this setup to take effect.\n"
  | .fish => "Generate the autocompletion script for the fish shell.\n\n" ++
      "To load completions in your current shell session:\n\n" ++
      "\t" ++ program ++ " completion fish | source\n\n" ++
      "To load completions for every new session, execute once:\n\n" ++
      "\t" ++ program ++ " completion fish > ~/.config/fish/completions/" ++ program ++ ".fish\n\n" ++
      "You will need to start a new shell for this setup to take effect.\n"
  | .powershell => "Generate the autocompletion script for powershell.\n\n" ++
      "To load completions in your current shell session:\n\n" ++
      "\t" ++ program ++ " completion powershell | Out-String | Invoke-Expression\n\n" ++
      "To add this command to your profile, run the above command and then also add the\n" ++
      "command to your profile.\n"
  | _ => ""

/-- Whether the verb does something of its own, rather than only holding verbs. -/
def runnable : Verb → Bool
  | .top | .ctl | .completion => false
  | _ => true

/-- The words the verb accepts. -/
def arity : Verb → Arity
  | .run | .state | .completion | .bash | .fish | .powershell | .zsh => .none
  | .exec => .atLeast 1
  | _ => .free

/-- Whether the use line leaves out the flags. -/
def bareUse : Verb → Bool
  | .bash | .fish | .powershell | .zsh => true
  | _ => false

/-- A text flag. -/
def textFlag (name default usage : String) : Flag := { name, kind := .text, default := .text default, usage }

/-- The flags the verb has for itself. -/
def ownFlags : Verb → List Flag
  | .run => [
      { name := "node", kind := .uint32, default := .uint32 1, usage := "This node's number in the node table" },
      textFlag "host" "" "IPv4 address to bind, defaults to the node table entry",
      { name := "port", kind := .int, default := .int 10001, usage := "UDP port shared by every member" },
      { name := "http-port", kind := .int, default := .int 8080, usage := "HTTP API port, 0 disables" },
      { name := "grpc-port", kind := .int, default := .int 9090, usage := "gRPC operator port, 0 disables" },
      { name := "nodes", kind := .table, default := .table [], usage := "Node table as num=ipv4 pairs" },
      { name := "landmark", kind := .int, default := .int (-1),
        usage := "Node to join through at startup, -1 waits for a join command" },
      { name := "stabilize-interval", kind := .duration, default := .duration 2000000000,
        usage := "Stabilization period" },
      { name := "ping-timeout", kind := .duration, default := .duration 2000000000,
        usage := "How long a ping may stay unanswered" },
      { name := "audit-interval", kind := .duration, default := .duration 500000000,
        usage := "How often expired pings are swept" },
      { name := "no-prompt", kind := .bool, default := .bool false, usage := "Do not read commands from stdin" }]
  | .bash | .fish | .powershell | .zsh =>
      [{ name := "no-descriptions", kind := .bool, default := .bool false,
         usage := "disable completion descriptions" }]
  | _ => []

/-- The flags the verb passes down, having them itself too. -/
def sharedFlags : Verb → List Flag
  | .top => [textFlag "config" "" "Config file (yaml, json or toml)",
      textFlag "log-level" "info" "Log level (trace, debug, info, warn, error)",
      textFlag "log-format" "console" "Log format (json, console)",
      textFlag "log-file" "" "Also write logs to this rotated file",
      textFlag "auth-token" "" "Token required by the operator APIs"]
  | .ctl => [textFlag "addr" "127.0.0.1:9090" "Operator address of the node",
      { name := "timeout", kind := .duration, default := .duration 5000000000, usage := "Per call timeout" }]
  | _ => []

/-- The flags passed down from the verbs above. -/
def inheritedFlags (v : Verb) : List Flag := (v.path.dropLast).flatMap sharedFlags

/-- The verb's flags other than help: its own, those it passes down and those it inherits. -/
def knownFlags (v : Verb) : List Flag := v.ownFlags ++ v.sharedFlags ++ v.inheritedFlags

/-- Every flag of the verb, help included. -/
def flags (v : Verb) : List Flag := v.knownFlags ++ [Flag.help v.name]

/-- The verb under `v` named `word`. -/
def child? (v : Verb) (word : String) : Option Verb := v.children.find? (·.name = word)

/-- Whether a word of the form `--name` or `-x` takes the word after it as its value,
among flags known while the verb is looked for. -/
def takesNext (fs : List Flag) (w : String) : Bool :=
  match w.toList with
  | '-' :: '-' :: name =>
    !name.contains '=' && !(fs.any fun f => f.name = String.ofList name && f.standsAlone)
  | ['-', c] => c ≠ '=' && !(fs.any fun f => f.letter = some c && f.standsAlone)
  | _ => false

/-- The words of a command line that are not flags or their values, up to `--`. A flag
taking a value that comes last, or next to last, ends the words. -/
def plainWords (fs : List Flag) : List String → List String
  | [] => []
  | w :: ws =>
    if w = "--" then []
    else if takesNext fs w then
      match ws with
      | _ :: rest => if rest.isEmpty then [] else plainWords fs rest
      | [] => []
    else if w ≠ "" ∧ !w.startsWith "-" then w :: plainWords fs ws
    else plainWords fs ws

/-- The words without the first plain occurrence of `x`, skipping flags and their values. -/
def withoutWord (fs : List Flag) (x : String) : List String → List String
  | [] => []
  | w :: ws =>
    if w = "--" then w :: ws
    else if takesNext fs w then
      match ws with
      | v :: more => w :: v :: withoutWord fs x more
      | [] => [w]
    else if !w.startsWith "-" ∧ w = x then ws
    else w :: withoutWord fs x ws

/-- Walk down from `v` by the words naming verbs; `fuel` bounds the depth. -/
def walk : Nat → Verb → List String → Verb × List String
  | 0, v, ws => (v, ws)
  | fuel + 1, v, ws =>
    match plainWords v.knownFlags ws with
    | [] => (v, ws)
    | next :: _ =>
      match v.child? next with
      | some c => walk fuel c (withoutWord v.knownFlags next ws)
      | none => (v, ws)

/-- Why a command line names no verb that can run it. -/
inductive FindError where
  | unknownCommand (word : String) (path : String)
  deriving DecidableEq, Repr

/-- The verb a command line names and its remaining words, or the unknown word at the top. -/
def find (ws : List String) : Except FindError (Verb × List String) :=
  let (v, rest) := walk 3 .top ws
  if v.arity = .free ∧ !v.children.isEmpty ∧ v.parent.isNone then
    match plainWords v.knownFlags rest with
    | w :: _ => .error (.unknownCommand w v.commandPath)
    | [] => .ok (v, rest)
  else .ok (v, rest)

/-- Whether the verb lists this verb under it in help. -/
def listed (v : Verb) : Bool := v.runnable || !v.children.isEmpty

/-- A name padded to a column of width `n`. -/
def pad (n : Nat) (s : String) : String := s ++ String.ofList (List.replicate (n - s.length) ' ')

/-- The usage lines of a verb. -/
def usageLines (v : Verb) : List String :=
  let above := match v.parent with
    | some p => p.commandPath ++ " "
    | none => ""
  let useLine := above ++ v.use ++ (if v.bareUse then "" else " [flags]")
  let subs := v.children.filter fun c => c.listed || c = .help
  let width := (v.children.map fun c => c.name.length).foldl max 11
  let local_ := v.ownFlags ++ v.sharedFlags ++ [Flag.help v.name]
  let inherited := v.inheritedFlags
  ["Usage:"] ++
  (if v.runnable then ["  " ++ useLine] else []) ++
  (if subs.isEmpty then [] else ["  " ++ v.commandPath ++ " [command]"]) ++
  (if subs.isEmpty then [] else
    ["", "Available Commands:"] ++ subs.map fun c => "  " ++ pad width c.name ++ " " ++ c.short) ++
  ["", "Flags:"] ++ flagUsages local_ ++
  (if inherited.isEmpty then [] else ["", "Global Flags:"] ++ flagUsages inherited) ++
  (if subs.isEmpty then [] else
    ["", "Use \"" ++ v.commandPath ++ " [command] --help\" for more information about a command."])

/-- Text with blanks at its end removed. -/
def trimEnd (s : String) : String :=
  String.ofList (s.toList.reverse.dropWhile Char.isWhitespace).reverse

/-- The help text of a verb, as lines. -/
def helpLines (v : Verb) : List String :=
  let about := trimEnd (if v.long.isEmpty then v.short else v.long)
  (if about.isEmpty then [] else about.splitOn "\n" ++ [""]) ++
  (if v.runnable || !v.children.isEmpty then v.usageLines else [])

end Verb

end ChordSearch
