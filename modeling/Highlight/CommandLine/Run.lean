import Highlight.CommandLine.Arguments
import Highlight.Configuration.Layers
import Highlight.Grammar.Bundled
import Highlight.Highlighter

/-! What the program does for a command line. Files are read through functions that are given. -/
namespace Highlight.CommandLine

/-- What a run leaves behind. -/
structure Output where
  code : Nat := 0
  stdout : String := ""
  stderr : String := ""
  deriving DecidableEq, Repr

/-- How files are read. -/
structure Files (m : Type → Type) where
  /-- The text of a configuration file, if there is such a file. -/
  configuration : String → m (Option String)
  /-- The text at a path, or of standard input for a single dash; or why it cannot be read. -/
  source : String → m (Except String String)

def failure (message : String) : Output := { code := 1, stderr := message ++ "\n" }

def usage : String :=
  "Usage: glint [--config <file>] [--strict] [--class-prefix <prefix>] <command>\n\n" ++
  "Commands:\n" ++
  "  highlight <path> [--language <name>] [--format <format>] [--ignore-illegals]\n" ++
  "  detect <path> [--among <names>]\n" ++
  "  list\n" ++
  "  formats\n"

def refuse : Refusal → Output
  | .usage => { code := 2, stderr := usage }
  | .help => { stdout := usage }
  | .version => { stdout := "glint 0.1.0\n" }

/-- A name, filled up with blanks to a column. -/
def padName (name : String) : String := name.pushn ' ' (8 - name.length)

def grammarLine (name : String) (g : Grammar) : String :=
  "  " ++ padName name ++ " " ++ g.name ++
    (if g.aliases.isEmpty then "" else " (aliases: " ++ ", ".intercalate g.aliases ++ ")") ++ "\n"

def listGrammars (r : Registry) : Output :=
  { stdout := "Bundled grammars:\n\n" ++
      String.join (r.entries.map fun (name,e) => grammarLine name e.grammar) }

def listFormats (r : FormatRegistry) : Output :=
  { stdout := "Available formats:\n\n" ++
      String.join (r.formats.map fun f => "  " ++ padName f.name ++ " " ++ f.description ++ "\n") }

/-- The warning that a result comes with. -/
def warning (r : Result) : String :=
  match r.illegal with
  | some report => s!"Warning: {report.message} (at byte {report.index})\n"
  | none => ""

/-- Print a result in a format. -/
def present (formats : FormatRegistry) (format : String) (o : Outcome) : Output :=
  match formats.render o format with
  | .ok text => { stdout := text ++ "\n", stderr := warning o.best }
  | .error e =>
    { code := 1
      stderr := warning o.best ++ "Error: " ++ e.message ++ "\n\nAvailable formats:\n" ++
        String.join (formats.names.map fun name => "  " ++ name ++ "\n") }

def highlightSource (h : Highlighter) (language : Option String) (format : String)
    (tolerant : Bool) (code : String) : Output :=
  let outcome : Call Outcome := match language with
    | some name => (fun best => { best }) <$> h.highlight { name, code, tolerant }
    | none => h.detect code
  match (outcome.run []).1 with
  | .ok o => present (.builtIn h.settings) format o
  | .error e => failure ("Highlighting error: " ++ e.message)

def scoreLine (r : Result) : String := s!"{r.language} (relevance {r.relevance})\n"

def detectSource (h : Highlighter) (among : Option (List String)) (code : String) : Output :=
  let outcome := match among with
    | some candidates => h.detectAmong candidates code
    | none => h.detect code
  match (outcome.run []).1 with
  | .ok o =>
    { stdout := scoreLine o.best ++
        match o.runnerUp with
        | some r => "runner-up: " ++ scoreLine r
        | none => "" }
  | .error e => failure ("Detection error: " ++ e.message)

/-- Answer a command about a source, unless it cannot be read. -/
def withSource (answer : String → Output) : Except String String → Output
  | .ok code => answer code
  | .error reason => failure ("Error reading file: " ++ reason)

/-- The keys that the options of a command line override. -/
def overrides (i : Invocation) : List (String × Configuration.Value) :=
  (if i.strict then [("safe_mode",.boolean false)] else []) ++
  (match i.classPrefix with
    | some text => [("class_prefix",.text text)]
    | none => [])

variable {m : Type → Type} [Monad m]

/-- The settings of a command line. -/
def loadSettings (files : Files m) (i : Invocation) :
    m (Except Configuration.ConfigurationError Settings) := do
  match i.configuration with
  | none => return Configuration.load [] (overrides i)
  | some path =>
    match ← files.configuration path with
    | some document => return Configuration.load [document] (overrides i)
    | none => return .error (.missingFile path)

def perform (files : Files m) (h : Highlighter) : Command → m Output
  | .highlight path language format tolerant =>
    return withSource (highlightSource h language format tolerant) (← files.source path)
  | .detect path among => return withSource (detectSource h among) (← files.source path)
  | .list => return listGrammars h.registry
  | .formats => return listFormats (.builtIn h.settings)

/-- Run a command line. -/
def run (files : Files m) (args : List String) : m Output := do
  match readInvocation args with
  | .error refusal => return refuse refusal
  | .ok i =>
    match ← loadSettings files i with
    | .error e => return failure ("Error loading configuration: " ++ e.message)
    | .ok settings => perform files { settings, registry := .bundled } i.command

end Highlight.CommandLine
