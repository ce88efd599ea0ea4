/-!
Command lines. Options are written `--name value`, `--name=value`, `-n value` or `-nvalue`, before
or after the command; each may be given once on either side of it. After `--` nothing is an option.
-/
namespace Highlight.CommandLine

structure OptionSpec where
  name : String
  letter : Option Char := none
  takesValue : Bool := false
  deriving DecidableEq, Repr

/-- Why a command line names nothing to do, or asks for a text about the program. -/
inductive Refusal where
  | usage
  | help
  | version
  deriving DecidableEq, Repr

/-- The options and operands of one side of the command. -/
structure Given where
  options : List (String × String) := []
  operands : List String := []
  deriving DecidableEq, Repr

namespace Given

def has (g : Given) (name : String) : Bool := (g.options.lookup name).isSome

/-- Take in an option. No option is given twice. -/
def add (g : Given) (name value : String) : Except Refusal Given :=
  match name with
  | "help" => .error .help
  | "version" => .error .version
  | name => if g.has name then .error .usage else .ok { g with options := (name,value) :: g.options }

end Given

/-- Whether an argument can be the value of the option before it. -/
def isOperand (arg : String) : Bool := arg = "-" || arg.toList.head? != some '-'

/-- The value of an option, which is the next argument unless it is written with the option. -/
def valueOf (written : Option String) (rest : List String) :
    Except Refusal (String × List String) :=
  match written, rest with
  | some value, rest => .ok (value,rest)
  | none, value :: rest => if isOperand value then .ok (value,rest) else .error .usage
  | none, [] => .error .usage

/-- An option by its name, perhaps with a value after an equals sign. -/
def readLong (specs : List OptionSpec) (g : Given) (arg : List Char) (rest : List String) :
    Except Refusal (Given × List String) := do
  let name := String.ofList (arg.takeWhile (· != '='))
  let written := match arg.dropWhile (· != '=') with
    | [] => none
    | _ :: value => some (String.ofList value)
  match specs.find? (fun s => s.name == name) with
  | none => throw .usage
  | some spec =>
    if spec.takesValue then
      let (value,rest) ← valueOf written rest
      return (← g.add name value,rest)
    else if written.isSome then throw .usage
    else return (← g.add name "",rest)

/-- Options by their letters, the last of which may take a value. -/
def readLetters (specs : List OptionSpec) (g : Given) (rest : List String) :
    List Char → Except Refusal (Given × List String)
  | [] => .ok (g,rest)
  | letter :: more =>
    match specs.find? (fun s => s.letter == some letter) with
    | none => .error .usage
    | some spec =>
      if spec.takesValue then do
        let written := match more with
          | [] => none
          | '=' :: value => some (String.ofList value)
          | value => some (String.ofList value)
        let (value,rest) ← valueOf written rest
        return (← g.add spec.name value,rest)
      else do
        readLetters specs (← g.add spec.name "") rest more

/-- Read arguments up to `most` operands, and the arguments after them. The first argument bounds
the number of steps. -/
def readSide (specs : List OptionSpec) (most : Nat) :
    Nat → Given → List String → Except Refusal (Given × List String)
  | 0, g, rest => .ok (g,rest)
  | _ + 1, g, [] => .ok (g,[])
  | n + 1, g, arg :: rest => do
    match arg.toList with
    | ['-','-'] =>
      if g.operands.length + rest.length ≤ most then
        return ({ g with operands := g.operands ++ rest },[])
      else throw .usage
    | '-' :: '-' :: name =>
      let (g,rest) ← readLong specs g name rest
      readSide specs most n g rest
    | '-' :: letter :: letters =>
      let (g,rest) ← readLetters specs g rest (letter :: letters)
      readSide specs most n g rest
    | _ =>
      if most ≤ g.operands.length then return (g,arg :: rest)
      else readSide specs most n { g with operands := g.operands ++ [arg] } rest

inductive Command where
  | highlight (path : String) (language : Option String) (format : String) (tolerant : Bool)
  | detect (path : String) (among : Option (List String))
  | list
  | formats
  deriving DecidableEq, Repr

structure Invocation where
  configuration : Option String
  strict : Bool
  classPrefix : Option String
  command : Command
  deriving DecidableEq, Repr

def helpOption : OptionSpec := { name := "help", letter := some 'h' }

/-- Options that may stand on either side of the command. -/
def generalOptions : List OptionSpec :=
  [{ name := "config", letter := some 'c', takesValue := true },{ name := "strict" },
    { name := "class-prefix", takesValue := true },helpOption]

def highlightOptions : List OptionSpec :=
  [{ name := "language", letter := some 'l', takesValue := true },
    { name := "format", letter := some 'f', takesValue := true },{ name := "ignore-illegals" }]

def detectOptions : List OptionSpec := [{ name := "among", takesValue := true }]

/-- The texts between commas. -/
def splitCommas (text : String) : List String := (text.toList.splitOn ',').map String.ofList

/-- Read what follows a command, all of it. -/
def readOperands (specs : List OptionSpec) (count : Nat) (args : List String) :
    Except Refusal Given := do
  let (g,rest) ← readSide (specs ++ generalOptions) count args.length {} args
  if rest.isEmpty && g.operands.length = count then return g else throw .usage

/-- The command of a name, and what is given after it. -/
def readCommand (name : String) (args : List String) : Except Refusal (Command × Given) := do
  match name with
  | "highlight" =>
    let g ← readOperands highlightOptions 1 args
    let path := g.operands.headD ""
    return (.highlight path (g.options.lookup "language")
      ((g.options.lookup "format").getD "html") (g.has "ignore-illegals"),g)
  | "detect" =>
    let g ← readOperands detectOptions 1 args
    return (.detect (g.operands.headD "") ((g.options.lookup "among").map splitCommas),g)
  | "list" => return (.list,← readOperands [] 0 args)
  | "formats" => return (.formats,← readOperands [] 0 args)
  | "help" =>
    match args with
    | [] | ["highlight"] | ["detect"] | ["list"] | ["formats"] | ["help"] => throw .help
    | _ => throw .usage
  | _ => throw .usage

/-- Read a whole command line. Options after the command win over those before it. -/
def readInvocation (args : List String) : Except Refusal Invocation := do
  let top := { name := "version", letter := some 'V' } :: generalOptions
  let (before,rest) ← readSide top 0 args.length {} args
  match rest with
  | [] => throw .usage
  | name :: args =>
    let (command,after) ← readCommand name args
    let lookup := fun name => after.options.lookup name <|> before.options.lookup name
    return {
      configuration := lookup "config", strict := after.has "strict" || before.has "strict"
      classPrefix := lookup "class-prefix", command }

end Highlight.CommandLine
