import Highlight.Scan.Step
import Highlight.Settings

/-! Whole scans: the steps from the first state to the end of the text, and what comes of them. -/
namespace Highlight.Scan

/-- The first state of a scan in modes that are open already. Modes that cannot belong to the
grammar are left out of account. -/
def State.opened (table : NodeTable) (c : Option Continuation) (assembled : List String) : State :=
  match c with
  | some c =>
    if c.fits table.size then
      { stack := c.frames, tree := c.frames.dropLast.foldr (openMode table) {}, assembled }
    else { assembled }
  | none => { assembled }

/-- Take at most `n` steps, the first of them having the given number. -/
def steps (env : Env) : Nat → Nat → State → Except Halt Unit × State
  | 0, _, s => (finish env).run s
  | n + 1, number, s =>
    match (step env number).run s with
    | (.ok true,s) => steps env n (number + 1) s
    | (.ok false,s) => (finish env).run s
    | (.error halt,s) => (.error halt,s)

/-- More steps than a scan can take without running away. -/
def stepLimit (env : Env) : Nat := max freeSteps (3 * env.text.byteOffset env.text.size) + 1

/-- Scan the whole text. -/
def run (env : Env) (s : State) : Except Halt Unit × State := steps env (stepLimit env) 1 s

/-- Bytes of text on each side of an illegal lexeme that its report shows. -/
def contextRadius : Nat := 100

/-- The report of an illegal lexeme in the state that a scan halted in. -/
def report (env : Env) (settings : Settings) (s : State) (lexeme : String) : IllegalReport :=
  let className := (env.node s.top).className
  let name := className.getD "<unnamed>"
  { message := s!"Illegal lexeme \"{lexeme}\" for mode \"{name}\""
    context := env.text.window s.position contextRadius
    className
    index := env.text.byteOffset s.position
    before := Html.render settings.classPrefix (.root s.tree.finish) }

/-- The result of a scan. A fault falls back to plain text in safe mode. -/
def conclude (env : Env) (settings : Settings) (language code : String) (s : State) :
    Except Halt Unit → Except HighlightError Result
  | .ok () =>
    let tree := s.tree.finish
    .ok { language, code, tree, relevance := s.relevance
          value := Html.render settings.classPrefix (.root tree)
          continuation := some { frames := s.stack } }
  | .error (.illegal lexeme) =>
    .ok { Result.plaintext language code with
          tree := s.tree.finish, illegal := some (report env settings s lexeme) }
  | .error (.fault f) =>
    if env.safeMode then
      .ok { Result.plaintext language code with
            fault := some f, continuation := some { frames := s.stack } }
    else .error (.fault f)
  | .error (.error e) => .error e

/-- Highlight a text by a node table. -/
def highlight (env : Env) (settings : Settings) (language code : String)
    (continuation : Option Continuation) : Call Result := do
  let assembled ← get
  let (outcome,s) := run env (.opened env.table continuation assembled)
  set s.assembled
  Call.ofExcept (conclude env settings language code s outcome)

end Highlight.Scan
