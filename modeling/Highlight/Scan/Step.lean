import Highlight.Scan.Flush

/-!
One step of a scan: find the next match of the innermost mode's rules and react to it. A begin
opens a mode, an end closes one or more, and an illegal lexeme halts the scan unless it is let
through. Reactions give how far past the start of the match the cursor moves.
-/
namespace Highlight.Scan

open Rules

/-- Modes that may be open at once, not counting the top mode. -/
def maxOpenModes : Nat := 1000

/-- Steps that a scan may take before it must show progress. -/
def freeSteps : Nat := 100000

/-- Keep the lexeme of a match as text. -/
def keepLexeme (env : Env) (m : RuleMatch) : Action Nat := do
  Action.append (env.lexeme m)
  return m.stop - m.start

/-- Keep the character at a position, if there is one, and step over it. -/
def keepNext (env : Env) (position : Nat) : Action Nat := do
  if let some c := env.text.charAt? position then
    Action.append (String.singleton c)
  return 1

/-- Open a mode at a position. -/
def enter (env : Env) (frame : Frame) (position : Nat) : Action Unit := do
  if maxOpenModes < (← get).stack.length then
    Action.fail (.nestingTooDeep maxOpenModes (env.text.byteOffset position))
  Action.changeTree (openMode env.table frame)
  modify fun s => { s with stack := frame :: s.stack }

/-- What the guard of a mode says of a begin match. -/
def verdict (env : Env) (node : Node) (m : RuleMatch) : Verdict :=
  match node.beginGuard with
  | some g => g.check { text := env.text, start := m.start, stop := m.stop }
  | none => .accept

/-- Let the rules after an ignored begin try the same position. Once the last begin is ignored, step
over a character. -/
def ignoreBegin (env : Env) (m : RuleMatch) : Action Nat := do
  if (← get).resumeAt = 0 then keepNext env m.start
  else
    modify fun s => { s with stays := true }
    return 0

/-- Put the lexeme of a begin where the mode says that it belongs: to the mode, to the text before
it, or to what is scanned next. -/
def takeBegin (env : Env) (sw : Switches Bool) (lexeme : String) : Action Unit := do
  if sw.skip then Action.append lexeme
  else
    if sw.excludeBegin then Action.append lexeme
    flush env
    if !sw.returnBegin && !sw.excludeBegin then Action.setBuffer lexeme

/-- Enter the mode that a match begins. -/
def acceptBegin (env : Env) (m : RuleMatch) (id : NodeId) : Action Nat := do
  let sw := env.switches id
  let lexeme := env.lexeme m
  takeBegin env sw lexeme
  enter env { node := id, delimiter := if sw.endSameAsBegin then some lexeme else none } m.start
  return if sw.returnBegin then 0 else m.stop - m.start

def reactToBegin (env : Env) (m : RuleMatch) (id : NodeId) : Action Nat :=
  match verdict env (env.node id) m with
  | .accept => acceptBegin env m id
  | .ignore => ignoreBegin env m
  | .abort => if m.isEmpty then keepNext env m.start else keepLexeme env m

/-- Whether an open mode's end matches at a position. The end does not see the text before it. -/
def endsAt (env : Env) (f : Frame) (position : Nat) : Except Regex.GaveUp Bool :=
  match f.delimiter with
  | some delimiter => .ok (env.text.continuesWith delimiter position)
  | none =>
    match (env.node f.node).endRegex with
    | some r => r.matchesIn env.text position
    | none => .ok false

/-- The modes that close with a mode, given those around it: a mode that ends its parent takes the
parent with it, unless the parent is the outermost mode. -/
def widen (env : Env) (f : Frame) : List Frame → List Frame
  | g :: h :: rest =>
    f :: if (env.switches f.node).endsParent then widen env g (h :: rest) else []
  | _ => [f]

/-- The modes that an end match closes, innermost first. A mode whose own end does not match leaves
it to its parent if it ends with it. -/
def closing (env : Env) (position : Nat) : List Frame → Except Regex.GaveUp (Option (List Frame))
  | [] => .ok none
  | f :: rest => do
    if ← endsAt env f position then return some (widen env f rest)
    else if (env.switches f.node).endsWithParent then
      return (← closing env position rest).map (f :: ·)
    else return none

/-- Put the lexeme of an end where the mode says that it belongs: to the mode, to the text after it,
or to what is scanned next. -/
def takeEnd (env : Env) (sw : Switches Bool) (lexeme : String) : Action Unit := do
  if sw.skip then Action.append lexeme
  else
    if !(sw.returnEnd || sw.excludeEnd) then Action.append lexeme
    flush env
    if sw.excludeEnd then Action.setBuffer lexeme

/-- Close the innermost mode and score it. -/
def leave (env : Env) (f : Frame) : Action Unit := do
  let node := env.node f.node
  modify fun s => { s with stack := s.stack.tail }
  if node.className.isSome then
    Action.changeTree (·.closeScope)
  if !node.switches.skip && node.subLanguage.isNone then
    Action.score node.relevance

/-- Enter the mode that follows a closed one, if there is any. -/
def follow (env : Env) (f : Frame) (position : Nat) : Action Unit := do
  if let some next := (env.node f.node).starts then
    let same := (env.switches f.node).endSameAsBegin
    enter env { node := next, delimiter := if same then f.delimiter else none } position

/-- Close modes, and go on with the mode that follows the outermost of them. -/
def close (env : Env) (m : RuleMatch) (closed : List Frame) : Action Nat := do
  let sw := env.switches (← get).top
  takeEnd env sw (env.lexeme m)
  closed.forM (leave env)
  if let some outermost := closed.getLast? then
    follow env outermost m.start
  return if sw.returnEnd then 0 else m.stop - m.start

def reactToEnd (env : Env) (m : RuleMatch) : Action Nat := do
  match ← Action.ofSearch (closing env m.start (← get).stack) with
  | some closed => close env m closed
  | none => keepLexeme env m

def reactToIllegal (env : Env) (m : RuleMatch) : Action Nat :=
  if m.isEmpty then keepNext env m.start
  else if env.tolerant then keepLexeme env m
  else throw (.illegal (env.lexeme m))

/-- Whether an empty end follows an empty begin at the same place. -/
def stalls (last : Option RuleMatch) (m : RuleMatch) : Bool :=
  match last with
  | some last => last.isBegin && m.kind == .ends && last.start == m.start && m.isEmpty
  | none => false

/-- React to a match. An empty mode that would close at once is left open for a character. -/
def react (env : Env) (m : RuleMatch) : Action Nat := do
  if stalls (← get).last m then
    if env.safeMode then keepNext env m.start
    else Action.fail (.zeroWidthMatch (env.text.byteOffset m.start))
  else
    modify fun s => { s with last := some m }
    match m.kind with
    | .begins id => reactToBegin env m id
    | .ends => reactToEnd env m
    | .illegal => reactToIllegal env m

/-- Whether a scan has taken far more steps than it has consumed text. -/
def isRunaway (env : Env) (steps position : Nat) : Bool :=
  freeSteps < steps && 3 * position < steps && 3 * env.text.byteOffset position < steps

/-- Find the next match, from the rule on that may be used. -/
def nextMatch (env : Env) : Action (Option RuleMatch) := do
  modify fun s => { s with resumeAt := if s.stays then s.resumeAt else 0, stays := false }
  let s ← get
  let rules := (env.node s.top).rules
  match rules.exec env.text s.position s.resumeAt with
  | .error f => Action.fail f
  | .ok none => return none
  | .ok (some m) =>
    if m.isBegin then
      modify fun s => { s with resumeAt := rules.resumeAfter m.index }
    return some m

/-- The step with this number. Gives whether the scan goes on. -/
def step (env : Env) (number : Nat) : Action Bool := do
  match ← nextMatch env with
  | none => return false
  | some m =>
    if isRunaway env number m.start then
      Action.fail (.runawayLoop number (env.text.byteOffset m.start))
    let s ← get
    Action.append (env.text.slice s.position m.start)
    let moved ← react env m
    modify fun s => { s with position := m.start + moved }
    return m.start + moved ≤ env.text.size

/-- Take in what follows the last match. -/
def finish (env : Env) : Action Unit := do
  let s ← get
  Action.append (env.text.slice s.position env.text.size)
  flush env

end Highlight.Scan
