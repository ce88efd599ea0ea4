import Highlight.Scan.State

/-!
Flushing the buffer. Its text goes into the tree, as keywords and what lies between them, or as the
result of an embedded grammar.
-/
namespace Highlight.Scan

/-- Text as it stands between keywords, and a keyword with its entry. -/
inductive Piece where
  | plain (text : String)
  | keyword (text : String) (entry : KeywordEntry)
  deriving DecidableEq, Repr

namespace Piece

def text : Piece → String
  | plain text | keyword text _ => text

end Piece

/-- The entry of a word, case folded if the grammar asks for it. -/
def lookupWord (table : KeywordTable) (ignoreCase : Bool) (word : String) : Option KeywordEntry :=
  table.find? (if ignoreCase then Text.lower word else word)

/-- A word found in the buffer. -/
def Piece.ofWord (table : KeywordTable) (ignoreCase : Bool) (word : String) : Piece :=
  match lookupWord table ignoreCase word with
  | some entry => keyword word entry
  | none => plain word

/-- The pieces of a buffer from `start` on, given where its words lie. -/
def piecesFrom (table : KeywordTable) (ignoreCase : Bool) (buffer : Source) :
    Nat → List (Nat × Nat) → List Piece
  | start, [] => [.plain (buffer.slice start buffer.size)]
  | start, (a,b) :: words =>
    .plain (buffer.slice start a) :: .ofWord table ignoreCase (buffer.slice a b) ::
      piecesFrom table ignoreCase buffer b words

def addPiece : Piece → Action Unit
  | .plain text => Action.changeTree (·.addText text)
  | .keyword text entry => do
    Action.score entry.relevance
    Action.changeTree (·.addKeyword text entry.className)

/-- Put the buffer into the tree, split into keywords. -/
def flushKeywords (env : Env) (node : Node) (buffer : String) : Action Unit :=
  match node.keywords with
  | none => Action.changeTree (·.addText buffer)
  | some table => do
    let source := Source.ofString buffer
    let words ← Action.ofSearch (node.lexemes.findAll source)
    (piecesFrom table env.table.ignoreCase source 0 words).forM addPiece

/-- The modes in which an embedded grammar goes on. Detected grammars always begin anew. -/
def State.carried (s : State) : SubLanguage → Option Continuation
  | .named name => s.embedded.lookup name
  | .auto _ => none

/-- Keep the modes that an embedded grammar was left in. -/
def State.carry (s : State) (sub : SubLanguage) (c : Option Continuation) : State :=
  match sub, c with
  | .named name, some c =>
    { s with embedded := (name,c) :: s.embedded.filter (fun entry => entry.1 != name) }
  | _, _ => s

/-- Put the result of an embedded grammar into the tree. It scores if the mode around it does. -/
def addEmbedded (node : Node) (sub : SubLanguage) (r : Result) : Action Unit := do
  modify fun s => s.carry sub r.continuation
  if 0 < node.relevance then Action.score r.relevance
  Action.changeTree (·.addEmbedded r.tree (if r.isPlaintext then none else some r.language))

/-- Hand the buffer to an embedded grammar. If it is not known, the text is kept as it is. -/
def flushEmbedded (env : Env) (node : Node) (sub : SubLanguage) (buffer : String) :
    Action Unit := do
  if buffer.isEmpty then return
  match env.embed sub ((← get).carried sub) buffer with
  | none => Action.changeTree (·.addText buffer)
  | some run => addEmbedded node sub (← Action.ofCall run)

/-- Empty the buffer into the tree, as the innermost mode says. -/
def flush (env : Env) : Action Unit := do
  let s ← get
  let node := env.node s.top
  match node.subLanguage with
  | some sub => flushEmbedded env node sub s.buffer
  | none => flushKeywords env node s.buffer
  Action.setBuffer ""

end Highlight.Scan
