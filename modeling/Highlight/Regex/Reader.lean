import Highlight.Regex.Lexer

/-!
Reading a pattern from its text. The reader goes through the text once and keeps the open groups
on a stack; each group collects its finished alternatives and the pieces of the current one. A
piece stays pending until the next token shows whether it is repeated.
-/
namespace Highlight.Regex

/-- What an opening parenthesis started. -/
inductive GroupKind where
  | capture (index : Nat)
  /-- A group without a capture; its flags end with it. -/
  | plain (outside : Flags)
  | atomic
  | look (behind negated : Bool)

/-- A group that is being read: alternatives finished, last first, and pieces, last first. -/
structure OpenGroup where
  kind : GroupKind
  branches : List Pattern := []
  pieces : List Piece := []

/-- The current alternative as a single piece. -/
def OpenGroup.last (g : OpenGroup) : Piece :=
  match g.pieces with
  | [] => .nothing
  | [piece] => piece
  | pieces => ⟨.cats (pieces.reverse.map (·.pattern)),true⟩

structure Reader where
  flags : Flags := {}
  /-- Capture groups opened so far. -/
  groups : Nat := 0
  names : List (String × Nat) := []
  /-- Whether a group was referred to by its number in digits alone. -/
  numbered : Bool := false
  referenced : List Nat := []
  pending : Option Piece := none
  current : OpenGroup := { kind := .plain {} }
  outer : List OpenGroup := []

/-- Groups nested deeper than this are refused. -/
def maxDepth : Nat := 64

namespace Reader

/-- Move the pending piece to the pieces of the current alternative. -/
def flush (r : Reader) : Reader :=
  match r.pending with
  | none => r
  | some piece =>
    let pieces := if piece.pattern = .empty then r.current.pieces else piece :: r.current.pieces
    { r with pending := none, current := { r.current with pieces } }

/-- Take up a piece that a repetition may follow. -/
def push (r : Reader) (piece : Piece) : Reader := { r.flush with pending := some piece }

/-- Finish the current alternative. -/
def endBranch (r : Reader) : Reader :=
  let r := r.flush
  let branch := Pattern.cats (r.current.pieces.reverse.map (·.pattern))
  { r with current := { r.current with branches := branch :: r.current.branches, pieces := [] } }

/-- The alternatives of the current group, in order, and the group as a single piece. Numbered
references beside named groups are refused, unless the group has several alternatives. -/
def contents (r : Reader) : Except PatternError (List Pattern × Piece) :=
  let g := r.flush.current
  match g.branches with
  | [] =>
    if r.numbered && !r.names.isEmpty then .error .numberedAmongNamed
    else .ok ([g.last.pattern],g.last)
  | branches =>
    let branches := (g.last.pattern :: branches).reverse
    .ok (branches,⟨.alts branches,true⟩)

/-- A look-behind for text of one fixed width. -/
def lookBack (negated : Bool) (p : Pattern) : Except PatternError Pattern :=
  match p.width? with
  | some width => .ok (.look (.behind width) negated false p)
  | none => .error .unboundedLookBehind

/-- The alternatives of a group that holds nothing but another alternation. -/
def innerBranches : List Pattern → List Pattern
  | [p] => p.branches
  | branches => branches

/-- A look-behind for text of one fixed width, or one for each alternative. -/
def lookBehind (negated : Bool) (branches : List Pattern) : Except PatternError Pattern := do
  match (Pattern.alts branches).width? with
  | some _ => lookBack negated (.alts branches)
  | none =>
    let parts ← (innerBranches branches).mapM (lookBack negated)
    return if negated then .cats parts else .alts parts

/-- Close the current group and take it up as a piece of the group around it. -/
def close (r : Reader) : Except PatternError Reader := do
  match r.outer with
  | [] => .error .unopenedGroup
  | parent :: outer =>
    let (branches,whole) ← r.contents
    let r' := { r with pending := none, current := parent, outer }
    match r.current.kind with
    | .capture index => return r'.push ⟨.group index whole.pattern,true⟩
    | .plain outside => return { r' with flags := outside }.push whole
    | .atomic => return r'.push ⟨.atomic false whole.pattern,true⟩
    | .look false negated => return r'.push ⟨.look .ahead negated false whole.pattern,false⟩
    | .look true negated => return r'.push ⟨← lookBehind negated branches,false⟩

/-- Repeat the pending piece. -/
def repeatPiece (r : Reader) (least : Nat) (most : Option Nat) (greedy possessive : Bool) :
    Except PatternError Reader :=
  match r.pending with
  | none => .error .nothingToRepeat
  | some piece =>
    if !piece.repeatable then .error .nothingToRepeat
    else
      let looped := Pattern.loop piece.pattern least most greedy
      let pattern := if possessive then Pattern.atomic false looped else looped
      .ok { r with pending := some ⟨pattern,true⟩ }.flush

/-- Refer back to a group that was opened before. -/
def refer (r : Reader) (n : Nat) : Except PatternError Reader :=
  if r.groups < n then .error .unknownGroup
  else .ok ({ r with referenced := n :: r.referenced }.push ⟨.backref n,true⟩)

/-- Refer back to a group by its name, or by its number in place of a name. -/
def referByName (r : Reader) (name : String) : Except PatternError Reader :=
  match r.names.lookup name with
  | some n => r.refer n
  | none =>
    match readDecimal? name.toList with
    | some (n,[]) => r.refer n
    | _ => .error .unknownGroup

/-- Open a group. -/
def openGroup (r : Reader) (kind : GroupKind) : Reader :=
  let r := r.flush
  { r with current := { kind }, outer := r.current :: r.outer }

/-- Open a capture group and, if it has a name, note that. -/
def openCapture (r : Reader) (name : Option String) : Reader :=
  let names := match name with
    | some name => (name,r.groups + 1) :: r.names
    | none => r.names
  { r with groups := r.groups + 1, names }.openGroup (.capture (r.groups + 1))

/-- Act on a token. -/
def apply (r : Reader) : Lexeme → Except PatternError Reader
  | .piece p => .ok (r.push p)
  | .flags f => .ok ({ r with flags := f }.push .nothing)
  | .bar => .ok r.endBranch
  | .close => r.close
  | .rounds least most greedy possessive => r.repeatPiece least most greedy possessive
  | .atomic => .ok (r.openGroup .atomic)
  | .look behind negated => .ok (r.openGroup (.look behind negated))
  | .capture name => .ok (r.openCapture name)
  | .plain inside => .ok ({ r with flags := inside }.openGroup (.plain r.flags))
  | .numberRef n => { r with numbered := true }.refer n
  | .nameRef name => r.referByName name

/-- Read one token after blanks. -/
def readToken (r : Reader) (c : Char) (rest : List Char) :
    Except PatternError (Reader × List Char) := do
  if c = '(' && maxDepth ≤ r.outer.length + 1 then .error .nestedTooDeep
  else
    let (x,rest) ← lexeme r.flags r.pending.isSome c rest
    return (← r.apply x,rest)

/-- Read the whole text; the first argument bounds the number of tokens. -/
def readAll : Nat → Reader → List Char → Except PatternError Reader
  | 0, r, _ => .ok r
  | n + 1, r, cs => do
    match ← skipBlanks r.flags.extended cs with
    | [] => return r
    | c :: rest =>
      let (r,rest) ← r.readToken c rest
      readAll n r rest

/-- The pattern that has been read, once every group is closed. -/
def finish (r : Reader) : Except PatternError Pattern := do
  if !r.outer.isEmpty then .error .unclosedGroup
  else return (← r.contents).2.pattern

end Reader
end Highlight.Regex
