import Highlight.Assembly.Node

/-!
Drafts of nodes. The mode graph is walked from the top, parents before children, and gives each
mode a place. A mode whose end depends on its parent gets a place for each parent, any other mode
one place in all. Drafts may refer to each other in cycles.
-/
namespace Highlight.Assembly

/-- Deepest nesting of modes that the walk follows. -/
def maxNesting : Nat := 256

/-- Matches the empty text anywhere. -/
def zeroWidth : String := "\\B|\\b"

/-- Where the mode of a node comes from. -/
inductive Origin where
  | root
  | table (id : ModeId)
  | variant (id : ModeId) (index : Nat)
  deriving DecidableEq, Repr

structure Draft where
  mode : Mode
  beginPattern : Option String := none
  endPattern : Option String := none
  /-- The end together with the ends of the parents it ends with; empty if there is none. -/
  terminator : String := ""
  keywords : Option Keywords := none
  children : List NodeId := []
  starts : Option NodeId := none
  deriving Inhabited

/-- The drafts so far, and the places of the modes that have one. -/
structure Drafts where
  drafts : Array Draft := #[]
  places : List ((Origin × Option NodeId) × NodeId) := []

/-- The pattern of whole listed words that a word boundary or a blank follows. -/
def beginKeywordsPattern (listed : String) : String :=
  let alternatives := (Text.words listed).map (fun word => (splitScore word).1)
  "\\b(" ++ "|".intercalate alternatives ++ ")(?=\\b|\\s)"

/-- How a mode begins below a parent: by its keywords, by its pattern, or anywhere. -/
def beginOf (m : Mode) : String :=
  match m.beginKeywords with
  | some listed => beginKeywordsPattern listed
  | none => m.beginPattern.getD zeroWidth

/-- How a mode ends below a parent, other than with it. -/
def endOf (m : Mode) : Option String :=
  let own := if m.switches.endSameAsBegin.getD false then some (beginOf m) else m.endPattern
  if own.isNone && !m.endsWithParent then some zeroWidth else own

/-- The end and, if the mode ends with its parent, the parent's terminator after it. -/
def terminatorOf (m : Mode) (parent : String) : String :=
  let own := endOf m
  if m.endsWithParent && !parent.isEmpty then
    (match own with
      | some own => own ++ "|"
      | none => "") ++ parent
  else own.getD ""

/-- The draft of a mode, before its children have places. -/
def Draft.of (m : Mode) (parentTerminator : Option String) : Draft :=
  let keywords := m.keywords <|> m.beginKeywords.map Keywords.plain
  match parentTerminator with
  | none => { mode := m, keywords }
  | some parent =>
    let guarded := if m.beginKeywords.isSome && m.beginGuard.isNone then
      { m with beginGuard := some .noSurroundingDot } else m
    { mode := guarded, keywords, beginPattern := some (beginOf m), endPattern := endOf m,
      terminator := terminatorOf m parent }

abbrev Walk := StateT Drafts (Except GrammarError)

/-- Whether a mode needs a place for each parent. -/
def dependsOnParent (g : Grammar) (dependencies : Array Bool) (origin : Origin) (m : Mode) : Bool :=
  match origin with
  | .root => false
  | .table id => dependencies.getD id false
  | .variant .. => g.dependsOnParent m

def tableMode (g : Grammar) (id : ModeId) : Except GrammarError Mode :=
  match g.mode? id with
  | some m => .ok m
  | none => .error (.unknownMode id)

/-- What a mode of the table stands for in a list of children: itself, or each of its variants laid
over it. -/
def occurrences (g : Grammar) (id : ModeId) : Except GrammarError (List (Origin × Mode)) := do
  let m ← tableMode g id
  match m.variants with
  | none => return [(.table id,m)]
  | some variants => return variants.mapIdx fun i variant => (.variant id i,m.inherit variant)

/-- Give a draft the next place. -/
def addDraft (key : Origin × Option NodeId) (d : Draft) : Walk NodeId := do
  let s ← get
  set { drafts := s.drafts.push d, places := (key,s.drafts.size) :: s.places : Drafts }
  return s.drafts.size

def changeDraft (id : NodeId) (f : Draft → Draft) : Walk Unit :=
  modify fun s => { s with drafts := s.drafts.modify id f }

/-- The places of what a child of the mode at a place stands for. -/
def placeChild (g : Grammar) (placeMode : Origin → Mode → Walk NodeId) (id : NodeId) :
    Child → Walk (List NodeId)
  | .self => return [id]
  | .mode child => do (← occurrences g child).mapM fun (origin,m) => placeMode origin m

/-- The top mode cannot contain itself. -/
def checkTop (m : Mode) (parent : Option NodeId) : Walk Unit :=
  if parent.isNone && (m.contains.getD []).contains .self then throw .selfReferenceAtRoot
  else return ()

/-- Place the mode that follows the one at a place, if there is any. -/
def placeNext (g : Grammar) (placeMode : Origin → Mode → Walk NodeId) (id : NodeId) :
    Option ModeId → Walk Unit
  | none => return ()
  | some next => do
    let node ← placeMode (.table next) (← tableMode g next)
    changeDraft id ({ · with starts := some node })

/-- Give a mode a place under a parent, unless it has one, and then its children and its
continuation. The first argument is how much deeper the walk may go. -/
def place (g : Grammar) (dependencies : Array Bool) :
    Nat → Origin → Mode → Option NodeId → Walk NodeId
  | room, origin, m, parent => do
    let key := (origin,if dependsOnParent g dependencies origin m then parent else none)
    let s ← get
    if let some id := s.places.lookup key then
      return id
    match room with
    | 0 => throw (.nestingTooDeep maxNesting)
    | room + 1 =>
      let parentTerminator := parent.map (fun p => (s.drafts.getD p default).terminator)
      let id ← addDraft key (Draft.of m parentTerminator)
      checkTop m parent
      let children ← (m.contains.getD []).mapM
        (placeChild g (fun origin m => place g dependencies room origin m (some id)) id)
      changeDraft id ({ · with children := children.flatten })
      placeNext g (fun origin m => place g dependencies room origin m parent) id
        (parent.bind fun _ => m.starts)
      return id

/-- The drafts of all modes that the top mode reaches. -/
def draftAll (g : Grammar) : Except GrammarError (Array Draft) := do
  let (_,s) ← (place g g.parentDependencies (maxNesting + 1) .root g.root none).run {}
  return s.drafts

end Highlight.Assembly
