import Highlight.Proofs.Assembly.Sharing
import Highlight.Proofs.Assembly.Table

/-!
Node tables unfolded. Without sharing, every occurrence of a mode would get a node of its own, made
below the node of its actual parent; the nodes would form a tree, infinite where modes contain each
other. A node table is a graph in which many occurrences share a node. Followed from the top mode, it
looks like that tree at every step, so that sharing cannot be told from the outside.
-/
namespace Highlight

open Assembly

/-- A mode at the place where it occurs: the top mode, or a mode below its actual parent. A mode that
follows another one occurs below the same parent. -/
inductive Occurrence where
  | top (m : Mode)
  | under (m : Mode) (parent : Occurrence)

namespace Occurrence

variable {g : Grammar} {o : Occurrence}

def mode : Occurrence → Mode
  | top m | under m _ => m

def beginPattern : Occurrence → Option String
  | top _ => none
  | under m _ => some (beginOf m)

def endPattern : Occurrence → Option String
  | top _ => none
  | under m _ => endOf m

/-- The text of the end rule: the mode's own end and, if the mode ends with its parent, then the text
of the parent's end rule as an alternative, so far as there are any. -/
def endText : Occurrence → String
  | top _ => ""
  | under m parent => "|".intercalate ((endOf m).toList ++
      if m.endsWithParent && !parent.endText.isEmpty then [parent.endText] else [])

def keywords (o : Occurrence) : Option Keywords :=
  o.mode.keywords <|> o.mode.beginKeywords.map Keywords.plain

/-- The guard of the begin. Keywords that begin a mode are guarded if nothing else is said. -/
def beginGuard : Occurrence → Option BeginGuard
  | top m => m.beginGuard
  | under m _ => m.beginGuard <|> m.beginKeywords.map fun _ => .noSurroundingDot

/-- What a child of a mode stands for where the mode occurs: a mode below it, or each variant of that
laid over its base. A mode that contains itself does so in the same place. -/
def childrenAs (g : Grammar) (o : Occurrence) : Child → Except GrammarError (List Occurrence)
  | .self => return [o]
  | .mode id => do return (← occurrences g id).map fun (_,m) => under m o

/-- What a mode contains where it occurs, in order. -/
def children (g : Grammar) (o : Occurrence) : Except GrammarError (List Occurrence) := do
  return (← (o.mode.contains.getD []).mapM (childrenAs g o)).flatten

/-- What follows a mode where it occurs. -/
def next (g : Grammar) : Occurrence → Option Occurrence
  | top _ => none
  | under m parent => (g.next? m).map (under · parent)

/-- The rules of an occurrence, given the nodes of its children: their begins in order, the end, and
what is illegal. -/
def rules (o : Occurrence) (children : List Occurrence) (ids : List NodeId) : List Rules.Rule :=
  List.zipWith (fun child id => { pattern := child.beginPattern.getD "", kind := .begins id }) children ids ++
  (if o.endText.isEmpty then [] else [{ pattern := o.endText, kind := .ends }]) ++
  (match o.mode.illegal with
    | some illegal => [{ pattern := illegal, kind := .illegal }]
    | none => [])

end Occurrence

/-- A node that is like one made for an occurrence alone: it has the settings of the mode, matches by
the rules of the occurrence, and refers to nodes that stand for what the occurrence refers to. -/
structure NodeTable.Mirrors (t : NodeTable) (g : Grammar) (standsFor : Occurrence → NodeId → Prop)
    (o : Occurrence) (id : NodeId) : Prop where
  placed : id < t.size
  className : (t.node id).className = o.mode.className
  beginPattern : (t.node id).beginPattern = o.beginPattern
  endRegex : Option.Rel (fun p re => Regex.compileAnchored p g.ignoreCase = .ok re) o.endPattern
    (t.node id).endRegex
  keywords : (t.node id).keywords = o.keywords.map (KeywordTable.ofKeywords · g.ignoreCase)
  lexemes : Regex.compileRule (o.mode.lexemes.getD defaultLexemes) g.ignoreCase = .ok (t.node id).lexemes
  relevance : (t.node id).relevance = o.mode.relevance.getD 1
  switches : (t.node id).switches = o.mode.switches.resolve
  subLanguage : (t.node id).subLanguage = o.mode.subLanguage
  beginGuard : (t.node id).beginGuard = o.beginGuard
  rules : ∃ children ids, o.children g = .ok children ∧ List.Forall₂ standsFor children ids ∧
    Rules.RuleSet.build (o.rules children ids) g.ignoreCase = .ok (t.node id).rules
  starts : Option.Rel standsFor (o.next g) (t.node id).starts

/-- The table unfolds from a node as the modes do from an occurrence: there is a relation between
occurrences and nodes that leads from related ones to related ones, and relates only what is alike. -/
def NodeTable.Unfolds (t : NodeTable) (g : Grammar) (o : Occurrence) (id : NodeId) : Prop :=
  ∃ standsFor : Occurrence → NodeId → Prop,
    (∀ o id, standsFor o id → t.Mirrors g standsFor o id) ∧ standsFor o id

namespace Assembly

variable {g : Grammar} {s : Drafts} {o : Occurrence} {id : NodeId}

/-- The draft that an occurrence would have alone, without references. -/
def draftOf : Occurrence → Draft
  | .top m => Draft.of m none
  | .under m parent => Draft.of m (some parent.endText)

/-- The place that an occurrence finds. A mode that depends on its parent finds it below a place that
the parent finds. -/
def Represents (g : Grammar) (s : Drafts) : Occurrence → NodeId → Prop
  | .top m, id => m = g.root ∧ s.places.lookup (.root,none) = some id
  | .under m parent, id => ∃ origin owner, origin.mode? g = some m ∧ origin ≠ .root ∧
      s.places.lookup (keyOf g origin m owner) = some id ∧
      (g.dependsOnParent m = true → ∃ p, owner = some p ∧ Represents g s parent p)

/-- What follows a mode where it occurs; the top mode is followed by nothing. -/
def followerOf : Occurrence → Option ModeId
  | .top _ => none
  | .under m _ => m.starts

/-- The draft at a place that stands for an occurrence: the draft that the occurrence would have alone,
with the places that the modes in it find. -/
structure DraftsAlike (g : Grammar) (s : Drafts) (o : Occurrence) (id : NodeId) (d : Draft) : Prop where
  draft : s.drafts[id]? = some d
  own : d = { draftOf o with children := d.children, starts := d.starts }
  children : ∃ groups, d.children = groups.flatten ∧
    List.Forall₂ (PlacesChild g s id) (o.mode.contains.getD []) groups
  starts : ∃ owner, PlacesNext g s owner (followerOf o) d.starts ∧
    ∀ m parent, o = .under m parent → g.dependsOnParent m = true →
      ∃ p, owner = some p ∧ Represents g s parent p

lemma terminatorOf_of_not_endsWithParent {m : Mode} (h : m.endsWithParent = false) (parent parent' : String) :
    terminatorOf m parent = terminatorOf m parent' := by
  rw [terminatorOf,terminatorOf,h]
  rfl

lemma terminatorOf_eq (m : Mode) (parent : String) : terminatorOf m parent =
    "|".intercalate ((endOf m).toList ++ if m.endsWithParent && !parent.isEmpty then [parent] else []) := by
  rw [terminatorOf]
  by_cases h : (m.endsWithParent && !parent.isEmpty) = true
  · rw [if_pos h,if_pos h]
    cases endOf m <;> simp
  · rw [if_neg h,if_neg h]
    cases endOf m <;> simp

lemma draftOf_eq (o : Occurrence) : draftOf o = {
    mode := { o.mode with beginGuard := o.beginGuard }, beginPattern := o.beginPattern
    endPattern := o.endPattern, terminator := o.endText, keywords := o.keywords } := by
  cases o with
  | top m =>
    cases m
    rfl
  | under m parent =>
    have hend : terminatorOf m parent.endText = (Occurrence.under m parent).endText := terminatorOf_eq _ _
    rw [draftOf,Draft.of,hend]
    obtain ⟨_,_,_,beginKeywords,_,_,_,_,_,_,_,_,_,beginGuard⟩ := m
    cases beginKeywords <;> cases beginGuard <;> rfl

lemma Draft.of_some_congr {m : Mode} {parent parent' : String}
    (h : terminatorOf m parent = terminatorOf m parent') :
    Draft.of m (some parent) = Draft.of m (some parent') := by
  simp only [Draft.of,h]

/-- A place that an occurrence finds has a draft like its own. -/
lemma Represents.draftsAlike (hs : ∀ key i, s.places.lookup key = some i → Settled g s key i)
    (h : Represents g s o id) : ∃ d, DraftsAlike g s o id d := by
  induction o generalizing id with
  | top m =>
    obtain ⟨rfl,hid⟩ := h
    obtain ⟨m,parent,d,hd⟩ := hs _ _ hid
    obtain rfl : g.root = m := Option.some.inj hd.mode
    obtain rfl := hd.root.mp rfl
    exact ⟨d,hd.draft,hd.own,hd.children,none,hd.starts,nofun⟩
  | under m parent ih =>
    obtain ⟨origin,owner,hmode,hroot,hid,howner⟩ := h
    obtain ⟨m',terminator,d,hd⟩ := hs _ _ hid
    obtain rfl : m = m' := Option.some.inj (hmode.symm.trans hd.mode)
    cases terminator with
    | none => exact absurd (hd.root.mpr rfl) hroot
    | some terminator =>
      have hkey : g.dependsOnParent m = true → (keyOf g origin m owner).2 = owner := fun hdep => if_pos hdep
      have hsame : terminatorOf m terminator = terminatorOf m parent.endText := by
        cases hends : m.endsWithParent with
        | false => exact terminatorOf_of_not_endsWithParent hends _ _
        | true =>
          have hdep : g.dependsOnParent m = true := Grammar.dependsOnParent_iff.mpr (.inl hends)
          obtain ⟨p,d',hp,hd',hterminator⟩ := hd.parent hends terminator rfl
          obtain ⟨p',hp',hrep⟩ := howner hdep
          obtain ⟨d'',hd''⟩ := ih hrep
          rw [hkey hdep,hp'] at hp
          cases hp
          cases hd'.symm.trans hd''.draft
          rw [← hterminator,hd''.own,draftOf_eq]
      refine ⟨d,hd.draft,?_,hd.children,_,hd.starts,?_⟩
      · rw [draftOf,← Draft.of_some_congr hsame]
        exact hd.own
      · intro m' parent' heq hdep
        cases heq
        rw [hkey hdep]
        exact howner hdep

lemma childrenAs_of_places (hrep : Represents g s o id) {child : Child} {ids : List NodeId}
    (h : PlacesChild g s id child ids) :
    ∃ children, o.childrenAs g child = .ok children ∧ List.Forall₂ (Represents g s) children ids := by
  cases child with
  | self =>
    cases h
    exact ⟨[o],rfl,.cons hrep .nil⟩
  | mode child =>
    obtain ⟨found,hfound,hids⟩ := h
    refine ⟨found.map fun f => .under f.2 o,by rw [Occurrence.childrenAs,hfound]; rfl,?_⟩
    refine List.forall₂_map_left_iff.mpr (((List.forall₂_and_left found ids).mpr ⟨fun f hf => hf,hids⟩).imp ?_)
    rintro f i ⟨hf,hi⟩
    exact ⟨f.1,some id,occurrences_mode hfound f hf,occurrences_origin hfound f hf,hi,fun _ => ⟨id,rfl,hrep⟩⟩

/-- What a mode contains finds its places below the mode. -/
lemma mapM_childrenAs_of_places (hrep : Represents g s o id) {contains : List Child}
    {groups : List (List NodeId)} (h : List.Forall₂ (PlacesChild g s id) contains groups) :
    ∃ children, contains.mapM (o.childrenAs g) = .ok children ∧
      List.Forall₂ (Represents g s) children.flatten groups.flatten := by
  induction h with
  | nil => exact ⟨[],rfl,.nil⟩
  | cons hchild _ ih =>
    obtain ⟨first,hfirst,hids⟩ := childrenAs_of_places hrep hchild
    obtain ⟨rest,hrest,hids'⟩ := ih
    refine ⟨first :: rest,?_,List.rel_append hids hids'⟩
    rw [List.mapM_cons,hfirst,hrest]
    rfl

/-- What follows a mode finds its place below the parent that the mode found its own below. -/
lemma next_of_places {d : Draft} (h : DraftsAlike g s o id d) :
    Option.Rel (Represents g s) (o.next g) d.starts := by
  obtain ⟨owner,hnext,howner⟩ := h.starts
  cases o with
  | top m =>
    rw [show d.starts = none from hnext]
    exact .none
  | under m parent =>
    change PlacesNext g s owner m.starts d.starts at hnext
    rw [Occurrence.next,Grammar.next?]
    cases hn : m.starts with
    | none =>
      rw [hn] at hnext
      rw [show d.starts = none from hnext]
      exact .none
    | some n =>
      rw [hn] at hnext
      obtain ⟨m',i,hm',hi,hfound⟩ := hnext
      rw [hi,Option.bind_some,hm']
      refine .some ⟨.table n,owner,hm',Origin.noConfusion,hfound,fun hdep => howner m parent rfl ?_⟩
      exact Grammar.dependsOnParent_iff.mpr (.inr ⟨m',by rw [Grammar.next?,hn]; exact hm',hdep⟩)

/-- The nodes that a draft's rules begin begin as the occurrences that find them. -/
lemma begins_eq (hs : ∀ key i, s.places.lookup key = some i → Settled g s key i)
    {children : List Occurrence} {ids : List NodeId}
    (h : List.Forall₂ (Represents g s) children ids) :
    ids.map (fun child => ({ pattern := ((s.drafts.getD child default).beginPattern).getD ""
                             kind := .begins child } : Rules.Rule)) =
      List.zipWith (fun child id => { pattern := child.beginPattern.getD "", kind := .begins id })
        children ids := by
  induction h with
  | nil => rfl
  | @cons child i children ids hchild _ ih =>
    obtain ⟨d,hd⟩ := hchild.draftsAlike hs
    have hbegin : d.beginPattern = child.beginPattern := by rw [hd.own,draftOf_eq]
    rw [List.map_cons,List.zipWith_cons_cons,ih,Array.getD_eq_getD_getElem?,hd.draft,
      Option.getD_some,hbegin]

lemma rulesOf_eq (hs : ∀ key i, s.places.lookup key = some i → Settled g s key i) {d : Draft}
    (hd : DraftsAlike g s o id d) {children : List Occurrence}
    (hchildren : List.Forall₂ (Represents g s) children d.children) :
    rulesOf s.drafts d = o.rules children d.children := by
  have hterminator : d.terminator = o.endText := by rw [hd.own,draftOf_eq]
  have hillegal : d.mode.illegal = o.mode.illegal := by rw [hd.own,draftOf_eq]
  rw [rulesOf,begins_eq hs hchildren,hterminator,hillegal]
  rfl

/-- A node made from a draft like an occurrence's own mirrors the occurrence. -/
lemma mirrors_of_nodeOf {t : NodeTable} (hs : ∀ key i, s.places.lookup key = some i → Settled g s key i)
    (hsize : t.size = s.drafts.size) (hrep : Represents g s o id) {d : Draft} (hd : DraftsAlike g s o id d)
    (hnode : nodeOf s.drafts g.ignoreCase d = .ok (t.node id)) :
    t.Mirrors g (Represents g s) o id := by
  obtain ⟨groups,hflat,hgroups⟩ := hd.children
  obtain ⟨children,hchildren,hids⟩ := mapM_childrenAs_of_places hrep hgroups
  rw [← hflat] at hids
  have hof := drafted_of_nodeOf hnode
  have hmode : d.mode = { o.mode with beginGuard := o.beginGuard } := by rw [hd.own,draftOf_eq]
  have hendPattern : d.endPattern = o.endPattern := by rw [hd.own,draftOf_eq]
  exact {
    placed := by
      rw [hsize]
      exact (Array.getElem?_eq_some_iff.mp hd.draft).1
    className := by rw [hof.className,hmode]
    beginPattern := by rw [hof.beginPattern,hd.own,draftOf_eq]
    endRegex := hendPattern ▸ hof.endRegex
    keywords := by rw [hof.keywords,hd.own,draftOf_eq]
    lexemes := by rw [← hof.lexemes,hmode]
    relevance := by rw [hof.relevance,hmode]
    switches := by rw [hof.switches,hmode]
    subLanguage := by rw [hof.subLanguage,hmode]
    beginGuard := by rw [hof.beginGuard,hmode]
    rules := ⟨children.flatten,d.children,by rw [Occurrence.children,hchildren]; rfl,hids,
      rulesOf_eq hs hd hids ▸ hof.rules⟩
    starts := by rw [hof.starts]; exact next_of_places hd }

end Assembly

/-- Sharing nodes is invisible: the node table of a grammar unfolds from the top mode's node as if every
occurrence of a mode had a node of its own, made below its actual parent. -/
theorem Grammar.assemble_unfolds {g : Grammar} {t : NodeTable} (h : g.assemble = .ok t) :
    t.Unfolds g (.top g.root) rootNode := by
  obtain ⟨drafts,hdrafts,hsize,hnode⟩ := node_of_assemble h
  obtain ⟨s,rfl,hroot,hs⟩ := draftAll_settled hdrafts
  refine ⟨Represents g s,fun o id hrep => ?_,rfl,hroot⟩
  obtain ⟨d,hd⟩ := hrep.draftsAlike hs
  rcases hnode id with ⟨hnone,-⟩ | ⟨d',hd',hof⟩
  · rw [hd.draft] at hnone
    cases hnone
  · obtain rfl : d = d' := Option.some.inj (hd.draft.symm.trans hd')
    exact mirrors_of_nodeOf hs hsize hrep hd hof

/-- A grammar with a mode that ends with its parent, below two parents with different ends. One of
these is reached a second time, as what follows the other. -/
def twoParents : Grammar where
  name := "two parents"
  root := { contains := some [.mode 1,.mode 2] }
  modes := #[
    { beginPattern := some "x", endPattern := some "y"
      switches := { Switches.unset with endsWithParent := some true } },
    { beginPattern := some "<", endPattern := some ">", contains := some [.mode 0] },
    { beginPattern := some "\\[", endPattern := some "\\]", contains := some [.mode 0], starts := some 1 }]

theorem Grammar.assemble_unfolds_twoParents : ∃ t, twoParents.assemble = .ok t ∧ t.size = 5 ∧
    t.Unfolds twoParents (.top twoParents.root) rootNode := by
  have hsize : twoParents.assemble.toOption.map NodeTable.size = some 5 := by decide +kernel
  cases ht : twoParents.assemble with
  | error e =>
    rw [ht] at hsize
    cases hsize
  | ok t =>
    rw [ht] at hsize
    exact ⟨t,rfl,Option.some.inj hsize,assemble_unfolds ht⟩

end Highlight
