import Highlight.Proofs.Assembly.Terminator
import Highlight.Proofs.Scan.Moves
import Mathlib.Data.List.Chain

/-!
Modes that end with their parents, and what is really around them. The parent that a node was compiled
under lies right below it on the stack of open modes, or the node itself does, as one that its mode
contains again. A mode that contains itself has one node however deep it is nested, and what follows it
was compiled under the outermost parent, so that it must not depend on that.
-/
namespace Highlight

open Assembly

/-- No mode that contains itself is followed by one that depends on its parent. -/
def Grammar.NestsApart (g : Grammar) : Prop :=
  ∀ m ∈ g.innerModes, Child.self ∈ m.contains.getD [] → ∀ next ∈ g.next? m,
    g.dependsOnParent next = false

instance (g : Grammar) : Decidable g.NestsApart :=
  inferInstanceAs (Decidable (∀ m ∈ g.innerModes, Child.self ∈ m.contains.getD [] → _))

namespace Assembly

variable {g : Grammar} {t : NodeTable} {s : Drafts} {id below next : NodeId}

/-- A node is one that its mode has inside the node below: compiled under that one or, if the mode
contains itself, the same. -/
def Inside (g : Grammar) (s : Drafts) (id below : NodeId) : Prop :=
  ∃ origin m owner, origin ≠ .root ∧ origin.mode? g = some m ∧
    s.places.lookup (keyOf g origin m owner) = some id ∧
    (g.dependsOnParent m = true →
      owner = some below ∨ id = below ∧ Child.self ∈ m.contains.getD [])

/-- A node that has rules or a follower has them from its draft. -/
lemma nodeOf_of_node (hg : g.assemble = .ok t) (hs : walk g = .ok s) (id : NodeId) :
    t.node id = default ∨
      ∃ d, s.drafts[id]? = some d ∧ nodeOf s.drafts g.ignoreCase d = .ok (t.node id) := by
  obtain ⟨drafts,hdrafts,-,hnode⟩ := Grammar.node_of_assemble hg
  obtain ⟨s',hs',rfl⟩ := draftAll_eq_ok.mp hdrafts
  obtain rfl := Except.ok.inj (hs.symm.trans hs')
  exact (hnode id).imp_left And.right

/-- What a rule begins is inside the node that has the rule. -/
theorem inside_of_begins (hg : g.assemble = .ok t) (hs : walk g = .ok s) {rule : Rules.Rule}
    (hrule : rule ∈ (t.node below).rules.rules) (hkind : rule.kind = .begins id) :
    Inside g s id below := by
  rcases nodeOf_of_node hg hs below with hdefault | ⟨d,hd,hof⟩
  · rw [hdefault] at hrule
    cases hrule
  rw [(drafted_of_nodeOf hof).rules_eq] at hrule
  have hid := kind_of_mem_rulesOf hrule hkind
  obtain ⟨key,hkey⟩ := (walk_placed hs).all below (Array.getElem?_eq_some_iff.mp hd).1
  obtain ⟨m,parentTerminator,d',hsettles⟩ := (walk_settled hs).2 key below hkey
  obtain rfl := Option.some.inj (hd.symm.trans hsettles.draft)
  obtain ⟨groups,hflat,hgroups⟩ := hsettles.children
  rw [hflat] at hid
  obtain ⟨ids,hids,hid⟩ := List.mem_flatten.mp hid
  obtain ⟨child,hchild,hplaces⟩ := Rules.forall₂_mem hgroups hids
  cases child with
  | self =>
    obtain rfl : ids = [below] := hplaces
    obtain rfl := List.mem_singleton.mp hid
    obtain ⟨m',parent,hmade⟩ := (walk_placed hs).made key id hkey
    obtain rfl := Option.some.inj (hsettles.mode.symm.trans hmade.mode)
    refine ⟨key.1,m,parent,fun hroot => ?_,hmade.mode,hmade.kept ▸ hkey,fun _ => .inr ⟨rfl,hchild⟩⟩
    have hkept : key = (.root,none) := by
      rw [hmade.kept,hroot,hmade.root.mp hroot,keyOf,ite_self]
    rw [hkept,(walk_settled hs).1] at hkey
    have hinner := (Grammar.assemble_closed hg).begins id rule
    rw [(drafted_of_nodeOf hof).rules_eq] at hinner
    exact (hinner hrule id hkind).1 (Option.some.inj hkey).symm
  | mode child =>
    obtain ⟨found,hfound,hplaces⟩ := hplaces
    obtain ⟨o,ho,hplace⟩ := Rules.forall₂_mem hplaces hid
    exact ⟨o.1,o.2,some below,occurrences_origin hfound o ho,occurrences_mode hfound o ho,hplace,
      fun _ => .inl rfl⟩

/-- What follows a node is inside whatever the node is inside. -/
theorem inside_of_starts (hg : g.assemble = .ok t) (hs : walk g = .ok s) (hnests : g.NestsApart)
    (hid : Inside g s id below) (hstarts : (t.node id).starts = some next) : Inside g s next below := by
  obtain ⟨origin,m,owner,horigin,hmode,hplace,howner⟩ := hid
  rcases nodeOf_of_node hg hs id with hdefault | ⟨d,hd,hof⟩
  · rw [hdefault] at hstarts
    cases hstarts
  rw [(drafted_of_nodeOf hof).starts] at hstarts
  obtain ⟨m',parentTerminator,d',hsettles⟩ := (walk_settled hs).2 _ _ hplace
  obtain rfl := Option.some.inj (hd.symm.trans hsettles.draft)
  obtain rfl : m = m' := Option.some.inj (hmode.symm.trans hsettles.mode)
  have hnext := hsettles.starts
  cases parentTerminator with
  | none => exact absurd (hsettles.root.mpr rfl) horigin
  | some terminator =>
    rw [Option.bind_some,hstarts] at hnext
    cases hn : m.starts with
    | none =>
      rw [hn] at hnext
      cases hnext
    | some n =>
      rw [hn] at hnext
      obtain ⟨m',i,hm',hi,hnext⟩ := hnext
      obtain rfl := Option.some.inj hi
      have hfollows : g.next? m = some m' := by
        rw [Grammar.next?,hn]
        exact hm'
      refine ⟨.table n,m',_,Origin.noConfusion,hm',hnext,fun hdep => ?_⟩
      have hm : g.dependsOnParent m = true := Grammar.dependsOnParent_iff.mpr (.inr ⟨m',hfollows,hdep⟩)
      rcases howner hm with rfl | ⟨-,hself⟩
      · exact .inl (if_pos hm)
      · have hnot := hnests m (mem_innerModes horigin hmode) hself m' hfollows
        rw [hdep] at hnot
        cases hnot

lemma switches_draft_of (m : Mode) (parent : Option String) :
    (Draft.of m parent).mode.switches = m.switches := by
  cases parent with
  | none => rfl
  | some parent =>
    simp only [Draft.of]
    split
    · rfl
    · rfl

/-- A node that ends with its parent, inside another one: it ends where that one does. -/
theorem endsAt_of_inside (hg : g.assemble = .ok t) (hs : walk g = .ok s) (hends : g.EndsApart)
    (hid : Inside g s id below) (hparent : (t.node id).switches.endsWithParent = true) {text : Source}
    {q : Nat} (hq : q ≤ text.size) (hbelow : t.EndsAt below text q) : t.EndsAt id text q := by
  obtain ⟨origin,m,owner,horigin,hmode,hplace,howner⟩ := hid
  obtain ⟨m',parentTerminator,d,hsettles⟩ := (walk_settled hs).2 _ _ hplace
  obtain rfl : m = m' := Option.some.inj (hmode.symm.trans hsettles.mode)
  have hm : m.endsWithParent = true := by
    rcases nodeOf_of_node hg hs id with hdefault | ⟨d',hd',hof⟩
    · rw [hdefault] at hparent
      cases hparent
    · obtain rfl := Option.some.inj (hsettles.draft.symm.trans hd')
      have hswitches : d.mode.switches = m.switches := by
        rw [hsettles.own]
        exact switches_draft_of m parentTerminator
      rw [(drafted_of_nodeOf hof).switches,hswitches] at hparent
      exact hparent
  rcases howner (Grammar.dependsOnParent_iff.mpr (.inl hm)) with rfl | ⟨rfl,-⟩
  · exact endsAt_of_parent hg hends ⟨s,origin,hs,horigin,hmode,hplace⟩ hm hq hbelow
  · exact hbelow

end Assembly

namespace Scan

variable {g : Grammar} {env : Env} {s₀ s : State} {drafts : Drafts}

/-- Each open mode is inside the one below it. -/
def Neighbours (g : Grammar) (drafts : Drafts) (stack : List Frame) : Prop :=
  stack.IsChain (fun f below => Inside g drafts f.node below.node)

/-- What follows a node is inside whatever the node is inside. -/
def FollowersInside (g : Grammar) (t : NodeTable) (drafts : Drafts) : Prop :=
  ∀ id next below, (t.node id).starts = some next → Inside g drafts id below → Inside g drafts next below

/-- A move of the stack leaves it so. -/
lemma Moves.neighbours (hg : g.assemble = .ok env.table) (hs : walk g = .ok drafts)
    (hnext : FollowersInside g env.table drafts) {stack stack' : List Frame} (hmoves : Moves env stack stack')
    (h : Neighbours g drafts stack) : Neighbours g drafts stack' := by
  cases hmoves with
  | stays => exact h
  | @opens f _ rule hrule hkind =>
    cases stack with
    | nil => exact List.isChain_singleton f
    | cons b rest => exact List.isChain_cons_cons.mpr ⟨inside_of_begins hg hs hrule hkind,h⟩
  | @closes closed _ => exact List.IsChain.right_of_append h
  | @follows closed rest f next hstarts =>
    have hrest : Neighbours g drafts (f :: rest) := List.IsChain.right_of_append h
    cases rest with
    | nil => exact List.isChain_singleton next
    | cons b rest =>
      obtain ⟨hf,hrest⟩ := List.isChain_cons_cons.mp hrest
      exact List.isChain_cons_cons.mpr ⟨hnext _ _ _ hstarts hf,hrest⟩

lemma Visits.neighbours_of_followers (hg : g.assemble = .ok env.table) (hs : walk g = .ok drafts)
    (hnext : FollowersInside g env.table drafts) (h₀ : Neighbours g drafts s₀.stack)
    (h : Visits env s₀ s) : Neighbours g drafts s.stack := by
  have hmoves := h.moves
  generalize s.stack = stack at hmoves
  induction hmoves with
  | refl => exact h₀
  | tail _ hmove ih => exact hmove.neighbours hg hs hnext ih

/-- So it is throughout a scan that starts so. -/
theorem Visits.keepsNeighbours (hg : g.assemble = .ok env.table) (hs : walk g = .ok drafts)
    (hnests : g.NestsApart) (h₀ : Neighbours g drafts s₀.stack) (h : Visits env s₀ s) :
    Neighbours g drafts s.stack :=
  h.neighbours_of_followers hg hs (fun _ _ _ hstarts hid => inside_of_starts hg hs hnests hid hstarts) h₀

/-- So it is in a scan that starts with the top mode alone. -/
theorem Visits.neighbours (hg : g.assemble = .ok env.table) (hs : walk g = .ok drafts)
    (hnests : g.NestsApart) (h₀ : s₀.stack = [.top]) (h : Visits env s₀ s) :
    Neighbours g drafts s.stack :=
  h.keepsNeighbours hg hs hnests (h₀ ▸ List.isChain_singleton Frame.top)

/-- In a scan that starts with the top mode alone, a mode that ends with its parent has an end rule that
matches wherever that of the mode right below it does, if no mode that contains itself is followed by
one that depends on its parent. -/
theorem ends_with_neighbour (hg : g.assemble = .ok env.table) (hends : g.EndsApart)
    (hnests : g.NestsApart) {assembled : List String}
    (h : Visits env (.opened env.table none assembled) s) {above below : List Frame} {f b : Frame}
    (hstack : s.stack = above ++ f :: b :: below)
    (hparent : (env.switches f.node).endsWithParent = true) {text : Source} {q : Nat}
    (hq : q ≤ text.size) (hb : env.table.EndsAt b.node text q) : env.table.EndsAt f.node text q := by
  obtain ⟨drafts,hdrafts,-⟩ := Grammar.node_of_assemble hg
  obtain ⟨placed,hs,-⟩ := draftAll_eq_ok.mp hdrafts
  have hneighbours := h.neighbours hg hs hnests rfl
  rw [hstack] at hneighbours
  obtain ⟨hf,-⟩ := List.isChain_cons_cons.mp (List.IsChain.right_of_append hneighbours)
  exact endsAt_of_inside hg hs hends hf hparent hq hb

section Runs

variable {inAngle inParen : List Child} {code : String} {n q : Nat}

/-- A grammar of angles that contain parentheses, each of which is followed by a mode that ends with its
parent. -/
def trailing (inAngle inParen : List Child) : Grammar where
  name := "trailing"
  root := { contains := some [.mode 2] }
  modes := #[
    { className := some "rest", switches := { Switches.unset with endsWithParent := some true } },
    { className := some "paren", beginPattern := some "\\(", endPattern := some "\\)"
      contains := some inParen, starts := some 0 },
    { className := some "angle", beginPattern := some "<", endPattern := some ">"
      contains := some (.mode 1 :: inAngle) }]

/-- A state of a scan in which the innermost of three modes or more ends with its parent. -/
structure EndsInside (g : Grammar) (code : String) (env : Env) (s : State) (f b : Frame)
    (below : List Frame) : Prop where
  assembled : g.assemble = .ok env.table
  text : env.text = .ofString code
  visits : Visits env (.opened env.table none []) s
  stack : s.stack = f :: b :: below
  nested : below ≠ []
  parent : (env.switches f.node).endsWithParent = true

lemma exists_endsInside {g : Grammar} {f b : Frame} {below : List Frame} {endsBelow ends : Bool} (hne : below ≠ [])
    (h : shows g (Env.alone · code) n (fun table s =>
      decide (s.stack = f :: b :: below ∧ (table.node f.node).switches.endsWithParent = true ∧
        decide (table.EndsAt b.node (.ofString code) q) = endsBelow ∧
        decide (table.EndsAt f.node (.ofString code) q) = ends)) = true) :
    ∃ env s, EndsInside g code env s f b below ∧
      decide (env.table.EndsAt b.node (.ofString code) q) = endsBelow ∧
      decide (env.table.EndsAt f.node (.ofString code) q) = ends := by
  obtain ⟨table,s,htable,hs,h⟩ := exists_of_shows h
  obtain ⟨hstack,hparent,hbelow,hends⟩ := of_decide_eq_true h
  exact ⟨Env.alone table code,s,⟨htable,rfl,hs.visits,hstack,hne,hparent⟩,hbelow,hends⟩

/-- The angles contain themselves, but nothing follows them. -/
theorem ends_with_neighbour_trailing : ∃ (env : Env) (s : State) (f b : Frame) (below : List Frame),
    (trailing [.self] []).assemble = .ok env.table ∧ (trailing [.self] []).EndsApart ∧
      (trailing [.self] []).NestsApart ∧ Visits env (.opened env.table none []) s ∧
      s.stack = [] ++ f :: b :: below ∧ below ≠ [] ∧ (env.switches f.node).endsWithParent = true ∧
      env.table.EndsAt b.node (.ofString "<<()b>") 5 ∧ env.table.EndsAt f.node (.ofString "<<()b>") 5 := by
  obtain ⟨env,s,h,hb,-⟩ : ∃ env s, EndsInside (trailing [.self] []) "<<()b>" env s { node := 3 } { node := 1 }
      [{ node := 1 },.top] ∧ decide (env.table.EndsAt 1 (.ofString "<<()b>") 5) = true ∧
        decide (env.table.EndsAt 3 (.ofString "<<()b>") 5) = true :=
    exists_endsInside (n := 4) (List.cons_ne_nil _ _) (by decide +kernel)
  have hends : (trailing [.self] []).EndsApart := Grammar.EndsGroupless.endsApart (by decide +kernel)
  have hnests : (trailing [.self] []).NestsApart := by decide +kernel
  have hbelow := of_decide_eq_true hb
  have hstack : s.stack = [] ++ { node := 3 } :: { node := 1 } :: [{ node := 1 },.top] := h.stack
  exact ⟨env,s,_,_,_,h.assembled,hends,hnests,h.visits,hstack,h.nested,h.parent,hbelow,
    ends_with_neighbour h.assembled hends hnests h.visits hstack h.parent (by decide) hbelow⟩

/-- After the inner parentheses what follows them ends with the angle, and not with the outer
parentheses that are really around it. No pattern has a group. -/
theorem exists_ends_past_neighbour : ∃ (env : Env) (s : State) (f b : Frame) (below : List Frame),
    (trailing [] [.self]).assemble = .ok env.table ∧ env.text = .ofString "<((a)b)c>d" ∧
      (trailing [] [.self]).EndsGroupless ∧
      (∀ m ∈ (trailing [] [.self]).innerModes, Rules.Groupless false (beginOf m)) ∧
      Visits env (.opened env.table none []) s ∧ s.stack = f :: b :: below ∧ below ≠ [] ∧
      (env.switches f.node).endsWithParent = true ∧ env.table.EndsAt b.node env.text 6 ∧
      ¬ env.table.EndsAt f.node env.text 6 := by
  obtain ⟨env,s,h,hb,hf⟩ : ∃ env s, EndsInside (trailing [] [.self]) "<((a)b)c>d" env s { node := 3 } { node := 2 }
      [{ node := 1 },.top] ∧ decide (env.table.EndsAt 2 (.ofString "<((a)b)c>d") 6) = true ∧
        decide (env.table.EndsAt 3 (.ofString "<((a)b)c>d") 6) = false :=
    exists_endsInside (n := 4) (List.cons_ne_nil _ _) (by decide +kernel)
  refine ⟨env,s,_,_,_,h.assembled,h.text,by decide +kernel,by decide +kernel,h.visits,h.stack,
    h.nested,h.parent,?_,?_⟩
  · rw [h.text]
    exact of_decide_eq_true hb
  · rw [h.text]
    exact of_decide_eq_false hf

end Runs

end Scan
end Highlight
