import Highlight.Proofs.Rules.Anchored
import Highlight.Proofs.Scan.Neighbours

/-!
The own end of a node, apart from the ends that it shares with its parents. The node keeps it as a regex
of its own, which tells at a place where an end rule matches whether the node itself ends there.
-/
namespace Highlight

open Assembly Rules

/-- The ends of all modes can be told by the text from a position on: they match there whether or not
what lies before is in sight, and are read in a group as they are alone. -/
def Grammar.EndsLookAhead (g : Grammar) (named : Bool) : Prop :=
  ∀ m ∈ g.innerModes, ∀ own ∈ endOf m,
    FitsFrom named 0 own.toList ∧ countGroups own < UInt64.size ∧ LooksAhead g.ignoreCase own

/-- A test for ends of this kind: they ask for nothing before the position where they start. -/
def Grammar.endsAskAhead (g : Grammar) (named : Bool) : Bool :=
  g.innerModes.all fun m => (endOf m).all fun own =>
    fitsWithin named own.toList.length 0 own.toList && decide (countGroups own < UInt64.size) &&
      (Regex.compileRule own g.ignoreCase).toOption.any (·.pattern.looksAhead)

lemma Grammar.EndsLookAhead.of_endsAskAhead {g : Grammar} {named : Bool}
    (h : g.endsAskAhead named = true) : g.EndsLookAhead named := by
  intro m hm own hown
  have hall := List.all_eq_true.mp h m hm
  rw [Option.mem_def.mp hown] at hall
  simp only [Option.all_some,Bool.and_eq_true,decide_eq_true_eq] at hall
  exact ⟨hall.1.1,hall.1.2,.of_looksAhead hall.2⟩

namespace Assembly

variable {g : Grammar} {t : NodeTable} {s : Drafts} {p id below : NodeId} {m : Mode} {own : String}
  {origin : Origin} {owner : Option NodeId} {text : Source} {q : Nat}

/-- What the draft at the place of a mode takes from the mode. -/
lemma draft_of_place (hs : walk g = .ok s) (horigin : origin ≠ .root) (hmode : origin.mode? g = some m)
    (hplace : s.places.lookup (keyOf g origin m owner) = some id) : ∃ d, s.drafts[id]? = some d ∧
      d.mode.switches = m.switches ∧ d.endPattern = endOf m ∧ d.beginPattern = some (beginOf m) := by
  obtain ⟨m',terminator,d,hsettles⟩ := (walk_settled hs).2 _ _ hplace
  obtain rfl : m = m' := Option.some.inj (hmode.symm.trans hsettles.mode)
  refine ⟨d,hsettles.draft,?_,?_⟩
  · rw [hsettles.own]
    exact switches_draft_of m terminator
  · cases terminator with
    | none => exact absurd (hsettles.root.mpr rfl) horigin
    | some terminator =>
      rw [hsettles.own]
      exact ⟨rfl,rfl⟩

/-- A node has the switches of the mode that it is made for. -/
lemma switches_of_place (hg : g.assemble = .ok t) (hs : walk g = .ok s) (horigin : origin ≠ .root)
    (hmode : origin.mode? g = some m) (hplace : s.places.lookup (keyOf g origin m owner) = some id) :
    (t.node id).switches = m.switches.resolve := by
  obtain ⟨d,hd,hswitches,-⟩ := draft_of_place hs horigin hmode hplace
  obtain ⟨drafts,hdrafts,-,hnode⟩ := Grammar.node_of_assemble hg
  obtain ⟨s',hs',rfl⟩ := draftAll_eq_ok.mp hdrafts
  obtain rfl := Except.ok.inj (hs.symm.trans hs')
  rcases hnode id with ⟨hnone,-⟩ | ⟨d',hd',hof⟩
  · rw [hd] at hnone
    cases hnone
  · obtain rfl := Option.some.inj (hd.symm.trans hd')
    rw [(drafted_of_nodeOf hof).switches,hswitches]

lemma endsWithParent_of_place (hg : g.assemble = .ok t) (hs : walk g = .ok s) (horigin : origin ≠ .root)
    (hmode : origin.mode? g = some m) (hplace : s.places.lookup (keyOf g origin m owner) = some id) :
    (t.node id).switches.endsWithParent = m.endsWithParent := by
  rw [switches_of_place hg hs horigin hmode hplace]
  rfl

/-- The pattern that a node ends with, apart from the ends of its parents. -/
def OwnEnd (g : Grammar) (id : NodeId) (own : String) : Prop :=
  ∃ p m, CompiledUnder g p m id ∧ endOf m = some own

/-- Whether the own end of a node matches at a position. -/
def OwnEndsAt (g : Grammar) (id : NodeId) (text : Source) (position : Nat) : Prop :=
  ∃ own, OwnEnd g id own ∧ MatchesAt own g.ignoreCase text position

/-- The regex of a node is that of its own end, which is the only one. -/
lemma endRegex_of_isInner (hg : g.assemble = .ok t) (hid : IsInner t.size id) :
    ((t.node id).endRegex = none ∧ ∀ own, ¬ OwnEnd g id own) ∨
      ∃ own r, OwnEnd g id own ∧ (∀ own', OwnEnd g id own' → own' = own) ∧
        Regex.compileAnchored own g.ignoreCase = .ok r ∧ (t.node id).endRegex = some r := by
  obtain ⟨p,-,m,hm⟩ := Grammar.exists_compiledUnder hg hid
  obtain ⟨drafts,hdrafts,-,hnode⟩ := Grammar.node_of_assemble hg
  obtain ⟨s,hs,rfl⟩ := draftAll_eq_ok.mp hdrafts
  have hdraft : ∀ {p m}, CompiledUnder g p m id →
      ∃ d, s.drafts[id]? = some d ∧ d.endPattern = endOf m := by
    rintro p m ⟨s',origin,hs',horigin,hmode,hplace⟩
    obtain rfl := Except.ok.inj (hs.symm.trans hs')
    obtain ⟨d,hd,-,hend,-⟩ := draft_of_place hs horigin hmode hplace
    exact ⟨d,hd,hend⟩
  obtain ⟨d,hd,hend⟩ := hdraft hm
  have hown : ∀ own, OwnEnd g id own → d.endPattern = some own := by
    rintro own ⟨p',m',hm',hown⟩
    obtain ⟨d',hd',hend'⟩ := hdraft hm'
    rw [Option.some.inj (hd.symm.trans hd'),hend',hown]
  rcases hnode id with ⟨hnone,-⟩ | ⟨d',hd',hof⟩
  · rw [hd] at hnone
    cases hnone
  · obtain rfl := Option.some.inj (hd.symm.trans hd')
    have hrel := (drafted_of_nodeOf hof).endRegex
    generalize hregex : (t.node id).endRegex = regex at hrel
    cases he : d.endPattern with
    | none =>
      rw [he] at hrel
      cases hrel
      refine .inl ⟨rfl,fun own h => ?_⟩
      rw [hown own h] at he
      cases he
    | some own =>
      rw [he] at hrel
      cases hrel with
      | some hr =>
        exact .inr ⟨own,_,⟨p,m,hm,hend.symm.trans he⟩,
          fun own' h => Option.some.inj ((hown own' h).symm.trans he),hr,rfl⟩

/-- A node has no other rule that ends it than its end rule. -/
lemma endRule?_of_mem (hg : g.assemble = .ok t) {rule : Rule} (hrule : rule ∈ (t.node id).rules.rules)
    (hkind : rule.kind = .ends) : t.endRule? id = some rule := by
  obtain ⟨drafts,-,-,hnode⟩ := Grammar.node_of_assemble hg
  rcases hnode id with ⟨-,hdefault⟩ | ⟨d,-,hof⟩
  · rw [hdefault] at hrule
    cases hrule
  · rw [(drafted_of_nodeOf hof).rules_eq] at hrule
    rw [(endRule?_of_nodeOf hof).2]
    simp only [rulesOf,List.mem_append,List.mem_map] at hrule
    rcases hrule with (⟨child,-,rfl⟩ | hrule) | hrule
    · cases hkind
    · split at hrule
      · cases hrule
      · rename_i hne
        rw [if_neg (by simpa using hne),List.mem_singleton.mp hrule]
    · split at hrule
      · rw [List.mem_singleton.mp hrule] at hkind
        cases hkind
      · cases hrule

/-- Where the end rule of a node matches, the own end of its mode does or, if it ends with its parent,
the end rule of the parent. -/
lemma own_or_parent_of_endsAt (hg : g.assemble = .ok t) (hends : g.EndsApart)
    (hid : CompiledUnder g p m id) (hq : q ≤ text.size) (h : t.EndsAt id text q) :
    OwnEndsAt g id text q ∨ m.endsWithParent = true ∧ t.EndsAt p text q := by
  have hcase := ignoreCase_of_assemble hg
  by_cases hinherits : m.endsWithParent = true ∧ t.endText p ≠ ""
  · obtain ⟨hm,hne⟩ := hinherits
    obtain ⟨grouped,hends⟩ := hends
    have hparent := (endText_selfContained hg hends p).resolve_left hne
    have hjoin : ∀ own, endOf m = some own → Joinable own (t.endText p) t.ignoreCase :=
      fun own hown => hcase ▸ (hends m hid.mem_innerModes own hown).joinable hparent
    rcases (endsAt_inherited_iff hg hid hm hne hjoin hq).mp h with ⟨own,hown,hmatch⟩ | hmatch
    · exact .inl ⟨own,⟨p,m,hid,hown⟩,hcase ▸ hmatch⟩
    · exact .inr ⟨hm,(endsAt_iff_endText hg).mpr ⟨hne,hmatch⟩⟩
  · rw [endsAt_iff_endText hg,endText_of_compiledUnder hg hid,terminatorOf_own hinherits] at h
    cases hown : endOf m with
    | none =>
      rw [hown] at h
      exact absurd rfl h.1
    | some own =>
      rw [hown] at h
      exact .inl ⟨own,⟨p,m,hid,hown⟩,hcase ▸ h.2⟩

/-- Where the end rule of a node matches and its own end does not, the node ends with its parent, and
the end rule of the node that it is inside of matches. -/
theorem endsAt_below (hg : g.assemble = .ok t) (hs : walk g = .ok s) (hends : g.EndsApart)
    (hid : Inside g s id below) (hinner : IsInner t.size id) (hq : q ≤ text.size)
    (h : t.EndsAt id text q) (hown : ¬ OwnEndsAt g id text q) :
    (t.node id).switches.endsWithParent = true ∧ t.EndsAt below text q := by
  obtain ⟨p,-,m,hm⟩ := Grammar.exists_compiledUnder hg hinner
  obtain ⟨hparent,-⟩ := (own_or_parent_of_endsAt hg hends hm hq h).resolve_left hown
  have hswitch : (t.node id).switches.endsWithParent = true := by
    obtain ⟨s',origin,hs',horigin,hmode,hplace⟩ := hm
    rw [endsWithParent_of_place hg hs' horigin hmode hplace,hparent]
  refine ⟨hswitch,?_⟩
  obtain ⟨origin,m,owner,horigin,hmode,hplace,howner⟩ := hid
  have hparent : m.endsWithParent = true :=
    (endsWithParent_of_place hg hs horigin hmode hplace).symm.trans hswitch
  rcases howner (Grammar.dependsOnParent_iff.mpr (.inl hparent)) with rfl | ⟨rfl,-⟩
  · have hm : CompiledUnder g below m id := ⟨s,origin,hs,horigin,hmode,hplace⟩
    exact ((own_or_parent_of_endsAt hg hends hm hq h).resolve_left hown).2
  · exact h

end Assembly
end Highlight
