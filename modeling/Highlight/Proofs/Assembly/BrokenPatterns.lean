import Highlight.Proofs.Assembly.Table
import Highlight.Proofs.Rules.Broken
import Highlight.Proofs.Scan.Halts

/-!
Broken patterns of a grammar. Patterns are compiled together when the grammar is assembled. If they are sealed, that
shows each that is broken, and a scan finds no others.
-/
namespace Highlight

open Rules Scan

namespace Assembly

/-- A node whose patterns are sealed, those of its rules one after the other and its own end, and light. -/
structure Outline.IsSealed (o : Outline) : Prop where
  rules : ∃ named, SealedRules named o.rules
  own : ∀ own ∈ o.endPattern, (∃ named, Sealed named [] own.toList) ∧ countGroups own < halfRange
  light : Light (o.rules.map (·.pattern.toList)) ∧ Light (o.endPattern.toList.map String.toList)

instance {o : Outline} : Decidable o.IsSealed :=
  decidable_of_iff ((∃ named, SealedRules named o.rules) ∧
      (∀ own ∈ o.endPattern, (∃ named, Sealed named [] own.toList) ∧ countGroups own < halfRange) ∧
      Light (o.rules.map (·.pattern.toList)) ∧ Light (o.endPattern.toList.map String.toList))
    ⟨fun h => ⟨h.1,h.2.1,h.2.2⟩,fun h => ⟨h.rules,h.own,h.light⟩⟩

end Assembly

open Assembly

/-- A grammar of which the patterns of each node are sealed. -/
def Grammar.IsSealed (g : Grammar) : Prop := ∀ os ∈ outlines g, ∀ o ∈ os, o.IsSealed

instance {g : Grammar} : Decidable g.IsSealed := inferInstanceAs (Decidable (∀ os ∈ outlines g, ∀ o ∈ os, o.IsSealed))

variable {g : Grammar} {t : NodeTable} {o : Outline} {n : Node} {ic : Bool}

lemma Assembly.Outline.IsSealed.exists_matcher (h : o.IsSealed) (hn : Outlined ic o n) (k : Nat) :
    ∃ m, Matcher.build (n.rules.rules.drop k) k n.rules.ignoreCase = .ok m := by
  obtain ⟨named,hrules⟩ := h.rules
  rw [rules_of_build hn.rules,RuleSet.ignoreCase_of_build hn.rules]
  exact hrules.exists_matcher hn.rules k

/-- Whatever a table's node is, the grammar has an outline of it, or it has no rules. -/
lemma Grammar.exists_outlines (hg : g.assemble = .ok t) : ∃ os, outlines g = some os ∧ os.length = t.size ∧
    ∀ id : NodeId, t.node id = default ∨ ∃ o ∈ os, Outlined g.ignoreCase o (t.node id) := by
  obtain ⟨drafts,hdrafts,hsize,hnode⟩ := node_of_assemble hg
  refine ⟨drafts.toList.map (outline drafts),?_,?_,fun id => ?_⟩
  · rw [outlines,hdrafts]
    rfl
  · rw [List.length_map,hsize,Array.length_toList]
  · rcases hnode id with ⟨-,hdefault⟩ | ⟨d,hd,hof⟩
    · exact .inl hdefault
    · have hmem := Array.mem_toList_iff.mpr (Array.mem_of_getElem? hd)
      exact .inr ⟨outline drafts d,List.mem_map_of_mem hmem,outlined_of_nodeOf hof⟩

/-- Each node of a table that is assembled from sealed patterns has all its matchers. -/
lemma Grammar.exists_matcher (hg : g.assemble = .ok t) (hs : g.IsSealed) (id : NodeId) (k : Nat) :
    ∃ m, Matcher.build ((t.node id).rules.rules.drop k) k (t.node id).rules.ignoreCase = .ok m := by
  obtain ⟨os,hos,-,hnode⟩ := exists_outlines hg
  rcases hnode id with hdefault | ⟨o,ho,hof⟩
  · have hnone : (t.node id).rules.rules = [] := by
      rw [hdefault]
      rfl
    rw [hnone,List.drop_nil]
    exact ⟨_,rfl⟩
  · exact (hs os hos o ho).exists_matcher hof k

end Highlight
