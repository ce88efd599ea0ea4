import Highlight.Proofs.Rules.Found

/-!
Grammars whose patterns compile. If each pattern does, and the rules of each node may stand beside each other, the
grammar is assembled. Its table is the one of the nodes of its drafts, each by itself, so that a scan can be
followed through the nodes that it comes to.
-/
namespace Highlight

open Assembly Rules

variable {g : Grammar} {t : NodeTable}

namespace Assembly

variable {drafts : Array Draft} {d : Draft} {ic : Bool}

/-- Whether the patterns of a node compile, its own ones and those of its rules as one. -/
def Outline.compiles (o : Outline) (ignoreCase : Bool) : Bool :=
  o.endPattern.all (fun own => (Regex.compileAnchored own ignoreCase).isOk) &&
    (Regex.compileRule o.lexemes ignoreCase).isOk && isCombinable o.rules ignoreCase false

lemma exists_blame_eq_ok {pattern : String} {r : Except Regex.PatternError Regex} (h : r.isOk = true) :
    ∃ re, blame pattern r = .ok re := by
  cases r with
  | error e => cases h
  | ok re => exact ⟨re,rfl⟩

lemma exists_nodeOf (h : (outline drafts d).compiles ic = true) : ∃ node, nodeOf drafts ic d = .ok node := by
  simp only [Outline.compiles,Bool.and_eq_true] at h
  obtain ⟨⟨hend,hlexemes⟩,hrules⟩ := h
  obtain ⟨endRegex,hend⟩ : ∃ endRegex,
      d.endPattern.mapM (fun p => blame p (Regex.compileAnchored p ic)) = .ok endRegex := by
    rw [outline] at hend
    cases hown : d.endPattern with
    | none => exact ⟨none,rfl⟩
    | some own =>
      rw [hown] at hend
      obtain ⟨re,hre⟩ : ∃ re, blame own (Regex.compileAnchored own ic) = .ok re := exists_blame_eq_ok hend
      exact ⟨some re,by rw [Option.mapM_some,hre]; rfl⟩
  obtain ⟨lexemes,hlexemes⟩ : ∃ lexemes, blame (d.mode.lexemes.getD defaultLexemes)
      (Regex.compileRule (d.mode.lexemes.getD defaultLexemes) ic) = .ok lexemes := exists_blame_eq_ok hlexemes
  obtain ⟨rules,hrules,-⟩ := RuleSet.exists_answers (.of_isCombinable hrules)
  have hrules : RuleSet.build (rulesOf drafts d) ic = .ok rules := hrules
  simp only [nodeOf,hend,hlexemes,hrules,bind,Except.bind]
  exact ⟨_,rfl⟩

end Assembly

namespace Grammar

theorem exists_assemble (h : (outlines g).any (fun os => os.all (·.compiles g.ignoreCase)) = true) :
    ∃ t, g.assemble = .ok t := by
  obtain ⟨os,hos,hall⟩ := (Option.any_eq_true _ _).mp h
  obtain ⟨drafts,hdrafts,rfl⟩ := Option.map_eq_some_iff.mp hos
  have hdrafts : draftAll g = .ok drafts := except_eq_ok_of_toOption hdrafts
  have hnode : ∀ d ∈ drafts.toList, ∃ node, nodeOf drafts g.ignoreCase d = .ok node := fun d hd =>
    exists_nodeOf (List.all_eq_true.mp hall _ (List.mem_map_of_mem hd))
  obtain ⟨nodes,hnodes⟩ := exists_list_mapM_eq_ok hnode
  rw [← Array.toList_mapM] at hnodes
  obtain ⟨nodes,hnodes,-⟩ := except_map_eq_ok.mp hnodes
  rw [assemble,hdrafts]
  exact ⟨_,by simp only [bind,Except.bind,hnodes]; rfl⟩

/-- The table of the nodes of a grammar, with a node that stands for none where a draft is refused. -/
def nodeByNode (g : Grammar) : NodeTable where
  name := g.name
  ignoreCase := g.ignoreCase
  nodes :=
    let drafts := (draftAll g).toOption.getD #[]
    drafts.map (fun d => (nodeOf drafts g.ignoreCase d).toOption.getD default)

theorem assemble_eq_nodeByNode (h : g.assemble = .ok t) : t = g.nodeByNode := by
  rw [assemble,except_bind_eq_ok] at h
  obtain ⟨drafts,hdrafts,h⟩ := h
  rw [except_bind_eq_ok] at h
  obtain ⟨nodes,hnodes,h⟩ := h
  cases h
  obtain ⟨hsize,hall⟩ := array_mapM_eq_ok hnodes
  have hsame : nodes = drafts.map (fun d => (nodeOf drafts g.ignoreCase d).toOption.getD default) := by
    refine Array.ext (by rw [hsize,Array.size_map]) (fun i hi hi' => ?_)
    have hd : drafts[i]? = some drafts[i] := Array.getElem?_eq_getElem _
    obtain ⟨node,hnode,hof⟩ := hall i _ hd
    rw [Array.getElem_map,hof]
    exact (Array.getElem?_eq_some_iff.mp hnode).2
  rw [nodeByNode,hdrafts,hsame]
  rfl

end Grammar
end Highlight
