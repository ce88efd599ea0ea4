import Highlight.Assembly.Table
import Highlight.Proofs.Assembly.Walk
import Highlight.Proofs.Except
import Highlight.Proofs.Rules.Exec

/-!
Node tables are closed: what a rule of a node begins and what follows a node are nodes of the same
table, and never the top mode, which itself has no end. The outlines of nodes hold what a draft says of its
node before any pattern is compiled, so that the outlines of a whole grammar can be listed and compared.
-/
namespace Highlight

/-- A table with a top mode that neither ends nor begins below any node. -/
structure NodeTable.Closed (t : NodeTable) : Prop where
  size_ne : t.size ≠ 0
  top_end : (t.node rootNode).endRegex = none
  begins : ∀ id, ∀ rule ∈ (t.node id).rules.rules, ∀ k, rule.kind = .begins k →
    Assembly.IsInner t.size k
  starts : ∀ id k, (t.node id).starts = some k → Assembly.IsInner t.size k

namespace Assembly

lemma rules_of_build {rules : List Rules.Rule} {ignoreCase : Bool} {set : Rules.RuleSet}
    (h : Rules.RuleSet.build rules ignoreCase = .ok set) : set.rules = rules := by
  unfold Rules.RuleSet.build at h
  split at h
  · cases h
  · cases h
    rfl

lemma blame_eq_ok {pattern : String} {r : Except Regex.PatternError Regex} {re : Regex} :
    blame pattern r = .ok re ↔ r = .ok re := by
  cases r with
  | error e => exact ⟨nofun,nofun⟩
  | ok re' =>
    exact ⟨fun h => congrArg Except.ok (Except.ok.inj h),
      fun h => congrArg Except.ok (Except.ok.inj h)⟩

/-- A node as its draft says, with its patterns compiled. -/
structure Drafted (drafts : Array Draft) (ignoreCase : Bool) (d : Draft) (n : Node) : Prop where
  className : n.className = d.mode.className
  beginPattern : n.beginPattern = d.beginPattern
  endRegex : Option.Rel (fun own r => Regex.compileAnchored own ignoreCase = .ok r) d.endPattern n.endRegex
  keywords : n.keywords = d.keywords.map (KeywordTable.ofKeywords · ignoreCase)
  lexemes : Regex.compileRule (d.mode.lexemes.getD defaultLexemes) ignoreCase = .ok n.lexemes
  relevance : n.relevance = d.mode.relevance.getD 1
  switches : n.switches = d.mode.switches.resolve
  subLanguage : n.subLanguage = d.mode.subLanguage
  beginGuard : n.beginGuard = d.mode.beginGuard
  starts : n.starts = d.starts
  rules : Rules.RuleSet.build (rulesOf drafts d) ignoreCase = .ok n.rules

/-- The node that is made of a draft is as the draft says. -/
theorem drafted_of_nodeOf {drafts : Array Draft} {ignoreCase : Bool} {d : Draft} {n : Node}
    (h : nodeOf drafts ignoreCase d = .ok n) : Drafted drafts ignoreCase d n := by
  rw [nodeOf,except_bind_eq_ok] at h
  obtain ⟨endRegex,hend,h⟩ := h
  simp only [except_bind_eq_ok] at h
  obtain ⟨lexemes,hlexemes,rules,hrules,h⟩ := h
  cases h
  have hown : Option.Rel (fun own r => Regex.compileAnchored own ignoreCase = .ok r) d.endPattern endRegex := by
    have hrel := option_mapM_eq_ok hend
    generalize d.endPattern = own at hrel ⊢
    cases hrel with
    | none => exact .none
    | some hr => exact .some (blame_eq_ok.mp hr)
  exact ⟨rfl,rfl,hown,rfl,blame_eq_ok.mp hlexemes,rfl,rfl,rfl,rfl,rfl,hrules⟩

lemma Drafted.rules_eq {drafts : Array Draft} {ignoreCase : Bool} {d : Draft} {n : Node}
    (h : Drafted drafts ignoreCase d n) : n.rules.rules = rulesOf drafts d := rules_of_build h.rules

lemma Drafted.endRegex_eq_none {drafts : Array Draft} {ignoreCase : Bool} {d : Draft} {n : Node}
    (h : Drafted drafts ignoreCase d n) (hnone : d.endPattern = none) : n.endRegex = none := by
  have hrel := h.endRegex
  rw [hnone] at hrel
  generalize n.endRegex = regex at hrel
  cases hrel
  rfl

/-- The rules that begin a node are those of the children, each with the begin of the child. -/
lemma begins_of_mem_rulesOf {drafts : Array Draft} {d : Draft} {rule : Rules.Rule} {k : NodeId}
    (h : rule ∈ rulesOf drafts d) (hk : rule.kind = .begins k) :
    k ∈ d.children ∧ rule.pattern = ((drafts.getD k default).beginPattern).getD "" := by
  simp only [rulesOf,List.mem_append,List.mem_map] at h
  rcases h with (⟨child,hchild,rfl⟩ | h) | h
  · cases hk
    exact ⟨hchild,rfl⟩
  · split at h
    · cases h
    · rw [List.mem_singleton.mp h] at hk
      cases hk
  · split at h
    · rw [List.mem_singleton.mp h] at hk
      cases hk
    · cases h

lemma kind_of_mem_rulesOf {drafts : Array Draft} {d : Draft} {rule : Rules.Rule} {k : NodeId}
    (h : rule ∈ rulesOf drafts d) (hk : rule.kind = .begins k) : k ∈ d.children :=
  (begins_of_mem_rulesOf h hk).1

end Assembly

/-- Whatever a table's node is, it is the node of a draft, or has no rules. -/
lemma Grammar.node_of_assemble {g : Grammar} {t : NodeTable} (h : g.assemble = .ok t) :
    ∃ drafts, Assembly.draftAll g = .ok drafts ∧ t.size = drafts.size ∧
      ∀ id, (drafts[id]? = none ∧ t.node id = default) ∨
        ∃ d, drafts[id]? = some d ∧ Assembly.nodeOf drafts g.ignoreCase d = .ok (t.node id) := by
  rw [assemble,except_bind_eq_ok] at h
  obtain ⟨drafts,hdrafts,h⟩ := h
  rw [except_bind_eq_ok] at h
  obtain ⟨nodes,hnodes,h⟩ := h
  cases h
  obtain ⟨hsize,hall⟩ := array_mapM_eq_ok hnodes
  refine ⟨drafts,hdrafts,hsize,fun id => ?_⟩
  cases hd : drafts[id]? with
  | none =>
    have hn : nodes[id]? = none := by
      rw [Array.getElem?_eq_none_iff] at hd ⊢
      omega
    refine .inl ⟨rfl,?_⟩
    rw [NodeTable.node,Array.getD_eq_getD_getElem?,hn]
    rfl
  | some d =>
    obtain ⟨node,hnode,hof⟩ := hall id d hd
    refine .inr ⟨d,rfl,?_⟩
    rw [NodeTable.node,Array.getD_eq_getD_getElem?,hnode]
    exact hof

/-- Assembling a grammar gives a closed table. -/
theorem Grammar.assemble_closed {g : Grammar} {t : NodeTable} (h : g.assemble = .ok t) : t.Closed := by
  obtain ⟨drafts,hdrafts,hsize,hnode⟩ := node_of_assemble h
  obtain ⟨hne,hrefers,htop⟩ := Assembly.draftAll_wellFormed hdrafts
  refine ⟨hsize ▸ hne,?_,fun id rule hrule k hk => ?_,fun id k hk => ?_⟩
  · rcases hnode rootNode with ⟨-,hdefault⟩ | ⟨d,hd,hof⟩
    · rw [hdefault]
      rfl
    · exact (Assembly.drafted_of_nodeOf hof).endRegex_eq_none (htop d hd).endPattern
  · rw [hsize]
    rcases hnode id with ⟨-,hdefault⟩ | ⟨d,hd,hof⟩
    · rw [hdefault] at hrule
      cases hrule
    · rw [(Assembly.drafted_of_nodeOf hof).rules_eq] at hrule
      exact (hrefers d (Array.mem_of_getElem? hd)).children k (Assembly.kind_of_mem_rulesOf hrule hk)
  · rw [hsize]
    rcases hnode id with ⟨-,hdefault⟩ | ⟨d,hd,hof⟩
    · rw [hdefault] at hk
      cases hk
    · rw [(Assembly.drafted_of_nodeOf hof).starts] at hk
      exact (hrefers d (Array.mem_of_getElem? hd)).starts k hk

end Highlight

namespace Highlight.Assembly

open Rules

structure Outline where
  className : Option String := none
  endPattern : Option String := none
  keywords : Option Keywords := none
  lexemes : String := defaultLexemes
  relevance : Nat := 1
  switches : Switches Bool := Switches.unset.resolve
  subLanguage : Option SubLanguage := none
  guarded : Bool := false
  starts : Option NodeId := none
  rules : List Rule
  deriving DecidableEq

def outline (drafts : Array Draft) (d : Draft) : Outline where
  className := d.mode.className
  endPattern := d.endPattern
  keywords := d.keywords
  lexemes := d.mode.lexemes.getD defaultLexemes
  relevance := d.mode.relevance.getD 1
  switches := d.mode.switches.resolve
  subLanguage := d.mode.subLanguage
  guarded := d.mode.beginGuard.isSome
  starts := d.starts
  rules := rulesOf drafts d

/-- The outlines of all nodes of a grammar. -/
def outlines (g : Grammar) : Option (List Outline) :=
  (draftAll g).toOption.map (fun drafts => drafts.toList.map (outline drafts))

/-- A node as its outline says, with its patterns compiled. -/
structure Outlined (ignoreCase : Bool) (o : Outline) (n : Node) : Prop where
  className : n.className = o.className
  endRegex : Option.Rel (fun own r => Regex.compileAnchored own ignoreCase = .ok r) o.endPattern n.endRegex
  keywords : n.keywords = o.keywords.map (KeywordTable.ofKeywords · ignoreCase)
  lexemes : Regex.compileRule o.lexemes ignoreCase = .ok n.lexemes
  relevance : n.relevance = o.relevance
  switches : n.switches = o.switches
  subLanguage : n.subLanguage = o.subLanguage
  beginGuard : n.beginGuard.isSome = o.guarded
  starts : n.starts = o.starts
  rules : RuleSet.build o.rules ignoreCase = .ok n.rules

lemma Outlined.beginGuard_eq_none {ic : Bool} {o : Outline} {n : Node} (h : Outlined ic o n)
    (ho : o.guarded = false) : n.beginGuard = none := by
  rw [← Option.not_isSome_iff_eq_none,h.beginGuard,ho]
  exact Bool.false_ne_true

lemma outlined_of_nodeOf {drafts : Array Draft} {ic : Bool} {d : Draft} {n : Node}
    (h : nodeOf drafts ic d = .ok n) : Outlined ic (outline drafts d) n := by
  have hd := drafted_of_nodeOf h
  exact ⟨hd.className,hd.endRegex,hd.keywords,hd.lexemes,hd.relevance,hd.switches,hd.subLanguage,
    congrArg Option.isSome hd.beginGuard,hd.starts,hd.rules⟩

/-- The nodes of a table are as the outlines of the grammar say. Without an outline, a number has no node. -/
lemma node_of_outlines {g : Grammar} {t : NodeTable} (hg : g.assemble = .ok t) {os : List Outline}
    (hos : outlines g = some os) (id : NodeId) : (os[id]? = none ∧ t.node id = default) ∨
      ∃ o, os[id]? = some o ∧ Outlined g.ignoreCase o (t.node id) := by
  obtain ⟨drafts,hdrafts,-,hnode⟩ := Grammar.node_of_assemble hg
  rw [outlines,hdrafts] at hos
  obtain rfl := Option.some.inj hos
  rw [List.getElem?_map,Array.getElem?_toList]
  rcases hnode id with ⟨hnone,hdefault⟩ | ⟨d,hd,hof⟩
  · exact .inl ⟨by rw [hnone]; rfl,hdefault⟩
  · exact .inr ⟨_,by rw [hd]; rfl,outlined_of_nodeOf hof⟩

theorem outlined_of_assemble {g : Grammar} {t : NodeTable} (hg : g.assemble = .ok t) {os : List Outline}
    (hos : outlines g = some os) {id : NodeId} {o : Outline} (ho : os[id]? = some o) :
    Outlined g.ignoreCase o (t.node id) := by
  rcases node_of_outlines hg hos id with ⟨hnone,-⟩ | ⟨o',ho',houtlined⟩
  · rw [hnone] at ho
    cases ho
  · obtain rfl := Option.some.inj (ho.symm.trans ho')
    exact houtlined

end Highlight.Assembly
