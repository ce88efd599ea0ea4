import Highlight.Proofs.Assembly.Table
import Highlight.Proofs.Assembly.Terminator
import Highlight.Proofs.Rules.Folded
import Highlight.Proofs.Rules.Found

/-!
Grammars that ignore case. All that is compiled for the nodes of such a grammar finds the same in a text
whatever the case of its ASCII letters.
-/
namespace Highlight

open Assembly Rules

/-- All patterns that are compiled for a draft: its lexemes, its own end, and its rules from each number
on. -/
def Assembly.patternsOf (drafts : Array Draft) (d : Draft) : List String :=
  d.mode.lexemes.getD defaultLexemes :: d.endPattern.toList.map (fun own => "\\A(?:" ++ own ++ ")") ++
    (List.range (rulesOf drafts d).length).map
      (fun k => (join (((rulesOf drafts d).drop k).map Rule.pattern) "|").source)

/-- Whether case does not count in a draft: no pattern switches off the flag for that or refers back to a
group, the end does not repeat the begin, and neither another grammar nor a guard of its own comes in. -/
def Assembly.Draft.ignoresCase (drafts : Array Draft) (d : Draft) : Bool :=
  (patternsOf drafts d).all Rules.ignoresCase && !d.mode.switches.resolve.endSameAsBegin &&
    d.mode.subLanguage.isNone && d.mode.beginGuard.all BeginGuard.isBuiltIn

/-- Whether a grammar ignores case, in all modes that its top mode reaches. -/
def Grammar.isCaseless (g : Grammar) : Bool :=
  g.ignoreCase && (draftAll g).toOption.all (fun drafts => drafts.all (·.ignoresCase drafts))

/-- A node in which case does not count. -/
structure Node.Caseless (n : Node) : Prop where
  endRegex : ∀ r ∈ n.endRegex, r.pattern.Caseless
  lexemes : n.lexemes.pattern.Caseless
  rules : ∀ (k : Nat) suffix matcher, n.rules.suffixes[k]? = some suffix → suffix.get = .ok matcher →
    ∀ r ∈ matcher.regex, r.pattern.Caseless
  endSameAsBegin : n.switches.endSameAsBegin = false
  subLanguage : n.subLanguage = none
  beginGuard : ∀ check, n.beginGuard ≠ some (.custom check)

namespace Node.Caseless

variable {n : Node}

lemma default : (default : Node).Caseless where
  endRegex := nofun
  lexemes := trivial
  rules _ _ _ h := by cases h
  endSameAsBegin := rfl
  subLanguage := rfl
  beginGuard _ h := by cases h

/-- The rules of such a node find the same in a text with small letters. -/
theorem exec_toLower (h : n.Caseless) (text : Source) (start first : Nat) :
    n.rules.exec text.toLower start first = n.rules.exec text start first := by
  rw [RuleSet.exec,RuleSet.exec]
  cases hsuffix : n.rules.suffixes[first]? with
  | none => rfl
  | some suffix =>
    dsimp only
    cases hget : suffix.get with
    | error e => rfl
    | ok matcher =>
      dsimp only
      rw [Matcher.exec,Matcher.exec]
      cases hregex : matcher.regex with
      | none => rfl
      | some r =>
        dsimp only
        rw [Regex.find_toLower text (h.rules first suffix matcher hsuffix hget r hregex)]

end Node.Caseless

variable {g : Grammar} {t : NodeTable}

/-- A matcher that comes out of rules that ignore case. -/
lemma Rules.Matcher.caseless_of_build {rules : List Rule} {first : Nat} {matcher : Matcher}
    (h : Matcher.build rules first true = .ok matcher)
    (hignores : rules ≠ [] → Rules.ignoresCase (join (rules.map Rule.pattern) "|").source = true) :
    ∀ r ∈ matcher.regex, r.pattern.Caseless := by
  intro r hr
  unfold Matcher.build at h
  split at h
  · obtain rfl := Except.ok.inj h
    cases hr
  · rename_i hne
    dsimp only at h
    split at h
    · rename_i regex hregex
      obtain rfl := Except.ok.inj h
      obtain rfl := Option.some.inj hr
      exact caseless_of_compileRule hregex (hignores (by simpa using hne))
    · cases h

/-- The node of a draft in which case does not count. -/
lemma Assembly.caseless_of_nodeOf {drafts : Array Draft} {d : Draft} {n : Node}
    (h : nodeOf drafts true d = .ok n) (hignores : d.ignoresCase drafts = true) : n.Caseless := by
  simp only [Draft.ignoresCase,Bool.and_eq_true,List.all_eq_true,Bool.not_eq_true',Option.isNone_iff_eq_none]
    at hignores
  obtain ⟨⟨⟨hpatterns,hsame⟩,hsub⟩,hguard⟩ := hignores
  have hof := outlined_of_nodeOf h
  refine ⟨fun r hr => ?_,?_,fun k suffix matcher hsuffix hget => ?_,?_,?_,fun check hcheck => ?_⟩
  · have hrel := hof.endRegex
    rw [Option.mem_def.mp hr] at hrel
    generalize hown : (outline drafts d).endPattern = own? at hrel
    cases hrel with
    | some hcompiled =>
      rename_i own
      have hown : d.endPattern = some own := hown
      refine caseless_of_compileRule hcompiled (hpatterns _ (List.mem_append_left _ (List.mem_cons_of_mem _ ?_)))
      rw [hown]
      exact List.mem_singleton_self _
  · exact caseless_of_compileRule hof.lexemes (hpatterns _ List.mem_cons_self)
  · rw [n.rules.get_of_suffixes k suffix hsuffix,rules_of_build hof.rules,
      RuleSet.ignoreCase_of_build hof.rules] at hget
    refine Matcher.caseless_of_build hget (fun hne => hpatterns _ (List.mem_append_right _ ?_))
    refine List.mem_map.mpr ⟨k,List.mem_range.mpr ?_,rfl⟩
    exact Nat.lt_of_not_le (fun hle => hne (List.drop_eq_nil_of_le hle))
  · rw [hof.switches]
    exact hsame
  · exact hof.subLanguage.trans hsub
  · rw [← (drafted_of_nodeOf h).beginGuard,hcheck] at hguard
    cases hguard

/-- The nodes of a grammar that ignores case. -/
theorem Grammar.caseless_of_assemble (hg : g.assemble = .ok t) (h : g.isCaseless = true) :
    t.ignoreCase = true ∧ ∀ id, (t.node id).Caseless := by
  obtain ⟨hic,hall⟩ := Bool.and_eq_true_iff.mp h
  obtain ⟨drafts,hdrafts,-,hnode⟩ := node_of_assemble hg
  rw [hdrafts] at hall
  have hall : drafts.all (·.ignoresCase drafts) = true := hall
  refine ⟨(ignoreCase_of_assemble hg).trans hic,fun id => ?_⟩
  rcases hnode id with ⟨-,hdefault⟩ | ⟨d,hd,hof⟩
  · rw [hdefault]
    exact .default
  · rw [hic] at hof
    exact caseless_of_nodeOf hof (Array.all_eq_true'.mp hall d (Array.mem_of_getElem? hd))

end Highlight
