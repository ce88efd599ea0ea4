import Highlight.Grammar.Bundled
import Highlight.Proofs.Assembly.Compiled
import Highlight.Proofs.Calls
import Highlight.Proofs.Rules.Lines
import Highlight.Proofs.Scan.Hosts
import Highlight.Proofs.Scan.Origins
import Highlight.Proofs.Text.AsciiCase

/-!
Literals in settings files. They are the words of one pattern, in a value or in an array. The pattern asks for
a word boundary before its first word and behind its last one, so that all that it bounds is the left of `on` and
the right of `no`.
-/
namespace Highlight

open Rules Regex Assembly
open Text (isWord simpleFold)
open Highlight.Tree (Located locatedIn)

namespace Text

/-- A text whose last character is one of a word. -/
def endsInWord (text : String) : Bool := text.toList.getLast?.any isWord

/-- A text whose first character is one of a word. -/
def startsInWord (text : String) : Bool := text.toList.head?.any isWord

lemma startsInWord_append {a : String} (h : startsInWord a = true) (b : String) : startsInWord (a ++ b) = true := by
  obtain ⟨c,hc,hword⟩ := (Option.any_eq_true _ _).mp h
  rw [startsInWord,String.toList_append,List.head?_append,hc]
  exact hword

lemma endsInWord_append {b : String} (h : endsInWord b = true) (a : String) : endsInWord (a ++ b) = true := by
  obtain ⟨c,hc,hword⟩ := (Option.any_eq_true _ _).mp h
  rw [endsInWord,String.toList_append,List.getLast?_append,hc]
  exact hword

end Text

open Text (endsInWord startsInWord)

section Bounds

variable {text : Source} {p : Nat}

/-- A word boundary stands between the text before it and the text behind it. -/
lemma Regex.Haystack.isBoundary_eq (hp : p ≤ text.size) : ({ text } : Haystack).isBoundary p =
    (endsInWord (text.slice 0 p) != startsInWord (text.slice p text.size)) := by
  have hbefore : ({ text } : Haystack).charBefore? p = (text.slice 0 p).toList.getLast? := by
    have hslice : (text.slice 0 p).toList = text.toList.take p := by simp [Source.slice]
    rw [hslice,List.getLast?_eq_getElem?,List.length_take,Array.length_toList,Nat.min_eq_left hp,
      Haystack.charBefore?]
    cases p with
    | zero => rfl
    | succ p => simp
  have hbehind : ({ text } : Haystack).charAt? p = (text.slice p text.size).toList.head? := by
    have hslice : (text.slice p text.size).toList = text.toList.drop p := by simp [Source.slice]
    rw [hslice,List.head?_drop,Array.getElem?_toList]
    rfl
  rw [Haystack.isBoundary,hbefore,hbehind]
  rfl

end Bounds

/-- A word of a pattern that ignores case, and the sides on which the pattern asks for a word boundary. -/
structure BoundedWord where
  word : String
  before : Bool := false
  after : Bool := false

namespace BoundedWord

def boundary (asked : Bool) : List Pattern := if asked then [.assert .wordBoundary] else []

def letters (cs : List Char) : List Pattern := cs.map (fun c => .set (.folded (.single c)))

def pattern (w : BoundedWord) : Pattern :=
  .cats (boundary w.before ++ (letters w.word.toList ++ boundary w.after))

/-- A text that is a word but for case, and has no word character next to it on the sides that are bounded. -/
structure StandsBetween (w : BoundedWord) (before text after : String) : Prop where
  folds : text.toList.map simpleFold = w.word.toList
  before : w.before = true → endsInWord before = false
  after : w.after = true → startsInWord after = false

variable {w : BoundedWord} {text : Source} {i j : Nat} {cs : List Char}

lemma mem_ends_boundary {t : Haystack} {asked : Bool} :
    j ∈ (Pattern.cats (boundary asked)).ends t i ↔ j = i ∧ (asked = true → t.isBoundary i = true) := by
  cases asked with
  | false => simp [boundary,Pattern.cats,Pattern.ends]
  | true =>
    rw [boundary,if_pos rfl,Pattern.cats,Pattern.ends,Assertion.holds]
    split <;> simp [*]

/-- Letters match what folds to them. -/
lemma of_mem_ends_letters (hcs : cs.all Char.isLower = true)
    (h : j ∈ (Pattern.cats (letters cs)).ends { text } i) : i ≤ j ∧ (text.slice i j).toList.map simpleFold = cs := by
  induction cs generalizing i with
  | nil =>
    obtain rfl := List.mem_singleton.mp h
    exact ⟨Nat.le_refl _,by rw [Source.slice_self]; rfl⟩
  | cons c cs ih =>
    obtain ⟨hc,hcs⟩ := Bool.and_eq_true_iff.mp hcs
    rw [letters,List.map_cons,Pattern.ends_cats_cons] at h
    obtain ⟨k,hk,h⟩ := List.mem_flatMap.mp h
    rw [Pattern.ends,Haystack.charAt?] at hk
    cases hd : text[i]? with
    | none =>
      rw [hd] at hk
      cases hk
    | some d =>
      rw [hd] at hk
      dsimp only at hk
      split at hk
      · rename_i hcontains
        obtain rfl := List.mem_singleton.mp hk
        obtain ⟨hle,hmap⟩ := ih hcs h
        obtain ⟨e,horbit,heq⟩ := List.any_eq_true.mp (show (Text.orbit d).any _ = true from hcontains)
        obtain rfl : c = e := by simpa [CharSet.contains] using heq
        refine ⟨by omega,?_⟩
        rw [← text.slice_append (Nat.le_add_right i 1) hle,text.slice_succ_of_charAt? hd,String.toList_append,
          String.toList_singleton,List.singleton_append,List.map_cons,hmap,
          Text.simpleFold_of_mem_orbit hc horbit]
      · cases hk

/-- A word of small letters, with an `o` on each side that is bounded. -/
structure Proper (w : BoundedWord) : Prop where
  letters : w.word.toList.all Char.isLower = true
  first : w.before = true → w.word.toList.head? = some 'o'
  last : w.after = true → w.word.toList.getLast? = some 'o'

instance (w : BoundedWord) : Decidable w.Proper :=
  decidable_of_iff (w.word.toList.all Char.isLower = true ∧ (w.before = true → w.word.toList.head? = some 'o') ∧
      (w.after = true → w.word.toList.getLast? = some 'o'))
    ⟨fun h => ⟨h.1,h.2.1,h.2.2⟩,fun h => ⟨h.letters,h.first,h.last⟩⟩

/-- An `o` of either case is a character of words. -/
lemma isWord_of_folds {o : Option Char} (h : o.map simpleFold = some 'o') : o.any isWord = true := by
  obtain ⟨d,rfl,hd⟩ := Option.map_eq_some_iff.mp h
  exact Text.isWord_of_simpleFold (by decide) (by decide +kernel) (by decide) hd

/-- What the pattern of a word matches is the word, bounded as the pattern asks. -/
lemma standsBetween_of_mem_ends (hw : w.Proper) (hj : j ≤ text.size) (h : j ∈ w.pattern.ends { text } i) :
    w.StandsBetween (text.slice 0 i) (text.slice i j) (text.slice j text.size) := by
  rw [pattern,Pattern.ends_cats_append,List.mem_flatMap] at h
  obtain ⟨k,hk,h⟩ := h
  obtain ⟨rfl,hbefore⟩ := mem_ends_boundary.mp hk
  rw [Pattern.ends_cats_append,List.mem_flatMap] at h
  obtain ⟨l,hl,h⟩ := h
  obtain ⟨rfl,hafter⟩ := mem_ends_boundary.mp h
  obtain ⟨hle,hfolds⟩ := of_mem_ends_letters hw.letters hl
  refine ⟨hfolds,fun hasked => ?_,fun hasked => ?_⟩
  · have hstarts : startsInWord (text.slice k text.size) = true := by
      have hfirst : ((text.slice k j).toList.map simpleFold).head? = some 'o' := by rw [hfolds,hw.first hasked]
      rw [List.head?_map] at hfirst
      rw [← text.slice_append hle hj]
      exact Text.startsInWord_append (isWord_of_folds hfirst) _
    have hboundary := hbefore hasked
    rw [Haystack.isBoundary_eq (Nat.le_trans hle hj),hstarts] at hboundary
    simpa using hboundary
  · have hends : endsInWord (text.slice 0 j) = true := by
      have hlast : ((text.slice k j).toList.map simpleFold).getLast? = some 'o' := by rw [hfolds,hw.last hasked]
      rw [List.getLast?_map] at hlast
      rw [← text.slice_append (Nat.zero_le _) hle]
      exact Text.endsInWord_append (isWord_of_folds hlast) _
    have hboundary := hafter hasked
    rw [Haystack.isBoundary_eq hj,hends] at hboundary
    simpa using hboundary

end BoundedWord

namespace Grammar.Bundled

def literalPattern : String := "\\bon|off|true|false|yes|no\\b"

/-- The words of the pattern. -/
def literalWords : List BoundedWord :=
  [{ word := "on", before := true },{ word := "off" },{ word := "true" },{ word := "false" },{ word := "yes" },
    { word := "no", after := true }]

def literalNode : NodeId := 9

def literalOutline : Outline where
  className := some "literal"
  endPattern := some zeroWidth
  rules := [⟨zeroWidth,.ends⟩]

def literalRule : Rule := ⟨literalPattern,.begins literalNode⟩

lemma positional?_literalRule :
    literalRule.positional? true = some (.alts (literalWords.map BoundedWord.pattern)) := by decide +kernel

lemma takesSome_literalRule : literalRule.takesSome true = true := by decide +kernel

/-- Where the rule for literals matches, one of the words stands. -/
lemma exists_word_of_end? {text : Source} {q stop : Nat} (hq : q ≤ text.size)
    (h : literalRule.end? true text q = some stop) : q < stop ∧ stop ≤ text.size ∧
      ∃ w ∈ literalWords, w.StandsBetween (text.slice 0 q) (text.slice q stop) (text.slice stop text.size) := by
  obtain ⟨hlt,hstop⟩ := Rule.end?_bounds takesSome_literalRule hq h
  have hproper : ∀ w ∈ literalWords, w.Proper := by decide
  refine ⟨hlt,hstop,?_⟩
  rw [Rule.end?_eq_head? positional?_literalRule hq,Pattern.ends_alts _ (by decide),List.flatMap_map] at h
  obtain ⟨w,hw,hmem⟩ := List.mem_flatMap.mp (List.mem_of_mem_head? h)
  exact ⟨w,hw,BoundedWord.standsBetween_of_mem_ends (hproper w hw) hstop hmem⟩

/-- The literals of a grammar come from one mode without anything in it, and that from one rule, wherever it
begins. -/
structure DrawsLiterals (os : List Outline) : Prop where
  plain : ∀ o ∈ os, o.switches = Switches.unset.resolve ∧ o.keywords = none ∧ o.subLanguage = none
  starts : ∀ o ∈ os, ∀ next ∈ o.starts, os[next]?.bind Outline.className ≠ some "literal"
  mode : ∀ p ∈ os.zipIdx, p.1.className = some "literal" → p = (literalOutline,literalNode)
  rules : ∀ o ∈ os, ∀ rule ∈ o.rules, rule.kind = .begins literalNode →
    rule = literalRule ∧ isCombinable o.rules true false = true

instance (os : List Outline) : Decidable (DrawsLiterals os) :=
  decidable_of_iff ((∀ o ∈ os, o.switches = Switches.unset.resolve ∧ o.keywords = none ∧ o.subLanguage = none) ∧
      (∀ o ∈ os, ∀ next ∈ o.starts, os[next]?.bind Outline.className ≠ some "literal") ∧
      (∀ p ∈ os.zipIdx, p.1.className = some "literal" → p = (literalOutline,literalNode)) ∧
      ∀ o ∈ os, ∀ rule ∈ o.rules, rule.kind = .begins literalNode →
        rule = literalRule ∧ isCombinable o.rules true false = true)
    ⟨fun h => ⟨h.1,h.2.1,h.2.2.1,h.2.2.2⟩,fun h => ⟨h.plain,h.starts,h.mode,h.rules⟩⟩

lemma exists_outlines_ini : ∃ os, outlines ini = some os ∧ DrawsLiterals os := by
  have hdraws : (outlines ini).any (fun os => decide (DrawsLiterals os)) = true := by decide +kernel
  obtain ⟨os,hos,hdraws⟩ := (Option.any_eq_true _ _).mp hdraws
  exact ⟨os,hos,of_decide_eq_true hdraws⟩

end Grammar.Bundled

open Grammar.Bundled

namespace Scan

variable {env : Env} {os : List Outline} {s : State} {m : RuleMatch} {id : NodeId}
variable (hg : ini.assemble = .ok env.table) (hos : outlines ini = some os) (hdraws : DrawsLiterals os)

include hg hos hdraws

lemma outlined_literal (hclass : (env.node id).className = some "literal") :
    id = literalNode ∧ Outlined true literalOutline (env.node id) := by
  rcases node_of_outlines hg hos id with ⟨-,hdefault⟩ | ⟨o,ho,houtlined⟩
  · rw [Env.node,hdefault] at hclass
    cases hclass
  · have hmem : (o,id) ∈ os.zipIdx := List.mem_zipIdx_iff_getElem?.mpr ho
    obtain ⟨rfl,rfl⟩ := Prod.mk.inj (hdraws.mode _ hmem (houtlined.className.symm.trans hclass))
    exact ⟨rfl,houtlined⟩

/-- A match that begins a literal is one of the rule for literals. -/
lemma end?_of_begins_literal (hfound : ((nextMatch env).run s).1 = .ok (some m)) (hkind : m.kind = .begins id)
    (hclass : (env.node id).className = some "literal") :
    m.start ≤ env.text.size ∧ literalRule.end? true env.text m.start = some m.stop := by
  obtain ⟨rfl,-⟩ := outlined_literal hg hos hdraws hclass
  have hexec := nextMatch_eq_ok_iff.mp hfound
  obtain ⟨rule,hrule,hrulekind⟩ := RuleSet.exists_rule_of_exec hexec
  rcases node_of_outlines hg hos s.top with ⟨-,hdefault⟩ | ⟨o,ho,houtlined⟩
  · rw [State.ruleSet,Env.node,hdefault] at hrule
    cases hrule
  · have hrules : RuleSet.build o.rules true = .ok (s.ruleSet env) := houtlined.rules
    have hmem : ∀ rule ∈ o.rules, rule.kind = .begins literalNode →
        rule = literalRule ∧ isCombinable o.rules true false := hdraws.rules o (List.mem_of_getElem? ho)
    have hcombinable := (hmem rule (rules_of_build hrules ▸ hrule) (hrulekind.trans hkind)).2
    obtain ⟨set,hbuild,hanswers⟩ := RuleSet.exists_answers (.of_isCombinable hcombinable)
    obtain rfl := Except.ok.inj (hbuild.symm.trans hrules)
    have hfires := hanswers env.text s.position s.firstRule
    rw [hexec] at hfires
    have hfires : Fires o.rules true env.text s.position s.firstRule m := hfires
    obtain ⟨first,hfirst,hend⟩ := Option.bind_eq_some_iff.mp hfires.stop
    have hfirstkind := hfires.kind
    rw [hfirst,Option.map_some,Option.some.injEq] at hfirstkind
    obtain rfl := (hmem first (List.mem_of_getElem? hfirst) (hfirstkind.trans hkind)).1
    exact ⟨hfires.start_le_size,hend⟩

/-- A literal begins where one of the words stands. -/
lemma exists_word_of_begins_literal (hfound : ((nextMatch env).run s).1 = .ok (some m))
    (hkind : m.kind = .begins id) (hclass : (env.node id).className = some "literal") :
    m.start < m.stop ∧ ∃ w ∈ literalWords, ∃ after,
      env.text.slice 0 m.start ++ env.text.slice m.start m.stop ++ after = env.text.toString ∧
      w.StandsBetween (env.text.slice 0 m.start) (env.text.slice m.start m.stop) after := by
  obtain ⟨hsize,hend⟩ := end?_of_begins_literal hg hos hdraws hfound hkind hclass
  obtain ⟨hlt,hstop,w,hw,hstands⟩ := exists_word_of_end? hsize hend
  refine ⟨hlt,w,hw,env.text.slice m.stop env.text.size,?_,hstands⟩
  rw [env.text.slice_append (Nat.zero_le _) (Nat.le_of_lt hlt),env.text.slice_append_rest,
    Source.slice_eq_toString]

/-- Each literal that a scan draws is one of the words, bounded as the pattern asks. -/
lemma exists_word_of_literal {assembled : List String} {outcome : Except Halt Unit} {settings : Settings}
    {language code : String} {r : Result} {scope : Located}
    (hrun : run env (.opened env.table none assembled) = (outcome,s))
    (hr : conclude env settings language code s outcome = .ok r) (hscope : scope ∈ locatedIn [] "" r.tree)
    (hkind : scope.kind = some "literal") :
    ∃ w ∈ literalWords, ∃ after, scope.before ++ scope.text ++ after = env.text.toString ∧
      w.StandsBetween scope.before scope.text after := by
  have ht : env.table.DrawsAtBegins "literal" := .of_outlines hg hos hdraws.plain hdraws.starts
  have hmodes : ∀ id, (env.node id).className = some "literal" →
      ∃ o, Outlined true o (env.node id) ∧ PlainMode o ∧ EndsAtOnce o := fun id hclass =>
    ⟨_,(outlined_literal hg hos hdraws hclass).2,⟨rfl,rfl,rfl,rfl,rfl⟩,⟨rfl,rfl⟩⟩
  have htakes : ∀ {s m id}, ((nextMatch env).run s).1 = .ok (some m) → m.kind = .begins id →
      (env.node id).className = some "literal" → m.start < m.stop := fun hfound hbegins hclass =>
    (exists_word_of_begins_literal hg hos hdraws hfound hbegins hclass).1
  -- nothing is embedded, so that it does not matter what would become of embedded texts
  have hembed := run_embedding (fun _ _ _ => none) ht.subLanguage (.opened env.table none assembled)
  have hf : (env.embedding (fun _ _ _ => none)).Faithful := fun hnone => by cases hnone
  have hg' : ini.assemble = .ok (env.embedding (fun _ _ _ => none)).table := hg
  obtain ⟨n,u,m,id,-,hfound,hbegins,hclass,rfl⟩ :=
    exists_begin_of_located hg' hf ht hmodes htakes (hembed.trans hrun) hr hscope hkind
  exact (exists_word_of_begins_literal hg hos hdraws hfound hbegins hclass).2

end Scan

namespace Highlighter

/-- A literal of a settings file is one of the words but for case. The text before it does not end in a word if it
is `on`, and that behind it does not go on with one if it is `no`. It is a whole word of the file just if the
sides that its alternative of the pattern leaves open are bounded as well. -/
theorem highlight_ini_literal {h : Highlighter} {name key : String} {entry : Entry}
    (hfind : h.registry.find? name = some (key,entry)) (hentry : entry.grammar = ini) (code : String)
    (tolerant : Bool) : (h.highlight { name, code, tolerant }).Gives (fun r =>
      ∀ scope ∈ locatedIn [] "" r.tree, scope.kind = some "literal" → ∃ w ∈ literalWords, ∃ after,
        scope.before ++ scope.text ++ after = code ∧ w.StandsBetween scope.before scope.text after ∧
        (endsInWord scope.before = false ∧ startsInWord after = false ↔
          (w.before = false → endsInWord scope.before = false) ∧
          (w.after = false → startsInWord after = false))) := by
  obtain ⟨os,hos,hdraws⟩ := exists_outlines_ini
  obtain ⟨depth,hdepth⟩ : ∃ depth, h.depthFor code = depth + 1 :=
    Nat.exists_eq_succ_of_ne_zero (by simp [depthFor,spareDepth])
  rw [highlight,hdepth]
  refine highlightWithin_succ_gives (fun key' entry' table hfind' htable keys r keys' hrun scope hscope hkind => ?_)
  obtain ⟨rfl,rfl⟩ := Prod.mk.inj (Option.some.inj (hfind.symm.trans hfind'))
  rw [hentry] at htable
  obtain ⟨outcome,s,hscan,hr⟩ := Scan.exists_run_of_highlight hrun
  obtain ⟨w,hw,after,htext,hstands⟩ := Scan.exists_word_of_literal htable hos hdraws hscan hr hscope hkind
  refine ⟨w,hw,after,htext.trans (Source.toString_ofString code),hstands,?_⟩
  constructor
  · exact fun hwhole => ⟨fun _ => hwhole.1,fun _ => hwhole.2⟩
  · rintro ⟨hbefore,hafter⟩
    constructor
    · cases hasked : w.before with
      | false => exact hbefore hasked
      | true => exact hstands.before hasked
    · cases hasked : w.after with
      | false => exact hafter hasked
      | true => exact hstands.after hasked

lemma exists_assemble_ini : ∃ table, ini.assemble = .ok table := Grammar.exists_assemble (by decide +kernel)

/-- What a scan by the modes of settings files goes by, with nothing to embed. -/
def iniEnv (code : String) : Scan.Env where
  table := ini.nodeByNode
  text := .ofString code
  tolerant := false
  safeMode := true
  embed := fun _ _ _ => none

/-- A scan that draws two literals, the second of which is the beginning of a word. -/
lemma run_offer : ∃ s, Scan.run (iniEnv "a = on offer") (.opened ini.nodeByNode none ["ini"]) = (.ok (),s) ∧
    (locatedIn [] "" s.tree.finish).filter (fun scope => scope.kind == some "literal") =
      [⟨[],"a = ",some "literal","on"⟩,⟨[],"a = on ",some "literal","off"⟩] := by
  have hrun : (fun x : Except Scan.Halt Unit × Scan.State => x.1.isOk &&
      (locatedIn [] "" x.2.tree.finish).filter (fun scope => scope.kind == some "literal") ==
        [⟨[],"a = ",some "literal","on"⟩,⟨[],"a = on ",some "literal","off"⟩])
      (Scan.run (iniEnv "a = on offer") (.opened ini.nodeByNode none ["ini"])) = true := by decide +kernel
  generalize Scan.run _ _ = x at hrun ⊢
  obtain ⟨outcome | _,s⟩ := x
  · cases hrun
  · exact ⟨s,rfl,beq_iff_eq.mp hrun⟩

lemma highlight_offer : ∃ r, ((highlight { registry := .bundled } { name := "ini", code := "a = on offer" }).run
    []).1 = .ok r ∧ ⟨[],"a = ",some "literal","on"⟩ ∈ locatedIn [] "" r.tree ∧
      ⟨[],"a = on ",some "literal","off"⟩ ∈ locatedIn [] "" r.tree := by
  have hfind : Registry.bundled.find? "ini" = some ("ini",.ofGrammar ini) := rfl
  obtain ⟨table,htable⟩ := exists_assemble_ini
  obtain rfl := Grammar.assemble_eq_nodeByNode htable
  obtain ⟨os,hos,hdraws⟩ := exists_outlines_ini
  have ht : ini.nodeByNode.DrawsAtBegins "literal" := .of_outlines htable hos hdraws.plain hdraws.starts
  obtain ⟨run,hcall⟩ := exists_highlight_eq (h := { registry := .bundled })
    (q := { name := "ini", code := "a = on offer" }) hfind htable []
  obtain ⟨s,hrun,hscopes⟩ := run_offer
  have hsub : ∀ id, ((envFor { registry := .bundled } run ini.nodeByNode
      { name := "ini", code := "a = on offer" }).node id).subLanguage = none := ht.subLanguage
  have hembed := Scan.run_embedding (fun _ _ _ => none) hsub (.opened ini.nodeByNode none ["ini"])
  have hsubset := hscopes ▸ List.filter_subset_self (locatedIn [] "" s.tree.finish)
  exact ⟨_,hcall (hembed.symm.trans hrun),hsubset List.mem_cons_self,
    hsubset (List.mem_cons_of_mem _ List.mem_cons_self)⟩

theorem highlight_ini_literal_on : Registry.bundled.find? "ini" = some ("ini",.ofGrammar ini) ∧
    ∃ r, ((highlight { registry := .bundled } { name := "ini", code := "a = on offer" }).run []).1 = .ok r ∧
      ⟨[],"a = ",some "literal","on"⟩ ∈ locatedIn [] "" r.tree ∧ ∃ w ∈ literalWords, ∃ after,
        "a = " ++ "on" ++ after = "a = on offer" ∧ w.StandsBetween "a = " "on" after ∧
        (endsInWord "a = " = false ∧ startsInWord after = false ↔
          (w.before = false → endsInWord "a = " = false) ∧ (w.after = false → startsInWord after = false)) := by
  have hfind : Registry.bundled.find? "ini" = some ("ini",.ofGrammar ini) := rfl
  obtain ⟨r,hr,hmem,-⟩ := highlight_offer
  exact ⟨hfind,r,hr,hmem,highlight_ini_literal (h := { registry := .bundled }) hfind rfl _ false [] r _
    (Prod.ext hr rfl) _ hmem rfl⟩

/-- A literal may be a part of a word. -/
theorem exists_ini_literal_in_word : ∃ r scope after,
    ((highlight { registry := .bundled } { name := "ini", code := "a = on offer" }).run []).1 = .ok r ∧
    scope ∈ locatedIn [] "" r.tree ∧ scope.kind = some "literal" ∧
    scope.before ++ scope.text ++ after = "a = on offer" ∧ startsInWord after = true := by
  obtain ⟨r,hr,-,hmem⟩ := highlight_offer
  exact ⟨r,_,"er",hr,hmem,rfl,rfl,by decide⟩

end Highlighter
end Highlight
