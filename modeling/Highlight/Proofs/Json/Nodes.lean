import Highlight.Grammar.Bundled.Json
import Highlight.Proofs.Assembly.Table
import Highlight.Proofs.Json.Numbers
import Highlight.Proofs.Rules.Gaps
import Highlight.Proofs.Rules.ZeroWidth

/-!
The nodes of the grammar for JSON, and what they find. Three of them hold values: the top mode, that of the
value of a member, and that of an element of an array.
-/
namespace Highlight.JsonText

open Rules Regex Assembly

def stringNode : NodeId := 1
def escapeNode : NodeId := 2
def numberNode : NodeId := 3
def objectNode : NodeId := 4
def nameNode : NodeId := 5
def nameEscapeNode : NodeId := 6
def memberNode : NodeId := 7
def arrayNode : NodeId := 8
def elementNode : NodeId := 9
def lineCommentNode : NodeId := 10
def blockCommentNode : NodeId := 13

def literals : Keywords := .classes [("literal","true false null")]

def commentRules : List Rule := [⟨"//",.begins lineCommentNode⟩,⟨"/\\*",.begins blockCommentNode⟩]

/-- The rules for values. -/
def valueRules : List Rule :=
  [⟨"\"",.begins stringNode⟩,⟨Grammar.Shared.programNumber,.begins numberNode⟩,
    ⟨"\\\x7b",.begins objectNode⟩,⟨"\\[",.begins arrayNode⟩] ++ commentRules

def topOutline : Outline := { keywords := some literals, rules := valueRules ++ [⟨"\\S",.illegal⟩] }

def quotedRules (escape : NodeId) : List Rule :=
  [⟨"\\\\[\\s\\S]",.begins escape⟩,⟨"\"",.ends⟩,⟨"\\n",.illegal⟩]

def quotedOutline (className : String) (escape : NodeId) : Outline where
  className := some className
  endPattern := some "\""
  rules := quotedRules escape

def instantOutline (className : Option String) : Outline where
  className
  endPattern := some zeroWidth
  relevance := 0
  rules := [⟨zeroWidth,.ends⟩]

def objectRules : List Rule :=
  [⟨"\"",.begins nameNode⟩,⟨":",.begins memberNode⟩] ++ commentRules ++ [⟨"\\\x7d",.ends⟩,⟨"\\S",.illegal⟩]

def objectOutline : Outline := { endPattern := some "\\\x7d", rules := objectRules }

def arrayOutline : Outline where
  endPattern := some "\\]"
  rules := [⟨zeroWidth,.begins elementNode⟩,⟨"\\]",.ends⟩,⟨"\\S",.illegal⟩]

/-- A mode for one value, in a container that a pattern closes. -/
def holderOutline (close : String) : Outline where
  endPattern := some ","
  keywords := some literals
  switches := { Switches.unset.resolve with endsWithParent := true, excludeEnd := true }
  rules := valueRules ++ [⟨",|" ++ close,.ends⟩]

def jsonOutlines : List Outline :=
  [topOutline,quotedOutline "string" escapeNode,instantOutline none,instantOutline (some "number"),
    objectOutline,quotedOutline "attr" nameEscapeNode,instantOutline none,holderOutline "\\\x7d",
    arrayOutline,holderOutline "\\]"]

lemma outlines_json : (outlines Grammar.Bundled.json).map (·.take 10) = some jsonOutlines := by decide +kernel

lemma outlined_of_json {t : NodeTable} (ht : Grammar.Bundled.json.assemble = .ok t) {id : NodeId} {o : Outline}
    (ho : jsonOutlines[id]? = some o) : Outlined false o (t.node id) := by
  obtain ⟨os,hos,htake⟩ := Option.map_eq_some_iff.mp outlines_json
  rw [← htake,List.getElem?_take] at ho
  split at ho
  · exact outlined_of_assemble ht hos ho
  · cases ho

/-- A mode that holds values: its node, its last rule with the pattern for that, the characters that it passes
over, and the returns of a search at each of them. -/
structure Holder where
  node : NodeId
  last : Rule
  lastPattern : Pattern
  quiet : List Char
  returns : Nat

namespace Holder

/-- The letters of literals. -/
def literalLetters : List Char := ['t','r','u','e','f','a','l','s','n']

def top : Holder := ⟨rootNode,⟨"\\S",.illegal⟩,.set (.compl (.property .space)),blankChars,9⟩

def member : Holder where
  node := memberNode
  last := ⟨",|\\\x7d",.ends⟩
  lastPattern := .alt (.set (.single ',')) (.set (.single '\x7d'))
  quiet := blankChars ++ literalLetters
  returns := 10

def element : Holder where
  node := elementNode
  last := ⟨",|\\]",.ends⟩
  lastPattern := .alt (.set (.single ',')) (.set (.single ']'))
  quiet := blankChars ++ literalLetters
  returns := 10

def all : List Holder := [top,member,element]

def rules (x : Holder) : List Rule := valueRules ++ [x.last]

/-- The patterns of the rules. -/
def parts (x : Holder) : List Pattern :=
  [.set (.single '"'),numberPattern 0,.set (.single '\x7b'),.set (.single '['),
    .cat (.set (.single '/')) (.set (.single '/')),.cat (.set (.single '/')) (.set (.single '*')),x.lastPattern]

/-- The rules in one pattern. -/
def pattern (x : Holder) : Pattern :=
  .alt (.group 1 (.set (.single '"'))) (.alt (.group 2 (numberPattern 2))
    (.alt (.group 8 (.set (.single '\x7b'))) (.alt (.group 9 (.set (.single '[')))
      (.alt (.group 10 (.cat (.set (.single '/')) (.set (.single '/'))))
        (.alt (.group 11 (.cat (.set (.single '/')) (.set (.single '*')))) (.group 12 x.lastPattern))))))

lemma isCombinable_rules : ∀ x ∈ all, isCombinable x.rules false false = true := by decide +kernel

lemma isBacktracking_rules : ∀ x ∈ all, RuleSet.IsBacktracking x.rules false x.pattern := by decide +kernel

lemma partsOf_rules : ∀ x ∈ all, PartsOf x.rules false x.parts := by decide +kernel

/-- The patterns fail on what comes next, each alone and all of them in one. -/
def Refuses (x : Holder) (c : Option Char) : Prop :=
  x.pattern.refuses? [c] = some x.returns ∧ RefusedBy x.parts [c]

instance (x : Holder) (c : Option Char) : Decidable (x.Refuses c) := inferInstanceAs (Decidable (_ ∧ _))

lemma refuses_of_mem_quiet : ∀ x ∈ all, ∀ c ∈ x.quiet, x.Refuses (some c) := by
  have hall : ∀ x ∈ all, x.quiet.all (fun c => decide (x.Refuses (some c))) = true := by decide +kernel
  exact fun x hx => forall_of_all (hall x hx)

lemma top_refuses_none : top.Refuses none := by decide +kernel

/-- A character makes the rule of a number fire: it is all that the rule takes, and those before it fail. -/
def Finds (x : Holder) (c : Char) (i : Nat) : Prop :=
  RefusedBy (x.parts.take i) [some c] ∧ (x.parts[i]? >>= (·.takes? [some c])).any (·.1 == 1) = true ∧
      (x.pattern.takes? [some c]).any (fun taken => taken.1 == 1 && decide (taken.2 ≤ x.returns)) = true

instance (x : Holder) (c : Char) (i : Nat) : Decidable (x.Finds c i) := inferInstanceAs (Decidable (_ ∧ _ ∧ _))

variable {x : Holder} {text : Source} {p q : Nat} {s : RuleSet} {next : List (Option Char)}

/-- Only characters come up to a position that the mode passes over. -/
def Quiet (x : Holder) (text : Source) (p q : Nat) : Prop :=
  ∀ k, p ≤ k → k < q → ∃ c ∈ x.quiet, text[k]? = some c

/-- What a search from one position to another may return. -/
def FitsBudget (x : Holder) (length : Nat) : Prop := (length + 1) * (x.returns + 1) ≤ searchBudget

lemma Quiet.gap (h : x.Quiet text p q) (hx : x ∈ all) : Gap x.rules false text p q := by
  intro k hk hlt
  obtain ⟨c,hc,hchar⟩ := h k hk hlt
  have hsize := (Array.getElem?_eq_some_iff.mp hchar).1
  exact (partsOf_rules x hx).endAt?_eq_none (refuses_of_mem_quiet x hx c hc).2
    (Haystack.shows_one (t := { text }) hchar) (Nat.le_of_lt hsize)

lemma Quiet.costlyGap (h : x.Quiet text p q) (hx : x ∈ all) :
    RuleSet.CostlyGap x.pattern x.returns text p q := by
  intro k hk hlt
  obtain ⟨c,hc,hchar⟩ := h k hk hlt
  exact ⟨[some c],(refuses_of_mem_quiet x hx c hc).1,Haystack.shows_one (t := { text }) hchar⟩

/-- What fires after characters that are passed over is found. -/
lemma Quiet.exec (h : x.Quiet text p q) (hx : x ∈ all) (hs : RuleSet.build x.rules false = .ok s)
    (hfits : x.FitsBudget (q - p)) {stop i m : Nat} {kind : RuleKind}
    (hfires : Fires x.rules false text p 0 ⟨q,stop,kind,i⟩) (hgoes : x.pattern.GoesTo { text } q stop m)
    (hm : m ≤ x.returns) : s.exec text p 0 = .ok (some ⟨q,stop,kind,i⟩) := by
  refine RuleSet.exec_of_costlyGap hs (.of_isCombinable (isCombinable_rules x hx)) (isBacktracking_rules x hx)
    hfires (h.costlyGap hx) hgoes ?_
  rw [FitsBudget,Nat.add_one_mul] at hfits
  dsimp only
  omega

/-- A rule is found that takes one character. -/
lemma Quiet.exec_char (h : x.Quiet text p q) (hx : x ∈ all) (hs : RuleSet.build x.rules false = .ok s)
    (hfits : x.FitsBudget (q - p)) (hp : p ≤ q) {c : Char} (hc : text[q]? = some c) {i : Nat} {rule : Rule}
    (hfinds : x.Finds c i) (hrule : x.rules[i]? = some rule) :
    s.exec text p 0 = .ok (some ⟨q,q + 1,rule.kind,i⟩) := by
  obtain ⟨hbefore,htakes,hall⟩ := hfinds
  have hq : q ≤ text.size := Nat.le_of_lt (Array.getElem?_eq_some_iff.mp hc).1
  have hshows : Haystack.Shows { text } q [some c] := Haystack.shows_one hc
  obtain ⟨⟨taken,m⟩,htakes,hone⟩ := (Option.any_eq_true _ _).mp htakes
  obtain ⟨part,hpart,htakes⟩ := Option.bind_eq_some_iff.mp htakes
  obtain rfl := beq_iff_eq.mp hone
  obtain ⟨⟨taken',m'⟩,htakes',hone'⟩ := (Option.any_eq_true _ _).mp hall
  obtain ⟨hone',hm'⟩ := Bool.and_eq_true_iff.mp hone'
  obtain rfl := beq_iff_eq.mp hone'
  exact h.exec hx hs hfits ((partsOf_rules x hx).fires (h.gap hx) hp hq hrule hpart hbefore hshows
    (Pattern.goesTo_of_takes? htakes hshows hq).1) (Pattern.goesTo_of_takes? htakes' hshows hq).1
    (of_decide_eq_true hm')

/-- A number is found as a whole. -/
lemma Quiet.exec_number (h : x.Quiet text p q) (hx : x ∈ all) (hs : RuleSet.build x.rules false = .ok s)
    (hfits : x.FitsBudget (q - p)) (hp : p ≤ q) (n : Number) (hspells : text.Spells q n.chars) (hq : q ≤ text.size)
    (hbefore : ∀ c, Haystack.charBefore? { text } q = some c → Text.isWord c = false)
    (hstop : text[q + n.chars.length]? ∈ followers) :
    s.exec text p 0 = .ok (some ⟨q,q + n.chars.length,.begins numberNode,1⟩) := by
  obtain ⟨c,cs,hchars,hc⟩ := n.exists_cons
  have hshows : Haystack.Shows { text } q [some c] := Haystack.shows_one (hchars ▸ hspells).head
  have hquote : ∀ c ∈ '-' :: digitChars, (Pattern.set (.single '"')).refuses? [some c] = some 0 :=
    forall_of_all (by decide)
  obtain ⟨m,-,hgoes⟩ := goesTo_number n 0 hspells hq hbefore hstop
  obtain ⟨m',hm',hgoes'⟩ := goesTo_number n 2 hspells hq hbefore hstop
  have hfirst : RefusedBy (x.parts.take 1) [some c] := by
    intro part hpart
    obtain rfl := List.mem_singleton.mp hpart
    rw [hquote c hc]
    rfl
  have hquote' : (Pattern.group 1 (.set (.single '"'))).refuses? [some c] = some 0 := hquote c hc
  have hreturns : ∀ x ∈ all, 8 ≤ x.returns := by decide
  have henough := hreturns x hx
  exact h.exec hx hs hfits ((partsOf_rules x hx).fires (h.gap hx) hp hq rfl rfl hfirst hshows hgoes)
    (.altRight hquote' hshows hq ((hgoes'.group 2).altLeft _)) (by omega)

/-- Nothing is found where only blanks come up to the end. -/
lemma Quiet.exec_end (h : top.Quiet text p text.size) (hs : RuleSet.build top.rules false = .ok s)
    (hfits : top.FitsBudget (text.size - p)) (hp : p ≤ text.size) : s.exec text p 0 = .ok none := by
  have hx : top ∈ all := List.mem_cons_self
  have hshows : Haystack.Shows { text } text.size [none] :=
    Haystack.shows_one (Array.getElem?_eq_none_iff.mpr (Nat.le_refl _))
  refine RuleSet.exec_of_costlyGap_end hs (.of_isCombinable (isCombinable_rules top hx))
    (isBacktracking_rules top hx) (n := top.returns) (fun k hk hlt i => ?_) (fun k hk hlt => ?_) hp ?_
  · rcases Nat.eq_or_lt_of_le (Nat.le_of_lt_succ hlt) with rfl | hlt
    · exact (partsOf_rules top hx).endAt?_eq_none top_refuses_none.2 hshows (Nat.le_refl _) i
    · exact h.gap hx k hk hlt i
  · rcases Nat.eq_or_lt_of_le (Nat.le_of_lt_succ hlt) with rfl | hlt
    · exact ⟨[none],top_refuses_none.1,hshows⟩
    · exact h.costlyGap hx k hk hlt
  · rwa [FitsBudget,← Nat.sub_add_comm hp] at hfits

/-- A search gives up on too many characters that are passed over. -/
lemma Quiet.exec_gaveUp (h : x.Quiet text p q) (hx : x ∈ all) (hs : RuleSet.build x.rules false = .ok s)
    (hp : p ≤ q) (hq : q ≤ text.size) (hbudget : searchBudget < (q - p) * (x.returns + 1)) :
    s.exec text p 0 = .error .searchGaveUp :=
  RuleSet.exec_of_costlyGap_gaveUp hs (isBacktracking_rules x hx) (h.costlyGap hx) hp hq hbudget

end Holder

/-! Strings, and objects between their members. Their rules need no backtracking. -/
section Plain

variable {text : Source} {p q : Nat} {s : RuleSet}

def quotedParts : List Pattern :=
  [.cat (.set (.single '\\')) (.set (.union (.union .empty (.property .space)) (.compl (.property .space)))),
    .set (.single '"'),.set (.single '\n')]

/-- Rules whose patterns are known, none of which needs backtracking. -/
def ArePlain (rules : List Rule) (parts : List Pattern) : Prop :=
  isCombinable rules false false = true ∧ PartsOf rules false parts ∧
    ∀ rule ∈ rules, (Regex.compileRule rule.pattern false).toOption.all (·.plain) = true

instance (rules : List Rule) (parts : List Pattern) : Decidable (ArePlain rules parts) :=
  inferInstanceAs (Decidable (_ ∧ _ ∧ ∀ rule ∈ rules, _))

lemma arePlain_quoted : ∀ escape ∈ [escapeNode,nameEscapeNode], ArePlain (quotedRules escape) quotedParts := by
  decide +kernel

/-- What fires by such rules is found. -/
lemma ArePlain.exec {rules : List Rule} {parts : List Pattern} (h : ArePlain rules parts)
    (hs : RuleSet.build rules false = .ok s) (hgap : Gap rules false text p q) (hp : p ≤ q) (hq : q ≤ text.size)
    {i k m : Nat} {rule : Rule} {part : Pattern} {next : List (Option Char)} (hrule : rules[i]? = some rule)
    (hpart : parts[i]? = some part) (hbefore : RefusedBy (parts.take i) next)
    (hshows : Haystack.Shows { text } q next) (hgoes : part.GoesTo { text } q k m) :
    s.exec text p 0 = .ok (some ⟨q,k,rule.kind,i⟩) := by
  obtain ⟨hc,hparts,hplain⟩ := h
  have hfires : IsFirst rules false text p 0 (some _) :=
    hparts.fires hgap hp hq hrule hpart hbefore hshows hgoes
  exact RuleSet.exec_of_plain hs (.of_isCombinable hc) hplain hfires

/-- Only characters that stand for themselves come up to a position. -/
def Unescaped (text : Source) (p q : Nat) : Prop :=
  ∀ k, p ≤ k → k < q → ∃ c, isUnescaped c = true ∧ text[k]? = some c

lemma Unescaped.gap (h : Unescaped text p q) {escape : NodeId} (he : escape ∈ [escapeNode,nameEscapeNode]) :
    Gap (quotedRules escape) false text p q := by
  intro k hk hlt
  obtain ⟨c,hc,hchar⟩ := h k hk hlt
  have hsize := (Array.getElem?_eq_some_iff.mp hchar).1
  refine (arePlain_quoted escape he).2.1.endAt?_eq_none ?_ (Haystack.shows_one (t := { text }) hchar)
    (Nat.le_of_lt hsize)
  simp only [isUnescaped,Bool.and_eq_true,decide_eq_true_eq,bne_iff_ne,ne_eq] at hc
  obtain ⟨⟨hcontrol,hquote⟩,hbackslash⟩ := hc
  have hbreak : ¬ '\n' = c := by
    rintro rfl
    exact absurd hcontrol (by decide)
  simp [RefusedBy,quotedParts,Pattern.refuses?,Pattern.returns?,CharSet.contains,Ne.symm hquote,
    Ne.symm hbackslash,hbreak]

lemma Unescaped.exec_escape (h : Unescaped text p q) {escape : NodeId}
    (he : escape ∈ [escapeNode,nameEscapeNode]) (hs : RuleSet.build (quotedRules escape) false = .ok s)
    (hp : p ≤ q) {letter : Char} (hspells : text.Spells q ['\\',letter]) :
    s.exec text p 0 = .ok (some ⟨q,q + 2,.begins escape,0⟩) := by
  have hbackslash : Haystack.charAt? { text } q = some '\\' := hspells.head
  have hletter : Haystack.charAt? { text } (q + 1) = some letter := hspells.tail.head
  have hany : (CharSet.union (.union .empty (.property .space)) (.compl (.property .space))).contains letter =
      true := by simp [CharSet.contains]
  have hgoes : (Pattern.set (.single '\\')).GoesTo { text } q (q + 1) 0 := Pattern.goesTo_set hbackslash rfl
  have hbefore : RefusedBy (quotedParts.take 0) [some '\\'] := by decide
  exact (arePlain_quoted escape he).exec hs (h.gap he) hp (Nat.le_of_lt (Haystack.lt_size_of_charAt? hbackslash))
    rfl rfl hbefore (Haystack.shows_one hbackslash)
    (hgoes.cat (Pattern.goesTo_set hletter hany))

lemma Unescaped.exec_quote (h : Unescaped text p q) {escape : NodeId}
    (he : escape ∈ [escapeNode,nameEscapeNode]) (hs : RuleSet.build (quotedRules escape) false = .ok s)
    (hp : p ≤ q) (hquote : text[q]? = some '"') : s.exec text p 0 = .ok (some ⟨q,q + 1,.ends,1⟩) := by
  have hchar : Haystack.charAt? { text } q = some '"' := hquote
  have hbefore : RefusedBy (quotedParts.take 1) [some '"'] := by decide
  exact (arePlain_quoted escape he).exec hs (h.gap he) hp (Nat.le_of_lt (Haystack.lt_size_of_charAt? hchar))
    rfl rfl hbefore (Haystack.shows_one hchar) (Pattern.goesTo_set hchar rfl)

def objectParts : List Pattern :=
  [.set (.single '"'),.set (.single ':'),.cat (.set (.single '/')) (.set (.single '/')),
    .cat (.set (.single '/')) (.set (.single '*')),.set (.single '\x7d'),.set (.compl (.property .space))]

lemma arePlain_object : ArePlain objectRules objectParts := by decide +kernel

/-- Only blanks come up to a position. -/
def Blanks (text : Source) (p q : Nat) : Prop := ∀ k, p ≤ k → k < q → ∃ c ∈ blankChars, text[k]? = some c

/-- A rule of objects is found that takes one character. -/
lemma Blanks.exec_object (h : Blanks text p q) (hs : RuleSet.build objectRules false = .ok s) (hp : p ≤ q)
    {c : Char} (hc : text[q]? = some c) {i : Nat} {rule : Rule} (hrule : objectRules[i]? = some rule)
    (hpart : objectParts[i]? = some (.set (.single c))) (hbefore : RefusedBy (objectParts.take i) [some c]) :
    s.exec text p 0 = .ok (some ⟨q,q + 1,rule.kind,i⟩) := by
  have hgap : Gap objectRules false text p q := by
    intro k hk hlt
    obtain ⟨c,hc,hchar⟩ := h k hk hlt
    have hrefused : ∀ c ∈ blankChars, RefusedBy objectParts [some c] := forall_of_all (by decide)
    have hsize := (Array.getElem?_eq_some_iff.mp hchar).1
    exact arePlain_object.2.1.endAt?_eq_none (hrefused c hc) (Haystack.shows_one (t := { text }) hchar)
      (Nat.le_of_lt hsize)
  have hq : q ≤ text.size := Nat.le_of_lt (Array.getElem?_eq_some_iff.mp hc).1
  have hchar : Haystack.charAt? { text } q = some c := hc
  exact arePlain_object.exec hs hgap hp hq hrule hpart hbefore (Haystack.shows_one hchar)
    (Pattern.goesTo_set hchar (by simp [CharSet.contains]))

end Plain

end Highlight.JsonText
