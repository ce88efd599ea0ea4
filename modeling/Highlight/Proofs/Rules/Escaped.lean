import Highlight.Proofs.Rules.Anchored
import Highlight.Proofs.Rules.WordList

/-!
Literal texts as patterns. A text is escaped so that the reader takes each of its characters for itself, and the
light scan finds no group in it. Tied to the start of what is in sight, it matches where that begins with the text.
-/
namespace Highlight.Rules

open Regex

/-- How a character is written in the pattern of a literal text. -/
def escapeChar (c : Char) : List Char := if isMeta c then ['\\',c] else [c]

lemma toList_escape (text : String) : (escape text).toList = text.toList.flatMap escapeChar := String.toList_ofList

def metaChars : List Char := "\\.+*?()|[]\x7b\x7d^$#&-~".toList

lemma escapeChar_meta {c : Char} (h : c ∈ metaChars) : escapeChar c = ['\\',c] :=
  if_pos (List.contains_iff_mem.mpr h)

lemma escapeChar_other {c : Char} (h : c ∉ metaChars) : escapeChar c = [c] :=
  if_neg fun hc => h (List.contains_iff_mem.mp hc)

variable {cs rest : List Char} {c : Char} {n : Nat}

/-- What holds of the marked characters one by one. -/
lemma of_mem_metaChars {P : Char → Prop} [DecidablePred P] (h : metaChars.all (fun c => decide (P c)) = true)
    (hc : c ∈ metaChars) : P c :=
  of_decide_eq_true (List.all_eq_true.mp h c hc)

section Reading

variable {f : Flags} {pending : Bool} {r : Reader}

/-- Only letters and digits have a meaning after a backslash, and no such character is marked. -/
lemma lexeme_meta (hc : c ∈ metaChars) : lexeme f pending '\\' (c :: rest) = .ok (.piece (.ofChar f c),rest) := by
  obtain ⟨hletter,hdigit,hhex,hclass,halpha⟩ : c ∉ ['k','A','z','b','B'] ∧ c.isDigit = false ∧
      hexWidth? c = none ∧ (c = 'p' || c = 'P') = false ∧ c.isAlpha = false :=
    of_mem_metaChars (P := fun c => c ∉ ['k','A','z','b','B'] ∧ c.isDigit = false ∧ hexWidth? c = none ∧
      (c = 'p' || c = 'P') = false ∧ c.isAlpha = false) (by decide) hc
  have hsimple : simpleEscape c = .ok (.char c) := by
    unfold simpleEscape
    split
    case h_17 => exact if_neg (by simp [halpha])
    all_goals exact absurd hc (by decide)
  have hescape : readEscape f.fold c rest = .ok (.char c,rest) := by
    unfold readEscape
    rw [hhex]
    dsimp only
    rw [hclass,if_neg Bool.false_ne_true,hsimple]
    rfl
  have hlex : lexeme f pending '\\' (c :: rest) = lexBackslash f (c :: rest) := rfl
  rw [hlex,lexBackslash_other hletter,lexEscape,hdigit,if_neg Bool.false_ne_true,hescape]
  rfl

lemma lexeme_other (hc : c ∉ metaChars) : lexeme f pending c rest = .ok (.piece (.ofChar f c),rest) := by
  refine lexeme_char (fun hspecial => hc ?_) rest
  have hsub : ['|',')','?','*','+','\x7b','(','\\','[','.','^','$'] ⊆ metaChars := by decide
  exact hsub hspecial

/-- An escaped character is read in one round. -/
lemma readAll_escapeChar (hx : r.flags.extended = false) (hfold : r.flags.fold = false) :
    r.readAll (n + 1) (escapeChar c ++ rest) = (r.push ⟨.set (.single c),true⟩).readAll n rest := by
  have hpiece : Piece.ofChar r.flags c = ⟨.set (.single c),true⟩ := by
    rw [Piece.ofChar,hfold]
    rfl
  by_cases hc : c ∈ metaChars
  · have htoken : r.readToken '\\' (c :: rest) = .ok (r.push ⟨.set (.single c),true⟩,rest) :=
      readToken_eq_ok.mpr ⟨by simp,_,lexeme_meta hc,by rw [hpiece]; rfl⟩
    rw [escapeChar_meta hc,List.cons_append,List.singleton_append,readAll_cons hx (noComment_of_head (by simp)),
      htoken]
    rfl
  · have hparen : c ≠ '(' := fun h => hc (h ▸ by decide)
    have htoken : r.readToken c rest = .ok (r.push ⟨.set (.single c),true⟩,rest) :=
      readToken_eq_ok.mpr ⟨by simp [hparen],_,lexeme_other hc,by rw [hpiece]; rfl⟩
    rw [escapeChar_other hc,List.singleton_append,readAll_cons hx (noComment_of_head (by simp [hparen])),htoken]
    rfl

lemma length_le_escaped (cs : List Char) : cs.length ≤ (cs.flatMap escapeChar).length := by
  induction cs with
  | nil => exact Nat.le_refl 0
  | cons c cs ih =>
    have hpos : 1 ≤ (escapeChar c).length := by
      unfold escapeChar
      split <;> simp
    rw [List.flatMap_cons,List.length_append,List.length_cons]
    omega

lemma isPlain_literal (cs : List Char) : (literal cs).isPlain [] = true := by
  induction cs with
  | nil => rfl
  | cons c cs ih =>
    cases cs with
    | nil => rfl
    | cons d cs => exact ih

lemma boundsOrdered_literal (cs : List Char) : (literal cs).boundsOrdered = true := by
  induction cs with
  | nil => rfl
  | cons c cs ih =>
    cases cs with
    | nil => rfl
    | cons d cs => exact ih

/-- An escaped text is read as its characters one after the other. -/
theorem compileRule_escape (text : String) :
    Regex.compileRule (escape text) false = .ok ⟨literal text.toList,0,true⟩ := by
  have hstart : (afterFlags (ruleFlags false)).AtWord [] [] (afterFlags (ruleFlags false)) := rfl
  have hchar : ∀ c ∈ text.toList, ∀ r : Reader, r.flags = (afterFlags (ruleFlags false)).flags → ∀ n rest,
      r.readAll (n + 1) (escapeChar c ++ rest) = (r.push ⟨.set (.single c),true⟩).readAll n rest :=
    fun c _ r hr n rest => readAll_escapeChar (hr ▸ rfl) (hr ▸ rfl)
  obtain ⟨r,hr,hread⟩ := hstart.readSpelled hchar []
  obtain ⟨n,hn,heq⟩ := readRule_eq (escape text) false
  have hlength := length_le_escaped text.toList
  obtain ⟨k,rfl⟩ : ∃ k, n = k + 1 + text.toList.length := by
    rw [toList_escape] at hn
    exact ⟨n - text.toList.length - 1,by omega⟩
  rw [toList_escape,← List.append_nil (List.flatMap _ _),hread,readAll_nil (hr.flags ▸ rfl)] at heq
  obtain ⟨branches,whole,hcontents,hpattern⟩ := hr.contents rfl
  obtain ⟨houter,hgroups,hreferenced⟩ : r.outer = [] ∧ r.groups = 0 ∧ r.referenced = [] := by
    obtain ⟨_,_,_,rfl⟩ := hr.exists_eq
    exact ⟨rfl,rfl,rfl⟩
  have hregex : regexOf r (literal text.toList) = ⟨literal text.toList,0,true⟩ := by
    rw [regexOf,hreferenced,hgroups,settle_literal,isPlain_literal]
  rw [compileRule_eq,heq]
  refine ofReader_eq_ok.mpr ⟨literal text.toList,finish_eq_ok.mpr ⟨houter,branches,whole,hcontents,hpattern⟩,?_,?_⟩
  · exact hregex.symm
  · exact boundsOrdered_literal text.toList

end Reading

section Tokens

/-- The light scan finds neither groups nor references in an escaped text. -/
lemma fitsFrom_escaped (cs : List Char) :
    FitsFrom false 0 (cs.flatMap escapeChar) ∧ groupCount (cs.flatMap escapeChar) = 0 := by
  induction cs with
  | nil => exact ⟨rfl,rfl⟩
  | cons c cs ih =>
    rw [List.flatMap_cons]
    by_cases hc : c ∈ metaChars
    · obtain ⟨hreference,hnewline,hzero,hletter⟩ :
          startsReference c = false ∧ c ≠ '\n' ∧ c ≠ '0' ∧ c ≠ 'K' ∧ c ≠ 'G' ∧ c ≠ 'k' :=
        of_mem_metaChars (P := fun c => startsReference c = false ∧ c ≠ '\n' ∧ c ≠ '0' ∧ c ≠ 'K' ∧ c ≠ 'G' ∧ c ≠ 'k')
          (by decide) hc
      rw [escapeChar_meta hc,List.cons_append,List.singleton_append,fitsFrom_cons,groupCount_cons,
        nextToken_escape hreference hnewline]
      refine ⟨⟨?_,Nat.zero_le _,ih.1⟩,ih.2⟩
      simp [Token.fits,hzero,hletter]
    · have hordinary : IsOrdinary c := ⟨fun h => hc (h ▸ by decide),fun h => hc (h ▸ by decide),fun h => hc (h ▸ by decide)⟩
      have hclose : c ≠ ')' := fun h => hc (h ▸ by decide)
      rw [escapeChar_other hc,List.singleton_append,fitsFrom_cons,groupCount_cons,nextToken_ordinary hordinary]
      have hdepth : (Token.plain c).depthAfter 0 = 0 := if_neg hclose
      rw [hdepth]
      exact ⟨⟨bne_iff_ne.mpr hordinary.1,Nat.zero_le _,ih.1⟩,ih.2⟩

end Tokens

section Matching

lemma continuesWith_iff {text : Source} {part : String} {p : Nat} :
    text.continuesWith part p = true ↔ part.toList <+: text.toList.drop p := by
  rw [Source.continuesWith,beq_iff_eq,Source.slice,← String.toList_inj,String.toList_ofList,Array.toList_extract,
    List.extract_eq_take_drop,Nat.add_sub_cancel_left,List.prefix_iff_eq_take,String.length_toList]
  exact eq_comm

/-- What a pattern that is tied to the start finds there: a literal text if that comes next. -/
lemma search_escape (text : String) : ∃ r, Regex.compileAnchored (escape text) false = .ok r ∧
    ∀ (t : Source) (q : Nat), q ≤ t.size → r.search { text := t, origin := q } q =
      .ok (if text.toList <+: t.toList.drop q then some ⟨q,{ position := q + text.length }⟩ else none) := by
  obtain ⟨hfits,hgroups⟩ := fitsFrom_escaped text.toList
  have hroom : countGroups (escape text) < UInt64.size := by
    rw [countGroups_eq,toList_escape,hgroups]
    decide
  obtain ⟨r,hr,hplain,hpreferred⟩ :=
    exists_anchored (compileRule_escape text) ((toList_escape text).symm ▸ hfits) hroom
  refine ⟨r,hr,fun t q hq => ?_⟩
  have hhere : ∀ i, r.preferred { text := t, origin := q } i =
      if i = q ∧ text.toList <+: t.toList.drop q then some { position := q + text.length } else none := by
    intro i
    rw [hpreferred]
    by_cases hi : i = q
    · rw [if_pos hi,preferred,if_pos rfl,ways_literal,routes_literal,String.length_toList,apply_ite List.head?]
      simp only [hi,true_and]
      rfl
    · rw [if_neg hi,if_neg fun h => hi h.1]
  have hsearch : r.search { text := t, origin := q } q = .ok _ := if_pos hplain
  rw [hsearch]
  refine congrArg Except.ok ?_
  have hleftmost := search_isLeftmost hsearch
  generalize searchPlain r.pattern { text := t, origin := q } ({ text := t, origin := q : Haystack }.size + 1 - q) q =
    found at hleftmost ⊢
  cases found with
  | none =>
    have hnone : r.preferred { text := t, origin := q } q = none :=
      hleftmost q (Nat.le_refl q) (by simp only [Haystack.size]; omega)
    rw [hhere] at hnone
    split at hnone
    · cases hnone
    · rename_i hnot
      exact (if_neg fun h => hnot ⟨rfl,h⟩).symm
  | some f =>
    obtain ⟨-,-,hlast,-⟩ := hleftmost
    rw [hhere] at hlast
    split at hlast
    · rename_i hmatch
      obtain ⟨start,last⟩ := f
      obtain rfl : start = q := hmatch.1
      have hlast : { position := start + text.length } = last := Option.some.inj hlast
      rw [if_pos hmatch.2,hlast]
    · cases hlast

/-- The escaped form of a text, tied to the start, compiles and matches the texts that start with it. The match is
that text. What comes before the start is out of sight. -/
theorem compileAnchored_escape (text : String) : ∃ r, Regex.compileAnchored (escape text) false = .ok r ∧
    (∀ whole : String, r.find (.ofString whole) 0 =
      .ok (if text.toList <+: whole.toList then some ⟨0,{ position := text.length }⟩ else none)) ∧
    ∀ before whole : String,
      r.matchesIn (.ofString (before ++ whole)) before.length = .ok (decide (text.toList <+: whole.toList)) ∧
        (Source.ofString (before ++ whole)).continuesWith text before.length =
          decide (text.toList <+: whole.toList) := by
  obtain ⟨r,hr,hsearch⟩ := search_escape text
  refine ⟨r,hr,fun whole => ?_,fun before whole => ?_⟩
  · have hfind := hsearch (.ofString whole) 0 (Nat.zero_le _)
    rw [Nat.zero_add] at hfind
    exact hfind
  · have hdrop : (Source.ofString (before ++ whole)).toList.drop before.length = whole.toList := by
      rw [Source.ofString,List.toList_toArray,String.toList_append,← String.length_toList,List.drop_left]
    have hsize : before.length ≤ (Source.ofString (before ++ whole)).size := by
      rw [Source.ofString,List.size_toArray,String.length_toList,String.length_append]
      exact Nat.le_add_right _ _
    refine ⟨?_,?_⟩
    · rw [Regex.matchesIn,hsearch _ _ hsize,hdrop]
      by_cases hprefix : text.toList <+: whole.toList
      · rw [if_pos hprefix,decide_eq_true hprefix]
        rfl
      · rw [if_neg hprefix,decide_eq_false hprefix]
        rfl
    · rw [Bool.eq_iff_iff,continuesWith_iff,hdrop,decide_eq_true_eq]

end Matching

end Highlight.Rules
