import Highlight.Proofs.Assembly.Outcome
import Highlight.Proofs.Assembly.Table
import Highlight.Proofs.Keywords
import Highlight.Proofs.Rules.WordList

/-!
Modes that begin with keywords. Such a mode begins at whole words of its list and nowhere else. They are
keywords of the mode as well, if it has no keywords of its own.
-/
namespace Highlight

/-- Every listed word is a key of the table. -/
lemma KeywordTable.isSome_find?_plain {listed declared : String} (h : declared ∈ Text.words listed) :
    ((ofKeywords (.plain listed) false).find? (splitScore declared).1).isSome := by
  have hmem : DeclaredWord.ofText "keyword" declared ∈ (Keywords.plain listed).declaredWords :=
    List.mem_append_left _ (List.mem_map_of_mem h)
  exact mem_keys_iff.mp ((mem_keys_ofKeywords _ false _).mpr ⟨_,hmem,rfl⟩)

namespace Assembly

open Regex Text

/-- The words of a list, without their scores. -/
def listedWords (listed : String) : List (List Char) := (words listed).map (fun word => (splitScore word).1.toList)

lemma beginKeywordsPattern_eq (listed : String) :
    beginKeywordsPattern listed = String.ofList (wordListText (listedWords listed)) := by
  apply String.toList_inj.mp
  simp [beginKeywordsPattern,wordListText,listedWords,String.toList_intercalate,Function.comp_def]

variable {g : Grammar} {t : NodeTable} {p id : NodeId} {m : Mode}

/-- What a node takes from the mode that it is made for. -/
lemma begin_of_compiledUnder (hg : g.assemble = .ok t) (hm : CompiledUnder g p m id) :
    (t.node id).beginPattern = some (beginOf m) ∧
      (t.node id).keywords =
        (m.keywords <|> m.beginKeywords.map Keywords.plain).map (KeywordTable.ofKeywords · g.ignoreCase) := by
  obtain ⟨s,origin,hs,horigin,hmode,hplace⟩ := hm
  obtain ⟨m',terminator,d,hsettles⟩ := (walk_settled hs).2 _ _ hplace
  obtain rfl : m = m' := Option.some.inj (hmode.symm.trans hsettles.mode)
  obtain ⟨drafts,hdrafts,-,hnode⟩ := Grammar.node_of_assemble hg
  obtain ⟨s',hs',rfl⟩ := draftAll_eq_ok.mp hdrafts
  obtain rfl := Except.ok.inj (hs.symm.trans hs')
  have hd : d.beginPattern = some (beginOf m) ∧ d.keywords = (m.keywords <|> m.beginKeywords.map Keywords.plain) := by
    cases terminator with
    | none => exact absurd (hsettles.root.mpr rfl) horigin
    | some terminator =>
      rw [hsettles.own]
      exact ⟨rfl,rfl⟩
  rcases hnode id with ⟨hnone,-⟩ | ⟨d',hd',hof⟩
  · rw [hsettles.draft] at hnone
    cases hnone
  · obtain rfl := Option.some.inj (hsettles.draft.symm.trans hd')
    exact ⟨(drafted_of_nodeOf hof).beginPattern.trans hd.1,
      (outlined_of_nodeOf hof).keywords.trans (congrArg (Option.map _) hd.2)⟩

/-- A mode that begins with keywords begins where a whole word of the text is one of them, and its begin takes
that word. The order of the keywords does not matter, nor that one may be the beginning of another. A search
finds such a word where it stands unless it runs out of its budget, for which there must be half a million
keywords. If the mode has no keywords of its own, the word is one of its keywords. -/
theorem beginKeywords_wholeWords {listed : String} (hne : words listed ≠ [])
    (hwords : ∀ word ∈ words listed, (splitScore word).1 ≠ "" ∧ ∀ c ∈ (splitScore word).1.toList, isWord c = true) :
    ∃ r, Regex.compileRule (beginKeywordsPattern listed) false = .ok r ∧
      (∀ text q e, (r.preferred { text } q).map Spot.position = some e ↔
        StandsAt (listedWords listed) text q ∧ e = q + (wordRun text q).length) ∧
      (2 * (words listed).length ≤ searchBudget → ∀ text q,
        (∃ f, r.find text q = .ok (some f) ∧ f.start = q) ↔ StandsAt (listedWords listed) text q) ∧
      ∀ g t p m id, g.assemble = .ok t → g.ignoreCase = false → CompiledUnder g p m id →
        m.beginKeywords = some listed → (t.node id).beginPattern = some (beginKeywordsPattern listed) ∧
          (m.keywords = none → ∃ table, (t.node id).keywords = some table ∧
            ∀ text q, StandsAt (listedWords listed) text q →
              (table.find? (String.ofList (wordRun text q))).isSome) := by
  have hne' : listedWords listed ≠ [] := by simpa [listedWords] using hne
  have hws : ∀ w ∈ listedWords listed, w ≠ [] ∧ ∀ c ∈ w, isWord c = true := by
    intro w hw
    obtain ⟨word,hword,rfl⟩ := List.mem_map.mp hw
    obtain ⟨hempty,hchars⟩ := hwords word hword
    exact ⟨by simpa using hempty,hchars⟩
  refine ⟨_,beginKeywordsPattern_eq listed ▸ compileRule_wordListText hne' hws,
    fun text q e => preferred_wordList hne' hws,fun hbudget text q => ?_,fun g t p m id hg hcase hm hlisted => ?_⟩
  · exact find_wordList hne' hws (by rwa [listedWords,List.length_map])
  · obtain ⟨hbegin,hkeywords⟩ := begin_of_compiledUnder hg hm
    rw [beginOf,hlisted] at hbegin
    refine ⟨hbegin,fun hnone => ⟨_,by rw [hkeywords,hnone,hlisted,hcase]; rfl,fun text q hstands => ?_⟩⟩
    obtain ⟨word,hword,heq⟩ := List.mem_map.mp hstands.run
    rw [← heq,String.ofList_toList]
    exact KeywordTable.isSome_find?_plain hword

/-- A keyword that another one starts with, in the text of that one and by itself. -/
theorem beginKeywords_wholeWords_inner : ∃ r, Regex.compileRule (beginKeywordsPattern "in inter|5 int") false = .ok r ∧
    (r.preferred { text := .ofString "(inter int" } 1).map Spot.position = some 6 ∧
      (r.preferred { text := .ofString "(inter int" } 7).map Spot.position = some 10 ∧
        ∃ f, r.find (.ofString "(inter int") 7 = .ok (some f) ∧ f.start = 7 := by
  have hall : (words "in inter|5 int").all (fun word =>
      (splitScore word).1 != "" && (splitScore word).1.toList.all isWord) = true := by decide +kernel
  have hwords : ∀ word ∈ words "in inter|5 int",
      (splitScore word).1 ≠ "" ∧ ∀ c ∈ (splitScore word).1.toList, isWord c = true := by
    intro word hword
    obtain ⟨hne,hchars⟩ := Bool.and_eq_true_iff.mp (List.all_eq_true.mp hall word hword)
    exact ⟨bne_iff_ne.mp hne,List.all_eq_true.mp hchars⟩
  obtain ⟨r,hr,hpreferred,hfind,-⟩ := beginKeywords_wholeWords (by decide) hwords
  have hinter : StandsAt (listedWords "in inter|5 int") (.ofString "(inter int") 1 :=
    ⟨by decide,by decide⟩
  have hint : StandsAt (listedWords "in inter|5 int") (.ofString "(inter int") 7 :=
    ⟨by decide,by decide⟩
  exact ⟨r,hr,(hpreferred _ _ _).mpr ⟨hinter,by decide⟩,(hpreferred _ _ _).mpr ⟨hint,by decide⟩,
    (hfind (by decide) _ _).mpr hint⟩

end Assembly
end Highlight
