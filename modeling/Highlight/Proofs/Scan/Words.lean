import Highlight.Proofs.Regex.Costs
import Highlight.Proofs.Rules.Lines
import Highlight.Proofs.Scan.Straight

/-!
Flushing of buffers with at most one word. A buffer without a word goes into the tree as it is. If its only
word is a keyword, that goes into a scope of its own.
-/
namespace Highlight

open Regex

namespace Regex

variable {r : Regex} {text : Source} {start q j : Nat}

/-- The pattern of words. -/
def wordPattern : Pattern := .loop (.set (.property .word)) 1 none true

lemma read_word (hr : compileRule "\\w+" false = .ok r) : r.pattern = wordPattern ∧ r.plain = true := by
  have hread : (compileRule "\\w+" false).toOption.map (fun r => (r.pattern,r.plain)) =
      some (wordPattern,true) := by decide +kernel
  rw [hr] at hread
  exact Prod.mk.inj (Option.some.inj hread)

lemma orderly_word (hr : compileRule "\\w+" false = .ok r) : r.Orderly := by
  obtain ⟨hpattern,hplain⟩ := read_word hr
  exact ⟨hplain,⟨[],hpattern ▸ rfl⟩,hpattern ▸ rfl,hpattern ▸ rfl⟩

/-- No word starts at a character that is not in words, or at the end. -/
lemma ends_word_eq_nil (hq : q ≤ text.size) (h : ∀ c, text[q]? = some c → Text.isWord c = false) :
    wordPattern.ends { text } q = [] := by
  have hrefuses : wordPattern.refuses? [text[q]?] = some 0 := by
    cases hc : text[q]? with
    | none => rfl
    | some c => simp [Pattern.refuses?,wordPattern,Pattern.returns?,CharSet.contains,CharProperty.holds,h c hc]
  exact ends_eq_nil_of_refuses? rfl hrefuses (Haystack.shows_one rfl) hq

/-- Where only characters come that are not in words, no word is found. -/
lemma find_word_eq_none (hr : compileRule "\\w+" false = .ok r)
    (hnone : ∀ k c, start ≤ k → text[k]? = some c → Text.isWord c = false) : r.find text start = .ok none := by
  refine (orderly_word hr).find_eq_none (fun k hk hle => ?_)
  rw [(read_word hr).1]
  exact ends_word_eq_nil hle (fun c => hnone k c hk)

/-- A word is found that comes after such characters, up to the next one of them. -/
lemma exists_find_word_eq_some (hr : compileRule "\\w+" false = .ok r) (hq : start ≤ q) (hlt : q < j)
    (hj : j ≤ text.size) (hnone : ∀ k c, start ≤ k → k < q → text[k]? = some c → Text.isWord c = false)
    (hword : ∀ k, q ≤ k → k < j → ∃ c, text[k]? = some c ∧ Text.isWord c = true)
    (hstop : ∀ c, text[j]? = some c → Text.isWord c = false) :
    ∃ f, r.find text start = .ok (some f) ∧ f.start = q ∧ f.stop = j := by
  have hgoes : wordPattern.GoesTo { text } q j 1 := Pattern.goesTo_run hlt hj hword hstop
  refine (orderly_word hr).exists_find_eq_some hq (by omega) (fun k hk hlt => ?_) ?_
  · rw [(read_word hr).1]
    exact ends_word_eq_nil (by omega) (fun c => hnone k c hk hlt)
  · rw [(read_word hr).1]
    exact hgoes.head?_ends rfl

variable {before word after : List Char}

/-- Whether no character of a text is in words. -/
def wordless (cs : List Char) : Bool := cs.all (fun c => !Text.isWord c)

lemma not_isWord_of_wordless {cs : List Char} (h : wordless cs = true) {c : Char} (hc : c ∈ cs) :
    Text.isWord c = false := by
  have hall := List.all_eq_true.mp h c hc
  simpa using hall

/-- No word is found in a text without words. -/
lemma findAll_wordless (hr : compileRule "\\w+" false = .ok r) (h : wordless before = true) :
    r.findAll before.toArray = .ok [] := by
  have hfind : r.find before.toArray 0 = .ok none := find_word_eq_none hr (fun k c _ hc => by
    rw [List.getElem?_toArray] at hc
    exact not_isWord_of_wordless h (List.mem_of_getElem? hc))
  rw [findAll,matchesFrom,if_neg (Nat.not_lt_zero _),hfind]
  rfl

/-- The only word of a text is found, and no other. -/
lemma findAll_word (hr : compileRule "\\w+" false = .ok r) (hbefore : wordless before = true)
    (hword : ∀ c ∈ word, Text.isWord c = true) (hne : word ≠ []) (hafter : wordless after = true) :
    r.findAll (before ++ word ++ after).toArray = .ok [(before.length,before.length + word.length)] := by
  have hpos : 0 < word.length := List.length_pos_iff.mpr hne
  have hget : ∀ k, (before ++ word ++ after).toArray[k]? = (before ++ (word ++ after))[k]? := fun k => by
    rw [List.getElem?_toArray,List.append_assoc]
  have hsize : (before ++ word ++ after).toArray.size = before.length + word.length + after.length := by
    rw [List.size_toArray,List.length_append,List.length_append]
  have hrest : ∀ k c, before.length + word.length ≤ k → (before ++ word ++ after).toArray[k]? = some c →
      Text.isWord c = false := by
    intro k c hk hc
    rw [List.getElem?_toArray,List.getElem?_append_right (by simpa using hk)] at hc
    exact not_isWord_of_wordless hafter (List.mem_of_getElem? hc)
  obtain ⟨f,hfind,hstart,hstop⟩ : ∃ f, r.find (before ++ word ++ after).toArray 0 = .ok (some f) ∧
      f.start = before.length ∧ f.stop = before.length + word.length := by
    refine exists_find_word_eq_some hr (Nat.zero_le _) (by omega) (by omega) (fun k c _ hk hc => ?_)
      (fun k hk hlt => ?_) (fun c => hrest _ c (Nat.le_refl _))
    · rw [hget,List.getElem?_append_left hk] at hc
      exact not_isWord_of_wordless hbefore (List.mem_of_getElem? hc)
    · have hk' : k - before.length < word.length := by omega
      refine ⟨word[k - before.length],?_,hword _ (List.getElem_mem _)⟩
      rw [hget,List.getElem?_append_right hk,List.getElem?_append_left hk',List.getElem?_eq_getElem hk']
  have hnone : r.find (before ++ word ++ after).toArray f.stop = .ok none :=
    find_word_eq_none hr (fun k c hk => hrest k c (hstop ▸ hk))
  rw [findAll,matchesFrom,if_neg (Nat.not_lt_zero _),hfind]
  dsimp only [bind,Except.bind]
  rw [if_neg (by omega),matchesFrom,if_neg (by omega),hnone,hstart,hstop]
  rfl

end Regex

namespace Scan

variable {env : Env} {id : NodeId} {before word after : List Char}

lemma ofSearch_ok {α : Type} (a : α) : Action.ofSearch (.ok a) = pure a := rfl

/-- A buffer without words goes into the tree as it is. -/
lemma flushes_wordless (hsub : (env.node id).subLanguage = none)
    (hlexemes : Regex.compileRule "\\w+" false = .ok (env.node id).lexemes) (h : wordless before = true) :
    env.Flushes id (String.ofList before) (·.addText (String.ofList before)) (fun n => n) := by
  cases hkeywords : (env.node id).keywords with
  | none => exact flushes_text hkeywords hsub _
  | some table =>
    rintro s rfl hbuffer
    have hpieces : piecesFrom table env.table.ignoreCase before.toArray 0 [] = [.plain (String.ofList before)] := by
      simp [piecesFrom,Source.slice]
    rw [Action.Succeeds,Action.Ensures,run_flush,hsub,flushKeywords,hkeywords,hbuffer]
    dsimp only
    rw [Source.ofString,String.toList_ofList,findAll_wordless hlexemes h,ofSearch_ok,pure_bind,hpieces]
    rfl

/-- A keyword in the buffer gets a scope of its own, if there are no other words. -/
lemma flushes_keyword (hsub : (env.node id).subLanguage = none) {table : KeywordTable}
    (hkeywords : (env.node id).keywords = some table) (hcase : env.table.ignoreCase = false)
    (hlexemes : Regex.compileRule "\\w+" false = .ok (env.node id).lexemes) (hbefore : wordless before = true)
    (hword : ∀ c ∈ word, Text.isWord c = true) (hne : word ≠ []) (hafter : wordless after = true)
    {entry : KeywordEntry} (hentry : table.find? (String.ofList word) = some entry) :
    env.Flushes id (String.ofList (before ++ word ++ after))
      (fun b => ((b.addText (String.ofList before)).addKeyword (String.ofList word) entry.className).addText
        (String.ofList after))
      (fun n => addRelevance n entry.relevance) := by
  rintro s rfl hbuffer
  have hpieces : piecesFrom table env.table.ignoreCase (before ++ word ++ after).toArray 0
      [(before.length,before.length + word.length)] =
        [.plain (String.ofList before),.keyword (String.ofList word) entry,.plain (String.ofList after)] := by
    have hspells : Source.Spells (before ++ word ++ after).toArray 0 (before ++ word ++ after) := fun k c hc => by
      rwa [Nat.zero_add,List.getElem?_toArray]
    have hsize : (before ++ word ++ after).toArray.size = before.length + word.length + after.length := by
      rw [List.size_toArray,List.length_append,List.length_append]
    have h₁ := hspells.left.left.slice
    have h₂ := hspells.left.right.slice
    have h₃ := hspells.right.slice
    rw [Nat.zero_add] at h₁ h₂ h₃
    rw [List.length_append] at h₃
    simp only [piecesFrom,hsize,h₁,h₂,h₃,Piece.ofWord,lookupWord,hcase,Bool.false_eq_true,if_false,hentry]
  rw [Action.Succeeds,Action.Ensures,run_flush,hsub,flushKeywords,hkeywords,hbuffer]
  dsimp only
  rw [Source.ofString,String.toList_ofList,findAll_word hlexemes hbefore hword hne hafter,ofSearch_ok,
    pure_bind,hpieces]
  rfl

end Scan

end Highlight
