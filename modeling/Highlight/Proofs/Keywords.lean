import Highlight.Grammar.Keywords
import Highlight.Proofs.Text.Dividers
import Highlight.Regex.EscapeReader
import Highlight.Scan.Flush

/-!
Tables of keywords. A table holds the words of a declaration and no others, each with the class and the score of
its last declaration. If case is ignored, the declaration is put in lower case as a whole, and a word of the text by
itself; both come to the same key.
-/
namespace Highlight

/-- A declared word, its class, and the score that is written behind it, if it can be read. -/
structure DeclaredWord where
  className : String
  word : String
  score : Option Nat
  deriving DecidableEq, Repr

namespace DeclaredWord

/-- A word of a declaration, which may go on with a bar and a score. -/
def ofText (className text : String) : DeclaredWord where
  className
  word := String.ofList (text.toList.takeWhile (· != '|'))
  score := readScore? (text.toList.dropWhile (· != '|')).tail

/-- What a word is kept under. -/
def key (ignoreCase : Bool) (w : DeclaredWord) : String := if ignoreCase then Text.lower w.word else w.word

def relevance (w : DeclaredWord) : Nat :=
  w.score.getD (if commonWords.contains (Text.lower w.word) then 0 else 1)

def entry (w : DeclaredWord) : KeywordEntry := ⟨w.className,w.relevance⟩

end DeclaredWord

/-- The words of a declaration in their order. -/
def Keywords.declaredWords (declared : Keywords) : List DeclaredWord :=
  declared.groups.flatMap (fun (className,words) => (Text.words words).map (.ofText className))

/-! Scores. -/
section Scores

open Regex (decimalValue)

variable {cs : List Char} {n : Nat}

/-- A score without a sign. -/
def digitsScore? (digits : List Char) : Option Nat :=
  if !digits.isEmpty && digits.all Char.isDigit && decimalValue digits ≤ maxRelevance then some (decimalValue digits)
  else none

lemma digitsScore?_eq_some_iff : digitsScore? cs = some n ↔
    cs ≠ [] ∧ (∀ d ∈ cs, d.isDigit = true) ∧ decimalValue cs = n ∧ n ≤ maxRelevance := by
  rw [digitsScore?,Option.ite_none_right_eq_some,Bool.and_eq_true,Bool.and_eq_true,Bool.not_eq_true',
    List.isEmpty_eq_false_iff,List.all_eq_true,decide_eq_true_eq,Option.some.injEq]
  constructor
  · rintro ⟨⟨⟨hne,hall⟩,hle⟩,rfl⟩
    exact ⟨hne,hall,rfl,hle⟩
  · rintro ⟨hne,hall,rfl,hle⟩
    exact ⟨⟨⟨hne,hall⟩,hle⟩,rfl⟩

lemma readScore?_other (h : ∀ rest, cs ≠ '+' :: rest) : readScore? cs = digitsScore? cs := by
  unfold readScore?
  split
  · exact absurd rfl (h _)
  · rfl

/-- Scores are numbers of 32 bits in decimal digits, which a plus sign may come before. -/
lemma readScore?_eq_some_iff : readScore? cs = some n ↔ ∃ digits, (cs = digits ∨ cs = '+' :: digits) ∧
    digits ≠ [] ∧ (∀ d ∈ digits, d.isDigit = true) ∧ decimalValue digits = n ∧ n ≤ maxRelevance := by
  by_cases hplus : ∃ rest, cs = '+' :: rest
  · obtain ⟨rest,rfl⟩ := hplus
    have hread : readScore? ('+' :: rest) = digitsScore? rest := rfl
    rw [hread,digitsScore?_eq_some_iff]
    refine ⟨fun h => ⟨rest,.inr rfl,h⟩,?_⟩
    rintro ⟨digits,rfl | hcons,h⟩
    · exact absurd (h.2.1 '+' List.mem_cons_self) (by decide)
    · rwa [List.tail_eq_of_cons_eq hcons]
  · rw [readScore?_other (not_exists.mp hplus),digitsScore?_eq_some_iff]
    refine ⟨fun h => ⟨cs,.inl rfl,h⟩,?_⟩
    rintro ⟨digits,rfl | rfl,h⟩
    · exact h
    · exact absurd ⟨_,rfl⟩ hplus

lemma all_isScoreChar_of_readScore? (h : readScore? cs = some n) : cs.all Text.isScoreChar = true := by
  obtain ⟨digits,hcs,-,hdigits,-⟩ := readScore?_eq_some_iff.mp h
  have hall : digits.all Text.isScoreChar = true :=
    List.all_eq_true.mpr fun d hd => Bool.or_eq_true_iff.mpr (.inl (hdigits d hd))
  rcases hcs with rfl | rfl
  · exact hall
  · exact hall

/-- A score is the same in lower case. -/
lemma readScore?_lowerAfter (cs : List Char) : readScore? (Text.lowerAfter [] cs) = readScore? cs := by
  have hkept : Text.Kept Text.isScoreChar := Text.kept_of_steady Text.steady_of_isScoreChar
  cases hall : cs.all Text.isScoreChar with
  | true =>
    rw [Text.lowerAfter_of_settled fun c hc => (Text.steady_of_isScoreChar c (List.all_eq_true.mp hall c hc)).1]
  | false =>
    have hnone : ∀ {ds : List Char}, ds.all Text.isScoreChar = false → readScore? ds = none := by
      intro ds hds
      refine Option.eq_none_iff_forall_ne_some.mpr fun n hn => ?_
      rw [all_isScoreChar_of_readScore? hn] at hds
      cases hds
    rw [hnone hall,hnone ((hkept.all_lowerAfter [] cs).trans hall)]

end Scores

section Tables

variable {word other : String} {e : KeywordEntry} {t : KeywordTable}

lemma KeywordTable.find?_insert_of_ne (t : KeywordTable) {word other : String} (e : KeywordEntry) (h : other ≠ word) :
    (t.insert word e).find? other = t.find? other := by
  obtain ⟨entries⟩ := t
  rw [insert,find?,find?,List.lookup_cons,beq_false_of_ne h]
  dsimp only
  induction entries with
  | nil => rfl
  | cons entry entries ih =>
    by_cases heq : entry.1 = word
    · rw [List.filter_cons_of_neg (by simp [heq]),ih,List.lookup_cons,beq_false_of_ne (heq ▸ h)]
    · rw [List.filter_cons_of_pos (by simp [heq]),List.lookup_cons,List.lookup_cons,ih]

def KeywordTable.keys (t : KeywordTable) : List String := t.entries.map Prod.fst

lemma KeywordTable.keys_insert : (t.insert word e).keys = word :: t.keys.filter (· != word) := by
  rw [keys,keys,insert,List.map_cons,List.filter_map]
  rfl

lemma KeywordTable.mem_keys_iff : word ∈ t.keys ↔ (t.find? word).isSome := by
  rw [find?,List.lookup_isSome_iff,keys,List.mem_map]
  exact exists_congr fun entry => and_congr_right fun _ => eq_comm.trans beq_iff_eq.symm

variable {ws : List DeclaredWord} {ignoreCase : Bool}

/-- The table after more words. -/
def KeywordTable.addAll (t : KeywordTable) (ignoreCase : Bool) (ws : List DeclaredWord) : KeywordTable :=
  ws.foldl (fun t w => t.insert (w.key ignoreCase) w.entry) t

lemma KeywordTable.nodup_addAll (h : t.keys.Nodup) : (t.addAll ignoreCase ws).keys.Nodup := by
  induction ws generalizing t with
  | nil => exact h
  | cons w ws ih =>
    refine ih ?_
    rw [keys_insert,List.nodup_cons]
    exact ⟨by simp,h.filter _⟩

/-- The last word that is added under a key stays there. -/
lemma KeywordTable.find?_addAll (key : String) : (t.addAll ignoreCase ws).find? key =
    ((ws.findRev? (fun w => w.key ignoreCase == key)).map DeclaredWord.entry).or (t.find? key) := by
  induction ws generalizing t with
  | nil => rfl
  | cons w ws ih =>
    rw [addAll,List.foldl_cons,← addAll,ih,List.findRev?_eq_find?_reverse,List.findRev?_eq_find?_reverse,
      List.reverse_cons,List.find?_append]
    cases ws.reverse.find? (fun w => w.key ignoreCase == key) with
    | some last => rfl
    | none =>
      by_cases hkey : w.key ignoreCase = key
      · simp [hkey]
      · simp [hkey,find?_insert_of_ne t w.entry (Ne.symm hkey)]

end Tables

/-! Declarations in lower case. -/
section Folded

/-- A declared word in lower case is that word in lower case with the same score. -/
lemma DeclaredWord.ofText_lower (className text : String) : ofText className (Text.lower text) =
    { ofText className text with word := Text.lower (ofText className text).word } := by
  have hbar : ∀ c, (c == '|') = true → Text.isDivider c = true := fun c h => by rw [Text.isDivider,h,Bool.or_true]
  obtain ⟨htake,hdrop⟩ := Text.lowerAfter_parts hbar text.toList
  rw [ofText,Text.toList_lower]
  refine congrArg₂ (mk className) ?_ ?_
  · exact (congrArg String.ofList htake).trans (Text.lower_ofList _).symm
  · exact (congrArg readScore? hdrop).trans (readScore?_lowerAfter _)

lemma scoreWord_eq (className text : String) :
    scoreWord text = ((DeclaredWord.ofText className text).word,(DeclaredWord.ofText className text).relevance) := by
  have hscore : (splitScore text).2.bind readScore? = (DeclaredWord.ofText className text).score := by
    rw [splitScore,DeclaredWord.ofText]
    cases text.toList.dropWhile (· != '|') with
    | nil => rfl
    | cons bar score => rfl
  have hword : (splitScore text).1 = (DeclaredWord.ofText className text).word := rfl
  rw [DeclaredWord.relevance,← hscore,← hword]
  rfl

/-- What is added for a word does not depend on whether it was put in lower case before. -/
lemma DeclaredWord.relevance_lower (w : DeclaredWord) :
    relevance { w with word := Text.lower w.word } = w.relevance := by
  simp only [relevance,Text.lower_lower]

lemma KeywordTable.addWords_eq (t : KeywordTable) (className words : String) (ignoreCase : Bool) :
    t.addWords className words ignoreCase = t.addAll ignoreCase ((Text.words words).map (.ofText className)) := by
  rw [addWords,addAll,List.foldl_map]
  cases ignoreCase with
  | true =>
    rw [if_pos rfl,Text.words_lower,List.foldl_map]
    refine congrArg (fun f => (Text.words words).foldl f t) (funext fun t => funext fun text => ?_)
    rw [scoreWord_eq className,DeclaredWord.ofText_lower,DeclaredWord.relevance_lower]
    rfl
  | false =>
    refine congrArg (fun f => (Text.words words).foldl f t) (funext fun t => funext fun text => ?_)
    rw [scoreWord_eq className]
    rfl

lemma KeywordTable.ofKeywords_eq (declared : Keywords) (ignoreCase : Bool) :
    ofKeywords declared ignoreCase = addAll {} ignoreCase declared.declaredWords := by
  rw [ofKeywords,addAll,Keywords.declaredWords,List.foldl_flatMap]
  have hstep : (fun (t : KeywordTable) (group : String × String) => t.addWords group.1 group.2 ignoreCase) =
      fun t group => t.addAll ignoreCase ((Text.words group.2).map (.ofText group.1)) :=
    funext fun t => funext fun group => t.addWords_eq group.1 group.2 ignoreCase
  exact congrArg (fun f => declared.groups.foldl f {}) hstep

lemma KeywordTable.find?_ofKeywords (declared : Keywords) (ignoreCase : Bool) (key : String) :
    (ofKeywords declared ignoreCase).find? key =
      (declared.declaredWords.findRev? (fun w => w.key ignoreCase == key)).map DeclaredWord.entry := by
  rw [ofKeywords_eq,find?_addAll]
  exact Option.or_none

lemma KeywordTable.mem_keys_ofKeywords (declared : Keywords) (ignoreCase : Bool) (key : String) :
    key ∈ (ofKeywords declared ignoreCase).keys ↔ ∃ w ∈ declared.declaredWords, w.key ignoreCase = key := by
  rw [mem_keys_iff,find?_ofKeywords,Option.isSome_map,List.findRev?_eq_find?_reverse,List.find?_isSome]
  simp only [List.mem_reverse,beq_iff_eq]

end Folded

/-- The keys of the table of a declaration are its words, in lower case if case is ignored, and each has the entry
of the last word that is declared with that key. So a declared word is found, however it is written. -/
theorem KeywordTable.ofKeywords_declared (declared : Keywords) (ignoreCase : Bool) :
    (ofKeywords declared ignoreCase).keys.Nodup ∧
      (∀ key, key ∈ (ofKeywords declared ignoreCase).keys ↔
        ∃ w ∈ declared.declaredWords, w.key ignoreCase = key) ∧
      (∀ key, (ofKeywords declared ignoreCase).find? key =
        (declared.declaredWords.findRev? (fun w => w.key ignoreCase == key)).map DeclaredWord.entry) ∧
      ∀ w ∈ declared.declaredWords, (Scan.lookupWord (ofKeywords declared ignoreCase) ignoreCase w.word).isSome := by
  refine ⟨?_,mem_keys_ofKeywords declared ignoreCase,find?_ofKeywords declared ignoreCase,fun w hw => ?_⟩
  · rw [ofKeywords_eq]
    exact nodup_addAll List.nodup_nil
  · exact mem_keys_iff.mp ((mem_keys_ofKeywords declared ignoreCase (w.key ignoreCase)).mpr ⟨w,hw,rfl⟩)

end Highlight
