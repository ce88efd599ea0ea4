import Highlight.Proofs.Regex.Costs
import Highlight.Proofs.Regex.Search
import Highlight.Proofs.Rules.Alternated
import Highlight.Proofs.Text.Blanks

/-!
Patterns that list words, between word boundaries. Such a pattern matches a whole word of the text if that is
in the list, and nothing else. The order of the list does not matter, and neither does it matter that one word
may be the beginning of another one.
-/
namespace Highlight

open Regex
open Text (isWord isSpace)

namespace Regex

/-- The characters one after the other. -/
def literal (cs : List Char) : Pattern := .cats (cs.map (fun c => .set (.single c)))

/-- A word boundary or a blank comes next. -/
def wordEnd : Pattern := .look .ahead false false (.alt (.assert .wordBoundary) (.set (.property .space)))

/-- A word boundary and one of the words, with its end behind it. -/
def wordList (ws : List (List Char)) : Pattern :=
  .cats [.assert .wordBoundary,.group 1 (.alts (ws.map literal)),wordEnd]

/-- The text of such a pattern. -/
def wordListText (ws : List (List Char)) : List Char :=
  "\\b(".toList ++ (['|'].intercalate ws ++ ")(?=\\b|\\s)".toList)

end Regex

variable {ws done : List (List Char)} {w cs rest : List Char} {c : Char}

section Reading

open Rules

lemma lexeme_of_isWord {f : Flags} {pending : Bool} (h : isWord c = true) :
    lexeme f pending c rest = .ok (.piece (.ofChar f c),rest) := by
  refine lexeme_char (fun hc => ?_) rest
  simp only [List.mem_cons,List.not_mem_nil,or_false] at hc
  rcases hc with rfl | rfl | rfl | rfl | rfl | rfl | rfl | rfl | rfl | rfl | rfl | rfl <;> revert h <;> decide

/-- A reader that has read some words, and a part of the next one. -/
def Regex.Reader.AtWord (base : Reader) (done : List (List Char)) (cs : List Char) (r : Reader) : Prop :=
  r.flush = { base with
    pending := none
    current := { base.current with
      branches := (done.map literal).reverse
      pieces := (cs.map (fun c => ⟨.set (.single c),true⟩)).reverse } }

namespace Regex.Reader

variable {base r : Reader} {n : Nat}

lemma AtWord.push (h : base.AtWord done cs r) (c : Char) :
    base.AtWord done (cs ++ [c]) (r.push ⟨.set (.single c),true⟩) := by
  have hflush : (r.push ⟨.set (.single c),true⟩).flush =
      { r.flush with
        pending := none
        current := { r.flush.current with pieces := ⟨.set (.single c),true⟩ :: r.flush.current.pieces } } := rfl
  unfold AtWord at h ⊢
  rw [hflush,h]
  simp

lemma AtWord.endBranch (h : base.AtWord done cs r) : base.AtWord (done ++ [cs]) [] r.endBranch := by
  have hflush : r.endBranch.flush = r.endBranch := flush_eq_self r.flush_pending
  unfold AtWord at h ⊢
  rw [hflush,Reader.endBranch,h]
  simp [literal,Function.comp_def]

lemma AtWord.flags (h : base.AtWord done cs r) : r.flags = base.flags := by
  rw [← flush_flags,h]

lemma readAll_isWord (hx : r.flags.extended = false) (hfold : r.flags.fold = false) (hc : isWord c = true) :
    r.readAll (n + 1) (c :: rest) = (r.push ⟨.set (.single c),true⟩).readAll n rest := by
  have hparen : c ≠ '(' := by
    rintro rfl
    revert hc
    decide
  have hpiece : Piece.ofChar r.flags c = ⟨.set (.single c),true⟩ := by
    rw [Piece.ofChar,hfold]
    rfl
  have htoken : r.readToken c rest = .ok (r.push ⟨.set (.single c),true⟩,rest) :=
    readToken_eq_ok.mpr ⟨by simp [hparen],_,lexeme_of_isWord hc,by rw [hpiece]; rfl⟩
  rw [readAll_cons hx (noComment_of_head (by simp [hparen])),htoken]
  rfl

lemma readAll_bar (hx : r.flags.extended = false) :
    r.readAll (n + 1) ('|' :: rest) = r.endBranch.readAll n rest := by
  rw [readAll_cons hx (noComment_of_head (by simp))]
  rfl

/-- Characters are read one by one, however each of them is written. -/
lemma AtWord.readSpelled {spelling : Char → List Char} (h : base.AtWord done cs r)
    (hw : ∀ c ∈ w, ∀ r : Reader, r.flags = base.flags → ∀ n rest,
      r.readAll (n + 1) (spelling c ++ rest) = (r.push ⟨.set (.single c),true⟩).readAll n rest) (rest : List Char) :
    ∃ r', base.AtWord done (cs ++ w) r' ∧
      ∀ n, r.readAll (n + w.length) (w.flatMap spelling ++ rest) = r'.readAll n rest := by
  induction w generalizing cs r with
  | nil => exact ⟨r,by rwa [List.append_nil],fun _ => rfl⟩
  | cons c w ih =>
    obtain ⟨r',hr',hread⟩ := ih (h.push c) (fun c hc => hw c (List.mem_cons_of_mem _ hc))
    refine ⟨r',by rwa [List.append_assoc] at hr',fun n => ?_⟩
    rw [List.length_cons,← Nat.add_assoc,List.flatMap_cons,List.append_assoc,hw c List.mem_cons_self r h.flags,
      hread]

/-- The characters of a word are written as they are. -/
lemma AtWord.readWord (h : base.AtWord done cs r) (hx : base.flags.extended = false)
    (hfold : base.flags.fold = false) (hw : ∀ c ∈ w, isWord c = true) (rest : List Char) :
    ∃ r', base.AtWord done (cs ++ w) r' ∧ ∀ n, r.readAll (n + w.length) (w ++ rest) = r'.readAll n rest := by
  have hchar : ∀ c ∈ w, ∀ r : Reader, r.flags = base.flags → ∀ n rest,
      r.readAll (n + 1) ([c] ++ rest) = (r.push ⟨.set (.single c),true⟩).readAll n rest :=
    fun c hc r hr n rest => readAll_isWord (hr ▸ hx) (hr ▸ hfold) (hw c hc)
  have hread := h.readSpelled hchar rest
  rwa [List.flatMap_singleton'] at hread

/-- A list of words is read up to its last one. -/
lemma AtWord.readWords (h : base.AtWord done [] r) (hx : base.flags.extended = false)
    (hfold : base.flags.fold = false) (hne : ws ≠ []) (hws : ∀ w ∈ ws, ∀ c ∈ w, isWord c = true)
    (rest : List Char) :
    ∃ r' front last, done ++ ws = front ++ [last] ∧ base.AtWord front last r' ∧
      ∀ n, r.readAll (n + (['|'].intercalate ws).length) (['|'].intercalate ws ++ rest) = r'.readAll n rest := by
  induction ws generalizing done r with
  | nil => exact absurd rfl hne
  | cons w ws ih =>
    have hw := hws w List.mem_cons_self
    cases ws with
    | nil =>
      obtain ⟨r',hr',hread⟩ := h.readWord hx hfold hw rest
      exact ⟨r',done,w,rfl,hr',by simpa only [List.intercalate_singleton] using hread⟩
    | cons w' ws =>
      obtain ⟨r₁,hr₁,hread₁⟩ := h.readWord hx hfold hw ('|' :: (['|'].intercalate (w' :: ws) ++ rest))
      obtain ⟨r',front,last,heq,hr',hread⟩ := ih hr₁.endBranch (List.cons_ne_nil _ _)
        (fun w hw => hws w (List.mem_cons_of_mem _ hw))
      refine ⟨r',front,last,by simpa using heq,hr',fun n => ?_⟩
      have hlen : n + (['|'].intercalate (w :: w' :: ws)).length =
          n + (['|'].intercalate (w' :: ws)).length + 1 + w.length := by
        rw [List.intercalate_cons_cons]
        simp only [List.length_append,List.length_singleton]
        omega
      rw [hlen,List.intercalate_cons_cons,List.append_assoc,List.append_assoc,List.singleton_append,hread₁,
        readAll_bar (hr₁.flags ▸ hx),hread]

/-- What has been read at the last word. -/
lemma AtWord.contents (h : base.AtWord done cs r) (hnumbered : base.numbered = false) :
    ∃ branches whole, r.contents = .ok (branches,whole) ∧ whole.pattern = .alts ((done ++ [cs]).map literal) := by
  have hbranches : r.endBranch.current.branches = ((done ++ [cs]).map literal).reverse := by
    rw [← flush_branches,h.endBranch]
  have hnum : r.numbered = false := by rw [← flush_numbered,h,hnumbered]
  obtain ⟨branches,whole,hcontents⟩ : ∃ branches whole, r.contents = .ok (branches,whole) := by
    unfold Reader.contents
    dsimp only
    rw [hnum]
    split
    · exact ⟨_,_,rfl⟩
    · exact ⟨_,_,rfl⟩
  obtain ⟨hbranches',hpattern⟩ := branches_of_contents hcontents
  refine ⟨branches,whole,hcontents,?_⟩
  rw [hpattern,← hbranches',hbranches,List.reverse_reverse]

/-- The reader differs from the one before the words in what it has read of them. -/
lemma AtWord.exists_eq (h : base.AtWord done cs r) : ∃ pending branches pieces, r = { base with
    pending := pending
    current := { base.current with branches := branches, pieces := pieces } } := by
  obtain ⟨pieces,hflush⟩ := r.exists_flush_eq
  have heq := hflush.symm.trans h
  obtain ⟨flags,groups,names,numbered,referenced,pending,⟨kind,branches,pieces'⟩,outer⟩ := r
  simp only [Reader.mk.injEq,OpenGroup.mk.injEq] at heq
  obtain ⟨rfl,rfl,rfl,rfl,rfl,-,⟨rfl,-,-⟩,rfl⟩ := heq
  exact ⟨pending,branches,pieces',rfl⟩

/-- The group that the words are in is closed behind the last one. -/
lemma AtWord.close (h : base.AtWord done cs r) (hx : base.flags.extended = false) (hnumbered : base.numbered = false)
    {k : Nat} {parent : OpenGroup} (hkind : base.current.kind = .capture k) (houter : base.outer = [parent])
    (rest : List Char) :
    r.readAll (n + 1) (')' :: rest) = ({ base with
      pending := some ⟨.group k (.alts ((done ++ [cs]).map literal)),true⟩
      current := parent
      outer := [] } : Reader).readAll n rest := by
  obtain ⟨branches,whole,hcontents,hpattern⟩ := h.contents hnumbered
  obtain ⟨pending,_,_,heq⟩ := h.exists_eq
  have hclose : r.close = .ok { base with
      pending := some ⟨.group k whole.pattern,true⟩
      current := parent
      outer := [] } := by
    have houter' : r.outer = [parent] := by rw [heq,houter]
    have hkind' : r.current.kind = .capture k := by rw [heq,← hkind]
    unfold Reader.close
    rw [houter']
    dsimp only
    rw [hcontents]
    simp only [bind,Except.bind]
    rw [hkind',heq]
    rfl
  have htoken : r.readToken ')' rest = .ok (_,rest) := readToken_eq_ok.mpr ⟨by simp,.close,rfl,hclose⟩
  rw [readAll_cons (h.flags ▸ hx) (noComment_of_head (by simp)),htoken,hpattern]
  rfl

end Regex.Reader

lemma settle_literal (cs : List Char) : (literal cs).settle [] = literal cs := by
  induction cs with
  | nil => rfl
  | cons c cs ih =>
    cases cs with
    | nil => rfl
    | cons d cs => exact congrArg (Pattern.cat _) ih

lemma settledBoundsOrdered_literal (cs : List Char) : (literal cs).settledBoundsOrdered = true := by
  induction cs with
  | nil => rfl
  | cons c cs ih =>
    cases cs with
    | nil => rfl
    | cons d cs => exact ih

lemma settle_wordList (ws : List (List Char)) : (wordList ws).settle [] = wordList ws := by
  have halts : (Pattern.alts (ws.map literal)).settle [] = .alts (ws.map literal) := by
    rw [Pattern.settle_alts,List.map_map]
    congr 2
    funext w
    exact settle_literal w
  unfold wordList wordEnd
  simp only [Pattern.cats,Pattern.settle,halts]
  rfl

lemma settledBoundsOrdered_wordList (ws : List (List Char)) : (wordList ws).settledBoundsOrdered = true := by
  have halts : (Pattern.alts (ws.map literal)).settledBoundsOrdered = true := by
    rw [Pattern.settledBoundsOrdered_alts,List.all_map]
    exact List.all_eq_true.mpr (fun w _ => settledBoundsOrdered_literal w)
  simp [wordList,wordEnd,Pattern.cats,Pattern.settledBoundsOrdered,halts]

/-- The reader before the words. -/
def Regex.Reader.beforeWords : Reader where
  flags := { multiline := true }
  groups := 1
  current := { kind := .capture 1 }
  outer := [{ kind := .plain {}, pieces := [⟨.assert .wordBoundary,false⟩] }]

lemma readAll_beforeWords {n : Nat} (hrest : rest.head? ≠ some '?') (hn : NoComment rest) :
    (afterFlags (ruleFlags false)).readAll (n + 2) ("\\b(".toList ++ rest) = Reader.beforeWords.readAll n rest := by
  have hboundary : (afterFlags (ruleFlags false)).readAll (n + 2) ("\\b(".toList ++ rest) = ({
      flags := { multiline := true }
      pending := some ⟨.assert .wordBoundary,false⟩ } : Reader).readAll (n + 1) ('(' :: rest) := rfl
  have hcomment : NoComment ('(' :: rest) := by
    rintro ⟨tail,heq⟩
    exact hrest ((List.cons.inj heq).2 ▸ rfl)
  have htoken : ({
      flags := { multiline := true }
      pending := some ⟨.assert .wordBoundary,false⟩ } : Reader).readToken '(' rest = .ok (.beforeWords,rest) :=
    readToken_eq_ok.mpr ⟨by decide,.capture none,lexeme_capture rfl hrest hn,rfl⟩
  rw [hboundary,readAll_cons rfl hcomment,htoken]
  rfl

/-- The reader behind the words, when the group that they are in is closed. -/
def Regex.Reader.afterWords (p : Pattern) : Reader where
  flags := { multiline := true }
  groups := 1
  pending := some ⟨.group 1 p,true⟩
  current := { kind := .plain {}, pieces := [⟨.assert .wordBoundary,false⟩] }

lemma readAll_afterWords (n : Nat) (p : Pattern) :
    (Reader.afterWords p).readAll (n + 6) "(?=\\b|\\s)".toList = .ok { Reader.afterWords p with
      pending := some ⟨wordEnd,false⟩
      current := { kind := .plain {}, pieces := [⟨.group 1 p,true⟩,⟨.assert .wordBoundary,false⟩] } } := rfl

/-- A list of words starts with a character of a word. -/
lemma exists_intercalate_eq (hne : ws ≠ []) (hws : ∀ w ∈ ws, w ≠ [] ∧ ∀ c ∈ w, isWord c = true) :
    ∃ c rest, ['|'].intercalate ws = c :: rest ∧ isWord c = true := by
  obtain ⟨w,ws,rfl⟩ := List.exists_cons_of_ne_nil hne
  obtain ⟨hw,hchars⟩ := hws w List.mem_cons_self
  obtain ⟨c,w,rfl⟩ := List.exists_cons_of_ne_nil hw
  cases ws with
  | nil => exact ⟨c,_,List.intercalate_singleton,hchars c List.mem_cons_self⟩
  | cons w' ws => exact ⟨c,_,List.intercalate_cons_cons,hchars c List.mem_cons_self⟩

/-- The text of a list of words compiles to their pattern. -/
theorem compileRule_wordListText (hne : ws ≠ []) (hws : ∀ w ∈ ws, w ≠ [] ∧ ∀ c ∈ w, isWord c = true) :
    Regex.compileRule (String.ofList (wordListText ws)) false = .ok ⟨wordList ws,1,false⟩ := by
  obtain ⟨c,rest,hcons,hc⟩ := exists_intercalate_eq hne hws
  have hbefore : Reader.beforeWords.AtWord [] [] Reader.beforeWords := rfl
  obtain ⟨r,front,last,hwords,hr,hread⟩ :=
    hbefore.readWords rfl rfl hne (fun w hw => (hws w hw).2) (')' :: "(?=\\b|\\s)".toList)
  have htext : (String.ofList (wordListText ws)).toList =
      "\\b(".toList ++ (['|'].intercalate ws ++ ')' :: "(?=\\b|\\s)".toList) := String.toList_ofList
  obtain ⟨n,hn,heq⟩ := readRule_eq (String.ofList (wordListText ws)) false
  obtain ⟨k,rfl⟩ : ∃ k, n = k + 6 + 1 + (['|'].intercalate ws).length + 2 := by
    rw [htext] at hn
    simp at hn
    exact ⟨n - (['|'].intercalate ws).length - 9,by omega⟩
  have hquestion : (['|'].intercalate ws ++ ')' :: "(?=\\b|\\s)".toList).head? ≠ some '?' := by
    rw [hcons]
    rintro heq
    obtain rfl := Option.some.inj heq
    exact absurd hc (by decide)
  have hcomment : NoComment (['|'].intercalate ws ++ ')' :: "(?=\\b|\\s)".toList) := by
    rw [hcons]
    refine noComment_of_head (fun heq => ?_)
    obtain rfl := Option.some.inj heq
    exact absurd hc (by decide)
  rw [htext,readAll_beforeWords hquestion hcomment,hread,hr.close rfl rfl rfl rfl,← hwords] at heq
  rw [compileRule_eq,heq]
  have hplain : (wordList ws).isPlain [] = false := rfl
  have hreader : ∀ r : Reader, r.referenced = [] → r.groups = 1 → r.finish = .ok (wordList ws) →
      Regex.ofReader r = .ok ⟨wordList ws,1,false⟩ := by
    intro r hreferenced hgroups hfinish
    unfold Regex.ofReader
    rw [hfinish]
    simp only [bind,Except.bind,hreferenced,hgroups,hplain,settle_wordList,settledBoundsOrdered_wordList]
    rfl
  rw [List.nil_append]
  exact except_bind_eq_ok.mpr ⟨_,readAll_afterWords k (.alts (ws.map literal)),hreader _ rfl rfl rfl⟩

end Reading

section Matching

/-- The word characters from a position on, up to the first other character. -/
def wordRun (text : Source) (p : Nat) : List Char := (text.toList.drop p).takeWhile isWord

/-- At a position a whole word of a text starts that is in a list: no word character comes before, and those
from there on are one of the words. -/
structure StandsAt (ws : List (List Char)) (text : Source) (p : Nat) : Prop where
  before : p = 0 ∨ text[p - 1]?.any isWord = false
  run : wordRun text p ∈ ws

variable {text : Source} {p : Nat} {s : Spot}

lemma drop_eq_cons (h : text[p]? = some c) : text.toList.drop p = c :: text.toList.drop (p + 1) := by
  rw [← Array.getElem?_toList] at h
  obtain ⟨hlt,rfl⟩ := List.getElem?_eq_some_iff.mp h
  exact List.drop_eq_getElem_cons hlt

lemma drop_eq_nil (h : text[p]? = none) : text.toList.drop p = [] := by
  rw [← Array.getElem?_toList,List.getElem?_eq_none_iff] at h
  exact List.drop_eq_nil_of_le h

lemma routes_literal_cons (t : Haystack) (c : Char) (cs : List Char) (s : Spot) :
    (literal (c :: cs)).routes t s = ((Pattern.set (.single c)).routes t s).flatMap ((literal cs).routes t) := by
  cases cs with
  | nil => simp [literal,Pattern.cats,Pattern.routes]
  | cons d cs => rfl

/-- Characters lead on where they stand. -/
lemma routes_literal (t : Haystack) (cs : List Char) (s : Spot) : (literal cs).routes t s =
    if cs <+: t.text.toList.drop s.position then [s.moveTo (s.position + cs.length)] else [] := by
  induction cs generalizing s with
  | nil => simp [literal,Pattern.cats,Pattern.routes,Spot.moveTo]
  | cons c cs ih =>
    rw [routes_literal_cons,Pattern.routes,Haystack.charAt?]
    cases hd : t.text[s.position]? with
    | none => simp [drop_eq_nil hd]
    | some d =>
      rw [drop_eq_cons hd]
      by_cases hcd : c = d
      · subst hcd
        simp [CharSet.contains,ih,Spot.advance,Spot.moveTo,Nat.add_comm cs.length 1,Nat.add_assoc]
      · simp [CharSet.contains,hcd]

/-- There is no choice among several ways. -/
lemma ways_literal (t : Haystack) (cs : List Char) (s : Spot) : (literal cs).ways t s = (literal cs).routes t s := by
  induction cs generalizing s with
  | nil => rfl
  | cons c cs ih =>
    cases cs with
    | nil => rfl
    | cons d cs =>
      have hcat : (literal (c :: d :: cs)).ways t s =
          thenWays ((Pattern.set (.single c)).routes t s) ((literal (d :: cs)).ways t) := rfl
      rw [hcat,routes_literal_cons,funext ih,Pattern.routes]
      cases t.charAt? s.position with
      | none => rfl
      | some e =>
        dsimp only
        split
        · exact (List.flatMap_singleton _ _).symm
        · rfl

lemma attempt_literal_cons (t : Haystack) (c : Char) (cs : List Char) (s : Spot) (b : Nat) (rest : Rest) :
    (literal (c :: cs)).attempt t s b rest =
      (Pattern.set (.single c)).attempt t s b (fun s b => (literal cs).attempt t s b rest) := by
  cases cs with
  | nil => rfl
  | cons d cs => rfl

/-- Characters are passed over without a return, or they fail without one. -/
lemma attempt_literal (text : Source) (cs : List Char) (s : Spot) (b : Nat) (rest : Rest) :
    (literal cs).attempt { text } s b rest =
      if cs <+: text.toList.drop s.position then rest (s.moveTo (s.position + cs.length)) b else .failed b := by
  induction cs generalizing s with
  | nil => simp [literal,Pattern.cats,Pattern.attempt,Spot.moveTo]
  | cons c cs ih =>
    rw [attempt_literal_cons,Pattern.attempt,Haystack.charAt?]
    cases hd : text[s.position]? with
    | none => simp [drop_eq_nil hd]
    | some d =>
      rw [drop_eq_cons hd]
      by_cases hcd : c = d
      · subst hcd
        simp [CharSet.contains,ih,Spot.advance,Spot.moveTo,Nat.add_comm cs.length 1,Nat.add_assoc]
      · simp [CharSet.contains,hcd]

lemma routes_alts (t : Haystack) (ps : List Pattern) (hne : ps ≠ []) (s : Spot) :
    (Pattern.alts ps).routes t s = ps.flatMap (·.routes t s) := by
  induction ps with
  | nil => exact absurd rfl hne
  | cons p ps ih =>
    cases ps with
    | nil => simp [Pattern.alts]
    | cons q ps =>
      simp only [Pattern.alts,Pattern.routes,ih (List.cons_ne_nil q ps),List.flatMap_cons]

variable {t : Haystack}

lemma wordRun_of_stands (hw : ∀ c ∈ w, isWord c = true) (h : w <+: text.toList.drop p) :
    wordRun text p = w ++ wordRun text (p + w.length) := by
  obtain ⟨rest,hrest⟩ := h
  have hdrop : text.toList.drop (p + w.length) = rest := by
    rw [← List.drop_drop,← hrest,List.drop_left]
  rw [wordRun,wordRun,hdrop,← hrest,List.takeWhile_append_of_pos hw]

lemma wordRun_eq_nil_iff : wordRun text p = [] ↔ text[p]?.any isWord = false := by
  unfold wordRun
  cases h : text[p]? with
  | none => simp [drop_eq_nil h]
  | some c => simp [drop_eq_cons h,List.takeWhile_cons]

/-- A word ends at a boundary where no other word character comes next. -/
lemma isBoundary_behind (hne : w ≠ []) (hw : ∀ c ∈ w, isWord c = true) (h : w <+: text.toList.drop p) :
    ({ text } : Haystack).isBoundary (p + w.length) = !text[p + w.length]?.any isWord := by
  obtain ⟨front,c,rfl⟩ := (List.eq_nil_or_concat' w).resolve_left hne
  have hlast : text[p + front.length]? = some c := by
    rw [← Array.getElem?_toList,← List.getElem?_drop]
    obtain ⟨rest,hrest⟩ := h
    rw [← hrest]
    simp
  have hbefore : ({ text } : Haystack).charBefore? (p + (front ++ [c]).length) = some c := by
    rw [Haystack.charBefore?,if_neg (by simp),← hlast]
    simp
  have hc : isWord c = true := hw c (by simp)
  rw [Haystack.isBoundary,hbefore,Haystack.charAt?,Option.any_some,hc]
  cases Option.any isWord text[p + (front ++ [c]).length]? <;> rfl

/-- A word starts at a boundary where no other word character comes before. -/
lemma isBoundary_before (h : text[p]?.any isWord = true) : ({ text } : Haystack).isBoundary p = true ↔
    p = 0 ∨ text[p - 1]?.any isWord = false := by
  rw [Haystack.isBoundary,Haystack.charAt?,h,Haystack.charBefore?]
  by_cases hp : p = 0
  · simp [hp]
  · rw [if_neg (by simpa using hp),or_iff_right hp]
    cases text[p - 1]?.any isWord <;> simp

lemma routes_ahead (text : Source) (p : Pattern) (s : Spot) :
    (Pattern.look .ahead false false p).routes { text } s = (p.routes { text } s).map (·.moveTo s.position) := by
  rw [Pattern.routes]
  rw [if_neg Bool.false_ne_true,if_neg (show ¬ s.position < 0 + Direction.ahead.width from Nat.not_lt_zero _),
    if_neg Bool.false_ne_true]
  rfl

lemma attempt_ahead (text : Source) (p : Pattern) (s : Spot) (b : Nat) (rest : Rest) :
    (Pattern.look .ahead false false p).attempt { text } s b rest = p.attempt { text } s b (resumeAt s rest) := by
  rw [Pattern.attempt,if_neg Bool.false_ne_true]
  exact (if_neg (Nat.not_lt_zero _)).trans (if_neg Bool.false_ne_true)

/-- The end of a word leads on where it stands. -/
lemma routes_wordEnd (text : Source) (s : Spot) : wordEnd.routes { text } s =
    (if ({ text } : Haystack).isBoundary s.position then [s] else []) ++
      if text[s.position]?.any isSpace then [s] else [] := by
  rw [wordEnd,routes_ahead,Pattern.routes,List.map_append]
  congr 1
  · rw [Pattern.routes,Assertion.holds]
    split <;> rfl
  · rw [Pattern.routes,Haystack.charAt?]
    cases text[s.position]? with
    | none => rfl
    | some c =>
      have hcontains : (CharSet.property .space).contains c = isSpace c := rfl
      simp only [hcontains,Option.any_some]
      split <;> rfl

/-- The end of a word is passed over without a return at a boundary. -/
lemma attempt_wordEnd (h : ({ text } : Haystack).isBoundary s.position = true) (b : Nat) :
    wordEnd.attempt { text } s b .found = .found s b := by
  rw [wordEnd,attempt_ahead,Pattern.attempt,Pattern.attempt,Assertion.holds,if_pos h]
  rfl

/-- Where a word goes on, its end fails after a return. -/
lemma attempt_wordEnd_eq_losing (h : ({ text } : Haystack).isBoundary s.position = false)
    (hword : text[s.position]?.any isWord = true) (b : Nat) (rest : Rest) :
    wordEnd.attempt { text } s b rest = .losing b 1 := by
  have hspace : text[s.position]?.any isSpace = false := by
    cases hc : text[s.position]? with
    | none => rfl
    | some c =>
      rw [hc] at hword
      by_contra hspace
      have hnot := Text.not_isWord_of_isSpace (show isSpace c = true by simpa using hspace)
      rw [Option.any_some,hnot] at hword
      cases hword
  have hset : ∀ b rest, (Pattern.set (.property .space)).attempt { text } s b rest = .losing b 0 := by
    intro b rest
    rw [Pattern.attempt,Haystack.charAt?]
    cases hc : text[s.position]? with
    | none => rfl
    | some c =>
      rw [hc] at hspace
      exact if_neg (by simpa [CharSet.contains,CharProperty.holds] using hspace)
  rw [wordEnd,attempt_ahead,Pattern.attempt,Pattern.attempt,Assertion.holds,if_neg (by simp [h])]
  simp only [hset]
  exact Attempt.losing_orElse b 0 0

/-- The end of a word comes next where no other word character does. -/
lemma any_isWord_of_mem_wordEnd (hne : w ≠ []) (hw : ∀ c ∈ w, isWord c = true) (hstands : w <+: text.toList.drop p)
    {s' : Spot} (hs : s.position = p + w.length) (h : s' ∈ wordEnd.routes { text } s) :
    text[p + w.length]?.any isWord = false ∧ s' = s := by
  rw [routes_wordEnd,hs,isBoundary_behind hne hw hstands] at h
  rcases List.mem_append.mp h with h | h
  · split at h
    · rename_i hboundary
      exact ⟨by simpa using hboundary,List.mem_singleton.mp h⟩
    · cases h
  · split at h
    · rename_i hspace
      refine ⟨?_,List.mem_singleton.mp h⟩
      cases hc : text[p + w.length]? with
      | none => rfl
      | some c =>
        rw [hc] at hspace
        exact Text.not_isWord_of_isSpace hspace
    · cases h

/-- A list of words leads on to the end of a whole word of the text, and only if that is listed. -/
lemma of_mem_routes_wordList (hne : ws ≠ []) (hws : ∀ w ∈ ws, w ≠ [] ∧ ∀ c ∈ w, isWord c = true)
    (h : s ∈ (wordList ws).routes { text } { position := p }) :
    StandsAt ws text p ∧ s.position = p + (wordRun text p).length := by
  obtain ⟨s₀,hs₀,h⟩ := List.mem_flatMap.mp h
  obtain ⟨s₁,hs₁,h⟩ := List.mem_flatMap.mp h
  obtain ⟨s₂,hs₂,rfl⟩ := List.mem_map.mp hs₁
  have hstart : ({ text } : Haystack).isBoundary p = true ∧ s₀ = { position := p } := by
    rw [Pattern.routes,Assertion.holds] at hs₀
    split at hs₀
    · exact ⟨by assumption,List.mem_singleton.mp hs₀⟩
    · cases hs₀
  obtain ⟨hboundary,rfl⟩ := hstart
  rw [routes_alts _ _ (by simpa using hne),List.flatMap_map] at hs₂
  obtain ⟨w,hmem,hs₂⟩ := List.mem_flatMap.mp hs₂
  obtain ⟨hnil,hw⟩ := hws w hmem
  rw [routes_literal] at hs₂
  split at hs₂
  · rename_i hstands
    obtain rfl := List.mem_singleton.mp hs₂
    have hstands : w <+: text.toList.drop p := hstands
    obtain ⟨hend,rfl⟩ := any_isWord_of_mem_wordEnd hnil hw hstands rfl h
    have hrun : wordRun text p = w := by
      rw [wordRun_of_stands hw hstands,wordRun_eq_nil_iff.mpr hend,List.append_nil]
    have hfirst : text[p]?.any isWord = true := by
      by_contra hnone
      exact hnil (hrun ▸ wordRun_eq_nil_iff.mpr (by simpa using hnone))
    exact ⟨⟨(isBoundary_before hfirst).mp hboundary,hrun ▸ hmem⟩,by rw [hrun]; rfl⟩
  · cases hs₂

/-- A listed word is a word. -/
lemma StandsAt.isBoundary (h : StandsAt ws text p) (hws : ∀ w ∈ ws, w ≠ [] ∧ ∀ c ∈ w, isWord c = true) :
    ({ text } : Haystack).isBoundary p = true ∧
      ({ text } : Haystack).isBoundary (p + (wordRun text p).length) = true := by
  obtain ⟨hnil,hw⟩ := hws _ h.run
  have hfirst : text[p]?.any isWord = true := by
    by_contra hnone
    exact hnil (wordRun_eq_nil_iff.mpr (by simpa using hnone))
  have hbegins : wordRun text p <+: text.toList.drop p := List.takeWhile_prefix _
  have hnone : wordRun text (p + (wordRun text p).length) = [] :=
    List.append_right_eq_self.mp (wordRun_of_stands hw hbegins).symm
  refine ⟨(isBoundary_before hfirst).mpr h.before,?_⟩
  rw [isBoundary_behind hnil hw hbegins,wordRun_eq_nil_iff.mp hnone]
  rfl

/-- A listed word other than the one that stands at a position is lost after a return at most. -/
lemma exists_attempt_eq_losing (hw : ∀ c ∈ w, isWord c = true) (hne : w ≠ []) (hother : w ≠ wordRun text p)
    {s : Spot} (hs : s.position = p) (b : Nat) (rest : Rest) : ∃ n ≤ 1,
      (literal w).attempt { text } s b (fun s b => wordEnd.attempt { text } (s.closeGroup 1) b rest) =
        .losing b n := by
  rw [attempt_literal,hs]
  split
  · rename_i hstands
    have hword : text[p + w.length]?.any isWord = true := by
      by_contra hnone
      rw [wordRun_of_stands hw hstands,wordRun_eq_nil_iff.mpr (by simpa using hnone),List.append_nil] at hother
      exact hother rfl
    have hboundary : ({ text } : Haystack).isBoundary (p + w.length) = false := by
      rw [isBoundary_behind hne hw hstands,hword]
      rfl
    exact ⟨1,Nat.le_refl 1,attempt_wordEnd_eq_losing hboundary hword b rest⟩
  · exact ⟨0,Nat.zero_le 1,rfl⟩

/-- What follows the words of a list. -/
def afterWord (text : Source) : Rest := fun s b => wordEnd.attempt { text } (s.closeGroup 1) b .found

lemma attempt_alts_cons (w : List Char) (ws : List (List Char)) (s : Spot) (b : Nat) (rest : Rest) :
    (Pattern.alts ((w :: ws).map literal)).attempt t s b rest =
      if ws = [] then (literal w).attempt t s b rest
      else ((literal w).attempt t s b rest).orElse
        (fun b => (Pattern.alts (ws.map literal)).attempt t s b rest) := by
  cases ws with
  | nil => rfl
  | cons v ws => rfl

/-- A list of words leads on at a whole word that is in it, after two returns at most for each word. -/
lemma exists_attempt_alts (hws : ∀ w ∈ ws, w ≠ [] ∧ ∀ c ∈ w, isWord c = true) (hrun : wordRun text p ∈ ws)
    (hend : ({ text } : Haystack).isBoundary (p + (wordRun text p).length) = true) (hs : s.position = p) {b : Nat}
    (hb : 2 * ws.length ≤ b) :
    ∃ last left, (Pattern.alts (ws.map literal)).attempt { text } s b (afterWord text) = .found last left := by
  induction ws generalizing b with
  | nil => exact absurd hrun List.not_mem_nil
  | cons w ws ih =>
    rw [List.length_cons] at hb
    obtain ⟨hnil,hw⟩ := hws w List.mem_cons_self
    rw [attempt_alts_cons]
    by_cases heq : w = wordRun text p
    · have hstands : w <+: text.toList.drop p := heq ▸ List.takeWhile_prefix _
      have hfound : (literal w).attempt { text } s b (afterWord text) =
          .found ((s.moveTo (p + w.length)).closeGroup 1) b := by
        rw [attempt_literal,hs,if_pos hstands]
        exact attempt_wordEnd (heq ▸ hend) b
      rw [hfound]
      split
      · exact ⟨_,_,rfl⟩
      · exact ⟨_,_,rfl⟩
    · obtain ⟨n,hn,hlosing⟩ := exists_attempt_eq_losing hw hnil heq hs b .found
      have hrun : wordRun text p ∈ ws := (List.mem_cons.mp hrun).resolve_left (fun h => heq h.symm)
      have hlosing : (literal w).attempt { text } s b (afterWord text) = .losing b n := hlosing
      rw [if_neg (List.ne_nil_of_mem hrun),hlosing,Pattern.losing_orElse_found (by omega)]
      exact ih (fun w hw => hws w (List.mem_cons_of_mem _ hw)) hrun (by omega)

/-- In a search that may return twice for each word, a listed word is found where it stands. -/
lemma exists_attempt_wordList (hws : ∀ w ∈ ws, w ≠ [] ∧ ∀ c ∈ w, isWord c = true) (h : StandsAt ws text p) {b : Nat}
    (hb : 2 * ws.length ≤ b) : ∃ last left,
      (wordList ws).attempt { text } { position := p } b .found = .found last left := by
  obtain ⟨hstart,hend⟩ := h.isBoundary hws
  obtain ⟨last,left,hfound⟩ := exists_attempt_alts hws h.run hend (s := Spot.openGroup { position := p } 1) rfl hb
  have hcats : wordList ws =
      .cat (.assert .wordBoundary) (.cat (.group 1 (.alts (ws.map literal))) wordEnd) := rfl
  refine ⟨last,left,?_⟩
  rw [hcats,Pattern.attempt,Pattern.attempt,Assertion.holds,if_pos hstart]
  exact hfound

end Matching

/-- A list of words is matched at a position, up to the next character that is not in words, just where a whole
word of the text that is in the list starts. -/
theorem preferred_wordList {text : Source} {p e : Nat} (hne : ws ≠ [])
    (hws : ∀ w ∈ ws, w ≠ [] ∧ ∀ c ∈ w, isWord c = true) :
    ((⟨wordList ws,1,false⟩ : Regex).preferred { text } p).map Spot.position = some e ↔
      StandsAt ws text p ∧ e = p + (wordRun text p).length := by
  have hpreferred : (⟨wordList ws,1,false⟩ : Regex).preferred { text } p =
      ((wordList ws).routes { text } { position := p }).head? := rfl
  rw [hpreferred,Option.map_eq_some_iff]
  constructor
  · rintro ⟨s,hs,rfl⟩
    exact of_mem_routes_wordList hne hws (List.mem_of_mem_head? hs)
  · rintro ⟨h,rfl⟩
    obtain ⟨last,left,hfound⟩ := exists_attempt_wordList hws h (Nat.le_refl _)
    have hexplores := attempt_explores { text } (wordList ws) { position := p } (2 * ws.length) .found
    rw [hfound] at hexplores
    exact ⟨last,hexplores.head,(of_mem_routes_wordList hne hws (List.mem_of_mem_head? hexplores.head)).2⟩

/-- A search finds a listed word where it stands, if its budget has room for two returns for each word. -/
theorem find_wordList {text : Source} {p : Nat} (hne : ws ≠ [])
    (hws : ∀ w ∈ ws, w ≠ [] ∧ ∀ c ∈ w, isWord c = true) (hb : 2 * ws.length ≤ searchBudget) :
    (∃ f, (⟨wordList ws,1,false⟩ : Regex).find text p = .ok (some f) ∧ f.start = p) ↔ StandsAt ws text p := by
  constructor
  · rintro ⟨f,hf,rfl⟩
    obtain ⟨-,-,hlast,-⟩ := search_isLeftmost hf
    exact ((preferred_wordList hne hws).mp (congrArg (Option.map Spot.position) hlast)).1
  · intro h
    obtain ⟨last,left,hfound⟩ := exists_attempt_wordList hws h hb
    have hp : p < text.size := by
      by_contra hle
      have hnil : wordRun text p = [] := wordRun_eq_nil_iff.mpr (by simp [Array.getElem?_eq_none (Nat.not_lt.mp hle)])
      exact (hws _ h.run).1 hnil
    obtain ⟨n,hn⟩ : ∃ n, text.size + 1 - p = n + 1 := ⟨text.size - p,by omega⟩
    refine ⟨⟨p,last⟩,?_,rfl⟩
    have hsearch : (⟨wordList ws,1,false⟩ : Regex).find text p =
        searchBacktracking (wordList ws) { text } (text.size + 1 - p) p searchBudget := rfl
    rw [hsearch,hn,searchBacktracking,hfound]

end Highlight
