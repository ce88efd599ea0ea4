import Highlight.Proofs.Rules.Lexemes

/-!
Tokens that the reader finds in a group, where the text of the group is sealed. It finds them in the text alone as
well: the parenthesis that closes the group and what follows it complete no token.
-/
namespace Highlight.Rules

open Regex

variable {named fold pending : Bool} {foreign own : List String} {d o n m : Nat} {f : Flags} {c : Char}
  {tail cs rest u w : List Char}

/-- Characters that mean nothing to the light scan come from the text alone. -/
lemma exists_append_of_inGroup (hu : ∀ c ∈ u, IsOrdinary c ∧ c ≠ ')') (h : inGroup o tail cs = u ++ w) :
    ∃ v, cs = u ++ v ∧ w = inGroup o tail v := by
  induction u generalizing cs with
  | nil => exact ⟨cs,rfl,h.symm⟩
  | cons c u ih =>
    obtain ⟨hc,hclose⟩ := hu c List.mem_cons_self
    obtain ⟨rest,rfl⟩ := List.head?_eq_some_iff.mp (head?_of_inGroup hclose (by rw [h]; rfl))
    rw [inGroup_ordinary hc,List.cons_append] at h
    obtain ⟨v,rfl,hw⟩ := ih (fun c hc => hu c (List.mem_cons_of_mem _ hc)) (List.cons.inj h).2
    exact ⟨v,rfl,hw⟩

section Names

variable {name : String} {closing : Char} {x : Lexeme}

/-- A name ends in the text alone, unless the parenthesis that closes the group ends it. -/
lemma readName?_of_inGroup (h : readName? closing (inGroup o tail cs) = some (name,w)) :
    (∃ v, readName? closing cs = some (name,v)) ∨ closing = ')' ∧ cs.dropWhile Text.isNameChar = [] := by
  obtain ⟨hname,hdrop,hne⟩ := readName?_eq_some h
  rw [spares_isNameChar.takeWhile_inGroup] at hname
  rw [spares_isNameChar.dropWhile_inGroup] at hdrop
  cases hrest : cs.dropWhile Text.isNameChar with
  | nil =>
    rw [hrest] at hdrop
    exact .inr ⟨(List.cons.inj hdrop).1.symm,rfl⟩
  | cons b v =>
    rw [hrest] at hdrop
    obtain ⟨rest',hb⟩ := exists_inGroup_cons o tail b v
    obtain rfl : b = closing := (List.cons.inj (hb.symm.trans hdrop)).1
    refine .inl ⟨v,?_⟩
    simp only [readName?,hrest,← hname,String.ofList_toList]
    refine if_pos ?_
    simpa only [decide_true,Bool.true_and,Bool.not_eq_true',List.isEmpty_eq_false_iff] using hne

lemma lexNamedGroup_of_inGroup {r : Lexeme × List Char} (h : lexNamedGroup (inGroup o tail cs) = .ok r) :
    ∃ name v, lexNamedGroup cs = .ok (.capture (some name),v) := by
  unfold lexNamedGroup at h ⊢
  cases hname : readName? '>' (inGroup o tail cs) with
  | none =>
    rw [hname] at h
    cases h
  | some r =>
    obtain ⟨v,hv⟩ := (readName?_of_inGroup hname).resolve_right (fun h => absurd h.1 (by decide))
    rw [hv]
    exact ⟨_,_,rfl⟩

lemma lexNameRef_of_inGroup {r : Lexeme × List Char} (h : lexNameRef closing (inGroup o tail cs) = .ok r)
    (hends : closing = ')' → cs.dropWhile Text.isNameChar ≠ []) :
    ∃ name v, lexNameRef closing cs = .ok (.nameRef name,v) := by
  unfold lexNameRef at h ⊢
  cases hname : readName? closing (inGroup o tail cs) with
  | none =>
    rw [hname] at h
    cases h
  | some r =>
    obtain ⟨v,hv⟩ := (readName?_of_inGroup hname).resolve_right (fun h => hends h.1 h.2)
    rw [hv]
    exact ⟨_,_,rfl⟩

end Names

section Groups

/-- The rest of a sealed text is not empty where a group is open. -/
lemma SealedFrom.ne_nil (h : SealedFrom foreign own (d + 1) cs) : cs ≠ [] := by
  rintro rfl
  exact absurd (sealedFrom_nil.mp h) (Nat.succ_ne_zero d)

/-- Flags end in the text alone. -/
lemma lexFlags_of_inGroup {r : Lexeme × List Char} {off : Bool} {count : Nat} (hx : f.extended = false)
    (hf : FitsFrom named (d + 1) cs) (hs : SealedFrom foreign own (d + 1) cs) (hflags : 'x' ∉ cs.takeWhile isFlagChar)
    (h : lexFlags n f off count (inGroup o tail cs) = .ok r) (hm : cs.length < m) :
    ∃ r', lexFlags m f off count cs = .ok r' := by
  induction n generalizing f off count cs m with
  | zero => cases h
  | succ n ih =>
    obtain ⟨m,rfl⟩ := Nat.exists_eq_add_one_of_ne_zero (Nat.ne_of_gt (Nat.zero_lt_of_lt hm))
    cases cs with
    | nil => exact absurd rfl hs.ne_nil
    | cons c rest =>
      obtain ⟨rest',hgroup⟩ := exists_inGroup_cons o tail c rest
      have hcomment : NoComment (inGroup o tail (c :: rest)) := hf.noComment_inGroup
      -- a character between the question mark and the end of the flags
      have hnext : ∀ {f' : Flags} {off' : Bool}, f'.extended = false → isFlagChar c = true →
          lexFlags n f' off' (count + 1) rest' = .ok r → ∃ r', lexFlags m f' off' (count + 1) rest = .ok r' := by
        intro f' off' hx' hc h
        have hord := spares_isFlagChar.ordinary hc
        rw [inGroup_ordinary hord.1] at hgroup
        obtain rfl := (List.cons.inj hgroup).2
        rw [List.takeWhile_cons_of_pos hc] at hflags
        have hskips : Skips named (d + 1) (c :: rest) (d + 1) rest := .cons hord rest
        exact ih hx' (hskips.fits hf) (hskips.sealedFrom hs) (fun hmem => hflags (List.mem_cons_of_mem c hmem)) h
          (Nat.lt_of_succ_lt_succ hm)
      rw [hgroup] at hcomment h
      rw [lexFlags,hx,skipBlanks_eq hcomment] at h
      rw [lexFlags,hx,skipBlanks_eq hf.noComment]
      simp only [bind,Except.bind,pure,Except.pure] at h ⊢
      by_cases hminus : c = '-'
      · rw [if_pos hminus] at h ⊢
        cases off with
        | true => cases h
        | false => exact hnext hx (by rw [hminus]; rfl) h
      · rw [if_neg hminus] at h ⊢
        by_cases hclose : c = ')'
        · rw [if_pos hclose] at h ⊢
          split at h
          · cases h
          · rename_i hcount
            exact ⟨_,if_neg hcount⟩
        · rw [if_neg hclose] at h ⊢
          by_cases hcolon : c = ':'
          · rw [if_pos hcolon] at h ⊢
            split at h
            · cases h
            · rename_i hcount
              exact ⟨_,if_neg hcount⟩
          · rw [if_neg hcolon] at h ⊢
            cases hset : setFlag? f (!off) c with
            | none =>
              rw [hset] at h
              cases h
            | some f' =>
              rw [hset] at h
              have hxc : c ≠ 'x' := by
                rintro rfl
                rw [List.takeWhile_cons_of_pos rfl] at hflags
                exact hflags List.mem_cons_self
              obtain ⟨hc,hext⟩ := setFlag?_eq_some hset hxc
              exact hnext (hext.trans hx) hc h

/-- A parenthesis with a question mark starts in the text alone what it starts in the group. -/
lemma lexSpecial_of_inGroup {r : Lexeme × List Char} (hx : f.extended = false)
    (hfits : FitsFrom named d ('(' :: '?' :: cs)) (hs : SealedFrom foreign own (d + 1) cs)
    (h : lexSpecial f (inGroup o tail cs) = .ok r) : ∃ x v, lexSpecial f cs = .ok (x,v) ∧ x.InRange o := by
  obtain ⟨-,hflags,-,-,hrest⟩ := fitsFrom_special hfits
  by_cases hhead : ∃ c ∈ ['=','!','<','P','>','('], cs.head? = some c
  · obtain ⟨c,hc,hhead⟩ := hhead
    obtain ⟨cs,rfl⟩ := List.head?_eq_some_iff.mp hhead
    -- what follows is not empty, since the group has to be closed
    have hsecond : IsOrdinary c ∧ c ≠ ')' → ∃ b v, cs = b :: v := by
      intro hord
      have hskips : Skips named (d + 1) (c :: cs) (d + 1) cs := .cons hord cs
      exact List.exists_cons_of_ne_nil (hskips.sealedFrom hs).ne_nil
    simp only [List.mem_cons,List.not_mem_nil,or_false] at hc
    rcases hc with rfl | rfl | rfl | rfl | rfl | rfl
    · exact ⟨_,_,rfl,trivial⟩
    · exact ⟨_,_,rfl,trivial⟩
    · obtain ⟨b,v,rfl⟩ := hsecond isOrdinary_less
      by_cases hequals : b = '='
      · subst hequals
        exact ⟨_,_,rfl,trivial⟩
      by_cases hbang : b = '!'
      · subst hbang
        exact ⟨_,_,rfl,trivial⟩
      rw [inGroup_ordinary isOrdinary_less.1,lexSpecial_angle (by rw [head?_inGroup]; simpa using hequals)
        (by rw [head?_inGroup]; simpa using hbang)] at h
      rw [lexSpecial_angle (by simpa using hequals) (by simpa using hbang)]
      obtain ⟨name,v,hlex⟩ := lexNamedGroup_of_inGroup h
      exact ⟨_,v,hlex,trivial⟩
    · obtain ⟨b,v,rfl⟩ := hsecond isOrdinary_P
      rw [inGroup_ordinary isOrdinary_P.1] at h
      by_cases hless : b = '<'
      · subst hless
        rw [inGroup_ordinary isOrdinary_less.1] at h
        obtain ⟨name,v,hlex⟩ := lexNamedGroup_of_inGroup h
        exact ⟨_,v,hlex,trivial⟩
      by_cases hequals : b = '='
      · subst hequals
        rw [inGroup_ordinary isOrdinary_equals.1] at h
        have hskips : Skips named (d + 1) ('P' :: '=' :: v) (d + 1) (v.dropWhile Text.isNameChar) :=
          ((Skips.cons isOrdinary_P _).trans (.cons isOrdinary_equals _)).trans (.dropWhile spares_isNameChar _)
        obtain ⟨name,v,hlex⟩ := lexNameRef_of_inGroup h (fun _ => (hskips.sealedFrom hs).ne_nil)
        exact ⟨_,v,hlex,trivial⟩
      -- no flag has this letter
      obtain ⟨v',hv⟩ := exists_inGroup_cons o tail b v
      rw [hv,lexSpecial] at h
      · exact absurd h (lexFlags_P hx (noComment_of_head (by simp)))
      all_goals simp_all
    · exact ⟨_,_,rfl,trivial⟩
    · obtain ⟨v',hv⟩ := exists_inGroup_cons o tail '(' cs
      rw [hv] at h
      cases h
  · simp only [not_exists,not_and] at hhead
    have hin : ∀ c ∈ ['=','!','<','P','>','('], (inGroup o tail cs).head? ≠ some c := by
      intro c hc hin
      refine hhead c hc (head?_of_inGroup ?_ hin)
      rintro rfl
      simp at hc
    rw [lexSpecial_flags hin] at h
    rw [lexSpecial_flags hhead]
    obtain ⟨⟨x,v⟩,hlex⟩ := lexFlags_of_inGroup hx hrest hs hflags h (Nat.lt_succ_self _)
    refine ⟨x,v,hlex,?_⟩
    have hlong : (inGroup 0 [] cs).length ≤ (inGroup 0 [] cs).length := Nat.le_refl _
    cases (lexFlags_inGroup hx hrest hflags hlex hlong).2 with
    | inside => trivial
    | closed => trivial

end Groups

section Backslash

lemma readEscape_of_inGroup {r : Escaped × List Char} (h : readEscape fold c (inGroup o tail cs) = .ok r) :
    ∃ r', readEscape fold c cs = .ok r' := by
  obtain ⟨u,hu,hwordy,hread⟩ := readEscape_wordy h
  obtain ⟨v,rfl,-⟩ := exists_append_of_inGroup (fun c hc => ⟨(hwordy c hc).ordinary,(hwordy c hc).paren⟩) hu
  exact ⟨_,hread v⟩

/-- Digits after a backslash refer to a group, if their number can be written in 64 bits. -/
lemma lexBackslash_digits (f : Flags) {ds : List Char} (hds : ∀ c ∈ ds, c.isDigit = true) (hne : ds ≠ [])
    (hstop : cs.head?.any Char.isDigit = false) : lexBackslash f (ds ++ cs) =
      if UInt64.size ≤ decimalValue ds then .error .unknownGroup else .ok (.numberRef (decimalValue ds),cs) := by
  obtain ⟨e,ds,rfl⟩ := List.exists_cons_of_ne_nil hne
  have he := hds e List.mem_cons_self
  obtain ⟨htake,hdrop⟩ := no_digits hstop
  have hread : readDecimal? (e :: ds ++ cs) =
      if UInt64.size ≤ decimalValue (e :: ds) then none else some (decimalValue (e :: ds),cs) := by
    rw [readDecimal?_eq,List.takeWhile_append_of_pos hds,List.dropWhile_append_of_pos hds,htake,hdrop,
      List.append_nil]
    simp
  rw [List.cons_append] at hread ⊢
  rw [lexBackslash_other (isDigit_not_other he),lexEscape,if_pos he,hread]
  by_cases hlarge : UInt64.size ≤ decimalValue (e :: ds)
  · rw [if_pos hlarge,if_pos hlarge]
  · rw [if_neg hlarge,if_neg hlarge]

/-- A reference of a sealed text has a number that can be moved. -/
lemma lt_of_isSealed {digits : List Char} (h : (Token.reference digits).isSealed foreign own d rest = true) :
    digitsValue digits < halfRange :=
  of_decide_eq_true (Bool.and_eq_true_iff.mp h).1

/-- A reference is read in the text alone as in the group, if its number can be moved. -/
lemma lexBackslash_of_reference {e : Char} (he : startsReference e = true) (ho : o < halfRange)
    (hs : SealedFrom foreign own d ('\\' :: e :: cs)) :
    ∃ n v, lexBackslash f (e :: cs) = .ok (.numberRef n,v) ∧ n + o < UInt64.size := by
  have hdigits : ∀ c ∈ e :: cs.takeWhile Char.isDigit, c.isDigit = true := by
    intro c hc
    rcases List.mem_cons.mp hc with rfl | hc
    · rw [startsReference_eq,Bool.and_eq_true] at he
      exact he.1
    · exact List.all_eq_true.mp List.all_takeWhile c hc
  have halone : e :: cs = (e :: cs.takeWhile Char.isDigit) ++ cs.dropWhile Char.isDigit := by
    rw [List.cons_append,List.takeWhile_append_dropWhile]
  have hfirst := (sealedFrom_cons.mp hs).1
  rw [nextToken_reference he] at hfirst
  have hhalf : decimalValue (e :: cs.takeWhile Char.isDigit) < halfRange := lt_of_isSealed hfirst
  have hadd := halfRange_add
  rw [halone,lexBackslash_digits f hdigits (List.cons_ne_nil _ _) (no_digit_dropWhile cs)]
  exact ⟨_,_,if_neg (by omega),by omega⟩

/-- An escape stands for something in the text alone if it does in the group. -/
lemma lexBackslash_of_inGroup {r : Lexeme × List Char} (ho : o < halfRange) (hfits : FitsFrom named d ('\\' :: cs))
    (hs : SealedFrom foreign own d ('\\' :: cs)) (htext : inGroup o tail ('\\' :: cs) = '\\' :: rest)
    (h : lexBackslash f rest = .ok r) : ∃ x v, lexBackslash f cs = .ok (x,v) ∧ x.InRange o := by
  have hassert : ∀ (e : Char) (a : Assertion) (v : List Char), cs = e :: v →
      (∀ cs, lexBackslash f (e :: cs) = .ok (.piece (.ofAssertion a),cs)) →
        ∃ x v, lexBackslash f cs = .ok (x,v) ∧ x.InRange o := by
    rintro e a v rfl hlex
    exact ⟨_,_,hlex v,trivial⟩
  cases cs with
  | nil =>
    -- a backslash would come last
    exact absurd (sealedFrom_cons.mp hs).1 (by simp [nextToken,Token.isSealed])
  | cons e cs =>
    cases he : startsReference e with
    | true =>
      obtain ⟨n,v,hlex,hrange⟩ := lexBackslash_of_reference he ho hs
      exact ⟨_,v,hlex,hrange⟩
    | false =>
      have hescape : Passes named d ['\\',e] d cs := .escape he
      have htext' : '\\' :: e :: inGroup o tail cs = '\\' :: rest := hescape.inGroup.symm.trans htext
      obtain rfl := (List.cons.inj htext').2
      by_cases hother : e ∈ ['k','A','z','b','B']
      · simp only [List.mem_cons,List.not_mem_nil,or_false] at hother
        rcases hother with rfl | rfl | rfl | rfl | rfl
        · cases cs with
          | nil => cases h
          | cons b cs =>
            by_cases hb : b = '<'
            · subst hb
              rw [inGroup_ordinary isOrdinary_less.1] at h
              obtain ⟨name,v,hlex⟩ := lexNameRef_of_inGroup h (fun h => absurd h (by decide))
              exact ⟨_,v,hlex,trivial⟩
            · obtain ⟨cs',hcs⟩ := exists_inGroup_cons o tail b cs
              rw [hcs,lexBackslash] at h
              · cases h
              · intro _ heq
                exact hb (List.cons.inj heq).1
        · exact hassert _ .textStart cs rfl (fun _ => rfl)
        · exact hassert _ .textEnd cs rfl (fun _ => rfl)
        · exact hassert _ .wordBoundary cs rfl (fun _ => rfl)
        · exact hassert _ .notWordBoundary cs rfl (fun _ => rfl)
      · rw [lexBackslash_other hother] at h ⊢
        by_cases hdigit : e.isDigit = true
        · have hzero : e = '0' := by
            rw [startsReference_eq,hdigit] at he
            simpa using he
          subst hzero
          have hfirst := (fitsFrom_cons.mp hfits).1
          rw [nextToken_escape rfl (by decide)] at hfirst
          simp only [Token.fits,Bool.and_eq_true,Bool.not_eq_true',if_true] at hfirst
          have hdigits : ∀ c ∈ ['0'], c.isDigit = true := by simp
          have hread := lexBackslash_digits f hdigits (List.cons_ne_nil _ _) hfirst.2
          rw [List.singleton_append,lexBackslash_other hother] at hread
          have hvalue : decimalValue ['0'] + o = o := Nat.zero_add o
          exact ⟨_,_,hread,Nat.lt_of_le_of_lt (Nat.le_of_eq hvalue) (Nat.lt_trans ho halfRange_lt)⟩
        · rw [lexEscape,if_neg hdigit] at h ⊢
          obtain ⟨e',he',-⟩ := except_map_eq_ok.mp h
          obtain ⟨⟨e',v⟩,hread⟩ := readEscape_of_inGroup he'
          rw [hread]
          exact ⟨_,_,rfl,trivial⟩

end Backslash

/-- The body of a set is the same whatever follows the set. -/
lemma setBody?_of_append {body : List Char} (h : setBody? (body ++ ']' :: rest) = some (body,rest)) (cs : List Char) :
    setBody? (body ++ ']' :: cs) = some (body,cs) := by
  induction hn : body.length using Nat.strongRecOn generalizing body with
  | _ n ih =>
    cases body with
    | nil => rfl
    | cons c body =>
      by_cases hslash : c = '\\'
      · subst hslash
        cases body with
        | nil =>
          have h : setBody? ('\\' :: ']' :: rest) = some (['\\'],rest) := h
          rw [setBody?_escape (by decide),Option.map_eq_some_iff] at h
          obtain ⟨r,-,heq⟩ := h
          cases (Prod.mk.inj heq).1
        | cons e body =>
          by_cases hline : e = '\n'
          · subst hline
            cases h
          · rw [List.cons_append,List.cons_append,setBody?_escape hline,Option.map_eq_some_iff] at h ⊢
            obtain ⟨⟨b,r⟩,h,heq⟩ := h
            obtain ⟨hb,rfl⟩ := Prod.mk.inj heq
            obtain rfl : b = body := (List.cons.inj (List.cons.inj hb).2).2
            exact ⟨_,ih _ (by rw [← hn]; simp only [List.length_cons]; omega) h rfl,rfl⟩
      · by_cases hclose : c = ']'
        · subst hclose
          cases h
        · rw [List.cons_append,setBody?_plain hslash hclose,Option.map_eq_some_iff] at h ⊢
          obtain ⟨⟨b,r⟩,h,heq⟩ := h
          obtain ⟨hb,rfl⟩ := Prod.mk.inj heq
          obtain rfl : b = body := (List.cons.inj hb).2
          exact ⟨_,ih _ (by rw [← hn]; exact Nat.lt_succ_self _) h rfl,rfl⟩

lemma readSet_of_inGroup {r : CharSet × List Char} (hfits : FitsFrom named d ('[' :: cs))
    (htext : inGroup o tail ('[' :: cs) = '[' :: rest) (h : readSet fold rest = .ok r) :
    ∃ r', readSet fold cs = .ok r' := by
  have hfirst := (fitsFrom_cons.mp hfits).1
  cases hbody : setBody? cs with
  | none => simp [nextToken,hbody,Token.fits] at hfirst
  | some r' =>
    obtain ⟨body,after⟩ := r'
    obtain rfl := setBody?_text hbody
    rw [nextToken_set hbody] at hfirst
    simp only [Token.fits,Bool.and_eq_true,bne_iff_ne,Bool.not_eq_true',List.isEmpty_eq_false_iff] at hfirst
    obtain ⟨⟨hne,hcaret⟩,hbracket⟩ := hfirst
    have hpasses : Passes named d ('[' :: body ++ [']']) d after := .set hbody
    have hin : '[' :: (body ++ ']' :: inGroup o tail after) = '[' :: rest := by
      rw [← htext]
      simpa using hpasses.inGroup.symm
    obtain rfl := (List.cons.inj hin).2
    obtain ⟨-,hall⟩ := readSet_body h (setBody?_of_append hbody _) hne hcaret hbracket
    exact ⟨_,hall after⟩

/-- A token of a sealed text that the reader finds in a group, it finds in the text alone. -/
theorem lexeme_of_inGroup {r : Lexeme × List Char} (ho : o < halfRange) (hx : f.extended = false)
    (hfits : FitsFrom named d (c :: cs)) (hs : SealedFrom foreign own d (c :: cs))
    (htext : inGroup o tail (c :: cs) = c :: rest) (h : lexeme f pending c rest = .ok r) :
    ∃ x v, lexeme f pending c cs = .ok (x,v) ∧ x.InRange o := by
  by_cases hspecial : c ∈ ['|',')','?','*','+','\x7b','(','\\','[','.','^','$']
  · have hrounds : ∀ (least : Nat) (most : Option Nat) {after : List Char}, Skips named d (c :: cs) d after →
        lexeme f pending c cs = lexRounds f least most after →
          ∃ x v, lexeme f pending c cs = .ok (x,v) ∧ x.InRange o := by
      intro least most after hskips hlex
      exact ⟨_,_,hlex.trans (lexRounds_eq hx (hskips.fits hfits).noComment),trivial⟩
    have hone : IsOrdinary c ∧ c ≠ ')' → Skips named d (c :: cs) d cs := fun hc => .cons hc cs
    simp only [List.mem_cons,List.not_mem_nil,or_false] at hspecial
    rcases hspecial with rfl | rfl | rfl | rfl | rfl | rfl | rfl | rfl | rfl | rfl | rfl | rfl
    · exact ⟨_,_,rfl,trivial⟩
    · exact ⟨_,_,rfl,trivial⟩
    · exact hrounds _ _ (hone ⟨⟨by decide,by decide,by decide⟩,by decide⟩) rfl
    · exact hrounds _ _ (hone ⟨⟨by decide,by decide,by decide⟩,by decide⟩) rfl
    · exact hrounds _ _ (hone ⟨⟨by decide,by decide,by decide⟩,by decide⟩) rfl
    · have hbrace := hone ⟨⟨by decide,by decide,by decide⟩,by decide⟩
      cases hread : readBounds? false cs with
      | none =>
        refine ⟨.piece (.ofChar f '\x7b'),cs,?_,trivial⟩
        simp only [lexeme,hx,hread]
        rfl
      | some bounds =>
        obtain ⟨least,most,after⟩ := bounds
        cases pending with
        | true =>
          refine hrounds least most (hbrace.trans (skips_readBounds? (hbrace.fits hfits) hread)) ?_
          simp only [lexeme,hx,hread]
          rfl
        | false =>
          refine ⟨.piece (.ofChar f '\x7b'),cs,?_,trivial⟩
          simp only [lexeme,hx,hread]
          rfl
    · by_cases hq : cs.head? = some '?'
      · obtain ⟨cs,rfl⟩ := List.head?_eq_some_iff.mp hq
        rw [inGroup_special] at htext
        obtain rfl := (List.cons.inj htext).2
        rw [lexeme_special hx] at h ⊢
        exact lexSpecial_of_inGroup hx hfits (sealedFrom_cons.mp hs).2 h
      · have hrest := (fitsFrom_cons.mp hfits).2.2
        rw [nextToken_group hq] at hrest
        exact ⟨_,_,lexeme_capture hx hq hrest.noComment,trivial⟩
    · exact lexBackslash_of_inGroup ho hfits hs htext h
    · obtain ⟨⟨s,v⟩,hset,-⟩ := except_bind_eq_ok.mp h
      obtain ⟨⟨s,v⟩,hset⟩ := readSet_of_inGroup hfits htext hset
      refine ⟨.piece (.ofSet s),v,?_,trivial⟩
      simp only [lexeme,hset]
      rfl
    · exact ⟨_,_,rfl,trivial⟩
    · exact ⟨_,_,rfl,trivial⟩
    · exact ⟨_,_,rfl,trivial⟩
  · exact ⟨_,_,lexeme_char hspecial cs,trivial⟩

end Highlight.Rules
