import Highlight.Proofs.Regex.Renumber
import Highlight.Proofs.Rules.Escapes

/-!
Tokens of the reader in a text that stands in one more group. They are the same but for the numbers of
groups, and the light scan goes from one to the next.
-/
namespace Highlight.Regex.Lexeme

/-- A token after `o` more groups. -/
def shift (o : Nat) : Lexeme → Lexeme
  | numberRef n => numberRef (shiftGroup o n)
  | x => x

def captures : Lexeme → Bool
  | capture _ => true
  | _ => false

/-- The name of the group that a token opens. -/
def opens? : Lexeme → Option String
  | capture name => name
  | _ => none

/-- Whether a token refers back to a group. -/
def refers : Lexeme → Bool
  | numberRef _ | nameRef _ => true
  | _ => false

/-- The groups that are open after a token, `depth` being open before. -/
def depthAfter (depth : Nat) : Lexeme → Nat
  | atomic | look _ _ | capture _ | plain _ => depth + 1
  | close => depth - 1
  | _ => depth

/-- A number that a token writes can still be written after `o` more groups. -/
def InRange (o : Nat) : Lexeme → Prop
  | numberRef n => n + o < UInt64.size
  | _ => True

/-- A piece that a token stands for has no parts, and so no groups in it. -/
def OpensNone : Lexeme → Prop
  | piece p => p.pattern.isAtom = true
  | _ => True

/-- What a text that fits promises of its tokens. -/
def Sound (named : Bool) : Lexeme → Prop
  | piece p => p.pattern.isAtom = true
  | flags f | plain f => f.extended = false
  | capture (some _) => named = true
  | numberRef _ => named = false
  | nameRef name => ∀ n, readDecimal? name.toList ≠ some (n,[])
  | _ => True

/-- What a sealed text promises of its tokens. -/
def Stands (foreign own : List String) (depth : Nat) : Lexeme → Prop
  | close => 0 < depth
  | rounds least (some most) _ _ => least ≤ most
  | nameRef name => name ∈ own ∨ name ∉ foreign
  | _ => True

/-- `P` holds of the flags that a token sets. -/
def Flagged (P : Flags → Prop) : Lexeme → Prop
  | flags f | plain f => P f
  | _ => True

lemma Sound.flagged {named : Bool} {x : Lexeme} (h : x.Sound named) :
    x.Flagged (fun f => f.extended = false) := by
  cases x with
  | flags f => exact h
  | plain f => exact h
  | _ => trivial

lemma Sound.opensNone {named : Bool} {x : Lexeme} (h : x.Sound named) : x.OpensNone := by
  cases x with
  | piece p => exact h
  | _ => trivial

lemma opens?_eq_none {x : Lexeme} (h : x.captures = false) : x.opens? = none := by
  cases x with
  | capture name => cases h
  | _ => rfl

end Highlight.Regex.Lexeme

namespace Highlight.Rules

open Regex

/-- A token of a text that fits, and where it stands when the text is put into a group. -/
structure Lexes (named : Bool) (d : Nat) (f : Flags) (pending : Bool) (c : Char) (rest : List Char)
    (x : Lexeme) (rest' : List Char) : Prop where
  text : ∀ o tail, x.InRange o → ∃ rest₁, inGroup o tail (c :: rest) = c :: rest₁ ∧
    lexeme f pending c rest₁ = .ok (x.shift o,inGroup o tail rest') ∧
      (inGroup o tail rest').length ≤ rest₁.length
  count : groupCount (c :: rest) = groupCount rest' + if x.captures then 1 else 0
  fits : FitsFrom named (x.depthAfter d) rest'
  length_le : rest'.length ≤ rest.length
  sound : x.Sound named
  depth_lt : c = '(' → d < maxInnerDepth
  names : groupNames (c :: rest) = x.opens?.toList ++ groupNames rest'
  sealedFrom : ∀ foreign own, SealedFrom foreign own d (c :: rest) →
    x.Stands foreign own d ∧ SealedFrom foreign (x.opens?.toList ++ own) (x.depthAfter d) rest'

variable {named pending : Bool} {d : Nat} {f : Flags} {c : Char} {rest rest' : List Char} {x : Lexeme}

section Stands

variable {foreign own : List String} {t : Token}

lemma pos_of_isSealed (h : (Token.plain ')').isSealed foreign own d rest = true) : 0 < d := by
  simp only [Token.isSealed,Bool.and_eq_true,Bool.or_eq_true,decide_eq_true_eq] at h
  exact h.1.1.1.resolve_left (by decide)

lemma ascend_of_isSealed {least n : Nat} (hread : readBounds? false rest = some (least,some n,rest'))
    (h : (Token.plain '\x7b').isSealed foreign own d rest = true) : least ≤ n := by
  simp only [Token.isSealed,Bool.and_eq_true,Bool.or_eq_true] at h
  have hascend := h.1.2.resolve_left (by decide)
  rw [boundsAscend,hread] at hascend
  exact of_decide_eq_true hascend

lemma stands_nameRef {name : String} (hname : t.refers? rest = some name) (h : t.isSealed foreign own d rest = true) :
    (Lexeme.nameRef name).Stands foreign own d := by
  have hrefers := (Bool.and_eq_true_iff.mp h).2
  rw [hname] at hrefers
  simpa [Lexeme.Stands] using hrefers

end Stands

namespace Lexes

lemma of_ordinary (hc : IsOrdinary c) (hfits : FitsFrom named d (c :: rest))
    (hs : Skips named (if c = ')' then d - 1 else d) rest (x.depthAfter d) rest')
    (hshift : ∀ o, x.shift o = x) (hcaptures : x.captures = false) (hsound : x.Sound named)
    (hstands : ∀ foreign own, (Token.plain c).isSealed foreign own d rest = true → x.Stands foreign own d)
    (hlex : ∀ o tail, lexeme f pending c (inGroup o tail rest) = .ok (x,inGroup o tail rest')) :
    Lexes named d f pending c rest x rest' := by
  have hfirst : Skips named d (c :: rest) (if c = ')' then d - 1 else d) rest :=
    ⟨[c],rfl,.ordinary hc⟩
  refine ⟨fun o tail _ => ⟨_,inGroup_ordinary hc,?_,hs.length_inGroup_le⟩,?_,
    hs.fits (hfirst.fits hfits),hs.length_le,hsound,?_,?_,fun foreign own h => ⟨hstands _ _ ?_,?_⟩⟩
  · rw [hshift]
    exact hlex o tail
  · rw [hcaptures,hfirst.count,hs.count]
    rfl
  · rintro rfl
    exact absurd rfl hc.2.1
  · rw [Lexeme.opens?_eq_none hcaptures,hfirst.names,hs.names]
    rfl
  · rw [sealedFrom_cons,nextToken_ordinary hc] at h
    exact h.1
  · rw [Lexeme.opens?_eq_none hcaptures]
    exact hs.sealedFrom (hfirst.sealedFrom h)

/-- A token of one character. -/
lemma single (hc : IsOrdinary c) (hfits : FitsFrom named d (c :: rest))
    (hdepth : x.depthAfter d = if c = ')' then d - 1 else d)
    (hshift : ∀ o, x.shift o = x) (hcaptures : x.captures = false) (hsound : x.Sound named)
    (hstands : ∀ foreign own, (Token.plain c).isSealed foreign own d rest = true → x.Stands foreign own d)
    (hlex : ∀ cs, lexeme f pending c cs = .ok (x,cs)) : Lexes named d f pending c rest x rest := by
  refine of_ordinary hc hfits ?_ hshift hcaptures hsound hstands (fun _ _ => hlex _)
  rw [hdepth]
  exact .refl rest

end Lexes

section Rounds

variable {least : Nat} {most : Option Nat}

lemma lexRounds_eq (hx : f.extended = false) (hn : NoComment rest) : lexRounds f least most rest =
    .ok (.rounds least most ((takeMark '?' rest).1 == f.swapGreed)
      (takeMark '+' (takeMark '?' rest).2).1,(takeMark '+' (takeMark '?' rest).2).2) := by
  simp only [lexRounds,hx,skipBlanks_eq hn]
  rfl

/-- A repetition after its bounds. -/
lemma lexes_lexRounds (hx : f.extended = false) (hc : IsOrdinary c) (hparen : c ≠ ')')
    {after : List Char} (hfits : FitsFrom named d (c :: rest)) (hs : Skips named d rest d after)
    (h : lexRounds f least most after = .ok (x,rest'))
    (hascend : ∀ foreign own, (Token.plain c).isSealed foreign own d rest = true → ∀ n, most = some n → least ≤ n)
    (hlex : ∀ o tail, lexeme f pending c (inGroup o tail rest) =
      lexRounds f least most (inGroup o tail after)) :
    Lexes named d f pending c rest x rest' := by
  have hfirst : Skips named d (c :: rest) d rest := .cons ⟨hc,hparen⟩ rest
  have hafter := hs.fits (hfirst.fits hfits)
  rw [lexRounds_eq hx hafter.noComment] at h
  obtain ⟨rfl,rfl⟩ := Prod.mk.inj (Except.ok.inj h)
  have hmarks : Skips named d after d (takeMark '+' (takeMark '?' after).2).2 :=
    (skips_takeMark isOrdinary_question after).trans (skips_takeMark isOrdinary_plus _)
  refine .of_ordinary hc hfits ?_ (fun _ => rfl) rfl trivial (fun foreign own hsealed => ?_) (fun o tail => ?_)
  · rw [if_neg hparen]
    exact hs.trans hmarks
  · cases most with
    | none => trivial
    | some n => exact hascend foreign own hsealed n rfl
  · rw [hlex,lexRounds_eq hx hafter.noComment_inGroup,takeMark_inGroup isOrdinary_question,
      takeMark_inGroup isOrdinary_plus]

end Rounds

section Groups

lemma fitsFrom_special (h : FitsFrom named d ('(' :: '?' :: rest)) :
    (opensNamed rest = true → named = true) ∧ 'x' ∉ rest.takeWhile isFlagChar ∧
      (['P','='].isPrefixOf rest && startsNumeral (rest.drop 2)) = false ∧ d < maxInnerDepth ∧
        FitsFrom named (d + 1) rest := by
  rw [fitsFrom_cons,nextToken_special] at h
  obtain ⟨hfits,hdepth,hrest⟩ := h
  simp only [Token.fits,Bool.and_eq_true,Bool.not_eq_true',Bool.or_eq_true] at hfits
  obtain ⟨⟨⟨⟨hnamed,-⟩,-⟩,hflags⟩,hnumeral⟩ := hfits
  refine ⟨fun h => ?_,by simpa using hflags,hnumeral,hdepth,hrest⟩
  rcases hnamed with hnamed | hnamed
  · rw [h] at hnamed
    cases hnamed
  · exact hnamed

lemma lexeme_special (hx : f.extended = false) (cs : List Char) :
    lexeme f pending '(' ('?' :: cs) = lexSpecial f cs := by
  have hn : NoComment ('?' :: cs) := noComment_of_head (by simp)
  simp only [lexeme,lexGroup,hx,skipBlanks_eq hn]
  rfl

lemma Lexes.of_special (hx : f.extended = false) (hfits : FitsFrom named d ('(' :: '?' :: rest))
    (hs : Skips named (d + 1) rest (x.depthAfter d) rest') (hshift : ∀ o, x.shift o = x)
    (hcaptures : x.captures = opensNamed rest) (hsound : x.Sound named)
    (hopens : opensNamed rest = true → x.opens? = (Token.special true).opens? rest)
    (hstands : ∀ foreign own, (Token.special (opensNamed rest)).isSealed foreign own d rest = true →
      x.Stands foreign own d)
    (hlex : ∀ o tail, lexSpecial f (inGroup o tail rest) = .ok (x,inGroup o tail rest')) :
    Lexes named d f pending '(' ('?' :: rest) x rest' := by
  obtain ⟨-,-,-,hdepth,hrest⟩ := fitsFrom_special hfits
  have hname : x.opens? = (Token.special (opensNamed rest)).opens? rest := by
    cases hnamed : opensNamed rest with
    | true => exact hopens hnamed
    | false => exact Lexeme.opens?_eq_none (hcaptures.trans hnamed)
  refine ⟨fun o tail _ => ⟨_,inGroup_special,?_,?_⟩,?_,hs.fits hrest,?_,hsound,fun _ => hdepth,?_,fun foreign own h => ?_⟩
  · rw [hshift,lexeme_special hx,hlex]
  · exact Nat.le_succ_of_le hs.length_inGroup_le
  · rw [groupCount_cons,nextToken_special,hcaptures,hs.count]
    cases opensNamed rest with
    | true => rfl
    | false => rfl
  · exact Nat.le_succ_of_le hs.length_le
  · rw [groupNames_cons,nextToken_special,hname,hs.names]
  · rw [sealedFrom_cons,nextToken_special] at h
    rw [hname]
    exact ⟨hstands _ _ h.1,hs.sealedFrom h.2⟩

lemma lexSpecial_angle {cs : List Char} (h : cs.head? ≠ some '=') (h' : cs.head? ≠ some '!') :
    lexSpecial f ('<' :: cs) = lexNamedGroup cs := by
  rw [lexSpecial]
  · rintro cs rfl
    exact h rfl
  · rintro cs rfl
    exact h' rfl

lemma lexSpecial_flags {cs : List Char} (h : ∀ c ∈ ['=','!','<','P','>','('], cs.head? ≠ some c) :
    lexSpecial f cs = lexFlags (cs.length + 1) f false 0 cs := by
  rw [lexSpecial]
  · rintro cs rfl
    exact h '=' (by simp) rfl
  · rintro cs rfl
    exact h '!' (by simp) rfl
  · rintro cs rfl
    exact h '<' (by simp) rfl
  · rintro cs rfl
    exact h '<' (by simp) rfl
  · rintro cs rfl
    exact h '<' (by simp) rfl
  · rintro cs rfl
    exact h 'P' (by simp) rfl
  · rintro cs rfl
    exact h 'P' (by simp) rfl
  · rintro cs rfl
    exact h '>' (by simp) rfl
  · rintro cs rfl
    exact h '(' (by simp) rfl

lemma isOrdinary_equals : IsOrdinary '=' ∧ '=' ≠ ')' := ⟨⟨by decide,by decide,by decide⟩,by decide⟩
lemma isOrdinary_bang : IsOrdinary '!' ∧ '!' ≠ ')' := ⟨⟨by decide,by decide,by decide⟩,by decide⟩
lemma isOrdinary_less : IsOrdinary '<' ∧ '<' ≠ ')' := ⟨⟨by decide,by decide,by decide⟩,by decide⟩
lemma isOrdinary_more : IsOrdinary '>' ∧ '>' ≠ ')' := ⟨⟨by decide,by decide,by decide⟩,by decide⟩
lemma isOrdinary_P : IsOrdinary 'P' ∧ 'P' ≠ ')' := ⟨⟨by decide,by decide,by decide⟩,by decide⟩

/-- A name after its opening, in a group and outside. -/
lemma lexNamedGroup_inGroup (h : lexNamedGroup rest = .ok (x,rest')) :
    (∃ name, x = .capture (some name) ∧ readName? '>' rest = some (name,rest')) ∧ (∀ named d, Skips named d rest d rest') ∧
      (∀ o tail, lexNamedGroup (inGroup o tail rest) = .ok (x,inGroup o tail rest')) ∧
        ∃ c cs, rest = c :: cs ∧ Text.isNameChar c = true := by
  unfold lexNamedGroup at h
  cases hname : readName? '>' rest with
  | none =>
    rw [hname] at h
    cases h
  | some r =>
    rw [hname] at h
    obtain ⟨rfl,rfl⟩ := Prod.mk.inj (Except.ok.inj h)
    refine ⟨⟨r.1,rfl,rfl⟩,fun _ _ => (skips_readName? hname).trans (.cons isOrdinary_more _),
      fun o tail => ?_,?_⟩
    · rw [lexNamedGroup,readName?_inGroup isOrdinary_more.1 hname]
    · obtain ⟨htake,-,hne⟩ := readName?_eq_some hname
      rw [htake] at hne
      cases rest with
      | nil => exact absurd rfl hne
      | cons c cs =>
        refine ⟨c,cs,rfl,?_⟩
        cases hc : Text.isNameChar c with
        | true => rfl
        | false => exact absurd (List.takeWhile_cons_of_neg (by simp [hc])) hne

lemma lexes_namedGroup (hx : f.extended = false) (hfits : FitsFrom named d ('(' :: '?' :: '<' :: rest))
    (h : lexNamedGroup rest = .ok (x,rest')) :
    Lexes named d f pending '(' ('?' :: '<' :: rest) x rest' := by
  obtain ⟨⟨name,rfl,hname⟩,hs,hlex,c,cs,rfl,hc⟩ := lexNamedGroup_inGroup h
  have heq : c ≠ '=' := by
    rintro rfl
    cases hc
  have hbang : c ≠ '!' := by
    rintro rfl
    cases hc
  have hopens : opensNamed ('<' :: c :: cs) = true :=
    opensNamed_angle (fun _ h => heq (List.cons.inj h).1) (fun _ h => hbang (List.cons.inj h).1)
  refine .of_special hx hfits ((Skips.cons isOrdinary_less _).trans (hs _ _)) (fun _ => rfl) hopens.symm
    ((fitsFrom_special hfits).1 hopens) (fun _ => (congrArg (Option.map Prod.fst) hname).symm) (fun _ _ _ => trivial)
    (fun o tail => ?_)
  rw [inGroup_ordinary isOrdinary_less.1,lexSpecial_angle]
  · exact hlex o tail
  · rw [head?_inGroup]
    simpa using heq
  · rw [head?_inGroup]
    simpa using hbang

lemma not_numeral {name : String} {closing : Char} (h : readName? closing rest = some (name,rest'))
    (hn : startsNumeral rest = false) : ∀ n, readDecimal? name.toList ≠ some (n,[]) := by
  intro n hd
  obtain ⟨htake,-,-⟩ := readName?_eq_some h
  obtain ⟨-,hdrop,-⟩ := readDecimal?_eq_some hd
  rw [startsNumeral,← htake] at hn
  have hall : name.toList.all Char.isDigit = true := by
    have htake := List.takeWhile_append_dropWhile (p := Char.isDigit) (l := name.toList)
    rw [← hdrop,List.append_nil] at htake
    rw [← htake]
    exact List.all_takeWhile
  rw [hall] at hn
  cases hn

/-- A reference by name is the same in a group. -/
lemma lexNameRef_inGroup {closing : Char} (hc : IsOrdinary closing) (hn : startsNumeral rest = false)
    (h : lexNameRef closing rest = .ok (x,rest')) :
    (∃ name, x = .nameRef name ∧ readName? closing rest = some (name,rest')) ∧ (∀ named, x.Sound named) ∧
      (∀ named d, Skips named d rest d (closing :: rest')) ∧
      ∀ o tail, lexNameRef closing (inGroup o tail rest) = .ok (x,inGroup o tail rest') := by
  unfold lexNameRef at h
  cases hname : readName? closing rest with
  | none =>
    rw [hname] at h
    cases h
  | some r =>
    rw [hname] at h
    obtain ⟨rfl,rfl⟩ := Prod.mk.inj (Except.ok.inj h)
    refine ⟨⟨r.1,rfl,rfl⟩,fun _ => not_numeral hname hn,fun _ _ => skips_readName? hname,
      fun o tail => ?_⟩
    rw [lexNameRef,readName?_inGroup hc hname]

lemma lexFlags_P {cs : List Char} {n count : Nat} {off : Bool} (hx : f.extended = false)
    (hn : NoComment ('P' :: cs)) : lexFlags n f off count ('P' :: cs) ≠ .ok (x,rest') := by
  cases n with
  | zero => simp [lexFlags]
  | succ n =>
    rw [lexFlags,hx,skipBlanks_eq hn]
    simp [bind,Except.bind,setFlag?]

/-- A parenthesis with a question mark. -/
lemma lexes_special (hx : f.extended = false) (hfits : FitsFrom named d ('(' :: '?' :: rest))
    (h : lexSpecial f rest = .ok (x,rest')) :
    Lexes named d f pending '(' ('?' :: rest) x rest' := by
  obtain ⟨-,hflags,hnumeral,-,hrest⟩ := fitsFrom_special hfits
  unfold lexSpecial at h
  split at h
  · obtain ⟨rfl,rfl⟩ := Prod.mk.inj (Except.ok.inj h)
    refine .of_special hx hfits (.cons isOrdinary_equals _) (fun _ => rfl) rfl trivial nofun
      (fun _ _ _ => trivial) (fun o tail => ?_)
    rw [inGroup_ordinary isOrdinary_equals.1]
    rfl
  · obtain ⟨rfl,rfl⟩ := Prod.mk.inj (Except.ok.inj h)
    refine .of_special hx hfits (.cons isOrdinary_bang _) (fun _ => rfl) rfl trivial nofun
      (fun _ _ _ => trivial) (fun o tail => ?_)
    rw [inGroup_ordinary isOrdinary_bang.1]
    rfl
  · obtain ⟨rfl,rfl⟩ := Prod.mk.inj (Except.ok.inj h)
    refine .of_special hx hfits ((Skips.cons isOrdinary_less _).trans (.cons isOrdinary_equals _))
      (fun _ => rfl) rfl trivial nofun (fun _ _ _ => trivial) (fun o tail => ?_)
    rw [inGroup_ordinary isOrdinary_less.1,inGroup_ordinary isOrdinary_equals.1]
    rfl
  · obtain ⟨rfl,rfl⟩ := Prod.mk.inj (Except.ok.inj h)
    refine .of_special hx hfits ((Skips.cons isOrdinary_less _).trans (.cons isOrdinary_bang _))
      (fun _ => rfl) rfl trivial nofun (fun _ _ _ => trivial) (fun o tail => ?_)
    rw [inGroup_ordinary isOrdinary_less.1,inGroup_ordinary isOrdinary_bang.1]
    rfl
  · exact lexes_namedGroup hx hfits h
  · obtain ⟨⟨name,rfl,hname⟩,hs,hlex,-⟩ := lexNamedGroup_inGroup h
    refine .of_special hx hfits
      (((Skips.cons isOrdinary_P _).trans (.cons isOrdinary_less _)).trans (hs _ _)) (fun _ => rfl) rfl
      ((fitsFrom_special hfits).1 rfl) (fun _ => (congrArg (Option.map Prod.fst) hname).symm) (fun _ _ _ => trivial)
      (fun o tail => ?_)
    rw [inGroup_ordinary isOrdinary_P.1,inGroup_ordinary isOrdinary_less.1]
    exact hlex o tail
  · obtain ⟨⟨name,rfl,hname⟩,hsound,hs,hlex⟩ := lexNameRef_inGroup ⟨by decide,by decide,by decide⟩
      hnumeral h
    refine .of_special hx hfits
      ((((Skips.cons isOrdinary_P _).trans (.cons isOrdinary_equals _)).trans (hs _ _)).trans (.close _))
      (fun _ => rfl) rfl (hsound _) nofun (fun foreign own hsealed => ?_) (fun o tail => ?_)
    · refine stands_nameRef ?_ hsealed
      exact congrArg (Option.map Prod.fst) hname
    rw [inGroup_ordinary isOrdinary_P.1,inGroup_ordinary isOrdinary_equals.1]
    exact hlex o tail
  · obtain ⟨rfl,rfl⟩ := Prod.mk.inj (Except.ok.inj h)
    refine .of_special hx hfits (.cons isOrdinary_more _) (fun _ => rfl) rfl trivial nofun
      (fun _ _ _ => trivial) (fun o tail => ?_)
    rw [inGroup_ordinary isOrdinary_more.1]
    rfl
  · cases h
  · rename_i hequals hbang _ _ hless hname _ hmore hparen
    have hhead : ∀ c ∈ ['=','!','<','P','>','('], rest.head? ≠ some c := by
      intro c hc hhead
      obtain ⟨cs,rfl⟩ := List.head?_eq_some_iff.mp hhead
      simp only [List.mem_cons,List.not_mem_nil,or_false] at hc
      rcases hc with rfl | rfl | rfl | rfl | rfl | rfl
      · exact hequals cs rfl
      · exact hbang cs rfl
      · exact hless cs rfl
      · exact lexFlags_P hx hrest.noComment h
      · exact hmore cs rfl
      · exact hparen cs rfl
    have hopens : opensNamed rest = false :=
      opensNamed_eq_false (fun cs heq => hless cs heq) (fun cs heq => hname cs heq)
    have hgroup : ∀ o tail, lexSpecial f (inGroup o tail rest) = .ok (x,inGroup o tail rest') ∧
        ReadsFlags named (d + 1) rest x rest' := by
      intro o tail
      rw [lexSpecial_flags]
      · exact lexFlags_inGroup hx hrest hflags h (Nat.le_succ _)
      · intro c hc hin
        have hclose : c ≠ ')' := by
          rintro rfl
          simp at hc
        exact hhead c hc (head?_of_inGroup hclose hin)
    have hread := (hgroup 0 []).2
    cases hread with
    | inside hx' hs =>
      exact .of_special hx hfits hs (fun _ => rfl) hopens.symm hx' (fun h => absurd (hopens.symm.trans h) (by decide))
        (fun _ _ _ => trivial) (fun o tail => (hgroup o tail).1)
    | closed hx' hs =>
      exact .of_special hx hfits hs (fun _ => rfl) hopens.symm hx' (fun h => absurd (hopens.symm.trans h) (by decide))
        (fun _ _ _ => trivial) (fun o tail => (hgroup o tail).1)

lemma lexeme_capture (hx : f.extended = false) {cs : List Char} (hcs : cs.head? ≠ some '?')
    (hn : NoComment cs) : lexeme f pending '(' cs = .ok (.capture none,cs) := by
  simp only [lexeme,lexGroup,hx,skipBlanks_eq hn,bind,Except.bind]
  split
  · exact absurd rfl hcs
  · rfl

/-- What an opening parenthesis starts is the same in a group. -/
lemma lexes_group (hx : f.extended = false) (hfits : FitsFrom named d ('(' :: rest))
    (h : lexeme f pending '(' rest = .ok (x,rest')) : Lexes named d f pending '(' rest x rest' := by
  by_cases hq : rest.head? = some '?'
  · obtain ⟨rest,rfl⟩ := List.head?_eq_some_iff.mp hq
    rw [lexeme_special hx] at h
    exact lexes_special hx hfits h
  · have hfirst := fitsFrom_cons.mp hfits
    rw [nextToken_group hq] at hfirst
    obtain ⟨-,hdepth,hrest⟩ := hfirst
    rw [lexeme_capture hx hq hrest.noComment] at h
    obtain ⟨rfl,rfl⟩ := Prod.mk.inj (Except.ok.inj h)
    refine ⟨fun o tail _ => ⟨_,inGroup_group hq,?_,Nat.le_refl _⟩,?_,hrest,Nat.le_refl _,trivial,
      fun _ => hdepth,?_,fun foreign own h => ?_⟩
    · exact lexeme_capture hx (fun hin => hq (head?_of_inGroup (by decide) hin))
        hrest.noComment_inGroup
    · rw [groupCount_cons,nextToken_group hq]
      rfl
    · rw [groupNames_cons,nextToken_group hq]
      rfl
    · rw [sealedFrom_cons,nextToken_group hq] at h
      exact ⟨trivial,h.2⟩

end Groups

section Backslash

/-- An escape that is no reference. -/
lemma Lexes.of_escape {e : Char} (he : startsReference e = false)
    (hfits : FitsFrom named d ('\\' :: e :: rest)) (hs : Skips named d rest (x.depthAfter d) rest')
    (hshift : ∀ o, x.shift o = x) (hcaptures : x.captures = false) (hsound : x.Sound named)
    (hstands : ∀ foreign own, SealedFrom foreign own d ('\\' :: e :: rest) → x.Stands foreign own d)
    (hlex : ∀ o tail, lexBackslash f (e :: inGroup o tail rest) = .ok (x,inGroup o tail rest')) :
    Lexes named d f pending '\\' (e :: rest) x rest' := by
  have hfirst : Skips named d ('\\' :: e :: rest) d rest := ⟨['\\',e],rfl,.escape he⟩
  refine ⟨fun o tail _ => ⟨e :: inGroup o tail rest,?_,?_,?_⟩,?_,hs.fits (hfirst.fits hfits),?_,
    hsound,fun h => absurd h (by decide),?_,fun foreign own h => ⟨hstands _ _ h,?_⟩⟩
  · have hescape : Passes named d ['\\',e] d rest := .escape he
    exact hescape.inGroup
  · rw [hshift]
    exact hlex o tail
  · exact Nat.le_succ_of_le hs.length_inGroup_le
  · rw [hcaptures,hfirst.count,hs.count]
    rfl
  · exact Nat.le_succ_of_le hs.length_le
  · rw [Lexeme.opens?_eq_none hcaptures,hfirst.names,hs.names]
    rfl
  · rw [Lexeme.opens?_eq_none hcaptures]
    exact hs.sealedFrom (hfirst.sealedFrom h)

lemma lexBackslash_other {e : Char} (h : e ∉ ['k','A','z','b','B']) (cs : List Char) :
    lexBackslash f (e :: cs) = lexEscape f e cs := by
  simp only [List.mem_cons,List.not_mem_nil,or_false,not_or] at h
  obtain ⟨h1,h2,h3,h4,h5⟩ := h
  rw [lexBackslash]
  · exact fun _ h _ => h1 h
  · exact h1
  · exact h2
  · exact h3
  · exact h4
  · exact h5

lemma ofEscaped_sound (f : Flags) (e : Escaped) :
    (Lexeme.piece (.ofEscaped f e)).Sound named := by
  cases e with
  | char c => exact rfl
  | «class» s => exact rfl

lemma startsReference_eq (c : Char) : startsReference c = (c.isDigit && c != '0') := by
  have hne : c = '0' ↔ c.val.toNat = 48 := by
    constructor
    · rintro rfl
      rfl
    · intro h
      exact Char.ext (UInt32.toNat_inj.mp h)
  rw [Bool.eq_iff_iff]
  simp only [startsReference,Char.isDigit,Bool.and_eq_true,decide_eq_true_eq,bne_iff_ne,
    Char.le_def,UInt32.le_iff_toNat_le,ge_iff_le,ne_eq,hne]
  have h0 : '0'.val.toNat = 48 := rfl
  have h1 : '1'.val.toNat = 49 := rfl
  have h9 : '9'.val.toNat = 57 := rfl
  have h48 : (48 : UInt32).toNat = 48 := rfl
  have h57 : (57 : UInt32).toNat = 57 := rfl
  omega

/-- An escape for a character or a class. -/
lemma lexes_readEscape {e : Char} (hother : e ∉ ['k','A','z','b','B']) (hdigit : e.isDigit = false)
    (hfits : FitsFrom named d ('\\' :: e :: rest)) (h : lexEscape f e rest = .ok (x,rest')) :
    Lexes named d f pending '\\' (e :: rest) x rest' := by
  have hstarts : startsReference e = false := by rw [startsReference_eq,hdigit]; rfl
  rw [lexEscape,if_neg (by simp [hdigit])] at h
  obtain ⟨r,hr,heq⟩ := except_map_eq_ok.mp h
  obtain ⟨rfl,rfl⟩ := Prod.mk.inj heq
  obtain ⟨u,rfl,hu,hread⟩ := readEscape_wordy hr
  have hs : Skips named d (u ++ r.2) d r.2 :=
    ⟨u,rfl,.ordinaries (fun c hc => ⟨(hu c hc).ordinary,(hu c hc).paren⟩)⟩
  refine .of_escape hstarts hfits hs (fun _ => rfl) rfl (ofEscaped_sound f _) (fun _ _ _ => trivial) (fun o tail => ?_)
  obtain ⟨v,hv,hp⟩ := hs
  obtain rfl := List.append_cancel_right hv
  rw [lexBackslash_other hother,lexEscape,if_neg (by simp [hdigit]),hp.inGroup,hread]
  rfl

lemma isDigit_not_other {e : Char} (h : e.isDigit = true) : e ∉ ['k','A','z','b','B'] := by
  intro he
  simp only [List.mem_cons,List.not_mem_nil,or_false] at he
  rcases he with rfl | rfl | rfl | rfl | rfl
  · cases h
  · cases h
  · cases h
  · cases h
  · cases h

lemma no_digits {cs : List Char} (h : cs.head?.any Char.isDigit = false) :
    cs.takeWhile Char.isDigit = [] ∧ cs.dropWhile Char.isDigit = cs := by
  cases cs with
  | nil => exact ⟨rfl,rfl⟩
  | cons c cs =>
    have hc : ¬ c.isDigit = true := by simpa using h
    exact ⟨List.takeWhile_cons_of_neg hc,List.dropWhile_cons_of_neg hc⟩

lemma no_digit_dropWhile (cs : List Char) :
    (cs.dropWhile Char.isDigit).head?.any Char.isDigit = false := by
  have h := List.head?_dropWhile_not Char.isDigit cs
  cases hhead : (cs.dropWhile Char.isDigit).head? with
  | none => rfl
  | some c =>
    rw [hhead] at h
    exact h

lemma no_digits_inGroup {o : Nat} {tail cs : List Char} (h : cs.head?.any Char.isDigit = false) :
    (inGroup o tail cs).head?.any Char.isDigit = false := by
  rw [head?_inGroup]
  cases cs with
  | nil => rfl
  | cons c cs => exact h

/-- A reference to group zero, which is none. -/
lemma lexes_zero (hfits : FitsFrom named d ('\\' :: '0' :: rest))
    (h : lexEscape f '0' rest = .ok (x,rest')) : Lexes named d f pending '\\' ('0' :: rest) x rest' := by
  have hfirst := (fitsFrom_cons.mp hfits).1
  rw [nextToken_escape rfl (by decide)] at hfirst
  simp only [Token.fits,Bool.and_eq_true,Bool.not_eq_true',if_true] at hfirst
  obtain ⟨hnamed,hhead⟩ := hfirst
  have hstop : ∀ cs : List Char, cs.head?.any Char.isDigit = false →
      readDecimal? ('0' :: cs) = some (0,cs) := by
    intro cs hcs
    obtain ⟨htake,hdrop⟩ := no_digits hcs
    rw [readDecimal?_eq,List.takeWhile_cons_of_pos rfl,List.dropWhile_cons_of_pos rfl,htake,hdrop]
    rfl
  have hdigit : '0'.isDigit = true := rfl
  rw [lexEscape,if_pos hdigit,hstop rest hhead] at h
  obtain ⟨rfl,rfl⟩ := Prod.mk.inj (Except.ok.inj h)
  refine .of_escape rfl hfits (.refl rest) (fun _ => rfl) rfl hnamed (fun _ _ _ => trivial) (fun o tail => ?_)
  rw [lexBackslash_other (isDigit_not_other hdigit),lexEscape,if_pos hdigit,
    hstop _ (no_digits_inGroup hhead)]

lemma decimalValue_toString (m : Nat) : decimalValue (toString m).toList = m := by
  have hlist : (toString m).toList = Nat.toDigits 10 m := Nat.toList_repr
  rw [hlist]
  exact Nat.ofDigitChars_ten_toDigits

lemma isDigit_toString {m : Nat} {c : Char} (h : c ∈ (toString m).toList) : c.isDigit = true := by
  have hlist : (toString m).toList = Nat.toDigits 10 m := Nat.toList_repr
  rw [hlist] at h
  exact Nat.isDigit_of_mem_toDigits (by decide) (by decide) h

lemma toString_ne_nil (m : Nat) : (toString m).toList ≠ [] := by
  have hlist : (toString m).toList = Nat.toDigits 10 m := Nat.toList_repr
  rw [hlist]
  exact Nat.toDigits_ne_nil

lemma readDecimal?_toString {m : Nat} (hm : m < UInt64.size) {cs : List Char}
    (hcs : cs.head?.any Char.isDigit = false) :
    readDecimal? ((toString m).toList ++ cs) = some (m,cs) := by
  obtain ⟨htake,hdrop⟩ := no_digits hcs
  have hnot : ¬ ((toString m).toList.isEmpty ||
      UInt64.size ≤ decimalValue (toString m).toList) = true := by
    rw [decimalValue_toString]
    simp only [Bool.or_eq_true,decide_eq_true_eq,not_or,Nat.not_le,List.isEmpty_iff]
    exact ⟨toString_ne_nil m,hm⟩
  rw [readDecimal?_eq,List.takeWhile_append_of_pos (fun _ => isDigit_toString),
    List.dropWhile_append_of_pos (fun _ => isDigit_toString),htake,hdrop,List.append_nil,if_neg hnot,
    decimalValue_toString]

/-- The digits of a number after a backslash refer to the group of that number. -/
lemma lexBackslash_toString {m : Nat} (hm : m < UInt64.size) {cs : List Char}
    (hcs : cs.head?.any Char.isDigit = false) :
    lexBackslash f ((toString m).toList ++ cs) = .ok (.numberRef m,cs) := by
  have hdecimal := readDecimal?_toString hm hcs
  cases hdigits : (toString m).toList with
  | nil => exact absurd hdigits (toString_ne_nil m)
  | cons e ds =>
    rw [hdigits] at hdecimal
    have he : e.isDigit = true := isDigit_toString (by rw [hdigits]; exact List.mem_cons_self)
    rw [List.cons_append] at hdecimal ⊢
    rw [lexBackslash_other (isDigit_not_other he),lexEscape,if_pos he,hdecimal]

lemma decimalValue_ne_zero {e : Char} (h : startsReference e = true) (ds : List Char) :
    decimalValue (e :: ds) ≠ 0 := by
  have hvalue : decimalValue (e :: ds) = Nat.ofDigitChars 10 (e :: ds) 0 := rfl
  rw [hvalue,Nat.ofDigitChars_cons,Nat.ofDigitChars_eq_ofDigitChars_zero]
  have hpow : 0 < 10 ^ ds.length := Nat.pow_pos (by decide)
  have he : 0 < 10 * 0 + (e.toNat - '0'.toNat) := by
    simp only [startsReference,Bool.and_eq_true,decide_eq_true_eq,Char.le_def,
      UInt32.le_iff_toNat_le] at h
    have h0 : '0'.toNat = 48 := rfl
    have h1 : '1'.val.toNat = 49 := rfl
    have hval : e.toNat = e.val.toNat := rfl
    omega
  exact Nat.ne_of_gt (Nat.lt_of_lt_of_le (Nat.mul_pos hpow he) (Nat.le_add_right _ _))

/-- A reference by number has moved. -/
lemma lexes_reference {e : Char} (he : startsReference e = true)
    (hfits : FitsFrom named d ('\\' :: e :: rest)) (h : lexEscape f e rest = .ok (x,rest')) :
    Lexes named d f pending '\\' (e :: rest) x rest' := by
  have hdigit : e.isDigit = true := by
    rw [startsReference_eq,Bool.and_eq_true] at he
    exact he.1
  have hnext := nextToken_reference he rest
  have hfirst := fitsFrom_cons.mp hfits
  rw [hnext] at hfirst
  obtain ⟨hnamed,-,hrest⟩ := hfirst
  rw [lexEscape,if_pos hdigit] at h
  cases hdecimal : readDecimal? (e :: rest) with
  | none =>
    rw [hdecimal] at h
    cases h
  | some r =>
    rw [hdecimal] at h
    obtain ⟨rfl,rfl⟩ := Prod.mk.inj (Except.ok.inj h)
    obtain ⟨n,rest'⟩ := r
    obtain ⟨hvalue,hdrop,hlt⟩ := readDecimal?_eq_some hdecimal
    rw [List.takeWhile_cons_of_pos hdigit] at hvalue
    rw [List.dropWhile_cons_of_pos hdigit] at hdrop
    rw [← hdrop] at hnext hrest
    have hnonzero : n ≠ 0 := by
      rw [hvalue]
      exact decimalValue_ne_zero he _
    have hstop : rest'.head?.any Char.isDigit = false := by
      rw [hdrop]
      exact no_digit_dropWhile rest
    have hunnamed : named = false := by simpa [Token.fits] using hnamed
    refine ⟨fun o tail ho => ⟨(toString (n + o)).toList ++ inGroup o tail rest',?_,?_,?_⟩,?_,hrest,
      ?_,hunnamed,fun h => absurd h (by decide),?_,fun foreign own h => ?_⟩
    · have hn : digitsValue (e :: rest.takeWhile Char.isDigit) = n := hvalue.symm
      have hle : n ≤ maxReference := Nat.le_pred_of_lt hlt
      have hsum : (n + o) % UInt64.size = n + o := Nat.mod_eq_of_lt ho
      rw [inGroup_cons,hnext]
      simp only [Token.shifted,hn,if_pos hle,hsum]
      rfl
    · rw [Lexeme.shift,shiftGroup,if_neg hnonzero]
      exact lexBackslash_toString ho (no_digits_inGroup hstop)
    · rw [List.length_append]
      exact Nat.le_add_left _ _
    · rw [groupCount_cons,hnext]
      rfl
    · rw [hdrop]
      exact Nat.le_succ_of_le (List.dropWhile_sublist _).length_le
    · rw [groupNames_cons,hnext]
      rfl
    · rw [sealedFrom_cons,hnext] at h
      exact ⟨trivial,h.2⟩

/-- An escape is the same in a group, but for the number that it may refer to. -/
lemma lexes_backslash (hfits : FitsFrom named d ('\\' :: rest))
    (h : lexBackslash f rest = .ok (x,rest')) : Lexes named d f pending '\\' rest x rest' := by
  have hassert : ∀ (e : Char) (a : Assertion) (cs : List Char), rest = e :: cs →
      startsReference e = false → (∀ cs, lexBackslash f (e :: cs) = .ok (.piece (.ofAssertion a),cs)) →
        Lexes named d f pending '\\' rest x rest' := by
    rintro e a cs rfl he hlex
    rw [hlex] at h
    obtain ⟨rfl,rfl⟩ := Prod.mk.inj (Except.ok.inj h)
    exact .of_escape he hfits (.refl cs) (fun _ => rfl) rfl rfl (fun _ _ _ => trivial)
      (fun _ _ => hlex _)
  cases rest with
  | nil => cases h
  | cons e cs =>
    by_cases hother : e ∈ ['k','A','z','b','B']
    · simp only [List.mem_cons,List.not_mem_nil,or_false] at hother
      rcases hother with rfl | rfl | rfl | rfl | rfl
      · cases cs with
        | nil => cases h
        | cons b cs =>
          by_cases hb : b = '<'
          · subst hb
            have hfirst := (fitsFrom_cons.mp hfits).1
            rw [nextToken_escape rfl (by decide)] at hfirst
            have hnumeral : startsNumeral cs = false := by simpa [Token.fits] using hfirst
            obtain ⟨⟨name,rfl,hname⟩,hsound,hs,hlex⟩ := lexNameRef_inGroup isOrdinary_more.1 hnumeral h
            have hskips : Skips named d ('<' :: cs) d rest' :=
              ((Skips.cons isOrdinary_less _).trans (hs _ _)).trans (.cons isOrdinary_more _)
            refine .of_escape rfl hfits hskips (fun _ => rfl) rfl (hsound _) (fun foreign own hsealed => ?_)
              (fun o tail => ?_)
            · rw [sealedFrom_cons,nextToken_escape rfl (by decide)] at hsealed
              have hrefers : (Token.escape 'k').refers? ('<' :: cs) = some name :=
                congrArg (Option.map Prod.fst) hname
              exact stands_nameRef hrefers hsealed.1
            rw [inGroup_ordinary isOrdinary_less.1]
            exact hlex o tail
          · rw [lexBackslash] at h
            · cases h
            · intro _ heq
              exact hb (List.cons.inj heq).1
      · exact hassert _ .textStart cs rfl rfl (fun _ => rfl)
      · exact hassert _ .textEnd cs rfl rfl (fun _ => rfl)
      · exact hassert _ .wordBoundary cs rfl rfl (fun _ => rfl)
      · exact hassert _ .notWordBoundary cs rfl rfl (fun _ => rfl)
    · rw [lexBackslash_other hother] at h
      by_cases hdigit : e.isDigit = true
      · by_cases hzero : e = '0'
        · subst hzero
          exact lexes_zero hfits h
        · have he : startsReference e = true := by
            rw [startsReference_eq,hdigit]
            simpa using hzero
          exact lexes_reference he hfits h
      · exact lexes_readEscape hother (by simpa using hdigit) hfits h

end Backslash

/-- A set is the same in a group. -/
lemma lexes_set (hfits : FitsFrom named d ('[' :: rest)) (h : lexeme f pending '[' rest = .ok (x,rest')) :
    Lexes named d f pending '[' rest x rest' := by
  have hfirst := (fitsFrom_cons.mp hfits).1
  cases hbody : setBody? rest with
  | none =>
    simp [nextToken,hbody,Token.fits] at hfirst
  | some r =>
    obtain ⟨body,after⟩ := r
    obtain rfl := setBody?_text hbody
    rw [nextToken_set hbody] at hfirst
    simp only [Token.fits,Bool.and_eq_true,bne_iff_ne,Bool.not_eq_true',List.isEmpty_eq_false_iff]
      at hfirst
    obtain ⟨⟨hne,hcaret⟩,hbracket⟩ := hfirst
    simp only [lexeme] at h
    cases hset : readSet f.fold (body ++ ']' :: after) with
    | error e =>
      rw [hset] at h
      cases h
    | ok r =>
      obtain ⟨hrest,hall⟩ := readSet_body hset hbody hne hcaret hbracket
      rw [hset] at h
      obtain ⟨rfl,rfl⟩ := Prod.mk.inj (Except.ok.inj h)
      have hp : Passes named d ('[' :: body ++ [']']) d after := .set hbody
      have htext : '[' :: body ++ [']'] ++ after = '[' :: (body ++ ']' :: after) := by simp
      have hskips : Skips named d ('[' :: (body ++ ']' :: after)) d after := ⟨_,htext.symm,hp⟩
      rw [hrest]
      refine ⟨fun o tail _ => ⟨body ++ ']' :: inGroup o tail after,?_,?_,?_⟩,?_,hskips.fits hfits,?_,
        rfl,fun h => absurd h (by decide),hskips.names,
        fun foreign own h => ⟨trivial,hskips.sealedFrom h⟩⟩
      · rw [← htext,hp.inGroup]
        simp
      · simp only [lexeme,hall]
        rfl
      · simp
        omega
      · exact hskips.count
      · simp
        omega

lemma lexeme_char (h : c ∉ ['|',')','?','*','+','\x7b','(','\\','[','.','^','$'])
    (cs : List Char) : lexeme f pending c cs = .ok (.piece (.ofChar f c),cs) := by
  simp only [List.mem_cons,List.not_mem_nil,or_false,not_or] at h
  obtain ⟨h1,h2,h3,h4,h5,h6,h7,h8,h9,h10,h11,h12⟩ := h
  rw [lexeme]
  · rfl
  all_goals assumption

/-- An opening brace starts a repetition if bounds follow and there is a piece to repeat. -/
lemma lexes_brace (hx : f.extended = false) (hfits : FitsFrom named d ('\x7b' :: rest))
    (h : lexeme f pending '\x7b' rest = .ok (x,rest')) :
    Lexes named d f pending '\x7b' rest x rest' := by
  have hc : IsOrdinary '\x7b' := ⟨by decide,by decide,by decide⟩
  have hfirst : Skips named d ('\x7b' :: rest) d rest := .cons ⟨hc,by decide⟩ rest
  have hbounds : ∀ o tail, readBounds? false (inGroup o tail rest) =
      (readBounds? false rest).map (fun r => (r.1,r.2.1,inGroup o tail r.2.2)) :=
    fun _ _ => readBounds?_inGroup (hfirst.fits hfits)
  simp only [lexeme,hx] at h
  cases hread : readBounds? false rest with
  | none =>
    rw [hread] at h
    obtain ⟨rfl,rfl⟩ := Prod.mk.inj (Except.ok.inj h)
    refine .of_ordinary hc hfits (.refl rest) (fun _ => rfl) rfl (ofEscaped_sound f (.char _))
      (fun _ _ _ => trivial) (fun o tail => ?_)
    simp only [lexeme,hx,hbounds,hread]
    rfl
  | some r =>
    obtain ⟨least,most,after⟩ := r
    rw [hread] at h
    cases pending with
    | true =>
      refine lexes_lexRounds hx hc (by decide) hfits (skips_readBounds? (hfirst.fits hfits) hread) h
        (fun foreign own hsealed n hn => ?_) (fun o tail => ?_)
      · subst hn
        exact ascend_of_isSealed hread hsealed
      simp only [lexeme,hx,hbounds,hread]
      rfl
    | false =>
      obtain ⟨rfl,rfl⟩ := Prod.mk.inj (Except.ok.inj h)
      refine .of_ordinary hc hfits (.refl rest) (fun _ => rfl) rfl (ofEscaped_sound f (.char _))
        (fun _ _ _ => trivial) (fun o tail => ?_)
      simp only [lexeme,hx,hbounds,hread]
      rfl

/-- The reader finds the tokens of a text that fits also where the text is put into a group, and the
light scan goes over them. -/
theorem lexeme_lexes (hx : f.extended = false) (hfits : FitsFrom named d (c :: rest))
    (h : lexeme f pending c rest = .ok (x,rest')) : Lexes named d f pending c rest x rest' := by
  by_cases hspecial : c ∈ ['|',')','?','*','+','\x7b','(','\\','[','.','^','$']
  · have hpiece : ∀ p : Piece, IsOrdinary c → c ≠ ')' → (Lexeme.piece p).Sound named →
        (∀ cs, lexeme f pending c cs = .ok (.piece p,cs)) → Lexes named d f pending c rest x rest' := by
      intro p hc hclose hsound hlex
      rw [hlex] at h
      obtain ⟨rfl,rfl⟩ := Prod.mk.inj (Except.ok.inj h)
      exact .single hc hfits (if_neg hclose).symm (fun _ => rfl) rfl hsound (fun _ _ _ => trivial) hlex
    simp only [List.mem_cons,List.not_mem_nil,or_false] at hspecial
    rcases hspecial with rfl | rfl | rfl | rfl | rfl | rfl | rfl | rfl | rfl | rfl | rfl | rfl
    · obtain ⟨rfl,rfl⟩ := Prod.mk.inj (Except.ok.inj h)
      exact .single ⟨by decide,by decide,by decide⟩ hfits rfl (fun _ => rfl) rfl trivial (fun _ _ _ => trivial)
        (fun _ => rfl)
    · obtain ⟨rfl,rfl⟩ := Prod.mk.inj (Except.ok.inj h)
      exact .single ⟨by decide,by decide,by decide⟩ hfits rfl (fun _ => rfl) rfl trivial
        (fun _ _ => pos_of_isSealed) (fun _ => rfl)
    · exact lexes_lexRounds hx ⟨by decide,by decide,by decide⟩ (by decide) hfits (.refl rest) h
        (fun _ _ _ _ _ => Nat.zero_le _) (fun _ _ => rfl)
    · exact lexes_lexRounds hx ⟨by decide,by decide,by decide⟩ (by decide) hfits (.refl rest) h
        (fun _ _ _ _ => nofun) (fun _ _ => rfl)
    · exact lexes_lexRounds hx ⟨by decide,by decide,by decide⟩ (by decide) hfits (.refl rest) h
        (fun _ _ _ _ => nofun) (fun _ _ => rfl)
    · exact lexes_brace hx hfits h
    · exact lexes_group hx hfits h
    · exact lexes_backslash hfits h
    · exact lexes_set hfits h
    · exact hpiece (.ofSet (if f.dotAll then .any else .notNewline)) ⟨by decide,by decide,by decide⟩
        (by decide) rfl (fun _ => rfl)
    · exact hpiece (.ofAssertion (if f.multiline then .lineStart else .textStart))
        ⟨by decide,by decide,by decide⟩ (by decide) rfl (fun _ => rfl)
    · exact hpiece (.ofAssertion (if f.multiline then .lineEnd else .textEnd))
        ⟨by decide,by decide,by decide⟩ (by decide) rfl (fun _ => rfl)
  · have hc : IsOrdinary c ∧ c ≠ ')' := by
      refine ⟨⟨?_,?_,?_⟩,?_⟩
      · rintro rfl
        simp at hspecial
      · rintro rfl
        simp at hspecial
      · rintro rfl
        simp at hspecial
      · rintro rfl
        simp at hspecial
    rw [lexeme_char hspecial] at h
    obtain ⟨rfl,rfl⟩ := Prod.mk.inj (Except.ok.inj h)
    exact .single hc.1 hfits (if_neg hc.2).symm (fun _ => rfl) rfl (ofEscaped_sound f (.char c)) (fun _ _ _ => trivial)
      (lexeme_char hspecial)

end Highlight.Rules
