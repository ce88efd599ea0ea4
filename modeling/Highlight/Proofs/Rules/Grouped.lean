import Highlight.Proofs.Rules.Sealed

/-!
A text that was put into one more group, from some point on to the parenthesis that closes it. Readers
of single characters see the same of it as they see of the text alone.
-/
namespace Highlight.Rules

open Regex

/-- A text whose references have moved, and after it what follows the group around it. -/
def inGroup (o : Nat) (tail cs : List Char) : List Char := shiftChars o cs ++ ')' :: tail

variable {named : Bool} {d d' o : Nat} {c : Char} {tail cs rest u : List Char}

@[simp] lemma inGroup_nil : inGroup o tail [] = ')' :: tail := rfl

lemma inGroup_cons : inGroup o tail (c :: rest) =
    (nextToken c rest).1.shifted o ++ inGroup o tail (nextToken c rest).2 := by
  rw [inGroup,shiftChars_cons,List.append_assoc]
  rfl

lemma Passes.inGroup (h : Passes named d u d' rest) :
    inGroup o tail (u ++ rest) = u ++ inGroup o tail rest := by
  rw [Rules.inGroup,h.shift,List.append_assoc]
  rfl

lemma inGroup_ordinary (h : IsOrdinary c) : inGroup o tail (c :: rest) = c :: inGroup o tail rest := by
  rw [inGroup_cons,nextToken_ordinary h]
  rfl

lemma inGroup_special : inGroup o tail ('(' :: '?' :: rest) = '(' :: '?' :: inGroup o tail rest := by
  rw [inGroup_cons]
  rfl

lemma inGroup_group (h : rest.head? ≠ some '?') :
    inGroup o tail ('(' :: rest) = '(' :: inGroup o tail rest := by
  rw [inGroup_cons,nextToken_group h]
  rfl

/-- No token loses its first character. -/
lemma exists_inGroup_cons (o : Nat) (tail : List Char) (c : Char) (rest : List Char) :
    ∃ rest', inGroup o tail (c :: rest) = c :: rest' := by
  have hhead : ∃ u, (nextToken c rest).1.shifted o = c :: u := by
    unfold nextToken
    split
    · split
      · exact ⟨_,rfl⟩
      · exact ⟨[],rfl⟩
    · exact ⟨['?'],rfl⟩
    · exact ⟨[],rfl⟩
    · split
      · simp only [Token.shifted]
        split
        · exact ⟨_,rfl⟩
        · exact ⟨_,rfl⟩
      · split
        · exact ⟨[],rfl⟩
        · exact ⟨_,rfl⟩
    · exact ⟨[],rfl⟩
  obtain ⟨u,hu⟩ := hhead
  exact ⟨u ++ inGroup o tail (nextToken c rest).2,by rw [inGroup_cons,hu]; rfl⟩

lemma head?_inGroup : (inGroup o tail cs).head? = some (cs.head?.getD ')') := by
  cases cs with
  | nil => rfl
  | cons c rest =>
    obtain ⟨rest',h⟩ := exists_inGroup_cons o tail c rest
    rw [h]
    rfl

/-- A character that is no closing parenthesis starts the text if it starts it in the group. -/
lemma head?_of_inGroup (hc : c ≠ ')') (h : (inGroup o tail cs).head? = some c) :
    cs.head? = some c := by
  rw [head?_inGroup] at h
  cases cs with
  | nil => exact absurd (Option.some.inj h).symm hc
  | cons a rest => exact h

/-- Characters that mean nothing to the light scan and close no group. -/
structure Spares (p : Char → Bool) : Prop where
  bracket : p '[' = false
  paren : p '(' = false
  backslash : p '\\' = false
  closing : p ')' = false

namespace Spares

variable {p : Char → Bool}

lemma ordinary (hp : Spares p) (h : p c = true) : IsOrdinary c ∧ c ≠ ')' := by
  refine ⟨⟨?_,?_,?_⟩,?_⟩
  · rintro rfl
    exact Bool.noConfusion (hp.bracket.symm.trans h)
  · rintro rfl
    exact Bool.noConfusion (hp.paren.symm.trans h)
  · rintro rfl
    exact Bool.noConfusion (hp.backslash.symm.trans h)
  · rintro rfl
    exact Bool.noConfusion (hp.closing.symm.trans h)

lemma takeWhile_inGroup (hp : Spares p) : (inGroup o tail cs).takeWhile p = cs.takeWhile p := by
  induction cs with
  | nil => simp [hp.closing]
  | cons c rest ih =>
    by_cases hc : p c = true
    · rw [inGroup_ordinary (hp.ordinary hc).1,List.takeWhile_cons_of_pos hc,
        List.takeWhile_cons_of_pos hc,ih]
    · obtain ⟨rest',h⟩ := exists_inGroup_cons o tail c rest
      rw [h,List.takeWhile_cons_of_neg hc,List.takeWhile_cons_of_neg hc]

lemma dropWhile_inGroup (hp : Spares p) :
    (inGroup o tail cs).dropWhile p = inGroup o tail (cs.dropWhile p) := by
  induction cs with
  | nil => simp [hp.closing]
  | cons c rest ih =>
    by_cases hc : p c = true
    · rw [inGroup_ordinary (hp.ordinary hc).1,List.dropWhile_cons_of_pos hc,
        List.dropWhile_cons_of_pos hc,ih]
    · obtain ⟨rest',h⟩ := exists_inGroup_cons o tail c rest
      rw [List.dropWhile_cons_of_neg hc,h,List.dropWhile_cons_of_neg hc]

lemma passes_takeWhile (hp : Spares p) :
    Passes named d (cs.takeWhile p) d (cs.dropWhile p) :=
  .ordinaries (fun c hc => hp.ordinary (List.all_eq_true.mp List.all_takeWhile c hc))

end Spares

lemma spares_isDigit : Spares Char.isDigit := ⟨rfl,rfl,rfl,rfl⟩
lemma spares_isNameChar : Spares Text.isNameChar := ⟨rfl,rfl,rfl,rfl⟩
lemma spares_isFlagChar : Spares isFlagChar := ⟨rfl,rfl,rfl,rfl⟩

/-- No comment starts here. -/
def NoComment (cs : List Char) : Prop := ¬ ['(','?','#'] <+: cs

lemma skipBlanks_eq (h : NoComment cs) : skipBlanks false cs = .ok cs := by
  unfold skipBlanks
  cases cs with
  | nil => rfl
  | cons c rest =>
    simp only [List.length_cons,skipBlanksWithin]
    split
    · rename_i heq
      exact absurd ⟨_,heq.symm⟩ h
    · simp
    · rename_i heq
      obtain ⟨rfl,rfl⟩ := List.cons.inj heq
      simp
    · contradiction

lemma noComment_of_head (h : cs.head? ≠ some '(') : NoComment cs := by
  rintro ⟨rest,rfl⟩
  exact h rfl

lemma head?_of_fits_special (h : FitsFrom named d ('(' :: '?' :: rest)) : rest.head? ≠ some '#' := by
  have hfits := (fitsFrom_cons.mp h).1
  rw [nextToken_special] at hfits
  simp only [Token.fits,Bool.and_eq_true,bne_iff_ne] at hfits
  exact hfits.1.1.1.2

lemma FitsFrom.noComment (h : FitsFrom named d cs) : NoComment cs := by
  rintro ⟨rest,rfl⟩
  exact head?_of_fits_special h rfl

/-- Nor does one start where the text stands in the group. -/
lemma FitsFrom.noComment_inGroup (h : FitsFrom named d cs) : NoComment (inGroup o tail cs) := by
  rintro ⟨rest,hrest⟩
  have hhead : cs.head? = some '(' := head?_of_inGroup (by decide) (by rw [← hrest]; rfl)
  obtain ⟨cs,rfl⟩ := List.head?_eq_some_iff.mp hhead
  by_cases hq : cs.head? = some '?'
  · obtain ⟨cs,rfl⟩ := List.head?_eq_some_iff.mp hq
    rw [inGroup_special] at hrest
    have heq : '#' :: rest = inGroup o tail cs := by simpa using hrest
    exact head?_of_fits_special h (head?_of_inGroup (by decide) (by rw [← heq]; rfl))
  · rw [inGroup_group hq] at hrest
    have heq : '?' :: '#' :: rest = inGroup o tail cs := by simpa using hrest
    exact hq (head?_of_inGroup (by decide) (by rw [← heq]; rfl))

end Highlight.Rules
