import Highlight.Proofs.Text.Blanks
import Highlight.Proofs.Text.LowerCase

/-!
Words of a text in lower case. The form of a sigma depends on the letters around it, but the search for them
stops at white space and at bars, so what stands between two of these is put in lower case as it would be alone.
-/
namespace Highlight.Text

/-- The code points that characters become if they change, and that which stands for a number that is none. -/
def formed : List Nat :=
  ['\x00','i','\u0307','σ','ς'].map Char.toNat ++ (List.range 26).map ('a'.toNat + ·) ++
    lowerRuns.flatMap ShiftRun.images

/-- A character that stays as it is, and that no other one becomes. -/
def Steady (c : Char) : Prop := Settled c ∧ c.toNat ∉ formed

variable {before after rest bs cs ds : List Char} {c d : Char} {p : Char → Bool}

lemma toLower_capital : ∀ n ≤ 90, 65 ≤ n → (Char.ofNat n).toLower.toNat ∈ formed := by decide

lemma shiftBy_formed (c : Char) : shiftBy lowerRuns c = c ∨ (shiftBy lowerRuns c).toNat ∈ formed := by
  rcases shiftBy_cases count_pos c with ⟨hsame,-⟩ | himage
  · exact .inl hsame
  · right
    rcases List.mem_cons.mp himage with hzero | himage
    · exact List.mem_append_left _ (List.mem_append_left _ (hzero ▸ List.mem_cons_self))
    · exact List.mem_append_right _ himage

lemma mem_lowerChar (h : d ∈ lowerChar before c after) : d = c ∨ d.toNat ∈ formed := by
  have hfixed : ∀ d ∈ ['\x00','i','\u0307','σ','ς'], d.toNat ∈ formed := fun d hd =>
    List.mem_append_left _ (List.mem_append_left _ (List.mem_map_of_mem hd))
  rw [lowerChar] at h
  split at h
  · rw [List.mem_singleton.mp h]
    by_cases hcapital : 65 ≤ c.toNat ∧ c.toNat ≤ 90
    · right
      rw [← c.ofNat_toNat]
      exact toLower_capital c.toNat hcapital.2 hcapital.1
    · exact .inl (dif_neg (by simpa [UInt32.le_iff_toNat_le] using hcapital))
  · split at h
    · refine .inr (hfixed d ?_)
      rw [List.mem_singleton] at h
      split at h <;> simp [h]
    · split at h
      · have hsub : ∀ d ∈ ['i','\u0307'], d ∈ ['\x00','i','\u0307','σ','ς'] := by simp
        exact .inr (hfixed d (hsub d h))
      · rw [List.mem_singleton.mp h]
        exact shiftBy_formed c

lemma lowerChar_ne_nil (before : List Char) (c : Char) (after : List Char) : lowerChar before c after ≠ [] := by
  rw [lowerChar]
  split
  · exact List.cons_ne_nil _ _
  · split
    · exact List.cons_ne_nil _ _
    · split <;> exact List.cons_ne_nil _ _

/-- What holds of a character if and only if it holds of what the character becomes. -/
def Kept (p : Char → Bool) : Prop := ∀ before c after, ∀ d ∈ lowerChar before c after, p d = p c

lemma kept_of_steady (hp : ∀ c, p c = true → Steady c) : Kept p := by
  intro before c after d h
  rcases mem_lowerChar h with rfl | hformed
  · rfl
  have hd : p d = false := Bool.eq_false_iff.mpr fun hd => (hp d hd).2 hformed
  have hc : p c = false := by
    refine Bool.eq_false_iff.mpr fun hc => ?_
    rw [lowerChar_of_settled (hp c hc).1,List.mem_singleton] at h
    rw [h,hc] at hd
    cases hd
  rw [hd,hc]

lemma Kept.not (hp : Kept p) : Kept fun c => !p c := fun before c after d h => congrArg Bool.not (hp before c after d h)

lemma Kept.all_lowerAfter (hp : Kept p) (before cs : List Char) : (lowerAfter before cs).all p = cs.all p := by
  induction cs generalizing before with
  | nil => rfl
  | cons c cs ih =>
    have hc : (lowerChar before c cs).all p = p c := by
      obtain ⟨d,ds,hds⟩ := List.exists_cons_of_ne_nil (lowerChar_ne_nil before c cs)
      have hsame : ∀ e ∈ d :: ds, p e = p c := fun e he => hp before c cs e (hds ▸ he)
      rw [hds,Bool.eq_iff_iff,List.all_eq_true]
      exact ⟨fun h => hsame d List.mem_cons_self ▸ h d List.mem_cons_self,fun h e he => (hsame e he).trans h⟩
    rw [lowerAfter,List.all_append,List.all_cons,hc,ih]

/-! White space and the bar divide declared words, digits and the plus sign make up their scores. -/
section Points

/-- The code points of white space. -/
def blankPoints : List Nat := [9,10,11,12,13,32] ++ wideBlanks

def steadyPoints : List Nat := blankPoints ++ ['|','+'].map Char.toNat ++ (List.range 10).map ('0'.toNat + ·)

lemma mask_steadyPoints : mask steadyPoints &&& mask moved = 0 ∧ mask steadyPoints &&& mask formed = 0 := by
  decide +kernel

lemma steady_of_mem (h : c.toNat ∈ steadyPoints) : Steady c :=
  ⟨not_mem_of_mask mask_steadyPoints.1 h,not_mem_of_mask mask_steadyPoints.2 h⟩

lemma mem_blankPoints (h : isSpace c = true) : c.toNat ∈ blankPoints := by
  simp only [isSpace,Bool.or_eq_true,Bool.and_eq_true,decide_eq_true_eq,beq_iff_eq] at h
  simp only [blankPoints,wideBlanks,List.cons_append,List.nil_append,List.mem_cons,List.not_mem_nil,or_false]
  omega

/-- What stands between declared words, and between such a word and its score. -/
def isDivider (c : Char) : Bool := isSpace c || c == '|'

def isScoreChar (c : Char) : Bool := c.isDigit || c == '+'

lemma mem_dividerPoints (h : isDivider c = true) : c.toNat ∈ '|'.toNat :: blankPoints := by
  rcases Bool.or_eq_true_iff.mp h with h | h
  · exact List.mem_cons_of_mem _ (mem_blankPoints h)
  · rw [beq_iff_eq.mp h]
    exact List.mem_cons_self

lemma steady_of_isDivider (c : Char) (h : isDivider c = true) : Steady c := by
  refine steady_of_mem (List.mem_append_left _ ?_)
  rcases List.mem_cons.mp (mem_dividerPoints h) with h | h
  · rw [h]
    exact List.mem_append_right _ List.mem_cons_self
  · exact List.mem_append_left _ h

lemma steady_of_isScoreChar (c : Char) (h : isScoreChar c = true) : Steady c := by
  refine steady_of_mem ?_
  rcases Bool.or_eq_true_iff.mp h with h | h
  · obtain ⟨hleast,hmost⟩ : 48 ≤ c.toNat ∧ c.toNat ≤ 57 := by
      simpa [Char.isDigit,UInt32.le_iff_toNat_le] using h
    refine List.mem_append_right _ (List.mem_map.mpr ⟨c.toNat - 48,List.mem_range.mpr (by omega),?_⟩)
    exact Nat.add_sub_cancel' hleast
  · rw [beq_iff_eq.mp h]
    decide

/-- The breakpoints that characters write leave the dividers out. -/
def AvoidsDividers (cs : List Char) : Prop :=
  (numbersOf cs).length < UInt32.size ∧
    ∀ n ∈ '|'.toNat :: blankPoints, (totalsFrom 0 (numbersOf cs)).countP (· ≤ n) % 2 = 0

instance (cs : List Char) : Decidable (AvoidsDividers cs) := inferInstanceAs (Decidable (_ ∧ _))

lemma contains_of_isDivider {text : String} (htext : ∃ cs, text.toList = cs ∧ AvoidsDividers cs)
    (hc : isDivider c = true) : (PointSet.ofText text).contains c = false := by
  obtain ⟨cs,hcs,hsize,havoids⟩ := htext
  have hnumbers : numbers text = numbersOf cs := by
    rw [← hcs]
    rfl
  rw [PointSet.contains_ofText (hnumbers ▸ hsize),hnumbers,havoids _ (mem_dividerPoints hc)]
  rfl

lemma caseIgnorable_of_isDivider (hc : isDivider c = true) : caseIgnorable.contains c = false := by
  rw [caseIgnorable]
  refine contains_of_isDivider ?_ hc
  apply exists_of_spelled
  · repeat apply Spelled.cons
    exact spelled_nil
  · decide +kernel

lemma cased_of_isDivider (hc : isDivider c = true) : cased.contains c = false := by
  rw [cased]
  refine contains_of_isDivider ?_ hc
  apply exists_of_spelled
  · repeat apply Spelled.cons
    exact spelled_nil
  · decide +kernel

end Points

/-! What is not next to a character but for a divider does not matter to it. -/
section Parts

/-- A text that is at its end, or that goes on with a divider. -/
def Divides (cs : List Char) : Prop := cs.head?.all isDivider = true

lemma meetsCased_append (h : Divides rest) : meetsCased (cs ++ rest) = meetsCased cs := by
  induction cs with
  | nil =>
    cases rest with
    | nil => rfl
    | cons c rest =>
      have hc : isDivider c = true := h
      simp [meetsCased,caseIgnorable_of_isDivider hc,cased_of_isDivider hc]
  | cons c cs ih => rw [List.cons_append,meetsCased,meetsCased,ih]

lemma lowerAfter_append_before (h : Divides bs) (before cs : List Char) :
    lowerAfter (before ++ bs) cs = lowerAfter before cs := by
  induction cs generalizing before with
  | nil => rfl
  | cons c cs ih =>
    have hchar : lowerChar (before ++ bs) c cs = lowerChar before c cs := by
      simp only [lowerChar,meetsCased_append h]
    rw [lowerAfter,lowerAfter,hchar,← List.cons_append,ih]

lemma lowerAfter_append (h : Divides rest) (before cs : List Char) :
    lowerAfter before (cs ++ rest) = lowerAfter before cs ++ lowerAfter (cs.reverse ++ before) rest := by
  induction cs generalizing before with
  | nil => rfl
  | cons c cs ih =>
    have hchar : lowerChar before c (cs ++ rest) = lowerChar before c cs := by
      simp only [lowerChar,meetsCased_append h]
    rw [List.cons_append,lowerAfter,lowerAfter,hchar,ih,List.append_assoc,List.reverse_cons,List.append_assoc,
      List.singleton_append]

/-- A divider parts a text into two that are put in lower case one by one. -/
lemma lowerAfter_divided (h : isDivider d = true) :
    lowerAfter before (cs ++ d :: rest) = lowerAfter before cs ++ d :: lowerAfter [] rest := by
  have hafter : Divides (d :: rest) := h
  have hbefore : Divides (d :: (cs.reverse ++ before)) := h
  have hrest := lowerAfter_append_before hbefore [] rest
  rw [lowerAfter_append hafter,lowerAfter,lowerChar_of_settled (steady_of_isDivider d h).1,List.singleton_append,
    ← hrest,List.nil_append]

/-- The first divider of a kind, or none in the whole text. -/
lemma exists_part (p : Char → Bool) (cs : List Char) : (cs.all (fun c => !p c) = true) ∨
    ∃ word d rest, cs = word ++ d :: rest ∧ word.all (fun c => !p c) = true ∧ p d = true := by
  cases hfind : cs.find? p with
  | none => exact .inl (List.all_eq_true.mpr fun c hc => by simpa using List.find?_eq_none.mp hfind c hc)
  | some d =>
    obtain ⟨hd,word,rest,rfl,hword⟩ := List.find?_eq_some_iff_append.mp hfind
    exact .inr ⟨word,d,rest,rfl,List.all_eq_true.mpr hword,hd⟩

lemma takeWhile_part (rest : List Char) (hword : cs.all (fun c => !p c) = true) (hd : p d = true) :
    (cs ++ d :: rest).takeWhile (fun c => !p c) = cs ∧ (cs ++ d :: rest).dropWhile (fun c => !p c) = d :: rest := by
  have hstop : ¬ (!p d) = true := by simp [hd]
  have htake : (d :: rest).takeWhile (fun c => !p c) = [] := List.takeWhile_cons_of_neg hstop
  have hdrop : (d :: rest).dropWhile (fun c => !p c) = d :: rest := List.dropWhile_cons_of_neg hstop
  have hall := List.all_eq_true.mp hword
  rw [List.takeWhile_append_of_pos hall,List.dropWhile_append_of_pos hall,htake,hdrop,List.append_nil]
  exact ⟨rfl,rfl⟩

/-- The parts before and after the first divider of a kind. -/
lemma lowerAfter_parts (hp : ∀ c, p c = true → isDivider c = true) (cs : List Char) :
    (lowerAfter [] cs).takeWhile (fun c => !p c) = lowerAfter [] (cs.takeWhile fun c => !p c) ∧
      ((lowerAfter [] cs).dropWhile fun c => !p c).tail = lowerAfter [] (cs.dropWhile fun c => !p c).tail := by
  have hkept : Kept fun c => !p c := (kept_of_steady fun c hc => steady_of_isDivider c (hp c hc)).not
  rcases exists_part p cs with hall | ⟨word,d,rest,rfl,hword,hd⟩
  · have hlower := (hkept.all_lowerAfter [] cs).trans hall
    have hnone : ∀ {cs : List Char}, cs.all (fun c => !p c) = true →
        cs.takeWhile (fun c => !p c) = cs ∧ cs.dropWhile (fun c => !p c) = [] := by
      intro cs hcs
      exact ⟨List.takeWhile_eq_self_iff.mpr (List.all_eq_true.mp hcs),
        List.dropWhile_eq_nil_iff.mpr (List.all_eq_true.mp hcs)⟩
    rw [(hnone hall).1,(hnone hall).2,(hnone hlower).1,(hnone hlower).2]
    exact ⟨rfl,rfl⟩
  · have hlower := (hkept.all_lowerAfter [] word).trans hword
    obtain ⟨htake,hdrop⟩ := takeWhile_part rest hword hd
    obtain ⟨htake',hdrop'⟩ := takeWhile_part (lowerAfter [] rest) hlower hd
    rw [lowerAfter_divided (hp d hd),htake,hdrop,htake',hdrop']
    exact ⟨rfl,rfl⟩

end Parts

section Words

lemma lowerAfter_eq_nil_iff : lowerAfter before cs = [] ↔ cs = [] := by
  cases cs with
  | nil => exact ⟨fun _ => rfl,fun _ => rfl⟩
  | cons c cs => simp [lowerAfter,lowerChar_ne_nil]

lemma toList_lower (text : String) : (lower text).toList = lowerAfter [] text.toList := String.toList_ofList

lemma lower_ofList (cs : List Char) : lower (.ofList cs) = .ofList (lowerAfter [] cs) := by
  rw [lower,String.toList_ofList]

lemma isDivider_of_isSpace (h : isSpace c = true) : isDivider c = true := by rw [isDivider,h,Bool.true_or]

lemma kept_isSpace : Kept isSpace := kept_of_steady fun c h => steady_of_isDivider c (isDivider_of_isSpace h)

lemma words_go_append (h : cs.all (fun c => !isSpace c) = true) (word rest : List Char) :
    words.go word (cs ++ rest) = words.go (cs.reverse ++ word) rest := by
  induction cs generalizing word with
  | nil => rfl
  | cons c cs ih =>
    obtain ⟨hc,hcs⟩ := Bool.and_eq_true_iff.mp (List.all_cons ▸ h)
    rw [List.cons_append,words.go,if_neg (by simpa using hc),ih hcs,List.reverse_cons,List.append_assoc,
      List.singleton_append]

lemma words_flush_lower (word : List Char) (ws : List String) :
    words.flush (lowerAfter [] word).reverse (ws.map lower) = (words.flush word.reverse ws).map lower := by
  rw [words.flush,words.flush,List.isEmpty_reverse,List.isEmpty_reverse,List.reverse_reverse,List.reverse_reverse]
  by_cases hword : word = []
  · subst hword
    rfl
  · have hlower : lowerAfter [] word ≠ [] := fun h => hword (lowerAfter_eq_nil_iff.mp h)
    rw [if_neg (by simpa using hlower),if_neg (by simpa using hword),List.map_cons,lower_ofList]

/-- Words may be put in lower case one by one. -/
theorem words_lower (text : String) : words (lower text) = (words text).map lower := by
  rw [words,words,toList_lower]
  generalize hlength : text.toList.length = n
  generalize text.toList = cs at hlength
  induction n using Nat.strong_induction_on generalizing cs with
  | _ n ih =>
    -- The text is parted at its first blank.
    rcases exists_part isSpace cs with hcs | ⟨word,d,rest,rfl,hword,hd⟩
    · have hlower : (lowerAfter [] cs).all (fun c => !isSpace c) = true := (kept_isSpace.not.all_lowerAfter [] cs).trans hcs
      have hleft := words_go_append hlower [] []
      have hright := words_go_append hcs [] []
      rw [List.append_nil,List.append_nil] at hleft hright
      rw [hleft,hright]
      exact words_flush_lower cs []
    · have hlower : (lowerAfter [] word).all (fun c => !isSpace c) = true :=
        (kept_isSpace.not.all_lowerAfter [] word).trans hword
      have hrest : rest.length < n := by
        rw [← hlength,List.length_append,List.length_cons]
        omega
      rw [lowerAfter_divided (isDivider_of_isSpace hd),words_go_append hlower,words_go_append hword,words.go,
        words.go,if_pos hd,if_pos hd,ih rest.length hrest rest rfl,List.append_nil,List.append_nil]
      exact words_flush_lower word _

end Words

end Highlight.Text
