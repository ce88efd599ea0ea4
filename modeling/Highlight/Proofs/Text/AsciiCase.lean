import Highlight.Proofs.Text.LowerCase
import Highlight.Proofs.Text.Points
import Highlight.Text.CaseFold
import Highlight.Text.LowerCase
import Highlight.Text.Property
import Highlight.Text.Source
import Mathlib.Tactic.Lemma

/-!
The case of ASCII letters. With small letters for the capitals among the first 128 characters, a text has
the same words, digits and blanks in the same places, takes as many bytes, agrees with the same characters
but for case, and has the same lower-case form. All characters that agree with a small letter fold to it, and
apart from `k` and `s` no letter has others than its capital.
-/
namespace Highlight

lemma String.toList_toLower (a : String) : a.toLower.toList = a.toList.map Char.toLower := String.toList_map

namespace Text

variable {α : Type}

/-- What is the same for a capital and its small letter is so for each character and that which stands for
it. -/
lemma apply_toLower (f : Char → α)
    (h : ∀ n ≤ 90, 65 ≤ n → f (Char.ofNat n).toLower = f (Char.ofNat n)) (c : Char) : f c.toLower = f c := by
  by_cases hcapital : 65 ≤ c.toNat ∧ c.toNat ≤ 90
  · rw [← c.ofNat_toNat]
    exact h c.toNat hcapital.2 hcapital.1
  · have hsame : c.toLower = c := dif_neg (by simpa [UInt32.le_iff_toNat_le] using hcapital)
    rw [hsame]

@[simp] lemma isWord_toLower (c : Char) : isWord c.toLower = isWord c := apply_toLower _ (by decide) c

@[simp] lemma isDigit_toLower (c : Char) : isDigit c.toLower = isDigit c := apply_toLower _ (by decide) c

@[simp] lemma isSpace_toLower (c : Char) : isSpace c.toLower = isSpace c := apply_toLower _ (by decide) c

/-- A capital and its small letter have the same representative. -/
lemma simpleFold_letter : ∀ n ≤ 90, 65 ≤ n →
    ((Char.ofNat n).toNat < 128 && !(Char.ofNat n).isAlpha) = false ∧
      ((Char.ofNat n).toLower.toNat < 128 && !(Char.ofNat n).toLower.isAlpha) = false ∧
      simpleFold (Char.ofNat n).toLower = simpleFold (Char.ofNat n) := by
  decide

lemma orbit_toLower (c : Char) : orbit c.toLower = orbit c := by
  refine apply_toLower _ (fun n hn hn' => ?_) c
  obtain ⟨hcapital,hsmall,hfold⟩ := simpleFold_letter n hn hn'
  rw [orbit,orbit,hcapital,hsmall,hfold,if_neg Bool.false_ne_true,if_neg Bool.false_ne_true]

@[simp] lemma utf8Size_toLower (c : Char) : c.toLower.utf8Size = c.utf8Size := apply_toLower _ (by decide) c

@[simp] lemma toLower_toLower (c : Char) : c.toLower.toLower = c.toLower := apply_toLower _ (by decide) c

/-- A character that is not a letter stands for no other one. -/
lemma toLower_eq_iff {d : Char} (hd : ∀ n ≤ 90, 65 ≤ n → (Char.ofNat n ≠ d ∧ (Char.ofNat n).toLower ≠ d))
    (c : Char) : c.toLower = d ↔ c = d := by
  have h : decide (c.toLower = d) = decide (c = d) := by
    refine apply_toLower (fun c => decide (c = d)) (fun n hn hn' => ?_) c
    rw [decide_eq_false (hd n hn hn').1,decide_eq_false (hd n hn hn').2]
  exact decide_eq_decide.mp h

@[simp] lemma toLower_eq_newline (c : Char) : c.toLower = '\n' ↔ c = '\n' := toLower_eq_iff (by decide) c

@[simp] lemma toLower_eq_dot (c : Char) : c.toLower = '.' ↔ c = '.' := toLower_eq_iff (by decide) c

lemma caseIgnorable_of_lt {c : Char} (hc : c.toNat < 128) :
    caseIgnorable.contains c = ([39,40,46,47,58,59,94,95,96,97].countP (· ≤ c.toNat) % 2 == 1) := by
  rw [caseIgnorable]
  apply PointSet.contains_of_lt hc
  · repeat apply Spelled.cons
    exact spelled_nil
  · decide +kernel

lemma cased_of_lt {c : Char} (hc : c.toNat < 128) :
    cased.contains c = ([65,91,97,123].countP (· ≤ c.toNat) % 2 == 1) := by
  rw [cased]
  apply PointSet.contains_of_lt hc
  · repeat apply Spelled.cons
    exact spelled_nil
  · decide +kernel

lemma toNat_letter_lt : ∀ n ≤ 90, 65 ≤ n → (Char.ofNat n).toNat < 128 ∧ (Char.ofNat n).toLower.toNat < 128 := by
  decide

lemma caseIgnorable_toLower (c : Char) : caseIgnorable.contains c.toLower = caseIgnorable.contains c := by
  refine apply_toLower _ (fun n hn hn' => ?_) c
  rw [caseIgnorable_of_lt (toNat_letter_lt n hn hn').1,caseIgnorable_of_lt (toNat_letter_lt n hn hn').2]
  revert n
  decide

lemma cased_toLower (c : Char) : cased.contains c.toLower = cased.contains c := by
  refine apply_toLower _ (fun n hn hn' => ?_) c
  rw [cased_of_lt (toNat_letter_lt n hn hn').1,cased_of_lt (toNat_letter_lt n hn hn').2]
  revert n
  decide

section Lower

variable {before after cs : List Char}

lemma meetsCased_toLower (cs : List Char) : meetsCased (cs.map Char.toLower) = meetsCased cs := by
  induction cs with
  | nil => rfl
  | cons c cs ih => rw [List.map_cons,meetsCased,meetsCased,caseIgnorable_toLower,cased_toLower,ih]

lemma lowerChar_toLower (before after : List Char) (c : Char) :
    lowerChar (before.map Char.toLower) c.toLower (after.map Char.toLower) = lowerChar before c after := by
  have hcontext : lowerChar (before.map Char.toLower) c.toLower (after.map Char.toLower) =
      lowerChar before c.toLower after := by
    simp only [lowerChar,meetsCased_toLower]
  rw [hcontext]
  refine apply_toLower (fun c => lowerChar before c after) (fun n hn hn' => ?_) c
  rw [lowerChar,lowerChar,if_pos (toNat_letter_lt n hn hn').1,if_pos (toNat_letter_lt n hn hn').2,
    toLower_toLower]

lemma lowerAfter_toLower (before cs : List Char) :
    lowerAfter (before.map Char.toLower) (cs.map Char.toLower) = lowerAfter before cs := by
  induction cs generalizing before with
  | nil => rfl
  | cons c cs ih => rw [List.map_cons,lowerAfter,lowerAfter,lowerChar_toLower,← List.map_cons,ih]

/-- The lower-case form of a text is that of the text with small ASCII letters. -/
theorem lower_toLower (text : String) : lower text.toLower = lower text := by
  rw [lower,String.toList_toLower]
  exact congrArg String.ofList (lowerAfter_toLower [] text.toList)

end Lower

end Text

section Strings

lemma String.toLower_ofList (cs : List Char) :
    (String.ofList cs).toLower = String.ofList (cs.map Char.toLower) := by
  rw [← String.toList_inj,String.toList_toLower,String.toList_ofList,String.toList_ofList]

lemma String.toLower_empty : "".toLower = "" := by
  rw [← String.toList_inj,String.toList_toLower,String.toList_empty,List.map_nil]

lemma String.toLower_singleton (c : Char) : (String.singleton c).toLower = String.singleton c.toLower := by
  rw [← String.toList_inj,String.toList_toLower,String.toList_singleton,String.toList_singleton,
    List.map_singleton]

lemma String.toLower_append (a b : String) : (a ++ b).toLower = a.toLower ++ b.toLower := by
  rw [← String.toList_inj]
  simp [String.toList_toLower]

lemma String.isEmpty_toLower (a : String) : a.toLower.isEmpty = a.isEmpty := by
  rw [Bool.eq_iff_iff,String.isEmpty_iff,String.isEmpty_iff,← String.toList_inj,← String.toList_inj,
    String.toList_toLower,String.toList_empty,List.map_eq_nil_iff]

end Strings

namespace Source

/-- The text with small letters for its ASCII capitals. -/
def toLower (t : Source) : Source := t.map Char.toLower

variable (t : Source)

@[simp] lemma size_toLower : t.toLower.size = t.size := Array.size_map

@[simp] lemma getElem?_toLower (i : Nat) : t.toLower[i]? = t[i]?.map Char.toLower := Array.getElem?_map

@[simp] lemma ofString_toLower (text : String) : (ofString text.toLower) = (ofString text).toLower := by
  simp [ofString,toLower,String.toList_toLower]

lemma extract_toLower (start stop : Nat) : t.toLower.extract start stop = toLower (t.extract start stop) :=
  Array.map_extract.symm

@[simp] lemma slice_toLower (start stop : Nat) : t.toLower.slice start stop = (t.slice start stop).toLower := by
  rw [slice,slice,extract_toLower,toLower,Array.toList_map,String.toLower_ofList]

@[simp] lemma byteOffset_toLower (position : Nat) : t.toLower.byteOffset position = t.byteOffset position := by
  rw [byteOffset,byteOffset,extract_toLower,toLower,Array.foldl_map]
  simp only [Text.utf8Size_toLower]

@[simp] lemma charAt?_toLower (position : Nat) :
    t.toLower.charAt? position = (t.charAt? position).map Char.toLower :=
  getElem?_toLower t position

@[simp] lemma charBefore?_toLower (position : Nat) :
    t.toLower.charBefore? position = (t.charBefore? position).map Char.toLower := by
  rw [charBefore?,charBefore?]
  split
  · rfl
  · exact getElem?_toLower t (position - 1)

end Source
end Highlight

namespace Highlight.Text

variable {c d : Char}

/-- The code points that characters outside the first 128 fold to. -/
def foldImages : List Nat := '\x00'.toNat :: wideFoldRuns.flatMap ShiftRun.images

lemma wideFoldRuns_count_pos : ∀ r ∈ wideFoldRuns, 0 < r.count := by decide +kernel

lemma le_toNat_of_preimage? {r : ShiftRun} (hr : r ∈ wideFoldRuns) {n : Nat} (h : r.preimage? n = some c) :
    128 ≤ c.toNat ∨ c = '\x00' := by
  have hfirst : 128 ≤ r.first := of_decide_eq_true (List.mem_filter.mp hr).2
  unfold ShiftRun.preimage? at h
  obtain ⟨hcovers,hc⟩ := Option.ite_none_right_eq_some.mp h
  obtain rfl := Option.some.inj hc
  have hle : r.first ≤ (n - r.shift : Int).toNat := by
    rw [ShiftRun.covers,Bool.and_eq_true,Bool.and_eq_true,decide_eq_true_iff] at hcovers
    exact hcovers.1.1
  rcases toNat_ofNat (n - r.shift : Int).toNat with hsame | hnone
  · exact .inl (by omega)
  · exact .inr hnone

lemma toUpper_isLower : ∀ n < 128, (Char.ofNat n).toUpper.isLower = false := by decide

lemma isLower_cases : ∀ n < 128, (Char.ofNat n).isLower = true → (Char.ofNat n).isAlpha = true := by decide

/-- A character that agrees with a small letter folds to it. -/
lemma simpleFold_of_mem_orbit (hc : c.isLower = true) (h : c ∈ orbit d) : simpleFold d = c := by
  have hlt : c.toNat < 128 := by
    have hle : c.val ≤ 'z'.val := of_decide_eq_true (Bool.and_eq_true_iff.mp hc).2
    exact Nat.lt_of_le_of_lt (UInt32.le_iff_toNat_le.mp hle) (by decide)
  unfold orbit at h
  split at h
  · rename_i hother
    obtain rfl := List.mem_singleton.mp h
    have halpha := isLower_cases c.toNat hlt
    rw [c.ofNat_toNat] at halpha
    rw [halpha hc] at hother
    simp at hother
  · rcases List.mem_append.mp h with h | h
    · rcases List.mem_cons.mp h with h | h
      · exact h.symm
      · split at h
        · rename_i hrep
          have hupper := toUpper_isLower _ hrep
          rw [Char.ofNat_toNat,← List.mem_singleton.mp h,hc] at hupper
          cases hupper
        · cases h
    · obtain ⟨r,hr,hpreimage⟩ := List.mem_filterMap.mp h
      rcases le_toNat_of_preimage? hr hpreimage with hle | rfl
      · omega
      · exact absurd hc (by decide)

/-- What folds to a small letter that is no image is the letter or its capital. -/
lemma toLower_of_simpleFold (hlt : c.toNat < 128) (hc : c.toNat ∉ foldImages) (h : simpleFold d = c) :
    d.toLower = c := by
  unfold simpleFold at h
  split at h
  · exact h
  · rename_i hwide
    rcases shiftBy_cases wideFoldRuns_count_pos d with ⟨hsame,-⟩ | himage
    · rw [← h,hsame] at hlt
      exact absurd hlt hwide
    · exact absurd (h ▸ himage) hc

lemma isWord_of_simpleFold (hlt : c.toNat < 128) (hc : c.toNat ∉ foldImages) (hword : isWord c = true)
    (h : simpleFold d = c) : isWord d = true := by
  rw [← isWord_toLower,toLower_of_simpleFold hlt hc h,hword]

end Highlight.Text
