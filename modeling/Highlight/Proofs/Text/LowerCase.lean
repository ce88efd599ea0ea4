import Highlight.Text.LowerCase
import Mathlib.Tactic.Lemma

/-!
Text in lower case stays as it is when it is put in lower case again: no character of it has a lower-case
form other than itself, wherever it stands. The table of lower-case forms is checked by bit masks over the
code points, as it has too many of them to compare each with each.
-/
namespace Highlight.Text

/-- A number with the bits set that stand in a list. -/
def mask (points : List Nat) : Nat := points.foldr (fun n m => 1 <<< n ||| m) 0

lemma testBit_mask (points : List Nat) (n : Nat) : (mask points).testBit n = decide (n ∈ points) := by
  induction points with
  | nil => simp [mask]
  | cons m points ih =>
    rw [mask,List.foldr_cons,Nat.one_shiftLeft,Nat.testBit_or,Nat.testBit_two_pow]
    rw [mask] at ih
    rw [ih,← Bool.decide_or,decide_eq_decide,List.mem_cons]
    exact or_congr_left eq_comm

lemma not_mem_of_mask {ps qs : List Nat} (h : mask ps &&& mask qs = 0) {n : Nat} (hn : n ∈ ps) : n ∉ qs := by
  intro hq
  have hbit := congrArg (Nat.testBit · n) h
  simp [testBit_mask,hn,hq] at hbit

namespace ShiftRun

def points (r : ShiftRun) : List Nat := (List.range r.count).map (fun k => r.first + k * r.stride)

def images (r : ShiftRun) : List Nat := r.points.map (fun n : Nat => (n + r.shift : Int).toNat)

lemma mem_points_iff {r : ShiftRun} {n : Nat} (hcount : 0 < r.count) : n ∈ r.points ↔ r.covers n = true := by
  have hcovers : r.covers n = true ↔
      (r.first ≤ n ∧ n ≤ r.first + (r.count - 1) * r.stride) ∧ (n - r.first) % r.stride = 0 := by
    rw [covers,Bool.and_eq_true,Bool.and_eq_true,decide_eq_true_iff,decide_eq_true_iff,beq_iff_eq,last]
  rw [hcovers,points,List.mem_map]
  simp only [List.mem_range]
  constructor
  · rintro ⟨k,hk,rfl⟩
    have hle : k * r.stride ≤ (r.count - 1) * r.stride := Nat.mul_le_mul_right _ (by omega)
    refine ⟨⟨by omega,by omega⟩,?_⟩
    rw [Nat.add_sub_cancel_left,Nat.mul_mod_left]
  · rintro ⟨⟨hfirst,hlast⟩,hstride⟩
    have hdiv := Nat.div_add_mod (n - r.first) r.stride
    rw [hstride,Nat.add_zero,Nat.mul_comm] at hdiv
    rcases Nat.eq_zero_or_pos r.stride with hzero | hpos
    · refine ⟨0,hcount,?_⟩
      rw [hzero] at hdiv ⊢
      omega
    · have hle : (n - r.first) / r.stride ≤ r.count - 1 := by
        rw [Nat.div_le_iff_le_mul_add_pred hpos,Nat.mul_comm]
        omega
      exact ⟨(n - r.first) / r.stride,by omega,by omega⟩

end ShiftRun

/-- The code points that have a lower-case form other than themselves. -/
def moved : List Nat := 'İ'.toNat :: lowerRuns.flatMap ShiftRun.points

/-- The code points of lower-case forms, and that which stands for a number that is none. -/
def lowered : List Nat :=
  ['\x00','i','\u0307','σ','ς'].map Char.toNat ++
    (List.range 128).map (fun n => (Char.ofNat n).toLower.toNat) ++ lowerRuns.flatMap ShiftRun.images

lemma mask_lowered : mask lowered &&& mask moved = 0 := by decide +kernel

lemma mem_moved_of_capital : ∀ n ≤ 90, 65 ≤ n → n ∈ moved := by decide

lemma sigma_mem_moved : 'Σ'.toNat ∈ moved := by decide

lemma count_pos : ∀ r ∈ lowerRuns, 0 < r.count := by decide +kernel

variable {c : Char} {cs before after : List Char}

/-- A character that is its own lower-case form. -/
def Settled (c : Char) : Prop := c.toNat ∉ moved

lemma settled_of_mem (h : c.toNat ∈ lowered) : Settled c := not_mem_of_mask mask_lowered h

lemma toNat_ofNat (n : Nat) : (Char.ofNat n).toNat = n ∨ Char.ofNat n = '\x00' := by
  by_cases h : n.isValidChar
  · exact .inl (congrArg Char.toNat (dif_pos h : Char.ofNat n = Char.ofNatAux n h))
  · exact .inr (dif_neg h)

section Shifts

variable {runs : List ShiftRun} (hcount : ∀ r ∈ runs, 0 < r.count)

include hcount

lemma find?_covers_eq_none_iff :
    runs.find? (·.covers c.toNat) = none ↔ c.toNat ∉ runs.flatMap ShiftRun.points := by
  rw [List.find?_eq_none,List.mem_flatMap,not_exists]
  simp only [not_and]
  refine forall₂_congr (fun r hr => ?_)
  rw [ShiftRun.mem_points_iff (hcount r hr)]

/-- A character that no run covers stays, and one that a run covers becomes an image, or what stands for a number
that is none. -/
lemma shiftBy_cases (c : Char) : shiftBy runs c = c ∧ c.toNat ∉ runs.flatMap ShiftRun.points ∨
    (shiftBy runs c).toNat ∈ '\x00'.toNat :: runs.flatMap ShiftRun.images := by
  unfold shiftBy
  split
  · rename_i r hr
    have hmem := List.mem_of_find?_eq_some hr
    have hcovers : r.covers c.toNat = true := @List.find?_some _ (fun r : ShiftRun => r.covers c.toNat) _ _ hr
    have hpoint := (ShiftRun.mem_points_iff (hcount r hmem)).mpr hcovers
    have himage : r.image c.toNat = Char.ofNat (c.toNat + r.shift : Int).toNat := rfl
    right
    rw [himage]
    rcases toNat_ofNat (c.toNat + r.shift : Int).toNat with h | h
    · rw [h]
      exact List.mem_cons_of_mem _ (List.mem_flatMap.mpr ⟨r,hmem,List.mem_map.mpr ⟨_,hpoint,rfl⟩⟩)
    · rw [h]
      exact List.mem_cons_self
  · exact .inl ⟨rfl,(find?_covers_eq_none_iff hcount).mp ‹_›⟩

end Shifts

lemma settled_shiftBy (hc : c ≠ 'İ') : Settled (shiftBy lowerRuns c) := by
  rcases shiftBy_cases count_pos c with ⟨hsame,hpoints⟩ | himage
  · rw [hsame,Settled,moved,List.mem_cons,not_or]
    exact ⟨fun h => hc (Char.toNat_inj.mp h),hpoints⟩
  · apply settled_of_mem
    rcases List.mem_cons.mp himage with hzero | himage
    · exact List.mem_append_left _ (List.mem_append_left _ (hzero ▸ List.mem_cons_self))
    · exact List.mem_append_right _ himage

/-- Settled characters stay as they are. -/
lemma lowerChar_of_settled (h : Settled c) : lowerChar before c after = [c] := by
  obtain ⟨hdotted,hruns⟩ : c.toNat ≠ 'İ'.toNat ∧ c.toNat ∉ lowerRuns.flatMap ShiftRun.points := by
    rwa [Settled,moved,List.mem_cons,not_or] at h
  rw [lowerChar]
  split
  · have hcapital : ¬ (65 ≤ c.toNat ∧ c.toNat ≤ 90) := fun ⟨hleast,hmost⟩ => h (mem_moved_of_capital _ hmost hleast)
    exact congrArg (fun d => [d]) (dif_neg (by simpa [UInt32.le_iff_toNat_le] using hcapital))
  · split
    · rename_i hsigma
      exact absurd sigma_mem_moved (hsigma ▸ h)
    · rw [if_neg (fun h => hdotted (congrArg Char.toNat h)),shiftBy,(find?_covers_eq_none_iff count_pos).mpr hruns]

/-- All that characters become is settled. -/
lemma settled_of_mem_lowerChar {d : Char} (h : d ∈ lowerChar before c after) : Settled d := by
  rw [lowerChar] at h
  split at h
  · rename_i hascii
    rw [List.mem_singleton.mp h]
    refine settled_of_mem (List.mem_append_left _ (List.mem_append_right _ (List.mem_map.mpr ⟨c.toNat,?_,?_⟩)))
    · exact List.mem_range.mpr hascii
    · rw [Char.ofNat_toNat]
  · have hfixed : ∀ d ∈ ['\x00','i','\u0307','σ','ς'], Settled d := fun d hd =>
      settled_of_mem (List.mem_append_left _ (List.mem_append_left _ (List.mem_map_of_mem hd)))
    split at h
    · refine hfixed d ?_
      rw [List.mem_singleton] at h
      split at h <;> simp [h]
    · split at h
      · have hsub : ∀ d ∈ ['i','\u0307'], d ∈ ['\x00','i','\u0307','σ','ς'] := by simp
        exact hfixed d (hsub d h)
      · rw [List.mem_singleton.mp h]
        exact settled_shiftBy ‹_›

lemma settled_of_mem_lowerAfter {d : Char} (h : d ∈ lowerAfter before cs) : Settled d := by
  induction cs generalizing before with
  | nil => cases h
  | cons c cs ih =>
    rw [lowerAfter] at h
    exact (List.mem_append.mp h).elim settled_of_mem_lowerChar ih

lemma lowerAfter_of_settled (h : ∀ c ∈ cs, Settled c) : lowerAfter before cs = cs := by
  induction cs generalizing before with
  | nil => rfl
  | cons c cs ih =>
    rw [lowerAfter,lowerChar_of_settled (h c List.mem_cons_self),ih (fun d hd => h d (List.mem_cons_of_mem _ hd))]
    rfl

/-- Lower-casing twice is lower-casing once. -/
theorem lower_lower (text : String) : lower (lower text) = lower text := by
  rw [lower,lower,String.toList_ofList,lowerAfter_of_settled (fun _ => settled_of_mem_lowerAfter)]

end Highlight.Text
