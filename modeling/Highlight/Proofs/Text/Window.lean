import Highlight.Proofs.Text.Slice
import Mathlib.Order.Bounds.Basic
import Mathlib.Tactic.ByContra

/-!
The window around a position. It starts and ends where characters do: its start is the last such offset
that is not after the radius, and its end is the first one that is not before it, or the end of the text.
-/
namespace Highlight

/-- An offset at which no character of a text is cut in two. -/
def IsBoundary (text : String) (offset : Nat) : Prop := (String.Pos.Raw.mk offset).IsValid text

namespace Source

variable (t : Source) {p q position offset : Nat}

lemma isBoundary_byteOffset (h : p ≤ t.size) : IsBoundary t.toString (t.byteOffset p) := t.isValid_byteOffset h

/-- The boundaries are the offsets of the positions. -/
lemma exists_of_isBoundary (h : IsBoundary t.toString offset) : ∃ p ≤ t.size, t.byteOffset p = offset := by
  obtain ⟨left,right,htext,hoffset⟩ := String.Pos.Raw.isValid_iff_exists_append.mp h
  have hlist : t.toList = left.toList ++ right.toList := by
    rw [← String.toList_append,← htext,toString,String.toList_ofList]
  have hsize : left.toList.length ≤ t.size := by
    rw [← Array.length_toList,hlist,List.length_append]
    exact Nat.le_add_right _ _
  refine ⟨left.toList.length,hsize,?_⟩
  have hslice : t.slice 0 left.toList.length = left := by
    rw [slice,Array.toList_extract,List.extract_eq_take_drop,hlist]
    simp
  rw [byteOffset_eq,hslice]
  exact (congrArg String.Pos.Raw.byteIdx hoffset).symm

lemma byteOffset_succ {c : Char} (h : t.charAt? p = some c) :
    t.byteOffset (p + 1) = t.byteOffset p + c.utf8Size := by
  rw [byteOffset_eq,byteOffset_eq,← t.slice_append (Nat.zero_le p) (Nat.le_succ p),String.utf8ByteSize_append,
    t.slice_succ_of_charAt? h,String.utf8ByteSize_singleton]

lemma byteOffset_lt (hpq : p < q) (hq : q ≤ t.size) : t.byteOffset p < t.byteOffset q := by
  have hlt : p < t.size := Nat.lt_of_lt_of_le hpq hq
  have hsucc := t.byteOffset_succ (show t.charAt? p = some t[p] from Array.getElem?_eq_getElem hlt)
  have hpos := t[p].utf8Size_pos
  have hmono : t.byteOffset (p + 1) ≤ t.byteOffset q := t.byteOffset_mono hpq
  omega

@[simp] lemma byteOffset_zero : t.byteOffset 0 = 0 := by simp [byteOffset_eq]

/-- The first position from one on whose offset is not too small, or the end of the text. -/
lemma seekFrom_spec {cs : List Char} (hcs : t.toList.drop position = cs) (hsize : position ≤ t.size) (offset : Nat) :
    seekFrom cs position (t.byteOffset position) offset ≤ t.size ∧
      (seekFrom cs position (t.byteOffset position) offset < t.size →
        offset ≤ t.byteOffset (seekFrom cs position (t.byteOffset position) offset)) ∧
      ∀ q, position ≤ q → q < seekFrom cs position (t.byteOffset position) offset → t.byteOffset q < offset := by
  induction cs generalizing position with
  | nil =>
    have hend : t.size ≤ position := by simpa using hcs
    exact ⟨hsize,fun hlt => absurd hend (Nat.not_le.mpr hlt),fun q hq hlt => absurd hlt (Nat.not_lt.mpr hq)⟩
  | cons c rest ih =>
    have hlt : position < t.size := by
      have hlen := congrArg List.length hcs
      simp at hlen
      omega
    have hc : t.charAt? position = some c := by
      have hget := congrArg (·[0]?) hcs
      simpa [charAt?] using hget
    have hrest : t.toList.drop (position + 1) = rest := by
      rw [← List.drop_drop,hcs]
      rfl
    rw [seekFrom]
    split
    · rename_i hle
      exact ⟨hsize,fun _ => hle,fun q hq hlt => absurd hlt (Nat.not_lt.mpr hq)⟩
    · rename_i hshort
      rw [← t.byteOffset_succ hc]
      obtain ⟨hle,hreach,hbefore⟩ := ih hrest hlt
      refine ⟨hle,hreach,fun q hq hlt => ?_⟩
      rcases Nat.eq_or_lt_of_le hq with rfl | hq
      · exact Nat.not_le.mp hshort
      · exact hbefore q hq hlt

lemma positionAt_spec (offset : Nat) : t.positionAt offset ≤ t.size ∧
    (t.positionAt offset < t.size → offset ≤ t.byteOffset (t.positionAt offset)) ∧
    ∀ q < t.positionAt offset, t.byteOffset q < offset := by
  have hfirst : t.toList.drop 0 = t.toList := List.drop_zero
  obtain ⟨hle,hreach,hbefore⟩ := t.seekFrom_spec hfirst (Nat.zero_le _) offset
  rw [byteOffset_zero] at hle hreach hbefore
  exact ⟨hle,hreach,fun q hq => hbefore q (Nat.zero_le q) hq⟩

/-- An offset rounded up to a boundary, or to the end of the text. -/
lemma isLeast_positionAt (offset : Nat) :
    IsLeast {o | IsBoundary t.toString o ∧ min t.toString.utf8ByteSize offset ≤ o} (t.byteOffset (t.positionAt offset)) := by
  obtain ⟨hle,hreach,hbefore⟩ := t.positionAt_spec offset
  refine ⟨⟨t.isBoundary_byteOffset hle,?_⟩,?_⟩
  · rcases Nat.eq_or_lt_of_le hle with heq | hlt
    · rw [heq,byteOffset_size]
      exact Nat.min_le_left _ _
    · exact Nat.le_trans (Nat.min_le_right _ _) (hreach hlt)
  · rintro o ⟨hboundary,hmin⟩
    obtain ⟨p,hp,rfl⟩ := t.exists_of_isBoundary hboundary
    by_contra hlt
    -- a position before the one that was found is too early, and before the end
    have hbefore' : p < t.positionAt offset := by
      by_contra hge
      exact hlt (t.byteOffset_mono (Nat.not_lt.mp hge))
    have hoffset := hbefore p hbefore'
    have hend := t.byteOffset_lt hbefore' hle
    have hsize := t.byteOffset_mono hle
    rw [byteOffset_size] at hsize
    omega

lemma positionBelow_spec (offset : Nat) : t.positionBelow offset ≤ t.size ∧
    t.byteOffset (t.positionBelow offset) ≤ offset ∧
    ∀ q ≤ t.size, t.byteOffset q ≤ offset → q ≤ t.positionBelow offset := by
  obtain ⟨hle,hreach,hbefore⟩ := t.positionAt_spec offset
  simp only [positionBelow]
  split
  · rename_i hexact
    refine ⟨hle,hexact,fun q hq hqo => ?_⟩
    by_contra hlt
    have hstrict := t.byteOffset_lt (Nat.not_le.mp hlt) hq
    have hreach := hreach (by omega)
    omega
  · rename_i hpast
    have hpos : 0 < t.positionAt offset := by
      apply Nat.pos_of_ne_zero
      intro hzero
      rw [hzero,byteOffset_zero] at hpast
      exact hpast (Nat.zero_le _)
    refine ⟨by omega,Nat.le_of_lt (hbefore _ (by omega)),fun q _ hqo => ?_⟩
    by_contra hlt
    have hmono := t.byteOffset_mono (show t.positionAt offset ≤ q by omega)
    omega

/-- An offset rounded down to a boundary. -/
lemma isGreatest_positionBelow (offset : Nat) :
    IsGreatest {o | IsBoundary t.toString o ∧ o ≤ offset} (t.byteOffset (t.positionBelow offset)) := by
  obtain ⟨hle,hexact,hgreatest⟩ := t.positionBelow_spec offset
  refine ⟨⟨t.isBoundary_byteOffset hle,hexact⟩,?_⟩
  rintro o ⟨hboundary,ho⟩
  obtain ⟨p,hp,rfl⟩ := t.exists_of_isBoundary hboundary
  exact t.byteOffset_mono (hgreatest p hp ho)

/-- The window is the text between the two boundaries. -/
theorem window_eq (position radius : Nat) : ∃ left right,
    left ++ t.window position radius ++ right = t.toString ∧
      IsGreatest {o | IsBoundary t.toString o ∧ o ≤ t.byteOffset position - radius} left.utf8ByteSize ∧
      IsLeast {o | IsBoundary t.toString o ∧ min t.toString.utf8ByteSize (t.byteOffset position + radius) ≤ o}
        (left ++ t.window position radius).utf8ByteSize := by
  have hgreatest := t.isGreatest_positionBelow (t.byteOffset position - radius)
  have hleast := t.isLeast_positionAt (t.byteOffset position + radius)
  have hwindow : t.window position radius =
      t.slice (t.positionBelow (t.byteOffset position - radius)) (t.positionAt (t.byteOffset position + radius)) := rfl
  have hasize := (t.positionBelow_spec (t.byteOffset position - radius)).1
  have hbsize := (t.positionAt_spec (t.byteOffset position + radius)).1
  generalize t.positionBelow (t.byteOffset position - radius) = a at *
  generalize t.positionAt (t.byteOffset position + radius) = b at *
  have hab : a ≤ b := by
    by_contra hlt
    have hstrict := t.byteOffset_lt (Nat.not_le.mp hlt) hasize
    have hsize := t.byteOffset_mono hasize
    rw [byteOffset_size] at hsize
    have hlower := hgreatest.1.2
    have hupper := hleast.1.2
    omega
  have hwindow : t.slice 0 a ++ t.window position radius = t.slice 0 b := by
    rw [hwindow,t.slice_append (Nat.zero_le a) hab]
  refine ⟨t.slice 0 a,t.slice b t.size,?_,?_,?_⟩
  · rw [hwindow,slice_append_rest,slice_eq_toString]
  · rw [← byteOffset_eq]
    exact hgreatest
  · rw [hwindow,← byteOffset_eq]
    exact hleast

end Source
end Highlight
