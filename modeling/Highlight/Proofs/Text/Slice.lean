import Highlight.Text.Source
import Mathlib.Tactic.Lemma

/-!
Slices of a text that lie side by side make up the slice that spans them. What stands at a position is the
slice from there on.
-/
namespace Highlight.Source

variable (t : Source)

@[simp] lemma slice_self (a : Nat) : t.slice a a = "" := by simp [slice]

lemma length_slice (a b : Nat) : (t.slice a b).length = min b t.size - a := by
  simp [slice,Nat.sub_min_sub_right]

lemma slice_of_size_le {a : Nat} (b : Nat) (h : t.size ≤ a) : t.slice a b = "" := by
  simp [slice,Array.extract_empty_of_size_le_start h]

lemma slice_append {a b c : Nat} (hab : a ≤ b) (hbc : b ≤ c) :
    t.slice a b ++ t.slice b c = t.slice a c := by
  have h : t.extract a b ++ t.extract b c = t.extract a c := by
    simp [Nat.min_eq_left hab,Nat.max_eq_right hbc]
  simp only [slice,← String.ofList_append,← Array.toList_append,h]

/-- What follows a position completes the text, even if the position is past the end. -/
lemma slice_append_rest (p : Nat) : t.slice 0 p ++ t.slice p t.size = t.slice 0 t.size := by
  rcases Nat.le_total p t.size with h | h
  · exact t.slice_append (Nat.zero_le p) h
  · rw [← t.slice_append (Nat.zero_le _) h,t.slice_of_size_le p (Nat.le_refl _),
      t.slice_of_size_le _ h,String.append_empty,String.append_empty]

lemma slice_succ_of_charAt? {a : Nat} {c : Char} (h : t.charAt? a = some c) :
    t.slice a (a + 1) = String.singleton c := by
  obtain ⟨hlt,hc⟩ := Array.getElem?_eq_some_iff.mp h
  have he : t.extract a (a + 1) = #[c] := by
    apply Array.ext
    · simp; omega
    · intro i hi _
      have h0 : i = 0 := by simp at hi; omega
      subst h0
      simpa using hc
  rw [slice,he]
  rfl

@[simp] lemma slice_all (text : String) : (ofString text).slice 0 (ofString text).size = text := by
  simp [slice,ofString]

/-- The given characters stand at a position. -/
def Spells (p : Nat) (cs : List Char) : Prop := ∀ k c, cs[k]? = some c → t[p + k]? = some c

variable {t} {p : Nat} {c : Char} {cs ds : List Char}

lemma spells_nil : t.Spells p [] := fun _ _ h => by cases h

lemma Spells.head (h : t.Spells p (c :: cs)) : t[p]? = some c := h 0 c rfl

lemma Spells.left (h : t.Spells p (cs ++ ds)) : t.Spells p cs := by
  intro k c hc
  have hlt := (List.getElem?_eq_some_iff.mp hc).1
  exact h k c (by rwa [List.getElem?_append_left hlt])

lemma Spells.right (h : t.Spells p (cs ++ ds)) : t.Spells (p + cs.length) ds := by
  intro k c hc
  rw [Nat.add_assoc]
  exact h (cs.length + k) c (by rwa [List.getElem?_append_right (Nat.le_add_right _ _),Nat.add_sub_cancel_left])

lemma Spells.tail (h : t.Spells p (c :: cs)) : t.Spells (p + 1) cs :=
  Spells.right (show t.Spells p ([c] ++ cs) from h)

lemma Spells.uncons (h : t.Spells p (cs ++ c :: ds)) :
    t.Spells p (cs ++ [c]) ∧ t.Spells (p + cs.length + 1) ds := by
  rw [List.append_cons] at h
  refine ⟨h.left,?_⟩
  have hright := h.right
  rwa [List.length_append,← Nat.add_assoc] at hright

lemma Spells.succ_le_size (h : t.Spells p (cs ++ c :: ds)) : p + cs.length + 1 ≤ t.size :=
  (Array.getElem?_eq_some_iff.mp h.right.head).1

lemma spells_all (text : String) : (ofString text).Spells 0 text.toList := by
  intro k c hc
  rw [Nat.zero_add,ofString,List.getElem?_toArray]
  exact hc

lemma Spells.getElem? (h : t.Spells p cs) {k : Nat} (hk : k < cs.length) : t[p + k]? = some cs[k] :=
  h k _ (List.getElem?_eq_getElem hk)

lemma Spells.exists_getElem? (h : t.Spells p cs) {k : Nat} (hk : p ≤ k) (hlt : k < p + cs.length) :
    ∃ c ∈ cs, t[k]? = some c := by
  obtain ⟨k,rfl⟩ := Nat.exists_eq_add_of_le hk
  have hk' : k < cs.length := by omega
  exact ⟨cs[k],List.getElem_mem hk',h.getElem? hk'⟩

lemma Spells.le_size (h : t.Spells p cs) (hp : p ≤ t.size) : p + cs.length ≤ t.size := by
  rcases Nat.eq_zero_or_pos cs.length with hzero | hpos
  · omega
  · have hlt := (Array.getElem?_eq_some_iff.mp (h.getElem? (k := cs.length - 1) (by omega))).1
    omega

lemma Spells.slice (h : t.Spells p cs) : t.slice p (p + cs.length) = String.ofList cs := by
  rw [Source.slice]
  congr 1
  apply List.ext_getElem?
  intro k
  rw [Array.getElem?_toList,Array.getElem?_extract]
  split
  · rename_i hk
    rcases Nat.lt_or_ge k cs.length with hlt | hge
    · rw [h.getElem? hlt,List.getElem?_eq_getElem hlt]
    · omega
  · rename_i hk
    rcases Nat.lt_or_ge k cs.length with hlt | hge
    · have := (Array.getElem?_eq_some_iff.mp (h.getElem? hlt)).1
      omega
    · exact (List.getElem?_eq_none hge).symm

end Highlight.Source

/-!
Offsets count the bytes of the text before a position. They grow with the position, and each of them
is the start of a character or the end of the encoded text.
-/
namespace Highlight.Source

variable (t : Source)

lemma foldl_utf8Size (cs : List Char) (n : Nat) :
    cs.foldl (fun n c => n + c.utf8Size) n = n + (String.ofList cs).utf8ByteSize := by
  induction cs generalizing n with
  | nil => simp
  | cons c cs ih =>
    rw [List.foldl_cons,ih,String.ofList_cons,String.utf8ByteSize_append,
      String.utf8ByteSize_singleton,Nat.add_assoc]

lemma byteOffset_eq (p : Nat) : t.byteOffset p = (t.slice 0 p).utf8ByteSize := by
  rw [byteOffset,← Array.foldl_toList,foldl_utf8Size,Nat.zero_add]
  rfl

lemma slice_eq_toString : t.slice 0 t.size = t.toString := by
  simp [slice,toString]

lemma byteOffset_size : t.byteOffset t.size = t.toString.utf8ByteSize := by
  rw [byteOffset_eq,slice_eq_toString]

lemma byteOffset_mono {p q : Nat} (h : p ≤ q) : t.byteOffset p ≤ t.byteOffset q := by
  rw [byteOffset_eq,byteOffset_eq,← t.slice_append (Nat.zero_le p) h,String.utf8ByteSize_append]
  exact Nat.le_add_right _ _

lemma length_le_utf8ByteSize (cs : List Char) : cs.length ≤ (String.ofList cs).utf8ByteSize := by
  induction cs with
  | nil => exact Nat.zero_le _
  | cons c cs ih =>
    rw [String.ofList_cons,String.utf8ByteSize_append,String.utf8ByteSize_singleton]
    have hc := c.utf8Size_pos
    simp only [List.length_cons]
    omega

lemma le_byteOffset {p : Nat} (h : p ≤ t.size) : p ≤ t.byteOffset p := by
  have hlen := length_le_utf8ByteSize (t.extract 0 p).toList
  rw [byteOffset_eq,slice]
  simpa [Nat.min_eq_left h] using hlen

/-- No character straddles the offset of a position. -/
lemma isValid_byteOffset {p : Nat} (h : p ≤ t.size) :
    (String.Pos.Raw.mk (t.byteOffset p)).IsValid t.toString := by
  rw [String.Pos.Raw.isValid_iff_exists_append]
  refine ⟨t.slice 0 p,t.slice p t.size,?_,?_⟩
  · rw [t.slice_append (Nat.zero_le p) h,slice_eq_toString]
  · rw [byteOffset_eq]
    rfl

section Rest

variable {t : Source} {p : Nat} {c : Char} {cs front back : List Char}

lemma getElem?_of_drop (h : t.toList.drop p = c :: cs) : t[p]? = some c := by
  rw [← Array.getElem?_toList,← List.head?_drop,h,List.head?_cons]

lemma getElem?_of_drop_nil (h : t.toList.drop p = []) : t[p]? = none := by
  rw [← Array.getElem?_toList,← List.head?_drop,h,List.head?_nil]

lemma drop_add_length (h : t.toList.drop p = front ++ back) : t.toList.drop (p + front.length) = back := by
  rw [← List.drop_drop,h,List.drop_left]

lemma drop_succ (h : t.toList.drop p = c :: cs) : t.toList.drop (p + 1) = cs :=
  drop_add_length (show t.toList.drop p = [c] ++ cs from h)

lemma slice_of_drop (h : t.toList.drop p = front ++ back) : t.slice p (p + front.length) = String.ofList front := by
  rw [slice,Array.toList_extract,List.extract,h,Nat.add_sub_cancel_left,List.take_left]

end Rest

end Highlight.Source
