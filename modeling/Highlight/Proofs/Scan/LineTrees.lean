import Highlight.Proofs.Scan.LineMarks
import Highlight.Proofs.Tree.Operations

/-!
Trees of line marks. The tree of a text is read off its marks, and that of a text with a line break in it
is put together from the trees of what is before and of what is after the break. No mark goes beyond its
line.
-/
namespace Highlight

open Rules Regex

namespace Source

variable {t u : Source} {p q : Nat}

lemma slice_append_eq (t u : Source) (p q : Nat) :
    slice (t ++ u) p q = t.slice p q ++ u.slice (p - t.size) (q - t.size) := by
  simp only [slice,Array.extract_append,Array.toList_append,String.ofList_append]

lemma slice_front (u : Source) (hq : q ≤ t.size) : slice (t ++ u) p q = t.slice p q := by
  rw [slice_append_eq,Nat.sub_eq_zero_of_le hq]
  simp [slice]

lemma slice_back (t u : Source) (p q : Nat) : slice (t ++ u) (t.size + p) (t.size + q) = u.slice p q := by
  rw [slice_append_eq,Nat.add_sub_cancel_left,Nat.add_sub_cancel_left,
    slice_of_size_le _ _ (Nat.le_add_right t.size p),String.empty_append]

lemma slice_across (u : Source) (hp : p ≤ t.size) (q : Nat) :
    slice (t ++ u) p (t.size + q) = t.slice p t.size ++ u.slice 0 q := by
  rw [← slice_append _ hp (Nat.le_add_right _ _),slice_front u (Nat.le_refl _)]
  exact congrArg _ (slice_back t u 0 q)

lemma ofString_append (a b : String) : ofString (a ++ b) = ofString a ++ ofString b := by
  simp [ofString]

end Source

namespace Tree

/-- Text as a leaf, unless it is empty. -/
def ofText (text : String) : List Tree := if text.isEmpty then [] else [.leaf text]

/-- Put a tree before others, as one with the first of them if both are leaves. -/
def mergeLeaf : Tree → List Tree → List Tree
  | .leaf a, .leaf b :: rest => .leaf (a ++ b) :: rest
  | t, rest => t :: rest

/-- Make one leaf of leaves that lie side by side. -/
def mergeLeaves (ts : List Tree) : List Tree := ts.foldr mergeLeaf []

variable {a b c : String} {tag : Tag} {children rest : List Tree}

lemma texts_ofText (a : String) : texts (ofText a) = a := by
  rw [ofText]
  split
  · rename_i hempty
    exact (String.isEmpty_iff.mp hempty).symm
  · simp

lemma ofText_of_ne (h : a ≠ "") : ofText a = [.leaf a] := if_neg (by simpa using h)

lemma mergeLeaf_of_apart (t : Tree) (h : ∀ u ∈ rest.head?, u.isLeaf = false) : mergeLeaf t rest = t :: rest := by
  unfold mergeLeaf
  split
  · exact absurd (h _ rfl) (by simp [isLeaf])
  · rfl

lemma mergeLeaves_scope : mergeLeaves (.scope tag children :: rest) = .scope tag children :: mergeLeaves rest :=
  rfl

lemma mergeLeaves_ofText (h : ∀ u ∈ (mergeLeaves rest).head?, u.isLeaf = false) :
    mergeLeaves (ofText a ++ rest) = ofText a ++ mergeLeaves rest := by
  by_cases ha : a = ""
  · rw [ha]
    rfl
  · rw [ofText_of_ne ha]
    exact mergeLeaf_of_apart (.leaf a) h

/-- Text on both sides of a leaf becomes a part of it. -/
lemma mergeLeaves_around (h : ∀ u ∈ (mergeLeaves rest).head?, u.isLeaf = false) :
    mergeLeaves (ofText a ++ .leaf c :: (ofText b ++ rest)) = .leaf (a ++ c ++ b) :: mergeLeaves rest := by
  have hafter : mergeLeaves (.leaf c :: (ofText b ++ rest)) = .leaf (c ++ b) :: mergeLeaves rest := by
    change mergeLeaf (.leaf c) (mergeLeaves (ofText b ++ rest)) = _
    rw [mergeLeaves_ofText h]
    by_cases hb : b = ""
    · rw [hb,String.append_empty]
      exact mergeLeaf_of_apart (.leaf c) h
    · rw [ofText_of_ne hb]
      rfl
  by_cases ha : a = ""
  · rw [ha,String.empty_append]
    exact hafter
  · rw [ofText_of_ne ha,String.append_assoc]
    change mergeLeaf (.leaf a) (mergeLeaves (.leaf c :: (ofText b ++ rest))) = _
    rw [hafter]
    rfl

end Tree

open Highlight.Tree

/-- The tree of a text from a position on, by its marks. -/
def lineTrees (text : Source) : Nat → List Mark → List Tree
  | p, [] => ofText (text.slice p text.size)
  | p, m :: marks => ofText (text.slice p m.start) ++
      .scope { kind := some m.mode.className } (ofText (text.slice m.start m.stop)) ::
        lineTrees text m.stop marks

variable {text front back : Source} {p k : Nat} {m : Mark} {marks marks' : List Mark}

/-- Text is added as a leaf of its own where no leaf comes before it. -/
lemma addText_apart (b : Builder) (h : ∀ u ∈ b.current.head?, u.isLeaf = false) (s : String) :
    b.addText s = { b with current := ofText s ++ b.current } := by
  rw [Builder.addText,ofText]
  split
  · rfl
  · unfold Builder.pushText
    split
    · rename_i hcurrent
      exact absurd (h _ (congrArg List.head? hcurrent)) (by simp [isLeaf])
    · rfl

lemma reverse_ofText (s : String) : (ofText s).reverse = ofText s := by
  unfold ofText
  split
  · rfl
  · rfl

lemma Mark.draw_eq (m : Mark) (text : Source) (p : Nat) {before : List Tree}
    (h : ∀ u ∈ before.head?, u.isLeaf = false) : m.draw text p { current := before } =
      { current := .scope { kind := some m.mode.className } (ofText (text.slice m.start m.stop)) ::
          (ofText (text.slice p m.start) ++ before) } := by
  have hbefore := addText_apart { current := before } h (text.slice p m.start)
  rw [Mark.draw,hbefore,Builder.openScope,addText_apart _ (fun _ hu => by cases hu),Builder.closeScope]
  simp only [List.append_nil,reverse_ofText]

/-- Drawing the marks gives the tree. -/
lemma finish_drawFrom (text : Source) (p : Nat) (marks : List Mark) {before : List Tree}
    (h : ∀ u ∈ before.head?, u.isLeaf = false) :
    (Scan.drawFrom text p marks { current := before }).finish = before.reverse ++ lineTrees text p marks := by
  induction marks generalizing p before with
  | nil =>
    rw [Scan.drawFrom,addText_apart _ h]
    simp [Builder.finish,Builder.closeAll,Builder.collapse,lineTrees,reverse_ofText]
  | cons m marks ih =>
    rw [Scan.drawFrom,m.draw_eq text p h,ih m.stop (fun u hu => by cases hu; rfl),lineTrees]
    simp [reverse_ofText]

/-- Behind other text, the tree of the marks stays as it is. -/
lemma lineTrees_back (front back : Source) (k : Nat) (marks : List Mark) :
    lineTrees (front ++ back) (front.size + k) (marks.map (·.shift front.size)) = lineTrees back k marks := by
  induction marks generalizing k with
  | nil =>
    simp only [lineTrees,List.map_nil,Array.size_append,Source.slice_back]
  | cons m marks ih =>
    simp only [lineTrees,List.map_cons,Mark.shift_mode,Mark.shift_start,Mark.shift_stop,
      Source.slice_back,ih]

/-- The first text of a tree of marks, and what comes after it. -/
def firstText (text : Source) (p : Nat) (marks : List Mark) : String :=
  text.slice p ((marks.head?.map Mark.start).getD text.size)

def afterText (text : Source) : List Mark → List Tree
  | [] => []
  | m :: marks => .scope { kind := some m.mode.className } (ofText (text.slice m.start m.stop)) ::
      lineTrees text m.stop marks

lemma lineTrees_eq (text : Source) (p : Nat) (marks : List Mark) :
    lineTrees text p marks = ofText (firstText text p marks) ++ afterText text marks := by
  cases marks with
  | nil => simp [lineTrees,firstText,afterText]
  | cons m marks => rfl

lemma apart_afterText (text : Source) (marks : List Mark) :
    ∀ u ∈ (mergeLeaves (afterText text marks)).head?, u.isLeaf = false := by
  intro u hu
  cases marks with
  | nil => cases hu
  | cons m marks =>
    obtain rfl := Option.some.inj hu
    rfl

/-- There are no leaves to merge in the tree of some marks. -/
lemma mergeLeaves_afterText (text : Source) (marks : List Mark) :
    mergeLeaves (afterText text marks) = afterText text marks := by
  induction marks with
  | nil => rfl
  | cons m marks ih =>
    rw [afterText,mergeLeaves_scope,lineTrees_eq,mergeLeaves_ofText (apart_afterText text marks),ih]

lemma firstText_back (front back : Source) (marks : List Mark) (hp : p ≤ front.size) :
    firstText (front ++ back) p (marks.map (·.shift front.size)) =
      front.slice p front.size ++ firstText back 0 marks := by
  cases marks with
  | nil => exact (congrArg _ Array.size_append).trans (Source.slice_across back hp back.size)
  | cons m marks => exact Source.slice_across back hp m.start

lemma afterText_back (front back : Source) (marks : List Mark) :
    afterText (front ++ back) (marks.map (·.shift front.size)) = afterText back marks := by
  cases marks with
  | nil => rfl
  | cons m marks =>
    simp only [afterText,List.map_cons,Mark.shift_mode,Mark.shift_start,Mark.shift_stop,
      Source.slice_back,lineTrees_back]

/-- The tree of a text with a line break in it, by the marks of what is before and of what is after. -/
theorem lineTrees_append (hp : p ≤ front.size) (hmarks : ∀ m ∈ marks, m.start ≤ front.size ∧ m.stop ≤ front.size)
    (back : Source) (marks' : List Mark) :
    lineTrees (front ++ #['\n'] ++ back) p (marks ++ marks'.map (·.shift (front.size + 1))) =
      mergeLeaves (lineTrees front p marks ++ .leaf "\n" :: lineTrees back 0 marks') := by
  induction marks generalizing p with
  | nil =>
    have hsize : front.size + 1 = (front ++ #['\n']).size := by simp
    have hbreak : Source.slice (front ++ #['\n']) p (front.size + 1) = front.slice p front.size ++ "\n" :=
      Source.slice_across #['\n'] hp 1
    have hfirst := firstText_back (front ++ #['\n']) back marks' (Nat.le_trans hp (hsize ▸ Nat.le_succ _))
    have hne : firstText (front ++ #['\n'] ++ back) p (marks'.map (·.shift (front ++ #['\n']).size)) ≠ "" := by
      rw [hfirst,← hsize,hbreak]
      simp
    rw [lineTrees_eq back,lineTrees,mergeLeaves_around (apart_afterText back marks'),mergeLeaves_afterText,
      List.nil_append,hsize,lineTrees_eq,ofText_of_ne hne,hfirst,← hsize,hbreak,hsize,afterText_back]
    rfl
  | cons m marks ih =>
    obtain ⟨⟨hstart,hstop⟩,hmarks⟩ := List.forall_mem_cons.mp hmarks
    have hslice : ∀ a b, b ≤ front.size →
        Source.slice (front ++ #['\n'] ++ back) a b = front.slice a b := by
      intro a b hb
      rw [Array.append_assoc,Source.slice_front _ hb]
    have hapart : ∀ ts, ∀ u ∈ (mergeLeaves (.scope { kind := some m.mode.className }
        (ofText (front.slice m.start m.stop)) :: ts)).head?, u.isLeaf = false := by
      intro ts u hu
      obtain rfl := Option.some.inj hu
      rfl
    rw [List.cons_append,lineTrees,lineTrees,hslice p m.start hstart,hslice m.start m.stop hstop,
      ih hstop hmarks,List.append_assoc,List.cons_append,mergeLeaves_ofText (hapart _),mergeLeaves_scope]

/-! What holds of the marks that a scan comes to. -/
section Marked

variable {ms : List LineMode}

lemma MarkedFrom.within (h : MarkedFrom ms text p marks)
    (htakes : ∀ rule ∈ LineMode.rules ms, rule.takesSome false = true) :
    ∀ m ∈ marks, m.start ≤ text.size ∧ m.stop ≤ text.size := by
  induction h with
  | done => exact fun m hm => by cases hm
  | mark hm _ ih =>
    obtain ⟨h1,h2,h3,h4⟩ := hm.within htakes
    exact List.forall_mem_cons.mpr ⟨⟨by omega,h4⟩,ih⟩

/-- A rule that stays in a line takes no line break. -/
lemma Rules.Rule.char_of_staysInLine {rule : Rule} {ic : Bool} (h : rule.staysInLine ic = true) {q stop c : Nat}
    (hend : rule.end? ic text q = some stop) (hq : q ≤ c) (hc : c < stop) : text[c]? ≠ some '\n' := by
  intro hbreak
  -- otherwise the rule would match in what comes before the break, and no further
  have hlt : c < text.size := (Array.getElem?_eq_some_iff.mp hbreak).1
  have hsize : (text.extract 0 c).size = c := by
    rw [Array.size_extract]
    omega
  have hlines : Lines (text.extract 0 c) text 0 := by
    refine ⟨by omega,fun k hk => ?_,.inl rfl,.inr ?_⟩
    · rw [Array.getElem?_extract,if_pos (by omega)]
    · rw [hsize,Nat.zero_add]
      exact hbreak
  have hend' := Rule.end?_lines h hlines (hsize.symm ▸ hq)
  rw [Nat.zero_add,hend] at hend'
  obtain ⟨stop',hstop',hshift⟩ := Option.map_eq_some_iff.mp hend'.symm
  obtain ⟨pattern,hpattern,-⟩ := (Option.any_eq_true _ _).mp h
  have hle := (Rule.end?_within hpattern (hsize.symm ▸ hq) hstop').2
  omega

/-- A mark stays in its line. -/
lemma Mark.Comes.char (h : m.Comes ms text p)
    (hstays : ∀ rule ∈ LineMode.rules ms, rule.staysInLine false = true) {c : Nat} (hc : m.start ≤ c)
    (hlt : c < m.stop) : text[c]? ≠ some '\n' := by
  obtain ⟨⟨i,-,hfires⟩,hstops⟩ := h
  obtain ⟨rule,hrule,hend⟩ := Option.bind_eq_some_iff.mp hfires.stop
  rcases Nat.lt_or_ge c m.opened with hbegin | hrest
  · exact Rule.char_of_staysInLine (hstays rule (List.mem_of_getElem? hrule)) hend hc hbegin
  · by_cases htoLineEnd : m.mode.toLineEnd = true
    · rw [LineMode.StopsAt,if_pos htoLineEnd] at hstops
      have hends := hstops.least c hrest hlt
      intro hbreak
      simp [Assertion.holds,Haystack.charAt?,hbreak] at hends
    · rw [LineMode.StopsAt,if_neg htoLineEnd] at hstops
      omega

/-- No scope has a line break in it. -/
lemma MarkedFrom.scope_text (h : MarkedFrom ms text p marks)
    (hstays : ∀ rule ∈ LineMode.rules ms, rule.staysInLine false = true) {tag : Tag} {children : List Tree}
    (hmem : .scope tag children ∈ lineTrees text p marks) :
    '\n' ∉ (Tree.scope tag children).text.toList := by
  have hleaf : ∀ s, Tree.scope tag children ∉ ofText s := by
    intro s hs
    unfold ofText at hs
    split at hs
    · cases hs
    · cases List.mem_singleton.mp hs
  induction h with
  | done => exact absurd hmem (hleaf _)
  | @mark p m marks hm _ ih =>
    rw [lineTrees] at hmem
    rcases List.mem_append.mp hmem with hmem | hmem
    · exact absurd hmem (hleaf _)
    · rcases List.mem_cons.mp hmem with heq | hmem
      · obtain ⟨-,rfl⟩ := Tree.scope.inj heq
        rw [text_scope,texts_ofText]
        intro hbreak
        rw [Source.slice,String.toList_ofList,Array.mem_toList_iff,Array.mem_extract_iff_getElem] at hbreak
        obtain ⟨k,hk,hbreak⟩ := hbreak
        exact hm.char hstays (Nat.le_add_right _ k) (by omega) (Array.getElem?_eq_some_iff.mpr ⟨_,hbreak⟩)
      · exact ih hmem

/-- What all marks score. -/
def scoreMarks (marks : List Mark) : Nat :=
  marks.foldl (fun r m => addRelevance r m.mode.relevance) 0

lemma foldl_addRelevance (marks : List Mark) {r : Nat} (hr : r ≤ maxRelevance) :
    marks.foldl (fun r m => addRelevance r m.mode.relevance) r = addRelevance r (scoreMarks marks) := by
  have hsum : ∀ r ≤ maxRelevance, marks.foldl (fun r m => addRelevance r m.mode.relevance) r =
      addRelevance r (marks.map (·.mode.relevance)).sum := by
    induction marks with
    | nil => exact fun r hr => (Nat.min_eq_left hr).symm
    | cons m marks ih =>
      intro r _
      rw [List.foldl_cons,List.map_cons,List.sum_cons]
      refine (ih (addRelevance r m.mode.relevance) (Nat.min_le_right _ _)).trans ?_
      simp only [addRelevance]
      omega
  rw [hsum r hr,scoreMarks,hsum 0 (Nat.zero_le _)]
  simp only [addRelevance]
  omega

/-- Scores add up, as far as relevance goes. -/
lemma scoreMarks_append (marks marks' : List Mark) (lo : Nat) :
    scoreMarks (marks ++ marks'.map (·.shift lo)) = addRelevance (scoreMarks marks) (scoreMarks marks') := by
  have hle : scoreMarks marks ≤ maxRelevance := by
    have h := foldl_addRelevance marks (Nat.zero_le maxRelevance)
    rw [scoreMarks,h]
    exact Nat.min_le_right _ _
  rw [scoreMarks,List.foldl_append,List.foldl_map]
  exact foldl_addRelevance marks' hle

end Marked

end Highlight
