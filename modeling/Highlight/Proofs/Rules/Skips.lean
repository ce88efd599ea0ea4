import Highlight.Proofs.Rules.Grouped

/-!
What the reader of patterns passes over in one go: numbers, names, bounds of repetitions and flags. In
a group they are the same, and the light scan finds nothing in them.
-/
namespace Highlight.Rules

open Regex

/-- What the light scan goes over without finding a group or a reference. -/
def Skips (named : Bool) (d : Nat) (cs : List Char) (d' : Nat) (cs' : List Char) : Prop :=
  ∃ u, cs = u ++ cs' ∧ Passes named d u d' cs'

variable {named : Bool} {d d' d'' o n : Nat} {c : Char} {tail cs cs' cs'' : List Char}

namespace Skips

lemma refl (cs : List Char) : Skips named d cs d cs := ⟨[],rfl,.nil⟩

lemma trans (h : Skips named d cs d' cs') (h' : Skips named d' cs' d'' cs'') :
    Skips named d cs d'' cs'' := by
  obtain ⟨u,rfl,hu⟩ := h
  obtain ⟨v,rfl,hv⟩ := h'
  exact ⟨u ++ v,(List.append_assoc u v cs'').symm,hu.append hv⟩

lemma cons (hc : IsOrdinary c ∧ c ≠ ')') (cs : List Char) : Skips named d (c :: cs) d cs :=
  ⟨[c],rfl,.ordinaries (by simpa using hc)⟩

lemma close (cs : List Char) : Skips named d (')' :: cs) (d - 1) cs :=
  ⟨[')'],rfl,.ordinary ⟨by decide,by decide,by decide⟩⟩

lemma dropWhile {p : Char → Bool} (hp : Spares p) (cs : List Char) :
    Skips named d cs d (cs.dropWhile p) :=
  ⟨cs.takeWhile p,List.takeWhile_append_dropWhile.symm,hp.passes_takeWhile⟩

lemma fits (h : Skips named d cs d' cs') (hf : FitsFrom named d cs) : FitsFrom named d' cs' := by
  obtain ⟨u,rfl,hu⟩ := h
  exact hu.fits hf

lemma count (h : Skips named d cs d' cs') : groupCount cs = groupCount cs' := by
  obtain ⟨u,rfl,hu⟩ := h
  exact hu.count

lemma names (h : Skips named d cs d' cs') : groupNames cs = groupNames cs' := by
  obtain ⟨u,rfl,hu⟩ := h
  exact hu.names

lemma sealedFrom {foreign own : List String} (h : Skips named d cs d' cs') (hs : SealedFrom foreign own d cs) :
    SealedFrom foreign own d' cs' := by
  obtain ⟨u,rfl,hu⟩ := h
  exact hu.sealedFrom _ _ hs

lemma length_le (h : Skips named d cs d' cs') : cs'.length ≤ cs.length := by
  obtain ⟨u,rfl,-⟩ := h
  simp

lemma length_inGroup_le (h : Skips named d cs d' cs') :
    (inGroup o tail cs').length ≤ (inGroup o tail cs).length := by
  obtain ⟨u,rfl,hu⟩ := h
  rw [hu.inGroup]
  simp

end Skips

section Numbers

lemma readDecimal?_eq (cs : List Char) : readDecimal? cs =
    if (cs.takeWhile Char.isDigit).isEmpty ||
      UInt64.size ≤ decimalValue (cs.takeWhile Char.isDigit) then none
    else some (decimalValue (cs.takeWhile Char.isDigit),cs.dropWhile Char.isDigit) := rfl

lemma readDecimal?_inGroup : readDecimal? (inGroup o tail cs) =
    (readDecimal? cs).map (fun r => (r.1,inGroup o tail r.2)) := by
  rw [readDecimal?_eq,readDecimal?_eq,spares_isDigit.takeWhile_inGroup,
    spares_isDigit.dropWhile_inGroup,apply_ite (Option.map _)]
  rfl

lemma readDecimal?_eq_some (h : readDecimal? cs = some (n,cs')) :
    n = decimalValue (cs.takeWhile Char.isDigit) ∧ cs' = cs.dropWhile Char.isDigit ∧
      n < UInt64.size := by
  rw [readDecimal?_eq,Option.ite_none_left_eq_some] at h
  obtain ⟨hc,h⟩ := h
  obtain ⟨rfl,rfl⟩ := Prod.mk.inj (Option.some.inj h)
  refine ⟨rfl,rfl,?_⟩
  simp only [Bool.or_eq_true,decide_eq_true_eq,not_or,Nat.not_le] at hc
  exact hc.2

lemma skips_readDecimal? (h : readDecimal? cs = some (n,cs')) : Skips named d cs d cs' := by
  obtain ⟨-,rfl,-⟩ := readDecimal?_eq_some h
  exact .dropWhile spares_isDigit cs

lemma eq_cons_of_takeMark {mark : Char} (h : (takeMark mark cs).1 = true) :
    cs = mark :: (takeMark mark cs).2 := by
  unfold takeMark at h ⊢
  by_cases hc : cs.head? = some mark
  · obtain ⟨cs,rfl⟩ := List.head?_eq_some_iff.mp hc
    simp
  · rw [if_neg hc] at h
    cases h

lemma takeMark_inGroup {mark : Char} (hm : IsOrdinary mark ∧ mark ≠ ')') :
    takeMark mark (inGroup o tail cs) =
      ((takeMark mark cs).1,inGroup o tail (takeMark mark cs).2) := by
  unfold takeMark
  by_cases h : cs.head? = some mark
  · obtain ⟨cs,rfl⟩ := List.head?_eq_some_iff.mp h
    rw [inGroup_ordinary hm.1]
    simp
  · have h' : (inGroup o tail cs).head? ≠ some mark := fun he => h (head?_of_inGroup hm.2 he)
    rw [if_neg h,if_neg h']

lemma skips_takeMark {mark : Char} (hm : IsOrdinary mark ∧ mark ≠ ')') (cs : List Char) :
    Skips named d cs d (takeMark mark cs).2 := by
  unfold takeMark
  by_cases h : cs.head? = some mark
  · obtain ⟨cs,rfl⟩ := List.head?_eq_some_iff.mp h
    simpa using Skips.cons hm cs
  · rw [if_neg h]
    exact .refl cs

lemma isOrdinary_comma : IsOrdinary ',' ∧ ',' ≠ ')' := ⟨⟨by decide,by decide,by decide⟩,by decide⟩
lemma isOrdinary_brace : IsOrdinary '\x7d' ∧ '\x7d' ≠ ')' :=
  ⟨⟨by decide,by decide,by decide⟩,by decide⟩
lemma isOrdinary_question : IsOrdinary '?' ∧ '?' ≠ ')' :=
  ⟨⟨by decide,by decide,by decide⟩,by decide⟩
lemma isOrdinary_plus : IsOrdinary '+' ∧ '+' ≠ ')' := ⟨⟨by decide,by decide,by decide⟩,by decide⟩

lemma readLeast?_inGroup : readLeast? (inGroup o tail cs) =
    (readLeast? cs).map (fun r => (r.1,inGroup o tail r.2)) := by
  unfold readLeast?
  by_cases h : cs.head? = some ','
  · have h' : (inGroup o tail cs).head? = some ',' := by rw [head?_inGroup,h]; rfl
    rw [if_pos h,if_pos h']
    rfl
  · have h' : (inGroup o tail cs).head? ≠ some ',' := fun he => h (head?_of_inGroup (by decide) he)
    rw [if_neg h,if_neg h',readDecimal?_inGroup]

lemma skips_readLeast? (h : readLeast? cs = some (n,cs')) : Skips named d cs d cs' := by
  unfold readLeast? at h
  split at h
  · obtain ⟨-,rfl⟩ := Prod.mk.inj (Option.some.inj h)
    exact .refl cs
  · exact skips_readDecimal? h

variable {least : Nat} {most : Option Nat}

lemma readMost?_inGroup (hf : FitsFrom named d cs) : readMost? false least (inGroup o tail cs) =
    (readMost? false least cs).map (fun r => (r.1,inGroup o tail r.2)) := by
  have hmark := (skips_takeMark isOrdinary_comma cs).fits hf
  simp only [readMost?,takeMark_inGroup isOrdinary_comma]
  split
  · rw [skipBlanks_eq hmark.noComment,skipBlanks_eq hmark.noComment_inGroup]
    simp only [Except.toOption,Option.bind_eq_bind,Option.bind_some,readDecimal?_inGroup]
    cases readDecimal? (takeMark ',' cs).2 with
    | none => rfl
    | some r => rfl
  · rfl

lemma skips_readMost? (hf : FitsFrom named d cs) (h : readMost? false least cs = some (most,cs')) :
    Skips named d cs d cs' := by
  have hmark : Skips named d cs d (takeMark ',' cs).2 := skips_takeMark isOrdinary_comma cs
  simp only [readMost?] at h
  split at h
  · rw [skipBlanks_eq (hmark.fits hf).noComment] at h
    simp only [Except.toOption,Option.bind_eq_bind,Option.bind_some] at h
    split at h
    · rename_i hr
      obtain ⟨-,rfl⟩ := Prod.mk.inj (Option.some.inj h)
      exact hmark.trans (skips_readDecimal? hr)
    · obtain ⟨-,rfl⟩ := Prod.mk.inj (Option.some.inj h)
      exact hmark
  · obtain ⟨-,rfl⟩ := Prod.mk.inj (Option.some.inj h)
    exact hmark

/-- The bounds of a repetition are the same in a group. -/
theorem readBounds?_inGroup (hf : FitsFrom named d cs) : readBounds? false (inGroup o tail cs) =
    (readBounds? false cs).map (fun r => (r.1,r.2.1,inGroup o tail r.2.2)) := by
  simp only [readBounds?,skipBlanks_eq hf.noComment,skipBlanks_eq hf.noComment_inGroup,
    Except.toOption,Option.bind_eq_bind,Option.bind_some,readLeast?_inGroup]
  cases hl : readLeast? cs with
  | none => rfl
  | some r =>
    have hf := (skips_readLeast? (d := d) (n := r.1) hl).fits hf
    simp only [Option.map_some,Option.bind_some,skipBlanks_eq hf.noComment,
      skipBlanks_eq hf.noComment_inGroup,readMost?_inGroup hf]
    cases hm : readMost? false r.1 r.2 with
    | none => rfl
    | some r' =>
      have hf := (skips_readMost? hf hm).fits hf
      simp only [Option.map_some,Option.bind_some,skipBlanks_eq hf.noComment,
        skipBlanks_eq hf.noComment_inGroup,takeMark_inGroup isOrdinary_brace]
      split
      · rfl
      · rfl

lemma skips_readBounds? (hf : FitsFrom named d cs)
    (h : readBounds? false cs = some (least,most,cs')) : Skips named d cs d cs' := by
  simp only [readBounds?,skipBlanks_eq hf.noComment,Except.toOption,Option.bind_eq_bind,
    Option.bind_some] at h
  obtain ⟨r,hl,h⟩ := Option.bind_eq_some_iff.mp h
  have hleast : Skips named d cs d r.2 := skips_readLeast? hl
  have hf := hleast.fits hf
  simp only [skipBlanks_eq hf.noComment,Option.bind_some] at h
  obtain ⟨r',hm,h⟩ := Option.bind_eq_some_iff.mp h
  have hmost := skips_readMost? hf hm
  have hf := hmost.fits hf
  simp only [skipBlanks_eq hf.noComment,Option.bind_some] at h
  split at h
  · cases h
    exact (hleast.trans hmost).trans (skips_takeMark isOrdinary_brace _)
  · cases h

end Numbers

section Names

variable {f : Flags} {x : Lexeme} {name : String} {closing : Char}

lemma readName?_eq_some (h : readName? closing cs = some (name,cs')) :
    name.toList = cs.takeWhile Text.isNameChar ∧ cs.dropWhile Text.isNameChar = closing :: cs' ∧
      name.toList ≠ [] := by
  simp only [readName?] at h
  split at h
  · rename_i c rest hdrop
    simp only [Option.ite_none_right_eq_some,Bool.and_eq_true,decide_eq_true_eq,
      Option.some.injEq,Prod.mk.injEq] at h
    obtain ⟨⟨rfl,hne⟩,rfl,rfl⟩ := h
    exact ⟨String.toList_ofList,hdrop,by simpa [String.toList_ofList] using hne⟩
  · cases h

lemma readName?_inGroup (hc : IsOrdinary closing) (h : readName? closing cs = some (name,cs')) :
    readName? closing (inGroup o tail cs) = some (name,inGroup o tail cs') := by
  obtain ⟨hname,hdrop,hne⟩ := readName?_eq_some h
  simp only [readName?,spares_isNameChar.takeWhile_inGroup,spares_isNameChar.dropWhile_inGroup,
    hdrop,inGroup_ordinary hc,← hname,String.ofList_toList]
  refine if_pos ?_
  simpa only [decide_true,Bool.true_and,Bool.not_eq_true',List.isEmpty_eq_false_iff] using hne

lemma skips_readName? (h : readName? closing cs = some (name,cs')) :
    Skips named d cs d (closing :: cs') := by
  obtain ⟨-,hdrop,-⟩ := readName?_eq_some h
  rw [← hdrop]
  exact .dropWhile spares_isNameChar cs

end Names

section InlineFlags

variable {f f' : Flags} {x : Lexeme}

lemma setFlag?_eq_some {on : Bool} (h : setFlag? f on c = some f') (hc : c ≠ 'x') :
    isFlagChar c = true ∧ f'.extended = f.extended := by
  unfold setFlag? at h
  split at h
  · cases h; exact ⟨rfl,rfl⟩
  · cases h; exact ⟨rfl,rfl⟩
  · cases h; exact ⟨rfl,rfl⟩
  · cases h; exact ⟨rfl,rfl⟩
  · exact absurd rfl hc
  · split at h
    · cases h; exact ⟨rfl,rfl⟩
    · cases h
  · cases h

/-- Flags were read: they hold for a group that stays open, or the parenthesis is closed. -/
inductive ReadsFlags (named : Bool) (d : Nat) (cs : List Char) : Lexeme → List Char → Prop
  | inside {f : Flags} {cs' : List Char} : f.extended = false → Skips named d cs d cs' →
      ReadsFlags named d cs (.plain f) cs'
  | closed {f : Flags} {cs' : List Char} : f.extended = false → Skips named d cs (d - 1) cs' →
      ReadsFlags named d cs (.flags f) cs'

lemma ReadsFlags.cons (h : ReadsFlags named d cs x cs') (hc : IsOrdinary c ∧ c ≠ ')') :
    ReadsFlags named d (c :: cs) x cs' := by
  cases h with
  | inside hx hs => exact .inside hx ((Skips.cons hc cs).trans hs)
  | closed hx hs => exact .closed hx ((Skips.cons hc cs).trans hs)

/-- Flags without the extended one are the same in a group. -/
theorem lexFlags_inGroup {m : Nat} {off : Bool} {count : Nat} (hx : f.extended = false)
    (hf : FitsFrom named d cs) (hflags : 'x' ∉ cs.takeWhile isFlagChar)
    (h : lexFlags n f off count cs = .ok (x,cs')) (hm : (inGroup o tail cs).length ≤ m) :
    lexFlags m f off count (inGroup o tail cs) = .ok (x,inGroup o tail cs') ∧
      ReadsFlags named d cs x cs' := by
  induction n generalizing m f off count cs with
  | zero => cases h
  | succ n ih =>
    cases cs with
    | nil =>
      rw [lexFlags,hx,skipBlanks_eq hf.noComment] at h
      cases h
    | cons c rest =>
      obtain ⟨rest',hgroup⟩ := exists_inGroup_cons o tail c rest
      obtain ⟨m,rfl⟩ : ∃ k, m = k + 1 := by
        rw [hgroup,List.length_cons] at hm
        exact ⟨m - 1,by omega⟩
      have hcomment : NoComment (inGroup o tail (c :: rest)) := hf.noComment_inGroup
      -- a character between the question mark and the end of the flags
      have hnext : ∀ {f' : Flags} {off' : Bool}, f'.extended = false → isFlagChar c = true →
          lexFlags n f' off' (count + 1) rest = .ok (x,cs') →
          lexFlags m f' off' (count + 1) rest' = .ok (x,inGroup o tail cs') ∧
            ReadsFlags named d (c :: rest) x cs' := by
        intro f' off' hx' hc h
        have hord := spares_isFlagChar.ordinary hc
        rw [inGroup_ordinary hord.1] at hgroup
        obtain rfl := (List.cons.inj hgroup).2
        rw [List.takeWhile_cons_of_pos hc] at hflags
        have hlen : (inGroup o tail rest).length ≤ m := by
          rw [inGroup_ordinary hord.1,List.length_cons] at hm
          omega
        obtain ⟨hlex,hread⟩ := ih hx' ((Skips.cons hord rest).fits hf)
          (fun hmem => hflags (List.mem_cons_of_mem c hmem)) h hlen
        exact ⟨hlex,hread.cons hord⟩
      rw [hgroup] at hcomment ⊢
      rw [lexFlags,hx,skipBlanks_eq hf.noComment] at h
      rw [lexFlags,hx,skipBlanks_eq hcomment]
      simp only [bind,Except.bind,pure,Except.pure] at h ⊢
      by_cases hminus : c = '-'
      · rw [if_pos hminus] at h ⊢
        cases off with
        | true => cases h
        | false => exact hnext hx (by rw [hminus]; rfl) h
      · rw [if_neg hminus] at h ⊢
        by_cases hclose : c = ')'
        · subst hclose
          rw [if_pos rfl] at h ⊢
          rw [inGroup_ordinary ⟨by decide,by decide,by decide⟩] at hgroup
          obtain rfl := (List.cons.inj hgroup).2
          split at h
          · cases h
          · rename_i hcount
            obtain ⟨rfl,rfl⟩ := Prod.mk.inj (Except.ok.inj h)
            rw [if_neg hcount]
            exact ⟨rfl,.closed hx (.close rest)⟩
        · rw [if_neg hclose] at h ⊢
          by_cases hcolon : c = ':'
          · subst hcolon
            have hord : IsOrdinary ':' ∧ ':' ≠ ')' := ⟨⟨by decide,by decide,by decide⟩,by decide⟩
            rw [if_pos rfl] at h ⊢
            rw [inGroup_ordinary hord.1] at hgroup
            obtain rfl := (List.cons.inj hgroup).2
            split at h
            · cases h
            · rename_i hcount
              obtain ⟨rfl,rfl⟩ := Prod.mk.inj (Except.ok.inj h)
              rw [if_neg hcount]
              exact ⟨rfl,.inside hx (.cons hord rest)⟩
          · rw [if_neg hcolon] at h ⊢
            cases hset : setFlag? f (!off) c with
            | none =>
              rw [hset] at h
              cases h
            | some f' =>
              rw [hset] at h
              have hxc : c ≠ 'x' := by
                rintro rfl
                rw [List.takeWhile_cons_of_pos rfl] at hflags
                exact hflags List.mem_cons_self
              obtain ⟨hc,hext⟩ := setFlag?_eq_some hset hxc
              exact hnext (hext.trans hx) hc h

end InlineFlags
end Highlight.Rules
