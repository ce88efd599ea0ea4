import Highlight.Proofs.Rules.Enclosed

/-!
A text before a bar. What the reader of patterns passes over in one go ends before the bar: runs of
characters, comments and the bounds of repetitions.
-/
namespace Highlight.Rules

open Regex

/-- A text, a bar and what follows the bar. -/
def barred (tail cs : List Char) : List Char := cs ++ '|' :: tail

variable {e : Bool} {c : Char} {n m : Nat} {tail cs cs' cs₁ : List Char}

lemma barred_cons : barred tail (c :: cs) = c :: barred tail cs := rfl

lemma barred_append (u cs : List Char) : barred tail (u ++ cs) = u ++ barred tail cs :=
  List.append_assoc u cs _

lemma head?_barred : (barred tail cs).head? = some (cs.head?.getD '|') := by
  cases cs with
  | nil => rfl
  | cons c cs => rfl

lemma head?_of_barred (hc : c ≠ '|') (h : (barred tail cs).head? = some c) : cs.head? = some c := by
  rw [head?_barred] at h
  cases cs with
  | nil => exact absurd (Option.some.inj h).symm hc
  | cons a cs => exact h

lemma eq_cons_of_barred {rest : List Char} (hne : cs ≠ []) (h : barred tail cs = c :: rest) :
    ∃ rest', cs = c :: rest' ∧ rest = barred tail rest' := by
  cases cs with
  | nil => exact absurd rfl hne
  | cons a cs =>
    obtain ⟨rfl,rfl⟩ := List.cons.inj h
    exact ⟨cs,rfl,rfl⟩

section Runs

variable {p : Char → Bool}

lemma takeWhile_barred (hp : p '|' = false) (cs : List Char) :
    (barred tail cs).takeWhile p = cs.takeWhile p := by
  induction cs with
  | nil => exact List.takeWhile_cons_of_neg (by simp [hp])
  | cons c cs ih =>
    rw [barred_cons,List.takeWhile_cons,List.takeWhile_cons,ih]

lemma dropWhile_barred (hp : p '|' = false) (cs : List Char) :
    (barred tail cs).dropWhile p = barred tail (cs.dropWhile p) := by
  induction cs with
  | nil => exact List.dropWhile_cons_of_neg (by simp [hp])
  | cons c cs ih =>
    rw [barred_cons,List.dropWhile_cons,List.dropWhile_cons,ih]
    split
    · rfl
    · rfl

/-- A line that ends before the bar. -/
lemma dropLine_barred (h : (cs.dropWhile (· != '\n')).drop 1 ≠ []) :
    ((barred tail cs).dropWhile (· != '\n')).drop 1 =
      barred tail ((cs.dropWhile (· != '\n')).drop 1) := by
  induction cs with
  | nil => exact absurd rfl h
  | cons c cs ih =>
    rw [List.dropWhile_cons] at h
    rw [barred_cons,List.dropWhile_cons,List.dropWhile_cons]
    split
    · rename_i hc
      rw [if_pos hc] at h
      exact ih h
    · rfl

lemma takeMark_barred {mark : Char} (hm : mark ≠ '|') (cs : List Char) :
    takeMark mark (barred tail cs) = ((takeMark mark cs).1,barred tail (takeMark mark cs).2) := by
  unfold takeMark
  by_cases h : cs.head? = some mark
  · obtain ⟨cs,rfl⟩ := List.head?_eq_some_iff.mp h
    simp [barred_cons]
  · rw [if_neg h,if_neg (fun hin => h (head?_of_barred hm hin))]

lemma takeMark_suffix (mark : Char) (cs : List Char) : (takeMark mark cs).2 <:+ cs := by
  unfold takeMark
  split
  · exact List.tail_suffix cs
  · exact List.suffix_refl cs

lemma readDecimal?_barred (cs : List Char) : readDecimal? (barred tail cs) =
    (readDecimal? cs).map (fun r => (r.1,barred tail r.2)) := by
  rw [readDecimal?_eq,readDecimal?_eq,takeWhile_barred rfl,dropWhile_barred rfl,
    apply_ite (Option.map _)]
  rfl

lemma readDecimal?_suffix (h : readDecimal? cs = some (n,cs')) : cs' <:+ cs := by
  obtain ⟨-,rfl,-⟩ := readDecimal?_eq_some h
  exact List.dropWhile_suffix _

end Runs

section Blanks

lemma skipComment_barred (h : skipComment cs = .ok cs') :
    cs' <:+ cs ∧ ∀ tail, skipComment (barred tail cs) = .ok (barred tail cs') := by
  induction cs using skipComment.induct with
  | case1 => cases h
  | case2 cs =>
    obtain rfl := Except.ok.inj h
    exact ⟨List.suffix_cons _ _,fun _ => rfl⟩
  | case3 c cs ih =>
    obtain ⟨hsuffix,hall⟩ := ih h
    exact ⟨(hsuffix.trans (List.suffix_cons _ _)).trans (List.suffix_cons _ _),hall⟩
  | case4 c cs hclose hescape ih =>
    rw [skipComment] at h
    · obtain ⟨hsuffix,hall⟩ := ih h
      refine ⟨hsuffix.trans (List.suffix_cons _ _),fun tail => ?_⟩
      rw [barred_cons,skipComment]
      · exact hall tail
      · exact hclose
      · intro b rest hc hrest
        cases cs with
        | nil => cases h
        | cons b cs => exact hescape b cs hc rfl
    · exact hclose
    · exact hescape

/-- The beginning of a text that is passed over in one step: a comment or, in extended mode, a line
comment or a blank. -/
inductive SkipsOne (e : Bool) : List Char → List Char → Prop
  | comment {cs cs' : List Char} : skipComment cs = .ok cs' →
      SkipsOne e ('(' :: '?' :: '#' :: cs) cs'
  | line {cs : List Char} : e = true →
      SkipsOne e ('#' :: cs) ((cs.dropWhile (· != '\n')).drop 1)
  | blank {c : Char} {cs : List Char} : e = true → c ∈ [' ','\r','\n','\t'] →
      SkipsOne e (c :: cs) cs

namespace SkipsOne

lemma run (h : SkipsOne e cs cs₁) (n : Nat) :
    skipBlanksWithin e (n + 1) cs = skipBlanksWithin e n cs₁ := by
  cases h with
  | comment h =>
    simp only [skipBlanksWithin,h]
    rfl
  | line he =>
    subst he
    rfl
  | blank he hc =>
    subst he
    simp only [List.mem_cons,List.not_mem_nil,or_false] at hc
    rcases hc with rfl | rfl | rfl | rfl
    · rfl
    · rfl
    · rfl
    · rfl

lemma suffix (h : SkipsOne e cs cs₁) : cs₁ <:+ cs ∧ cs₁.length < cs.length := by
  have hdrop : ∀ cs : List Char, (cs.dropWhile (· != '\n')).drop 1 <:+ cs :=
    fun cs => (List.drop_suffix _ _).trans (List.dropWhile_suffix _)
  have hcons : ∀ (c : Char) {cs cs₁ : List Char}, cs₁ <:+ cs →
      cs₁ <:+ c :: cs ∧ cs₁.length < (c :: cs).length :=
    fun c _ _ h => ⟨h.trans (List.suffix_cons _ _),Nat.lt_succ_of_le h.length_le⟩
  cases h with
  | comment h =>
    have hsuffix := (skipComment_barred h).1
    exact hcons _ ((hsuffix.trans (List.suffix_cons _ _)).trans (List.suffix_cons _ _))
  | line he => exact hcons _ (hdrop _)
  | blank he hc => exact hcons _ (List.suffix_refl _)

lemma barred (h : SkipsOne e cs cs₁) (hend : cs₁ = [] → e = false) (tail : List Char) :
    SkipsOne e (barred tail cs) (barred tail cs₁) := by
  cases h with
  | comment h => exact .comment ((skipComment_barred h).2 tail)
  | line he =>
    have hne : _ ≠ [] := fun hnil => Bool.noConfusion ((hend hnil).symm.trans he)
    rw [← dropLine_barred hne]
    exact .line he
  | blank he hc => exact .blank he hc

end SkipsOne

lemma NoComment.barred (h : NoComment (c :: cs)) (tail : List Char) :
    NoComment (barred tail (c :: cs)) := by
  rintro ⟨rest,hrest⟩
  have heq : '(' :: '?' :: '#' :: rest = c :: (cs ++ '|' :: tail) := hrest
  match cs,heq with
  | [],heq => simp at heq
  | [a],heq => simp at heq
  | a :: b :: cs,heq =>
    simp only [List.cons_append,List.cons.injEq] at heq
    obtain ⟨rfl,rfl,rfl,-⟩ := heq
    exact h ⟨cs,rfl⟩

lemma skipBlanksWithin_stop (hn : NoComment (c :: cs))
    (hc : e = true → c ∉ ['#',' ','\r','\n','\t']) (n : Nat) :
    skipBlanksWithin e n (c :: cs) = .ok (c :: cs) := by
  cases n with
  | zero => rfl
  | succ n =>
    simp only [skipBlanksWithin]
    split
    · rename_i heq
      exact absurd ⟨_,heq.symm⟩ hn
    · rename_i heq
      obtain ⟨rfl,rfl⟩ := List.cons.inj heq
      refine if_neg (fun he => hc he List.mem_cons_self)
    · rename_i heq
      obtain ⟨rfl,rfl⟩ := List.cons.inj heq
      refine if_neg (fun he => ?_)
      simp only [Bool.and_eq_true,Bool.or_eq_true,decide_eq_true_eq] at he
      refine hc he.1 (List.mem_cons_of_mem _ ?_)
      simpa [or_assoc] using he.2
    · contradiction

/-- Nothing is passed over here, or there is a first step. -/
lemma skipBlanksWithin_cons (h : skipBlanksWithin e (n + 1) (c :: cs) = .ok cs') :
    (cs' = c :: cs ∧ NoComment (c :: cs) ∧ (e = true → c ∉ ['#',' ','\r','\n','\t'])) ∨
      ∃ cs₁, SkipsOne e (c :: cs) cs₁ ∧ skipBlanksWithin e n cs₁ = .ok cs' := by
  by_cases hn : NoComment (c :: cs)
  · by_cases hc : e = true ∧ c ∈ ['#',' ','\r','\n','\t']
    · obtain ⟨he,hc⟩ := hc
      rcases List.mem_cons.mp hc with rfl | hc
      · have hline : SkipsOne e ('#' :: cs) _ := .line he
        exact .inr ⟨_,hline,hline.run n ▸ h⟩
      · have hblank : SkipsOne e (c :: cs) cs := .blank he hc
        exact .inr ⟨cs,hblank,hblank.run n ▸ h⟩
    · have hc' : e = true → c ∉ ['#',' ','\r','\n','\t'] := fun he hmem => hc ⟨he,hmem⟩
      rw [skipBlanksWithin_stop hn hc'] at h
      exact .inl ⟨(Except.ok.inj h).symm,hn,hc'⟩
  · obtain ⟨rest,hrest⟩ := Classical.not_not.mp hn
    rw [← hrest] at h ⊢
    obtain ⟨cs₁,hcomment,h⟩ := except_bind_eq_ok.mp h
    exact .inr ⟨cs₁,.comment hcomment,h⟩

/-- What is left is a part of the text, has nothing more to pass over, and is left before a bar as
well. -/
structure Skipped (e : Bool) (cs cs' : List Char) : Prop where
  suffix : cs' <:+ cs
  again : ∀ m, skipBlanksWithin e m cs' = .ok cs'
  barred : (cs' = [] → e = false) → ∀ m tail, cs.length ≤ m →
    skipBlanksWithin e m (barred tail cs) = .ok (barred tail cs')

lemma Skipped.nil (e : Bool) : Skipped e [] [] := by
  refine ⟨List.suffix_refl _,fun m => ?_,fun he m tail _ => skipBlanksWithin_stop ?_ ?_ m⟩
  · cases m with
    | zero => rfl
    | succ m => rfl
  · exact noComment_of_head (by simp)
  · rw [he rfl]
    exact fun he => absurd he Bool.false_ne_true

lemma skipBlanksWithin_skipped (h : skipBlanksWithin e n cs = .ok cs') (hn : cs.length ≤ n) :
    Skipped e cs cs' := by
  induction n generalizing cs with
  | zero =>
    obtain rfl := List.eq_nil_of_length_eq_zero (Nat.le_zero.mp hn)
    obtain rfl := Except.ok.inj h
    exact .nil e
  | succ n ih =>
    cases cs with
    | nil =>
      obtain rfl := Except.ok.inj h
      exact .nil e
    | cons c cs =>
      rcases skipBlanksWithin_cons h with ⟨rfl,hn,hc⟩ | ⟨cs₁,hone,h⟩
      · exact ⟨List.suffix_refl _,skipBlanksWithin_stop hn hc,
          fun _ m tail _ => skipBlanksWithin_stop (hn.barred tail) hc m⟩
      · obtain ⟨hsuffix,hlt⟩ := hone.suffix
        have hrest := ih h (by omega)
        refine ⟨hrest.suffix.trans hsuffix,hrest.again,fun hend m tail hm => ?_⟩
        have hend₁ : cs₁ = [] → e = false := by
          rintro rfl
          exact hend (List.suffix_nil.mp hrest.suffix)
        obtain ⟨m,rfl⟩ := Nat.exists_eq_succ_of_ne_zero
          (Nat.ne_of_gt (Nat.lt_of_lt_of_le (Nat.zero_lt_succ cs.length) hm))
        rw [(hone.barred hend₁ tail).run]
        exact hrest.barred hend m tail (by omega)

lemma skipBlanks_skipped (h : skipBlanks e cs = .ok cs') : Skipped e cs cs' :=
  skipBlanksWithin_skipped h (Nat.le_refl _)

/-- What is passed over before a bar, if it does not take in the end of the text. -/
theorem skipBlanks_barred (h : skipBlanks e cs = .ok cs') (hend : cs' = [] → e = false)
    (tail : List Char) : skipBlanks e (barred tail cs) = .ok (barred tail cs') := by
  refine (skipBlanks_skipped h).barred hend _ tail ?_
  rw [barred,List.length_append]
  exact Nat.le_add_right _ _

end Blanks

section Bounds

lemma readAll_skip {r : Reader} (h : skipBlanks r.flags.extended cs = .ok (c :: cs')) :
    r.readAll (n + 1) cs = r.readToken c cs' >>= fun x => x.1.readAll n x.2 := by
  rw [Reader.readAll,h]
  rfl

/-- A text that some reader goes through to its end; `e` tells whether blanks are passed over at the
start. They are not at the end. -/
def Readable (e : Bool) (cs : List Char) : Prop :=
  ∃ (n : Nat) (r r' : Reader), cs.length < n ∧ r.flags.extended = e ∧ r.readAll n cs = .ok r' ∧
    r'.flags.extended = false

namespace Readable

lemma skip (h : Readable e cs) :
    ∃ cs', skipBlanks e cs = .ok cs' ∧ (cs' = [] → e = false) ∧ Readable e cs' := by
  obtain ⟨n,r,r',hn,rfl,hr,hflags⟩ := h
  obtain ⟨n,rfl⟩ := Nat.exists_eq_succ_of_ne_zero (Nat.ne_of_gt (Nat.zero_lt_of_lt hn))
  have hall := hr
  rw [Reader.readAll,except_bind_eq_ok] at hr
  obtain ⟨cs',hs,hr⟩ := hr
  have hskipped := skipBlanks_skipped hs
  refine ⟨cs',hs,?_,n + 1,r,r',Nat.lt_of_le_of_lt hskipped.suffix.length_le hn,rfl,?_,hflags⟩
  · rintro rfl
    obtain rfl := Except.ok.inj hr
    exact hflags
  · rw [Reader.readAll,skipBlanks,hskipped.again]
    exact hr

/-- A digit or a comma is a piece like any other. -/
lemma next (h : Readable e (c :: cs)) (hc : c.isDigit = true ∨ c = ',') : Readable e cs := by
  have hplain : c ∉ ['|',')','?','*','+','\x7b','(','\\','[','.','^','$'] ∧
      c ∉ ['#',' ','\r','\n','\t'] := by
    simp only [List.mem_cons,List.not_mem_nil,or_false,not_or]
    refine ⟨⟨?_,?_,?_,?_,?_,?_,?_,?_,?_,?_,?_,?_⟩,?_,?_,?_,?_,?_⟩
    all_goals
      rintro rfl
      exact absurd hc (by decide)
  have hopen : c ≠ '(' := by
    rintro rfl
    exact hplain.1 (by decide)
  obtain ⟨n,r,r',hn,rfl,hr,hflags⟩ := h
  obtain ⟨n,rfl⟩ := Nat.exists_eq_succ_of_ne_zero (Nat.ne_of_gt (Nat.zero_lt_of_lt hn))
  have hstop : skipBlanks r.flags.extended (c :: cs) = .ok (c :: cs) :=
    skipBlanksWithin_stop (noComment_of_head (by simpa using hopen)) (fun _ => hplain.2) _
  rw [readAll_skip hstop,except_bind_eq_ok] at hr
  obtain ⟨⟨r₁,rest⟩,htoken,hr⟩ := hr
  obtain ⟨-,x,hlex,happly⟩ := readToken_eq_ok.mp htoken
  rw [lexeme_char hplain.1] at hlex
  obtain ⟨rfl,rfl⟩ := Prod.mk.inj (Except.ok.inj hlex)
  obtain rfl := Except.ok.inj happly
  exact ⟨n,_,r',Nat.lt_of_succ_lt_succ hn,r.flush_flags ▸ rfl,hr,hflags⟩

lemma digits (h : Readable e cs) : Readable e (cs.dropWhile Char.isDigit) := by
  induction cs with
  | nil => exact h
  | cons c cs ih =>
    by_cases hc : c.isDigit = true
    · rw [List.dropWhile_cons_of_pos hc]
      exact ih (h.next (.inl hc))
    · rwa [List.dropWhile_cons_of_neg hc]

lemma decimal (h : Readable e cs) (hd : readDecimal? cs = some (n,cs')) : Readable e cs' := by
  obtain ⟨-,rfl,-⟩ := readDecimal?_eq_some hd
  exact h.digits

lemma least (h : Readable e cs) (hl : readLeast? cs = some (n,cs')) : Readable e cs' := by
  unfold readLeast? at hl
  split at hl
  · obtain ⟨-,rfl⟩ := Prod.mk.inj (Option.some.inj hl)
    exact h
  · exact h.decimal hl

end Readable

/-- What is passed over inside a brace. If there are no bounds, it is read as it stands. -/
lemma exists_skip {α : Type} {F : List Char → Option α} (hnil : F [] = none)
    (h : (skipBlanks e cs).toOption.bind F = none → Readable e cs) :
    ∃ cs', skipBlanks e cs = .ok cs' ∧ cs' <:+ cs ∧
      (∀ tail, skipBlanks e (barred tail cs) = .ok (barred tail cs')) ∧
        (F cs' = none → Readable e cs') := by
  cases hs : skipBlanks e cs with
  | error err =>
    rw [hs] at h
    obtain ⟨cs',hs',-⟩ := (h rfl).skip
    rw [hs] at hs'
    cases hs'
  | ok cs' =>
    rw [hs] at h
    have hread : F cs' = none → (cs' = [] → e = false) ∧ Readable e cs' := by
      intro hnone
      obtain ⟨cs₁,hs₁,hend,hread⟩ := (h hnone).skip
      obtain rfl := Except.ok.inj (hs.symm.trans hs₁)
      exact ⟨hend,hread⟩
    refine ⟨cs',rfl,(skipBlanks_skipped hs).suffix,skipBlanks_barred hs (fun hempty => ?_),
      fun hnone => (hread hnone).2⟩
    subst hempty
    exact (hread hnil).1 rfl

lemma readLeast?_barred : readLeast? (barred tail cs) =
    (readLeast? cs).map (fun r => (r.1,barred tail r.2)) := by
  unfold readLeast?
  by_cases h : cs.head? = some ','
  · have h' : (barred tail cs).head? = some ',' := by rw [head?_barred,h]; rfl
    rw [if_pos h,if_pos h']
    rfl
  · rw [if_neg h,if_neg (fun hin => h (head?_of_barred (by decide) hin)),readDecimal?_barred]

lemma readLeast?_suffix (h : readLeast? cs = some (n,cs')) : cs' <:+ cs := by
  unfold readLeast? at h
  split at h
  · obtain ⟨-,rfl⟩ := Prod.mk.inj (Option.some.inj h)
    exact List.suffix_refl _
  · exact readDecimal?_suffix h

lemma readMost?_comma (least : Nat) (cs : List Char) : readMost? e least (',' :: cs) =
    (skipBlanks e cs).toOption.bind (fun cs =>
      some (match readDecimal? cs with | some (most,cs) => (some most,cs) | none => (none,cs))) := by
  have hmark : takeMark ',' (',' :: cs) = (true,cs) := rfl
  simp only [readMost?,hmark,Option.bind_eq_bind,if_true]
  congr 1
  funext cs
  cases readDecimal? cs with
  | none => rfl
  | some r => rfl

lemma readMost?_other {least : Nat} (h : cs.head? ≠ some ',') :
    readMost? e least cs = some (some least,cs) := by
  have hmark : takeMark ',' cs = (false,cs) := if_neg h
  simp only [readMost?,hmark]
  rfl

lemma readMost?_suffix {least : Nat} {most : Option Nat} (h : readMost? e least cs = some (most,cs')) :
    cs' <:+ cs := by
  by_cases hcomma : cs.head? = some ','
  · obtain ⟨cs,rfl⟩ := List.head?_eq_some_iff.mp hcomma
    rw [readMost?_comma,Option.bind_eq_some_iff] at h
    obtain ⟨cs₁,hs,h⟩ := h
    refine List.IsSuffix.trans ?_ (List.suffix_cons ',' cs)
    cases hskip : skipBlanks e cs with
    | error err =>
      rw [hskip] at hs
      cases hs
    | ok cs₂ =>
      rw [hskip] at hs
      obtain rfl := Option.some.inj hs
      refine List.IsSuffix.trans ?_ (skipBlanks_skipped hskip).suffix
      cases hd : readDecimal? cs₂ with
      | none =>
        rw [hd] at h
        obtain ⟨-,rfl⟩ := Prod.mk.inj (Option.some.inj h)
        exact List.suffix_refl _
      | some r =>
        rw [hd] at h
        obtain ⟨-,rfl⟩ := Prod.mk.inj (Option.some.inj h)
        exact readDecimal?_suffix hd
  · rw [readMost?_other hcomma] at h
    obtain ⟨-,rfl⟩ := Prod.mk.inj (Option.some.inj h)
    exact List.suffix_refl _

/-- The end of the bounds of a repetition. -/
def closeBounds (e : Bool) (least : Nat) (most : Option Nat) (cs : List Char) :
    Option (Nat × Option Nat × List Char) :=
  (skipBlanks e cs).toOption.bind (fun cs =>
    if (takeMark '\x7d' cs).1 = true then some (least,most,(takeMark '\x7d' cs).2) else none)

lemma readBounds?_eq (e : Bool) (cs : List Char) : readBounds? e cs =
    (skipBlanks e cs).toOption.bind (fun cs => (readLeast? cs).bind (fun r =>
      (skipBlanks e r.2).toOption.bind (fun cs => (readMost? e r.1 cs).bind (fun r' =>
        closeBounds e r.1 r'.1 r'.2)))) := rfl

lemma closeBounds_barred {least : Nat} {most : Option Nat}
    (h : closeBounds e least most cs = none → Readable e cs) (tail : List Char) :
    closeBounds e least most (barred tail cs) =
      (closeBounds e least most cs).map (fun r => (r.1,r.2.1,barred tail r.2.2)) := by
  obtain ⟨cs₁,hs₁,-,hb₁,-⟩ := exists_skip rfl h
  simp only [closeBounds,hs₁,hb₁,Except.toOption,Option.bind_some,
    takeMark_barred (show '\x7d' ≠ '|' by decide)]
  split
  · rfl
  · rfl

/-- The bounds of a repetition are the same before a bar. Where they are none, the text is read as it
stands, so that no comment in it takes in the bar. -/
theorem readBounds?_barred (h : readBounds? e cs = none → Readable e cs) (tail : List Char) :
    readBounds? e (barred tail cs) =
      (readBounds? e cs).map (fun r => (r.1,r.2.1,barred tail r.2.2)) := by
  rw [readBounds?_eq] at h ⊢
  rw [readBounds?_eq]
  obtain ⟨cs₁,hs₁,-,hb₁,h⟩ := exists_skip rfl h
  simp only [hs₁,hb₁,Except.toOption,Option.bind_some,readLeast?_barred]
  cases hl : readLeast? cs₁ with
  | none => rfl
  | some r =>
    obtain ⟨least,cs₂⟩ := r
    simp only [hl,Option.bind_some] at h
    obtain ⟨cs₃,hs₃,-,hb₃,h⟩ := exists_skip rfl (fun hnone => (h hnone).least hl)
    simp only [hs₃,hb₃,Option.map_some,Option.bind_some]
    by_cases hcomma : cs₃.head? = some ','
    · obtain ⟨cs₄,rfl⟩ := List.head?_eq_some_iff.mp hcomma
      rw [barred_cons,readMost?_comma,readMost?_comma,Option.bind_assoc,Option.bind_assoc]
      rw [readMost?_comma,Option.bind_assoc] at h
      obtain ⟨cs₅,hs₅,-,hb₅,h⟩ := exists_skip rfl (fun hnone => (h hnone).next (.inr rfl))
      simp only [hs₅,hb₅,Except.toOption,Option.bind_some,readDecimal?_barred]
      simp only [Option.bind_some] at h
      cases hd : readDecimal? cs₅ with
      | none =>
        rw [hd] at h
        exact closeBounds_barred h tail
      | some r =>
        rw [hd] at h
        exact closeBounds_barred (fun hnone => (h hnone).decimal hd) tail
    · have hcomma' : (barred tail cs₃).head? ≠ some ',' :=
        fun hin => hcomma (head?_of_barred (by decide) hin)
      rw [readMost?_other hcomma,readMost?_other hcomma',Option.bind_some,Option.bind_some]
      rw [readMost?_other hcomma,Option.bind_some] at h
      exact closeBounds_barred h tail

lemma suffix_of_skip {α : Type} {F : List Char → Option α} {a : α}
    (h : (skipBlanks e cs).toOption.bind F = some a) : ∃ cs', cs' <:+ cs ∧ F cs' = some a := by
  cases hs : skipBlanks e cs with
  | error err =>
    rw [hs] at h
    cases h
  | ok cs' =>
    rw [hs] at h
    exact ⟨cs',(skipBlanks_skipped hs).suffix,h⟩

lemma readBounds?_suffix {least : Nat} {most : Option Nat}
    (h : readBounds? e cs = some (least,most,cs')) : cs' <:+ cs := by
  rw [readBounds?_eq] at h
  obtain ⟨cs₁,h₁,h⟩ := suffix_of_skip h
  obtain ⟨r,hl,h⟩ := Option.bind_eq_some_iff.mp h
  obtain ⟨cs₂,h₂,h⟩ := suffix_of_skip h
  obtain ⟨r',hm,h⟩ := Option.bind_eq_some_iff.mp h
  obtain ⟨cs₃,h₃,h⟩ := suffix_of_skip h
  have hclose : cs' = (takeMark '\x7d' cs₃).2 := by
    split at h
    · cases h
      rfl
    · cases h
  rw [hclose]
  exact (((((takeMark_suffix _ cs₃).trans h₃).trans (readMost?_suffix hm)).trans h₂).trans
    (readLeast?_suffix hl)).trans h₁

end Bounds

end Highlight.Rules
