import Highlight.Format.Markup
import Highlight.Proofs.Regex.Agreement
import Highlight.Proofs.Text.Slice

/-!
The indentation of a text is its longest beginning of complete tags and tabs. It is what the pattern for markup
matches where a line starts, and elsewhere the pattern only matches a line feed.
-/
namespace Highlight.Markup

open Regex Source

/-- Complete tags and tabs, in any order. -/
inductive IsIndentation : List Char → Prop
  | nil : IsIndentation []
  | tab {run : List Char} (h : IsIndentation run) : IsIndentation ('\t' :: run)
  | tag {body run : List Char} (hne : body ≠ []) (hopen : '>' ∉ body) (h : IsIndentation run) :
      IsIndentation ('<' :: (body ++ '>' :: run))

/-- A text that is cut behind its indentation, its longest beginning of complete tags and tabs. -/
structure Indented (cs run rest : List Char) : Prop where
  split : cs = run ++ rest
  indentation : IsIndentation run
  longest : ∀ run', run' <+: cs → IsIndentation run' → run'.length ≤ run.length

variable {cs run run' rest rest' body body' after after' : List Char}

/-- A beginning without a character goes no further than to that character. -/
lemma prefix_of_append_cons {c : Char} (h : c ∉ body) (heq : body ++ c :: after = body' ++ c :: after') :
    body <+: body' := by
  rcases List.append_eq_append_iff.mp heq with ⟨ts,rfl,-⟩ | ⟨ts,rfl,hts⟩
  · exact List.prefix_append _ _
  · cases ts with
    | nil => simp
    | cons d ts =>
      obtain ⟨rfl,-⟩ := List.cons.inj hts
      simp at h

/-- A text has one beginning without a character, up to that character. -/
lemma append_cons_inj {c : Char} (h : c ∉ body) (h' : c ∉ body')
    (heq : body ++ c :: after = body' ++ c :: after') : body = body' ∧ after = after' := by
  have hbody : body = body' := (prefix_of_append_cons h heq).eq_of_length_le
    (prefix_of_append_cons h' heq.symm).length_le
  subst hbody
  exact ⟨rfl,(List.cons.inj (List.append_cancel_left heq)).2⟩

namespace Indented

/-- A text that starts with neither a tab nor a complete tag has no indentation. -/
lemma nil (h : ∀ run', run' <+: cs → IsIndentation run' → run' = []) : Indented cs [] cs where
  split := rfl
  indentation := .nil
  longest run' hbegins hrun' := (h run' hbegins hrun' ▸ Nat.le_refl _)

lemma empty : Indented [] [] [] := .nil (fun _ hbegins _ => List.prefix_nil.mp hbegins)

lemma tab (h : Indented cs run rest) : Indented ('\t' :: cs) ('\t' :: run) rest where
  split := congrArg ('\t' :: ·) h.split
  indentation := .tab h.indentation
  longest run' hbegins hrun' := by
    cases hrun' with
    | nil => exact Nat.zero_le _
    | tab hrun' => exact Nat.succ_le_succ (h.longest _ (List.cons_prefix_cons.mp hbegins).2 hrun')
    | tag _ _ _ => cases (List.cons_prefix_cons.mp hbegins).1

lemma tag (hne : body ≠ []) (hopen : '>' ∉ body) (h : Indented cs run rest) :
    Indented ('<' :: (body ++ '>' :: cs)) ('<' :: (body ++ '>' :: run)) rest where
  split := by rw [h.split,List.cons_append,List.append_assoc,List.cons_append]
  indentation := .tag hne hopen h.indentation
  longest run' hbegins hrun' := by
    cases hrun' with
    | nil => exact Nat.zero_le _
    | tab _ => cases (List.cons_prefix_cons.mp hbegins).1
    | @tag body' run' hne' hopen' hrun' =>
      obtain ⟨tail,htail⟩ := (List.cons_prefix_cons.mp hbegins).2
      rw [List.append_assoc,List.cons_append] at htail
      obtain ⟨rfl,rfl⟩ := append_cons_inj hopen' hopen htail
      have hle := h.longest run' (List.prefix_append _ _) hrun'
      simpa using hle

/-- An opening bracket that is not closed, or at once, starts no complete tag. -/
lemma opened (h : ∀ body after, cs = body ++ '>' :: after → '>' ∉ body → body = []) :
    Indented ('<' :: cs) [] ('<' :: cs) := by
  refine .nil (fun run' hbegins hrun' => ?_)
  cases hrun' with
  | nil => rfl
  | tab _ => cases (List.cons_prefix_cons.mp hbegins).1
  | tag hne hopen _ =>
    obtain ⟨tail,rfl⟩ := (List.cons_prefix_cons.mp hbegins).2
    rw [List.append_assoc,List.cons_append] at h
    exact absurd (h _ _ rfl hopen) hne

lemma other {c : Char} (htab : c ≠ '\t') (htag : c ≠ '<') : Indented (c :: cs) [] (c :: cs) := by
  refine .nil (fun run' hbegins hrun' => ?_)
  cases hrun' with
  | nil => rfl
  | tab _ => exact absurd (List.cons_prefix_cons.mp hbegins).1.symm htab
  | tag _ _ _ => exact absurd (List.cons_prefix_cons.mp hbegins).1.symm htag

/-- A text has one indentation. -/
lemma unique (h : Indented cs run rest) (h' : Indented cs run' rest') : run = run' ∧ rest = rest' := by
  have heq : run ++ rest = run' ++ rest' := h.split.symm.trans h'.split
  have hlen : run.length = run'.length := Nat.le_antisymm
    (h'.longest run (h.split ▸ List.prefix_append _ _) h.indentation)
    (h.longest run' (h'.split ▸ List.prefix_append _ _) h'.indentation)
  exact List.append_inj heq hlen

end Indented

section Ends

/-- A character inside a tag. -/
def inTag : Pattern := .set (.compl (.union .empty (.single '>')))

/-- A complete tag or a tab. -/
def tagOrTab : Pattern :=
  .alt (.cat (.set (.single '<')) (.cat (.loop inTag 1 none true) (.set (.single '>')))) (.set (.single '\t'))

/-- A line feed, or complete tags and tabs where a line starts. -/
def fixablePattern : Pattern :=
  .alt (.set (.single '\n')) (.cat (.assert .lineStart) (.loop tagOrTab 0 none true))

lemma pattern_fixable : fixable.pattern = fixablePattern := rfl

lemma orderly_fixable : fixable.Orderly := ⟨rfl,⟨[],rfl⟩,rfl,rfl⟩

variable {text : Source} {i n : Nat} {c d : Char}

lemma ends_single (h : text.toList.drop i = c :: cs) :
    (Pattern.set (.single d)).ends { text } i = if d = c then [i + 1] else [] := by
  simp [Pattern.ends,Haystack.charAt?,getElem?_of_drop h,CharSet.contains]

lemma ends_inTag (h : text.toList.drop i = c :: cs) :
    inTag.ends { text } i = if c = '>' then [] else [i + 1] := by
  simp only [inTag,Pattern.ends,Haystack.charAt?,getElem?_of_drop h,CharSet.contains,Bool.false_or]
  by_cases hc : c = '>'
  · simp [hc]
  · simp [hc,Ne.symm hc]

lemma ends_set_nil (h : text.toList.drop i = []) (s : CharSet) : (Pattern.set s).ends { text } i = [] := by
  simp [Pattern.ends,Haystack.charAt?,getElem?_of_drop_nil h]

/-- The ends of what may be left of a tag: more of its characters, and the closing bracket. -/
def tagEnds (text : Source) (n i : Nat) : List Nat :=
  (moreRoutes id (inTag.ends { text }) true true n i).flatMap ((Pattern.set (.single '>')).ends { text })

/-- A tag does not end at a character inside it. -/
lemma tagEnds_succ (h : text.toList.drop i = c :: cs) (hc : c ≠ '>') :
    tagEnds text (n + 1) i = tagEnds text n (i + 1) := by
  have hhere : (Pattern.set (.single '>')).ends { text } i = [] := by rw [ends_single h,if_neg hc.symm]
  simp [tagEnds,moreRoutes,ends_inTag h,hc,hhere]

/-- A tag ends at the first closing bracket. -/
lemma tagEnds_append (h : text.toList.drop i = body ++ '>' :: after) (hopen : '>' ∉ body) (hn : body.length ≤ n) :
    tagEnds text n i = [i + body.length + 1] := by
  induction body generalizing i n with
  | nil =>
    cases n with
    | zero => simp [tagEnds,moreRoutes,ends_single h]
    | succ n => simp [tagEnds,moreRoutes,ends_inTag h,ends_single h]
  | cons c body ih =>
    obtain ⟨hc,hbody⟩ := List.ne_and_not_mem_of_not_mem_cons hopen
    obtain ⟨n,rfl⟩ : ∃ k, n = k + 1 := ⟨n - 1,by simp at hn; omega⟩
    rw [tagEnds_succ h hc.symm,ih (drop_succ h) hbody (Nat.le_of_succ_le_succ hn),List.length_cons]
    congr 1
    omega

/-- Without a closing bracket, a tag does not end. -/
lemma tagEnds_of_not_mem (h : text.toList.drop i = cs) (hopen : '>' ∉ cs) (n : Nat) : tagEnds text n i = [] := by
  induction n generalizing i cs with
  | zero =>
    cases cs with
    | nil => simp [tagEnds,moreRoutes,ends_set_nil h]
    | cons c cs =>
      have hc : '>' ≠ c := (List.ne_and_not_mem_of_not_mem_cons hopen).1
      simp [tagEnds,moreRoutes,ends_single h,hc]
  | succ n ih =>
    cases cs with
    | nil => simp [tagEnds,moreRoutes,inTag,ends_set_nil h]
    | cons c cs =>
      obtain ⟨hc,hcs⟩ := List.ne_and_not_mem_of_not_mem_cons hopen
      rw [tagEnds_succ h hc.symm]
      exact ih (drop_succ h) hcs

lemma ends_tagOrTab (text : Source) (i : Nat) : tagOrTab.ends { text } i =
    ((Pattern.set (.single '<')).ends { text } i).flatMap (fun j =>
      (inTag.ends { text } j).flatMap (fun k => tagEnds text (text.size + 1 - k) k)) ++
      (Pattern.set (.single '\t')).ends { text } i := by
  have hround : roundRoutes (inTag.ends { text }) 1 = inTag.ends { text } := by
    funext j
    exact List.flatMap_singleton' _
  have htag : ∀ j, (Pattern.cat (.loop inTag 1 none true) (.set (.single '>'))).ends { text } j =
      (inTag.ends { text } j).flatMap (fun k => tagEnds text (text.size + 1 - k) k) := by
    intro j
    rw [Pattern.ends,Pattern.ends,hround,List.flatMap_assoc]
    rfl
  rw [← funext htag]
  rfl

lemma ends_tagOrTab_nil (h : text.toList.drop i = []) : tagOrTab.ends { text } i = [] := by
  rw [ends_tagOrTab,ends_set_nil h,ends_set_nil h]
  rfl

lemma ends_tagOrTab_tab (h : text.toList.drop i = '\t' :: cs) : tagOrTab.ends { text } i = [i + 1] := by
  rw [ends_tagOrTab,ends_single h,ends_single h]
  rfl

lemma ends_tagOrTab_other (h : text.toList.drop i = c :: cs) (htab : c ≠ '\t') (htag : c ≠ '<') :
    tagOrTab.ends { text } i = [] := by
  rw [ends_tagOrTab,ends_single h,ends_single h,if_neg htag.symm,if_neg htab.symm]
  rfl

/-- Behind an opening bracket comes a character of the tag, before the tag may end. -/
lemma ends_tagOrTab_tag (h : text.toList.drop i = '<' :: cs) : tagOrTab.ends { text } i =
    (inTag.ends { text } (i + 1)).flatMap (fun k => tagEnds text (text.size + 1 - k) k) := by
  rw [ends_tagOrTab,ends_single h,ends_single h,if_pos rfl,if_neg (by decide),List.append_nil,List.flatMap_singleton]

/-- Where neither a tag nor a tab comes, the rounds are over. -/
lemma head?_moreRoutes_nil (h : tagOrTab.ends { text } i = []) :
    (moreRoutes id (tagOrTab.ends { text }) true true n i).head? = some i := by
  cases n with
  | zero => rfl
  | succ n => rw [moreRoutes,h]; rfl

/-- Behind a tag or a tab, the rounds go on. -/
lemma head?_moreRoutes_cons {j k : Nat} (h : tagOrTab.ends { text } i = [j]) (hj : i < j)
    (hk : (moreRoutes id (tagOrTab.ends { text }) true true n j).head? = some k) :
    (moreRoutes id (tagOrTab.ends { text }) true true (n + 1) i).head? = some k := by
  have hne : (true && id j == id i) = false := by simpa using Nat.ne_of_gt hj
  rw [moreRoutes,h,List.flatMap_singleton,hne]
  simp [hk]

/-- A tag is a round. -/
lemma ends_tagOrTab_closed (h : text.toList.drop i = '<' :: (body ++ '>' :: cs)) (hne : body ≠ []) (hopen : '>' ∉ body) :
    tagOrTab.ends { text } i = [i + body.length + 2] := by
  obtain ⟨c,body,rfl⟩ := List.exists_cons_of_ne_nil hne
  obtain ⟨hc,hbody⟩ := List.ne_and_not_mem_of_not_mem_cons hopen
  have hinside : text.toList.drop (i + 1) = c :: (body ++ '>' :: cs) := drop_succ h
  have hrest : text.toList.drop (i + 1 + 1) = body ++ '>' :: cs := drop_succ hinside
  have hlen : body.length ≤ text.size + 1 - (i + 1 + 1) := by
    have hlen := congrArg List.length hrest
    rw [List.length_drop,Array.length_toList,List.length_append,List.length_cons] at hlen
    omega
  rw [ends_tagOrTab_tag h,ends_inTag hinside,if_neg hc.symm,List.flatMap_singleton,tagEnds_append hrest hbody hlen,
    List.length_cons]
  congr 1
  omega

/-- An opening bracket that is not closed, or at once, is no round. -/
lemma ends_tagOrTab_open (h : text.toList.drop i = '<' :: cs)
    (hopen : ∀ body after, cs = body ++ '>' :: after → '>' ∉ body → body = []) : tagOrTab.ends { text } i = [] := by
  have hinside : text.toList.drop (i + 1) = cs := drop_succ h
  rw [ends_tagOrTab_tag h]
  cases cs with
  | nil => rw [inTag,ends_set_nil hinside,List.flatMap_nil]
  | cons c cs =>
    rw [ends_inTag hinside]
    by_cases hc : c = '>'
    · rw [if_pos hc,List.flatMap_nil]
    · have hnone : '>' ∉ cs := by
        intro hmem
        obtain ⟨body,after,rfl,hbody⟩ := List.eq_append_cons_of_mem hmem
        exact List.cons_ne_nil _ _ (hopen (c :: body) after rfl (by simp [hbody,Ne.symm hc]))
      rw [if_neg hc,List.flatMap_singleton,tagEnds_of_not_mem (drop_succ hinside) hnone]

/-- From where a text starts with `cs` on, rounds over tags and tabs first end behind `run`. -/
def RoundsEnd (cs run : List Char) : Prop :=
  ∀ ⦃text : Source⦄ ⦃i n : Nat⦄, text.toList.drop i = cs → cs.length ≤ n →
    (moreRoutes id (tagOrTab.ends { text }) true true n i).head? = some (i + run.length)

lemma RoundsEnd.tab (hrun : RoundsEnd cs run) : RoundsEnd ('\t' :: cs) ('\t' :: run) := by
  intro text i n h hn
  obtain ⟨n,rfl⟩ : ∃ k, n = k + 1 := ⟨n - 1,by simp at hn; omega⟩
  have hrest := hrun (drop_succ h) (Nat.le_of_succ_le_succ hn)
  rw [head?_moreRoutes_cons (ends_tagOrTab_tab h) (Nat.lt_succ_self i) hrest,List.length_cons]
  congr 1
  omega

lemma RoundsEnd.tag (hrun : RoundsEnd cs run) (hne : body ≠ []) (hopen : '>' ∉ body) :
    RoundsEnd ('<' :: (body ++ '>' :: cs)) ('<' :: (body ++ '>' :: run)) := by
  intro text i n h hn
  rw [List.length_cons,List.length_append,List.length_cons] at hn
  obtain ⟨n,rfl⟩ : ∃ k, n = k + 1 := ⟨n - 1,by omega⟩
  have hbehind : text.toList.drop (i + body.length + 2) = cs := by
    have hfront : text.toList.drop i = ('<' :: (body ++ ['>'])) ++ cs := by simp [h]
    have hdrop := drop_add_length hfront
    rwa [List.length_cons,List.length_append,List.length_singleton] at hdrop
  have hcs : cs.length ≤ n := by omega
  rw [head?_moreRoutes_cons (ends_tagOrTab_closed h hne hopen) (by omega) (hrun hbehind hcs),List.length_cons,
    List.length_append,List.length_cons]
  congr 1
  omega

/-- Every text has an indentation, and rounds over tags and tabs first end behind it. -/
theorem exists_indented (cs : List Char) : ∃ run rest, Indented cs run rest ∧ RoundsEnd cs run := by
  induction hlen : cs.length using Nat.strongRecOn generalizing cs with
  | ind len ih =>
  subst hlen
  cases cs with
  | nil =>
    exact ⟨[],[],.empty,fun _ _ _ h _ => head?_moreRoutes_nil (ends_tagOrTab_nil h)⟩
  | cons c cs =>
    by_cases htab : c = '\t'
    · subst htab
      obtain ⟨run,rest,hcs,hends⟩ := ih cs.length (Nat.lt_succ_self _) cs rfl
      exact ⟨_,rest,hcs.tab,hends.tab⟩
    · by_cases htag : c = '<'
      · subst htag
        by_cases hclosed : ∃ body after, cs = body ++ '>' :: after ∧ '>' ∉ body ∧ body ≠ []
        · obtain ⟨body,after,rfl,hopen,hne⟩ := hclosed
          obtain ⟨run,rest,hafter,hends⟩ := ih after.length (by simp; omega) after rfl
          exact ⟨_,rest,hafter.tag hne hopen,hends.tag hne hopen⟩
        · have hopen : ∀ body after, cs = body ++ '>' :: after → '>' ∉ body → body = [] := by
            intro body after heq hbody
            by_contra hne
            exact hclosed ⟨body,after,heq,hbody,hne⟩
          exact ⟨[],_,.opened hopen,fun _ _ _ h _ => head?_moreRoutes_nil (ends_tagOrTab_open h hopen)⟩
      · exact ⟨[],_,.other htab htag,fun _ _ _ h _ => head?_moreRoutes_nil (ends_tagOrTab_other h htab htag)⟩

/-- Whether a line starts at a position. -/
def startsLine (text : Source) (i : Nat) : Bool := Assertion.lineStart.holds { text } i

lemma startsLine_succ (h : text.toList.drop i = c :: cs) : startsLine text (i + 1) = (c == '\n') := by
  simp [startsLine,Assertion.holds,Haystack.charBefore?,getElem?_of_drop h]

/-- The pattern for markup ends behind a line feed. -/
lemma head?_ends_lineFeed (h : text.toList.drop i = '\n' :: cs) :
    (fixable.pattern.ends { text } i).head? = some (i + 1) := by
  rw [pattern_fixable,fixablePattern,Pattern.ends,ends_single h,if_pos rfl]
  rfl

lemma ends_fixable (h : ∀ cs, text.toList.drop i ≠ '\n' :: cs) : fixable.pattern.ends { text } i =
    if startsLine text i then moreRoutes id (tagOrTab.ends { text }) true true (text.size + 1 - i) i else [] := by
  have hlineFeed : (Pattern.set (.single '\n')).ends { text } i = [] := by
    cases hdrop : text.toList.drop i with
    | nil => exact ends_set_nil hdrop _
    | cons c cs =>
      have hc : '\n' ≠ c := fun heq => h cs (heq ▸ hdrop)
      rw [ends_single hdrop,if_neg hc]
  rw [pattern_fixable,fixablePattern,Pattern.ends,hlineFeed,List.nil_append,Pattern.ends,Pattern.ends]
  change (if startsLine text i then [i] else []).flatMap _ = _
  cases startsLine text i with
  | false => rfl
  | true => exact (List.flatMap_singleton _ _).trans (List.append_nil _)

/-- Where a line starts, the pattern for markup first ends behind the indentation. -/
theorem head?_ends_indented (hstart : startsLine text i = true) (h : ∀ cs, text.toList.drop i ≠ '\n' :: cs)
    (hrun : Indented (text.toList.drop i) run rest) :
    (fixable.pattern.ends { text } i).head? = some (i + run.length) := by
  obtain ⟨run',rest',hrun',hends⟩ := exists_indented (text.toList.drop i)
  obtain ⟨rfl,rfl⟩ := hrun.unique hrun'
  rw [ends_fixable h,if_pos hstart]
  refine hends rfl ?_
  rw [List.length_drop,Array.length_toList]
  omega

/-- Within a line, the pattern for markup does not match. -/
lemma ends_within (hstart : startsLine text i = false) (h : ∀ cs, text.toList.drop i ≠ '\n' :: cs) :
    fixable.pattern.ends { text } i = [] := by
  rw [ends_fixable h,hstart,if_neg Bool.false_ne_true]

end Ends
end Highlight.Markup
