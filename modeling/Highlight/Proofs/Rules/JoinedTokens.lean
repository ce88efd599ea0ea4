import Highlight.Proofs.Rules.Joined
import Highlight.Proofs.Rules.Moved

/-!
The light scan of joined patterns. Patterns that are complete keep their tokens when they are joined, each in a group
of its own, so that the joined text opens the groups of all of them and one more for each. The number that is noted
for a pattern is that of its own group, as the same scan counts them.
-/
namespace Highlight.Rules

open Regex

variable {cs tail : List Char} {ps qs rs : List (List Char)} {p : List Char} {o : Nat}

section Texts

/-- What follows the group of a rule in the joined text: a bar and the rules behind, if there are any. -/
def trailChars (o : Nat) : List (List Char) → List Char
  | [] => []
  | p :: rest => '|' :: joinChars o (p :: rest)

/-- What comes before a rule in the joined text: the rules ahead of it, each in its group and with a bar behind. -/
def leadChars (o : Nat) : List (List Char) → List Char
  | [] => []
  | p :: rest => '(' :: inGroup (o + 1) ('|' :: leadChars (o + 1 + groupCount p) rest) p

lemma joinChars_cons (o : Nat) (p : List Char) (rest : List (List Char)) :
    joinChars o (p :: rest) = '(' :: inGroup (o + 1) (trailChars (o + 1 + groupCount p) rest) p := by
  cases rest <;> rfl

lemma leadChars_cons_append (o : Nat) (p : List Char) (rest : List (List Char)) (tail : List Char) :
    leadChars o (p :: rest) ++ tail =
      '(' :: inGroup (o + 1) ('|' :: (leadChars (o + 1 + groupCount p) rest ++ tail)) p := by
  simp [leadChars,inGroup]

/-- The joined text at a rule. -/
lemma joinChars_append (o : Nat) (qs : List (List Char)) (p : List Char) (rs : List (List Char)) :
    joinChars o (qs ++ p :: rs) =
      leadChars o qs ++ joinChars (o + groupsInAll (qs.map groupCount)) (p :: rs) := by
  induction qs generalizing o with
  | nil => rfl
  | cons q qs ih =>
    have hgroups : o + 1 + groupCount q + groupsInAll (qs.map groupCount) =
        o + groupsInAll ((q :: qs).map groupCount) := by
      rw [List.map_cons,groupsInAll]
      omega
    have htrail : trailChars (o + 1 + groupCount q) (qs ++ p :: rs) =
        '|' :: joinChars (o + 1 + groupCount q) (qs ++ p :: rs) := by
      cases qs <;> rfl
    rw [List.cons_append,joinChars_cons,htrail,ih,hgroups,leadChars_cons_append]

lemma joinChars_bar (hne : qs ≠ []) (o : Nat) : joinChars o qs ++ ['|'] = leadChars o qs := by
  induction qs generalizing o with
  | nil => exact absurd rfl hne
  | cons q qs ih =>
    rw [joinChars_cons,leadChars]
    cases qs with
    | nil => simp [inGroup,trailChars,leadChars]
    | cons p rest =>
      rw [← ih (List.cons_ne_nil p rest) (o + 1 + groupCount q)]
      simp [inGroup,trailChars]

end Texts

section Counts

lemma groupCount_group (h : Complete cs) (o : Nat) (tail : List Char) :
    groupCount ('(' :: inGroup o tail cs) = groupCount cs + 1 + groupCount tail := by
  have hmoved : ((tokensOf cs).map (Token.moved o)).countP Token.captures = groupCount cs := by
    rw [← tokensOf_shiftChars]
    exact groupCount_shiftChars o cs
  rw [groupCount,tokensOf_inGroup h,List.countP_cons_of_pos rfl,List.countP_append,hmoved,
    List.countP_cons_of_neg (by decide),groupCount,groupCount]
  omega

lemma tokensOf_bar (tail : List Char) : tokensOf ('|' :: tail) = .plain '|' :: tokensOf tail := tokensOf_cons '|' tail

lemma groupCount_bar (tail : List Char) : groupCount ('|' :: tail) = groupCount tail := groupCount_cons '|' tail

/-- Complete patterns that are joined open their own groups and one around each. -/
theorem groupCount_joinChars (h : ∀ p ∈ ps, Complete p) (o : Nat) :
    groupCount (joinChars o ps) = groupsInAll (ps.map groupCount) := by
  induction ps generalizing o with
  | nil => rfl
  | cons p rest ih =>
    obtain ⟨hp,hrest⟩ := List.forall_mem_cons.mp h
    have htrail : groupCount (trailChars (o + 1 + groupCount p) rest) = groupsInAll (rest.map groupCount) := by
      cases rest with
      | nil => rfl
      | cons q rest =>
        rw [trailChars,groupCount_bar]
        exact ih hrest _
    rw [joinChars_cons,groupCount_group hp,htrail]
    rfl

/-- What is ahead of a rule takes no part in the tokens behind. -/
lemma tokensOf_leadChars (h : ∀ q ∈ qs, Complete q) (o : Nat) (tail : List Char) :
    tokensOf (leadChars o qs ++ tail) = tokensOf (leadChars o qs) ++ tokensOf tail := by
  induction qs generalizing o with
  | nil => rfl
  | cons q qs ih =>
    obtain ⟨hq,hqs⟩ := List.forall_mem_cons.mp h
    rw [leadChars_cons_append,leadChars,tokensOf_inGroup hq,tokensOf_inGroup hq,tokensOf_bar,tokensOf_bar,ih hqs]
    simp

lemma groupCount_leadChars (h : ∀ q ∈ qs, Complete q) (o : Nat) :
    groupCount (leadChars o qs) = groupsInAll (qs.map groupCount) := by
  induction qs generalizing o with
  | nil => rfl
  | cons q qs ih =>
    obtain ⟨hq,hqs⟩ := List.forall_mem_cons.mp h
    rw [leadChars,groupCount_group hq,groupCount_bar,ih hqs]
    rfl

lemma getElem?_groupsFrom (o : Nat) (ks : List Nat) (k : Nat) (ls : List Nat) :
    (groupsFrom o (ks ++ k :: ls))[ks.length]? = some (o + groupsInAll ks + 1) := by
  induction ks generalizing o with
  | nil => rfl
  | cons l ks ih =>
    rw [List.cons_append,groupsFrom,List.length_cons,List.getElem?_cons_succ,ih,groupsInAll]
    exact congrArg some (by omega)

lemma groupsInAll_eq_sum (ks : List Nat) : groupsInAll ks = (ks.map (1 + ·)).sum := by
  induction ks with
  | nil => rfl
  | cons k ks ih =>
    rw [groupsInAll,ih,List.map_cons,List.sum_cons]
    omega

end Counts

section Ordinals

/-- The joined text ahead of a pattern: the patterns before it as they are joined, and a bar. -/
def leadText (ps : List String) : String := if ps = [] then "" else (join ps "|").source ++ "|"

lemma toList_leadText (ps : List String) : (leadText ps).toList = leadChars 0 (ps.map String.toList) := by
  by_cases hps : ps = []
  · subst hps
    rfl
  · rw [leadText,if_neg hps,String.toList_append,join_source]
    exact joinChars_bar (by simpa using hps) 0

/-- In the light scan of a text, the group number `k` opens behind `lead`, and what it holds is a pattern whose
references have moved by `k`. -/
def HoldsInGroup (source lead : String) (k : Nat) (pattern : String) : Prop :=
  ∃ trail, source = lead ++ "(" ++ shiftReferences k pattern ++ ")" ++ trail ∧
    tokens source = tokens lead ++ .group ::
      (tokens (shiftReferences k pattern) ++ .plain ')' :: tokens trail) ∧
    countGroups lead + 1 = k

/-- The number that is noted for a complete pattern is the one of its group in the light scan. -/
lemma exists_holdsInGroup {qs rs : List String} {p : String} (h : ∀ q ∈ qs ++ p :: rs, Complete q.toList) :
    ∃ k, (join (qs ++ p :: rs) "|").groups[qs.length]? = some k ∧
      HoldsInGroup (join (qs ++ p :: rs) "|").source (leadText qs) k p := by
  have hqs : ∀ cs ∈ qs.map String.toList, Complete cs :=
    List.forall_mem_map.mpr fun q hq => h q (List.mem_append_left _ hq)
  have hp : Complete p.toList := h p (List.mem_append_right _ List.mem_cons_self)
  have hcounts : (qs.map String.toList).map groupCount = qs.map countGroups := List.map_map ..
  let k := 0 + groupsInAll (qs.map countGroups) + 1
  let trail := trailChars (k + groupCount p.toList) (rs.map String.toList)
  have hsource : (join (qs ++ p :: rs) "|").source.toList =
      (leadText qs).toList ++ '(' :: inGroup k trail p.toList := by
    rw [join_source,List.map_append,List.map_cons,joinChars_append,joinChars_cons,hcounts,toList_leadText]
  refine ⟨k,?_,String.ofList trail,?_,?_,?_⟩
  · have hgroups : (join (qs ++ p :: rs) "|").groups = groupsFrom 0 ((qs ++ p :: rs).map countGroups) :=
      wrapFrom_groups 0 _
    have hlength : qs.length = (qs.map countGroups).length := (List.length_map _).symm
    rw [hgroups,List.map_append,List.map_cons,hlength]
    exact getElem?_groupsFrom ..
  · refine String.toList_inj.mp (hsource.trans ?_)
    simp [inGroup,shiftReferences_toList]
  · change tokensOf (join (qs ++ p :: rs) "|").source.toList = tokensOf (leadText qs).toList ++ .group ::
      (tokensOf (shiftReferences k p).toList ++ .plain ')' :: tokensOf (String.ofList trail).toList)
    rw [hsource,toList_leadText,tokensOf_leadChars hqs,tokensOf_inGroup hp,shiftReferences_toList,
      tokensOf_shiftChars,String.toList_ofList]
  · rw [countGroups_eq,toList_leadText,groupCount_leadChars hqs,hcounts]
    omega

lemma countGroups_join {ps : List String} (h : ∀ p ∈ ps, Complete p.toList) :
    countGroups (join ps "|").source = (ps.map (fun p => 1 + countGroups p)).sum := by
  rw [countGroups_eq,join_source,groupCount_joinChars (List.forall_mem_map.mpr h),groupsInAll_eq_sum,List.map_map,
    List.map_map]
  rfl

/-- Moving the references of patterns acts like addition, as long as the numbers can be written, and opens no group.
Complete patterns that are joined open their own groups and one for each of them, and the number that is noted for a
pattern is the one that the light scan of the joined text finds for the group around it. -/
theorem renumbered_and_joined :
    (∀ p, shiftReferences 0 p = p) ∧
    (∀ p a b, (∀ n ∈ referenceNumbers p.toList, n + a ≤ maxReference) →
      shiftReferences b (shiftReferences a p) = shiftReferences (a + b) p) ∧
    (∀ p a, countGroups (shiftReferences a p) = countGroups p) ∧
    ∀ ps, (∀ p ∈ ps, Complete p.toList) →
      countGroups (join ps "|").source = (ps.map (fun p => 1 + countGroups p)).sum ∧
      (join ps "|").groups.length = ps.length ∧
      ∀ qs p rs, ps = qs ++ p :: rs → ∃ k, (join ps "|").groups[qs.length]? = some k ∧
        HoldsInGroup (join ps "|").source (leadText qs) k p := by
  refine ⟨fun p => ?_,fun p a b hroom => ?_,fun p a => ?_,fun ps h => ⟨countGroups_join h,?_,?_⟩⟩
  · exact String.toList_inj.mp ((shiftReferences_toList 0 p).trans (shiftChars_zero p.toList))
  · refine String.toList_inj.mp ?_
    rw [shiftReferences_toList,shiftReferences_toList,shiftReferences_toList]
    exact shiftChars_shiftChars hroom b
  · rw [countGroups_eq,countGroups_eq,shiftReferences_toList]
    exact groupCount_shiftChars a p.toList
  · have hgroups : (join ps "|").groups = groupsFrom 0 (ps.map countGroups) := wrapFrom_groups 0 ps
    rw [hgroups,length_groupsFrom,List.length_map]
  · rintro qs p rs rfl
    exact exists_holdsInGroup h

/-- Patterns with a reference, a parenthesis in a set and one behind a backslash, nothing, and a named group. -/
def seamPatterns : List String := ["(a)\\1","[(]\\(","","(?<n>b)\\1"]

theorem renumbered_and_joined_seams :
    (∀ n ∈ referenceNumbers "(a)\\1[\\1(]\\12".toList, n + 3 ≤ maxReference) ∧
    shiftReferences 4 (shiftReferences 3 "(a)\\1[\\1(]\\12") = shiftReferences 7 "(a)\\1[\\1(]\\12" ∧
    (∀ p ∈ seamPatterns, Complete p.toList) ∧ countGroups (join seamPatterns "|").source = 6 ∧
    HoldsInGroup (join seamPatterns "|").source "((a)\\2)|([(]\\()|()|" 5 "(?<n>b)\\1" := by
  obtain ⟨-,hmoves,-,hjoin⟩ := renumbered_and_joined
  have hroom : ∀ n ∈ referenceNumbers "(a)\\1[\\1(]\\12".toList, n + 3 ≤ maxReference := by decide +kernel
  have hcomplete : ∀ p ∈ seamPatterns, Complete p.toList := by decide +kernel
  obtain ⟨hcount,-,hgroups⟩ := hjoin seamPatterns hcomplete
  obtain ⟨k,hk,hholds⟩ := hgroups ["(a)\\1","[(]\\(",""] "(?<n>b)\\1" [] rfl
  have hfive : (join seamPatterns "|").groups[3]? = some 5 := by decide +kernel
  have hlead : leadText ["(a)\\1","[(]\\(",""] = "((a)\\2)|([(]\\()|()|" := by decide +kernel
  have hsum : (seamPatterns.map (fun p => 1 + countGroups p)).sum = 6 := by decide +kernel
  obtain rfl : k = 5 := Option.some.inj (hk.symm.trans hfive)
  exact ⟨hroom,hmoves _ 3 4 hroom,hcomplete,hcount.trans hsum,hlead ▸ hholds⟩

-- A bracket that waits for the end of a set hides the groups behind it.
example : countGroups (join ["[","(a)]"] "|").source = 1 := by decide +kernel

end Ordinals

end Highlight.Rules
