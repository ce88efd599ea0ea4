import Highlight.Proofs.Rules.Joined
import Highlight.Rules.Matcher

/-!
The regex that combines rules: it compiles if each rule does, and its alternatives are the patterns of
the rules, renumbered.
-/
namespace Highlight.Rules

open Regex

variable {ic named : Bool} {f : Flags}

/-- What a rule compiles to alone. -/
def Part.regex (x : Part) : Regex := regexOf x.reader x.pattern

/-- The references, groups and pattern of a rule that is read alone. -/
structure Part.Within (x : Part) : Prop where
  referenced : ∀ n ∈ x.reader.referenced, n ≤ x.reader.groups
  pattern : x.pattern.GroupsWithin x.reader.groups

lemma references_bound {o n : Nat} {xs : List Part} (h : n ∈ references o xs) : n = 0 ∨ o + 1 < n := by
  induction xs generalizing o with
  | nil => cases h
  | cons x xs ih =>
    rcases List.mem_append.mp h with h | h
    · have hn := ih h
      omega
    · obtain ⟨m,-,rfl⟩ := List.mem_map.mp h
      unfold shiftGroup
      split
      · exact .inl rfl
      · exact .inr (by omega)

section Numbers

variable {o : Nat} {x : Part} {xs : List Part} {before : List Nat}

/-- The joined rules refer to the groups of a rule as it does alone. -/
lemma namesAlike_references (hbefore : ∀ n ∈ before, n ≤ o) :
    Pattern.NamesAlike (o + 1) x.reader.groups x.reader.referenced
      (references o (x :: xs) ++ before) := by
  intro n hpos hle
  have hshift : shiftGroup (o + 1) n = n + (o + 1) := if_neg (Nat.ne_of_gt hpos)
  constructor
  · intro h
    rcases List.mem_append.mp h with h | h
    · rcases List.mem_append.mp h with h | h
      · have hn := references_bound h
        omega
      · obtain ⟨m,hm,heq⟩ := List.mem_map.mp h
        rwa [← shiftGroup_inj.mp heq]
    · have hn := hbefore _ h
      omega
  · intro h
    exact List.mem_append_left _ (List.mem_append_right _ (List.mem_map_of_mem h))

/-- They do not refer to the group around a rule. -/
lemma not_mem_references (hbefore : ∀ n ∈ before, n ≤ o) :
    o + 1 ∉ references o (x :: xs) ++ before := by
  intro h
  rcases List.mem_append.mp h with h | h
  · rcases List.mem_append.mp h with h | h
    · have hn := references_bound h
      omega
    · obtain ⟨m,-,heq⟩ := List.mem_map.mp h
      unfold shiftGroup at heq
      split at heq
      · omega
      · omega
  · have hn := hbefore _ h
    omega

lemma references_le (hx : x.Within) (hbefore : ∀ n ∈ before, n ≤ o) :
    ∀ n ∈ x.reader.referenced.map (shiftGroup (o + 1)) ++ before, n ≤ o + 1 + x.reader.groups := by
  intro n hn
  rcases List.mem_append.mp hn with hn | hn
  · obtain ⟨m,hm,rfl⟩ := List.mem_map.mp hn
    have hle := hx.referenced m hm
    unfold shiftGroup
    split
    · omega
    · omega
  · have hle := hbefore n hn
    omega

/-- In the joined pattern the same look-arounds and atomic groups are settled as in each rule. -/
lemma settle_alternatives (hall : ∀ x ∈ xs, x.Within) (hbefore : ∀ n ∈ before, n ≤ o) :
    (alternatives o (sizes xs)).map (Pattern.settle (references o xs ++ before)) =
      alternatives o (xs.map (fun x => (x.regex.groups,x.regex.pattern))) := by
  induction xs generalizing o before with
  | nil => rfl
  | cons x xs ih =>
    have hx := hall x List.mem_cons_self
    have hrest := ih (fun y hy => hall y (List.mem_cons_of_mem x hy)) (references_le hx hbefore)
    rw [← List.append_assoc] at hrest
    have halike : Pattern.NamesAlike (o + 1) x.reader.groups x.reader.referenced
        (references o (x :: xs) ++ before) := namesAlike_references hbefore
    have hfirst := Pattern.settle_renumber halike hx.pattern
    exact congrArg₂ List.cons (congrArg (Pattern.group (o + 1)) hfirst) hrest

lemma isPlain_alternatives (hall : ∀ x ∈ xs, x.Within) (hbefore : ∀ n ∈ before, n ≤ o) :
    (alternatives o (sizes xs)).all (Pattern.isPlain (references o xs ++ before)) =
      xs.all (fun x => x.regex.plain) := by
  induction xs generalizing o before with
  | nil => rfl
  | cons x xs ih =>
    have hx := hall x List.mem_cons_self
    have hrest := ih (fun y hy => hall y (List.mem_cons_of_mem x hy)) (references_le hx hbefore)
    rw [← List.append_assoc] at hrest
    have hfirst : (Pattern.group (o + 1) (x.pattern.renumber (o + 1))).isPlain
        (references o (x :: xs) ++ before) = x.regex.plain := by
      have hown : (references o (x :: xs) ++ before).contains (o + 1) = false := by
        rw [List.contains_eq_mem,decide_eq_false_iff_not]
        exact not_mem_references hbefore
      rw [Pattern.isPlain,hown]
      exact Pattern.isPlain_renumber (namesAlike_references hbefore) hx.pattern
    exact congrArg₂ Bool.and hfirst hrest

end Numbers

lemma boundsOrdered_alternatives (o : Nat) (xs : List (Nat × Pattern)) :
    (alternatives o xs).all Pattern.boundsOrdered = xs.all (fun x => x.2.boundsOrdered) := by
  induction xs generalizing o with
  | nil => rfl
  | cons x xs ih => exact congrArg₂ Bool.and (Pattern.boundsOrdered_renumber x.2) (ih _)

lemma settledBoundsOrdered_alternatives (o : Nat) (xs : List (Nat × Pattern)) :
    (alternatives o xs).all Pattern.settledBoundsOrdered =
      xs.all (fun x => x.2.settledBoundsOrdered) := by
  induction xs generalizing o with
  | nil => rfl
  | cons x xs ih => exact congrArg₂ Bool.and (Pattern.settledBoundsOrdered_renumber x.2) (ih _)

lemma Part.Proper.sound {x : Part} (hx : f.extended = false) (h : x.Proper f named)
    (hroom : groupCount x.text + 1 < UInt64.size) :
    x.reader.Sound named ∧ x.reader.groups = groupCount x.text := by
  obtain ⟨n,hn,hrun⟩ := h.reads.run
  have hsuits : (around { flags := f }).Suits named := ⟨fun _ => rfl,fun _ => rfl⟩
  have hoffset : 0 + groupCount x.text + 1 < UInt64.size := by omega
  obtain ⟨hs,hgroups,-⟩ := readAll_inGroup hsuits rfl (sound_start hx named) h.fits hrun hn hoffset
    (Nat.lt_succ_self (inGroup 1 [] x.text).length)
  exact ⟨hs,hgroups.trans (Nat.zero_add _)⟩

lemma Part.Proper.within {x : Part} (hx : f.extended = false) (h : x.Proper f named)
    (hroom : groupCount x.text + 1 < UInt64.size) :
    x.Within ∧ x.reader.groups = groupCount x.text := by
  obtain ⟨hs,hgroups⟩ := h.sound hx hroom
  obtain ⟨branches,whole,hcontents,hwhole⟩ := h.reads.contents
  refine ⟨⟨hs.referenced,?_⟩,hgroups⟩
  rw [← hwhole]
  exact (hs.contents hcontents).2

lemma ordered_alternatives {gs : List Regex} (h : ∀ g ∈ gs, Ordered g) {groups : Nat} :
    Ordered ⟨.alts (alternatives 0 (gs.map (fun g => (g.groups,g.pattern)))),groups,
      gs.all Regex.plain⟩ := by
  unfold Ordered
  dsimp only
  split
  · rename_i hplain
    rw [Pattern.boundsOrdered_alts,boundsOrdered_alternatives,List.all_map]
    refine List.all_eq_true.mpr (fun g hg => ?_)
    have hg' := h g hg
    rw [Ordered,if_pos (List.all_eq_true.mp hplain g hg)] at hg'
    exact hg'
  · rw [Pattern.settledBoundsOrdered_alts,settledBoundsOrdered_alternatives,List.all_map]
    refine List.all_eq_true.mpr (fun g hg => ?_)
    have hg' := h g hg
    unfold Ordered at hg'
    split at hg'
    · exact Pattern.settledBoundsOrdered_of_boundsOrdered hg'
    · exact hg'

lemma ProperInTurn.within {xs : List Part} (hx : f.extended = false) (h : ProperInTurn named f xs)
    (hroom : groupsInAll (xs.map (fun x => groupCount x.text)) < UInt64.size) : ∀ x ∈ xs, x.Within := by
  intro x hmem
  induction xs generalizing f with
  | nil => exact absurd hmem List.not_mem_nil
  | cons y xs ih =>
    rw [List.map_cons,groupsInAll] at hroom
    rcases List.mem_cons.mp hmem with rfl | hmem
    · exact (h.1.within hx (by omega)).1
    · exact ih (h.1.sound hx (by omega)).1.extended h.2 (by omega) hmem

/-- The joined text of rules compiles if each rule does: its alternatives are their patterns. -/
theorem compile_parts {xs : List Part} (hne : xs ≠ []) (hall : ProperInTurn named (ruleFlags ic) xs)
    (hordered : ∀ x ∈ xs, Ordered x.regex)
    (hroom : groupsInAll (xs.map (fun x => groupCount x.text)) < UInt64.size) {source : String}
    (hsource : source.toList = joinChars 0 (xs.map Part.text)) :
    ∃ groups, Regex.compileRule source ic = .ok ⟨.alts (alternatives 0 ((xs.map Part.regex).map
      (fun g => (g.groups,g.pattern)))),groups,(xs.map Part.regex).all Regex.plain⟩ := by
  obtain ⟨n,hn,hread⟩ := readRule_eq source ic
  have hready : Ready (ruleFlags ic) named (afterFlags (ruleFlags ic)) :=
    ⟨rfl,rfl,rfl,fun _ => rfl,fun _ => rfl⟩
  have hwithin := hall.within rfl hroom
  rw [hsource] at hn hread
  obtain ⟨r,hrun,hfinish,hreferenced⟩ := readAll_joinChars rfl hne hall hready
    (Nat.lt_of_le_of_lt (Nat.le_of_eq (Nat.zero_add _)) hroom) hn
  have hreferenced : r.referenced = references 0 xs ++ [] := hreferenced
  have hnone : ∀ n ∈ ([] : List Nat), n ≤ 0 := nofun
  have hpattern : (Pattern.alts (alternatives 0 (sizes xs))).settle r.referenced =
      .alts (alternatives 0 ((xs.map Part.regex).map (fun g => (g.groups,g.pattern)))) := by
    rw [hreferenced,Pattern.settle_alts,settle_alternatives hwithin hnone,List.map_map]
    rfl
  have hplain : (Pattern.alts (alternatives 0 (sizes xs))).isPlain r.referenced =
      (xs.map Part.regex).all Regex.plain := by
    rw [hreferenced,Pattern.isPlain_alts,isPlain_alternatives hwithin hnone,List.all_map]
    rfl
  refine ⟨r.groups,?_⟩
  rw [compileRule_eq,hread.trans hrun]
  refine ofReader_eq_ok.mpr ⟨_,hfinish,?_,ordered_alternatives ?_⟩
  · unfold regexOf
    rw [← hpattern,← hplain]
    rfl
  · intro g hg
    obtain ⟨x,hx,rfl⟩ := List.mem_map.mp hg
    exact hordered x hx

end Highlight.Rules
