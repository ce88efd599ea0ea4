import Highlight.Proofs.Rules.BarredTokens

/-!
Texts that are clear to the light scan: it counts no group in a comment or a set, no parenthesis is a condition, and no
blanks or comments hide the question mark of one. Where blanks count, line comments have nothing in them that it
looks for. What the reader of patterns passes over in such a text holds no group for the light scan either.
-/
namespace Highlight.Rules

open Regex

/-- What follows a set by the language, after its opening bracket. -/
def setEnd? (cs : List Char) : Option (List Char) :=
  let inside := (setStart cs).2
  (setTokens false (inside.length + 1) 1 inside).toOption.map Prod.snd

/-- What follows a text if the light scan counts no group before. -/
def passed? (cs after : List Char) : Option (List Char) :=
  if groupCount cs = groupCount after then some after else none

/-- Whether inline flags leave the extended mode off. No comment stands behind them. -/
def sparesExtended (cs : List Char) : Bool :=
  !(cs.takeWhile isFlagChar).contains 'x' && (cs.dropWhile isFlagChar).head? != some '('

instance (c : Char) : Decidable (IsOrdinary c) := inferInstanceAs (Decidable (_ ∧ _ ∧ _))

/-- Whether the light scan finds nothing up to the end of the line. -/
def isPlainLine (cs : List Char) : Bool := (cs.takeWhile (· != '\n')).all (fun c => decide (IsOrdinary c))

/-- Whether a question mark follows behind blanks or comments. -/
def hidesQuestion (blanks : Bool) (cs : List Char) : Bool :=
  [false,blanks].any (fun e => (skipBlanks e cs).toOption.any (·.head? == some '?'))

/-- What follows the first construct of a text, if it is clear; `blanks` tells whether blanks may count. No condition
is clear: the parenthesis behind its question mark opens no group. -/
def nextClear? (blanks : Bool) (c : Char) (rest : List Char) : Option (List Char) :=
  match c, rest with
  | '(', '?' :: '#' :: body => (skipComment body).toOption.bind (passed? ('(' :: '?' :: '#' :: body))
  | '(', '?' :: '(' :: _ => none
  | '(', '?' :: inside => if blanks || sparesExtended inside then some inside else none
  | '(', rest => if hidesQuestion blanks rest then none else some rest
  | '[', rest => (setEnd? rest).bind (passed? ('[' :: rest))
  | '\\', _ :: rest => some rest
  | '#', rest => if blanks && !isPlainLine rest then none else some rest
  | _, rest => some rest

/-- Whether at most `n` constructs of a text are clear. -/
def clearWithin (blanks : Bool) : Nat → List Char → Bool
  | 0, _ | _, [] => true
  | n + 1, c :: rest => (nextClear? blanks c rest).any (clearWithin blanks n)

/-- A text is clear where blanks may count, or may not. -/
def Clear (blanks : Bool) (cs : List Char) : Prop := clearWithin blanks cs.length cs = true

instance (blanks : Bool) (cs : List Char) : Decidable (Clear blanks cs) := inferInstanceAs (Decidable (_ = _))

variable {e blanks : Bool} {f : Flags} {c : Char} {n m : Nat} {cs cs' cs'' rest after : List Char}

section Sets

variable {fold : Bool}

lemma setEnd?_of_readSet {s : CharSet} (h : readSet fold cs = .ok (s,after)) : setEnd? cs = some after := by
  unfold readSet at h
  rw [setEnd?]
  generalize setStart cs = st at h ⊢
  obtain ⟨start,inside⟩ := st
  obtain ⟨⟨tokens,rest⟩,htokens,h⟩ := except_bind_eq_ok.mp h
  obtain ⟨⟨s',left⟩,-,h⟩ := except_bind_eq_ok.mp h
  dsimp only at h ⊢
  split at h
  · obtain ⟨-,rfl⟩ := Prod.mk.inj (Except.ok.inj h)
    obtain ⟨u,rfl,hall⟩ := setTokens_reads htokens
    obtain ⟨tokens',-,hread⟩ := hall false
    rw [hread _ rest (Nat.le_refl _)]
    rfl
  · cases h

lemma setEnd?_suffix (h : setEnd? cs = some after) : after <:+ cs := by
  obtain ⟨r,hr,rfl⟩ := Option.map_eq_some_iff.mp h
  obtain ⟨u,hu,-⟩ := setTokens_reads (except_eq_ok_of_toOption hr)
  exact List.IsSuffix.trans ⟨u,hu.symm⟩ (setStart_suffix cs)

end Sets

section Walk

lemma exists_of_passed? {o : Option (List Char)} (h : o.bind (passed? cs) = some after) :
    o = some after ∧ groupCount cs = groupCount after := by
  obtain ⟨cs',rfl,hpassed⟩ := Option.bind_eq_some_iff.mp h
  obtain ⟨hcount,h⟩ := Option.ite_none_right_eq_some.mp hpassed
  obtain rfl := Option.some.inj h
  exact ⟨rfl,hcount⟩

lemma nextClear?_suffix (h : nextClear? blanks c rest = some after) : after <:+ rest := by
  unfold nextClear? at h
  split at h
  · have hcomment := except_eq_ok_of_toOption (exists_of_passed? h).1
    exact (skipComment_barred hcomment).1.trans ((List.suffix_cons _ _).trans (List.suffix_cons _ _))
  · cases h
  · obtain ⟨-,h⟩ := Option.ite_none_right_eq_some.mp h
    exact Option.some.inj h ▸ List.suffix_cons _ _
  · obtain ⟨-,h⟩ := Option.ite_none_left_eq_some.mp h
    exact Option.some.inj h ▸ List.suffix_refl _
  · exact setEnd?_suffix (exists_of_passed? h).1
  · exact Option.some.inj h ▸ List.suffix_cons _ _
  · obtain ⟨-,h⟩ := Option.ite_none_left_eq_some.mp h
    exact Option.some.inj h ▸ List.suffix_refl _
  · exact Option.some.inj h ▸ List.suffix_refl _

lemma clearWithin_eq (hn : cs.length ≤ n) (hm : cs.length ≤ m) :
    clearWithin blanks n cs = clearWithin blanks m cs := by
  induction n generalizing m cs with
  | zero =>
    rw [List.eq_nil_of_length_eq_zero (Nat.le_zero.mp hn)]
    cases m <;> rfl
  | succ n ih =>
    cases cs with
    | nil => cases m <;> rfl
    | cons c rest =>
      cases m with
      | zero => simp at hm
      | succ m =>
        simp only [List.length_cons] at hn hm
        simp only [clearWithin]
        cases hnext : nextClear? blanks c rest with
        | none => rfl
        | some after =>
          have hlen := (nextClear?_suffix hnext).length_le
          exact ih (by omega) (by omega)

lemma clear_cons : Clear blanks (c :: rest) ↔
    ∃ after, nextClear? blanks c rest = some after ∧ Clear blanks after := by
  rw [Clear,List.length_cons,clearWithin,Option.any_eq_true]
  refine exists_congr (fun after => and_congr_right (fun hnext => ?_))
  rw [Clear,clearWithin_eq (nextClear?_suffix hnext).length_le (Nat.le_refl _)]

/-- Between two places in a clear text the light scan counts `k` groups. -/
def Counts (blanks : Bool) (k : Nat) (cs cs' : List Char) : Prop :=
  Clear blanks cs → groupCount cs = groupCount cs' + k ∧ Clear blanks cs'

namespace Counts

variable {k l : Nat}

lemma refl (cs : List Char) : Counts blanks 0 cs cs := fun h => ⟨rfl,h⟩

lemma trans (h : Counts blanks k cs cs') (h' : Counts blanks l cs' cs'') : Counts blanks (k + l) cs cs'' := by
  intro hclear
  obtain ⟨hcount,hclear'⟩ := h hclear
  obtain ⟨hcount',hclear''⟩ := h' hclear'
  exact ⟨by omega,hclear''⟩

lemma of_next (hnext : ∀ after, nextClear? blanks c rest = some after →
    after = cs ∧ groupCount (c :: rest) = groupCount cs + k) : Counts blanks k (c :: rest) cs := by
  intro hclear
  obtain ⟨after,hafter,hclear⟩ := clear_cons.mp hclear
  obtain ⟨rfl,hcount⟩ := hnext after hafter
  exact ⟨hcount,hclear⟩

lemma cons (hc : IsOrdinary c) (rest : List Char) : Counts blanks 0 (c :: rest) rest := by
  refine .of_next (fun after hnext => ⟨?_,?_⟩)
  · obtain ⟨hset,hgroup,hescape⟩ := hc
    unfold nextClear? at hnext
    split at hnext
    · exact absurd rfl hgroup
    · exact absurd rfl hgroup
    · exact absurd rfl hgroup
    · exact absurd rfl hgroup
    · exact absurd rfl hset
    · exact absurd rfl hescape
    · exact (Option.some.inj (Option.ite_none_left_eq_some.mp hnext).2).symm
    · exact (Option.some.inj hnext).symm
  · rw [groupCount_cons,nextToken_ordinary hc]
    rfl

lemma append {u : List Char} (hu : ∀ c ∈ u, IsOrdinary c) : Counts blanks 0 (u ++ rest) rest := by
  induction u with
  | nil => exact .refl rest
  | cons c u ih =>
    exact (cons (hu c List.mem_cons_self) (u ++ rest)).trans (ih (fun c hc => hu c (List.mem_cons_of_mem _ hc)))

lemma dropWhile {p : Char → Bool} (hp : ∀ c ∈ cs.takeWhile p, IsOrdinary c) :
    Counts blanks 0 cs (cs.dropWhile p) := by
  have happend : Counts blanks 0 (cs.takeWhile p ++ cs.dropWhile p) (cs.dropWhile p) := append hp
  rwa [List.takeWhile_append_dropWhile] at happend

lemma dropSpared {p : Char → Bool} (hp : Spares p) (cs : List Char) : Counts blanks 0 cs (cs.dropWhile p) :=
  dropWhile (fun _ hc => (hp.ordinary (List.all_eq_true.mp List.all_takeWhile _ hc)).1)

lemma takeMark {mark : Char} (hm : IsOrdinary mark) (cs : List Char) :
    Counts blanks 0 cs (takeMark mark cs).2 := by
  unfold Regex.takeMark
  split
  · rename_i hhead
    obtain ⟨rest,rfl⟩ := List.head?_eq_some_iff.mp hhead
    exact cons hm rest
  · exact .refl cs

lemma escape (d : Char) (rest : List Char) : Counts blanks 0 ('\\' :: d :: rest) rest := by
  refine .of_next (fun after hnext => ⟨(Option.some.inj hnext).symm,?_⟩)
  cases hd : startsReference d with
  | true =>
    have hdigits : Skips false 0 rest 0 (rest.dropWhile Char.isDigit) := .dropWhile spares_isDigit rest
    rw [groupCount_cons,nextToken_reference hd,hdigits.count]
    rfl
  | false =>
    have hescape : Passes false 0 ['\\',d] 0 rest := .escape hd
    exact hescape.count

lemma comment (h : skipComment cs = .ok after) : Counts blanks 0 ('(' :: '?' :: '#' :: cs) after := by
  refine .of_next (fun after' hnext => ?_)
  obtain ⟨hcomment,hcount⟩ := exists_of_passed? hnext
  obtain rfl := Except.ok.inj (h.symm.trans (except_eq_ok_of_toOption hcomment))
  exact ⟨rfl,hcount⟩

lemma set {fold : Bool} {s : CharSet} (h : readSet fold rest = .ok (s,after)) :
    Counts blanks 0 ('[' :: rest) after := by
  refine .of_next (fun after' hnext => ?_)
  obtain ⟨hset,hcount⟩ := exists_of_passed? hnext
  obtain rfl := Option.some.inj ((setEnd?_of_readSet h).symm.trans hset)
  exact ⟨rfl,hcount⟩

end Counts

lemma eq_of_nextClear?_special (hcs : cs.head? ≠ some '#') (h : nextClear? blanks '(' ('?' :: cs) = some after) :
    after = cs ∧ (blanks || sparesExtended cs) = true := by
  unfold nextClear? at h
  split at h
  case h_1 => simp_all
  case h_2 => cases h
  case h_3 inside _ _ heq =>
    obtain rfl := (List.cons.inj heq).2
    obtain ⟨hspares,h⟩ := Option.ite_none_right_eq_some.mp h
    exact ⟨(Option.some.inj h).symm,hspares⟩
  all_goals simp_all

lemma nextClear?_group (hcs : cs.head? ≠ some '?') :
    nextClear? blanks '(' cs = if hidesQuestion blanks cs then none else some cs := by
  unfold nextClear?
  split <;> simp_all

namespace Counts

lemma special (hcs : cs.head? ≠ some '#') :
    Counts blanks (if opensNamed cs then 1 else 0) ('(' :: '?' :: cs) cs := by
  refine .of_next (fun after hnext => ⟨(eq_of_nextClear?_special hcs hnext).1,?_⟩)
  rw [groupCount_cons,nextToken_special]
  cases opensNamed cs with
  | true => rfl
  | false => rfl

lemma group (hcs : cs.head? ≠ some '?') : Counts blanks 1 ('(' :: cs) cs := by
  refine .of_next (fun after hnext => ?_)
  rw [nextClear?_group hcs] at hnext
  obtain ⟨-,h⟩ := Option.ite_none_left_eq_some.mp hnext
  refine ⟨(Option.some.inj h).symm,?_⟩
  rw [groupCount_cons,nextToken_group hcs]
  rfl

end Counts

lemma Clear.sparesExtended (h : Clear blanks ('(' :: '?' :: cs)) (hcs : cs.head? ≠ some '#') :
    blanks = true ∨ sparesExtended cs = true := by
  obtain ⟨after,hnext,-⟩ := clear_cons.mp h
  exact Bool.or_eq_true_iff.mp (eq_of_nextClear?_special hcs hnext).2

lemma Clear.hidesQuestion (h : Clear blanks ('(' :: cs)) (hcs : cs.head? ≠ some '?') :
    hidesQuestion blanks cs = false := by
  obtain ⟨after,hnext,-⟩ := clear_cons.mp h
  rw [nextClear?_group hcs] at hnext
  exact eq_false_of_ne_true (Option.ite_none_left_eq_some.mp hnext).1

end Walk

section Blanks

/-- A line comment, where blanks may count. -/
lemma Counts.line (cs : List Char) : Counts true 0 ('#' :: cs) ((cs.dropWhile (· != '\n')).drop 1) := by
  intro hclear
  have hline : ∀ c ∈ cs.takeWhile (· != '\n'), IsOrdinary c := by
    obtain ⟨after,hnext,-⟩ := clear_cons.mp hclear
    have hplain := (Option.ite_none_left_eq_some.mp hnext).1
    simpa [isPlainLine] using hplain
  have hend : Counts true 0 (cs.dropWhile (· != '\n')) ((cs.dropWhile (· != '\n')).drop 1) := by
    have hbreak := List.head?_dropWhile_not (· != '\n') cs
    cases hdrop : cs.dropWhile (· != '\n') with
    | nil => exact .refl []
    | cons c rest =>
      rw [hdrop] at hbreak
      obtain rfl : c = '\n' := by simpa using hbreak
      exact cons (by decide) rest
  exact ((cons (by decide) cs).trans ((dropWhile hline).trans hend)) hclear

lemma SkipsOne.counts (h : SkipsOne e cs cs') (he : e = true → blanks = true) : Counts blanks 0 cs cs' := by
  cases h with
  | comment h => exact .comment h
  | line hline =>
    obtain rfl := he hline
    exact .line _
  | blank _ hc =>
    refine .cons ?_ _
    simp only [List.mem_cons,List.not_mem_nil,or_false] at hc
    rcases hc with rfl | rfl | rfl | rfl <;> decide

lemma counts_skipBlanksWithin (he : e = true → blanks = true) (h : skipBlanksWithin e n cs = .ok cs') :
    Counts blanks 0 cs cs' := by
  induction n generalizing cs with
  | zero => exact Except.ok.inj h ▸ .refl cs
  | succ n ih =>
    cases cs with
    | nil => exact Except.ok.inj h ▸ .refl []
    | cons c cs =>
      rcases skipBlanksWithin_cons h with ⟨rfl,-,-⟩ | ⟨cs₁,hone,h⟩
      · exact .refl _
      · exact (hone.counts he).trans (ih h)

/-- What is passed over where a text is clear holds no group for the light scan. -/
theorem counts_skipBlanks (he : e = true → blanks = true) (h : skipBlanks e cs = .ok cs') :
    Counts blanks 0 cs cs' :=
  counts_skipBlanksWithin he h

lemma noComment_of_skipBlanks (h : skipBlanks e cs = .ok (c :: rest)) : NoComment (c :: rest) := by
  rcases skipBlanksWithin_cons ((skipBlanks_skipped h).again 1) with ⟨-,hn,-⟩ | ⟨cs₁,hone,h⟩
  · exact hn
  · obtain rfl := Except.ok.inj h
    exact absurd hone.suffix.2 (Nat.lt_irrefl _)

end Blanks

end Highlight.Rules
