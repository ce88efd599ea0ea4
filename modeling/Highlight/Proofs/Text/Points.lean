import Highlight.Text.Runs
import Mathlib.Tactic.Lemma

/-!
Membership in a set of code points. The search among the breakpoints finds how many of them lie at or below
a code point, so that only those below a bound matter to the code points below it.
-/
namespace Highlight.Text

/-- The running totals of a list of distances from a number on. -/
def totalsFrom (n : Nat) : List Nat → List Nat
  | [] => []
  | d :: ds => (n + d) :: totalsFrom (n + d) ds

variable {points : Array Nat} {c lo hi fuel n : Nat} {ds : List Nat}

lemma toList_totals (ds : List Nat) : (totals ds).toList = totalsFrom 0 ds := by
  have hfold : ∀ (acc : Array Nat) (n : Nat),
      (ds.foldl (fun state d => (state.1.push (state.2 + d),state.2 + d)) (acc,n)).1.toList =
        acc.toList ++ totalsFrom n ds := by
    induction ds with
    | nil => exact fun acc n => (List.append_nil _).symm
    | cons d ds ih =>
      intro acc n
      rw [List.foldl_cons,ih,Array.toList_push,List.append_assoc]
      rfl
  exact hfold #[] 0

lemma le_of_mem_totalsFrom {m : Nat} (h : m ∈ totalsFrom n ds) : n ≤ m := by
  induction ds generalizing n with
  | nil => cases h
  | cons d ds ih =>
    rcases List.mem_cons.mp h with rfl | h
    · exact Nat.le_add_right n d
    · exact Nat.le_trans (Nat.le_add_right n d) (ih h)

lemma pairwise_totalsFrom (n : Nat) (ds : List Nat) : (totalsFrom n ds).Pairwise (· ≤ ·) := by
  induction ds generalizing n with
  | nil => exact .nil
  | cons d ds ih => exact .cons (fun _ h => le_of_mem_totalsFrom h) (ih (n + d))

/-- A place in a list that parts the numbers up to `c` from those above. -/
structure Parts (l : List Nat) (c k : Nat) : Prop where
  below : ∀ i m, i < k → l[i]? = some m → m ≤ c
  above : ∀ i m, k ≤ i → l[i]? = some m → c < m

lemma Parts.countP_eq {l : List Nat} {k : Nat} (h : Parts l c k) (hk : k ≤ l.length) : l.countP (· ≤ c) = k := by
  have hbelow : (l.take k).countP (· ≤ c) = k := by
    rw [List.countP_eq_length.mpr,List.length_take,Nat.min_eq_left hk]
    intro m hm
    obtain ⟨i,hi⟩ := List.mem_iff_getElem?.mp hm
    have hik : i < k := Nat.lt_of_lt_of_le (List.getElem?_eq_some_iff.mp hi).1 (List.length_take_le k l)
    rw [List.getElem?_take_of_lt hik] at hi
    exact decide_eq_true (h.below i m hik hi)
  have habove : (l.drop k).countP (· ≤ c) = 0 := by
    refine List.countP_eq_zero.mpr (fun m hm hle => ?_)
    obtain ⟨i,hi⟩ := List.mem_iff_getElem?.mp hm
    rw [List.getElem?_drop] at hi
    exact Nat.not_le_of_lt (h.above _ m (Nat.le_add_right k i) hi) (of_decide_eq_true hle)
  rw [← List.take_append_drop k l,List.countP_append,hbelow,habove,Nat.add_zero]

/-- Halving leaves the place inside the range. -/
lemma rankWithin_parts (hsorted : points.toList.Pairwise (· ≤ ·))
    (hlo : ∀ i m, i < lo → points.toList[i]? = some m → m ≤ c)
    (hhi : ∀ i m, hi ≤ i → points.toList[i]? = some m → c < m) (hle : lo ≤ hi) (hsize : hi ≤ points.size)
    (hfuel : hi - lo < Nat.pow 2 fuel) :
    rankWithin points c fuel lo hi ≤ points.size ∧ Parts points.toList c (rankWithin points c fuel lo hi) := by
  induction fuel generalizing lo hi with
  | zero =>
    have hpow : Nat.pow 2 0 = 1 := rfl
    obtain rfl : lo = hi := by omega
    exact ⟨hsize,hlo,hhi⟩
  | succ fuel ih =>
    rw [rankWithin]
    split
    · obtain rfl : lo = hi := by omega
      exact ⟨hsize,hlo,hhi⟩
    · have hmid : (lo + hi) / 2 < points.size := by omega
      have hget : points.toList[(lo + hi) / 2]? = some (points.getD ((lo + hi) / 2) 0) := by
        rw [Array.getD_eq_getD_getElem?,Array.getElem?_toList,Array.getElem?_eq_getElem hmid,Option.getD_some]
      have hmono : ∀ (i j a b : Nat), i ≤ j → points.toList[i]? = some a → points.toList[j]? = some b → a ≤ b := by
        intro i j a b hij ha hb
        rcases Nat.eq_or_lt_of_le hij with rfl | hlt
        · exact Nat.le_of_eq (Option.some.inj (ha.symm.trans hb))
        · obtain ⟨hi,rfl⟩ := List.getElem?_eq_some_iff.mp ha
          obtain ⟨hj,rfl⟩ := List.getElem?_eq_some_iff.mp hb
          exact List.pairwise_iff_getElem.mp hsorted i j hi hj hlt
      have hpow : Nat.pow 2 (fuel + 1) = Nat.pow 2 fuel * 2 := rfl
      by_cases hbelow : points.getD ((lo + hi) / 2) 0 ≤ c
      · rw [if_pos hbelow]
        refine ih (fun i m hi hm => ?_) hhi (by omega) hsize (by omega)
        exact Nat.le_trans (hmono i _ m _ (Nat.le_of_lt_succ hi) hm hget) hbelow
      · rw [if_neg hbelow]
        refine ih hlo (fun i m hi hm => ?_) (by omega) (by omega) (by omega)
        exact Nat.lt_of_lt_of_le (Nat.lt_of_not_le hbelow) (hmono _ i _ m hi hget hm)

/-- Whether a code point belongs to a set: if the number of breakpoints that lie at or below it is odd. -/
theorem PointSet.contains_ofText {text : String} (hsize : (numbers text).length < UInt32.size) (c : Char) :
    (PointSet.ofText text).contains c =
      ((totalsFrom 0 (numbers text)).countP (· ≤ c.toNat) % 2 == 1) := by
  have hlength : ∀ n ds, (totalsFrom n ds).length = ds.length := by
    intro n ds
    induction ds generalizing n with
    | nil => rfl
    | cons d ds ih => exact congrArg Nat.succ (ih _)
  have htotals := toList_totals (numbers text)
  have hpoints : (totals (numbers text)).size = (numbers text).length := by
    rw [← Array.length_toList,htotals,hlength]
  have hsorted : (totals (numbers text)).toList.Pairwise (· ≤ ·) := htotals ▸ pairwise_totalsFrom 0 _
  have hrank : rank (totals (numbers text)) c.toNat ≤ (totals (numbers text)).size ∧
      Parts (totals (numbers text)).toList c.toNat (rank (totals (numbers text)) c.toNat) := by
    refine rankWithin_parts hsorted (fun i m hi => absurd hi (Nat.not_lt_zero i)) (fun i m hi hm => ?_)
      (Nat.zero_le _) (Nat.le_refl _) (hpoints ▸ hsize)
    rw [Array.getElem?_toList,Array.getElem?_eq_none hi] at hm
    cases hm
  rw [contains,ofText,← hrank.2.countP_eq hrank.1,htotals]

/-- The numbers that characters write, separated by blanks. -/
def numbersOf (cs : List Char) : List Nat :=
  let (done,last) := cs.foldl
    (fun (done,n) c =>
      if c.isDigit then (done,10 * n + (c.toNat - '0'.toNat)) else (n :: done,0)) ([],0)
  (last :: done).reverse

/-- Texts are what lists of characters spell. -/
def Spelled (parts : List String) (chars : List (List Char)) : Prop := parts.map String.toList = chars

lemma spelled_nil : Spelled [] [] := rfl

lemma Spelled.cons {parts : List String} {chars : List (List Char)} {cs : List Char} (h : Spelled parts chars) :
    Spelled (.ofList cs :: parts) (cs :: chars) := by
  rw [Spelled,List.map_cons,String.toList_ofList,h]

/-- Breakpoints above a bound do not matter to code points below it. -/
lemma PointSet.contains_of_lt {parts : List String} {chars : List (List Char)} {bound : Nat} {small : List Nat}
    {c : Char} (hc : c.toNat < bound) (hchars : Spelled parts chars)
    (hsmall : (numbersOf chars.flatten).length < UInt32.size ∧
      (totalsFrom 0 (numbersOf chars.flatten)).filter (· < bound) = small) :
    (PointSet.ofText (String.join parts)).contains c = (small.countP (· ≤ c.toNat) % 2 == 1) := by
  have hnumbers : numbers (String.join parts) = numbersOf chars.flatten := by
    rw [← hchars,← List.flatMap_def,← String.toList_join]
    rfl
  have hbelow : ∀ m : Nat, decide (m ≤ c.toNat) = (decide (m ≤ c.toNat) && decide (m < bound)) := by
    intro m
    rw [← Bool.decide_and,decide_eq_decide]
    exact ⟨fun h => ⟨h,Nat.lt_of_le_of_lt h hc⟩,And.left⟩
  rw [contains_ofText (hnumbers ▸ hsmall.1),hnumbers,← hsmall.2,List.countP_filter]
  simp only [← hbelow]

end Highlight.Text
