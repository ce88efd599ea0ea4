import Highlight.Proofs.Regex.Ends
import Mathlib.Data.List.Basic

/-!
Patterns that stay in a line. They take no line break and ask for nothing but line ends, so that they match
in a text as they do in some of its lines alone.
-/
namespace Highlight.Regex

/-- A text that stands in another one from a position on, as some whole lines of it. -/
structure Lines (part whole : Source) (lo : Nat) : Prop where
  fits : lo + part.size ≤ whole.size
  chars : ∀ k < part.size, whole[lo + k]? = part[k]?
  starts : lo = 0 ∨ whole[lo - 1]? = some '\n'
  stops : lo + part.size = whole.size ∨ whole[lo + part.size]? = some '\n'

namespace Lines

variable {part whole : Source} {lo k : Nat}

/-- What may follow a position in the lines differs from what follows it in the text at their end only,
where it is nothing or a line break. -/
lemma charAt? (h : Lines part whole lo) (hk : k ≤ part.size) :
    whole[lo + k]? = part[k]? ∨ k = part.size ∧ part[k]? = none ∧ whole[lo + k]? = some '\n' := by
  rcases Nat.lt_or_eq_of_le hk with hlt | rfl
  · exact .inl (h.chars k hlt)
  · have hnone : part[part.size]? = none := Array.getElem?_eq_none_iff.mpr (Nat.le_refl _)
    rcases h.stops with hstop | hbreak
    · left
      rw [hstop,hnone]
      exact Array.getElem?_eq_none_iff.mpr (Nat.le_refl _)
    · exact .inr ⟨rfl,hnone,hbreak⟩

/-- Lines start and end in the text where they do alone. -/
lemma holds (h : Lines part whole lo) (hk : k ≤ part.size) {a : Assertion}
    (ha : a = .lineStart ∨ a = .lineEnd) : a.holds { text := whole } (lo + k) = a.holds { text := part } k := by
  rcases ha with rfl | rfl
  · simp only [Assertion.holds,Haystack.charBefore?]
    cases k with
    | zero =>
      rcases h.starts with rfl | hbreak
      · simp
      · by_cases hlo : lo = 0
        · simp [hlo]
        · simp [hlo,hbreak]
    | succ k => simp [← Nat.add_assoc,h.chars k hk]
  · simp only [Assertion.holds,Haystack.charAt?,Haystack.size]
    rcases Nat.lt_or_eq_of_le hk with hlt | rfl
    · have hfits := h.fits
      have h1 : (lo + k == whole.size) = false := by
        rw [beq_eq_false_iff_ne]
        omega
      have h2 : (k == part.size) = false := by
        rw [beq_eq_false_iff_ne]
        omega
      rw [h1,h2,h.chars k hlt]
    · rcases h.stops with hstop | hbreak
      · simp [hstop]
      · simp [hbreak]

end Lines

namespace Pattern

/-- Whether the matches of a pattern stay in a line and ask for nothing beyond it. -/
def staysInLine : Pattern → Bool
  | empty => true
  | set cs => !cs.contains '\n'
  | assert a => a == .lineStart || a == .lineEnd
  | cat p q | alt p q => p.staysInLine && q.staysInLine
  | group _ p | loop p .. => p.staysInLine
  | look .. | backref _ | atomic .. => false

end Pattern

section Shifted

variable {e e' f f' : Nat → List Nat} {lo n : Nat}

/-- A step of positions that is another one up to a shift, as long as it starts before an end. -/
def Shifts (lo n : Nat) (e e' : Nat → List Nat) : Prop :=
  ∀ k ≤ n, e (lo + k) = (e' k).map (lo + ·) ∧ ∀ j ∈ e' k, k ≤ j ∧ j ≤ n

lemma Shifts.comp (he : Shifts lo n e e') (hf : Shifts lo n f f') :
    Shifts lo n (fun i => (e i).flatMap f) (fun k => (e' k).flatMap f') := by
  intro k hk
  obtain ⟨heq,hbounds⟩ := he k hk
  constructor
  · change (e (lo + k)).flatMap f = ((e' k).flatMap f').map (lo + ·)
    rw [heq,List.flatMap_map,List.map_flatMap]
    exact List.flatMap_congr (fun j hj => (hf j (hbounds j hj).2).1)
  · intro j hj
    obtain ⟨i,hi,hj⟩ := List.mem_flatMap.mp hj
    have hi := hbounds i hi
    have hj := (hf i hi.2).2 j hj
    exact ⟨Nat.le_trans hi.1 hj.1,hj.2⟩

lemma shifts_here : Shifts lo n (fun i => [i]) (fun k => [k]) := by
  intro k hk
  refine ⟨rfl,fun j hj => ?_⟩
  rw [List.mem_singleton.mp hj]
  exact ⟨Nat.le_refl k,hk⟩

lemma shifts_roundRoutes (he : Shifts lo n e e') (rounds : Nat) :
    Shifts lo n (roundRoutes e rounds) (roundRoutes e' rounds) := by
  induction rounds with
  | zero => exact shifts_here
  | succ rounds ih => exact he.comp ih

/-- The number of further rounds matters only where it bounds them. -/
lemma shifts_moreRoutes (he : Shifts lo n e e') (greedy unbounded : Bool) (rounds rounds' : Nat) {k : Nat}
    (hk : k ≤ n) (hrounds : if unbounded then n < k + rounds ∧ n < k + rounds' else rounds = rounds') :
    moreRoutes id e greedy unbounded rounds (lo + k) =
        (moreRoutes id e' greedy unbounded rounds' k).map (lo + ·) ∧
      ∀ j ∈ moreRoutes id e' greedy unbounded rounds' k, k ≤ j ∧ j ≤ n := by
  induction rounds generalizing rounds' k with
  | zero =>
    cases rounds' with
    | zero => exact shifts_here k hk
    | succ rounds' =>
      cases unbounded with
      | true => exact absurd hrounds.1 (Nat.not_lt.mpr hk)
      | false => cases hrounds
  | succ rounds ih =>
    cases rounds' with
    | zero =>
      cases unbounded with
      | true => exact absurd hrounds.2 (Nat.not_lt.mpr hk)
      | false => cases hrounds
    | succ rounds' =>
      obtain ⟨heq,hbounds⟩ := he k hk
      -- what a round leads to, unless it was an empty one
      have hnext : ∀ j ∈ e' k,
          (if (unbounded && lo + j == lo + k) = true then [] else
              moreRoutes id e greedy unbounded rounds (lo + j)) =
            (if (unbounded && j == k) = true then [] else
              moreRoutes id e' greedy unbounded rounds' j).map (lo + ·) ∧
          ∀ i ∈ (if (unbounded && j == k) = true then [] else
              moreRoutes id e' greedy unbounded rounds' j), k ≤ i ∧ i ≤ n := by
        intro j hj
        obtain ⟨hkj,hjn⟩ := hbounds j hj
        have hsame : (lo + j == lo + k) = (j == k) := by
          rw [Bool.eq_iff_iff,beq_iff_eq,beq_iff_eq]
          exact Nat.add_left_cancel_iff
        rw [hsame]
        by_cases hempty : (unbounded && j == k) = true
        · rw [if_pos hempty,if_pos hempty]
          exact ⟨rfl,fun i hi => by cases hi⟩
        · rw [if_neg hempty,if_neg hempty]
          have hrounds' : if unbounded then n < j + rounds ∧ n < j + rounds' else rounds = rounds' := by
            cases unbounded with
            | true =>
              have hne : j ≠ k := by simpa using hempty
              simp only [if_true] at hrounds ⊢
              omega
            | false => exact Nat.succ.inj hrounds
          obtain ⟨h1,h2⟩ := ih rounds' hjn hrounds'
          exact ⟨h1,fun i hi => ⟨Nat.le_trans hkj (h2 i hi).1,(h2 i hi).2⟩⟩
      have hagain : (e (lo + k)).flatMap (fun j => if (unbounded && j == lo + k) = true then [] else
            moreRoutes id e greedy unbounded rounds j) =
          ((e' k).flatMap (fun j => if (unbounded && j == k) = true then [] else
            moreRoutes id e' greedy unbounded rounds' j)).map (lo + ·) := by
        rw [heq,List.flatMap_map,List.map_flatMap]
        exact List.flatMap_congr (fun j hj => (hnext j hj).1)
      have hwithin : ∀ i ∈ (e' k).flatMap (fun j => if (unbounded && j == k) = true then [] else
          moreRoutes id e' greedy unbounded rounds' j), k ≤ i ∧ i ≤ n := by
        intro i hi
        obtain ⟨j,hj,hi⟩ := List.mem_flatMap.mp hi
        exact (hnext j hj).2 i hi
      have hhere := (@shifts_here lo n k hk).2
      cases greedy with
      | true =>
        simp only [moreRoutes,id_eq,if_true,List.map_append,List.map_cons,List.map_nil]
        rw [hagain]
        exact ⟨rfl,List.forall_mem_append.mpr ⟨hwithin,hhere⟩⟩
      | false =>
        simp only [moreRoutes,id_eq,Bool.false_eq_true,if_false,List.map_cons]
        rw [hagain]
        exact ⟨rfl,List.forall_mem_cons.mpr ⟨hhere k List.mem_cons_self,hwithin⟩⟩

end Shifted

/-- A pattern that stays in a line ends in the lines of a text where it does in the lines alone. -/
theorem ends_lines {part whole : Source} {lo : Nat} (h : Lines part whole lo) {p : Pattern}
    (hp : p.staysInLine = true) :
    Shifts lo part.size (p.ends { text := whole }) (p.ends { text := part }) := by
  induction p with
  | empty => exact shifts_here
  | set cs =>
    intro k hk
    simp only [Pattern.ends,Haystack.charAt?]
    rcases h.charAt? hk with hsame | ⟨rfl,hnone,hbreak⟩
    · rw [hsame]
      cases hc : part[k]? with
      | none => exact ⟨rfl,by simp⟩
      | some c =>
        have hlt : k < part.size := (Array.getElem?_eq_some_iff.mp hc).1
        dsimp only
        split
        · refine ⟨rfl,fun j hj => ?_⟩
          rw [List.mem_singleton.mp hj]
          exact ⟨Nat.le_succ k,hlt⟩
        · exact ⟨rfl,by simp⟩
    · have hcs : cs.contains '\n' = false := by simpa [Pattern.staysInLine] using hp
      rw [hnone,hbreak]
      dsimp only
      rw [hcs]
      exact ⟨rfl,by simp⟩
  | assert a =>
    intro k hk
    have ha : a = .lineStart ∨ a = .lineEnd := by simpa [Pattern.staysInLine] using hp
    simp only [Pattern.ends,h.holds hk ha]
    split
    · exact ⟨rfl,by simpa using hk⟩
    · exact ⟨rfl,by simp⟩
  | cat p q ihp ihq =>
    obtain ⟨h1,h2⟩ := Bool.and_eq_true_iff.mp hp
    exact (ihp h1).comp (ihq h2)
  | alt p q ihp ihq =>
    obtain ⟨h1,h2⟩ := Bool.and_eq_true_iff.mp hp
    intro k hk
    obtain ⟨hp1,hp2⟩ := ihp h1 k hk
    obtain ⟨hq1,hq2⟩ := ihq h2 k hk
    simp only [Pattern.ends,hp1,hq1,List.map_append,true_and]
    exact List.forall_mem_append.mpr ⟨hp2,hq2⟩
  | group n p ihp => exact ihp hp
  | loop p least most greedy ihp =>
    have hbody := ihp hp
    have hfits := h.fits
    cases most with
    | some most =>
      exact (shifts_roundRoutes hbody _).comp
        (fun k hk => shifts_moreRoutes hbody greedy false _ _ hk rfl)
    | none =>
      refine (shifts_roundRoutes hbody least).comp (fun k hk =>
        shifts_moreRoutes hbody greedy true _ _ hk ?_)
      simp only [if_true,Haystack.size]
      omega
  | look _ _ _ _ => cases hp
  | backref _ => cases hp
  | atomic _ _ => cases hp

namespace Pattern

/-- A number of characters that every match takes at least. -/
def leastWidth : Pattern → Nat
  | set _ => 1
  | cat p q => p.leastWidth + q.leastWidth
  | alt p q => min p.leastWidth q.leastWidth
  | group _ p => p.leastWidth
  | loop p least most _ => (most.elim least (min least ·)) * p.leastWidth
  | _ => 0

lemma add_le_of_mem_roundRoutes {e : Nat → List Nat} {w n : Nat} (he : ∀ i ≤ n, ∀ j ∈ e i, i + w ≤ j ∧ j ≤ n)
    (rounds : Nat) {i j : Nat} (hi : i ≤ n) (hj : j ∈ roundRoutes e rounds i) :
    i + rounds * w ≤ j ∧ j ≤ n := by
  induction rounds generalizing i with
  | zero =>
    rw [List.mem_singleton.mp hj]
    exact ⟨by simp,hi⟩
  | succ rounds ih =>
    obtain ⟨k,hk,hj⟩ := List.mem_flatMap.mp hj
    obtain ⟨h1,h2⟩ := he i hi k hk
    obtain ⟨h3,h4⟩ := ih h2 hj
    rw [Nat.succ_mul]
    omega

/-- A match takes so many characters. -/
lemma add_leastWidth_le (t : Haystack) {p : Pattern} (h : p.isPositional = true) {i j : Nat}
    (hi : i ≤ t.size) (hj : j ∈ p.ends t i) : i + p.leastWidth ≤ j := by
  induction p generalizing i j with
  | set cs =>
    simp only [ends] at hj
    split at hj
    · split at hj
      · rw [List.mem_singleton.mp hj]
        exact Nat.le_refl _
      · cases hj
    · cases hj
  | cat p q ihp ihq =>
    obtain ⟨h1,h2⟩ := Bool.and_eq_true_iff.mp h
    obtain ⟨k,hk,hj⟩ := List.mem_flatMap.mp hj
    have hp := ihp h1 hi hk
    have hq := ihq h2 (ends_within t h1 hi hk).2 hj
    rw [leastWidth]
    omega
  | alt p q ihp ihq =>
    obtain ⟨h1,h2⟩ := Bool.and_eq_true_iff.mp h
    rw [leastWidth]
    rcases List.mem_append.mp hj with hj | hj
    · have hp := ihp h1 hi hj
      omega
    · have hq := ihq h2 hi hj
      omega
  | group n p ihp => exact ihp h hi hj
  | loop p least most greedy ihp =>
    have hp : p.isPositional = true := h
    have hrounds := add_le_of_mem_roundRoutes (e := p.ends t) (w := p.leastWidth) (n := t.size)
      (fun i hi j hj => ⟨ihp hp hi hj,(ends_within t hp hi hj).2⟩)
    -- further rounds only go forward, as they would in a loop that asks for no rounds
    cases most with
    | some most =>
      obtain ⟨k,hk,hj⟩ := List.mem_flatMap.mp hj
      obtain ⟨h1,h2⟩ := hrounds _ hi hk
      have hmore : j ∈ (loop p 0 (some (most - least)) greedy).ends t k := by
        simpa [ends,roundRoutes] using hj
      exact Nat.le_trans h1 (ends_within t (p := loop p 0 (some (most - least)) greedy) hp h2 hmore).1
    | none =>
      obtain ⟨k,hk,hj⟩ := List.mem_flatMap.mp hj
      obtain ⟨h1,h2⟩ := hrounds _ hi hk
      have hmore : j ∈ (loop p 0 none greedy).ends t k := by
        simpa [ends,roundRoutes] using hj
      exact Nat.le_trans h1 (ends_within t (p := loop p 0 none greedy) hp h2 hmore).1
  | _ => exact (ends_within t h hi hj).1

end Pattern

end Highlight.Regex
