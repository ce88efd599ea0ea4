import Highlight.Proofs.Regex.Routes

/-!
Matches go forward and stay in the text: every spot that a pattern leads to, by either matcher, lies
at or after the spot it is led from and not past the end of the text.
-/
namespace Highlight.Regex

/-- A match may lead from `s` to `r`. -/
def Spot.Before (t : Haystack) (s r : Spot) : Prop :=
  s.position ≤ r.position ∧ (s.position ≤ t.size → r.position ≤ t.size)

namespace Spot

variable {t : Haystack} {s r q : Spot}

lemma Before.refl (s : Spot) : s.Before t s := ⟨Nat.le_refl _,id⟩

lemma Before.trans (h : s.Before t r) (h' : r.Before t q) : s.Before t q :=
  ⟨Nat.le_trans h.1 h'.1,fun hs => h'.2 (h.2 hs)⟩

lemma Before.of_position_eq (h : s.Before t r) (hq : q.position = r.position) :
    s.Before t q := by
  rw [Before,hq]
  exact h

lemma before_advance {c : Char} (h : t.charAt? s.position = some c) : s.Before t s.advance := by
  obtain ⟨hlt,_⟩ := Array.getElem?_eq_some_iff.mp h
  exact ⟨Nat.le_succ _,fun _ => hlt⟩

lemma before_repeatEnd {n finish : Nat} (h : t.repeatEnd? s n = some finish) :
    s.Before t (s.moveTo finish) := by
  simp only [Haystack.repeatEnd?,Option.bind_eq_bind,Option.bind_eq_some_iff] at h
  obtain ⟨⟨start,stop⟩,-,h⟩ := h
  split at h
  · rename_i hc
    simp only [Bool.and_eq_true,decide_eq_true_eq] at hc
    obtain rfl := Option.some.inj h
    exact ⟨Nat.le_add_right _ _,fun _ => hc.1.2⟩
  · cases h

end Spot

variable {t : Haystack} {body : Spot → List Spot}

lemma mem_of_mem_distinctSpots {l : List Spot} {r : Spot} (h : r ∈ distinctSpots l) : r ∈ l := by
  induction l with
  | nil => exact h
  | cons s l ih =>
    rcases List.mem_cons.mp h with h | h
    · exact List.mem_cons.mpr (.inl h)
    · exact List.mem_cons.mpr (.inr (ih (List.mem_filter.mp h).1))

lemma mem_thenWays {l : List Spot} {r : Spot} (h : r ∈ thenWays l body) :
    ∃ s ∈ l, r ∈ body s := by
  match l with
  | [] => cases h
  | [s] => exact ⟨s,by simp,h⟩
  | s :: s' :: l => exact List.mem_flatMap.mp (mem_of_mem_distinctSpots h)

lemma roundWays_before (hb : ∀ s, ∀ r ∈ body s, s.Before t r) (n : Nat) {s r : Spot}
    (h : r ∈ roundWays body n s) : s.Before t r := by
  induction n generalizing r with
  | zero => rw [List.mem_singleton.mp h]; exact .refl s
  | succ n ih =>
    obtain ⟨q,hq,hr⟩ := mem_thenWays h
    exact (ih hq).trans (hb q r hr)

lemma roundRoutes_before (hb : ∀ s, ∀ r ∈ body s, s.Before t r) (n : Nat) {s r : Spot}
    (h : r ∈ roundRoutes body n s) : s.Before t r := by
  induction n generalizing s with
  | zero => rw [List.mem_singleton.mp h]; exact .refl s
  | succ n ih =>
    simp only [roundRoutes] at h
    obtain ⟨q,hq,hr⟩ := List.mem_flatMap.mp h
    exact (hb s q hq).trans (ih hr)

lemma moreRoutes_before (hb : ∀ s, ∀ r ∈ body s, s.Before t r) (greedy unbounded : Bool) (n : Nat)
    {s r : Spot} (h : r ∈ moreRoutes Spot.position body greedy unbounded n s) : s.Before t r := by
  induction n generalizing s r with
  | zero => rw [List.mem_singleton.mp h]; exact .refl s
  | succ n ih =>
    have hagain : ∀ r ∈ (body s).flatMap (fun next =>
        if unbounded && next.position == s.position then []
        else moreRoutes Spot.position body greedy unbounded n next), s.Before t r := by
      intro r hr
      obtain ⟨q,hq,hr⟩ := List.mem_flatMap.mp hr
      split at hr
      · cases hr
      · exact (hb s q hq).trans (ih hr)
    cases greedy with
    | true =>
      rcases List.mem_append.mp h with h | h
      · exact hagain r h
      · rw [List.mem_singleton.mp h]; exact .refl s
    | false =>
      rcases List.mem_cons.mp h with h | h
      · rw [h]; exact .refl s
      · exact hagain r h

namespace Sweep

/-- A fold over sweeps finds what its steps find. -/
lemma foldl_found {l : List Spot} {f : Sweep → Spot → Sweep} {P : Spot → Prop}
    (hf : ∀ w, ∀ q ∈ l, ∀ r ∈ (f w q).found, r ∈ w.found ∨ P r) (w : Sweep) :
    ∀ r ∈ (l.foldl f w).found, r ∈ w.found ∨ P r := by
  induction l generalizing w with
  | nil => exact fun r h => .inl h
  | cons q l ih =>
    intro r h
    rcases ih (fun w q' hq => hf w q' (List.mem_cons_of_mem q hq)) (f w q) r h with h | h
    · exact hf w q List.mem_cons_self r h
    · exact .inr h

lemma run_found (hb : ∀ s, ∀ r ∈ body s, s.Before t r) (greedy unbounded : Bool) (n : Nat)
    (s : Spot) (w : Sweep) :
    ∀ r ∈ (run body greedy unbounded n s w).found, r ∈ w.found ∨ s.Before t r := by
  have hleave : ∀ (w : Sweep), ∀ r ∈ (w.leave s).found, r ∈ w.found ∨ s.Before t r := by
    intro w r h
    rcases List.mem_cons.mp h with h | h
    · rw [h]; exact .inr (.refl s)
    · exact .inl h
  induction n generalizing s w with
  | zero => exact hleave w
  | succ n ih =>
    have hfold : ∀ (w : Sweep), ∀ r ∈ ((body s).foldl (fun w next =>
        if unbounded && next.position == s.position then w
        else run body greedy unbounded n next w) w).found, r ∈ w.found ∨ s.Before t r := by
      apply foldl_found
      intro w q hq r h
      split at h
      · exact .inl h
      · have hleave' : ∀ (w : Sweep), ∀ r ∈ (w.leave q).found, r ∈ w.found ∨ q.Before t r := by
          intro w r h
          rcases List.mem_cons.mp h with h | h
          · rw [h]; exact .inr (.refl q)
          · exact .inl h
        exact (ih q w hleave' r h).imp_right ((hb s q hq).trans)
    intro r h
    rw [run] at h
    by_cases hc : w.entered.contains (if unbounded then 0 else n + 1,s.position)
    · rw [if_pos hc] at h
      exact .inl h
    · rw [if_neg hc] at h
      cases greedy with
      | true =>
        rcases hleave _ r h with h | h
        · have hr := hfold _ r h
          exact hr
        · exact .inr h
      | false =>
        rcases hfold _ r h with h | h
        · exact hleave _ r h
        · exact .inr h

lemma first_found (hb : ∀ s, ∀ r ∈ body s, s.Before t r) (greedy : Bool) (room : Nat) (s : Spot)
    (w : Sweep) : ∀ r ∈ (first body greedy room s w).found, r ∈ w.found ∨ s.Before t r := by
  apply foldl_found
  intro w q hq r h
  split at h
  · split at h
    · exact .inl h
    · rcases List.mem_cons.mp h with h | h
      · rw [h]; exact .inr (hb s q hq)
      · exact .inl h
  · exact (run_found hb greedy true room q w r h).imp_right ((hb s q hq).trans)

lemma mem_results {w : Sweep} {r : Spot} (h : r ∈ w.results) : r ∈ w.found :=
  List.mem_reverse.mp (mem_of_mem_distinctSpots h)

end Sweep

lemma loopWays_before (hb : ∀ s, ∀ r ∈ body s, s.Before t r) (least : Nat) (most : Option Nat)
    (greedy : Bool) (room : Nat) {s r : Spot} (h : r ∈ loopWays body least most greedy room s) :
    s.Before t r := by
  cases most with
  | some most =>
    obtain ⟨q,hq,hr⟩ := mem_thenWays h
    rcases Sweep.run_found hb greedy false _ q {} r (Sweep.mem_results hr) with hr | hr
    · cases hr
    · exact (roundWays_before hb _ hq).trans hr
  | none =>
    have hsweep : ∀ r ∈ ((roundWays body (least - 1) s).foldl
        (fun w s => Sweep.first body greedy room s w) {}).results, s.Before t r := by
      intro r hr
      have hf := Sweep.foldl_found (f := fun w s => Sweep.first body greedy room s w)
        (P := (s.Before t ·)) (fun w q hq r hr =>
        (Sweep.first_found hb greedy room q w r hr).imp_right
          (roundWays_before hb (least - 1) hq).trans) {} r (Sweep.mem_results hr)
      exact hf.resolve_left (by simp)
    simp only [loopWays] at h
    split at h
    · exact hsweep r h
    · split at h
      · rcases List.mem_append.mp (mem_of_mem_distinctSpots h) with h | h
        · exact hsweep r h
        · rw [List.mem_singleton.mp h]; exact .refl s
      · rcases List.mem_cons.mp (mem_of_mem_distinctSpots h) with h | h
        · rw [h]; exact .refl s
        · exact hsweep r h

lemma look_before {t : Haystack} {s r : Spot} {found : List Spot} {negated : Bool}
    (h : r ∈ if negated then (if found.isEmpty then [s] else [])
      else found.map (·.moveTo s.position)) : s.Before t r := by
  cases negated with
  | true =>
    rw [if_pos rfl] at h
    rw [List.mem_singleton.mp (List.mem_ite_nil_right.mp h).2]
    exact .refl s
  | false =>
    obtain ⟨x,hx,rfl⟩ := List.mem_map.mp h
    exact (Spot.Before.refl s).of_position_eq rfl

/-- The plain matcher goes forward. -/
theorem ways_before (t : Haystack) (p : Pattern) (s : Spot) : ∀ r ∈ p.ways t s, s.Before t r := by
  induction p generalizing s with
  | empty => intro r h; rw [List.mem_singleton.mp h]; exact .refl s
  | set cs =>
    intro r h
    simp only [Pattern.ways] at h
    cases hc : t.charAt? s.position with
    | none => rw [hc] at h; cases h
    | some c =>
      simp only [hc] at h
      split at h
      · rw [List.mem_singleton.mp h]; exact Spot.before_advance hc
      · cases h
  | assert a =>
    intro r h
    simp only [Pattern.ways] at h
    split at h
    · rw [List.mem_singleton.mp h]; exact .refl s
    · cases h
  | cat p q hp hq =>
    intro r h
    obtain ⟨x,hx,hr⟩ := mem_thenWays h
    exact (hp s x hx).trans (hq x r hr)
  | alt p q hp hq =>
    intro r h
    simp only [Pattern.ways] at h
    split at h
    · exact hq s r h
    · rcases List.mem_append.mp (mem_of_mem_distinctSpots h) with h | h
      · exact hp s r h
      · exact hq s r h
  | group n p hp =>
    intro r h
    obtain ⟨x,hx,rfl⟩ := List.mem_map.mp h
    exact (hp (s.openGroup n) x hx).of_position_eq rfl
  | loop p least most greedy hp => exact fun r h => loopWays_before hp least most greedy _ h
  | look direction negated settled p hp => exact fun r h => look_before h
  | backref n =>
    intro r h
    simp only [Pattern.ways] at h
    cases hf : t.repeatEnd? s n with
    | none => rw [hf] at h; cases h
    | some finish =>
      simp only [hf] at h
      rw [List.mem_singleton.mp h]
      exact Spot.before_repeatEnd hf
  | atomic settled p hp => exact fun r h => hp s r (List.mem_of_mem_take h)

/-- The backtracking matcher goes forward. -/
theorem routes_before (t : Haystack) (p : Pattern) (s : Spot) :
    ∀ r ∈ p.routes t s, s.Before t r := by
  induction p generalizing s with
  | empty => intro r h; rw [List.mem_singleton.mp h]; exact .refl s
  | set cs => exact ways_before t (.set cs) s
  | assert a => exact ways_before t (.assert a) s
  | cat p q hp hq =>
    intro r h
    obtain ⟨x,hx,hr⟩ := List.mem_flatMap.mp h
    exact (hp s x hx).trans (hq x r hr)
  | alt p q hp hq =>
    intro r h
    rcases List.mem_append.mp h with h | h
    · exact hp s r h
    · exact hq s r h
  | group n p hp =>
    intro r h
    obtain ⟨x,hx,rfl⟩ := List.mem_map.mp h
    exact (hp (s.openGroup n) x hx).of_position_eq rfl
  | loop p least most greedy hp =>
    intro r h
    cases most with
    | some most =>
      obtain ⟨x,hx,hr⟩ := List.mem_flatMap.mp h
      exact (roundRoutes_before hp _ hx).trans (moreRoutes_before hp _ _ _ hr)
    | none =>
      obtain ⟨x,hx,hr⟩ := List.mem_flatMap.mp h
      exact (roundRoutes_before hp _ hx).trans (moreRoutes_before hp _ _ _ hr)
  | look direction negated settled p hp => exact fun r h => look_before h
  | backref n => exact ways_before t (.backref n) s
  | atomic settled p hp =>
    intro r h
    have hr := List.mem_of_mem_take h
    split at hr
    · exact ways_before t p s r hr
    · exact hp s r hr

end Highlight.Regex
