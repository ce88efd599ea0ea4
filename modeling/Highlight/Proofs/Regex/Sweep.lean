import Highlight.Proofs.Regex.Ends
import Mathlib.Data.List.Basic

/-!
Lists of positions that agree once repetitions are dropped: what comes first in them comes in the same
order.
-/
namespace Highlight.Regex

/-- The same elements in the same order, each taken where it first occurs. -/
def SameFirsts (l m : List Nat) : Prop := l.eraseDups = m.eraseDups

lemma length_filter_lt (p : Nat → Bool) (a : Nat) (l : List Nat) :
    (l.filter p).length < (a :: l).length :=
  Nat.lt_succ_of_le (List.length_filter_le p l)

lemma eraseDups_filter (p : Nat → Bool) (l : List Nat) :
    (l.filter p).eraseDups = l.eraseDups.filter p := by
  induction hn : l.length using Nat.strongRecOn generalizing l with
  | ind n ih =>
    cases l with
    | nil => rfl
    | cons a l =>
      have hlen := hn ▸ length_filter_lt (fun b => !b == a) a l
      have htail := ih _ hlen (l.filter (fun b => !b == a)) rfl
      rw [List.filter_filter] at htail
      by_cases ha : p a = true
      · rw [List.filter_cons_of_pos ha,List.eraseDups_cons,List.eraseDups_cons,
          List.filter_cons_of_pos ha,← htail,List.filter_filter]
        simp only [Bool.and_comm]
      · rw [List.filter_cons_of_neg ha,List.eraseDups_cons,List.filter_cons_of_neg ha,← htail]
        congr 1
        apply List.filter_congr
        intro b hb
        by_cases hba : b = a
        · subst hba
          simp [ha]
        · simp [hba]

lemma eraseDups_append_filter (l m : List Nat) :
    (l ++ m).eraseDups = l.eraseDups ++ m.eraseDups.filter (fun x => !l.elem x) := by
  rw [List.eraseDups_append,← eraseDups_filter]
  rfl

namespace SameFirsts

variable {l l' m m' : List Nat}

lemma refl (l : List Nat) : SameFirsts l l := rfl

lemma symm (h : SameFirsts l m) : SameFirsts m l := Eq.symm h

lemma trans {k : List Nat} (h : SameFirsts l m) (h' : SameFirsts m k) : SameFirsts l k := Eq.trans h h'

lemma mem_iff (h : SameFirsts l m) {x : Nat} : x ∈ l ↔ x ∈ m := by
  rw [← List.mem_eraseDups,h,List.mem_eraseDups]

lemma head? (h : SameFirsts l m) : l.head? = m.head? := by
  cases l with
  | nil =>
    cases m with
    | nil => rfl
    | cons b m => exact absurd (h.mem_iff.mpr List.mem_cons_self) List.not_mem_nil
  | cons a l =>
    cases m with
    | nil => exact absurd (h.mem_iff.mp List.mem_cons_self) List.not_mem_nil
    | cons b m =>
      rw [SameFirsts,List.eraseDups_cons,List.eraseDups_cons] at h
      exact congrArg some (List.cons.inj h).1

instance : Trans SameFirsts SameFirsts SameFirsts := ⟨trans⟩

lemma append (h : SameFirsts l l') (h' : SameFirsts m m') : SameFirsts (l ++ m) (l' ++ m') := by
  rw [SameFirsts,eraseDups_append_filter,eraseDups_append_filter,h,h']
  congr 1
  apply List.filter_congr
  intro x _
  simp only [List.elem_eq_mem,h.mem_iff]

/-- What occurred before may be left out. -/
lemma append_left_of_forall (h : ∀ x ∈ m, x ∈ l) : SameFirsts (l ++ m) l := by
  rw [SameFirsts,eraseDups_append_filter]
  have hnil : m.eraseDups.filter (fun x => !l.elem x) = [] := by
    rw [List.filter_eq_nil_iff]
    intro x hx
    simp [h x (List.mem_eraseDups.mp hx)]
  rw [hnil,List.append_nil]

lemma drop (h : ∀ x ∈ m, x ∈ l) (k : List Nat) : SameFirsts (l ++ m ++ k) (l ++ k) :=
  (append_left_of_forall h).append (refl k)

lemma eraseDups_self (l : List Nat) : SameFirsts l.eraseDups l := by
  induction hn : l.length using Nat.strongRecOn generalizing l with
  | ind n ih =>
    cases l with
    | nil => rfl
    | cons a l =>
      have hlen := hn ▸ length_filter_lt (fun b => !b == a) a l
      have htail := ih _ hlen _ rfl
      rw [SameFirsts] at htail
      rw [SameFirsts,List.eraseDups_cons,List.eraseDups_cons,← eraseDups_filter,List.filter_filter]
      simp only [Bool.and_self,htail]

lemma flatMap_congr {g g' : Nat → List Nat} (h : ∀ x ∈ l, SameFirsts (g x) (g' x)) :
    SameFirsts (l.flatMap g) (l.flatMap g') := by
  induction l with
  | nil => exact refl _
  | cons a l ih =>
    rw [List.flatMap_cons,List.flatMap_cons]
    exact (h a List.mem_cons_self).append (ih (fun x hx => h x (List.mem_cons_of_mem a hx)))

/-- A step that was taken before may be left out. -/
lemma flatMap_filter {g : Nat → List Nat} {a : Nat} (h : ∀ x ∈ g a, x ∈ l) (m : List Nat) :
    SameFirsts (l ++ m.flatMap g) (l ++ (m.filter (fun b => !b == a)).flatMap g) := by
  induction m generalizing l with
  | nil => exact refl _
  | cons b m ih =>
    by_cases hb : b = a
    · subst hb
      have habsorb : SameFirsts (l ++ (g b ++ m.flatMap g)) (l ++ m.flatMap g) := by
        rw [← List.append_assoc]
        exact (append_left_of_forall h).append (refl _)
      simpa using habsorb.trans (ih h)
    · have hm := ih (l := l ++ g b) (fun x hx => List.mem_append_left _ (h x hx))
      simpa [hb] using hm

lemma flatMap_eraseDups (g : Nat → List Nat) (l : List Nat) :
    SameFirsts (l.flatMap g) (l.eraseDups.flatMap g) := by
  induction hn : l.length using Nat.strongRecOn generalizing l with
  | ind n ih =>
    cases l with
    | nil => exact refl _
    | cons a l =>
      have hlen := hn ▸ length_filter_lt (fun b => !b == a) a l
      rw [List.eraseDups_cons,List.flatMap_cons,List.flatMap_cons]
      exact (flatMap_filter (fun x hx => hx) l).trans ((refl _).append (ih _ hlen _ rfl))

lemma flatMap {g g' : Nat → List Nat} (h : SameFirsts l m) (hg : ∀ x ∈ m, SameFirsts (g x) (g' x)) :
    SameFirsts (l.flatMap g) (m.flatMap g') := by
  have hl := flatMap_eraseDups g l
  rw [show l.eraseDups = m.eraseDups from h] at hl
  exact (hl.trans (flatMap_eraseDups g m).symm).trans (flatMap_congr hg)

end SameFirsts
end Highlight.Regex

/-!
A sweep over the optional rounds of a loop. It visits the head of a round once, and yet it finds what
trying all rounds finds, in the same order: what it passes over, it found before.
-/
namespace Highlight.Regex

/-- A step of spots that leads where a step of positions does, but for repetitions. -/
def Follows (size : Nat) (g : Spot → List Spot) (e : Nat → List Nat) : Prop :=
  ∀ s, s.position ≤ size → SameFirsts ((g s).map Spot.position) (e s.position)

/-- The optional rounds of a loop, by the positions where a round may end. -/
structure Rounds where
  size : Nat
  ends : Nat → List Nat
  greedy : Bool
  unbounded : Bool
  bounds : ∀ i ≤ size, ∀ j ∈ ends i, i ≤ j ∧ j ≤ size

namespace Rounds

variable (R : Rounds)

/-- Where up to `n` rounds may end. -/
def more (n i : Nat) : List Nat := moreRoutes id R.ends R.greedy R.unbounded n i

/-- What the sweep remembers of a round. -/
def head (n i : Nat) : Nat × Nat := (if R.unbounded then 0 else n,i)

/-- How many rounds may follow the head of one. -/
def rank (h : Nat × Nat) : Nat := if R.unbounded then R.size + 1 - h.2 else h.1

/-- Where a further round may lead, after which up to `n` may follow. -/
def again (n i : Nat) : List Nat → List Nat :=
  List.flatMap (fun j => if R.unbounded && j == i then [] else R.more n j)

lemma more_succ (n i : Nat) : R.more (n + 1) i =
    if R.greedy then R.again n i (R.ends i) ++ [i] else i :: R.again n i (R.ends i) := rfl

/-- An unbounded loop ends by itself. -/
lemma more_stable (hu : R.unbounded = true) {n m i : Nat} (hi : i ≤ R.size) (hn : R.size + 1 - i ≤ n)
    (hm : R.size + 1 - i ≤ m) : R.more n i = R.more m i := by
  induction n generalizing m i with
  | zero => omega
  | succ n ih =>
    cases m with
    | zero => omega
    | succ m =>
      have hagain : R.again n i (R.ends i) = R.again m i (R.ends i) := by
        apply List.flatMap_congr
        intro j hj
        obtain ⟨hij,hjs⟩ := R.bounds i hi j hj
        by_cases he : j = i
        · simp [hu,he]
        · have hne : (R.unbounded && j == i) = false := by simp [he]
          rw [hne]
          exact ih hjs (by omega) (by omega)
      rw [more_succ,more_succ,hagain]

/-- After `n` rounds no more are left than the loop allows. -/
def Allows (n i : Nat) : Prop := i ≤ R.size ∧ (R.unbounded = true → R.size + 1 - i ≤ n)

lemma more_rank {n i : Nat} (h : R.Allows n i) : R.more (R.rank (R.head n i)) i = R.more n i := by
  by_cases hu : R.unbounded = true
  · simp only [rank,head,hu,if_true]
    exact R.more_stable hu h.1 (Nat.le_refl _) (h.2 hu)
  · simp only [rank,head,hu]
    rfl

end Rounds

namespace Sweep

/-- The positions found, in order. -/
def stops (w : Sweep) : List Nat := (w.found.map Spot.position).reverse

lemma stops_leave (w : Sweep) (s : Spot) : (w.leave s).stops = w.stops ++ [s.position] := by
  simp [stops,leave]

/-- Whatever may follow the heads up to a rank was found. -/
def Settled (R : Rounds) (c : Nat) (w : Sweep) : Prop :=
  ∀ h ∈ w.entered, R.rank h ≤ c → ∀ x ∈ R.more (R.rank h) h.2, x ∈ w.stops

/-- From one state of a sweep to another the positions of a list were found; heads were entered up to
a rank. -/
structure Explores (R : Rounds) (c : Nat) (l : List Nat) (w w' : Sweep) : Prop where
  stops : SameFirsts w'.stops (w.stops ++ l)
  settled : Settled R c w'
  entered : ∀ h ∈ w'.entered, h ∈ w.entered ∨ R.rank h ≤ c
  kept : ∀ h ∈ w.entered, h ∈ w'.entered

variable {R : Rounds} {c c' : Nat} {l l' : List Nat} {w w' w'' : Sweep}

namespace Explores

lemma refl (h : Settled R c w) : Explores R c [] w w :=
  ⟨by rw [List.append_nil]; exact .refl _,h,fun _ hh => .inl hh,fun _ hh => hh⟩

lemma of_sameFirsts (h : Explores R c l w w') (hl : SameFirsts l l') : Explores R c l' w w' :=
  ⟨h.stops.trans ((SameFirsts.refl _).append hl),h.settled,h.entered,h.kept⟩

lemma mem_stops (h : Explores R c l w w') {x : Nat} (hx : x ∈ w.stops) : x ∈ w'.stops :=
  h.stops.mem_iff.mpr (List.mem_append_left _ hx)

lemma mem_stops_of_mem (h : Explores R c l w w') {x : Nat} (hx : x ∈ l) : x ∈ w'.stops :=
  h.stops.mem_iff.mpr (List.mem_append_right _ hx)

/-- What was found before may be passed over. -/
lemma skip (h : Settled R c w) (hl : ∀ x ∈ l, x ∈ w.stops) : Explores R c l w w :=
  ⟨(SameFirsts.append_left_of_forall hl).symm,h,fun _ hh => .inl hh,fun _ hh => hh⟩

lemma trans (h : Explores R c l w w') (h' : Explores R c l' w' w'') :
    Explores R c (l ++ l') w w'' := by
  refine ⟨?_,h'.settled,fun x hx => ?_,fun x hx => h'.kept x (h.kept x hx)⟩
  · rw [← List.append_assoc]
    exact h'.stops.trans (h.stops.append (.refl _))
  · rcases h'.entered x hx with hx | hx
    · exact h.entered x hx
    · exact .inr hx

lemma mono (h : Explores R c l w w') (hc : c ≤ c') (hw : Settled R c' w) :
    Explores R c' l w w' := by
  refine ⟨h.stops,fun x hx hrank => ?_,
    fun x hx => (h.entered x hx).imp_right (Nat.le_trans · hc),h.kept⟩
  rcases h.entered x hx with hx' | hle
  · exact fun y hy => h.mem_stops (hw x hx' hrank y hy)
  · exact h.settled x hx hle

lemma leave (h : Explores R c l w w') (s : Spot) :
    Explores R c (l ++ [s.position]) w (w'.leave s) := by
  refine ⟨?_,fun x hx hrank y hy => ?_,h.entered,h.kept⟩
  · rw [stops_leave,← List.append_assoc]
    exact h.stops.append (.refl _)
  · rw [stops_leave]
    exact List.mem_append_left _ (h.settled x hx hrank y hy)

end Explores

lemma Settled.mono (h : Settled R c w) (hc : c' ≤ c) : Settled R c' w :=
  fun x hx hrank => h x hx (Nat.le_trans hrank hc)

variable {body : Spot → List Spot}

/-- A step over the outcomes of a round explores what may follow each of them. -/
lemma explores_foldl {f : Sweep → Spot → Sweep} {e : Nat → List Nat} {l : List Spot}
    {P : Sweep → Prop} (hP : ∀ {m w w'}, P w → Explores R c m w w' → P w')
    (hf : ∀ s ∈ l, ∀ w, P w → Settled R c w → Explores R c (e s.position) w (f w s))
    (hw : P w) (hs : Settled R c w) :
    Explores R c ((l.map Spot.position).flatMap e) w (l.foldl f w) := by
  induction l generalizing w with
  | nil => exact .refl hs
  | cons s l ih =>
    have hfirst := hf s List.mem_cons_self w hw hs
    exact hfirst.trans (ih (fun s' hs' => hf s' (List.mem_cons_of_mem s hs')) (hP hw hfirst)
      hfirst.settled)

/-- A head is settled once its rounds are through. -/
lemma Explores.of_enter {h : Nat × Nat} (he : Explores R c l (w.enter h) w')
    (hrank : R.rank h = c + 1) (hl : ∀ x ∈ R.more (R.rank h) h.2, x ∈ w'.stops)
    (hw : Settled R (c + 1) w) : Explores R (c + 1) l w w' := by
  refine ⟨he.stops,fun x hx hle => ?_,fun x hx => ?_,
    fun x hx => he.kept x (List.mem_cons_of_mem h hx)⟩
  · rcases he.entered x hx with hx' | hle'
    · rcases List.mem_cons.mp hx' with rfl | hx'
      · exact hl
      · exact fun y hy => he.mem_stops (hw x hx' hle y hy)
    · exact he.settled x hx hle'
  · rcases he.entered x hx with hx' | hle'
    · rcases List.mem_cons.mp hx' with rfl | hx'
      · exact .inr (Nat.le_of_eq hrank)
      · exact .inl hx'
    · exact .inr (Nat.le_succ_of_le hle')

lemma Settled.enter {h : Nat × Nat} (hw : Settled R c w) (hrank : c < R.rank h) :
    Settled R c (w.enter h) := by
  intro x hx hle
  rcases List.mem_cons.mp hx with rfl | hx
  · omega
  · exact hw x hx hle

/-- A further round at `s`, from each of its outcomes up to `n` more. -/
def rounds (R : Rounds) (body : Spot → List Spot) (n : Nat) (s : Spot) (w : Sweep) : Sweep :=
  (body s).foldl (fun w next => if R.unbounded && next.position == s.position then w
    else run body R.greedy R.unbounded n next w) w

lemma run_entered {n : Nat} {s : Spot} (h : R.head (n + 1) s.position ∈ w.entered) :
    run body R.greedy R.unbounded (n + 1) s w = w := by
  simp only [run,List.contains_eq_mem]
  exact if_pos (decide_eq_true h)

lemma run_fresh {n : Nat} {s : Spot} (h : R.head (n + 1) s.position ∉ w.entered) :
    run body R.greedy R.unbounded (n + 1) s w =
      if R.greedy then (rounds R body n s (w.enter (R.head (n + 1) s.position))).leave s
      else rounds R body n s ((w.enter (R.head (n + 1) s.position)).leave s) := by
  simp only [run,List.contains_eq_mem]
  exact if_neg (by rwa [decide_eq_true_eq])

/-- Later rounds have a lower rank. -/
lemma allows_outcome {n i j : Nat} (hi : R.Allows (n + 1) i)
    (hc : R.rank (R.head (n + 1) i) = c + 1) (hj : j ∈ R.ends i)
    (hskip : (R.unbounded && j == i) = false) :
    R.Allows n j ∧ R.rank (R.head n j) ≤ c := by
  obtain ⟨hij,hjs⟩ := R.bounds i hi.1 j hj
  by_cases hu : R.unbounded = true
  · have hne : j ≠ i := by simpa [hu] using hskip
    have hroom := hi.2 hu
    simp only [Rounds.rank,Rounds.head,hu,if_true] at hc ⊢
    exact ⟨⟨hjs,fun _ => by omega⟩,by omega⟩
  · simp only [Rounds.rank,Rounds.head,hu] at hc ⊢
    have hnc : n = c := by simpa using hc
    exact ⟨⟨hjs,fun h => absurd h hu⟩,by simpa using Nat.le_of_eq hnc⟩

lemma exists_rank {n i : Nat} (hi : R.Allows (n + 1) i) :
    ∃ c, R.rank (R.head (n + 1) i) = c + 1 := by
  by_cases hu : R.unbounded = true
  · have hle := hi.1
    exact ⟨R.size - i,by simp only [Rounds.rank,Rounds.head,hu,if_true]; omega⟩
  · exact ⟨n,by simp [Rounds.rank,Rounds.head,hu]⟩

/-- A sweep from a spot explores the rounds that may follow. -/
theorem run_explores (hb : Follows R.size body R.ends) (n : Nat) {s : Spot} {w : Sweep}
    (hs : R.Allows n s.position) (hw : Settled R (R.rank (R.head n s.position)) w) :
    Explores R (R.rank (R.head n s.position)) (R.more n s.position) w
      (run body R.greedy R.unbounded n s w) := by
  induction n generalizing s w with
  | zero => exact (Explores.refl hw).leave s
  | succ n ih =>
    have hmore := R.more_rank hs
    by_cases hin : R.head (n + 1) s.position ∈ w.entered
    · rw [run_entered hin,← hmore]
      exact .skip hw (hw _ hin (Nat.le_refl _))
    · obtain ⟨c,hc⟩ := exists_rank hs
      rw [hc] at hw ⊢
      have hrounds : ∀ v, Settled R c v → Explores R c (R.again n s.position (R.ends s.position)) v
          (rounds R body n s v) := by
        intro v hv
        have hends := hb s hs.1
        refine (explores_foldl (P := fun _ => True) (fun _ _ => trivial) (fun next hnext w _ hw => ?_)
          trivial hv).of_sameFirsts (hends.flatMap (fun j _ => .refl _))
        cases hskip : R.unbounded && next.position == s.position with
        | true => exact .refl hw
        | false =>
          have hmem := hends.mem_iff.mp (List.mem_map_of_mem hnext)
          obtain ⟨hallows,hrank⟩ := allows_outcome hs hc hmem hskip
          exact (ih hallows (hw.mono hrank)).mono hrank hw
      have henter : Settled R c (w.enter (R.head (n + 1) s.position)) :=
        (hw.mono (Nat.le_succ c)).enter (by omega)
      have hexplores : Explores R c (R.more (n + 1) s.position)
          (w.enter (R.head (n + 1) s.position)) (run body R.greedy R.unbounded (n + 1) s w) := by
        rw [run_fresh hin,R.more_succ]
        by_cases hg : R.greedy = true
        · rw [if_pos hg,if_pos hg]
          exact (hrounds _ henter).leave s
        · rw [if_neg hg,if_neg hg]
          have hleave := (Explores.refl henter).leave s
          exact hleave.trans (hrounds _ hleave.settled)
      refine hexplores.of_enter hc (fun x hx => hexplores.mem_stops_of_mem ?_) hw
      rwa [← hmore]

end Sweep
end Highlight.Regex
