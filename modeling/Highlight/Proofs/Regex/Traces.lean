import Highlight.Proofs.Regex.Renumber
import Highlight.Proofs.Regex.Routes
import Mathlib.Data.List.Forall2

/-!
A renumbered pattern leads where the pattern does, inside a group of its own or among others: its spots
have those of the pattern as traces.
-/
namespace Highlight.Regex

open List

/-- A spot of which a spot of its own is the trace: the first `o` groups are open as they were before,
and those after them stand for the groups of the trace. -/
structure Spot.Traces (o : Nat) (before : List (Nat × Nat)) (s s' : Spot) : Prop where
  position : s'.position = s.position
  opened : ∀ n, s'.opened.lookup (shiftGroup o n) = s.opened.lookup n
  closed : ∀ n, s'.closed.lookup (shiftGroup o n) = s.closed.lookup n
  earlier : ∀ m, 0 < m → m ≤ o → s'.opened.lookup m = before.lookup m

namespace Spot.Traces

variable {o n : Nat} {before : List (Nat × Nat)} {s s' : Spot}

/-- A pattern starts where no group has been opened. -/
lemma start (o i : Nat) : Traces o [] { position := i } { position := i } :=
  ⟨rfl,fun _ => rfl,fun _ => rfl,fun _ _ _ => rfl⟩

/-- Or it starts in a group of its own. -/
lemma startInGroup (ho : 0 < o) (i : Nat) :
    Traces o [(o,i)] { position := i } (({ position := i } : Spot).openGroup o) := by
  refine ⟨rfl,fun n => ?_,fun n => rfl,fun m _ _ => rfl⟩
  have hne : shiftGroup o n ≠ o := by
    unfold shiftGroup
    split <;> omega
  simp [openGroup,hne]

lemma advance (h : Traces o before s s') : Traces o before s.advance s'.advance :=
  ⟨congrArg (· + 1) h.position,h.opened,h.closed,h.earlier⟩

lemma moveTo (h : Traces o before s s') (i : Nat) : Traces o before (s.moveTo i) (s'.moveTo i) :=
  ⟨rfl,h.opened,h.closed,h.earlier⟩

lemma openGroup (h : Traces o before s s') :
    Traces o before (s.openGroup n) (s'.openGroup (shiftGroup o n)) := by
  refine ⟨h.position,fun m => ?_,h.closed,fun m hpos hle => ?_⟩
  · by_cases hm : m = n
    · simp [Spot.openGroup,hm,h.position]
    · have hne : shiftGroup o m ≠ shiftGroup o n := fun he => hm (shiftGroup_inj.mp he)
      have hm' : (m == n) = false := by simpa using hm
      have hne' : (shiftGroup o m == shiftGroup o n) = false := by simpa using hne
      simp only [Spot.openGroup,List.lookup_cons,hm',hne',h.opened]
  · have hne : m ≠ shiftGroup o n := by
      unfold shiftGroup
      split <;> omega
    have hne' : (m == shiftGroup o n) = false := by simpa using hne
    simp only [Spot.openGroup,List.lookup_cons,hne',h.earlier m hpos hle]

lemma closeGroup (h : Traces o before s s') :
    Traces o before (s.closeGroup n) (s'.closeGroup (shiftGroup o n)) := by
  refine ⟨h.position,h.opened,fun m => ?_,h.earlier⟩
  by_cases hm : m = n
  · simp [Spot.closeGroup,hm,h.position]
  · have hne : shiftGroup o m ≠ shiftGroup o n := fun he => hm (shiftGroup_inj.mp he)
    have hm' : (m == n) = false := by simpa using hm
    have hne' : (shiftGroup o m == shiftGroup o n) = false := by simpa using hne
    simp only [Spot.closeGroup,List.lookup_cons,hm',hne',h.closed]

lemma repeatEnd? (h : Traces o before s s') (t : Haystack) :
    t.repeatEnd? s' (shiftGroup o n) = t.repeatEnd? s n := by
  simp only [Haystack.repeatEnd?,capture?,h.opened,h.closed,h.position]

end Spot.Traces

open Spot

section Steps

variable {T : Spot → Spot → Prop} (hT : ∀ {s s'}, T s s' → s'.position = s.position)

/-- Steps that lead from related spots to related ones. -/
def StepRelates (T : Spot → Spot → Prop) (g g' : Spot → List Spot) : Prop :=
  ∀ s s', T s s' → Forall₂ T (g s) (g' s')

variable {g g' h h' : Spot → List Spot}

lemma StepRelates.flatMap {l l' : List Spot} (hg : StepRelates T g g') (hl : Forall₂ T l l') :
    Forall₂ T (l.flatMap g) (l'.flatMap g') := rel_flatMap hl (fun _ _ hs => hg _ _ hs)

lemma roundRoutes_relates (hg : StepRelates T g g') (n : Nat) :
    StepRelates T (roundRoutes g n) (roundRoutes g' n) := by
  induction n with
  | zero => exact fun s s' hs => .cons hs .nil
  | succ n ih => exact fun s s' hs => ih.flatMap (hg s s' hs)

include hT in
lemma moreRoutes_relates (hg : StepRelates T g g') (greedy unbounded : Bool) (n : Nat) :
    StepRelates T (moreRoutes Spot.position g greedy unbounded n)
      (moreRoutes Spot.position g' greedy unbounded n) := by
  induction n with
  | zero => exact fun s s' hs => .cons hs .nil
  | succ n ih =>
    intro s s' hs
    have hagain : Forall₂ T
        ((g s).flatMap (fun next => if unbounded && next.position == s.position then []
          else moreRoutes Spot.position g greedy unbounded n next))
        ((g' s').flatMap (fun next => if unbounded && next.position == s'.position then []
          else moreRoutes Spot.position g' greedy unbounded n next)) := by
      refine rel_flatMap (hg s s' hs) (fun a a' ha => ?_)
      rw [hT hs,hT ha]
      split
      · exact .nil
      · exact ih a a' ha
    cases greedy with
    | true => exact rel_append hagain (.cons hs .nil)
    | false => exact .cons hs hagain

include hT in
lemma distinctSpots_relates {l l' : List Spot} (hl : Forall₂ T l l') :
    Forall₂ T (distinctSpots l) (distinctSpots l') := by
  induction hl with
  | nil => exact .nil
  | cons hs _ ih =>
    refine .cons hs (rel_filter (fun a a' ha => ?_) ih)
    simp only [hT hs,hT ha]

include hT in
lemma thenWays_relates {l l' : List Spot} (hl : Forall₂ T l l') (hg : StepRelates T g g') :
    Forall₂ T (thenWays l g) (thenWays l' g') := by
  cases hl with
  | nil => exact .nil
  | cons hs hl =>
    cases hl with
    | nil => exact hg _ _ hs
    | cons hs' hl => exact distinctSpots_relates hT (hg.flatMap (.cons hs (.cons hs' hl)))

include hT in
lemma roundWays_relates (hg : StepRelates T g g') (n : Nat) :
    StepRelates T (roundWays g n) (roundWays g' n) := by
  induction n with
  | zero => exact fun s s' hs => .cons hs .nil
  | succ n ih => exact fun s s' hs => thenWays_relates hT (ih s s' hs) hg

namespace Sweep

/-- Two sweeps that entered the same rounds and found related spots. -/
structure Relates (T : Spot → Spot → Prop) (w w' : Sweep) : Prop where
  entered : w'.entered = w.entered
  found : Forall₂ T w.found w'.found

variable {w w' : Sweep}

lemma Relates.leave {s s' : Spot} (hw : Relates T w w') (hs : T s s') :
    Relates T (w.leave s) (w'.leave s') := ⟨hw.entered,.cons hs hw.found⟩

lemma Relates.enter (hw : Relates T w w') (head : Nat × Nat) :
    Relates T (w.enter head) (w'.enter head) := ⟨congrArg (head :: ·) hw.entered,hw.found⟩

include hT in
lemma run_relates (hg : StepRelates T g g') (greedy unbounded : Bool) (n : Nat) {s s' : Spot}
    (hs : T s s') (hw : Relates T w w') :
    Relates T (run g greedy unbounded n s w) (run g' greedy unbounded n s' w') := by
  induction n generalizing s s' w w' with
  | zero => exact hw.leave hs
  | succ n ih =>
    have hrounds : ∀ {v v' : Sweep}, Relates T v v' → Relates T
        ((g s).foldl (fun w next => if unbounded && next.position == s.position then w
          else run g greedy unbounded n next w) v)
        ((g' s').foldl (fun w next => if unbounded && next.position == s.position then w
          else run g' greedy unbounded n next w) v') := by
      intro v v' hv
      refine rel_foldl (fun w w' hw a a' ha => ?_) hv (hg s s' hs)
      rw [hT ha]
      split
      · exact hw
      · exact ih ha hw
    simp only [run,hT hs,hw.entered]
    generalize (if unbounded then 0 else n + 1,s.position) = head
    by_cases hin : w.entered.contains head = true
    · rwa [if_pos hin,if_pos hin]
    · rw [if_neg hin,if_neg hin]
      cases greedy with
      | true => exact (hrounds (hw.enter head)).leave hs
      | false => exact hrounds ((hw.enter head).leave hs)

include hT in
lemma first_relates (hg : StepRelates T g g') (greedy : Bool) (room : Nat) {s s' : Spot}
    (hs : T s s') (hw : Relates T w w') :
    Relates T (w.first g greedy room s) (w'.first g' greedy room s') := by
  simp only [first]
  refine rel_foldl (fun v v' hv a a' ha => ?_) hw (hg s s' hs)
  rw [hT hs,hT ha,hv.entered]
  split
  · split
    · exact hv
    · exact (hv.enter (0,s.position)).leave ha
  · exact run_relates hT hg greedy true room ha hv

include hT in
lemma Relates.results (hw : Relates T w w') :
    Forall₂ T w.results w'.results :=
  distinctSpots_relates hT (forall₂_reverse_iff.mpr hw.found)

lemma Relates.none : Relates T {} {} := ⟨rfl,.nil⟩

end Sweep

include hT in
lemma loopWays_relates (hg : StepRelates T g g') (least : Nat) (most : Option Nat) (greedy : Bool)
    (room : Nat) : StepRelates T (loopWays g least most greedy room)
      (loopWays g' least most greedy room) := by
  intro s s' hs
  cases most with
  | some most =>
    refine thenWays_relates hT (roundWays_relates hT hg least s s' hs) (fun a a' ha => ?_)
    exact (Sweep.run_relates hT hg greedy false _ ha .none).results hT
  | none =>
    have hw : Sweep.Relates T
        ((roundWays g (least - 1) s).foldl (fun w s => w.first g greedy room s) {})
        ((roundWays g' (least - 1) s').foldl (fun w s => w.first g' greedy room s) {}) := by
      refine rel_foldl (R := T) ?_ Sweep.Relates.none (roundWays_relates hT hg (least - 1) s s' hs)
      exact fun w w' hw a a' ha => Sweep.first_relates hT hg greedy room ha hw
    simp only [loopWays]
    split
    · exact hw.results hT
    · split
      · exact distinctSpots_relates hT (rel_append (hw.results hT) (.cons hs .nil))
      · exact distinctSpots_relates hT (.cons hs (hw.results hT))

lemma look_relates {l l' : List Spot} {s s' : Spot} {i : Nat}
    (hmove : ∀ a a', T a a' → T (a.moveTo i) (a'.moveTo i)) (hl : Forall₂ T l l') (hs : T s s')
    (negated : Bool) : Forall₂ T
      (if negated then (if l.isEmpty then [s] else []) else l.map (·.moveTo i))
      (if negated then (if l'.isEmpty then [s'] else []) else l'.map (·.moveTo i)) := by
  cases negated with
  | true =>
    cases hl with
    | nil => exact .cons hs .nil
    | cons _ _ => exact .nil
  | false => exact rel_map hmove hl

end Steps

variable {o : Nat} {before : List (Nat × Nat)}

/-- The plain matcher goes the same ways in a renumbered pattern. -/
theorem ways_renumber (t : Haystack) (p : Pattern) :
    StepRelates (Traces o before) (p.ways t) ((p.renumber o).ways t) := by
  induction p with
  | empty => exact fun s s' hs => .cons hs .nil
  | set cs =>
    intro s s' hs
    simp only [Pattern.renumber,Pattern.ways,hs.position]
    split
    · split
      · exact .cons hs.advance .nil
      · exact .nil
    · exact .nil
  | assert a =>
    intro s s' hs
    simp only [Pattern.renumber,Pattern.ways,hs.position]
    split
    · exact .cons hs .nil
    · exact .nil
  | cat p q hp hq => exact fun s s' hs => thenWays_relates Traces.position (hp s s' hs) hq
  | alt p q hp hq =>
    intro s s' hs
    have hl := hp s s' hs
    simp only [Pattern.renumber,Pattern.ways]
    generalize p.ways t s = l, (p.renumber o).ways t s' = l' at hl
    cases hl with
    | nil => exact hq s s' hs
    | cons ha hl => exact distinctSpots_relates Traces.position (rel_append (.cons ha hl) (hq s s' hs))
  | group n p hp =>
    intro s s' hs
    exact rel_map (fun _ _ ha => ha.closeGroup) (hp _ _ hs.openGroup)
  | loop p least most greedy hp =>
    intro s s' hs
    simp only [Pattern.renumber,Pattern.ways,hs.position]
    exact loopWays_relates Traces.position hp least most greedy _ s s' hs
  | look d negated settled p hp =>
    intro s s' hs
    simp only [Pattern.renumber,Pattern.ways,hs.position]
    refine look_relates (fun _ _ ha => ha.moveTo _) ?_ hs negated
    split
    · exact .nil
    · exact forall₂_take 1 (hp _ _ (hs.moveTo _))
  | backref n =>
    intro s s' hs
    simp only [Pattern.renumber,Pattern.ways,hs.repeatEnd?]
    split
    · exact .cons (hs.moveTo _) .nil
    · exact .nil
  | atomic settled p hp => exact fun s s' hs => forall₂_take 1 (hp s s' hs)

/-- So does backtracking. -/
theorem routes_renumber (t : Haystack) (p : Pattern) :
    StepRelates (Traces o before) (p.routes t) ((p.renumber o).routes t) := by
  induction p with
  | empty => exact fun s s' hs => .cons hs .nil
  | set cs =>
    intro s s' hs
    simp only [Pattern.renumber,Pattern.routes,hs.position]
    split
    · split
      · exact .cons hs.advance .nil
      · exact .nil
    · exact .nil
  | assert a =>
    intro s s' hs
    simp only [Pattern.renumber,Pattern.routes,hs.position]
    split
    · exact .cons hs .nil
    · exact .nil
  | cat p q hp hq => exact fun s s' hs => hq.flatMap (hp s s' hs)
  | alt p q hp hq => exact fun s s' hs => rel_append (hp s s' hs) (hq s s' hs)
  | group n p hp => exact fun s s' hs => rel_map (fun _ _ ha => ha.closeGroup) (hp _ _ hs.openGroup)
  | loop p least most greedy hp =>
    intro s s' hs
    simp only [Pattern.renumber,Pattern.routes]
    cases most with
    | some most =>
      exact (moreRoutes_relates Traces.position hp greedy false _).flatMap (roundRoutes_relates hp _ s s' hs)
    | none =>
      refine rel_flatMap (roundRoutes_relates hp _ s s' hs) (fun a a' ha => ?_)
      rw [ha.position]
      exact moreRoutes_relates Traces.position hp greedy true _ a a' ha
  | look d negated settled p hp =>
    intro s s' hs
    simp only [Pattern.renumber,Pattern.routes,hs.position]
    refine look_relates (fun _ _ ha => ha.moveTo _) ?_ hs negated
    split
    · exact .nil
    · split
      · exact forall₂_take 1 (ways_renumber t p _ _ (hs.moveTo _))
      · exact hp _ _ (hs.moveTo _)
  | backref n =>
    intro s s' hs
    simp only [Pattern.renumber,Pattern.routes,hs.repeatEnd?]
    split
    · exact .cons (hs.moveTo _) .nil
    · exact .nil
  | atomic settled p hp =>
    intro s s' hs
    cases settled with
    | true => exact forall₂_take 1 (ways_renumber t p s s' hs)
    | false => exact forall₂_take 1 (hp s s' hs)

end Highlight.Regex
