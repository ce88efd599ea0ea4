import Highlight.Proofs.Regex.Bounds

/-!
Where a pattern may end that is plain, or that asks for word boundaries at most. That depends on where it
starts and on nothing else, so its routes come down to lists of positions.
-/
namespace Highlight.Regex

/-- Whether the routes of a pattern come down to positions: it has no look-around, back-reference or
atomic group. -/
def Pattern.isPositional : Pattern → Bool
  | empty | set _ | assert _ => true
  | cat p q | alt p q => p.isPositional && q.isPositional
  | group _ p | loop p .. => p.isPositional
  | look .. | backref _ | atomic .. => false

lemma Pattern.isPositional_of_isPlain {referenced : List Nat} {p : Pattern}
    (h : p.isPlain referenced = true) : p.isPositional = true := by
  induction p with
  | cat p q hp hq | alt p q hp hq =>
    obtain ⟨h1,h2⟩ := Bool.and_eq_true_iff.mp h
    simp only [isPositional,hp h1,hq h2,Bool.and_self]
  | group n p hp => exact hp (Bool.and_eq_true_iff.mp h).2
  | loop p _ _ _ hp => exact hp h
  | look _ _ _ _ | backref _ | atomic _ _ => cases h
  | _ => rfl

/-- The positions where a pattern ends that starts at a position, the preferred one first. -/
def Pattern.ends (t : Haystack) : Pattern → Nat → List Nat
  | empty, i => [i]
  | set cs, i =>
    match t.charAt? i with
    | some c => if cs.contains c then [i + 1] else []
    | none => []
  | assert a, i => if a.holds t i then [i] else []
  | cat p q, i => (p.ends t i).flatMap (q.ends t)
  | alt p q, i => p.ends t i ++ q.ends t i
  | group _ p, i => p.ends t i
  | loop p least most greedy, i =>
    match most with
    | some most => (roundRoutes (p.ends t) (min least most) i).flatMap
        (moreRoutes id (p.ends t) greedy false (most - least))
    | none => (roundRoutes (p.ends t) least i).flatMap
        (fun j => moreRoutes id (p.ends t) greedy true (t.size + 1 - j) j)
  | _, _ => []

/-- A step of spots that comes down to a step of positions. -/
def Projects (g : Spot → List Spot) (e : Nat → List Nat) : Prop :=
  ∀ s, (g s).map Spot.position = e s.position

namespace Projects

variable {g h : Spot → List Spot} {e e' : Nat → List Nat}

lemma flatMap (hh : Projects h e) (l : List Spot) :
    (l.flatMap h).map Spot.position = (l.map Spot.position).flatMap e := by
  induction l with
  | nil => rfl
  | cons s l ih => rw [List.flatMap_cons,List.map_append,hh s,ih,List.map_cons,List.flatMap_cons]

lemma comp (hg : Projects g e) (hh : Projects h e') :
    Projects (fun s => (g s).flatMap h) (fun i => (e i).flatMap e') := by
  intro s
  rw [hh.flatMap,hg s]

lemma roundRoutes (hg : Projects g e) (n : Nat) :
    Projects (Regex.roundRoutes g n) (Regex.roundRoutes e n) := by
  induction n with
  | zero => exact fun s => rfl
  | succ n ih => exact hg.comp ih

lemma moreRoutes (hg : Projects g e) (greedy unbounded : Bool) (n : Nat) :
    Projects (Regex.moreRoutes Spot.position g greedy unbounded n)
      (Regex.moreRoutes id e greedy unbounded n) := by
  induction n with
  | zero => exact fun s => rfl
  | succ n ih =>
    intro s
    have hnext : Projects (fun next => if unbounded && next.position == s.position then []
        else Regex.moreRoutes Spot.position g greedy unbounded n next)
        (fun j => if unbounded && j == s.position then []
          else Regex.moreRoutes id e greedy unbounded n j) := by
      intro next
      dsimp only
      split
      · rfl
      · exact ih next
    have hagain := hnext.flatMap (g s)
    rw [hg s] at hagain
    cases greedy with
    | true => simpa [Regex.moreRoutes] using hagain
    | false => simpa [Regex.moreRoutes] using hagain

end Projects

/-- The routes of a pattern end where the pattern may end. -/
theorem routes_positions (t : Haystack) {p : Pattern} (h : p.isPositional = true) :
    Projects (p.routes t) (p.ends t) := by
  induction p with
  | empty => exact fun s => rfl
  | set cs =>
    intro s
    simp only [Pattern.routes,Pattern.ends]
    cases t.charAt? s.position with
    | none => rfl
    | some c =>
      dsimp only
      split
      · rfl
      · rfl
  | assert a =>
    intro s
    simp only [Pattern.routes,Pattern.ends]
    split
    · rfl
    · rfl
  | cat p q hp hq =>
    obtain ⟨h1,h2⟩ := Bool.and_eq_true_iff.mp h
    exact (hp h1).comp (hq h2)
  | alt p q hp hq =>
    obtain ⟨h1,h2⟩ := Bool.and_eq_true_iff.mp h
    intro s
    simp only [Pattern.routes,Pattern.ends,List.map_append,hp h1 s,hq h2 s]
  | group n p hp =>
    intro s
    simp only [Pattern.routes,Pattern.ends,List.map_map]
    exact hp h (s.openGroup n)
  | loop p least most greedy hp =>
    have hp := hp h
    cases most with
    | some most => exact (hp.roundRoutes _).comp (hp.moreRoutes greedy false _)
    | none =>
      exact (hp.roundRoutes _).comp (fun s => hp.moreRoutes greedy true (t.size + 1 - s.position) s)
  | look _ _ _ _ => cases h
  | backref _ => cases h
  | atomic _ _ => cases h

/-- Patterns one after the other end where the last of them may. -/
lemma Pattern.ends_cats_cons (t : Haystack) (p : Pattern) (ps : List Pattern) (i : Nat) :
    (cats (p :: ps)).ends t i = (p.ends t i).flatMap ((cats ps).ends t) := by
  cases ps with
  | nil => exact (List.flatMap_singleton' _).symm
  | cons q ps => rfl

lemma Pattern.ends_cats_append (t : Haystack) (ps qs : List Pattern) (i : Nat) :
    (cats (ps ++ qs)).ends t i = ((cats ps).ends t i).flatMap ((cats qs).ends t) := by
  induction ps generalizing i with
  | nil => exact (List.flatMap_singleton _ _).symm
  | cons p ps ih =>
    rw [List.cons_append,ends_cats_cons,ends_cats_cons,List.flatMap_assoc]
    exact congrArg (List.flatMap · (p.ends t i)) (funext ih)

lemma Pattern.ends_alts (t : Haystack) {ps : List Pattern} (hne : ps ≠ []) (i : Nat) :
    (alts ps).ends t i = ps.flatMap (·.ends t i) := by
  induction ps with
  | nil => exact absurd rfl hne
  | cons p ps ih =>
    cases ps with
    | nil => exact (List.flatMap_singleton (·.ends t i) p).symm
    | cons q ps => rw [List.flatMap_cons,← ih (List.cons_ne_nil q ps)]; rfl

lemma routes_project (t : Haystack) {referenced : List Nat} {p : Pattern}
    (h : p.isPlain referenced = true) : Projects (p.routes t) (p.ends t) :=
  routes_positions t (Pattern.isPositional_of_isPlain h)

/-- A pattern goes forward and stays in the text. -/
lemma ends_within (t : Haystack) {p : Pattern} (h : p.isPositional = true) {i j : Nat} (hi : i ≤ t.size)
    (hj : j ∈ p.ends t i) : i ≤ j ∧ j ≤ t.size := by
  rw [← routes_positions t h { position := i }] at hj
  obtain ⟨s,hs,rfl⟩ := List.mem_map.mp hj
  obtain ⟨hle,hsize⟩ := routes_before t p _ s hs
  exact ⟨hle,hsize hi⟩

lemma ends_bounds (t : Haystack) {referenced : List Nat} {p : Pattern}
    (h : p.isPlain referenced = true) {i j : Nat} (hi : i ≤ t.size) (hj : j ∈ p.ends t i) :
    i ≤ j ∧ j ≤ t.size :=
  ends_within t (Pattern.isPositional_of_isPlain h) hi hj

end Highlight.Regex
