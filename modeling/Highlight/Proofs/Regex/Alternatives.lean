import Highlight.Proofs.Regex.Agreement
import Highlight.Proofs.Regex.Search
import Highlight.Proofs.Regex.Traces

/-!
Alternatives that each stand in a capture group of their own. The first one that matches decides, and
no group before its own takes part in the match.
-/
namespace Highlight.Regex

namespace Pattern

variable {referenced : List Nat}

lemma isPlain_alts (ps : List Pattern) :
    (alts ps).isPlain referenced = ps.all (isPlain referenced) := by
  induction ps with
  | nil => rfl
  | cons p ps ih =>
    cases ps with
    | nil => exact (Bool.and_true _).symm
    | cons q ps => exact congrArg (p.isPlain referenced && ·) ih

lemma settle_alts (ps : List Pattern) :
    (alts ps).settle referenced = alts (ps.map (settle referenced)) := by
  induction ps with
  | nil => rfl
  | cons p ps ih =>
    cases ps with
    | nil => rfl
    | cons q ps => exact congrArg (alt (p.settle referenced)) ih

lemma boundsOrdered_alts (ps : List Pattern) :
    (alts ps).boundsOrdered = ps.all boundsOrdered := by
  induction ps with
  | nil => rfl
  | cons p ps ih =>
    cases ps with
    | nil => exact (Bool.and_true _).symm
    | cons q ps => exact congrArg (p.boundsOrdered && ·) ih

lemma settledBoundsOrdered_alts (ps : List Pattern) :
    (alts ps).settledBoundsOrdered = ps.all settledBoundsOrdered := by
  induction ps with
  | nil => rfl
  | cons p ps ih =>
    cases ps with
    | nil => exact (Bool.and_true _).symm
    | cons q ps => exact congrArg (p.settledBoundsOrdered && ·) ih

/-- What the plain matcher may run stays so when it is settled. -/
lemma isPlain_settle {p : Pattern} (h : p.isPlain referenced = true) :
    (p.settle referenced).isPlain referenced = true := by
  induction p with
  | cat p q hp hq | alt p q hp hq =>
    obtain ⟨h1,h2⟩ := Bool.and_eq_true_iff.mp h
    simp only [settle,isPlain,hp h1,hq h2,Bool.and_self]
  | group n p hp =>
    obtain ⟨h1,h2⟩ := Bool.and_eq_true_iff.mp h
    simp only [settle,isPlain,h1,hp h2,Bool.and_self]
  | loop p least most greedy hp => exact hp h
  | look d negated s p hp => cases h
  | atomic s p hp => cases h
  | _ => exact h

/-- The spots that a pattern leads to, by the matcher for plain patterns or by the other. -/
def leads (plain : Bool) (t : Haystack) (p : Pattern) : Spot → List Spot :=
  if plain then p.ways t else p.routes t

/-- The spot that a pattern prefers. -/
def lead? (plain : Bool) (t : Haystack) (p : Pattern) (s : Spot) : Option Spot :=
  (p.leads plain t s).head?

variable {plain : Bool} {t : Haystack} {p : Pattern} {s : Spot} {n o : Nat}
  {before : List (Nat × Nat)}

lemma leads_group : (group n p).leads plain t s =
    (p.leads plain t (s.openGroup n)).map (·.closeGroup n) := by
  cases plain with
  | true => rfl
  | false => rfl

lemma leads_renumber (plain : Bool) (t : Haystack) (p : Pattern) :
    StepRelates (Spot.Traces o before) (p.leads plain t) ((p.renumber o).leads plain t) := by
  cases plain with
  | true => exact ways_renumber t p
  | false => exact routes_renumber t p

lemma head?_distinctSpots (l : List Spot) : (distinctSpots l).head? = l.head? := by
  cases l with
  | nil => rfl
  | cons s l => rfl

lemma lead?_alt {q : Pattern} :
    (alt p q).lead? plain t s = (p.lead? plain t s).or (q.lead? plain t s) := by
  cases plain with
  | true =>
    simp only [lead?,leads,if_true,ways]
    cases p.ways t s with
    | nil => rfl
    | cons r l => exact head?_distinctSpots _
  | false =>
    simp only [lead?,leads,Bool.false_eq_true,if_false,routes]
    exact List.head?_append

/-- The first alternative that matches decides. -/
lemma lead?_alts {ps : List Pattern} (hne : ps ≠ []) :
    (alts ps).lead? plain t s = ps.findSome? (fun p => p.lead? plain t s) := by
  induction ps with
  | nil => exact absurd rfl hne
  | cons p ps ih =>
    rw [List.findSome?_cons]
    cases ps with
    | nil =>
      have hsingle : alts [p] = p := rfl
      rw [hsingle]
      cases p.lead? plain t s with
      | none => rfl
      | some r => rfl
    | cons q ps =>
      have hcons : alts (p :: q :: ps) = alt p (alts (q :: ps)) := rfl
      rw [hcons,lead?_alt,ih (List.cons_ne_nil q ps)]
      cases p.lead? plain t s with
      | none => rfl
      | some r => rfl

end Pattern

/-- A match of a pattern that stands in group `o`, by the match of the pattern alone: the group has a
span, and no group before it has one. -/
structure Spot.MatchOf (o : Nat) (alone s : Spot) : Prop where
  position : s.position = alone.position
  own : (s.capture? o).isSome
  earlier : ∀ m, 0 < m → m < o → s.capture? m = none

lemma Spot.Traces.matchOf {o i : Nat} {s s' : Spot} (ho : 0 < o) (h : Traces o [(o,i)] s s') :
    MatchOf o s (s'.closeGroup o) := by
  refine ⟨h.position,?_,fun m hpos hlt => ?_⟩
  · have hopened : s'.opened.lookup o = some i := by simpa using h.earlier o ho (Nat.le_refl o)
    simp [Spot.capture?,Spot.closeGroup,hopened]
  · have hne : (m == o) = false := by simpa using Nat.ne_of_lt hlt
    have hopened : (s'.closeGroup o).opened.lookup m = none :=
      (h.earlier m hpos (Nat.le_of_lt hlt)).trans (by rw [List.lookup_cons,hne]; rfl)
    simp [Spot.capture?,hopened]

/-- A pattern in a group of its own matches where it does alone. -/
lemma lead?_group {plain : Bool} {t : Haystack} {p : Pattern} {o : Nat} (ho : 0 < o) (i : Nat) :
    Option.Rel (Spot.MatchOf o) (p.lead? plain t { position := i })
      ((Pattern.group o (p.renumber o)).lead? plain t { position := i }) := by
  have htraces := Pattern.leads_renumber plain t p _ _ (Spot.Traces.startInGroup ho i)
  rw [Pattern.lead?,Pattern.lead?,Pattern.leads_group,List.head?_map]
  generalize p.leads plain t { position := i } = l at htraces ⊢
  generalize (p.renumber o).leads plain t _ = l' at htraces ⊢
  cases htraces with
  | nil => exact .none
  | cons hs _ => exact .some (hs.matchOf ho)

/-- Patterns as alternatives, each in a group of its own, after `o` groups. With each pattern comes its
number of groups. -/
def alternatives (o : Nat) : List (Nat × Pattern) → List Pattern
  | [] => []
  | (k,p) :: rest => .group (o + 1) (p.renumber (o + 1)) :: alternatives (o + 1 + k) rest

/-- The groups around the alternatives. -/
def groupsFrom (o : Nat) : List Nat → List Nat
  | [] => []
  | k :: rest => (o + 1) :: groupsFrom (o + 1 + k) rest

lemma alternatives_ne_nil {o : Nat} {xs : List (Nat × Pattern)} (h : xs ≠ []) :
    alternatives o xs ≠ [] := by
  cases xs with
  | nil => exact absurd rfl h
  | cons x xs => exact List.cons_ne_nil _ _

lemma lt_of_mem_groupsFrom {o g : Nat} {ks : List Nat} (h : g ∈ groupsFrom o ks) : o < g := by
  induction ks generalizing o with
  | nil => cases h
  | cons k ks ih =>
    rcases List.mem_cons.mp h with rfl | h
    · exact Nat.lt_succ_self o
    · have hlt := ih h
      omega

/-- The groups bear rising numbers. -/
lemma groupsFrom_sorted (o : Nat) (ks : List Nat) : (groupsFrom o ks).Pairwise (· < ·) := by
  induction ks generalizing o with
  | nil => exact .nil
  | cons k ks ih =>
    refine .cons (fun g hg => ?_) (ih _)
    have hlt := lt_of_mem_groupsFrom hg
    omega

lemma length_groupsFrom (o : Nat) (ks : List Nat) : (groupsFrom o ks).length = ks.length := by
  induction ks generalizing o with
  | nil => rfl
  | cons k ks ih => exact congrArg (· + 1) (ih _)

/-- The alternative number `j` is the first that matches, and where it ends. No group before its own
has a span. -/
structure Chosen (plain : Bool) (t : Haystack) (i o : Nat) (xs : List (Nat × Pattern)) (last : Spot)
    (j : Nat) : Prop where
  matched : ∃ x alone, xs[j]? = some x ∧ x.2.lead? plain t { position := i } = some alone ∧
    last.position = alone.position
  refused : ∀ j' < j, ∀ x, xs[j']? = some x → x.2.lead? plain t { position := i } = none
  own : ∃ g, (groupsFrom o (xs.map Prod.fst))[j]? = some g ∧ (last.capture? g).isSome ∧
    ∀ m, 0 < m → m < g → last.capture? m = none

variable {plain : Bool} {t : Haystack} {i o : Nat} {xs : List (Nat × Pattern)} {last : Spot}

lemma Chosen.later {k : Nat} {p : Pattern} {j : Nat} (h : Chosen plain t i (o + 1 + k) xs last j)
    (hp : p.lead? plain t { position := i } = none) : Chosen plain t i o ((k,p) :: xs) last (j + 1) := by
  refine ⟨h.matched,fun j' hj x hx => ?_,h.own⟩
  cases j' with
  | zero =>
    obtain rfl := Option.some.inj hx
    exact hp
  | succ j' => exact h.refused j' (Nat.lt_of_succ_lt_succ hj) x hx

/-- A match of alternatives belongs to the first that matches. -/
theorem exists_chosen (h : (alternatives o xs).findSome? (fun p => p.lead? plain t { position := i }) =
    some last) : ∃ j, Chosen plain t i o xs last j := by
  induction xs generalizing o with
  | nil => cases h
  | cons x xs ih =>
    obtain ⟨k,p⟩ := x
    have hgroup : Option.Rel (Spot.MatchOf (o + 1)) (p.lead? plain t { position := i }) _ :=
      lead?_group (Nat.succ_pos o) i
    rw [alternatives,List.findSome?_cons] at h
    cases halone : p.lead? plain t { position := i } with
    | none =>
      rw [halone] at hgroup
      cases hlead : (Pattern.group (o + 1) (p.renumber (o + 1))).lead? plain t { position := i } with
      | some s =>
        rw [hlead] at hgroup
        cases hgroup
      | none =>
        rw [hlead] at h
        obtain ⟨j,hj⟩ := ih h
        exact ⟨j + 1,hj.later halone⟩
    | some alone =>
      rw [halone] at hgroup
      cases hlead : (Pattern.group (o + 1) (p.renumber (o + 1))).lead? plain t { position := i } with
      | none =>
        rw [hlead] at hgroup
        cases hgroup
      | some s =>
        rw [hlead] at h hgroup
        obtain rfl := Option.some.inj h
        cases hgroup with
        | some hs => exact ⟨0,⟨(k,p),alone,rfl,halone,hs.position⟩,nofun,o + 1,rfl,hs.own,hs.earlier⟩

/-- If alternatives do not match, none of them does. -/
theorem refused_of_findSome? (h : (alternatives o xs).findSome?
    (fun p => p.lead? plain t { position := i }) = none) :
    ∀ x ∈ xs, x.2.lead? plain t { position := i } = none := by
  induction xs generalizing o with
  | nil => nofun
  | cons x xs ih =>
    obtain ⟨k,p⟩ := x
    rw [alternatives,List.findSome?_cons] at h
    have hgroup : Option.Rel (Spot.MatchOf (o + 1)) (p.lead? plain t { position := i }) _ :=
      lead?_group (Nat.succ_pos o) i
    cases hlead : (Pattern.group (o + 1) (p.renumber (o + 1))).lead? plain t { position := i } with
    | some s =>
      rw [hlead] at h
      cases h
    | none =>
      rw [hlead] at h hgroup
      intro x hx
      rcases List.mem_cons.mp hx with rfl | hx
      · cases halone : p.lead? plain t { position := i } with
        | none => rfl
        | some alone =>
          rw [halone] at hgroup
          cases hgroup
      · exact ih h x hx

lemma preferred_eq (r : Regex) (t : Haystack) (position : Nat) :
    r.preferred t position = r.pattern.lead? r.plain t { position } := by
  unfold preferred Pattern.lead? Pattern.leads
  split
  · rfl
  · rfl

end Highlight.Regex
