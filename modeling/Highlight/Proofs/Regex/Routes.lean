import Highlight.Regex.Basic
import Mathlib.Tactic.Lemma

/-!
The routes of a pattern: every spot that backtracking leads it to, in the order of the attempts. An
attempt offers the routes to what follows, one after the other, until one is accepted. Its budget
decides no more than whether it gets that far.
-/
namespace Highlight.Regex

/-- Exactly `n` rounds. -/
def roundRoutes {α : Type} (body : α → List α) : Nat → α → List α
  | 0, s => [s]
  | n + 1, s => (body s).flatMap (roundRoutes body n)

/-- Up to `n` further rounds, none of them empty in an unbounded loop. -/
def moreRoutes {α : Type} (position : α → Nat) (body : α → List α) (greedy unbounded : Bool) :
    Nat → α → List α
  | 0, s => [s]
  | n + 1, s =>
    let again := (body s).flatMap (fun next =>
      if unbounded && position next == position s then []
      else moreRoutes position body greedy unbounded n next)
    if greedy then again ++ [s] else s :: again

/-- The routes of a pattern from `s`, the preferred one first. -/
def Pattern.routes (t : Haystack) : Pattern → Spot → List Spot
  | empty, s => [s]
  | set cs, s =>
    match t.charAt? s.position with
    | some c => if cs.contains c then [s.advance] else []
    | none => []
  | assert a, s => if a.holds t s.position then [s] else []
  | cat p q, s => (p.routes t s).flatMap (q.routes t)
  | alt p q, s => p.routes t s ++ q.routes t s
  | group n p, s => (p.routes t (s.openGroup n)).map (·.closeGroup n)
  | loop p least most greedy, s =>
    match most with
    | some most => (roundRoutes (p.routes t) (min least most) s).flatMap
        (moreRoutes Spot.position (p.routes t) greedy false (most - least))
    | none => (roundRoutes (p.routes t) least s).flatMap
        (fun s => moreRoutes Spot.position (p.routes t) greedy true (t.size + 1 - s.position) s)
  | look direction negated settled p, s =>
    let start := s.moveTo (s.position - direction.width)
    let found :=
      if s.position < t.origin + direction.width then []
      else if settled then (p.ways t start).take 1 else p.routes t start
    if negated then (if found.isEmpty then [s] else []) else found.map (·.moveTo s.position)
  | backref n, s =>
    match t.repeatEnd? s n with
    | some finish => [s.moveTo finish]
    | none => []
  | atomic settled p, s => (if settled then p.ways t s else p.routes t s).take 1

/-- What follows fails at a spot, whatever budget is left by then. -/
def Rest.Refuses (rest : Rest) (s : Spot) : Prop := ∃ b left, rest s b = .failed left

namespace Attempt

/-- How an attempt ends that offers routes to what follows: at the first route that is accepted,
or in failure once all of them are refused. -/
def Explores (routes : List Spot) (rest : Rest) : Attempt → Prop
  | found r left => ∃ refused s later, routes = refused ++ s :: later ∧
      (∀ s' ∈ refused, Rest.Refuses rest s') ∧ ∃ b, rest s b = found r left
  | failed _ => ∀ s ∈ routes, Rest.Refuses rest s
  | spent => True

lemma explores_nil (rest : Rest) (b : Nat) : (failed b).Explores [] rest := by
  simp [Explores]

lemma explores_here (rest : Rest) (s : Spot) (b : Nat) : (rest s b).Explores [s] rest := by
  cases h : rest s b with
  | found r left => exact ⟨[],s,[],rfl,by simp,b,h⟩
  | failed left =>
    intro s' hs
    rw [List.mem_singleton.mp hs]
    exact ⟨b,left,h⟩
  | spent => trivial

/-- Choices are explored in turn. -/
lemma Explores.orElse {a : Attempt} {other : Nat → Attempt} {l m : List Spot} {rest : Rest}
    (ha : a.Explores l rest) (ho : ∀ b, (other b).Explores m rest) :
    (a.orElse other).Explores (l ++ m) rest := by
  cases a with
  | found r left =>
    obtain ⟨refused,s,later,rfl,hr,hs⟩ := ha
    exact ⟨refused,s,later ++ m,by simp,hr,hs⟩
  | spent => trivial
  | failed left =>
    cases left with
    | zero => trivial
    | succ left =>
      have hm := ho left
      rw [orElse_failed]
      cases h : other left with
      | found r left' =>
        rw [h] at hm
        obtain ⟨refused,s,later,rfl,hr,hs⟩ := hm
        refine ⟨l ++ refused,s,later,by simp,?_,hs⟩
        intro s' h'
        rcases List.mem_append.mp h' with h' | h'
        · exact ha s' h'
        · exact hr s' h'
      | failed left' =>
        rw [h] at hm
        intro s' h'
        rcases List.mem_append.mp h' with h' | h'
        · exact ha s' h'
        · exact hm s' h'
      | spent => trivial

/-- Where each route is followed by routes of its own, all of those are explored in turn. -/
lemma Explores.flatMap {a : Attempt} {l : List Spot} {next rest : Rest} {g : Spot → List Spot}
    (ha : a.Explores l next) (hg : ∀ s b, (next s b).Explores (g s) rest) :
    a.Explores (l.flatMap g) rest := by
  have hrefused : ∀ s, Rest.Refuses next s → ∀ s' ∈ g s, Rest.Refuses rest s' := by
    rintro s ⟨b,left,h⟩
    have hs := hg s b
    rwa [h] at hs
  cases a with
  | found r left =>
    obtain ⟨refused,s,later,rfl,hr,b,hs⟩ := ha
    have hn := hg s b
    rw [hs] at hn
    obtain ⟨before,s',after,he,hb,hs'⟩ := hn
    refine ⟨refused.flatMap g ++ before,s',after ++ later.flatMap g,by simp [he],?_,hs'⟩
    intro x hx
    rcases List.mem_append.mp hx with hx | hx
    · obtain ⟨y,hy,hxy⟩ := List.mem_flatMap.mp hx
      exact hrefused y (hr y hy) x hxy
    · exact hb x hx
  | failed left =>
    intro x hx
    obtain ⟨y,hy,hxy⟩ := List.mem_flatMap.mp hx
    exact hrefused y (ha y hy) x hxy
  | spent => trivial

lemma Explores.map {a : Attempt} {l : List Spot} {rest : Rest} {f : Spot → Spot}
    (ha : a.Explores l (fun s b => rest (f s) b)) : a.Explores (l.map f) rest := by
  rw [List.map_eq_flatMap]
  exact ha.flatMap (fun s b => explores_here rest (f s) b)

/-- An attempt with nothing left to match ends at the first route. -/
lemma Explores.head {r : Spot} {left : Nat} {l : List Spot}
    (h : (found r left).Explores l found) : l.head? = some r := by
  obtain ⟨refused,s,later,rfl,hr,b,hs⟩ := h
  cases refused with
  | nil =>
    cases hs
    rfl
  | cons s' refused =>
    obtain ⟨b',left',h'⟩ := hr s' List.mem_cons_self
    cases h'

lemma Explores.eq_nil {left : Nat} {l : List Spot} (h : (failed left).Explores l found) :
    l = [] := by
  cases l with
  | nil => rfl
  | cons s l =>
    obtain ⟨b,left',h'⟩ := h s List.mem_cons_self
    cases h'

/-- What is ruled out has no route, or else a first one. -/
lemma Explores.negate {a : Attempt} {other : Nat → Attempt} {l m : List Spot} {rest : Rest}
    (ha : a.Explores l found) (ho : ∀ b, (other b).Explores m rest) :
    (a.negate other).Explores (if l.isEmpty then m else []) rest := by
  cases a with
  | found r left =>
    obtain ⟨l',rfl⟩ : ∃ l', l = r :: l' := List.head?_eq_some_iff.mp ha.head
    exact explores_nil rest left
  | failed left =>
    rw [ha.eq_nil]
    exact (explores_nil rest left).orElse ho
  | spent => trivial

end Attempt

open Attempt

variable {body : Spot → Nat → Rest → Attempt} {g : Spot → List Spot}

lemma attemptRounds_explores (hb : ∀ s b rest, (body s b rest).Explores (g s) rest) (n : Nat)
    (s : Spot) (b : Nat) (rest : Rest) :
    (attemptRounds body n s b rest).Explores (roundRoutes g n s) rest := by
  induction n generalizing s b with
  | zero => exact explores_here rest s b
  | succ n ih => exact (hb s b _).flatMap ih

lemma attemptMore_explores (hb : ∀ s b rest, (body s b rest).Explores (g s) rest)
    (greedy unbounded : Bool) (n : Nat) (s : Spot) (b : Nat) (rest : Rest) :
    (attemptMore body greedy unbounded n s b rest).Explores
      (moreRoutes Spot.position g greedy unbounded n s) rest := by
  induction n generalizing s b with
  | zero => exact explores_here rest s b
  | succ n ih =>
    have hagain : ∀ b, (body s b (fun next b =>
        if unbounded && next.position == s.position then .failed b
        else attemptMore body greedy unbounded n next b rest)).Explores
        ((g s).flatMap (fun next =>
          if unbounded && next.position == s.position then []
          else moreRoutes Spot.position g greedy unbounded n next)) rest := by
      intro b
      apply (hb s b _).flatMap
      intro next b
      split
      · exact explores_nil rest b
      · exact ih next b
    cases greedy with
    | true => exact (hagain b).orElse (explores_here rest s)
    | false => exact (explores_here rest s b).orElse hagain

/-- An attempt explores the routes of its pattern. -/
theorem attempt_explores (t : Haystack) (p : Pattern) (s : Spot) (b : Nat) (rest : Rest) :
    (p.attempt t s b rest).Explores (p.routes t s) rest := by
  induction p generalizing s b rest with
  | empty => exact explores_here rest s b
  | set cs =>
    simp only [Pattern.attempt,Pattern.routes]
    cases t.charAt? s.position with
    | none => exact explores_nil rest b
    | some c =>
      dsimp only
      split
      · exact explores_here rest s.advance b
      · exact explores_nil rest b
  | assert a =>
    simp only [Pattern.attempt,Pattern.routes]
    split
    · exact explores_here rest s b
    · exact explores_nil rest b
  | cat p q hp hq => exact (hp s b _).flatMap (fun s b => hq s b rest)
  | alt p q hp hq => exact (hp s b rest).orElse (fun b => hq s b rest)
  | group n p hp => exact (hp (s.openGroup n) b _).map
  | loop p least most greedy hp =>
    cases most with
    | some most =>
      exact (attemptRounds_explores hp _ s b _).flatMap
        (fun s b => attemptMore_explores hp greedy false _ s b rest)
    | none =>
      exact (attemptRounds_explores hp _ s b _).flatMap
        (fun s b => attemptMore_explores hp greedy true _ s b rest)
  | backref n =>
    simp only [Pattern.attempt,Pattern.routes]
    cases t.repeatEnd? s n with
    | none => exact explores_nil rest b
    | some finish => exact explores_here rest (s.moveTo finish) b
  | atomic settled p hp =>
    cases settled with
    | true =>
      simp only [Pattern.attempt,Pattern.routes,if_true]
      cases h : p.ways t s with
      | nil => exact explores_nil rest b
      | cons r l => exact explores_here rest r b
    | false =>
      simp only [Pattern.attempt,Pattern.routes,Bool.false_eq_true,if_false]
      have ha := hp s b .found
      cases h : p.attempt t s b .found with
      | found r left =>
        rw [h] at ha
        rw [List.take_one,ha.head]
        exact explores_here rest r left
      | failed left =>
        rw [h] at ha
        rw [ha.eq_nil]
        exact explores_nil rest left
      | spent => trivial
  | look direction negated settled p hp =>
    have hinside : ∀ next : Rest, Explores
        (if s.position < t.origin + direction.width then []
          else if settled then (p.ways t (s.moveTo (s.position - direction.width))).take 1
          else p.routes t (s.moveTo (s.position - direction.width))) next
        (if s.position < t.origin + direction.width then .failed b
          else if settled then takeFirst b next (p.ways t (s.moveTo (s.position - direction.width)))
          else p.attempt t (s.moveTo (s.position - direction.width)) b next) := by
      intro next
      split
      · exact explores_nil next b
      · cases settled with
        | true =>
          simp only [if_true]
          cases h : p.ways t (s.moveTo (s.position - direction.width)) with
          | nil => exact explores_nil next b
          | cons r l => exact explores_here next r b
        | false => exact hp _ b next
    simp only [Pattern.attempt,Pattern.routes]
    cases negated with
    | true => exact (hinside .found).negate (explores_here rest s)
    | false =>
      have hm := hinside (resumeAt s rest)
      exact hm.map (f := (·.moveTo s.position))

end Highlight.Regex
