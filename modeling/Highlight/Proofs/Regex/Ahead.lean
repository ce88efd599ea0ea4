import Highlight.Proofs.Regex.Search
import Highlight.Proofs.Regex.Traces

/-!
Patterns that ask for nothing before the position where they start. They match there in the same way
whether or not the text before it is in sight.
-/
namespace Highlight.Regex

open List

/-- A test for patterns that ask for nothing before the position where they start: they have no
look-behind, and no assertion about what lies before but that there is a word boundary or none. -/
def Pattern.looksAhead : Pattern → Bool
  | empty | set _ | backref _ => true
  | assert a => a == .textEnd || a == .lineEnd
  | cat p q => p.looksAhead && q.looksAhead
  | alt p q => (p == assert .notWordBoundary && q == assert .wordBoundary) ||
      (p.looksAhead && q.looksAhead)
  | group _ p | loop p _ _ _ | atomic _ p => p.looksAhead
  | look direction _ _ p => direction == .ahead && p.looksAhead

/-- A spot and itself, from an origin on. -/
def Spot.Since (origin : Nat) (s s' : Spot) : Prop := s' = s ∧ origin ≤ s.position

namespace Spot.Since

variable {origin i n : Nat} {s s' : Spot}

lemma position (h : Since origin s s') : s'.position = s.position := congrArg Spot.position h.1

lemma refl (h : origin ≤ s.position) : Since origin s s := ⟨rfl,h⟩

lemma advance (h : Since origin s s') : Since origin s.advance s'.advance :=
  ⟨congrArg Spot.advance h.1,Nat.le_succ_of_le h.2⟩

lemma moveTo (h : Since origin s s') (hi : origin ≤ i) : Since origin (s.moveTo i) (s'.moveTo i) :=
  ⟨congrArg (Spot.moveTo · i) h.1,hi⟩

lemma openGroup (h : Since origin s s') : Since origin (s.openGroup n) (s'.openGroup n) :=
  ⟨congrArg (Spot.openGroup · n) h.1,h.2⟩

lemma closeGroup (h : Since origin s s') : Since origin (s.closeGroup n) (s'.closeGroup n) :=
  ⟨congrArg (Spot.closeGroup · n) h.1,h.2⟩

end Spot.Since

open Spot

section Sight

variable {text : Source} {origin : Nat}

lemma eq_of_since {l l' : List Spot} (h : Forall₂ (Since origin) l l') : l' = l := by
  induction h with
  | nil => rfl
  | cons hs _ ih => rw [hs.1,ih]

/-- An assertion about what lies ahead holds or not, whatever is in sight. -/
lemma holds_since {a : Assertion} (h : (Pattern.assert a).looksAhead = true) (i : Nat) :
    a.holds { text, origin } i = a.holds { text } i := by
  cases a with
  | textEnd => rfl
  | lineEnd => rfl
  | textStart => cases h
  | lineStart => cases h
  | wordBoundary => cases h
  | notWordBoundary => cases h

/-- Everywhere there is either a word boundary or none. -/
lemma ways_zeroWidth (t : Haystack) (s : Spot) :
    (Pattern.alt (.assert .notWordBoundary) (.assert .wordBoundary)).ways t s = [s] := by
  cases h : t.isBoundary s.position with
  | false => simp [Pattern.ways,Assertion.holds,h,distinctSpots]
  | true => simp [Pattern.ways,Assertion.holds,h]

lemma routes_zeroWidth (t : Haystack) (s : Spot) :
    (Pattern.alt (.assert .notWordBoundary) (.assert .wordBoundary)).routes t s = [s] := by
  cases h : t.isBoundary s.position with
  | false => simp [Pattern.routes,Assertion.holds,h]
  | true => simp [Pattern.routes,Assertion.holds,h]

/-- A repeated group ends at or after the spot. -/
lemma le_repeatEnd {s : Spot} {n finish : Nat} (hs : origin ≤ s.position)
    (h : Haystack.repeatEnd? { text } s n = some finish) : origin ≤ finish :=
  Nat.le_trans hs (before_repeatEnd h).1

/-- The plain matcher goes the same ways. -/
theorem ways_since {p : Pattern} (h : p.looksAhead = true) :
    StepRelates (Since origin) (p.ways { text }) (p.ways { text, origin }) := by
  induction p with
  | empty => exact fun s s' hs => .cons hs .nil
  | set cs =>
    intro s s' hs
    simp only [Pattern.ways,hs.position,Haystack.charAt?]
    split
    · split
      · exact .cons hs.advance .nil
      · exact .nil
    · exact .nil
  | assert a =>
    intro s s' hs
    simp only [Pattern.ways,hs.position,holds_since h]
    split
    · exact .cons hs .nil
    · exact .nil
  | cat p q hp hq =>
    obtain ⟨h,h'⟩ := Bool.and_eq_true_iff.mp h
    exact fun s s' hs => thenWays_relates Since.position (hp h s s' hs) (hq h')
  | alt p q hp hq =>
    intro s s' hs
    rcases Bool.or_eq_true_iff.mp h with h | h
    · simp only [Bool.and_eq_true,beq_iff_eq] at h
      obtain ⟨rfl,rfl⟩ := h
      rw [ways_zeroWidth,ways_zeroWidth]
      exact .cons hs .nil
    · obtain ⟨h,h'⟩ := Bool.and_eq_true_iff.mp h
      have hl := hp h s s' hs
      have hq := hq h' s s' hs
      simp only [Pattern.ways]
      generalize p.ways { text } s = l, p.ways { text, origin } s' = l' at hl
      cases hl with
      | nil => exact hq
      | cons ha hl => exact distinctSpots_relates Since.position (rel_append (.cons ha hl) hq)
  | group n p hp =>
    intro s s' hs
    exact rel_map (fun _ _ ha => ha.closeGroup) (hp h _ _ hs.openGroup)
  | loop p least most greedy hp =>
    intro s s' hs
    simp only [Pattern.ways,hs.position]
    exact loopWays_relates Since.position (hp h) least most greedy _ s s' hs
  | look d negated settled p hp =>
    intro s s' hs
    obtain ⟨hd,hbody⟩ := Bool.and_eq_true_iff.mp h
    obtain rfl := beq_iff_eq.mp hd
    have hwithin : ∀ o ≤ origin, ¬ s.position < o + Direction.ahead.width :=
      fun o ho => Nat.not_lt.mpr (Nat.le_trans ho hs.2)
    simp only [Pattern.ways,hs.position,if_neg (hwithin _ (Nat.le_refl _)),
      if_neg (hwithin 0 (Nat.zero_le _))]
    exact look_relates (fun _ _ ha => ha.moveTo hs.2)
      (forall₂_take 1 (hp hbody _ _ (hs.moveTo hs.2))) hs negated
  | backref n =>
    intro s s' hs
    have hsame : Haystack.repeatEnd? { text, origin } s' n = Haystack.repeatEnd? { text } s n := by
      rw [hs.1]
      rfl
    simp only [Pattern.ways,hsame]
    split
    · exact .cons (hs.moveTo (le_repeatEnd hs.2 ‹_›)) .nil
    · exact .nil
  | atomic settled p hp => exact fun s s' hs => forall₂_take 1 (hp h s s' hs)

/-- So does backtracking. -/
theorem routes_since {p : Pattern} (h : p.looksAhead = true) :
    StepRelates (Since origin) (p.routes { text }) (p.routes { text, origin }) := by
  induction p with
  | empty => exact fun s s' hs => .cons hs .nil
  | set cs =>
    intro s s' hs
    simp only [Pattern.routes,hs.position,Haystack.charAt?]
    split
    · split
      · exact .cons hs.advance .nil
      · exact .nil
    · exact .nil
  | assert a =>
    intro s s' hs
    simp only [Pattern.routes,hs.position,holds_since h]
    split
    · exact .cons hs .nil
    · exact .nil
  | cat p q hp hq =>
    obtain ⟨h,h'⟩ := Bool.and_eq_true_iff.mp h
    exact fun s s' hs => (hq h').flatMap (hp h s s' hs)
  | alt p q hp hq =>
    intro s s' hs
    rcases Bool.or_eq_true_iff.mp h with h | h
    · simp only [Bool.and_eq_true,beq_iff_eq] at h
      obtain ⟨rfl,rfl⟩ := h
      rw [routes_zeroWidth,routes_zeroWidth]
      exact .cons hs .nil
    · obtain ⟨h,h'⟩ := Bool.and_eq_true_iff.mp h
      exact rel_append (hp h s s' hs) (hq h' s s' hs)
  | group n p hp =>
    intro s s' hs
    exact rel_map (fun _ _ ha => ha.closeGroup) (hp h _ _ hs.openGroup)
  | loop p least most greedy hp =>
    intro s s' hs
    simp only [Pattern.routes]
    cases most with
    | some most =>
      exact (moreRoutes_relates Since.position (hp h) greedy false _).flatMap
        (roundRoutes_relates (hp h) _ s s' hs)
    | none =>
      refine rel_flatMap (roundRoutes_relates (hp h) _ s s' hs) (fun a a' ha => ?_)
      rw [ha.position]
      exact moreRoutes_relates Since.position (hp h) greedy true _ a a' ha
  | look d negated settled p hp =>
    intro s s' hs
    obtain ⟨hd,hbody⟩ := Bool.and_eq_true_iff.mp h
    obtain rfl := beq_iff_eq.mp hd
    have hwithin : ∀ o ≤ origin, ¬ s.position < o + Direction.ahead.width :=
      fun o ho => Nat.not_lt.mpr (Nat.le_trans ho hs.2)
    simp only [Pattern.routes,hs.position,if_neg (hwithin _ (Nat.le_refl _)),
      if_neg (hwithin 0 (Nat.zero_le _))]
    refine look_relates (fun _ _ ha => ha.moveTo hs.2) ?_ hs negated
    split
    · exact forall₂_take 1 (ways_since hbody _ _ (hs.moveTo hs.2))
    · exact hp hbody _ _ (hs.moveTo hs.2)
  | backref n =>
    intro s s' hs
    have hsame : Haystack.repeatEnd? { text, origin } s' n = Haystack.repeatEnd? { text } s n := by
      rw [hs.1]
      rfl
    simp only [Pattern.routes,hsame]
    split
    · exact .cons (hs.moveTo (le_repeatEnd hs.2 ‹_›)) .nil
    · exact .nil
  | atomic settled p hp =>
    intro s s' hs
    cases settled with
    | true => exact forall₂_take 1 (ways_since (p := p) h s s' hs)
    | false => exact forall₂_take 1 (hp h s s' hs)

/-- A regex that asks for nothing before a position matches there as if nothing lay before. -/
theorem preferred_since {r : Regex} (h : r.pattern.looksAhead = true) (q : Nat) :
    r.preferred { text, origin := q } q = r.preferred { text } q := by
  have hstart : Since q { position := q } { position := q } := .refl (Nat.le_refl q)
  unfold preferred
  split
  · rw [eq_of_since (ways_since h _ _ hstart)]
  · rw [eq_of_since (routes_since h _ _ hstart)]

end Sight
end Highlight.Regex
