import Highlight.Proofs.Regex.Lines
import Highlight.Proofs.Rules.First

/-!
What fires in some lines of a text. Rules that stay in a line match there as they do in the lines alone, so
that what fires first in the lines is found in the text as well, at the same place.
-/
namespace Highlight

open Regex

/-- A regex ends first where its pattern does, unless an empty round of a loop hides that. -/
lemma Regex.preferred_position {source : String} {ic : Bool} {g : Regex}
    (hg : Regex.compileRule source ic = .ok g) (hpositional : g.pattern.isPositional = true)
    (hrounds : g.plain = true → g.pattern.roundsConsume = true) {t : Haystack} {i : Nat}
    (hi : i ≤ t.size) :
    (g.preferred t i).map Spot.position = (g.pattern.ends t i).head? := by
  cases hplain : g.plain with
  | false =>
    rw [preferred,hplain,if_neg Bool.false_ne_true,← routes_positions t hpositional { position := i },List.head?_map]
  | true =>
    obtain ⟨r,p,-,rfl,hordered,-⟩ := Rules.readsAs_of_compileRule hg
    rw [Rules.Ordered,if_pos hplain] at hordered
    exact Orderly.preferred_position ⟨hplain,⟨_,Pattern.isPlain_settle hplain⟩,hordered,hrounds hplain⟩ hi

namespace Rules

variable {rules : List Rule} {ic : Bool} {text part whole : Source} {lo p q first : Nat} {m : RuleMatch}

/-- The pattern of a rule, if its matches come down to positions. -/
def Rule.positional? (rule : Rule) (ignoreCase : Bool) : Option Pattern :=
  match Regex.compileRule rule.pattern ignoreCase with
  | .ok g => if g.pattern.isPositional && (!g.plain || g.pattern.roundsConsume) then some g.pattern else none
  | .error _ => none

lemma Rule.exists_of_positional? {rule : Rule} {pattern : Pattern}
    (h : rule.positional? ic = some pattern) : ∃ g, Regex.compileRule rule.pattern ic = .ok g ∧
      g.pattern = pattern ∧ pattern.isPositional = true ∧
      (g.plain = true → pattern.roundsConsume = true) := by
  rw [positional?] at h
  cases hg : Regex.compileRule rule.pattern ic with
  | error e =>
    rw [hg] at h
    cases h
  | ok g =>
    rw [hg] at h
    dsimp only at h
    split at h
    · rename_i htest
      obtain rfl := Option.some.inj h
      obtain ⟨hpositional,hrounds⟩ := Bool.and_eq_true_iff.mp htest
      exact ⟨g,rfl,rfl,hpositional,fun hplain => by simpa [hplain] using hrounds⟩
    · cases h

lemma Rule.end?_eq_head? {rule : Rule} {pattern : Pattern} (h : rule.positional? ic = some pattern)
    (hq : q ≤ text.size) : rule.end? ic text q = (pattern.ends { text } q).head? := by
  obtain ⟨g,hg,rfl,hpositional,hrounds⟩ := Rule.exists_of_positional? h
  rw [end?,hg]
  exact Regex.preferred_position hg hpositional hrounds hq

lemma Rule.end?_within {rule : Rule} {pattern : Pattern} (h : rule.positional? ic = some pattern)
    (hq : q ≤ text.size) {stop : Nat} (hstop : rule.end? ic text q = some stop) :
    q ≤ stop ∧ stop ≤ text.size := by
  obtain ⟨g,-,-,hpositional,-⟩ := Rule.exists_of_positional? h
  rw [Rule.end?_eq_head? h hq] at hstop
  exact ends_within { text } hpositional hq (List.mem_of_mem_head? hstop)

/-- Whether a rule stays in a line. -/
def Rule.staysInLine (rule : Rule) (ignoreCase : Bool) : Bool :=
  (rule.positional? ignoreCase).any (·.staysInLine)

/-- Whether each match of a rule takes a character. -/
def Rule.takesSome (rule : Rule) (ignoreCase : Bool) : Bool :=
  (rule.positional? ignoreCase).any (0 < ·.leastWidth)

/-- A rule that stays in a line matches in the lines of a text as it does in the lines alone. -/
lemma Rule.end?_lines {rule : Rule} (h : rule.staysInLine ic = true) (hlines : Lines part whole lo)
    {k : Nat} (hk : k ≤ part.size) :
    rule.end? ic whole (lo + k) = (rule.end? ic part k).map (lo + ·) := by
  obtain ⟨pattern,hpattern,hstays⟩ := (Option.any_eq_true _ _).mp h
  have hfits := hlines.fits
  rw [Rule.end?_eq_head? hpattern (by omega),Rule.end?_eq_head? hpattern hk,
    (ends_lines hlines hstays k hk).1,List.head?_map]

lemma Rule.end?_bounds {rule : Rule} (h : rule.takesSome ic = true) (hq : q ≤ text.size) {stop : Nat}
    (hstop : rule.end? ic text q = some stop) : q < stop ∧ stop ≤ text.size := by
  obtain ⟨pattern,hpattern,hwidth⟩ := (Option.any_eq_true _ _).mp h
  obtain ⟨g,-,-,hpositional,-⟩ := Rule.exists_of_positional? hpattern
  rw [Rule.end?_eq_head? hpattern hq] at hstop
  have hmem := List.mem_of_mem_head? hstop
  have hle := Pattern.add_leastWidth_le { text } hpositional hq hmem
  have hwidth := of_decide_eq_true hwidth
  exact ⟨by omega,(ends_within { text } hpositional hq hmem).2⟩

lemma endAt?_lines (h : ∀ rule ∈ rules, rule.staysInLine ic = true) (hlines : Lines part whole lo)
    (i : Nat) {k : Nat} (hk : k ≤ part.size) :
    endAt? rules ic whole i (lo + k) = (endAt? rules ic part i k).map (lo + ·) := by
  rw [endAt?,endAt?]
  cases hrule : rules[i]? with
  | none => rfl
  | some rule => exact Rule.end?_lines (h rule (List.mem_of_getElem? hrule)) hlines hk

/-- A match some characters later. -/
def RuleMatch.shift (m : RuleMatch) (lo : Nat) : RuleMatch :=
  { m with start := lo + m.start, stop := lo + m.stop }

/-- What fires in the lines alone fires in the text, also for a search from further before if nothing
matches up to the lines. -/
lemma Fires.lines (h : ∀ rule ∈ rules, rule.staysInLine ic = true) (hlines : Lines part whole lo)
    {k : Nat} (hm : Fires rules ic part k first m) (hp : p ≤ lo + k)
    (hbefore : ∀ q, p ≤ q → q < lo + k → ∀ i, first ≤ i → endAt? rules ic whole i q = none) :
    Fires rules ic whole p first (m.shift lo) := by
  have hfits := hlines.fits
  have hsize := hm.start_le_size
  have hstart := hm.start_le
  refine ⟨?_,?_,hm.first_le,hm.kind,?_,fun i hi hlt => ?_,fun q hq hlt i hi => ?_⟩
  · simp only [RuleMatch.shift]
    omega
  · simp only [RuleMatch.shift]
    omega
  · simp only [RuleMatch.shift]
    rw [endAt?_lines h hlines _ hsize,hm.stop]
    rfl
  · simp only [RuleMatch.shift]
    rw [endAt?_lines h hlines _ hsize,hm.least i hi hlt]
    rfl
  · rcases Nat.lt_or_ge q (lo + k) with hq' | hq'
    · exact hbefore q hq hq' i hi
    · obtain ⟨j,rfl⟩ := Nat.exists_eq_add_of_le hq'
      simp only [RuleMatch.shift] at hlt
      rw [Nat.add_assoc,endAt?_lines h hlines _ (by omega),hm.leftmost (k + j) (by omega) (by omega) i hi]
      rfl

/-- Where nothing fires in the lines alone, nothing does in the text. -/
lemma IsFirst.lines_none (h : ∀ rule ∈ rules, rule.staysInLine ic = true) (hlines : Lines part whole lo)
    {k : Nat} (hnone : IsFirst rules ic part k first none) (hq : lo + k ≤ q) (hle : q ≤ lo + part.size)
    {i : Nat} (hi : first ≤ i) : endAt? rules ic whole i q = none := by
  obtain ⟨j,rfl⟩ := Nat.exists_eq_add_of_le hq
  rw [Nat.add_assoc,endAt?_lines h hlines _ (by omega),hnone (k + j) (by omega) (by omega) i hi]
  rfl

end Rules
end Highlight
