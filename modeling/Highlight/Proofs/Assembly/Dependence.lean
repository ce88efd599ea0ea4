import Highlight.Grammar.Definition
import Mathlib.Data.Fintype.Card
import Mathlib.Logic.Relation
import Mathlib.Order.Monotone.Basic
import Mathlib.Tactic.Lemma

/-!
The dependence of modes on their parents. It is sought along chains of continuations, which are cut at
the size of the mode table. The modes that are found to depend grow with the length of the chains
until one more link adds none, which is the case at that size at the latest, so that the cut loses
nothing: a mode depends on its parent just if it ends with it or if its continuation depends, that is, if
some mode that follows it, after as many links as it takes, ends with its parent.
-/
namespace Highlight.Grammar

variable {g : Grammar}

/-- The mode that follows another one. -/
def next? (g : Grammar) (m : Mode) : Option Mode := m.starts.bind g.mode?

lemma dependsWithin_succ {n : Nat} {m : Mode} : g.dependsWithin (n + 1) m = true ↔
    m.endsWithParent = true ∨ ∃ next, g.next? m = some next ∧ g.dependsWithin n next = true := by
  rw [dependsWithin,next?,Bool.or_eq_true]
  cases m.starts.bind g.mode? with
  | none => simp
  | some next => simp

lemma dependsWithin_of_succ {n : Nat} {m : Mode} (h : g.dependsWithin n m = true) :
    g.dependsWithin (n + 1) m = true := by
  induction n generalizing m with
  | zero => exact dependsWithin_succ.mpr (.inl h)
  | succ n ih =>
    rcases dependsWithin_succ.mp h with h | ⟨next,hnext,h⟩
    · exact dependsWithin_succ.mpr (.inl h)
    · exact dependsWithin_succ.mpr (.inr ⟨next,hnext,ih h⟩)

/-- The modes of the table that are found to depend along chains of a length. -/
def dependentWithin (g : Grammar) (n : Nat) : Finset (Fin g.modes.size) :=
  Finset.univ.filter (fun id => g.dependsWithin n g.modes[id] = true)

lemma dependentWithin_mono (g : Grammar) : Monotone g.dependentWithin :=
  monotone_nat_of_le_succ (fun _ => Finset.monotone_filter_right _ (fun _ _ h => dependsWithin_of_succ h))

/-- Which modes are found along longer chains depends on the modes that are found along shorter ones. -/
lemma dependentWithin_succ_of_eq {n n' : Nat} (h : g.dependentWithin n = g.dependentWithin n') :
    ∀ m, g.dependsWithin (n + 1) m = g.dependsWithin (n' + 1) m := by
  have hnext : ∀ m next, g.next? m = some next →
      (g.dependsWithin n next = true ↔ g.dependsWithin n' next = true) := by
    intro m next hnext
    obtain ⟨id,-,hid⟩ := Option.bind_eq_some_iff.mp hnext
    obtain ⟨hlt,rfl⟩ := Array.getElem?_eq_some_iff.mp hid
    have hmem := Finset.ext_iff.mp h ⟨id,hlt⟩
    simpa [dependentWithin] using hmem
  intro m
  rw [Bool.eq_iff_iff,dependsWithin_succ,dependsWithin_succ]
  refine or_congr_right (exists_congr fun next => and_congr_right fun hm => hnext m next hm)

/-- There is nothing left to find once the chains are as long as the table. -/
lemma dependentWithin_eq {n : Nat} (hn : g.modes.size ≤ n) :
    g.dependentWithin n = g.dependentWithin g.modes.size := by
  have hstops : ∀ k, (g.dependentWithin k).card = (g.dependentWithin (k + 1)).card →
      (g.dependentWithin (k + 1)).card = (g.dependentWithin (k + 2)).card := by
    intro k hk
    have heq : g.dependentWithin k = g.dependentWithin (k + 1) :=
      Finset.eq_of_subset_of_card_le (dependentWithin_mono g (Nat.le_succ k)) hk.ge
    rw [show g.dependentWithin (k + 1) = g.dependentWithin (k + 2) from
      Finset.filter_congr (fun id _ => by rw [dependentWithin_succ_of_eq heq])]
  have hcard : (g.dependentWithin n).card = (g.dependentWithin g.modes.size).card :=
    Nat.stabilises_of_monotone (fun _ _ h => Finset.card_le_card (dependentWithin_mono g h))
      (fun k => (Finset.card_le_univ _).trans (Fintype.card_fin _).le) hstops hn
  exact (Finset.eq_of_subset_of_card_le (dependentWithin_mono g hn) hcard.le).symm

/-- Longer chains than a mode's dependence is sought along do not change it. -/
lemma dependsWithin_eq {n : Nat} (hn : g.modes.size < n) (m : Mode) :
    g.dependsWithin n m = g.dependsOnParent m := by
  obtain ⟨n,rfl⟩ := Nat.exists_eq_add_one_of_ne_zero (Nat.ne_zero_of_lt hn)
  exact dependentWithin_succ_of_eq (dependentWithin_eq (Nat.le_of_lt_succ hn)) m

/-- A mode depends on its parent if it ends with it, or if the mode that follows it does. -/
theorem dependsOnParent_iff {m : Mode} : g.dependsOnParent m = true ↔
    m.endsWithParent = true ∨ ∃ next, g.next? m = some next ∧ g.dependsOnParent next = true := by
  rw [← dependsWithin_eq (Nat.lt_add_of_pos_right (Nat.succ_pos 1)),dependsWithin_succ]
  rfl

/-- A mode goes on with another one: it has a continuation, and that is a mode of the table. -/
def Follows (g : Grammar) (m next : Mode) : Prop := ∃ id, m.starts = some id ∧ g.mode? id = some next

lemma next?_eq_some_iff {m next : Mode} : g.next? m = some next ↔ g.Follows m next := Option.bind_eq_some_iff

/-- Dependence comes back along a chain of continuations, from its last mode to its first. -/
lemma dependsOnParent_of_reaches {m last : Mode} (h : Relation.ReflTransGen g.Follows m last)
    (hlast : last.endsWithParent = true) : g.dependsOnParent m = true := by
  induction h using Relation.ReflTransGen.head_induction_on with
  | refl => exact dependsOnParent_iff.mpr (.inl hlast)
  | @head m next hnext _ ih => exact dependsOnParent_iff.mpr (.inr ⟨next,next?_eq_some_iff.mpr hnext,ih⟩)

/-- What is found along a chain, however long, is at its end. -/
lemma exists_reaches_of_dependsWithin {n : Nat} {m : Mode} (h : g.dependsWithin n m = true) :
    ∃ last, Relation.ReflTransGen g.Follows m last ∧ last.endsWithParent = true := by
  induction n generalizing m with
  | zero => exact ⟨m,.refl,h⟩
  | succ n ih =>
    rcases dependsWithin_succ.mp h with h | ⟨next,hnext,h⟩
    · exact ⟨m,.refl,h⟩
    · obtain ⟨last,hreach,hlast⟩ := ih h
      exact ⟨last,.head (next?_eq_some_iff.mp hnext) hreach,hlast⟩

/-- A mode, of the table or not, is found to depend on its parent just if some mode that is reached from it by
continuations, of any number and also of none, ends with its parent. -/
theorem dependsOnParent_iff_reaches (g : Grammar) (m : Mode) : g.dependsOnParent m = true ↔
    ∃ last, Relation.ReflTransGen g.Follows m last ∧ last.endsWithParent = true :=
  ⟨exists_reaches_of_dependsWithin,fun ⟨_,hreach,hlast⟩ => dependsOnParent_of_reaches hreach hlast⟩

-- A chain that enters a loop at its last mode, and one that takes in the whole table before its end.
example : ({ name := "", modes := #[{ starts := some 1 },{ starts := some 1 }] } : Grammar).dependsOnParent
    { starts := some 0 } = false := by decide
example : ({ name := "", modes := #[{ starts := some 1 },
    { switches := { Switches.unset with endsWithParent := some true } }] } : Grammar).dependsOnParent
    { starts := some 0 } = true := by decide

end Highlight.Grammar
