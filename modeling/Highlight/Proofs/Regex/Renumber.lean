import Highlight.Proofs.Regex.Composed

/-!
Patterns after further capture groups: their groups and back-references bear other numbers. They keep
their widths, their bounds, and what the plain matcher may run of them.
-/
namespace Highlight.Regex

/-- The number of a group after `o` more groups. There is no group zero. -/
def shiftGroup (o n : Nat) : Nat := if n = 0 then 0 else n + o

lemma shiftGroup_inj {o m n : Nat} : shiftGroup o m = shiftGroup o n ↔ m = n := by
  unfold shiftGroup
  split <;> split <;> omega

lemma shiftGroup_zero (n : Nat) : shiftGroup 0 n = n := by
  unfold shiftGroup
  split
  · exact Eq.symm ‹_›
  · rfl

/-- A pattern after `o` more groups. -/
@[simp] def Pattern.renumber (o : Nat) : Pattern → Pattern
  | cat p q => cat (p.renumber o) (q.renumber o)
  | alt p q => alt (p.renumber o) (q.renumber o)
  | group n p => group (shiftGroup o n) (p.renumber o)
  | loop p least most greedy => loop (p.renumber o) least most greedy
  | look d negated settled p => look d negated settled (p.renumber o)
  | backref n => backref (shiftGroup o n)
  | atomic settled p => atomic settled (p.renumber o)
  | p => p

namespace Pattern

variable {o : Nat}

lemma renumber_eq_empty {p : Pattern} : p.renumber o = empty ↔ p = empty := by
  cases p <;> simp [renumber]

lemma renumber_cats (ps : List Pattern) : (cats ps).renumber o = cats (ps.map (renumber o)) := by
  induction ps with
  | nil => rfl
  | cons p ps ih =>
    cases ps with
    | nil => rfl
    | cons q ps => exact congrArg (cat (p.renumber o)) ih

lemma renumber_alts (ps : List Pattern) : (alts ps).renumber o = alts (ps.map (renumber o)) := by
  induction ps with
  | nil => rfl
  | cons p ps ih =>
    cases ps with
    | nil => rfl
    | cons q ps => exact congrArg (alt (p.renumber o)) ih

lemma branches_renumber (p : Pattern) : (p.renumber o).branches = p.branches.map (renumber o) := by
  induction p with
  | alt p q hp hq => exact congrArg (p.renumber o :: ·) hq
  | _ => rfl

lemma width?_renumber (p : Pattern) : (p.renumber o).width? = p.width? := by
  induction p with
  | cat p q hp hq | alt p q hp hq => simp only [renumber,width?,hp,hq]
  | group n p hp | atomic s p hp | loop p least most greedy hp => simp only [renumber,width?,hp]
  | _ => rfl

lemma boundsOrdered_renumber (p : Pattern) : (p.renumber o).boundsOrdered = p.boundsOrdered := by
  induction p with
  | cat p q hp hq | alt p q hp hq => simp only [renumber,boundsOrdered,hp,hq]
  | group n p hp | atomic s p hp | loop p least most greedy hp | look d negated s p hp =>
    simp only [renumber,boundsOrdered,hp]
  | _ => rfl

lemma settledBoundsOrdered_renumber (p : Pattern) :
    (p.renumber o).settledBoundsOrdered = p.settledBoundsOrdered := by
  induction p with
  | cat p q hp hq | alt p q hp hq => simp only [renumber,settledBoundsOrdered,hp,hq]
  | group n p hp | loop p least most greedy hp => simp only [renumber,settledBoundsOrdered,hp]
  | atomic s p hp | look d negated s p hp =>
    simp only [renumber,settledBoundsOrdered,hp,boundsOrdered_renumber]
  | _ => rfl

lemma settledBoundsOrdered_of_boundsOrdered {p : Pattern} (h : p.boundsOrdered = true) :
    p.settledBoundsOrdered = true := by
  induction p with
  | cat p q hp hq | alt p q hp hq =>
    obtain ⟨h1,h2⟩ := Bool.and_eq_true_iff.mp h
    simp only [settledBoundsOrdered,hp h1,hq h2,Bool.and_self]
  | group n p hp => exact hp h
  | loop p least most greedy hp => exact hp (Bool.and_eq_true_iff.mp h).1
  | atomic s p hp | look d negated s p hp =>
    simp only [boundsOrdered] at h
    simp only [settledBoundsOrdered,h,hp h,ite_self]
  | _ => rfl

/-- A set or an assertion. -/
def isAtom : Pattern → Bool
  | set _ | assert _ => true
  | _ => false

lemma renumber_of_isAtom {p : Pattern} (h : p.isAtom = true) (o : Nat) : p.renumber o = p := by
  cases p with
  | set s | assert a => rfl
  | _ => cases h

lemma boundsOrdered_of_isAtom {p : Pattern} (h : p.isAtom = true) : p.boundsOrdered = true := by
  cases p with
  | set s | assert a => rfl
  | _ => cases h

/-- The groups of a pattern are numbered from one to at most `k`. -/
def GroupsWithin (k : Nat) : Pattern → Prop
  | cat p q | alt p q => p.GroupsWithin k ∧ q.GroupsWithin k
  | group n p => 0 < n ∧ n ≤ k ∧ p.GroupsWithin k
  | loop p .. | look _ _ _ p | atomic _ p => p.GroupsWithin k
  | _ => True

lemma GroupsWithin.mono {p : Pattern} {k m : Nat} (h : p.GroupsWithin k) (hkm : k ≤ m) :
    p.GroupsWithin m := by
  induction p with
  | cat p q hp hq | alt p q hp hq => exact ⟨hp h.1,hq h.2⟩
  | group n p hp => exact ⟨h.1,Nat.le_trans h.2.1 hkm,hp h.2.2⟩
  | loop p _ _ _ hp | look _ _ _ p hp | atomic _ p hp => exact hp h
  | _ => trivial

lemma groupsWithin_of_isAtom {p : Pattern} (h : p.isAtom = true) (k : Nat) : p.GroupsWithin k := by
  cases p with
  | set s | assert a => trivial
  | _ => cases h

lemma composes_groupsWithin (k : Nat) : Composes (GroupsWithin k) where
  empty := trivial
  cat := And.intro
  alt := Iff.rfl
  look _ _ _ := id
  atomic _ := id

/-- References that name the groups of one pattern as others name those of the renumbered one. -/
def NamesAlike (o k : Nat) (referenced referenced' : List Nat) : Prop :=
  ∀ n, 0 < n → n ≤ k → (shiftGroup o n ∈ referenced' ↔ n ∈ referenced)

variable {k : Nat} {referenced referenced' : List Nat}

lemma isPlain_renumber (h : NamesAlike o k referenced referenced') {p : Pattern}
    (hp : p.GroupsWithin k) : (p.renumber o).isPlain referenced' = p.isPlain referenced := by
  induction p with
  | cat p q ihp ihq | alt p q ihp ihq => simp only [renumber,isPlain,ihp hp.1,ihq hp.2]
  | group n p ihp =>
    have hn := h n hp.1 hp.2.1
    simp only [renumber,isPlain,ihp hp.2.2,List.contains_eq_mem,hn]
  | loop p least most greedy ihp => exact ihp hp
  | _ => rfl

lemma settle_renumber (h : NamesAlike o k referenced referenced') {p : Pattern}
    (hp : p.GroupsWithin k) :
    (p.renumber o).settle referenced' = (p.settle referenced).renumber o := by
  induction p with
  | cat p q ihp ihq | alt p q ihp ihq => simp only [renumber,settle,ihp hp.1,ihq hp.2]
  | group n p ihp => simp only [renumber,settle,ihp hp.2.2]
  | loop p least most greedy ihp => simp only [renumber,settle,ihp hp]
  | look d negated s p ihp | atomic s p ihp =>
    have hplain : (p.renumber o).isPlain referenced' = p.isPlain referenced := isPlain_renumber h hp
    simp only [renumber,settle,ihp hp,hplain]
  | _ => rfl

lemma renumber_zero (p : Pattern) : p.renumber 0 = p := by
  induction p with
  | cat p q hp hq | alt p q hp hq => simp only [renumber,hp,hq]
  | group n p hp => simp only [renumber,hp,shiftGroup_zero]
  | loop p _ _ _ hp | look _ _ _ p hp | atomic _ p hp => simp only [renumber,hp]
  | backref n => simp only [renumber,shiftGroup_zero]
  | _ => rfl

lemma isPlain_of_namesAlike (h : NamesAlike 0 k referenced referenced') {p : Pattern}
    (hp : p.GroupsWithin k) : p.isPlain referenced' = p.isPlain referenced := by
  rw [← isPlain_renumber h hp,renumber_zero]

lemma settle_of_namesAlike (h : NamesAlike 0 k referenced referenced') {p : Pattern}
    (hp : p.GroupsWithin k) : p.settle referenced' = p.settle referenced := by
  have hsettle := settle_renumber h hp
  rwa [renumber_zero,renumber_zero] at hsettle

end Pattern
end Highlight.Regex
