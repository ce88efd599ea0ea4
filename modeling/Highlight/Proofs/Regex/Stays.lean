import Highlight.Proofs.Regex.Reached

/-!
Whether a pattern can end where it starts. That depends on the assertions that hold there and on nothing
else. What lies ahead of the end of a text is nothing, so a plain pattern that can end where it starts
somewhere in a text has no other choice where the text ends right there.
-/
namespace Highlight.Regex

variable {t : Haystack} {referenced : List Nat} {p : Pattern} {size i j : Nat} {e e' : Nat → List Nat}
  {holds holds' : Assertion → Bool}

/-- Whether a pattern can end where it starts, by the assertions that hold there. Of look-arounds,
back-references and atomic groups nothing is said. -/
def Pattern.stays (holds : Assertion → Bool) : Pattern → Bool
  | empty => true
  | set _ => false
  | assert a => holds a
  | cat p q => p.stays holds && q.stays holds
  | alt p q => p.stays holds || q.stays holds
  | group _ p => p.stays holds
  | loop p least most _ => min least (most.getD least) == 0 || p.stays holds
  | look .. | backref _ | atomic .. => true

namespace GoesForward

lemma moreRoutes (he : GoesForward size e) (greedy unbounded : Bool) (n : Nat) :
    GoesForward size (Regex.moreRoutes id e greedy unbounded n) := by
  induction n with
  | zero =>
    intro i hi j hj
    rw [List.mem_singleton.mp hj]
    exact ⟨Nat.le_refl i,hi⟩
  | succ n ih =>
    intro i hi j hj
    have hagain : ∀ j ∈ (e i).flatMap (fun next => if unbounded && next == i then []
        else Regex.moreRoutes id e greedy unbounded n next), i ≤ j ∧ j ≤ size := by
      refine fun j hj => he.flatMap (fun k hk j hj => ?_) i hi j hj
      split at hj
      · cases hj
      · exact ih k hk j hj
    rw [Regex.moreRoutes] at hj
    split at hj
    · rcases List.mem_append.mp hj with hj | hj
      · exact hagain j hj
      · rw [List.mem_singleton.mp hj]
        exact ⟨Nat.le_refl i,hi⟩
    · rcases List.mem_cons.mp hj with rfl | hj
      · exact ⟨Nat.le_refl j,hi⟩
      · exact hagain j hj

/-- Steps that end where they start stay there in between. -/
lemma mem_flatMap_iff (he : GoesForward size e) (he' : GoesForward size e') (hi : i ≤ size) :
    i ∈ (e i).flatMap e' ↔ i ∈ e i ∧ i ∈ e' i := by
  rw [List.mem_flatMap]
  constructor
  · rintro ⟨j,hj,hij⟩
    obtain ⟨hle,hsize⟩ := he i hi j hj
    obtain rfl := Nat.le_antisymm hle (he' j hsize i hij).1
    exact ⟨hj,hij⟩
  · exact fun ⟨h,h'⟩ => ⟨i,h,h'⟩

lemma mem_roundRoutes_iff (he : GoesForward size e) (hi : i ≤ size) (n : Nat) :
    i ∈ roundRoutes e n i ↔ n = 0 ∨ i ∈ e i := by
  induction n with
  | zero => simp [roundRoutes]
  | succ n ih =>
    rw [roundRoutes,he.mem_flatMap_iff (goesForward_roundRoutes he n) hi,ih]
    constructor
    · exact fun h => .inr h.1
    · exact fun h => ⟨h.resolve_left (Nat.succ_ne_zero n),.inr (h.resolve_left (Nat.succ_ne_zero n))⟩

end GoesForward

/-- More rounds may always be none. -/
lemma mem_moreRoutes_self (greedy unbounded : Bool) (n : Nat) :
    i ∈ moreRoutes id e greedy unbounded n i := by
  cases n with
  | zero => exact List.mem_singleton_self i
  | succ n =>
    rw [moreRoutes]
    split
    · exact List.mem_append_right _ (List.mem_singleton_self i)
    · exact List.mem_cons_self

/-- Where a pattern can end where it starts. -/
theorem mem_ends_self_iff (t : Haystack) (h : p.isPositional = true) (hi : i ≤ t.size) :
    i ∈ p.ends t i ↔ p.stays (·.holds t i) = true := by
  have hforward : ∀ {p : Pattern}, p.isPositional = true → GoesForward t.size (p.ends t) :=
    fun h _ hi _ hj => ends_within t h hi hj
  induction p with
  | empty => simp [Pattern.ends,Pattern.stays]
  | set cs =>
    simp only [Pattern.ends,Pattern.stays]
    split
    · split <;> simp
    · simp
  | assert a =>
    simp only [Pattern.ends,Pattern.stays]
    split <;> simp_all
  | cat p q hp hq =>
    obtain ⟨h1,h2⟩ := Bool.and_eq_true_iff.mp h
    rw [Pattern.ends,Pattern.stays,(hforward h1).mem_flatMap_iff (hforward h2) hi,Bool.and_eq_true]
    exact and_congr (hp h1) (hq h2)
  | alt p q hp hq =>
    obtain ⟨h1,h2⟩ := Bool.and_eq_true_iff.mp h
    rw [Pattern.ends,Pattern.stays,List.mem_append,Bool.or_eq_true]
    exact or_congr (hp h1) (hq h2)
  | group n p hp => exact hp h
  | loop p least most greedy hp =>
    have hp := hp h
    have hbody : GoesForward t.size (p.ends t) := hforward h
    have hrounds : ∀ n, i ∈ roundRoutes (p.ends t) n i ↔ (n == 0 || p.stays (·.holds t i)) = true := by
      intro n
      rw [hbody.mem_roundRoutes_iff hi,Bool.or_eq_true,beq_iff_eq]
      exact or_congr Iff.rfl hp
    rw [Pattern.stays]
    cases most with
    | some most =>
      rw [← hrounds]
      exact ((goesForward_roundRoutes hbody _).mem_flatMap_iff (hbody.moreRoutes greedy false _) hi).trans
        (and_iff_left (mem_moreRoutes_self greedy false _))
    | none =>
      have hmore : GoesForward t.size (fun j => moreRoutes id (p.ends t) greedy true (t.size + 1 - j) j) :=
        fun j => hbody.moreRoutes greedy true _ j
      rw [Option.getD_none,Nat.min_self,← hrounds]
      exact ((goesForward_roundRoutes hbody _).mem_flatMap_iff hmore hi).trans
        (and_iff_left (mem_moreRoutes_self greedy true _))
  | look _ _ _ _ | backref _ | atomic _ _ => cases h

/-- More assertions let a pattern end where it starts more often. A plain pattern asks for no word
boundary. -/
lemma Pattern.stays_mono (h : p.isPlain referenced = true)
    (hmono : ∀ a, a ≠ .wordBoundary → a ≠ .notWordBoundary → holds a = true → holds' a = true)
    (hstays : p.stays holds = true) : p.stays holds' = true := by
  induction p with
  | assert a =>
    obtain ⟨hne,hne'⟩ := Bool.and_eq_true_iff.mp h
    exact hmono a (by simpa using hne) (by simpa using hne') hstays
  | cat p q hp hq =>
    obtain ⟨h1,h2⟩ := Bool.and_eq_true_iff.mp h
    obtain ⟨hs1,hs2⟩ := Bool.and_eq_true_iff.mp hstays
    exact Bool.and_eq_true_iff.mpr ⟨hp h1 hs1,hq h2 hs2⟩
  | alt p q hp hq =>
    obtain ⟨h1,h2⟩ := Bool.and_eq_true_iff.mp h
    exact Bool.or_eq_true_iff.mpr ((Bool.or_eq_true_iff.mp hstays).imp (hp h1) (hq h2))
  | group n p hp => exact hp (Bool.and_eq_true_iff.mp h).2 hstays
  | loop p least most greedy hp =>
    exact Bool.or_eq_true_iff.mpr ((Bool.or_eq_true_iff.mp hstays).imp_right (hp h))
  | look _ _ _ _ | backref _ | atomic _ _ => cases h
  | _ => exact hstays

/-- A plain pattern leads where it may end. -/
lemma mem_ends_of_lead? (h : p.isPlain referenced = true) (ho : p.boundsOrdered = true) {plain : Bool}
    {s r : Spot} (hs : s.position ≤ t.size) (hr : p.lead? plain t s = some r) :
    r.position ∈ p.ends t s.position := by
  have hmem : r ∈ p.leads plain t s := List.mem_of_mem_head? hr
  cases plain with
  | true =>
    have hstop : r.position ∈ p.stops t s.position := by
      rw [← ways_project h s]
      exact List.mem_map_of_mem hmem
    exact (ways_meet t h ho s.position hs r.position).mp hstop
  | false =>
    rw [← routes_project t h s]
    exact List.mem_map_of_mem hmem

variable {text : Source}

/-- What stands after a position makes no assertion hold there that is not one of word boundaries. -/
lemma holds_extract (hi : i ≤ text.size) {a : Assertion} (hne : a ≠ .wordBoundary)
    (hne' : a ≠ .notWordBoundary) (h : a.holds { text } i = true) :
    a.holds { text := text.extract 0 i } i = true := by
  have hsize : Haystack.size { text := text.extract 0 i } = i := by simp [Haystack.size,hi]
  cases a with
  | textStart => exact h
  | textEnd => exact beq_iff_eq.mpr hsize.symm
  | lineStart =>
    refine Bool.or_eq_true_iff.mpr ((Bool.or_eq_true_iff.mp h).imp_right (fun hbefore => ?_))
    have hsame : Haystack.charBefore? { text := text.extract 0 i } i = Haystack.charBefore? { text } i := by
      unfold Haystack.charBefore?
      split
      · rfl
      · rw [Array.getElem?_extract,if_pos (by simp at *; omega),Nat.zero_add]
    rw [hsame]
    exact hbefore
  | lineEnd => exact Bool.or_eq_true_iff.mpr (.inl (beq_iff_eq.mpr hsize.symm))
  | wordBoundary => exact absurd rfl hne
  | notWordBoundary => exact absurd rfl hne'

/-- A plain pattern that can end where it starts does so where the text ends there. -/
theorem exists_lead?_of_stays (h : p.isPlain referenced = true) (ho : p.boundsOrdered = true)
    (hi : i ≤ text.size) (hstays : p.stays (·.holds { text } i) = true) :
    ∃ r, p.lead? true { text := text.extract 0 i } { position := i } = some r ∧ r.position = i := by
  have hsize : Haystack.size { text := text.extract 0 i } = i := by simp [Haystack.size,hi]
  have hin : i ≤ Haystack.size { text := text.extract 0 i } := Nat.le_of_eq hsize.symm
  have hmem : i ∈ p.ends { text := text.extract 0 i } i :=
    (mem_ends_self_iff _ (Pattern.isPositional_of_isPlain h) hin).mpr
      (Pattern.stays_mono h (fun _ hne hne' => holds_extract hi hne hne') hstays)
  have hstop := (ways_meet _ h ho i hin i).mpr hmem
  cases hlead : p.lead? true { text := text.extract 0 i } { position := i } with
  | none =>
    have hnil : p.ways { text := text.extract 0 i } { position := i } = [] := List.head?_eq_none_iff.mp hlead
    rw [Pattern.stops,hnil] at hstop
    cases hstop
  | some r =>
    obtain ⟨hle,hlast⟩ := ends_bounds _ h hin (mem_ends_of_lead? h ho hin hlead)
    exact ⟨r,rfl,Nat.le_antisymm (hsize ▸ hlast) hle⟩

end Highlight.Regex
