import Highlight.Proofs.Regex.Bounds

/-!
What a search finds. A regex prefers at most one match at each position; a search that does not give
up finds the leftmost of them. So a match lies in the text, at or after the start of the search.
-/
namespace Highlight.Regex

/-- The match that a regex prefers at a position, however long it takes to find. -/
def preferred (r : Regex) (t : Haystack) (position : Nat) : Option Spot :=
  if r.plain then (r.pattern.ways t { position }).head?
  else (r.pattern.routes t { position }).head?

/-- The leftmost of the matches at `n` successive positions, if there is any. -/
def IsLeftmost (matchAt : Nat → Option Spot) (start n : Nat) : Option Found → Prop
  | none => ∀ q, start ≤ q → q < start + n → matchAt q = none
  | some f => start ≤ f.start ∧ f.start < start + n ∧ matchAt f.start = some f.last ∧
      ∀ q, start ≤ q → q < f.start → matchAt q = none

variable {matchAt : Nat → Option Spot} {start n : Nat}

lemma isLeftmost_here {last : Spot} (h : matchAt start = some last) :
    IsLeftmost matchAt start (n + 1) (some { start, last }) :=
  ⟨Nat.le_refl _,Nat.lt_add_of_pos_right (Nat.succ_pos n),h,
    fun _ hq hlt => absurd hlt (Nat.not_lt.mpr hq)⟩

lemma IsLeftmost.later {found : Option Found} (h : matchAt start = none)
    (hf : IsLeftmost matchAt (start + 1) n found) : IsLeftmost matchAt start (n + 1) found := by
  have hnone : ∀ q, start ≤ q → (start + 1 ≤ q → matchAt q = none) → matchAt q = none := by
    intro q hq h'
    rcases Nat.eq_or_lt_of_le hq with rfl | hlt
    · exact h
    · exact h' hlt
  cases found with
  | none => exact fun q hq hlt => hnone q hq (fun hq => hf q hq (by omega))
  | some f =>
    obtain ⟨h1,h2,h3,h4⟩ := hf
    exact ⟨by omega,by omega,h3,fun q hq hlt => hnone q hq (fun hq => h4 q hq hlt)⟩

lemma searchPlain_isLeftmost (p : Pattern) (t : Haystack) (n start : Nat) :
    IsLeftmost (fun q => (p.ways t { position := q }).head?) start n (searchPlain p t n start) := by
  induction n generalizing start with
  | zero => intro q hq hlt; omega
  | succ n ih =>
    simp only [searchPlain]
    cases h : (p.ways t { position := start }).head? with
    | some last => exact isLeftmost_here h
    | none => exact .later h (ih (start + 1))

lemma searchBacktracking_isLeftmost (p : Pattern) (t : Haystack) (n start budget : Nat)
    {found : Option Found} (h : searchBacktracking p t n start budget = .ok found) :
    IsLeftmost (fun q => (p.routes t { position := q }).head?) start n found := by
  induction n generalizing start budget with
  | zero =>
    cases h
    intro q hq hlt
    omega
  | succ n ih =>
    simp only [searchBacktracking] at h
    have he := attempt_explores t p { position := start } budget .found
    cases ha : p.attempt t { position := start } budget .found with
    | found last left =>
      rw [ha] at h he
      cases h
      exact isLeftmost_here he.head
    | spent =>
      rw [ha] at h
      cases h
    | failed left =>
      rw [ha] at h he
      cases left with
      | zero => cases h
      | succ left => exact .later (by simp [he.eq_nil]) (ih _ _ h)

/-- A search that does not give up finds the leftmost preferred match. -/
theorem search_isLeftmost {r : Regex} {t : Haystack} {start : Nat} {found : Option Found}
    (h : r.search t start = .ok found) :
    IsLeftmost (r.preferred t) start (t.size + 1 - start) found := by
  cases hp : r.plain with
  | true =>
    have hm : r.preferred t = fun q => (r.pattern.ways t { position := q }).head? := by
      funext q
      rw [preferred,if_pos hp]
    rw [search,if_pos hp] at h
    cases h
    rw [hm]
    exact searchPlain_isLeftmost r.pattern t _ start
  | false =>
    have hm : r.preferred t = fun q => (r.pattern.routes t { position := q }).head? := by
      funext q
      rw [preferred,if_neg (by simp [hp])]
    rw [search,if_neg (by simp [hp])] at h
    rw [hm]
    exact searchBacktracking_isLeftmost r.pattern t _ start _ h

/-- A search from where a match starts finds that match again. -/
lemma search_from_match {r : Regex} {t : Haystack} {start : Nat} {f : Found} {found : Option Found}
    (h : r.search t start = .ok (some f)) (h' : r.search t f.start = .ok found) : found = some f := by
  obtain ⟨hstart,hlt,hlast,-⟩ := search_isLeftmost h
  have hfirst := search_isLeftmost h'
  cases found with
  | none =>
    have hnone := hfirst f.start (Nat.le_refl _) (by omega)
    rw [hlast] at hnone
    cases hnone
  | some f' =>
    obtain ⟨hle,-,hlast',hbefore⟩ := hfirst
    have heq : f'.start = f.start := by
      refine (Nat.eq_or_lt_of_le hle).elim Eq.symm (fun hlt => ?_)
      rw [hbefore f.start (Nat.le_refl _) hlt] at hlast
      cases hlast
    rw [heq,hlast] at hlast'
    obtain ⟨start',last'⟩ := f'
    obtain rfl : start' = f.start := heq
    obtain rfl : f.last = last' := Option.some.inj hlast'
    rfl

/-- A preferred match is no shorter than nothing and stays in the text. -/
lemma preferred_before {r : Regex} {t : Haystack} {position : Nat} {last : Spot}
    (h : r.preferred t position = some last) : Spot.Before t { position } last := by
  rw [preferred] at h
  split at h
  · exact ways_before t r.pattern _ _ (List.mem_of_mem_head? h)
  · exact routes_before t r.pattern _ _ (List.mem_of_mem_head? h)

/-- Where a match lies that a search from `start` finds. -/
theorem search_bounds {r : Regex} {t : Haystack} {start : Nat} {f : Found}
    (h : r.search t start = .ok (some f)) :
    start ≤ f.start ∧ f.start ≤ f.stop ∧ f.stop ≤ t.size := by
  obtain ⟨h1,h2,h3,-⟩ := search_isLeftmost h
  obtain ⟨hle,hsize⟩ := preferred_before h3
  exact ⟨h1,hle,hsize (by simp only; omega)⟩

end Highlight.Regex
