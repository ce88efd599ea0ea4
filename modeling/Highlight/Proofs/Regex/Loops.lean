import Highlight.Proofs.Regex.Sweep

/-!
Loops of the plain matcher. In an unbounded loop a first round may be empty, and then the loop is left
at once; backtracking goes on to rounds that are not. The two agree where a lazy loop is concerned, and
where a round that may be empty tries that last.
-/
namespace Highlight.Regex

/-- Nothing new follows `i` in a list. -/
def ComesLast (i : Nat) (l : List Nat) : Prop := l.eraseDups.Pairwise (fun j _ => j ≠ i)

lemma ComesLast.mem_of_mem {i : Nat} {l before after : List Nat} (h : ComesLast i l)
    (hl : SameFirsts (before ++ i :: after) l) (hi : i ∉ before) :
    ∀ j ∈ after, j = i ∨ j ∈ before := by
  intro j hj
  by_contra hnot
  rw [not_or] at hnot
  rw [ComesLast,← show (before ++ i :: after).eraseDups = l.eraseDups from hl,eraseDups_append_filter,
    List.pairwise_append] at h
  have hfilter : (i :: after).eraseDups.filter (fun x => !before.elem x) =
      i :: ((after.filter (fun b => !b == i)).eraseDups.filter (fun x => !before.elem x)) := by
    rw [List.eraseDups_cons,List.filter_cons_of_pos (by simpa using hi)]
  rw [hfilter,List.pairwise_cons] at h
  refine h.2.1.1 j ?_ rfl
  rw [List.mem_filter,List.mem_eraseDups,List.mem_filter]
  exact ⟨⟨hj,by simpa using hnot.1⟩,by simpa using hnot.2⟩

namespace Rounds

variable (R : Rounds)

/-- Where all further rounds may end. -/
def rest (j : Nat) : List Nat := R.more (R.size + 1 - j) j

/-- The same after a round from `i` that is not empty. -/
def onward (i j : Nat) : List Nat := if j = i then [] else R.rest j

variable {R} {i : Nat}

lemma again_eq_onward (hu : R.unbounded = true) (hi : i ≤ R.size) :
    R.again (R.size - i) i (R.ends i) = (R.ends i).flatMap (R.onward i) := by
  apply List.flatMap_congr
  intro j hj
  obtain ⟨hij,hjs⟩ := R.bounds i hi j hj
  by_cases he : j = i
  · simp [hu,he,onward]
  · have hstable := R.more_stable hu hjs (n := R.size - i) (by omega) (Nat.le_refl _)
    simpa [he,onward,rest] using hstable

lemma rest_eq (hu : R.unbounded = true) (hi : i ≤ R.size) : R.rest i =
    if R.greedy then (R.ends i).flatMap (R.onward i) ++ [i]
    else i :: (R.ends i).flatMap (R.onward i) := by
  have hsucc : R.size + 1 - i = (R.size - i) + 1 := by omega
  rw [rest,hsucc,more_succ,again_eq_onward hu hi]

lemma flatMap_onward {l : List Nat} (h : i ∉ l) : l.flatMap (R.onward i) = l.flatMap R.rest := by
  apply List.flatMap_congr
  intro j hj
  have hne : j ≠ i := fun he => h (he ▸ hj)
  exact if_neg hne

variable {before after : List Nat}

lemma onward_split (hl : SameFirsts (before ++ i :: after) (R.ends i)) (hb : i ∉ before) :
    SameFirsts ((R.ends i).flatMap (R.onward i))
      (before.flatMap R.rest ++ after.flatMap (R.onward i)) := by
  have h := hl.symm.flatMap (g := R.onward i) (fun j _ => .refl _)
  simpa [flatMap_onward hb,onward] using h

lemma mem_rest_split (hu : R.unbounded = true) (hi : i ≤ R.size)
    (hl : SameFirsts (before ++ i :: after) (R.ends i)) (hb : i ∉ before) {x : Nat}
    (hx : x ∈ R.rest i) :
    x = i ∨ x ∈ before.flatMap R.rest ∨ x ∈ after.flatMap (R.onward i) := by
  have hmem := (onward_split hl hb).mem_iff (x := x)
  rw [List.mem_append] at hmem
  rw [rest_eq hu hi] at hx
  split at hx
  · rcases List.mem_append.mp hx with hx | hx
    · exact .inr (hmem.mp hx)
    · exact .inl (List.mem_singleton.mp hx)
  · rcases List.mem_cons.mp hx with hx | hx
    · exact .inl hx
    · exact .inr (hmem.mp hx)

lemma mem_before_of_mem_after (hl : SameFirsts (before ++ i :: after) (R.ends i)) (hb : i ∉ before)
    (hlast : ComesLast i (R.ends i)) :
    ∀ x ∈ after.flatMap (R.onward i), x ∈ before.flatMap R.rest := by
  intro x hx
  obtain ⟨j,hj,hxj⟩ := List.mem_flatMap.mp hx
  rcases hlast.mem_of_mem hl hb j hj with he | hjb
  · simp [onward,he] at hxj
  · have hne : j ≠ i := fun he => hb (he ▸ hjb)
    exact List.mem_flatMap.mpr ⟨j,hjb,by simpa [onward,hne] using hxj⟩

/-- After a first round that was empty, only later outcomes of the round lead further. -/
theorem rest_split (hu : R.unbounded = true) (hi : i ≤ R.size)
    (hl : SameFirsts (before ++ i :: after) (R.ends i)) (hb : i ∉ before)
    (hlast : R.greedy = true → ComesLast i (R.ends i)) :
    SameFirsts ((R.ends i).flatMap R.rest)
      (before.flatMap R.rest ++ [i] ++ after.flatMap (R.onward i)) := by
  have hends := hl.symm.flatMap (g := R.rest) (fun j _ => .refl _)
  rw [List.flatMap_append,List.flatMap_cons] at hends
  refine hends.trans ?_
  have hsplit := onward_split hl hb
  have hmem := fun x => mem_rest_split hu hi hl hb (x := x)
  have hafter : ∀ x ∈ after.flatMap R.rest,
      x ∈ before.flatMap R.rest ++ [i] ++ after.flatMap (R.onward i) := by
    intro x hx
    obtain ⟨j,hj,hxj⟩ := List.mem_flatMap.mp hx
    by_cases he : j = i
    · subst he
      rcases hmem x hxj with h | h | h
      · simp [h]
      · simp [h]
      · simp [h]
    · have hx' : x ∈ after.flatMap (R.onward i) := List.mem_flatMap.mpr ⟨j,hj,by simpa [onward,he]⟩
      exact List.mem_append_right _ hx'
  by_cases hg : R.greedy = true
  · have hcover := mem_before_of_mem_after hl hb (hlast hg)
    rw [rest_eq hu hi,if_pos hg]
    generalize before.flatMap R.rest = done, after.flatMap (R.onward i) = later,
      after.flatMap R.rest = all at *
    calc
      SameFirsts (done ++ ((R.ends i).flatMap (R.onward i) ++ [i] ++ all))
          (done ++ ((done ++ later) ++ [i] ++ all)) :=
        (SameFirsts.refl _).append ((hsplit.append (.refl _)).append (.refl _))
      SameFirsts _ ((done ++ [i]) ++ all) := by
        have hdrop : ∀ x ∈ done ++ later, x ∈ done := by
          intro x hx
          exact (List.mem_append.mp hx).elim id (hcover x)
        simpa using SameFirsts.drop hdrop ([i] ++ all)
      SameFirsts _ ((done ++ [i] ++ later) ++ all) := by
        have hlater : ∀ x ∈ later, x ∈ done ++ [i] := fun x hx => List.mem_append_left _ (hcover x hx)
        exact (SameFirsts.append_left_of_forall hlater).symm.append (.refl _)
      SameFirsts _ (done ++ [i] ++ later) := SameFirsts.append_left_of_forall hafter
  · rw [rest_eq hu hi,if_neg hg]
    generalize before.flatMap R.rest = done, after.flatMap (R.onward i) = later,
      after.flatMap R.rest = all at *
    calc
      SameFirsts (done ++ (i :: (R.ends i).flatMap (R.onward i) ++ all))
          (done ++ (i :: (done ++ later) ++ all)) :=
        (SameFirsts.refl _).append (((SameFirsts.refl [i]).append hsplit).append (.refl _))
      SameFirsts _ ((done ++ [i] ++ later) ++ all) := by
        have hdrop : ∀ x ∈ done, x ∈ done ++ [i] := fun x hx => List.mem_append_left _ hx
        simpa using SameFirsts.drop hdrop (later ++ all)
      SameFirsts _ (done ++ [i] ++ later) := SameFirsts.append_left_of_forall hafter

/-- A loop that asks for no round: it may be left at once, before or after all else. -/
theorem rest_first (hu : R.unbounded = true) (hi : i ≤ R.size)
    (hlast : R.greedy = true → ComesLast i (R.ends i)) :
    SameFirsts (if R.greedy then (R.ends i).flatMap R.rest ++ [i] else i :: (R.ends i).flatMap R.rest)
      (R.rest i) := by
  rw [rest_eq hu hi]
  by_cases hmem : i ∈ R.ends i
  · obtain ⟨before,after,hends,hb⟩ := List.eq_append_cons_of_mem hmem
    have hl : SameFirsts (before ++ i :: after) (R.ends i) := by rw [hends]; exact .refl _
    have hrest := rest_split hu hi hl hb hlast
    have honward := onward_split hl hb
    by_cases hg : R.greedy = true
    · have hcover := mem_before_of_mem_after hl hb (hlast hg)
      rw [if_pos hg,if_pos hg]
      generalize before.flatMap R.rest = done, after.flatMap (R.onward i) = later at *
      have hleft : SameFirsts ((R.ends i).flatMap R.rest ++ [i]) (done ++ [i]) := by
        refine (hrest.append (.refl [i])).trans ?_
        rw [List.append_assoc]
        refine SameFirsts.append_left_of_forall (fun x hx => ?_)
        rcases List.mem_append.mp hx with hx | hx
        · exact List.mem_append_left _ (hcover x hx)
        · exact List.mem_append_right _ hx
      have hright : SameFirsts ((R.ends i).flatMap (R.onward i) ++ [i]) (done ++ [i]) :=
        (honward.append (.refl [i])).trans (.drop hcover [i])
      exact hleft.trans hright.symm
    · rw [if_neg hg,if_neg hg]
      generalize before.flatMap R.rest = done, after.flatMap (R.onward i) = later at *
      have hdrop : SameFirsts ([i] ++ done ++ [i] ++ later) ([i] ++ done ++ later) :=
        .drop (fun x hx => List.mem_append_left _ hx) later
      have hleft := (SameFirsts.refl [i]).append hrest
      have hright := (SameFirsts.refl [i]).append honward
      rw [← List.append_assoc,← List.append_assoc] at hleft
      rw [← List.append_assoc] at hright
      exact (hleft.trans hdrop).trans hright.symm
  · rw [flatMap_onward hmem]
    exact .refl _

end Rounds

namespace Sweep

variable {R : Rounds} {body : Spot → List Spot} {s : Spot} {room : Nat} {w : Sweep}

/-- The head of a round at `i` in an unbounded loop. -/
lemma rank_head (hu : R.unbounded = true) (i : Nat) : R.rank (0,i) = R.size + 1 - i := by
  rw [Rounds.rank,if_pos hu]

lemma run_explores_rest (hu : R.unbounded = true) (hb : Follows R.size body R.ends)
    (hs : s.position ≤ R.size) (hroom : R.size + 1 - s.position ≤ room) {c : Nat}
    (hc : R.size + 1 - s.position ≤ c) (hw : Settled R c w) :
    Explores R c (R.rest s.position) w (run body R.greedy true room s w) := by
  have hallows : R.Allows room s.position := ⟨hs,fun _ => hroom⟩
  have hmore := R.more_rank hallows
  have hhead : R.head room s.position = (0,s.position) := by rw [Rounds.head,if_pos hu]
  rw [hhead,rank_head hu] at hmore
  have hrun := run_explores hb room hallows (w := w) (hw.mono (by rwa [hhead,rank_head hu]))
  rw [hhead,rank_head hu,hu,← hmore] at hrun
  exact hrun.mono hc hw

/-- What a sweep does with an outcome of a first round. -/
def firstStep (body : Spot → List Spot) (greedy : Bool) (room : Nat) (s : Spot) (w : Sweep)
    (next : Spot) : Sweep :=
  if next.position == s.position then
    if w.entered.contains (0,s.position) then w else (w.enter (0,s.position)).leave next
  else run body greedy true room next w

lemma firstStep_onward (hu : R.unbounded = true) (hb : Follows R.size body R.ends)
    (hs : s.position ≤ R.size) (hroom : R.size + 1 - s.position ≤ room) {c : Nat}
    (hc : R.size - s.position ≤ c) (hw : Settled R c w) {next : Spot} (hnext : next ∈ body s)
    (hne : next.position ≠ s.position) :
    Explores R c (R.rest next.position) w (firstStep body R.greedy room s w next) := by
  have hmem := (hb s hs).mem_iff.mp (List.mem_map_of_mem hnext)
  obtain ⟨hle,hsize⟩ := R.bounds s.position hs next.position hmem
  have hstep : firstStep body R.greedy room s w next = run body R.greedy true room next w := by
    simp [firstStep,hne]
  rw [hstep]
  exact run_explores_rest hu hb hsize (by omega) (by omega) hw

/-- A first round with an empty outcome, the loop's head being fresh. After that outcome the loop is
left at once. -/
lemma first_explores_empty (hu : R.unbounded = true) (hb : Follows R.size body R.ends)
    (hs : s.position ≤ R.size) (hroom : R.size + 1 - s.position ≤ room)
    (hw : Settled R (R.size + 1) w) (hin : (0,s.position) ∉ w.entered) {before after : List Spot}
    {e : Spot} (hbody : body s = before ++ e :: after) (he : e.position = s.position)
    (hbefore : s.position ∉ before.map Spot.position) :
    SameFirsts (before.map Spot.position ++ s.position :: after.map Spot.position)
        (R.ends s.position) ∧
      Explores R (R.size + 1) ((before.map Spot.position).flatMap R.rest ++ [s.position] ++
        (after.map Spot.position).flatMap (R.onward s.position)) w
          ((body s).foldl (firstStep body R.greedy room s) w) := by
  have hsplit : SameFirsts (before.map Spot.position ++ s.position :: after.map Spot.position)
      (R.ends s.position) := by
    have h := hb s hs
    rwa [hbody,List.map_append,List.map_cons,he] at h
  have hmem : ∀ next ∈ before ++ after, next ∈ body s := by
    intro next hnext
    rw [hbody]
    simp only [List.mem_append,List.mem_cons] at hnext ⊢
    exact hnext.imp_right .inr
  -- what comes before the empty outcome
  have hfirst := explores_foldl (c := R.size - s.position) (P := fun _ => True)
    (fun _ _ => trivial) (f := firstStep body R.greedy room s) (e := R.rest) (l := before)
    (fun next hnext w _ hw => firstStep_onward hu hb hs hroom (Nat.le_refl _) hw
      (hmem next (List.mem_append_left _ hnext))
      (fun h => hbefore (h ▸ List.mem_map_of_mem hnext))) trivial (hw.mono (by omega))
  generalize hv : before.foldl (firstStep body R.greedy room s) w = v at hfirst
  have hrank := rank_head hu s.position
  have hfresh : (0,s.position) ∉ v.entered := by
    intro h
    rcases hfirst.entered _ h with h | h
    · exact hin h
    · omega
  have hempty : firstStep body R.greedy room s v e = (v.enter (0,s.position)).leave e := by
    simp [firstStep,he,hfresh]
  have hleave : Explores R (R.size - s.position) [e.position] (v.enter (0,s.position))
      ((v.enter (0,s.position)).leave e) :=
    (Explores.refl (hfirst.settled.enter (by omega))).leave e
  -- what comes after it; a further empty outcome is passed over
  have hafter := explores_foldl (c := R.size - s.position)
    (P := fun w => (0,s.position) ∈ w.entered) (fun hP he => he.kept _ hP)
    (f := firstStep body R.greedy room s) (e := R.onward s.position) (l := after)
    (w := (v.enter (0,s.position)).leave e)
    (fun next hnext w hP hw => by
      by_cases h : next.position = s.position
      · have hstep : firstStep body R.greedy room s w next = w := by simp [firstStep,h,hP]
        rw [hstep,h,Rounds.onward,if_pos rfl]
        exact .refl hw
      · rw [Rounds.onward,if_neg h]
        exact firstStep_onward hu hb hs hroom (Nat.le_refl _) hw
          (hmem next (List.mem_append_right _ hnext)) h)
    List.mem_cons_self hleave.settled
  have hthrough := hleave.trans hafter
  have hfirst' := hfirst.mono (by omega) hw
  have hsettles := hthrough.of_enter (by omega) (fun x hx => ?_) (hfirst'.settled.mono (by omega))
  · rw [hbody,List.foldl_append,List.foldl_cons,hv,hempty]
    have htotal := hfirst'.trans (hsettles.mono (by omega) hfirst'.settled)
    rw [he,← List.append_assoc] at htotal
    exact ⟨hsplit,htotal⟩
  · rw [hrank] at hx
    rcases Rounds.mem_rest_split hu hs hsplit hbefore hx with h | h | h
    · exact hthrough.mem_stops_of_mem (List.mem_append_left _ (by simp [h,he]))
    · exact hthrough.mem_stops (hfirst.mem_stops_of_mem h)
    · exact hthrough.mem_stops_of_mem (List.mem_append_right _ h)

/-- A first round explores what may follow it. -/
theorem first_explores (hu : R.unbounded = true) (hb : Follows R.size body R.ends)
    (hlast : R.greedy = true → ∀ i ≤ R.size, ComesLast i (R.ends i))
    (hs : s.position ≤ R.size) (hroom : R.size + 1 - s.position ≤ room)
    (hw : Settled R (R.size + 1) w) :
    Explores R (R.size + 1) ((R.ends s.position).flatMap R.rest) w
      (w.first body R.greedy room s) := by
  change Explores R (R.size + 1) _ w ((body s).foldl (firstStep body R.greedy room s) w)
  have hends := hb s hs
  by_cases hin : (0,s.position) ∈ w.entered
  · -- the head was settled, and an empty outcome brings nothing new
    refine (explores_foldl (P := fun w => (0,s.position) ∈ w.entered)
      (fun hP he => he.kept _ hP) (fun next hnext w hP hw => ?_) hin hw).of_sameFirsts
        (hends.flatMap (fun _ _ => .refl _))
    by_cases he : next.position = s.position
    · have hstep : firstStep body R.greedy room s w next = w := by
        simp [firstStep,he,hP]
      have hrank := rank_head hu s.position
      have hsettled := hw _ hP (by omega)
      rw [hrank] at hsettled
      rw [hstep,he]
      exact .skip hw hsettled
    · exact firstStep_onward hu hb hs hroom (by omega) hw hnext he
  · by_cases hempty : s.position ∈ (body s).map Spot.position
    · obtain ⟨l,l',hl,hnot⟩ := List.eq_append_cons_of_mem hempty
      obtain ⟨before,m,hbody,rfl,hm⟩ := List.map_eq_append_iff.mp hl
      obtain ⟨e,after,rfl,he,rfl⟩ := List.map_eq_cons_iff.mp hm
      obtain ⟨hsplit,hexplores⟩ := first_explores_empty hu hb hs hroom hw hin hbody he hnot
      exact hexplores.of_sameFirsts
        (Rounds.rest_split hu hs hsplit hnot (fun hg => hlast hg _ hs)).symm
    · refine (explores_foldl (P := fun _ => True) (fun _ _ => trivial)
        (fun next hnext w _ hw => ?_) trivial hw).of_sameFirsts (hends.flatMap (fun _ _ => .refl _))
      have hne : next.position ≠ s.position :=
        fun he => hempty (he ▸ List.mem_map_of_mem hnext)
      exact firstStep_onward hu hb hs hroom (by omega) hw hnext hne

end Sweep
end Highlight.Regex
