import Highlight.Proofs.Regex.Alternatives

/-!
Where a plain pattern leads at all. Both matchers reach the same positions with it, also where they
prefer different ones because a round of a loop was empty. So it makes no difference to whether a plain
pattern matches that it stands beside patterns that need backtracking.
-/
namespace Highlight.Regex

variable {t : Haystack} {referenced : List Nat} {p : Pattern}

/-- Spots at one position, whatever their groups. -/
def Spot.Beside (s s' : Spot) : Prop := s'.position = s.position

/-- What a plain pattern leads to depends on the position alone. -/
lemma ways_beside (h : p.isPlain referenced = true) :
    StepRelates Spot.Beside (p.ways t) (p.ways t) := by
  have hT : ∀ {s s'}, Spot.Beside s s' → s'.position = s.position := id
  induction p with
  | empty => exact fun s s' hs => .cons hs .nil
  | set cs =>
    intro s s' hs
    simp only [Pattern.ways,hT hs]
    split
    · split
      · exact .cons (congrArg (· + 1) hs) .nil
      · exact .nil
    · exact .nil
  | assert a =>
    intro s s' hs
    simp only [Pattern.ways,hT hs]
    split
    · exact .cons hs .nil
    · exact .nil
  | cat p q hp hq =>
    obtain ⟨h1,h2⟩ := Bool.and_eq_true_iff.mp h
    exact fun s s' hs => thenWays_relates hT (hp h1 s s' hs) (hq h2)
  | alt p q hp hq =>
    obtain ⟨h1,h2⟩ := Bool.and_eq_true_iff.mp h
    intro s s' hs
    have hl := hp h1 s s' hs
    simp only [Pattern.ways]
    generalize p.ways t s = l, p.ways t s' = l' at hl
    cases hl with
    | nil => exact hq h2 s s' hs
    | cons ha hl => exact distinctSpots_relates hT (List.rel_append (.cons ha hl) (hq h2 s s' hs))
  | group n p hp =>
    intro s s' hs
    rw [Pattern.ways,Pattern.ways,List.forall₂_map_left_iff,List.forall₂_map_right_iff]
    exact hp (Bool.and_eq_true_iff.mp h).2 (s.openGroup n) (s'.openGroup n) hs
  | loop p least most greedy hp =>
    intro s s' hs
    simp only [Pattern.ways,hT hs]
    exact loopWays_relates hT (hp h) least most greedy _ s s' hs
  | look _ _ _ _ => cases h
  | backref _ => cases h
  | atomic _ _ => cases h

/-- The positions that the plain matcher reaches from a position, the preferred one first. -/
def Pattern.stops (t : Haystack) (p : Pattern) (i : Nat) : List Nat :=
  (p.ways t { position := i }).map Spot.position

lemma ways_project (h : p.isPlain referenced = true) : Projects (p.ways t) (p.stops t) := by
  intro s
  have hsame := ways_beside (t := t) h { position := s.position } s rfl
  rw [Pattern.stops]
  generalize p.ways t { position := s.position } = l, p.ways t s = l' at hsame
  induction hsame with
  | nil => rfl
  | cons ha _ ih => rw [List.map_cons,List.map_cons,ih,ha]

lemma ways_follow_stops (h : p.isPlain referenced = true) :
    Follows t.size (p.ways t) (p.stops t) := by
  intro s _
  rw [ways_project h s]
  exact .refl _

/-- Steps of positions that lead to the same ones, in whatever order. -/
def Meets (size : Nat) (e e' : Nat → List Nat) : Prop := ∀ i ≤ size, ∀ j, j ∈ e i ↔ j ∈ e' i

namespace Meets

variable {size : Nat} {e e' f f' : Nat → List Nat}

lemma goesForward (h : Meets size e e') (he' : GoesForward size e') : GoesForward size e :=
  fun i hi j hj => he' i hi j ((h i hi j).mp hj)

lemma flatMap (h : Meets size e e') (he : GoesForward size e) (hf : Meets size f f') :
    Meets size (fun i => (e i).flatMap f) (fun i => (e' i).flatMap f') := by
  intro i hi k
  rw [List.mem_flatMap,List.mem_flatMap]
  constructor
  · rintro ⟨j,hj,hk⟩
    exact ⟨j,(h i hi j).mp hj,(hf j (he i hi j hj).2 k).mp hk⟩
  · rintro ⟨j,hj,hk⟩
    have hj' := (h i hi j).mpr hj
    exact ⟨j,hj',(hf j (he i hi j hj').2 k).mpr hk⟩

lemma roundRoutes (h : Meets size e e') (he : GoesForward size e) (n : Nat) :
    Meets size (Regex.roundRoutes e n) (Regex.roundRoutes e' n) := by
  induction n with
  | zero => exact fun _ _ _ => Iff.rfl
  | succ n ih => exact h.flatMap he ih

lemma moreRoutes (h : Meets size e e') (he : GoesForward size e) (greedy unbounded : Bool) (n : Nat) :
    Meets size (Regex.moreRoutes id e greedy unbounded n)
      (Regex.moreRoutes id e' greedy unbounded n) := by
  induction n with
  | zero => exact fun _ _ _ => Iff.rfl
  | succ n ih =>
    intro i hi k
    have hagain : Meets size
        (fun i => (e i).flatMap (fun j => if unbounded && j == i then []
          else Regex.moreRoutes id e greedy unbounded n j))
        (fun i => (e' i).flatMap (fun j => if unbounded && j == i then []
          else Regex.moreRoutes id e' greedy unbounded n j)) := by
      intro i hi
      refine h.flatMap he (fun j hj k => ?_) i hi
      split
      · exact Iff.rfl
      · exact ih j hj k
    have hk := hagain i hi k
    cases greedy with
    | true =>
      rw [Regex.moreRoutes,Regex.moreRoutes,if_pos rfl,if_pos rfl,List.mem_append,List.mem_append]
      exact or_congr hk Iff.rfl
    | false =>
      rw [Regex.moreRoutes,Regex.moreRoutes,if_neg Bool.false_ne_true,if_neg Bool.false_ne_true,
        List.mem_cons,List.mem_cons]
      exact or_congr Iff.rfl hk

end Meets

namespace Rounds

variable {R : Rounds} {i : Nat} {before after : List Nat}

/-- Though the loop is left at once after a first round that was empty, nothing is lost: what more
rounds would lead to, the other outcomes of the first round lead to as well. -/
lemma mem_split_iff (hu : R.unbounded = true) (hi : i ≤ R.size)
    (hl : SameFirsts (before ++ i :: after) (R.ends i)) (hb : i ∉ before) {x : Nat} :
    x ∈ before.flatMap R.rest ++ [i] ++ after.flatMap (R.onward i) ↔
      x ∈ (R.ends i).flatMap R.rest := by
  have hmem : ∀ j, j ∈ before ++ i :: after ↔ j ∈ R.ends i := fun j => hl.mem_iff
  have hhere : i ∈ R.rest i := by
    rw [rest_eq hu hi]
    split
    · exact List.mem_append_right _ (List.mem_singleton_self i)
    · exact List.mem_cons_self
  simp only [List.mem_append,List.mem_singleton,List.mem_flatMap]
  constructor
  · rintro ((⟨j,hj,hx⟩ | rfl) | ⟨j,hj,hx⟩)
    · exact ⟨j,(hmem j).mp (List.mem_append_left _ hj),hx⟩
    · exact ⟨x,(hmem x).mp (List.mem_append_right _ List.mem_cons_self),hhere⟩
    · rw [onward] at hx
      split at hx
      · cases hx
      · exact ⟨j,(hmem j).mp (List.mem_append_right _ (List.mem_cons_of_mem i hj)),hx⟩
  · rintro ⟨j,hj,hx⟩
    by_cases hji : j = i
    · subst hji
      rcases mem_rest_split hu hi hl hb hx with h | h | h
      · exact .inl (.inr h)
      · exact .inl (.inl (List.mem_flatMap.mp h))
      · exact .inr (List.mem_flatMap.mp h)
    · rcases List.mem_append.mp ((hmem j).mpr hj) with hj | hj
      · exact .inl (.inl ⟨j,hj,hx⟩)
      · refine .inr ⟨j,(List.mem_cons.mp hj).resolve_left hji,?_⟩
        rwa [onward,if_neg hji]

/-- A loop that asks for no round may also be left at once. -/
lemma mem_rest_first_iff (hu : R.unbounded = true) (hi : i ≤ R.size) {x : Nat} :
    x ∈ (R.ends i).flatMap R.rest ∨ x = i ↔ x ∈ R.rest i := by
  have hrest : x ∈ R.rest i ↔ x ∈ (R.ends i).flatMap (R.onward i) ∨ x = i := by
    rw [rest_eq hu hi]
    split
    · rw [List.mem_append,List.mem_singleton]
    · rw [List.mem_cons,or_comm]
  rw [hrest]
  simp only [List.mem_flatMap,onward]
  constructor
  · rintro (⟨j,hj,hx⟩ | rfl)
    · by_cases hji : j = i
      · subst hji
        exact (hrest.mp hx).imp_left List.mem_flatMap.mp
      · exact .inl ⟨j,hj,by rwa [if_neg hji]⟩
    · exact .inr rfl
  · rintro (⟨j,hj,hx⟩ | rfl)
    · split at hx
      · cases hx
      · exact .inl ⟨j,hj,hx⟩
    · exact .inr rfl

end Rounds

namespace Sweep

variable {R : Rounds} {body : Spot → List Spot} {s : Spot} {room c : Nat} {w : Sweep}

/-- From one state of a sweep to another the positions of a list were found, in whatever order. -/
def Finds (R : Rounds) (c : Nat) (l : List Nat) (w w' : Sweep) : Prop :=
  ∃ m, Explores R c m w w' ∧ ∀ x, x ∈ m ↔ x ∈ l

lemma finds_foldl {f : Sweep → Spot → Sweep} {e : Nat → List Nat} {l : List Spot}
    (hf : ∀ s ∈ l, ∀ w, Settled R c w → Finds R c (e s.position) w (f w s)) (hs : Settled R c w) :
    Finds R c ((l.map Spot.position).flatMap e) w (l.foldl f w) := by
  induction l generalizing w with
  | nil => exact ⟨[],.refl hs,fun _ => Iff.rfl⟩
  | cons s l ih =>
    obtain ⟨m,hm,hmem⟩ := hf s List.mem_cons_self w hs
    obtain ⟨m',hm',hmem'⟩ := ih (fun s' hs' => hf s' (List.mem_cons_of_mem s hs')) hm.settled
    refine ⟨m ++ m',hm.trans hm',fun x => ?_⟩
    rw [List.map_cons,List.flatMap_cons,List.mem_append,List.mem_append,hmem,hmem']

/-- A first round finds all that may follow it, whether or not an empty outcome comes last. -/
lemma first_finds (hu : R.unbounded = true) (hb : Follows R.size body R.ends)
    (hs : s.position ≤ R.size) (hroom : R.size + 1 - s.position ≤ room)
    (hw : Settled R (R.size + 1) w) : Finds R (R.size + 1) ((R.ends s.position).flatMap R.rest) w
      (w.first body R.greedy room s) := by
  have hmem : ∀ x, x ∈ ((body s).map Spot.position).flatMap R.rest ↔
      x ∈ (R.ends s.position).flatMap R.rest :=
    fun x => ((hb s hs).flatMap (fun _ _ => .refl _)).mem_iff
  by_cases hfresh : (0,s.position) ∉ w.entered ∧ s.position ∈ (body s).map Spot.position
  · obtain ⟨hin,hempty⟩ := hfresh
    obtain ⟨l,l',hl,hnot⟩ := List.eq_append_cons_of_mem hempty
    obtain ⟨before,m,hbody,rfl,hm⟩ := List.map_eq_append_iff.mp hl
    obtain ⟨e,after,rfl,he,rfl⟩ := List.map_eq_cons_iff.mp hm
    obtain ⟨hsplit,hexplores⟩ := first_explores_empty hu hb hs hroom hw hin hbody he hnot
    exact ⟨_,hexplores,fun x => Rounds.mem_split_iff hu hs hsplit hnot⟩
  · -- no outcome is empty, or the head was entered before and stays so
    refine ⟨_,explores_foldl (f := firstStep body R.greedy room s)
      (P := fun w => (0,s.position) ∉ w.entered → s.position ∉ (body s).map Spot.position)
      (fun hP he hnot => hP (fun h => hnot (he.kept _ h))) (fun next hnext w hP hw => ?_)
      (fun hin hempty => hfresh ⟨hin,hempty⟩) hw,hmem⟩
    by_cases he : next.position = s.position
    · have hin : (0,s.position) ∈ w.entered := by
        by_contra hin
        exact hP hin (he ▸ List.mem_map_of_mem hnext)
      have hstep : firstStep body R.greedy room s w next = w := by simp [firstStep,he,hin]
      have hrank := rank_head hu s.position
      have hsettled := hw _ hin (by omega)
      rw [hrank] at hsettled
      rw [hstep,he]
      exact .skip hw hsettled
    · exact firstStep_onward hu hb hs hroom (by omega) hw hnext he

end Sweep

section Loops

variable {size : Nat} {g : Spot → List Spot} {e : Nat → List Nat}

/-- A loop without an upper bound leads to the positions that rounds one after the other lead to. -/
theorem mem_loopWays_none_iff (hg : Follows size g e) (he : GoesForward size e) (least : Nat)
    (greedy : Bool) {s : Spot} (hs : s.position ≤ size) (x : Nat) :
    x ∈ (loopWays g least none greedy (size + 1 - s.position) s).map Spot.position ↔
      x ∈ (roundRoutes e least s.position).flatMap
        (fun j => moreRoutes id e greedy true (size + 1 - j) j) := by
  let R : Rounds := ⟨size,e,greedy,true,he⟩
  have hstarts := hg.roundWays he (least - 1)
  have hfirst : ∀ s' ∈ roundWays g (least - 1) s, ∀ w : Sweep, Sweep.Settled R (size + 1) w →
      Sweep.Finds R (size + 1) ((e s'.position).flatMap R.rest) w
        (w.first g greedy (size + 1 - s.position) s') := by
    intro s' hs' w hw
    have hmem := (hstarts s hs).mem_iff.mp (List.mem_map_of_mem hs')
    obtain ⟨hle,hsize⟩ := goesForward_roundRoutes he (least - 1) _ hs _ hmem
    have hroom : size + 1 - s'.position ≤ size + 1 - s.position := by omega
    exact Sweep.first_finds (R := R) rfl hg hsize hroom hw
  obtain ⟨m,hm,hmem⟩ := Sweep.finds_foldl (e := fun j => (e j).flatMap R.rest)
    (f := fun w s' => w.first g greedy (size + 1 - s.position) s') hfirst (Sweep.settled_nil R _)
  generalize hw : (roundWays g (least - 1) s).foldl
    (fun (w : Sweep) s' => w.first g greedy (size + 1 - s.position) s') {} = w at hm
  have hresults : ∀ x, x ∈ w.results.map Spot.position ↔
      x ∈ (roundRoutes e (least - 1) s.position).flatMap (fun j => (e j).flatMap R.rest) :=
    fun x => (w.results_same.trans hm.stops).mem_iff.trans ((hmem x).trans
      ((hstarts s hs).flatMap (fun _ _ => .refl _)).mem_iff)
  change _ ↔ x ∈ (roundRoutes e least s.position).flatMap R.rest
  simp only [loopWays,hw]
  cases least with
  | succ least =>
    rw [if_pos (Nat.succ_pos least),roundRoutes_succ,List.flatMap_assoc]
    exact hresults x
  | zero =>
    have hloop : x ∈ w.results.map Spot.position ↔ x ∈ (e s.position).flatMap R.rest := by
      simpa [roundRoutes] using hresults x
    have hrest : x ∈ (e s.position).flatMap R.rest ∨ x = s.position ↔ x ∈ R.rest s.position :=
      R.mem_rest_first_iff rfl hs
    simp only [roundRoutes,List.flatMap_cons,List.flatMap_nil,List.append_nil]
    rw [if_neg (Nat.lt_irrefl 0),← hrest,← hloop]
    cases greedy with
    | true =>
      rw [if_pos rfl,(distinctSpots_same _).mem_iff,List.map_append,List.mem_append]
      exact or_congr Iff.rfl List.mem_singleton
    | false =>
      rw [if_neg Bool.false_ne_true,(distinctSpots_same _).mem_iff,List.map_cons,List.mem_cons]
      exact or_comm

end Loops

/-- A plain pattern leads the plain matcher to the positions that backtracking leads it to. -/
theorem ways_meet (t : Haystack) (h : p.isPlain referenced = true) (ho : p.boundsOrdered = true) :
    Meets t.size (p.stops t) (p.ends t) := by
  have hbounds : ∀ {q : Pattern}, q.isPlain referenced = true → GoesForward t.size (q.ends t) :=
    fun hq i hi j hj => ends_bounds t hq hi hj
  induction p with
  | empty => exact fun _ _ _ => Iff.rfl
  | set cs =>
    intro i _ j
    rw [← routes_project t h { position := i }]
    exact Iff.rfl
  | assert a =>
    intro i _ j
    rw [← routes_project t h { position := i }]
    exact Iff.rfl
  | cat p q hp hq =>
    obtain ⟨h1,h2⟩ := Bool.and_eq_true_iff.mp h
    obtain ⟨o1,o2⟩ := Bool.and_eq_true_iff.mp ho
    have hmeet := hp h1 o1
    intro i hi j
    have hthen := (ways_follow_stops (t := t) h1).thenWays (hmeet.goesForward (hbounds h1))
      (ways_follow_stops h2) { position := i } hi
    exact hthen.mem_iff.trans (hmeet.flatMap (hmeet.goesForward (hbounds h1)) (hq h2 o2) i hi j)
  | alt p q hp hq =>
    obtain ⟨h1,h2⟩ := Bool.and_eq_true_iff.mp h
    obtain ⟨o1,o2⟩ := Bool.and_eq_true_iff.mp ho
    intro i hi j
    have hboth : j ∈ (Pattern.alt p q).stops t i ↔ j ∈ p.stops t i ++ q.stops t i := by
      simp only [Pattern.stops,Pattern.ways]
      split
      · rename_i hnil
        rw [hnil]
        exact Iff.rfl
      · rw [(distinctSpots_same _).mem_iff,List.map_append]
    rw [hboth,List.mem_append,hp h1 o1 i hi j,hq h2 o2 i hi j]
    exact List.mem_append.symm
  | group n p hp =>
    have hplain := (Bool.and_eq_true_iff.mp h).2
    intro i hi j
    have hsame : (Pattern.group n p).stops t i = p.stops t i := by
      simp only [Pattern.stops,Pattern.ways,List.map_map]
      exact ways_project (t := t) hplain (({ position := i } : Spot).openGroup n)
    rw [hsame]
    exact hp hplain ho i hi j
  | loop p least most greedy hp =>
    obtain ⟨o1,o2⟩ := Bool.and_eq_true_iff.mp ho
    have hplain : p.isPlain referenced = true := h
    have hmeet := hp hplain o1
    have hforward := hmeet.goesForward (hbounds hplain)
    have hbody := ways_follow_stops (t := t) hplain
    cases most with
    | some most =>
      have hle : least ≤ most := by simpa using o2
      intro i hi j
      simp only [Pattern.ends,Nat.min_eq_left hle]
      have hloop := loopWays_some_follow hbody hforward least most (t.size + 1 - i) greedy
        { position := i } hi
      exact hloop.mem_iff.trans ((hmeet.roundRoutes hforward least).flatMap
        (goesForward_roundRoutes hforward least) (hmeet.moreRoutes hforward greedy false _) i hi j)
    | none =>
      intro i hi j
      refine (mem_loopWays_none_iff hbody hforward least greedy (s := { position := i }) hi j).trans ?_
      exact (hmeet.roundRoutes hforward least).flatMap (goesForward_roundRoutes hforward least)
        (fun k hk => hmeet.moreRoutes hforward greedy true (t.size + 1 - k) k hk) i hi j
  | look _ _ _ _ => cases h
  | backref _ => cases h
  | atomic _ _ => cases h

/-- Whether a plain pattern matches does not depend on the matcher that runs it. -/
theorem lead?_isSome_of_isPlain (h : p.isPlain referenced = true) (ho : p.boundsOrdered = true)
    {s : Spot} (hs : s.position ≤ t.size) (plain plain' : Bool) :
    (p.lead? plain t s).isSome = (p.lead? plain' t s).isSome := by
  have hsame : (p.ways t s).isEmpty = (p.routes t s).isEmpty := by
    have hmem := ways_meet t h ho s.position hs
    rw [← ways_project h s,← routes_project t h s] at hmem
    rw [Bool.eq_iff_iff,List.isEmpty_iff,List.isEmpty_iff,← List.map_eq_nil_iff (f := Spot.position),
      ← List.map_eq_nil_iff (f := Spot.position) (l := p.routes t s),
      List.eq_nil_iff_forall_not_mem,List.eq_nil_iff_forall_not_mem]
    exact forall_congr' (fun j => not_congr (hmem j))
  have hleads : ∀ plain, (p.lead? plain t s).isSome = !(p.routes t s).isEmpty := by
    intro plain
    have hhead : ∀ l : List Spot, l.head?.isSome = !l.isEmpty := fun l => by cases l <;> rfl
    rw [Pattern.lead?,hhead,← hsame]
    cases plain with
    | true => rfl
    | false => exact congrArg Bool.not hsame.symm
  rw [hleads plain,hleads plain']

end Highlight.Regex
