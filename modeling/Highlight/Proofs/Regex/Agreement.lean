import Highlight.Proofs.Regex.Loops
import Highlight.Proofs.Regex.Search

/-!
The plain matcher and backtracking prefer the same end. A plain pattern may be run by either, and it is
where it stands beside patterns that need backtracking.
-/
namespace Highlight.Regex

/-- In a greedy loop without an upper bound, a round that may be empty tries that last. -/
def Pattern.EmptyRoundsLast : Pattern → Prop
  | cat p q | alt p q => p.EmptyRoundsLast ∧ q.EmptyRoundsLast
  | group _ p => p.EmptyRoundsLast
  | loop p _ most greedy => p.EmptyRoundsLast ∧ (most = none → greedy = true →
      ∀ t : Haystack, ∀ i ≤ t.size, ComesLast i (p.ends t i))
  | _ => True

lemma distinctSpots_same (l : List Spot) :
    SameFirsts ((distinctSpots l).map Spot.position) (l.map Spot.position) := by
  have heq : (distinctSpots l).map Spot.position = (l.map Spot.position).eraseDups := by
    induction l with
    | nil => rfl
    | cons s l ih =>
      have hfilter : ((distinctSpots l).filter (·.position != s.position)).map Spot.position =
          ((distinctSpots l).map Spot.position).filter (fun b => !b == s.position) := by
        rw [List.filter_map]
        rfl
      rw [distinctSpots,List.map_cons,List.map_cons,List.eraseDups_cons,hfilter,ih,eraseDups_filter]
  rw [heq]
  exact .eraseDups_self _

lemma thenWays_same (l : List Spot) (g : Spot → List Spot) :
    SameFirsts ((thenWays l g).map Spot.position) ((l.flatMap g).map Spot.position) := by
  unfold thenWays
  split
  · exact .refl _
  · rw [List.flatMap_cons,List.flatMap_nil,List.append_nil]
    exact .refl _
  · exact distinctSpots_same _

/-- A step of positions goes forward and stays within a size. -/
def GoesForward (size : Nat) (e : Nat → List Nat) : Prop :=
  ∀ i ≤ size, ∀ j ∈ e i, i ≤ j ∧ j ≤ size

variable {size : Nat} {g h : Spot → List Spot} {e e' : Nat → List Nat}

lemma GoesForward.flatMap (he : GoesForward size e) (he' : GoesForward size e') :
    GoesForward size (fun i => (e i).flatMap e') := by
  intro i hi k hk
  obtain ⟨j,hj,hk⟩ := List.mem_flatMap.mp hk
  obtain ⟨hij,hjs⟩ := he i hi j hj
  obtain ⟨hjk,hks⟩ := he' j hjs k hk
  exact ⟨Nat.le_trans hij hjk,hks⟩

lemma goesForward_roundRoutes (he : GoesForward size e) (n : Nat) :
    GoesForward size (roundRoutes e n) := by
  induction n with
  | zero =>
    intro i hi j hj
    rw [List.mem_singleton.mp hj]
    exact ⟨Nat.le_refl i,hi⟩
  | succ n ih => exact he.flatMap ih

lemma roundRoutes_succ (e : Nat → List Nat) (n i : Nat) :
    roundRoutes e (n + 1) i = (roundRoutes e n i).flatMap e := by
  induction n generalizing i with
  | zero => simp [roundRoutes]
  | succ n ih =>
    calc roundRoutes e (n + 2) i = (e i).flatMap (roundRoutes e (n + 1)) := rfl
      _ = (e i).flatMap (fun j => (roundRoutes e n j).flatMap e) :=
        List.flatMap_congr (fun j _ => ih j)
      _ = (roundRoutes e (n + 1) i).flatMap e := List.flatMap_assoc.symm

namespace Follows

lemma flatMap_list (hh : Follows size h e') {l : List Spot} (hl : ∀ s ∈ l, s.position ≤ size) :
    SameFirsts ((l.flatMap h).map Spot.position) ((l.map Spot.position).flatMap e') := by
  induction l with
  | nil => exact .refl _
  | cons s l ih =>
    rw [List.flatMap_cons,List.map_append,List.map_cons,List.flatMap_cons]
    exact (hh s (hl s List.mem_cons_self)).append (ih (fun s' hs' => hl s' (List.mem_cons_of_mem s hs')))

lemma position_le (hg : Follows size g e) (he : GoesForward size e) {s r : Spot}
    (hs : s.position ≤ size) (hr : r ∈ g s) : r.position ≤ size :=
  (he s.position hs r.position ((hg s hs).mem_iff.mp (List.mem_map_of_mem hr))).2

lemma thenWays (hg : Follows size g e) (he : GoesForward size e) (hh : Follows size h e') :
    Follows size (fun s => Regex.thenWays (g s) h) (fun i => (e i).flatMap e') := by
  intro s hs
  refine (thenWays_same (g s) h).trans ?_
  exact (hh.flatMap_list (fun r hr => hg.position_le he hs hr)).trans
    ((hg s hs).flatMap (fun _ _ => .refl _))

lemma roundWays (hg : Follows size g e) (he : GoesForward size e) (n : Nat) :
    Follows size (Regex.roundWays g n) (roundRoutes e n) := by
  induction n with
  | zero => exact fun s _ => .refl _
  | succ n ih =>
    intro s hs
    rw [roundRoutes_succ]
    exact ih.thenWays (goesForward_roundRoutes he n) hg s hs

end Follows

lemma Sweep.results_same (w : Sweep) : SameFirsts (w.results.map Spot.position) w.stops := by
  rw [stops,← List.map_reverse]
  exact distinctSpots_same _

lemma Sweep.settled_nil (R : Rounds) (c : Nat) : Settled R c {} := by
  intro x hx
  cases hx

/-- A loop with an upper bound leads where rounds one after the other do. -/
theorem loopWays_some_follow (hg : Follows size g e) (he : GoesForward size e) (least most room : Nat)
    (greedy : Bool) : Follows size (loopWays g least (some most) greedy room)
      (fun i => (roundRoutes e least i).flatMap (moreRoutes id e greedy false (most - least))) := by
  intro s hs
  let R : Rounds := ⟨size,e,greedy,false,he⟩
  have hsweep : Follows size (fun s => (Sweep.run g greedy false (most - least) s {}).results)
      (R.more (most - least)) := by
    intro s hs
    have hrun := Sweep.run_explores (R := R) hg (most - least) (s := s) (w := {})
      ⟨hs,fun h => by cases h⟩ (Sweep.settled_nil R _)
    exact (Sweep.results_same _).trans hrun.stops
  simp only [loopWays]
  exact (hg.roundWays he least).thenWays (goesForward_roundRoutes he least) hsweep s hs
/-- A loop without an upper bound leads where rounds one after the other do. -/
theorem loopWays_none_follow (hg : Follows size g e) (he : GoesForward size e) (least : Nat)
    {greedy : Bool} (hlast : greedy = true → ∀ i ≤ size, ComesLast i (e i)) :
    Follows size (fun s => loopWays g least none greedy (size + 1 - s.position) s)
      (fun i => (roundRoutes e least i).flatMap
        (fun j => moreRoutes id e greedy true (size + 1 - j) j)) := by
  intro s hs
  let R : Rounds := ⟨size,e,greedy,true,he⟩
  have hstarts := hg.roundWays he (least - 1)
  have hfirst : ∀ s' ∈ roundWays g (least - 1) s, ∀ w : Sweep, True → Sweep.Settled R (size + 1) w →
      Sweep.Explores R (size + 1) ((e s'.position).flatMap R.rest) w
        (w.first g greedy (size + 1 - s.position) s') := by
    intro s' hs' w _ hw
    have hmem := (hstarts s hs).mem_iff.mp (List.mem_map_of_mem hs')
    obtain ⟨hle,hsize⟩ := goesForward_roundRoutes he (least - 1) _ hs _ hmem
    have hroom : size + 1 - s'.position ≤ size + 1 - s.position := by omega
    exact Sweep.first_explores (R := R) rfl hg hlast hsize hroom hw
  have hswept := Sweep.explores_foldl (P := fun _ => True) (e := fun j => (e j).flatMap R.rest)
    (f := fun w s' => w.first g greedy (size + 1 - s.position) s') (fun _ _ => trivial) hfirst
    trivial (Sweep.settled_nil R _)
  generalize hw : (roundWays g (least - 1) s).foldl
    (fun (w : Sweep) s' => w.first g greedy (size + 1 - s.position) s') {} = w at hswept
  have hresults : SameFirsts (w.results.map Spot.position)
      ((roundRoutes e (least - 1) s.position).flatMap (fun j => (e j).flatMap R.rest)) :=
    w.results_same.trans (hswept.stops.trans ((hstarts s hs).flatMap (fun _ _ => .refl _)))
  change SameFirsts _ ((roundRoutes e least s.position).flatMap R.rest)
  simp only [loopWays,hw]
  cases least with
  | succ least =>
    rw [if_pos (Nat.succ_pos least),roundRoutes_succ,List.flatMap_assoc]
    exact hresults
  | zero =>
    have hrest := R.rest_first rfl hs (fun hgreedy => hlast hgreedy _ hs)
    have hloop : SameFirsts (w.results.map Spot.position) ((e s.position).flatMap R.rest) := by
      simpa [roundRoutes] using hresults
    rw [if_neg (Nat.lt_irrefl 0)]
    simp only [roundRoutes,List.flatMap_cons,List.flatMap_nil,List.append_nil]
    cases greedy with
    | true =>
      refine (distinctSpots_same _).trans (SameFirsts.trans ?_ hrest)
      rw [List.map_append]
      exact hloop.append (.refl _)
    | false =>
      exact (distinctSpots_same _).trans (((SameFirsts.refl [s.position]).append hloop).trans hrest)

/-- A plain pattern leads the plain matcher where backtracking would lead it. -/
theorem ways_follow (t : Haystack) {referenced : List Nat} {p : Pattern}
    (h : p.isPlain referenced = true) (ho : p.boundsOrdered = true) (hl : p.EmptyRoundsLast) :
    Follows t.size (p.ways t) (p.ends t) := by
  induction p with
  | empty => exact fun s _ => .refl _
  | set cs =>
    intro s _
    rw [← routes_project t h s]
    exact .refl _
  | assert a =>
    intro s _
    rw [← routes_project t h s]
    exact .refl _
  | cat p q hp hq =>
    obtain ⟨h1,h2⟩ := Bool.and_eq_true_iff.mp h
    obtain ⟨o1,o2⟩ := Bool.and_eq_true_iff.mp ho
    exact (hp h1 o1 hl.1).thenWays (fun i hi j hj => ends_bounds t h1 hi hj) (hq h2 o2 hl.2)
  | alt p q hp hq =>
    obtain ⟨h1,h2⟩ := Bool.and_eq_true_iff.mp h
    obtain ⟨o1,o2⟩ := Bool.and_eq_true_iff.mp ho
    intro s hs
    have hboth := (hp h1 o1 hl.1 s hs).append (hq h2 o2 hl.2 s hs)
    rw [← List.map_append] at hboth
    simp only [Pattern.ways]
    split
    · rename_i hnil
      rwa [hnil] at hboth
    · exact (distinctSpots_same _).trans hboth
  | group n p hp =>
    intro s hs
    simp only [Pattern.ways,Pattern.ends,List.map_map]
    exact hp (Bool.and_eq_true_iff.mp h).2 ho hl (s.openGroup n) hs
  | loop p least most greedy hp =>
    obtain ⟨o1,o2⟩ := Bool.and_eq_true_iff.mp ho
    have hp' : p.isPlain referenced = true := h
    have hbody := hp hp' o1 hl.1
    have hforward : GoesForward t.size (p.ends t) := fun i hi j hj => ends_bounds t hp' hi hj
    cases most with
    | some most =>
      have hle : least ≤ most := by simpa using o2
      intro s hs
      simp only [Pattern.ends,Nat.min_eq_left hle]
      exact loopWays_some_follow hbody hforward least most _ greedy s hs
    | none => exact loopWays_none_follow hbody hforward least (fun hg => hl.2 rfl hg t)
  | look _ _ _ _ => cases h
  | backref _ => cases h
  | atomic _ _ => cases h

/-- Both matchers prefer the same end. -/
theorem head_ways_eq_head_routes (t : Haystack) {referenced : List Nat} {p : Pattern}
    (h : p.isPlain referenced = true) (ho : p.boundsOrdered = true) (hl : p.EmptyRoundsLast)
    {s : Spot} (hs : s.position ≤ t.size) :
    (p.ways t s).head?.map Spot.position = (p.routes t s).head?.map Spot.position := by
  have hhead := (ways_follow t h ho hl s hs).head?
  rw [← routes_project t h s] at hhead
  rwa [List.head?_map,List.head?_map] at hhead

namespace Pattern

/-- Whether each match takes at least one character. Loops are left out. -/
def consumes : Pattern → Bool
  | set _ => true
  | cat p q => p.consumes || q.consumes
  | alt p q => p.consumes && q.consumes
  | group _ p => p.consumes
  | _ => false

lemma lt_of_consumes (t : Haystack) {referenced : List Nat} {p : Pattern}
    (h : p.isPlain referenced = true) (hc : p.consumes = true) {i j : Nat} (hi : i ≤ t.size)
    (hj : j ∈ p.ends t i) : i < j := by
  induction p generalizing i j with
  | set cs =>
    simp only [ends] at hj
    split at hj
    · split at hj
      · rw [List.mem_singleton.mp hj]
        exact Nat.lt_succ_self i
      · cases hj
    · cases hj
  | cat p q hp hq =>
    obtain ⟨h1,h2⟩ := Bool.and_eq_true_iff.mp h
    obtain ⟨k,hk,hj⟩ := List.mem_flatMap.mp hj
    obtain ⟨hik,hks⟩ := ends_bounds t h1 hi hk
    obtain ⟨hkj,-⟩ := ends_bounds t h2 hks hj
    rcases Bool.or_eq_true_iff.mp hc with hc | hc
    · exact Nat.lt_of_lt_of_le (hp h1 hc hi hk) hkj
    · exact Nat.lt_of_le_of_lt hik (hq h2 hc hks hj)
  | alt p q hp hq =>
    obtain ⟨h1,h2⟩ := Bool.and_eq_true_iff.mp h
    obtain ⟨hc1,hc2⟩ := Bool.and_eq_true_iff.mp hc
    rcases List.mem_append.mp hj with hj | hj
    · exact hp h1 hc1 hi hj
    · exact hq h2 hc2 hi hj
  | group n p hp => exact hp (Bool.and_eq_true_iff.mp h).2 hc hi hj
  | _ => cases hc

/-- Whether each round of a greedy loop without an upper bound takes at least one character. -/
def roundsConsume : Pattern → Bool
  | cat p q | alt p q => p.roundsConsume && q.roundsConsume
  | group _ p => p.roundsConsume
  | loop p _ most greedy => p.roundsConsume && (most.isSome || !greedy || p.consumes)
  | _ => true

lemma comesLast_of_not_mem {i : Nat} {l : List Nat} (h : i ∉ l) : ComesLast i l := by
  refine List.pairwise_of_forall_mem_list (fun j hj _ _ hij => h ?_)
  rw [← hij]
  exact List.mem_eraseDups.mp hj

/-- A round that takes a character is never empty. -/
theorem emptyRoundsLast_of_roundsConsume {referenced : List Nat} {p : Pattern}
    (h : p.isPlain referenced = true) (hr : p.roundsConsume = true) : p.EmptyRoundsLast := by
  induction p with
  | cat p q hp hq | alt p q hp hq =>
    obtain ⟨h1,h2⟩ := Bool.and_eq_true_iff.mp h
    obtain ⟨hr1,hr2⟩ := Bool.and_eq_true_iff.mp hr
    exact ⟨hp h1 hr1,hq h2 hr2⟩
  | group n p hp => exact hp (Bool.and_eq_true_iff.mp h).2 hr
  | loop p least most greedy hp =>
    have hplain : p.isPlain referenced = true := h
    obtain ⟨hr1,hr2⟩ := Bool.and_eq_true_iff.mp hr
    refine ⟨hp hplain hr1,fun hm hg t i hi => comesLast_of_not_mem (fun hin => ?_)⟩
    rw [hm,hg] at hr2
    exact Nat.lt_irrefl i (lt_of_consumes t hplain hr2 hi hin)
  | _ => trivial

end Pattern

/-- A plain regex with ordered bounds and no empty rounds. What it finds depends on the ends of its pattern
alone. -/
structure Orderly (r : Regex) : Prop where
  plain : r.plain = true
  isPlain : ∃ referenced, r.pattern.isPlain referenced = true
  ordered : r.pattern.boundsOrdered = true
  rounds : r.pattern.roundsConsume = true

namespace Orderly

variable {r : Regex} {text : Source} {start q j : Nat}

lemma preferred_position (h : r.Orderly) {t : Haystack} {i : Nat} (hi : i ≤ t.size) :
    (r.preferred t i).map Spot.position = (r.pattern.ends t i).head? := by
  obtain ⟨referenced,hp⟩ := h.isPlain
  rw [preferred,if_pos h.plain,← routes_project t hp { position := i },List.head?_map]
  exact head_ways_eq_head_routes t hp h.ordered (Pattern.emptyRoundsLast_of_roundsConsume hp h.rounds) hi

lemma preferred_eq_none (h : r.Orderly) (hq : q ≤ text.size) (hnone : r.pattern.ends { text } q = []) :
    r.preferred { text } q = none := by
  have hposition := h.preferred_position (t := { text }) hq
  rw [hnone] at hposition
  exact Option.map_eq_none_iff.mp hposition

/-- A plain regex does not give up. -/
lemma exists_find (h : r.Orderly) (text : Source) (start : Nat) : ∃ found, r.find text start = .ok found ∧
    IsLeftmost (r.preferred { text }) start (text.size + 1 - start) found := by
  have hsearch : r.search { text } start = .ok (searchPlain r.pattern { text } (text.size + 1 - start) start) := by
    rw [search,if_pos h.plain]
    rfl
  exact ⟨_,hsearch,search_isLeftmost hsearch⟩

lemma find_eq_none (h : r.Orderly)
    (hnone : ∀ k, start ≤ k → k ≤ text.size → r.pattern.ends { text } k = []) : r.find text start = .ok none := by
  obtain ⟨found,hfind,hleftmost⟩ := h.exists_find text start
  cases found with
  | none => exact hfind
  | some f =>
    obtain ⟨hstart,hlt,hlast,-⟩ := hleftmost
    rw [h.preferred_eq_none (by omega) (hnone f.start hstart (by omega))] at hlast
    cases hlast

/-- The first position where the pattern ends at all is found, with the first of its ends. -/
lemma exists_find_eq_some (h : r.Orderly) (hq : start ≤ q) (hsize : q ≤ text.size)
    (hnone : ∀ k, start ≤ k → k < q → r.pattern.ends { text } k = [])
    (hends : (r.pattern.ends { text } q).head? = some j) :
    ∃ f, r.find text start = .ok (some f) ∧ f.start = q ∧ f.stop = j := by
  obtain ⟨last,hlast,hstopped⟩ := Option.map_eq_some_iff.mp ((h.preferred_position (t := { text }) hsize).trans hends)
  obtain ⟨found,hfind,hleftmost⟩ := h.exists_find text start
  cases found with
  | none =>
    rw [hleftmost q hq (by omega)] at hlast
    cases hlast
  | some f =>
    obtain ⟨h1,h2,h3,h4⟩ := hleftmost
    rcases Nat.lt_trichotomy f.start q with hbefore | heq | hafter
    · rw [h.preferred_eq_none (by omega) (hnone f.start h1 hbefore)] at h3
      cases h3
    · rw [heq,hlast] at h3
      refine ⟨f,hfind,heq,?_⟩
      rw [Found.stop,← Option.some.inj h3,hstopped]
    · rw [h4 q hq hafter] at hlast
      cases hlast

end Orderly

end Highlight.Regex
