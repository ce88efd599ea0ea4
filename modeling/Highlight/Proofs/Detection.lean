import Highlight.Proofs.Calls
import Highlight.Proofs.Except
import Highlight.Proofs.Scan.Steady
import Mathlib.Data.List.Induction
import Mathlib.Data.List.Sort

/-!
Detection ranks results: sort those that score by their relevance, and the first two are the winner
and the runner-up. Keeping the best two while the results come in amounts to that, since to insert
each of them behind its equals is to sort them stably.
-/
namespace Highlight

namespace Ranking

/-- Whether the first of two results belongs ahead of the second, or beside it. -/
def atLeast (a b : Result) : Bool := decide (b.relevance ≤ a.relevance)

/-- Whether the first of two results belongs strictly ahead. -/
def above (a b : Result) : Bool := decide (b.relevance < a.relevance)

/-- The results that score, best first. Results of the same relevance stay in their order. -/
def sorted (results : List Result) : List Result :=
  (results.filter (fun r => decide (0 < r.relevance))).mergeSort atLeast

/-- The first two of a list. -/
def ofList (l : List Result) : Ranking := { best := l[0]?, second := l[1]? }

/-- Put a result behind the last one that it does not beat. -/
abbrev insertBehind (r : Result) (l : List Result) : List Result :=
  l.orderedInsert (fun a b => above a b) r

/-- Put a result ahead of the first one that does not beat it. -/
abbrev insertAhead (r : Result) (l : List Result) : List Result :=
  l.orderedInsert (fun a b => atLeast a b) r

variable {r r' : Result} {l : List Result}

/-- Of a list only the first two matter, also once another result comes in. -/
lemma add_ofList (hr : 0 < r.relevance) : (ofList l).add r = ofList (insertBehind r l) := by
  match l with
  | [] => simp [add,ofList,relevance,hr]
  | [a] =>
    by_cases ha : a.relevance < r.relevance
    · simp [add,ofList,relevance,above,ha]
    · simp [add,ofList,relevance,above,ha,hr]
  | a :: b :: l =>
    by_cases ha : a.relevance < r.relevance
    · simp [add,ofList,relevance,above,ha]
    · by_cases hb : b.relevance < r.relevance <;> simp [add,ofList,relevance,above,ha,hb]

/-- Results without relevance do not count. -/
lemma add_eq_self (ranking : Ranking) (hr : r.relevance = 0) : ranking.add r = ranking := by
  simp [add,hr]

/-- A result inserted ahead and another one behind do not get in each other's way. -/
lemma insertBehind_insertAhead (r r' : Result) (l : List Result) :
    insertBehind r (insertAhead r' l) = insertAhead r' (insertBehind r l) := by
  induction l with
  | nil =>
    by_cases h : r'.relevance < r.relevance
    · simp [above,atLeast,h,Nat.not_le.mpr h]
    · simp [above,atLeast,h,Nat.le_of_not_lt h]
  | cons a l ih =>
    simp only [insertBehind,insertAhead,List.orderedInsert_cons,above,atLeast,decide_eq_true_eq] at ih ⊢
    split_ifs <;> simp only [List.orderedInsert_cons] <;> split_ifs <;>
      first | rfl | omega | rw [ih]

lemma insertAhead_append {before after : List Result} (hbefore : ∀ b ∈ before, ¬ atLeast r b)
    (hafter : ∀ a ∈ after, atLeast r a) : insertAhead r (before ++ after) = before ++ r :: after := by
  induction before with
  | nil =>
    cases after with
    | nil => rfl
    | cons a after => exact List.orderedInsert_cons_of_le _ _ (hafter a List.mem_cons_self)
  | cons b before ih =>
    rw [List.cons_append,insertAhead,List.orderedInsert_cons,if_neg (hbefore b List.mem_cons_self)]
    exact congrArg _ (ih (fun b hb => hbefore b (List.mem_cons_of_mem _ hb)))

/-- A stable sort puts the first result ahead of its equals. -/
lemma mergeSort_cons (r : Result) (l : List Result) :
    (r :: l).mergeSort atLeast = insertAhead r (l.mergeSort atLeast) := by
  have htrans : ∀ a b c : Result, atLeast a b → atLeast b c → atLeast a c := by
    simp only [atLeast,decide_eq_true_eq]
    omega
  have htotal : ∀ a b : Result, atLeast a b || atLeast b a := by
    simp only [atLeast,Bool.or_eq_true,decide_eq_true_eq]
    omega
  obtain ⟨before,after,hcons,hl,hbefore⟩ := List.mergeSort_cons htrans htotal r l
  have hsorted := List.pairwise_mergeSort htrans htotal (r :: l)
  rw [hcons,List.pairwise_append] at hsorted
  rw [hcons,hl,insertAhead_append (fun b hb => by simpa using hbefore b hb)
    (List.pairwise_cons.mp hsorted.2.1).1]

/-- A stable sort puts the last result behind its equals. -/
lemma mergeSort_concat (l : List Result) (r : Result) :
    (l ++ [r]).mergeSort atLeast = insertBehind r (l.mergeSort atLeast) := by
  induction l with
  | nil => simp
  | cons a l ih => rw [List.cons_append,mergeSort_cons,ih,mergeSort_cons,insertBehind_insertAhead]

/-- Keeping the best two as results come in gives the first two of the sorted results. -/
theorem foldl_add (results : List Result) : results.foldl add {} = ofList (sorted results) := by
  induction results using List.reverseRecOn with
  | nil => simp [sorted,ofList]
  | append_singleton results r ih =>
    rw [List.foldl_append,List.foldl_cons,List.foldl_nil,ih,sorted,sorted,List.filter_append]
    rcases Nat.eq_zero_or_pos r.relevance with hr | hr
    · rw [add_eq_self _ hr]
      simp [hr]
    · rw [add_ofList hr,← mergeSort_concat]
      simp [hr]

end Ranking

namespace Scan

variable {env : Env}

lemma steady_highlight (h : env.Steady) (settings : Settings) (language code : String)
    (c : Option Continuation) : (highlight env settings language code c).Steady := by
  intro keys keys'
  obtain ⟨ho,hs⟩ := Prod.mk.inj ((steady_run h).congr (bare_opened env.table c keys keys'))
  rw [run_highlight,run_highlight]
  dsimp only
  rw [← conclude_bare,← conclude_bare (s := (run env (.opened env.table c keys')).2)]
  exact congrArg₂ _ hs ho

end Scan

namespace Highlighter

variable {h : Highlighter} {run : Request → Call Result}

/-- The results of runs, ranked as they come in. A run that fails is the end of it. -/
lemma run_detectBy (hrun : ∀ q, (run q).Steady) (candidates : List String) (code : String)
    (keys keys' : List String) :
    ((h.detectBy run candidates code).run keys).1 =
      (fun results => (Ranking.ofList (Ranking.sorted results)).outcome code) <$>
        (candidates.filter h.registry.isDetected).mapM
          (fun name => ((run { name, code, tolerant := true }).run keys').1) := by
  have hadd : ∀ (ranking : Ranking) (name : String), Call.Steady (do
      return ranking.add (← run { name, code, tolerant := true })) := fun ranking name =>
    (hrun _).bind (fun r => Call.steady_pure _)
  -- the ranking so far is carried through the candidates that are left
  have hfold : ∀ (names : List String) (ranking : Ranking),
      ((names.foldlM (fun ranking name => return ranking.add (← run { name, code, tolerant := true }))
        ranking : Call Ranking).run keys').1 =
      (fun results => results.foldl Ranking.add ranking) <$>
        names.mapM (fun name => ((run { name, code, tolerant := true }).run keys').1) := by
    intro names
    induction names with
    | nil => exact fun _ => rfl
    | cons name names ih =>
      intro ranking
      rw [List.foldlM_cons,(hadd ranking name).run_bind_fst (Call.steady_foldlM hadd names) keys' keys',
        (hrun _).run_bind_fst (fun r => Call.steady_pure _) keys' keys',List.mapM_cons]
      cases ((run { name, code, tolerant := true }).run keys').1 with
      | error e => rfl
      | ok r =>
        refine (ih (ranking.add r)).trans ?_
        cases names.mapM (fun name => ((run { name, code, tolerant := true }).run keys').1) <;> rfl
  rw [detectBy,(Call.steady_foldlM hadd _ _).run_bind_fst (fun _ => Call.steady_pure _) keys keys',hfold]
  simp only [Ranking.foldl_add]
  cases (candidates.filter h.registry.isDetected).mapM
    (fun name => ((run { name, code, tolerant := true }).run keys').1) <;> rfl

lemma steady_detectBy (hrun : ∀ q, (run q).Steady) (candidates : List String) (code : String) :
    (h.detectBy run candidates code).Steady := by
  intro keys keys'
  rw [run_detectBy hrun candidates code keys [],← run_detectBy hrun candidates code keys' []]

lemma steady_envFor (hrun : ∀ q, (run q).Steady) (table : NodeTable) (q : Request) :
    (h.envFor run table q).Steady := by
  intro sub c code call hcall
  cases sub with
  | named name =>
    simp only [envFor,embedBy] at hcall
    split at hcall
    · cases hcall
      exact hrun _
    · cases hcall
  | auto listed =>
    cases hcall
    exact (steady_detectBy hrun _ code).map _

lemma steady_highlightWithin (depth : Nat) (q : Request) : (h.highlightWithin depth q).Steady := by
  induction depth generalizing q with
  | zero => exact Call.steady_throw _
  | succ depth ih =>
    rw [highlightWithin]
    split
    · exact Call.steady_throw _
    · split
      · exact Call.steady_throw _
      · rename_i table _
        exact (Call.steady_noteAssembled _).bind
          (fun _ => Scan.steady_highlight (steady_envFor ih table q) _ _ _ _)

/-- A call comes out the same whatever grammars are assembled before it. -/
theorem steady_highlight (h : Highlighter) (q : Request) : (h.highlight q).Steady :=
  steady_highlightWithin _ q

/-- Detection highlights the text by each candidate that takes part, in their order. If all of these
calls succeed, it gives the first two of the results that score, sorted by relevance such that equals
stay in order; plain text wins if none scores. Otherwise it fails as the first call that fails. -/
theorem detectAmong_ranks (h : Highlighter) (candidates : List String) (code : String)
    (keys keys' : List String) :
    (∀ results, List.Forall₂
        (fun name r => ((h.highlight { name, code, tolerant := true }).run keys').1 = .ok r)
        (candidates.filter h.registry.isDetected) results →
      ((h.detectAmong candidates code).run keys).1 =
        .ok { best := (Ranking.sorted results)[0]?.getD (.plaintext Result.plaintextName code)
              runnerUp := (Ranking.sorted results)[1]? }) ∧
    ∀ before name after e, candidates.filter h.registry.isDetected = before ++ name :: after →
      (∀ earlier ∈ before, ∃ r,
        ((h.highlight { name := earlier, code, tolerant := true }).run keys').1 = .ok r) →
      ((h.highlight { name, code, tolerant := true }).run keys').1 = .error e →
      ((h.detectAmong candidates code).run keys).1 = .error e := by
  have hrun : ((h.detectAmong candidates code).run keys).1 =
      (fun results => (Ranking.ofList (Ranking.sorted results)).outcome code) <$>
        (candidates.filter h.registry.isDetected).mapM
          (fun name => ((h.highlight { name, code, tolerant := true }).run keys').1) :=
    run_detectBy (fun q => steady_highlightWithin _ q) candidates code keys keys'
  rw [hrun]
  constructor
  · intro results hresults
    rw [list_mapM_of_forall₂ hresults]
    rfl
  · intro before name after e hsplit hbefore he
    rw [hsplit,list_mapM_eq_error hbefore he]
    rfl

/-- Two grammars with the same words, one with another word, one that is never detected and one that
cannot be assembled. -/
def contenders : Highlighter where
  registry :=
    let ofWords (name words : String) : Grammar := { name, root := { keywords := some (.plain words) } }
    Registry.insert (Registry.insert (Registry.insert (Registry.insert (Registry.insert {}
      "first" (ofWords "first" "alpha beta")) "twin" (ofWords "twin" "alpha beta"))
      "gamma" (ofWords "gamma" "gamma"))
      "hidden" { ofWords "hidden" "alpha gamma" with notDetected := true })
      "broken" { name := "broken", root := { illegal := some "(" } }

theorem detectAmong_ranks_contenders :
    (∃ o, ((contenders.detectAmong ["unknown","twin","hidden","first","gamma","twin"]
        "gamma alpha gamma").run []).1 = .ok o ∧
      o.best.language = "gamma" ∧ (o.runnerUp.map (·.language)) = some "twin") ∧
    ∃ e, ((contenders.detectAmong ["first","broken","unknown","twin"] "alpha").run []).1 = .error e := by
  have hresult : ∀ name ∈ ["twin","first","gamma"], ∃ r,
      ((contenders.highlight { name, code := "gamma alpha gamma", tolerant := true }).run []).1 = .ok r ∧
        r.language = name ∧ r.relevance = if name = "gamma" then 2 else 1 := by
    intro name hname
    obtain ⟨r,keys,hrun,hr⟩ := exists_ok_of_any
      (x := (contenders.highlight { name, code := "gamma alpha gamma", tolerant := true }).run [])
      (fun r => r.language == name && r.relevance == if name = "gamma" then 2 else 1)
      (by revert name; decide +kernel)
    simp only [Bool.and_eq_true,beq_iff_eq] at hr
    exact ⟨r,congrArg Prod.fst hrun,hr⟩
  obtain ⟨twin,htwin,htwinName,htwinScore⟩ := hresult "twin" (by simp)
  obtain ⟨first,hfirst,-,hfirstScore⟩ := hresult "first" (by simp)
  obtain ⟨gamma,hgamma,hgammaName,hgammaScore⟩ := hresult "gamma" (by simp)
  have hranked : Ranking.ofList (Ranking.sorted [twin,first,gamma,twin]) =
      { best := some gamma, second := some twin } := by
    rw [← Ranking.foldl_add]
    simp [Ranking.add,Ranking.relevance,htwinScore,hfirstScore,hgammaScore]
  refine ⟨⟨_,(detectAmong_ranks contenders _ _ [] []).1 [twin,first,gamma,twin] ?_,?_,?_⟩,?_⟩
  · rw [show List.filter contenders.registry.isDetected
      ["unknown","twin","hidden","first","gamma","twin"] = ["twin","first","gamma","twin"] by
        decide +kernel]
    exact .cons htwin (.cons hfirst (.cons hgamma (.cons htwin .nil)))
  · rw [show (Ranking.sorted [twin,first,gamma,twin])[0]? = some gamma from
      congrArg Ranking.best hranked]
    exact hgammaName
  · rw [show (Ranking.sorted [twin,first,gamma,twin])[1]? = some twin from
      congrArg Ranking.second hranked]
    exact congrArg some htwinName
  · rcases hbroken : ((contenders.highlight { name := "broken", code := "alpha", tolerant := true }).run []).1 with e | r
    · refine ⟨e,(detectAmong_ranks contenders _ _ [] []).2 ["first"] "broken" ["twin"] e (by decide +kernel)
        (fun name hname => ?_) hbroken⟩
      obtain ⟨r,keys,hrun,-⟩ := exists_ok_of_any
        (x := (contenders.highlight { name := "first", code := "alpha", tolerant := true }).run [])
        (fun _ => true) (by decide +kernel)
      rw [List.mem_singleton.mp hname]
      exact ⟨r,congrArg Prod.fst hrun⟩
    · have herror : ((contenders.highlight
          { name := "broken", code := "alpha", tolerant := true }).run []).1.toOption.isNone = true := by
        decide +kernel
      rw [hbroken] at herror
      cases herror

end Highlighter
end Highlight
