import Highlight.Proofs.Scan.Cases
import Highlight.Proofs.Scan.Cursor

/-!
End matches that close nothing. They are kept as text, and nothing but the buffer and the cursor changes.
If such a match has characters, the scan goes on behind them. An empty one is found again in the next step,
so that the scan stays where it is until it is stopped for running away.
-/
namespace Highlight.Scan

open Rules Highlight.Scan.Action

variable {env : Env} {s s' s₀ s₁ : State} {m : RuleMatch} {n number : Nat} {goesOn : Bool}

/-- An end match that a search finds and that closes nothing. -/
structure ClosesNothing (env : Env) (s : State) (m : RuleMatch) : Prop where
  found : ((nextMatch env).run s).1 = .ok (some m)
  kind : m.kind = .ends
  closing : closing env m.start s.stack = .ok none

lemma ClosesNothing.exec (h : ClosesNothing env s m) :
    (s.ruleSet env).exec env.text s.position s.firstRule = .ok (some m) := nextMatch_eq_ok_iff.mp h.found

/-- The text up to a position and the match that ends there are kept: all else that the scan has made so far
stays as it is. -/
structure KeepsText (env : Env) (s s' : State) : Prop where
  stack : s'.stack = s.stack
  tree : s'.tree = s.tree
  relevance : s'.relevance = s.relevance
  embedded : s'.embedded = s.embedded
  buffer : s'.buffer = s.buffer ++ env.text.slice s.position s'.position

lemma react_unclosing (hm : m.start ≤ m.stop) (hkind : m.kind = .ends)
    (hclosing : closing env m.start s.stack = .ok none) : (react env m).Ensures s
      (fun moved s' => moved = (if stalls s.last m then 1 else m.stop - m.start) ∧
        ∃ last, (stalls s.last m = false → last = some m) ∧
          s' = { s with last, buffer := s.buffer ++ env.text.slice m.start (m.start + moved) })
      (fun halt _ => halt = .fault (.zeroWidthMatch (env.text.byteOffset m.start)) ∧ stalls s.last m = true ∧
        env.safeMode = false) := by
  rw [react,ensures_bind,ensures_get]
  cases hstalls : stalls s.last m with
  | true =>
    rw [if_pos rfl]
    cases hsafe : env.safeMode with
    | true => exact keepNext_keeps m.start ⟨rfl,s.last,fun h => absurd h.symm Bool.false_ne_true,rfl⟩
    | false => exact ⟨rfl,rfl,rfl⟩
  | false =>
    rw [if_neg Bool.false_ne_true,ensures_bind,ensures_modify,hkind]
    dsimp only
    rw [reactToEnd,ensures_bind,ensures_get,hclosing]
    exact keepLexeme_keeps hm ⟨rfl,some m,fun _ => rfl,rfl⟩

/-- An end that closes nothing is kept as text, unless it is one match too many or an empty end right after an
empty begin, where such ends are faults. -/
lemma step_unclosing (h : ClosesNothing env s m) (number : Nat) : (step env number).Ensures s
    (fun goesOn s' => KeepsText env s s' ∧ s'.firstRule = 0 ∧ (stalls s.last m = false → s'.last = some m) ∧
      s'.position = m.start + (if stalls s.last m then 1 else m.stop - m.start) ∧
      goesOn = decide (s'.position ≤ env.text.size))
    (fun halt _ => halt = .fault (.runawayLoop number (env.text.byteOffset m.start)) ∨
      halt = .fault (.zeroWidthMatch (env.text.byteOffset m.start)) ∧ stalls s.last m = true ∧
        env.safeMode = false) := by
  obtain ⟨hstart,hm,-⟩ := RuleSet.exec_within h.exec
  refine step_of_found h.exec (fun _ _ => .inl rfl) (fun _ => ?_)
  have hreact := react_unclosing (s := s.atMatch env m) hm h.kind h.closing
  refine hreact.mono (fun moved s₂ h₂ => ?_) (fun _ _ hhalt => .inr hhalt)
  obtain ⟨rfl,last,hlast,rfl⟩ := h₂
  refine ⟨⟨rfl,rfl,rfl,rfl,?_⟩,rfl,hlast,rfl,rfl⟩
  simp only [State.atMatch,String.append_assoc]
  rw [env.text.slice_append hstart (Nat.le_add_right _ _)]

/-- A state in which all rules are searched from an empty end on that closes nothing. -/
structure Stuck (env : Env) (m : RuleMatch) (s : State) : Prop where
  found : (s.ruleSet env).exec env.text m.start 0 = .ok (some m) ∨
    (s.ruleSet env).exec env.text m.start 0 = .error .searchGaveUp
  position : s.position = m.start
  firstRule : s.firstRule = 0
  kind : m.kind = .ends
  closing : closing env m.start s.stack = .ok none
  isEmpty : m.start = m.stop
  start_le : m.start ≤ env.text.size
  stalls : stalls s.last m = false

lemma stalls_of_ends (hkind : m.kind = .ends) : stalls (some m) m = false := by
  simp [stalls,RuleMatch.isBegin,hkind]

lemma Stuck.again (h : Stuck env m s) (hkeeps : KeepsText env s s') (hfirst : s'.firstRule = 0)
    (hlast : s'.last = some m) (hposition : s'.position = m.start) : Stuck env m s' where
  found := by
    have hrules : s'.ruleSet env = s.ruleSet env := by rw [State.ruleSet,State.top,hkeeps.stack]; rfl
    rw [hrules]
    exact h.found
  position := hposition
  firstRule := hfirst
  kind := h.kind
  closing := hkeeps.stack ▸ h.closing
  isEmpty := h.isEmpty
  start_le := h.start_le
  stalls := hlast ▸ stalls_of_ends h.kind

/-- The fault of a search that gives up, or of a scan that runs away at a match. -/
def IsStuckFault (env : Env) (m : RuleMatch) (f : Fault) : Prop :=
  f = .searchGaveUp ∨ ∃ number, f = .runawayLoop number (env.text.byteOffset m.start)

/-- A scan that is stuck stays so, or is stopped. -/
lemma Stuck.step (h : Stuck env m s) (number : Nat) : (Scan.step env number).Ensures s
    (fun goesOn s' => goesOn = true ∧ Stuck env m s')
    (fun halt _ => ∃ f, halt = .fault f ∧ IsStuckFault env m f) := by
  have hposition := h.position
  have hfirst := h.firstRule
  rcases h.found with hfound | hgave
  · rw [← hposition,← hfirst] at hfound
    have hcloses : ClosesNothing env s m := ⟨nextMatch_eq_ok_iff.mpr hfound,h.kind,h.closing⟩
    refine (step_unclosing hcloses number).mono (fun goesOn s' hstep => ?_) (fun halt _ hhalt => ?_)
    · obtain ⟨hkeeps,hfirst',hlast,hposition',rfl⟩ := hstep
      rw [h.stalls,if_neg Bool.false_ne_true,h.isEmpty,Nat.sub_self,Nat.add_zero,← h.isEmpty] at hposition'
      exact ⟨by simpa [hposition'] using h.start_le,h.again hkeeps hfirst' (hlast h.stalls) hposition'⟩
    · rcases hhalt with rfl | ⟨-,hstalls,-⟩
      · exact ⟨_,rfl,.inr ⟨_,rfl⟩⟩
      · cases h.stalls.symm.trans hstalls
  · rw [← hposition,← hfirst] at hgave
    exact step_of_error hgave (fun _ => ⟨_,rfl,.inl rfl⟩)

/-- The step that finds an empty end for the first time leaves the scan stuck. -/
lemma ClosesNothing.stuck (h : ClosesNothing env s m) (hfirst : s.firstRule = 0) (hempty : m.start = m.stop)
    (hstalls : stalls s.last m = false) (hstep : (Scan.step env number).run s = (.ok goesOn,s')) :
    goesOn = true ∧ Stuck env m s' := by
  obtain ⟨hkeeps,hfirst',hlast,hposition,rfl⟩ := (step_unclosing h number).ok hstep
  rw [hstalls,if_neg Bool.false_ne_true,← hempty,Nat.sub_self,Nat.add_zero] at hposition
  have hwithin := RuleSet.exec_within h.exec
  have hsize : m.start ≤ env.text.size := Nat.le_trans hwithin.start_le_stop hwithin.stop_le
  have hrules : s'.ruleSet env = s.ruleSet env := by rw [State.ruleSet,State.top,hkeeps.stack]; rfl
  have hfound := RuleSet.exec_again h.exec
  rw [hfirst,← hrules] at hfound
  refine ⟨by simpa [hposition] using hsize,hfound,hposition,hfirst',h.kind,hkeeps.stack ▸ h.closing,hempty,hsize,?_⟩
  rw [hlast hstalls]
  exact stalls_of_ends h.kind

/-- A scan that comes to be stuck is stopped there. -/
lemma After.run_stuck (h₀ : s₀.position ≤ env.text.size) (hs : After env s₀ n s)
    (hstep : (Scan.step env (n + 1)).run s = (.ok true,s')) (hstuck : Stuck env m s') :
    ∃ f, (run env s₀).1 = .error (.fault f) ∧ IsStuckFault env m f := by
  obtain ⟨k,-,hends⟩ := run_endsAfter h₀
  obtain ⟨u,hu,hlast⟩ := hends.exists_after
  have hlt : n < k := hends.le_of_after (.step hs hstep)
  have hstuck : Stuck env m u := by
    refine hs.of_later (fun s'' hstep' => ?_) (fun _ u u' _ _ hstuck hstep => ((hstuck.step _).ok hstep).2) hu hlt
    cases hstep.symm.trans hstep'
    exact hstuck
  generalize run env s₀ = e at hends
  cases hends with
  | halted hu' hhalt =>
    obtain rfl := hu'.unique hu
    obtain ⟨f,rfl,hf⟩ := (hstuck.step _).error hhalt
    exact ⟨f,rfl,hf⟩
  | finished hu' hdone =>
    obtain rfl := hu'.unique hu
    cases ((hstuck.step _).ok hdone).1

/-- Later searches find nothing before the cursor. -/
lemma After.start_of_later (hs : After env s₀ n s) (hstep : (Scan.step env (n + 1)).run s = (.ok goesOn,s'))
    {k : Nat} {u : State} {m' : RuleMatch} (hk : n < k) (hu : After env s₀ k u)
    (hfound : ((nextMatch env).run u).1 = .ok (some m')) : s'.position ≤ m'.start := by
  have hposition : s'.position ≤ u.position := by
    refine hs.of_later (P := fun u => s'.position ≤ u.position) (fun s'' hstep' => ?_)
      (fun _ u u' _ _ hle hstep => ?_) hu hk
    · cases hstep.symm.trans hstep'
      exact Nat.le_refl _
    · exact Nat.le_trans hle ((step_cases env _ u).ok hstep).position_le
  exact Nat.le_trans hposition (RuleSet.exec_within (nextMatch_eq_ok_iff.mp hfound)).start_le

/-- An end match that closes nothing is kept as text. The scan goes on behind its start, and finds no match
there again, exactly if the match has characters or comes right after an empty begin. Otherwise, if all
rules were searched, it goes on at the match until it is stopped by a fault. -/
theorem unclosing_end_passes_iff (h₀ : s₀.position ≤ env.text.size) (hs : After env s₀ n s)
    (h : ClosesNothing env s m) : (step env (n + 1)).Ensures s
      (fun _ s' => KeepsText env s s' ∧
        (m.start < s'.position ↔ m.start < m.stop ∨ stalls s.last m = true) ∧
        (m.start < s'.position → ∀ k u m', n < k → After env s₀ k u →
          ((nextMatch env).run u).1 = .ok (some m') → m.start < m'.start) ∧
        (s'.position = m.start → s.firstRule = 0 →
          ∃ f, (run env s₀).1 = .error (.fault f) ∧ IsStuckFault env m f))
      (fun halt _ => halt = .fault (.runawayLoop (n + 1) (env.text.byteOffset m.start)) ∨
        halt = .fault (.zeroWidthMatch (env.text.byteOffset m.start)) ∧ stalls s.last m = true ∧
          env.safeMode = false) := by
  refine ensures_of_run (fun goesOn s' hstep => ?_) (fun halt s' hhalt => (step_unclosing h _).error hhalt)
  obtain ⟨hkeeps,-,-,hposition,-⟩ := (step_unclosing h _).ok hstep
  have hm := (RuleSet.exec_within h.exec).start_le_stop
  have hpasses : m.start < s'.position ↔ m.start < m.stop ∨ stalls s.last m = true := by
    rw [hposition]
    split
    · exact iff_of_true (Nat.lt_succ_self _) (.inr ‹_›)
    · rw [or_iff_left ‹_›]
      omega
  refine ⟨hkeeps,hpasses,fun hlt k u m' hk hu hfound => ?_,fun hstays hfirst => ?_⟩
  · exact Nat.lt_of_lt_of_le hlt (hs.start_of_later hstep hk hu hfound)
  · rw [← hstays,iff_false_left (Nat.lt_irrefl _),not_or,Bool.not_eq_true] at hpasses
    obtain ⟨rfl,hstuck⟩ := h.stuck hfirst (by omega) hpasses.2 hstep
    exact hs.run_stuck h₀ hstep hstuck

/-- A grammar of words that end as they began, or begin and end with nothing. -/
def elusive : Grammar where
  name := "elusive"
  root := { contains := some [.mode 0] }
  modes := #[{
    className := some "word", beginPattern := some "a?"
    switches := { Switches.unset with endSameAsBegin := some true } }]

/-- The rule for the end matches nothing, but the word that is open began with a letter. -/
lemma exists_sights_elusive : ∃ table s goesOn s', Sights elusive "ab" 1 ⟨1,1,.ends,0⟩ table s goesOn s' ∧
    s.firstRule = 0 ∧ s'.position = 1 ∧ ClosesNothing (.alone table "ab") s ⟨1,1,.ends,0⟩ := by
  have hsights : sights elusive "ab" 1 ⟨1,1,.ends,0⟩ (fun table s _ s' =>
      decide (s.firstRule = 0 ∧ s'.position = 1 ∧
        (closing (.alone table "ab") 1 s.stack).toOption = some none)) = true := by
    decide +kernel
  obtain ⟨table,s,goesOn,s',hs,h⟩ := exists_sights hsights
  obtain ⟨hfirst,hposition,hclosing⟩ := of_decide_eq_true h
  exact ⟨table,s,goesOn,s',hs,hfirst,hposition,hs.next,rfl,except_eq_ok_of_toOption hclosing⟩

theorem unclosing_end_passes_iff_elusive : ∃ (env : Env) (s : State) (m : RuleMatch),
    elusive.assemble = .ok env.table ∧ (State.opened env.table none []).position ≤ env.text.size ∧
      After env (.opened env.table none []) 1 s ∧ ClosesNothing env s m ∧
      (step env 2).Ensures s
        (fun _ s' => KeepsText env s s' ∧
          (m.start < s'.position ↔ m.start < m.stop ∨ stalls s.last m = true) ∧
          (m.start < s'.position → ∀ k u m', 1 < k → After env (.opened env.table none []) k u →
            ((nextMatch env).run u).1 = .ok (some m') → m.start < m'.start) ∧
          (s'.position = m.start → s.firstRule = 0 →
            ∃ f, (run env (.opened env.table none [])).1 = .error (.fault f) ∧ IsStuckFault env m f))
        (fun halt _ => halt = .fault (.runawayLoop 2 (env.text.byteOffset m.start)) ∨
          halt = .fault (.zeroWidthMatch (env.text.byteOffset m.start)) ∧ stalls s.last m = true ∧
            env.safeMode = false) := by
  obtain ⟨table,s,goesOn,s',hs,-,-,hcloses⟩ := exists_sights_elusive
  have hopened := opened_in_text (.alone table "ab") none []
  exact ⟨_,s,_,hs.assembled,hopened,hs.after,hcloses,unclosing_end_passes_iff hopened hs.after hcloses⟩

/-- The scan stays at the empty end, and is stopped there. -/
theorem exists_end_stays : ∃ (env : Env) (s s' : State) (m : RuleMatch) (f : Fault),
    elusive.assemble = .ok env.table ∧ env.text = .ofString "ab" ∧
      After env (.opened env.table none []) 1 s ∧ ((nextMatch env).run s).1 = .ok (some m) ∧ m.kind = .ends ∧
      closing env m.start s.stack = .ok none ∧ (step env 2).run s = (.ok true,s') ∧ ¬ m.start < s'.position ∧
      (run env (.opened env.table none [])).1 = .error (.fault f) := by
  obtain ⟨table,s,goesOn,s',hs,hfirst,hposition,hcloses⟩ := exists_sights_elusive
  have hstays : ¬ 1 < s'.position := by
    rw [hposition]
    exact Nat.lt_irrefl 1
  have hstalls : stalls s.last ⟨1,1,.ends,0⟩ = false := by
    refine Bool.eq_false_iff.mpr (fun hstalls => hstays ?_)
    obtain ⟨-,-,-,hstep,-⟩ := (step_unclosing hcloses 2).ok hs.step
    rw [hstep,hstalls]
    exact Nat.lt_succ_self _
  obtain ⟨hgoes,hstuck⟩ := hcloses.stuck hfirst rfl hstalls hs.step
  have hstep := hgoes ▸ hs.step
  obtain ⟨f,hrun,-⟩ := hs.after.run_stuck (opened_in_text (.alone table "ab") none []) hstep hstuck
  exact ⟨_,s,s',_,f,hs.assembled,rfl,hs.after,hs.next,hcloses.kind,hcloses.closing,hstep,hstays,hrun⟩

end Highlight.Scan
