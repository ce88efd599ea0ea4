import Highlight.Assembly.Table
import Highlight.Proofs.Except
import Highlight.Proofs.Scan.Action
import Mathlib.Tactic.ByContra

/-!
The states that a scan reaches, and how it ends. What bounds the number of steps bounds the number
of states on the way, so that the limit on the steps of a run is never what ends it.
-/
namespace Highlight.Scan

/-- A scan starts with modes open, with their scopes open in the tree, and with nothing else. -/
lemma exists_opened_eq (table : NodeTable) (c : Option Continuation) (assembled : List String) : ∃ stack,
    State.opened table c assembled = { stack, tree := stack.dropLast.foldr (openMode table) {}, assembled } ∧
      (stack = [.top] ∨ ∃ c', c = some c' ∧ c'.fits table.size = true ∧ stack = c'.frames) := by
  unfold State.opened
  split
  · rename_i c'
    split
    · exact ⟨c'.frames,rfl,.inr ⟨c',rfl,‹_›,rfl⟩⟩
    · exact ⟨[.top],rfl,.inl rfl⟩
  · exact ⟨[.top],rfl,.inl rfl⟩

/-- The state that a scan is in after so many steps, each of which lets it go on. -/
inductive After (env : Env) (s₀ : State) : Nat → State → Prop where
  | start : After env s₀ 0 s₀
  | step {n : Nat} {s s' : State} (h : After env s₀ n s)
      (hs : (step env (n + 1)).run s = (.ok true,s')) : After env s₀ (n + 1) s'

/-- A scan ends in the step that follows so many others: it halts there, or is done and takes in
what is left of the text. -/
inductive EndsAfter (env : Env) (s₀ : State) : Nat → Except Halt Unit × State → Prop where
  | halted {n : Nat} {s s' : State} {halt : Halt} (h : After env s₀ n s)
      (hs : (step env (n + 1)).run s = (.error halt,s')) : EndsAfter env s₀ n (.error halt,s')
  | finished {n : Nat} {s s' : State} (h : After env s₀ n s)
      (hs : (step env (n + 1)).run s = (.ok false,s')) :
      EndsAfter env s₀ n ((finish env).run s')

/-- The states that a scan passes through, those included in which it halts. -/
inductive Visits (env : Env) (s₀ : State) : State → Prop where
  | start : Visits env s₀ s₀
  | step {n : Nat} {s s' : State} {outcome : Except Halt Bool} (h : After env s₀ n s)
      (hs : (step env (n + 1)).run s = (outcome,s')) : Visits env s₀ s'
  | finished {n : Nat} {s' : State} {outcome : Except Halt Unit}
      (h : EndsAfter env s₀ n (outcome,s')) : Visits env s₀ s'

variable {env : Env} {s₀ s s' : State} {n m : Nat} {e : Except Halt Unit × State}

lemma After.unique (h : After env s₀ n s) (h' : After env s₀ n s') : s = s' := by
  induction h generalizing s' with
  | start =>
    cases h'
    rfl
  | step _ hs ih =>
    cases h' with
    | step h' hs' =>
      cases ih h'
      rw [hs] at hs'
      cases hs'
      rfl

lemma After.visits (h : After env s₀ n s) : Visits env s₀ s := by
  cases h with
  | start => exact .start
  | step h hs => exact .step h hs

/-- What one step establishes and those after it preserve holds in every later state. -/
lemma After.of_later {P : State → Prop} (hs : After env s₀ n s)
    (hnext : ∀ s', (Scan.step env (n + 1)).run s = (.ok true,s') → P s')
    (hkeeps : ∀ k u u', n < k → After env s₀ k u → P u → (Scan.step env (k + 1)).run u = (.ok true,u') → P u')
    {k : Nat} {u : State} (hu : After env s₀ k u) (hk : n < k) : P u := by
  induction hu with
  | start => cases hk
  | @step k u u' hu hs' ih =>
    rcases Nat.eq_or_lt_of_le (Nat.le_of_lt_succ hk) with rfl | hlt
    · exact hnext u' (hu.unique hs ▸ hs')
    · exact hkeeps k u u' hlt hu (ih hlt) hs'

lemma EndsAfter.exists_after (h : EndsAfter env s₀ n e) :
    ∃ s, After env s₀ n s ∧ ∀ s', (step env (n + 1)).run s ≠ (.ok true,s') := by
  cases h with
  | halted h hs => exact ⟨_,h,fun _ ht => by rw [hs] at ht; cases ht⟩
  | finished h hs => exact ⟨_,h,fun _ ht => by rw [hs] at ht; cases ht⟩

/-- A scan of a text on its own. -/
def Env.alone (table : NodeTable) (code : String) : Env where
  table := table
  text := .ofString code
  tolerant := false
  safeMode := true
  embed _ _ _ := none

/-- The state after so many steps, if the scan goes on that long. -/
def stateAfter? (env : Env) (s₀ : State) : Nat → Option State
  | 0 => some s₀
  | n + 1 => do
    match (step env (n + 1)).run (← stateAfter? env s₀ n) with
    | (.ok true,s) => some s
    | _ => none

lemma stateAfter?_eq_some_iff : stateAfter? env s₀ n = some s ↔ After env s₀ n s := by
  constructor
  · intro h
    induction n generalizing s with
    | zero => exact Option.some.inj h ▸ .start
    | succ n ih =>
      obtain ⟨s₁,hs₁,h⟩ := Option.bind_eq_some_iff.mp h
      split at h
      · rename_i hs
        exact .step (ih hs₁) (Option.some.inj h ▸ hs)
      · cases h
  · intro h
    induction h with
    | start => rfl
    | step _ hs ih =>
      refine Option.bind_eq_some_iff.mpr ⟨_,ih,?_⟩
      rw [hs]

lemma After.of_all {test : State → Bool} (h : After env s₀ n s)
    (hall : (stateAfter? env s₀ n).all test = true) : test s = true := by
  rwa [stateAfter?_eq_some_iff.mpr h,Option.all_some] at hall

/-- Whether a scan by the nodes of a grammar comes, after so many steps, to a state that meets a test. -/
def shows (g : Grammar) (host : NodeTable → Env) (n : Nat) (test : NodeTable → State → Bool) : Bool :=
  g.assemble.toOption.any (fun table => (stateAfter? (host table) (.opened table none []) n).any (test table))

/-- A scan comes to the state that it shows. -/
lemma exists_of_shows {g : Grammar} {host : NodeTable → Env} {test : NodeTable → State → Bool}
    (h : shows g host n test = true) : ∃ table s, g.assemble = .ok table ∧
      After (host table) (.opened table none []) n s ∧ test table s = true := by
  obtain ⟨table,htable,h⟩ := exists_eq_ok_of_any h
  obtain ⟨s,hs,htest⟩ := (Option.any_eq_true _ _).mp h
  exact ⟨table,s,htable,stateAfter?_eq_some_iff.mp hs,htest⟩

/-- A step of a scan of a text on its own that finds a match. -/
structure Sights (g : Grammar) (code : String) (n : Nat) (m : Rules.RuleMatch) (table : NodeTable) (s : State)
    (goesOn : Bool) (s' : State) : Prop where
  assembled : g.assemble = .ok table
  after : After (.alone table code) (.opened table none []) n s
  next : ((nextMatch (.alone table code)).run s).1 = .ok (some m)
  step : (Scan.step (.alone table code) (n + 1)).run s = (.ok goesOn,s')

/-- Whether the step after so many others finds a match, and the states before and after it meet a test. -/
def sights (g : Grammar) (code : String) (n : Nat) (m : Rules.RuleMatch)
    (test : NodeTable → State → Bool → State → Bool) : Bool :=
  shows g (Env.alone · code) n (fun table s =>
    match ((nextMatch (.alone table code)).run s).1, (step (.alone table code) (n + 1)).run s with
    | .ok (some found), (.ok goesOn,s') => decide (found = m) && test table s goesOn s'
    | _, _ => false)

lemma exists_sights {g : Grammar} {code : String} {m : Rules.RuleMatch}
    {test : NodeTable → State → Bool → State → Bool} (h : sights g code n m test = true) :
    ∃ table s goesOn s', Sights g code n m table s goesOn s' ∧ test table s goesOn s' = true := by
  obtain ⟨table,s,htable,hs,h⟩ := exists_of_shows h
  split at h
  · rename_i found goesOn s' hnext hstep
    obtain ⟨hfound,htest⟩ := Bool.and_eq_true_iff.mp h
    obtain rfl := of_decide_eq_true hfound
    exact ⟨table,s,goesOn,s',⟨htable,hs,hnext,hstep⟩,htest⟩
  · cases h

/-- No step follows the one in which a scan ends. -/
lemma EndsAfter.le_of_after (h : EndsAfter env s₀ n e) (hm : After env s₀ m s) : m ≤ n := by
  obtain ⟨s',h',hstop⟩ := h.exists_after
  induction hm with
  | start => exact Nat.zero_le n
  | @step k t t' ht hs ih =>
    rcases Nat.eq_or_lt_of_le ih with rfl | hlt
    · cases ht.unique h'
      exact absurd hs (hstop t')
    · exact hlt

lemma steps_after (h : After env s₀ n s) (k : Nat) :
    steps env (n + k) 1 s₀ = steps env k (n + 1) s := by
  induction h generalizing k with
  | start => rw [Nat.zero_add]
  | @step n s s' _ hs ih =>
    rw [Nat.add_right_comm,Nat.add_assoc,ih (k + 1),steps,hs]

/-- More steps than a scan takes change nothing. -/
lemma EndsAfter.steps_eq (h : EndsAfter env s₀ n e) (k : Nat) :
    steps env (n + 1 + k) 1 s₀ = e := by
  rw [Nat.add_assoc,Nat.add_comm 1 k]
  cases h with
  | halted h hs => rw [steps_after h,steps,hs]
  | finished h hs => rw [steps_after h,steps,hs]

/-- If no scan state comes after so many steps, the scan has ended by then. -/
lemma exists_endsAfter (limit : Nat) (hlimit : ∀ m s, After env s₀ m s → m < limit) :
    ∃ n e, n < limit ∧ EndsAfter env s₀ n e := by
  by_contra hnone
  -- otherwise every step lets the scan go on, and so it takes as many as there may be
  have hgoes : ∀ n, ∃ s, After env s₀ n s := by
    intro n
    induction n with
    | zero => exact ⟨s₀,.start⟩
    | succ n ih =>
      obtain ⟨s,h⟩ := ih
      rcases hs : (step env (n + 1)).run s with ⟨halt | _ | _,s'⟩
      · exact absurd ⟨n,_,hlimit n s h,.halted h hs⟩ hnone
      · exact absurd ⟨n,_,hlimit n s h,.finished h hs⟩ hnone
      · exact ⟨s',.step h hs⟩
  obtain ⟨s,h⟩ := hgoes limit
  exact Nat.lt_irrefl limit (hlimit limit s h)

end Highlight.Scan
