import Highlight.Proofs.Scan.Reach
import Highlight.Proofs.Scan.React
import Highlight.Proofs.Text.Slice

/-!
Every scan ends, and its cursor stays in the text. A match lies at or after the cursor, a step moves
the cursor to a position of the text or one past its end, and after that the scan is done. A step
may make no progress, so that what bounds the number of steps is the check for scans that run away.
-/
namespace Highlight.Scan

open Rules

variable {env : Env} {s s' s₀ : State} {n : Nat}

/-- Searching changes only where the next search may start. -/
lemma nextMatch_ensures (env : Env) (s : State) : (nextMatch env).Ensures s
    (fun found s' => (∃ resumeAt, s' = { s with resumeAt, stays := false }) ∧
      ∃ first, (env.node s.top).rules.exec env.text s.position first = .ok found)
    (fun halt s' => (∃ resumeAt, s' = { s with resumeAt, stays := false }) ∧ halt.IsLegal) := by
  simp only [nextMatch,Action.ensures_bind,Action.ensures_modify,Action.ensures_get]
  split
  · exact ⟨⟨_,rfl⟩,trivial⟩
  · exact ⟨⟨_,rfl⟩,_,‹_›⟩
  · rename_i hexec
    split
    · exact ⟨⟨_,rfl⟩,_,hexec⟩
    · exact ⟨⟨_,rfl⟩,_,hexec⟩

/-- The cursor, a match and the end of the text lie in this order, counted in characters and counted
in bytes, and no character straddles any of them. -/
structure InOrder (text : Source) (cursor : Nat) (m : RuleMatch) : Prop extends
    m.Within text cursor where
  offset_le_start : text.byteOffset cursor ≤ text.byteOffset m.start
  start_le_stop_offset : text.byteOffset m.start ≤ text.byteOffset m.stop
  stop_offset_le : text.byteOffset m.stop ≤ text.toString.utf8ByteSize
  isValid : ∀ p ∈ [cursor,m.start,m.stop],
    (String.Pos.Raw.mk (text.byteOffset p)).IsValid text.toString

lemma inOrder_of_within {text : Source} {cursor : Nat} {m : RuleMatch}
    (h : m.Within text cursor) : InOrder text cursor m where
  toWithin := h
  offset_le_start := text.byteOffset_mono h.start_le
  start_le_stop_offset := text.byteOffset_mono h.start_le_stop
  stop_offset_le := by
    rw [← text.byteOffset_size]
    exact text.byteOffset_mono h.stop_le
  isValid := by
    intro p hp
    obtain ⟨h1,h2,h3⟩ := h
    apply text.isValid_byteOffset
    simp only [List.mem_cons,List.not_mem_nil,or_false] at hp
    omega

/-- What a step with a number does to the cursor and to the text that was taken in. -/
structure Advances (env : Env) (number : Nat) (s : State) (goesOn : Bool) (s' : State) : Prop where
  number_le : goesOn = true → number ≤ max freeSteps (3 * env.text.byteOffset env.text.size)
  in_text : s'.position ≤ env.text.size ∨ s'.position = env.text.size + 1 ∧ goesOn = false
  taken : env.Faithful → env.table.HandsBackOnce → s.taken = env.text.slice 0 s.position →
    s'.taken = env.text.slice 0 s'.position

lemma le_of_not_isRunaway {number position : Nat} (h : ¬ isRunaway env number position = true)
    (hposition : position ≤ env.text.size) :
    number ≤ max freeSteps (3 * env.text.byteOffset env.text.size) := by
  have hmono := env.text.byteOffset_mono hposition
  have hself := env.text.le_byteOffset hposition
  simp only [isRunaway,Bool.and_eq_true,decide_eq_true_eq] at h
  omega

lemma step_ensures (env : Env) (number : Nat) (s : State) (hs : s.position ≤ env.text.size) :
    (step env number).Ensures s (Advances env number s) (Halts env s) := by
  simp only [step,Action.ensures_bind]
  refine (nextMatch_ensures env s).mono (fun found s₁ h₁ => ?_) 
    (fun _ _ h => ⟨h.1.elim (fun _ h => by rw [h]),fun _ => h.2⟩)
  obtain ⟨⟨resumeAt,rfl⟩,first,hexec⟩ := h₁
  cases found with
  | none => exact ⟨nofun,.inl hs,fun _ _ h => h⟩
  | some m =>
    obtain ⟨h1,h2,h3⟩ := RuleSet.exec_within hexec
    dsimp only
    split
    · exact ⟨rfl,fun _ => trivial⟩
    · rename_i hrun
      simp only [Action.ensures_bind,Action.ensures_get,Action.ensures_append,Action.ensures_modify,
        Action.ensures_pure]
      refine (react_ensures env _ h2).mono (fun moved s₂ h₂ => ?_) (fun _ _ h => ⟨h.position,h.isLegal⟩)
      have hmoves := h₂.moves
      refine ⟨fun _ => le_of_not_isRunaway hrun (Nat.le_trans h2 h3),?_,fun hf ht htaken => ?_⟩
      · simp only [decide_eq_false_iff_not]
        omega
      · calc s₂.taken
          _ = s.taken ++ env.text.slice s.position m.start ++
              env.text.slice m.start (m.start + moved) := by
            rw [h₂.taken hf ht]
            simp [State.taken,String.append_assoc]
          _ = env.text.slice 0 (m.start + moved) := by
            rw [htaken,env.text.slice_append (Nat.zero_le _) h1,
              env.text.slice_append (Nat.zero_le _) (Nat.le_add_right _ _)]

/-- The cursor of a scan stays in the text for as long as the scan goes on, and a scan that goes on
has not taken more steps than that. -/
lemma After.cursor (h : After env s₀ n s) (h₀ : s₀.position ≤ env.text.size) :
    s.position ≤ env.text.size ∧ n ≤ max freeSteps (3 * env.text.byteOffset env.text.size) := by
  induction h with
  | start => exact ⟨h₀,Nat.zero_le _⟩
  | @step n s s' _ hs ih =>
    have hadvances := (step_ensures env (n + 1) s ih.1).ok hs
    refine ⟨?_,hadvances.number_le rfl⟩
    rcases hadvances.in_text with hin | ⟨-,hf⟩
    · exact hin
    · cases hf

lemma opened_position (table : NodeTable) (c : Option Continuation) (assembled : List String) :
    (State.opened table c assembled).position = 0 := by
  obtain ⟨stack,hopened,-⟩ := exists_opened_eq table c assembled
  rw [hopened]

lemma opened_in_text (env : Env) (c : Option Continuation) (assembled : List String) :
    (State.opened env.table c assembled).position ≤ env.text.size := by
  rw [opened_position]
  exact Nat.zero_le _

/-- A run is what its scan ends in. -/
lemma EndsAfter.run_eq {e : Except Halt Unit × State} (h : EndsAfter env s₀ n e)
    (h₀ : s₀.position ≤ env.text.size) : run env s₀ = e := by
  obtain ⟨s,hs,-⟩ := h.exists_after
  obtain ⟨k,hk⟩ : ∃ k, stepLimit env = n + 1 + k :=
    ⟨_,(Nat.add_sub_cancel' (Nat.succ_le_succ (hs.cursor h₀).2)).symm⟩
  rw [run,hk]
  exact h.steps_eq k

/-- The limit on the steps of a run is never what ends it. -/
lemma run_endsAfter (h₀ : s₀.position ≤ env.text.size) :
    ∃ n, n + 1 ≤ stepLimit env ∧ EndsAfter env s₀ n (run env s₀) := by
  obtain ⟨n,e,hn,he⟩ := exists_endsAfter (stepLimit env)
    (fun m s h => Nat.lt_succ_of_le (h.cursor h₀).2)
  exact ⟨n,hn,he.run_eq h₀ ▸ he⟩

/-- Every scan ends, at the latest in the step in which a scan that runs away is stopped, and how
many more steps it may take makes no difference. Each search starts in the text, and its match lies
in the text after that; whatever comes of a step, it leaves the cursor in the text, or one past its
end if it was the last. -/
theorem scan_ends_in_text (env : Env) (c : Option Continuation) (assembled : List String) :
    ∃ n, n + 1 ≤ max freeSteps (3 * env.text.toString.utf8ByteSize) + 1 ∧
      EndsAfter env (.opened env.table c assembled) n (run env (.opened env.table c assembled)) ∧
      (∀ k, steps env (n + 1 + k) 1 (.opened env.table c assembled) =
        run env (.opened env.table c assembled)) ∧
      ∀ m s, After env (.opened env.table c assembled) m s → m ≤ n ∧
        (∀ found s', (nextMatch env).run s = (.ok (some found),s') →
          InOrder env.text s.position found) ∧
        s.position ≤ env.text.size ∧
        ∀ outcome s', (step env (m + 1)).run s = (outcome,s') →
          s'.position ≤ env.text.size ∨ s'.position = env.text.size + 1 ∧ outcome = .ok false := by
  have h₀ := opened_in_text env c assembled
  obtain ⟨n,hn,he⟩ := run_endsAfter h₀
  refine ⟨n,?_,he,he.steps_eq,fun m s h => ⟨he.le_of_after h,?_,(h.cursor h₀).1,?_⟩⟩
  · rw [← env.text.byteOffset_size]
    exact hn
  · intro found s' hs
    obtain ⟨-,first,hexec⟩ := (nextMatch_ensures env s).ok hs
    exact inOrder_of_within (RuleSet.exec_within hexec)
  · intro outcome s' hs
    have hin := (h.cursor h₀).1
    cases outcome with
    | error halt => exact .inl (((step_ensures env _ s hin).error hs).position.symm ▸ hin)
    | ok goesOn =>
      rcases ((step_ensures env _ s hin).ok hs).in_text with hle | ⟨hend,hstop⟩
      · exact .inl hle
      · exact .inr ⟨hend,by rw [hstop]⟩

end Highlight.Scan
