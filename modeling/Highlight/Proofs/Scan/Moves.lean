import Highlight.Proofs.Except
import Highlight.Proofs.Rules.Exec
import Highlight.Proofs.Scan.Cursor
import Mathlib.Logic.Relation

/-!
How a step moves the stack of open modes. It opens one mode that a rule of the innermost one begins,
closes some from the inside and perhaps goes on with the one that follows the outermost of these, or
leaves them all as they are.
-/
namespace Highlight.Scan

open Rules

/-- A move of the stack in one step. -/
inductive Moves (env : Env) : List Frame → List Frame → Prop where
  | stays {stack : List Frame} : Moves env stack stack
  | opens {f : Frame} {stack : List Frame} {rule : Rule}
      (hrule : rule ∈ (env.node ((stack.head?.map Frame.node).getD rootNode)).rules.rules)
      (hkind : rule.kind = .begins f.node) : Moves env stack (f :: stack)
  | closes {closed rest : List Frame} : Moves env (closed ++ rest) rest
  | follows {closed rest : List Frame} {f next : Frame}
      (hnext : (env.node f.node).starts = some next.node) :
      Moves env (closed ++ f :: rest) (next :: rest)

variable {env : Env} {s s' s₀ : State} {m : RuleMatch} {α : Type}

/-- However an action ends, it has moved the stack at most once. -/
def Action.MovesStack (x : Action α) (env : Env) (s : State) : Prop :=
  x.Ensures s (fun _ s' => Moves env s.stack s'.stack) (fun _ s' => Moves env s.stack s'.stack)

lemma moves_of_eq (h : s'.stack = s.stack) : Moves env s.stack s'.stack := h ▸ .stays

lemma Action.Takes.bind_movesStack {x : Action Unit} {text : String} {f : Unit → Action α}
    (hx : x.Takes env s text)
    (hf : ∀ s', s.Keeps s' → (f ()).Ensures s' (fun _ s'' => Moves env s.stack s''.stack)
      (fun _ s'' => Moves env s.stack s''.stack)) : (x >>= f).MovesStack env s := by
  rw [Action.MovesStack,Action.ensures_bind]
  exact hx.mono (fun _ s' h => hf s' h.1) (fun _ _ h => moves_of_eq h.1.stack)

section Reactions

lemma keepLexeme_movesStack (env : Env) (s : State) : (keepLexeme env m).MovesStack env s :=
  (append_takes env s _).bind_movesStack (fun _ hk => moves_of_eq hk.stack)

lemma keepNext_movesStack (env : Env) (s : State) (position : Nat) :
    (keepNext env position).MovesStack env s := by
  rw [keepNext]
  split
  · exact (append_takes env s _).bind_movesStack (fun _ hk => moves_of_eq hk.stack)
  · exact .stays

lemma ignoreBegin_movesStack (env : Env) (s : State) : (ignoreBegin env m).MovesStack env s := by
  rw [Action.MovesStack,ignoreBegin,Action.ensures_bind,Action.ensures_get]
  split
  · exact keepNext_movesStack env s m.start
  · exact .stays

lemma acceptBegin_movesStack {rule : Rule} {id : NodeId} (hrule : rule ∈ (env.node s.top).rules.rules)
    (hkind : rule.kind = .begins id) : (acceptBegin env m id).MovesStack env s := by
  refine (takeBegin_takes env s _ _).bind_movesStack (fun s₁ hk => ?_)
  rw [Action.ensures_bind]
  refine (enter_ensures env _ m.start).mono (fun _ s₂ h => ?_) (fun _ s₂ h => ?_)
  · rw [h.1,State.push,hk.stack]
    exact .opens hrule hkind
  · rw [h.1,hk.stack]
    exact .stays

lemma reactToBegin_movesStack {rule : Rule} {id : NodeId} (hrule : rule ∈ (env.node s.top).rules.rules)
    (hkind : rule.kind = .begins id) : (reactToBegin env m id).MovesStack env s := by
  rw [reactToBegin]
  split
  · exact acceptBegin_movesStack hrule hkind
  · exact ignoreBegin_movesStack env s
  · split
    · exact keepNext_movesStack env s m.start
    · exact keepLexeme_movesStack env s

lemma widen_innermost (env : Env) (f : Frame) (stack : List Frame) : widen env f stack <+: f :: stack := by
  induction stack generalizing f with
  | nil => exact List.prefix_refl _
  | cons g stack ih =>
    cases stack with
    | nil => exact List.cons_prefix_cons.mpr ⟨rfl,List.nil_prefix⟩
    | cons h rest =>
      rw [widen]
      refine List.cons_prefix_cons.mpr ⟨rfl,?_⟩
      split
      · exact ih g
      · exact List.nil_prefix

lemma exists_widen (env : Env) (f : Frame) (below : List Frame) :
    ∃ wider rest, widen env f below = f :: wider ∧ f :: below = f :: wider ++ rest := by
  obtain ⟨rest,hrest⟩ := widen_innermost env f below
  unfold widen at hrest ⊢
  split at hrest
  · exact ⟨_,rest,rfl,hrest.symm⟩
  · exact ⟨[],rest,rfl,hrest.symm⟩

/-- An end closes modes from the inside. -/
lemma closing_innermost {position : Nat} {stack closed : List Frame}
    (h : closing env position stack = .ok (some closed)) : closed <+: stack := by
  induction stack generalizing closed with
  | nil => cases h
  | cons f stack ih =>
    rw [closing,except_bind_eq_ok] at h
    obtain ⟨ends,-,h⟩ := h
    split at h
    · obtain rfl := Option.some.inj (Except.ok.inj h)
      exact widen_innermost env f stack
    · split at h
      · obtain ⟨closed?,hclosed,h⟩ := except_bind_eq_ok.mp h
        obtain ⟨closed',rfl,rfl⟩ := Option.map_eq_some_iff.mp (Except.ok.inj h)
        exact List.cons_prefix_cons.mpr ⟨rfl,ih hclosed⟩
      · cases Except.ok.inj h

lemma stack_foldl_pop (closed : List Frame) :
    (closed.foldl (fun s f => s.pop env f) s).stack = s.stack.drop closed.length := by
  induction closed generalizing s with
  | nil => rfl
  | cons f closed ih =>
    rw [List.foldl_cons,ih,State.pop,List.drop_tail]
    rfl

/-- What is open once modes have closed: those around them, and perhaps the one that follows the
outermost of them. -/
inductive Uncovers (env : Env) (closed rest : List Frame) : List Frame → Prop where
  | around : Uncovers env closed rest rest
  | followed {f next : Frame} (hlast : closed.getLast? = some f)
      (hnext : (env.node f.node).starts = some next.node) : Uncovers env closed rest (next :: rest)

lemma Uncovers.moves {closed rest stack : List Frame} (h : Uncovers env closed rest stack) :
    Moves env (closed ++ rest) stack := by
  cases h with
  | around => exact .closes
  | followed hlast hnext =>
    obtain ⟨inside,rfl⟩ := List.getLast?_eq_some_iff.mp hlast
    rw [List.append_assoc]
    exact .follows hnext

lemma close_uncovers {closed rest : List Frame} (hstack : s.stack = closed ++ rest) :
    (close env m closed).Ensures s (fun _ s' => Uncovers env closed rest s'.stack)
      (fun _ s' => s'.stack = s.stack ∨ s'.stack = rest) := by
  rw [close,Action.ensures_bind,Action.ensures_get,Action.ensures_bind]
  refine (takeEnd_takes env s _ _).mono (fun _ s₁ h₁ => ?_) (fun _ _ h => .inl h.1.stack)
  rw [Action.ensures_bind]
  refine (forM_leave_ensures env closed).mono (fun _ s₂ h₂ => ?_) (fun _ _ => False.elim)
  have hrest : s₂.stack = rest := by
    rw [h₂,stack_foldl_pop,h₁.1.stack,hstack,List.drop_left]
  cases hlast : closed.getLast? with
  | none => exact hrest ▸ .around
  | some outermost =>
    dsimp only
    rw [Action.ensures_bind]
    refine (follow_ensures env s₂ outermost m.start).mono (fun _ s₃ h₃ => ?_)
      (fun _ _ h => .inr (h.1 ▸ hrest))
    rcases h₃ with rfl | ⟨next,hnext,rfl,-⟩
    · exact hrest ▸ .around
    · exact hrest ▸ .followed hlast hnext

lemma close_movesStack {closed : List Frame} (hclosed : closed <+: s.stack) :
    (close env m closed).MovesStack env s := by
  obtain ⟨rest,hstack⟩ := hclosed
  refine (close_uncovers hstack.symm).mono (fun _ _ h => hstack ▸ h.moves) (fun _ _ h => ?_)
  rcases h with h | h
  · exact moves_of_eq h
  · rw [h,← hstack]
    exact .closes

lemma reactToEnd_movesStack (env : Env) (s : State) : (reactToEnd env m).MovesStack env s := by
  rw [Action.MovesStack,reactToEnd,Action.ensures_bind,Action.ensures_get,Action.ensures_bind]
  refine Action.ensures_ofSearch (fun closed hclosed => ?_) .stays
  cases closed with
  | none => exact keepLexeme_movesStack env s
  | some closed => exact close_movesStack (closing_innermost hclosed)

lemma reactToIllegal_movesStack (env : Env) (s : State) : (reactToIllegal env m).MovesStack env s := by
  rw [reactToIllegal]
  split
  · exact keepNext_movesStack env s m.start
  · split
    · exact keepLexeme_movesStack env s
    · exact .stays

lemma react_movesStack (hm : ∃ rule ∈ (env.node s.top).rules.rules, rule.kind = m.kind) :
    (react env m).MovesStack env s := by
  obtain ⟨rule,hrule,hkind⟩ := hm
  rw [Action.MovesStack,react,Action.ensures_bind,Action.ensures_get]
  split
  · split
    · exact keepNext_movesStack env s m.start
    · exact .stays
  · rw [Action.ensures_bind,Action.ensures_modify]
    cases h : m.kind with
    | begins id =>
      exact reactToBegin_movesStack (s := { s with last := some m }) hrule (hkind.trans h)
    | ends => exact reactToEnd_movesStack env _
    | illegal => exact reactToIllegal_movesStack env _

end Reactions

/-- A step moves the stack at most once, also where it halts. -/
theorem step_movesStack (env : Env) (s : State) (number : Nat) : (step env number).MovesStack env s := by
  rw [Action.MovesStack,step,Action.ensures_bind]
  refine (nextMatch_ensures env s).mono (fun found s₁ h₁ => ?_)
    (fun _ _ h => h.1.elim (fun _ h => h ▸ .stays))
  obtain ⟨⟨resumeAt,rfl⟩,first,hexec⟩ := h₁
  cases found with
  | none => exact .stays
  | some m =>
    dsimp only
    split
    · exact .stays
    · rw [Action.ensures_bind,Action.ensures_get]
      refine (append_takes env _ _).bind_movesStack (fun s₂ hk => ?_)
      rw [Action.ensures_bind]
      have htop : s₂.top = s.top := by rw [State.top,hk.stack]; rfl
      have hm := RuleSet.exists_rule_of_exec hexec
      rw [← htop] at hm
      refine (react_movesStack hm).mono (fun moved s₃ h₃ => ?_) (fun _ _ h => hk.stack ▸ h)
      exact hk.stack ▸ h₃

/-- Moves lead from the first stack of a scan to that of any state that it visits. -/
theorem Visits.moves (h : Visits env s₀ s) : Relation.ReflTransGen (Moves env) s₀.stack s.stack := by
  have hstep : ∀ {number : Nat} {s s' : State} {outcome : Except Halt Bool},
      (Scan.step env number).run s = (outcome,s') → Moves env s.stack s'.stack := by
    intro number s s' outcome hs
    cases outcome with
    | ok goesOn => exact (step_movesStack env s number).ok hs
    | error halt => exact (step_movesStack env s number).error hs
  have hafter : ∀ {n s}, After env s₀ n s → Relation.ReflTransGen (Moves env) s₀.stack s.stack := by
    intro n s h
    induction h with
    | start => exact .refl
    | step _ hs ih => exact ih.tail (hstep hs)
  cases h with
  | start => exact .refl
  | step h hs => exact (hafter h).tail (hstep hs)
  | @finished n _ outcome h =>
    generalize he : (outcome,s) = e at h
    cases h with
    | halted h hs =>
      cases he
      exact (hafter h).tail (hstep hs)
    | @finished s₁ s₂ h hs =>
      -- what is left of the text is taken in at the end
      have hkeeps : (finish env).Ensures s₂ (fun _ s' => s'.stack = s₂.stack)
          (fun _ s' => s'.stack = s₂.stack) := by
        rw [finish,Action.ensures_bind,Action.ensures_get]
        exact (append_flush_takes env s₂ _).mono (fun _ _ h => h.1.stack) (fun _ _ h => h.1.stack)
      have hstack : s.stack = s₂.stack := by
        cases outcome with
        | ok u => exact hkeeps.ok he.symm
        | error halt => exact hkeeps.error he.symm
      rw [hstack]
      exact (hafter h).tail (hstep hs)

end Highlight.Scan
