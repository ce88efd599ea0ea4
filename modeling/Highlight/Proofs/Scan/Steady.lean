import Highlight.Proofs.Scan.LockStep

/-!
What is recorded of assembled grammars decides nothing: a scan does the same from two states that
differ in the record only, if the calls for embedded texts do.
-/
namespace Highlight

namespace Call

variable {α β : Type}

/-- A call comes out the same whatever is assembled before it. -/
def Steady (c : Call α) : Prop := ∀ keys keys', (c.run keys).1 = (c.run keys').1

lemma steady_pure (a : α) : (pure a : Call α).Steady := fun _ _ => rfl

lemma steady_throw (e : HighlightError) : (throw e : Call α).Steady := fun _ _ => rfl

lemma steady_noteAssembled (key : String) : (noteAssembled key).Steady := fun _ _ => rfl

/-- What a call comes to if what it begins with fails, or gives a value. -/
lemma run_bind_fst (x : Call α) (f : α → Call β) (keys : List String) :
    ((x >>= f).run keys).1 = (x.run keys).1 >>= fun a => ((f a).run (x.run keys).2).1 := by
  simp only [ExceptT.run_bind]
  simp only [StateT.bind,Bind.bind,Pure.pure]
  rcases x.run keys with ⟨e | a,keys'⟩ <;> rfl

lemma Steady.run_bind_fst {x : Call α} {f : α → Call β} (hx : x.Steady) (hf : ∀ a, (f a).Steady)
    (keys keys' : List String) :
    ((x >>= f).run keys).1 = (x.run keys').1 >>= fun a => ((f a).run keys').1 := by
  rw [Call.run_bind_fst,hx keys keys']
  exact congrArg _ (funext fun a => hf a _ _)

lemma Steady.bind {x : Call α} {f : α → Call β} (hx : x.Steady) (hf : ∀ a, (f a).Steady) :
    (x >>= f).Steady := by
  intro keys keys'
  rw [hx.run_bind_fst hf keys keys',← hx.run_bind_fst hf]

lemma Steady.map {x : Call α} (f : α → β) (hx : x.Steady) : (f <$> x).Steady := by
  rw [← bind_pure_comp]
  exact hx.bind (fun a => steady_pure (f a))

lemma steady_foldlM {f : β → α → Call β} (hf : ∀ b a, (f b a).Steady) (l : List α) (b : β) :
    (l.foldlM f b).Steady := by
  induction l generalizing b with
  | nil => exact steady_pure b
  | cons a l ih =>
    rw [List.foldlM_cons]
    exact (hf b a).bind ih

end Call

namespace Scan

open Rules

/-- The state without its record of assembled grammars. -/
def State.bare (s : State) : State := { s with assembled := [] }

variable {α β : Type} {env : Env}

/-- An action does the same, up to the record, whatever is on record. -/
def Action.Steady (x : Action α) : Prop :=
  ∀ s, Prod.map id State.bare (x.run s) = Prod.map id State.bare (x.run s.bare)

namespace Action

variable {x : Action α}

lemma Steady.congr (hx : x.Steady) {s s' : State} (h : s.bare = s'.bare) :
    Prod.map id State.bare (x.run s) = Prod.map id State.bare (x.run s') := by
  rw [hx s,h,← hx s']

lemma Steady.bind {f : α → Action β} (hx : x.Steady) (hf : ∀ a, (f a).Steady) : (x >>= f).Steady := by
  intro s
  have h := hx s
  simp only [ExceptT.run_bind]
  simp only [StateT.bind,Bind.bind,Pure.pure]
  rcases hs : x.run s with ⟨halt | a,s₁⟩ <;> rcases hbare : x.run s.bare with ⟨halt' | a',s₂⟩ <;>
    rw [hs,hbare] at h <;> obtain ⟨ho,hs'⟩ := Prod.mk.inj h <;> cases ho
  · exact congrArg (Prod.mk _) hs'
  · exact (hf a).congr hs'

/-- An action may look at the state, but not at the record. -/
lemma steady_get_bind {f : State → Action β} (hbare : ∀ s, f s.bare = f s) (hf : ∀ s, (f s).Steady) :
    (get >>= f).Steady := by
  intro s
  change Prod.map id State.bare ((f s).run s) = Prod.map id State.bare ((f s.bare).run s.bare)
  rw [hbare]
  exact hf s s

lemma steady_modify {f : State → State} (hf : ∀ s, (f s).bare = (f s.bare).bare) :
    (modify f : Action PUnit).Steady :=
  fun s => congrArg (Prod.mk _) (hf s)

lemma steady_pure (a : α) : (pure a : Action α).Steady := fun _ => rfl

lemma steady_throw (halt : Halt) : (throw halt : Action α).Steady := fun _ => rfl

lemma steady_fail (f : Fault) : (fail f : Action α).Steady := steady_throw _

lemma steady_append (text : String) : (append text).Steady := steady_modify (fun _ => rfl)

lemma steady_setBuffer (text : String) : (setBuffer text).Steady := steady_modify (fun _ => rfl)

lemma steady_changeTree (f : Tree.Builder → Tree.Builder) : (changeTree f).Steady :=
  steady_modify (fun _ => rfl)

lemma steady_score (relevance : Nat) : (score relevance).Steady := steady_modify (fun _ => rfl)

lemma steady_ofSearch (r : Except Regex.GaveUp α) : (ofSearch r).Steady := by
  match r with
  | .ok a => exact steady_pure a
  | .error .gaveUp => exact steady_fail _

lemma steady_ofCall {c : Call α} (hc : c.Steady) : (ofCall c).Steady := by
  intro s
  rw [run_ofCall,run_ofCall,hc s.assembled s.bare.assembled]
  rfl

lemma steady_forM {f : α → Action PUnit} (hf : ∀ a, (f a).Steady) (l : List α) : (l.forM f).Steady := by
  induction l with
  | nil => exact steady_pure _
  | cons a l ih => exact (hf a).bind (fun _ => ih)

/-- A choice between two actions. -/
lemma Steady.ite {p : Prop} [Decidable p] {y : Action α} (hx : x.Steady) (hy : y.Steady) :
    (if p then x else y).Steady := by
  split
  · exact hx
  · exact hy

end Action

open Highlight.Scan.Action

/-- The calls for embedded texts come out the same whatever is assembled. -/
def Env.Steady (env : Env) : Prop :=
  ∀ {sub c code run}, env.embed sub c code = some run → run.Steady

lemma steady_addPiece (p : Piece) : (addPiece p).Steady := by
  cases p with
  | plain text =>
    rw [addPiece]
    exact steady_changeTree _
  | keyword text entry =>
    rw [addPiece]
    exact (steady_score _).bind (fun _ => steady_changeTree _)

lemma steady_flushKeywords (env : Env) (node : Node) (buffer : String) :
    (flushKeywords env node buffer).Steady := by
  rw [flushKeywords]
  split
  · exact steady_changeTree _
  · exact (steady_ofSearch _).bind (fun _ => steady_forM steady_addPiece _)

lemma steady_addEmbedded (node : Node) (sub : SubLanguage) (r : Result) :
    (addEmbedded node sub r).Steady := by
  have hcarry : ∀ s : State, (s.carry sub r.continuation).bare =
      (s.bare.carry sub r.continuation).bare := by
    intro s
    unfold State.carry
    split <;> rfl
  exact (steady_modify hcarry).bind (fun _ =>
    ((steady_score _).bind (fun _ => steady_changeTree _)).ite (steady_changeTree _))

lemma steady_flushEmbedded (h : env.Steady) (node : Node) (sub : SubLanguage) (buffer : String) :
    (flushEmbedded env node sub buffer).Steady := by
  refine (steady_pure _).ite (steady_get_bind (fun s => ?_) (fun s => ?_))
  · rw [show s.bare.carried sub = s.carried sub by cases sub <;> rfl]
  · split
    · exact steady_changeTree _
    · exact (steady_ofCall (h ‹_›)).bind (fun r => steady_addEmbedded node sub r)

lemma steady_flush (h : env.Steady) : (flush env).Steady := by
  refine steady_get_bind (fun _ => rfl) (fun s => ?_)
  dsimp only
  split
  · exact (steady_flushEmbedded h _ _ _).bind (fun _ => steady_setBuffer _)
  · exact (steady_flushKeywords env _ _).bind (fun _ => steady_setBuffer _)

lemma steady_keepLexeme (env : Env) (m : RuleMatch) : (keepLexeme env m).Steady :=
  (steady_append _).bind (fun _ => steady_pure _)

lemma steady_keepNext (env : Env) (position : Nat) : (keepNext env position).Steady := by
  rw [keepNext]
  split
  · exact (steady_append _).bind (fun _ => steady_pure _)
  · exact steady_pure _

lemma steady_enter (env : Env) (frame : Frame) (position : Nat) : (enter env frame position).Steady :=
  have hpush : (do changeTree (openMode env.table frame)
                   modify fun s => { s with stack := frame :: s.stack } : Action Unit).Steady :=
    (steady_changeTree _).bind (fun _ => steady_modify (fun _ => rfl))
  steady_get_bind (fun _ => rfl) (fun _ => ((steady_fail _).bind (fun _ => hpush)).ite hpush)

lemma steady_ignoreBegin (env : Env) (m : RuleMatch) : (ignoreBegin env m).Steady :=
  steady_get_bind (fun _ => rfl) (fun _ => (steady_keepNext env _).ite
    ((steady_modify (fun _ => rfl)).bind (fun _ => steady_pure _)))

lemma steady_put (h : env.Steady) (lexeme : String) (place : Place) : (put env lexeme place).Steady := by
  have hflush := steady_flush h
  cases place with
  | within => exact steady_append _
  | before => exact (steady_append _).bind (fun _ => hflush)
  | after => exact hflush.bind (fun _ => steady_setBuffer _)
  | nowhere => exact hflush

lemma steady_acceptBegin (h : env.Steady) (m : RuleMatch) (id : NodeId) :
    (acceptBegin env m id).Steady := by
  rw [acceptBegin,takeBegin_eq_put]
  exact (steady_put h _ _).bind (fun _ => (steady_enter env _ _).bind (fun _ => steady_pure _))

lemma steady_reactToBegin (h : env.Steady) (m : RuleMatch) (id : NodeId) :
    (reactToBegin env m id).Steady := by
  rw [reactToBegin]
  split
  · exact steady_acceptBegin h m id
  · exact steady_ignoreBegin env m
  · exact (steady_keepNext env _).ite (steady_keepLexeme env m)

lemma steady_leave (env : Env) (f : Frame) : (leave env f).Steady := by
  have hscore := (steady_score (env.node f.node).relevance).ite
    (p := (!(env.node f.node).switches.skip && (env.node f.node).subLanguage.isNone) = true) (steady_pure ())
  exact (steady_modify (fun _ => rfl)).bind (fun _ => ((steady_changeTree _).bind (fun _ => hscore)).ite hscore)

lemma steady_follow (env : Env) (f : Frame) (position : Nat) : (follow env f position).Steady := by
  rw [follow]
  split
  · exact steady_enter env _ _
  · exact steady_pure _

lemma steady_close (h : env.Steady) (m : RuleMatch) (closed : List Frame) :
    (close env m closed).Steady := by
  simp only [close,takeEnd_eq_put]
  refine steady_get_bind (fun _ => rfl) (fun s => (steady_put h _ _).bind (fun _ =>
    (steady_forM (steady_leave env) closed).bind (fun _ => ?_)))
  cases closed.getLast? with
  | none => exact steady_pure _
  | some outermost => exact (steady_follow env _ _).bind (fun _ => steady_pure _)

lemma steady_reactToEnd (h : env.Steady) (m : RuleMatch) : (reactToEnd env m).Steady := by
  refine steady_get_bind (fun _ => rfl) (fun s => (steady_ofSearch _).bind (fun closed => ?_))
  split
  · exact steady_close h m _
  · exact steady_keepLexeme env m

lemma steady_reactToIllegal (env : Env) (m : RuleMatch) : (reactToIllegal env m).Steady :=
  (steady_keepNext env _).ite ((steady_keepLexeme env m).ite (steady_throw _))

lemma steady_react (h : env.Steady) (m : RuleMatch) : (react env m).Steady := by
  refine steady_get_bind (fun _ => rfl) (fun s => ((steady_keepNext env _).ite (steady_fail _)).ite
    ((steady_modify (fun _ => rfl)).bind (fun _ => ?_)))
  split
  · exact steady_reactToBegin h m _
  · exact steady_reactToEnd h m
  · exact steady_reactToIllegal env m

lemma steady_nextMatch (env : Env) : (nextMatch env).Steady := by
  refine (steady_modify (fun _ => rfl)).bind (fun _ => steady_get_bind (fun _ => rfl) (fun s => ?_))
  dsimp only
  split
  · exact steady_fail _
  · exact steady_pure _
  · exact ((steady_modify (fun _ => rfl)).bind (fun _ => steady_pure _)).ite (steady_pure _)

lemma steady_step (h : env.Steady) (number : Nat) : (step env number).Steady := by
  refine (steady_nextMatch env).bind (fun found => ?_)
  split
  · exact steady_pure _
  · rename_i m
    have hreact := steady_get_bind (f := fun s => do
        append (env.text.slice s.position m.start)
        let moved ← react env m
        modify fun s => { s with position := m.start + moved }
        return decide (m.start + moved ≤ env.text.size)) (fun _ => rfl)
      (fun s => (steady_append _).bind (fun _ => (steady_react h m).bind (fun _ =>
        (steady_modify (fun _ => rfl)).bind (fun _ => steady_pure _))))
    exact ((steady_fail _).bind (fun _ => hreact)).ite hreact

lemma steady_finish (h : env.Steady) : (finish env).Steady :=
  steady_get_bind (fun _ => rfl) (fun _ => (steady_append _).bind (fun _ => steady_flush h))

lemma steady_steps (h : env.Steady) (n number : Nat) : Action.Steady (ExceptT.mk (steps env n number)) := by
  induction n generalizing number with
  | zero => exact steady_finish h
  | succ n ih =>
    rw [steps_succ]
    exact (steady_step h number).bind (fun _ => (ih (number + 1)).ite (steady_finish h))

/-- What is recorded at the start of a scan decides nothing in it. -/
theorem steady_run (h : env.Steady) : Action.Steady (ExceptT.mk (run env)) :=
  steady_steps h (stepLimit env) 1

lemma bare_opened (table : NodeTable) (c : Option Continuation) (keys keys' : List String) :
    (State.opened table c keys).bare = (State.opened table c keys').bare := by
  unfold State.opened
  split
  · split <;> rfl
  · rfl

lemma conclude_bare (env : Env) (settings : Settings) (language code : String) (s : State)
    (outcome : Except Halt Unit) :
    conclude env settings language code s.bare outcome = conclude env settings language code s outcome := by
  match outcome with
  | .ok () => rfl
  | .error (.illegal _) => rfl
  | .error (.fault _) => rfl
  | .error (.error _) => rfl

end Scan
end Highlight
