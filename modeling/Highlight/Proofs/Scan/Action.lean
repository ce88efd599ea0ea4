import Highlight.Scan.Run
import Mathlib.Tactic.Lemma

/-!
What an action ensures of the states it ends in, whether it gives a value or halts. Each action has
one rule here, so that later proofs never run one.
-/
namespace Highlight

namespace Call

variable {α β : Type}

/-- Every value that a call can give is as `P` says. -/
def Gives (c : Call α) (P : α → Prop) : Prop :=
  ∀ keys a keys', c.run keys = (.ok a,keys') → P a

variable {P : α → Prop} {Q : β → Prop}

lemma gives_pure {a : α} (h : P a) : (pure a : Call α).Gives P := by
  intro _ _ _ hrun
  cases hrun
  exact h

lemma gives_throw (e : HighlightError) : (throw e : Call α).Gives P := by
  intro _ _ _ hrun
  cases hrun

lemma Gives.mono {c : Call α} {P' : α → Prop} (h : c.Gives P) (hP : ∀ a, P a → P' a) :
    c.Gives P' :=
  fun _ _ _ hrun => hP _ (h _ _ _ hrun)

lemma Gives.bind {x : Call α} {f : α → Call β} (hx : x.Gives P) (hf : ∀ a, P a → (f a).Gives Q) :
    (x >>= f).Gives Q := by
  intro keys b keys' hrun
  simp only [ExceptT.run_bind] at hrun
  simp only [StateT.bind,Bind.bind,Pure.pure] at hrun
  cases hfirst : x.run keys with
  | mk outcome keys₁ =>
    rw [hfirst] at hrun
    cases outcome with
    | error e => cases hrun
    | ok a => exact hf a (hx _ _ _ hfirst) _ _ _ hrun

lemma Gives.map {x : Call α} {f : α → β} (hx : x.Gives P) (hf : ∀ a, P a → Q (f a)) :
    (f <$> x).Gives Q := by
  rw [← bind_pure_comp]
  exact hx.bind (fun a ha => gives_pure (hf a ha))

/-- What the steps of a fold preserve holds of what it gives. -/
lemma gives_foldlM {f : β → α → Call β} {l : List α} (hf : ∀ b, Q b → ∀ a ∈ l, (f b a).Gives Q)
    {b : β} (hb : Q b) : (l.foldlM f b).Gives Q := by
  induction l generalizing b with
  | nil => exact gives_pure hb
  | cons a l ih =>
    rw [List.foldlM_cons]
    exact (hf b hb a List.mem_cons_self).bind
      (fun b' hb' => ih (fun b hb a ha => hf b hb a (List.mem_cons_of_mem _ ha)) hb')

end Call

namespace Scan

namespace Action

variable {α β : Type} {s : State} {H : Halt → State → Prop}

lemma run_bind_ok {x : Action α} {f : α → Action β} {a : α} {s' : State} (h : x.run s = (.ok a,s')) :
    (x >>= f).run s = (f a).run s' := by
  simp only [ExceptT.run_bind]
  simp only [StateT.bind,Bind.bind,Pure.pure]
  rw [h]

lemma run_bind_error {x : Action α} {f : α → Action β} {halt : Halt} (h : (x.run s).1 = .error halt) :
    ((x >>= f).run s).1 = .error halt := by
  simp only [ExceptT.run_bind]
  simp only [StateT.bind,Bind.bind,Pure.pure]
  rcases hx : x.run s with ⟨outcome,s'⟩
  rw [hx] at h
  rw [show outcome = .error halt from h]
  rfl

/-- From `s`, an action ends as `Q` says where it gives a value, and as `H` says where it halts. -/
def Ensures (x : Action α) (s : State) (Q : α → State → Prop) (H : Halt → State → Prop) : Prop :=
  match x.run s with
  | (.ok a,s') => Q a s'
  | (.error halt,s') => H halt s'

variable {Q Q' : α → State → Prop} {H' : Halt → State → Prop} {x : Action α}

lemma Ensures.ok {a : α} {s' : State} (h : x.Ensures s Q H) (hx : x.run s = (.ok a,s')) :
    Q a s' := by
  rw [Ensures,hx] at h
  exact h

lemma Ensures.error {halt : Halt} {s' : State} (h : x.Ensures s Q H)
    (hx : x.run s = (.error halt,s')) : H halt s' := by
  rw [Ensures,hx] at h
  exact h

lemma ensures_of_run (hok : ∀ a s', x.run s = (.ok a,s') → Q a s')
    (herror : ∀ halt s', x.run s = (.error halt,s') → H halt s') : x.Ensures s Q H := by
  rw [Ensures]
  split
  · exact hok _ _ ‹_›
  · exact herror _ _ ‹_›

lemma Ensures.mono (h : x.Ensures s Q H) (hQ : ∀ a s', Q a s' → Q' a s')
    (hH : ∀ halt s', H halt s' → H' halt s') : x.Ensures s Q' H' :=
  ensures_of_run (fun a s' hx => hQ a s' (h.ok hx)) (fun halt s' hx => hH halt s' (h.error hx))

lemma Ensures.and (h : x.Ensures s Q H) (h' : x.Ensures s Q' H') :
    x.Ensures s (fun a s' => Q a s' ∧ Q' a s') (fun halt s' => H halt s' ∧ H' halt s') :=
  ensures_of_run (fun _ _ hx => ⟨h.ok hx,h'.ok hx⟩) (fun _ _ hx => ⟨h.error hx,h'.error hx⟩)

@[simp] lemma ensures_pure (a : α) : (pure a : Action α).Ensures s Q H ↔ Q a s := Iff.rfl

@[simp] lemma ensures_throw (halt : Halt) : (throw halt : Action α).Ensures s Q H ↔ H halt s :=
  Iff.rfl

lemma ensures_bind (x : Action α) (f : α → Action β) {Q : β → State → Prop} :
    (x >>= f).Ensures s Q H ↔ x.Ensures s (fun a s' => (f a).Ensures s' Q H) H := by
  simp only [Ensures,ExceptT.run_bind]
  simp only [StateT.bind,bind,pure]
  cases x.run s with
  | mk outcome s' =>
    cases outcome <;> rfl

variable {Q : Unit → State → Prop}

@[simp] lemma ensures_modify (f : State → State) :
    (modify f : Action Unit).Ensures s Q H ↔ Q () (f s) := Iff.rfl

@[simp] lemma ensures_get {Q : State → State → Prop} :
    (get : Action State).Ensures s Q H ↔ Q s s := Iff.rfl

@[simp] lemma ensures_append (text : String) :
    (append text).Ensures s Q H ↔ Q () { s with buffer := s.buffer ++ text } := Iff.rfl

@[simp] lemma ensures_setBuffer (text : String) :
    (setBuffer text).Ensures s Q H ↔ Q () { s with buffer := text } := Iff.rfl

@[simp] lemma ensures_changeTree (f : Tree.Builder → Tree.Builder) :
    (changeTree f).Ensures s Q H ↔ Q () { s with tree := f s.tree } := Iff.rfl

@[simp] lemma ensures_score (relevance : Nat) :
    (score relevance).Ensures s Q H ↔
      Q () { s with relevance := addRelevance s.relevance relevance } := Iff.rfl

@[simp] lemma ensures_fail {Q : α → State → Prop} (f : Fault) :
    (fail f : Action α).Ensures s Q H ↔ H (.fault f) s := Iff.rfl

lemma ensures_ofSearch {Q : α → State → Prop} {r : Except Regex.GaveUp α}
    (hok : ∀ a, r = .ok a → Q a s) (hgave : H (.fault .searchGaveUp) s) :
    (ofSearch r).Ensures s Q H := by
  match r with
  | .ok a => exact hok a rfl
  | .error .gaveUp => exact hgave

lemma ensures_ofCall {Q : α → State → Prop} {c : Call α}
    (hok : ∀ a keys, c.run s.assembled = (.ok a,keys) → Q a { s with assembled := keys })
    (herror : ∀ e keys, c.run s.assembled = (.error e,keys) →
      H (.error e) { s with assembled := keys }) : (ofCall c).Ensures s Q H := by
  simp only [ofCall,ensures_bind,ensures_get]
  cases hc : c.run s.assembled with
  | mk outcome keys =>
    cases outcome with
    | ok a => exact hok a keys hc
    | error e => exact herror e keys hc

/-- What holds of the actions that are left, each of them establishes for those after it. -/
lemma ensures_forM {P : List α → State → Prop} {f : α → Action Unit}
    (hf : ∀ a l s, P (a :: l) s → (f a).Ensures s (fun _ => P l) H) {l : List α} (h : P l s) :
    (l.forM f).Ensures s (fun _ => P []) H := by
  induction l generalizing s with
  | nil => exact h
  | cons a l ih =>
    change (f a >>= fun _ => l.forM f).Ensures s _ H
    rw [ensures_bind]
    exact (hf a l s h).mono (fun _ _ h => ih h) (fun _ _ h => h)

end Action

/-! What the actions that look at the state first do in a state. -/
section Runs

variable (env : Env) (m : Rules.RuleMatch) (s : State)

lemma run_flush : (flush env).run s = (match (env.node s.top).subLanguage with
    | some sub => do flushEmbedded env (env.node s.top) sub s.buffer; Action.setBuffer ""
    | none => do flushKeywords env (env.node s.top) s.buffer; Action.setBuffer "" : Action Unit).run s :=
  Action.run_bind_ok (x := (get : Action State)) rfl

lemma run_reactToEnd : (reactToEnd env m).run s =
    (Action.ofSearch (closing env m.start s.stack) >>= fun closed =>
      closed.elim (keepLexeme env m) (close env m)).run s := by
  have hreact : reactToEnd env m = (get >>= fun s =>
      Action.ofSearch (closing env m.start s.stack) >>= fun closed =>
        closed.elim (keepLexeme env m) (close env m) : Action Nat) := by
    refine bind_congr (fun s => bind_congr (fun closed => ?_))
    cases closed <;> rfl
  rw [hreact]
  exact Action.run_bind_ok rfl

lemma run_react : (react env m).run s = (if stalls s.last m then
      if env.safeMode then keepNext env m.start
      else Action.fail (.zeroWidthMatch (env.text.byteOffset m.start))
    else do
      modify fun s => { s with last := some m }
      match m.kind with
      | .begins id => reactToBegin env m id
      | .ends => reactToEnd env m
      | .illegal => reactToIllegal env m : Action Nat).run s :=
  Action.run_bind_ok (x := (get : Action State)) rfl

end Runs
end Scan
end Highlight
