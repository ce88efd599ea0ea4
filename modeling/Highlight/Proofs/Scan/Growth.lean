import Highlight.Proofs.Continuations

/-!
How the tree of a scan grows: by text, by keywords, by results of embedded grammars, and by scopes
that open and close. What each of these keeps true of the tree is true of it in every state, and what
all results of embedded grammars say of the modes that they leave open is true of those on record.
-/
namespace Highlight

open Highlight.Tree (Builder)

/-- What stays true of a tree under construction while a buffer is put into it, given what is true of the
trees that are embedded in it. -/
structure Tree.Builder.Growing (E : List Tree → Prop) (P : Builder → Prop) : Prop where
  addText : ∀ {b} (text : String), P b → P (b.addText text)
  addKeyword : ∀ {b} (text kind : String), P b → P (b.addKeyword text kind)
  addEmbedded : ∀ {b children} (kind : Option String), E children → P b → P (b.addEmbedded children kind)

/-- What stays true of a tree under construction. A scope opens only where fewer modes are open than may
be. -/
structure Tree.Builder.Invariant (E : List Tree → Prop) (P : Builder → Prop) : Prop extends
    Tree.Builder.Growing E P where
  openScope : ∀ {b} (kind : String), b.depth ≤ Scan.maxOpenModes → P b → P (b.openScope kind)
  closeScope : ∀ {b}, P b → P b.closeScope

namespace Scan

namespace Action

variable {α β : Type} {I : State → Prop} {x : Action α}

/-- However an action ends, what held of the state at its start holds at its end. -/
def Preserves (x : Action α) (I : State → Prop) : Prop :=
  ∀ s, I s → x.Ensures s (fun _ => I) (fun _ => I)

lemma preserves_pure (a : α) : (pure a : Action α).Preserves I := fun _ hs => hs

lemma preserves_modify {f : State → State} (hf : ∀ s, I s → I (f s)) :
    (modify f : Action Unit).Preserves I := hf

lemma preserves_ofSearch (r : Except Regex.GaveUp α) : (ofSearch r).Preserves I :=
  fun _ hs => ensures_ofSearch (fun _ _ => hs) hs

lemma Preserves.bind {f : α → Action β} (hx : x.Preserves I) (hf : ∀ a, (f a).Preserves I) :
    (x >>= f).Preserves I := by
  intro s hs
  rw [ensures_bind]
  exact (hx s hs).mono (fun a s' hs' => hf a s' hs') (fun _ _ h => h)

lemma Preserves.ite {p : Prop} [Decidable p] {y : Action α} (hx : x.Preserves I) (hy : y.Preserves I) :
    (if p then x else y).Preserves I := by
  split
  · exact hx
  · exact hy

lemma preserves_forM {f : α → Action Unit} (hf : ∀ a, (f a).Preserves I) (l : List α) :
    (l.forM f).Preserves I :=
  fun _ hs => ensures_forM (P := fun _ => I) (fun a _ s hs => hf a s hs) hs

end Action

open Rules Highlight.Scan.Action

variable {E : List Tree → Prop} {P : Builder → Prop} {R : Continuation → Prop}
variable {env : Env} {s s' s₀ : State} {m : RuleMatch} {inner : List Frame}

/-- The tree is as `P` says, and the modes in which embedded grammars go on are as `R` says. -/
structure State.Bears (P : Builder → Prop) (R : Continuation → Prop) (s : State) : Prop where
  tree : P s.tree
  embedded : ∀ entry ∈ s.embedded, R entry.2

/-- Calls for the embedded texts of a mode give trees as `E` says, and leave modes open as `R` says, if
they go on in such modes. -/
def Env.Bears (E : List Tree → Prop) (R : Continuation → Prop) (env : Env) : Prop :=
  ∀ {id sub c code run}, (env.node id).subLanguage = some sub → env.embed sub c code = some run →
    (∀ c', c = some c' → R c') → run.Gives (fun r => E r.tree ∧ ∀ c', r.continuation = some c' → R c')

lemma Env.bears_trivial (env : Env) : env.Bears (fun _ => True) (fun _ => True) :=
  fun _ _ _ _ _ _ _ => ⟨trivial,fun _ _ => trivial⟩

lemma preserves_modify_aside {f : State → State} (htree : ∀ s, (f s).tree = s.tree)
    (hembedded : ∀ s, (f s).embedded = s.embedded) : (modify f : Action Unit).Preserves (State.Bears P R) :=
  preserves_modify (fun s hs => ⟨(htree s).symm ▸ hs.tree,(hembedded s).symm ▸ hs.embedded⟩)

lemma append_preserves (text : String) : (append text).Preserves (State.Bears P R) :=
  preserves_modify_aside (fun _ => rfl) (fun _ => rfl)

lemma setBuffer_preserves (text : String) : (setBuffer text).Preserves (State.Bears P R) :=
  preserves_modify_aside (fun _ => rfl) (fun _ => rfl)

lemma score_preserves (relevance : Nat) : (score relevance).Preserves (State.Bears P R) :=
  preserves_modify_aside (fun _ => rfl) (fun _ => rfl)

lemma changeTree_preserves {f : Builder → Builder} (hf : ∀ b, P b → P (f b)) :
    (changeTree f).Preserves (State.Bears P R) :=
  preserves_modify (fun _ hs => ⟨hf _ hs.tree,hs.embedded⟩)

lemma keepLexeme_preserves (env : Env) (m : RuleMatch) : (keepLexeme env m).Preserves (State.Bears P R) :=
  (append_preserves _).bind (fun _ => preserves_pure _)

lemma keepNext_preserves (env : Env) (position : Nat) :
    (keepNext env position).Preserves (State.Bears P R) := by
  rw [keepNext]
  split
  · exact (append_preserves _).bind (fun _ => preserves_pure _)
  · exact preserves_pure _

lemma ignoreBegin_preserves (env : Env) (m : RuleMatch) : (ignoreBegin env m).Preserves (State.Bears P R) := by
  intro s hs
  rw [ignoreBegin,ensures_bind,ensures_get]
  split
  · exact keepNext_preserves env _ s hs
  · exact ⟨hs.tree,hs.embedded⟩

lemma reactToIllegal_preserves (env : Env) (m : RuleMatch) :
    (reactToIllegal env m).Preserves (State.Bears P R) :=
  (keepNext_preserves env _).ite ((keepLexeme_preserves env m).ite (fun _ hs => hs))

section

variable (hP : Builder.Growing E P)

include hP

lemma addPiece_preserves (p : Piece) : (addPiece p).Preserves (State.Bears P R) := by
  cases p with
  | plain text =>
    rw [addPiece]
    exact changeTree_preserves (fun _ => hP.addText text)
  | keyword text entry =>
    rw [addPiece]
    exact (score_preserves _).bind (fun _ => changeTree_preserves (fun _ => hP.addKeyword text _))

lemma flushKeywords_preserves (node : Node) (buffer : String) :
    (flushKeywords env node buffer).Preserves (State.Bears P R) := by
  rw [flushKeywords]
  split
  · exact changeTree_preserves (fun _ => hP.addText buffer)
  · exact (preserves_ofSearch _).bind (fun _ => preserves_forM (addPiece_preserves hP) _)

lemma addEmbedded_preserves (node : Node) (sub : SubLanguage) {r : Result}
    (hr : E r.tree ∧ ∀ c, r.continuation = some c → R c) :
    (addEmbedded node sub r).Preserves (State.Bears P R) := by
  have hcarry : ∀ (s : State) (c : Option Continuation), (∀ c', c = some c' → R c') → s.Bears P R →
      (s.carry sub c).Bears P R := by
    intro s c hc hs
    unfold State.carry
    split
    · rename_i c
      refine ⟨hs.tree,fun entry hentry => ?_⟩
      rcases List.mem_cons.mp hentry with rfl | hentry
      · exact hc c rfl
      · exact hs.embedded entry (List.mem_filter.mp hentry).1
    · exact hs
  have hadd : ∀ kind, (changeTree (·.addEmbedded r.tree kind)).Preserves (State.Bears P R) :=
    fun kind => changeTree_preserves (fun _ => hP.addEmbedded kind hr.1)
  exact (preserves_modify (fun s => hcarry s _ hr.2)).bind (fun _ =>
    ((score_preserves _).bind (fun _ => hadd _)).ite (hadd _))

lemma flushEmbedded_preserves (hE : env.Bears E R) (node : Node) {id : NodeId} {sub : SubLanguage}
    (hsub : (env.node id).subLanguage = some sub) (buffer : String) :
    (flushEmbedded env node sub buffer).Preserves (State.Bears P R) := by
  refine (preserves_pure _).ite (fun s hs => ?_)
  have hcarried : ∀ c, s.carried sub = some c → R c := by
    intro c hc
    cases sub with
    | named name =>
      obtain ⟨before,after,hsplit,-⟩ := List.lookup_eq_some_iff.mp hc
      exact hs.embedded (name,c) (hsplit ▸ List.mem_append_right _ List.mem_cons_self)
    | auto listed => cases hc
  rw [ensures_bind,ensures_get]
  cases hcall : env.embed sub (s.carried sub) buffer with
  | none => exact changeTree_preserves (fun _ => hP.addText buffer) s hs
  | some run =>
    dsimp only
    rw [ensures_bind]
    exact ensures_ofCall (fun r keys hr => addEmbedded_preserves hP node sub
      (hE hsub hcall hcarried _ _ _ hr) _ ⟨hs.tree,hs.embedded⟩) (fun _ _ _ => ⟨hs.tree,hs.embedded⟩)

lemma flush_preserves (hE : env.Bears E R) : (flush env).Preserves (State.Bears P R) := by
  intro s hs
  rw [flush,ensures_bind,ensures_get]
  dsimp only
  split
  · exact (flushEmbedded_preserves hP hE _ ‹_› _).bind (fun _ => setBuffer_preserves _) s hs
  · exact (flushKeywords_preserves hP _ _).bind (fun _ => setBuffer_preserves _) s hs

lemma put_preserves (hE : env.Bears E R) (lexeme : String) (place : Place) :
    (put env lexeme place).Preserves (State.Bears P R) := by
  have hflush := flush_preserves (R := R) hP hE
  cases place with
  | within => exact append_preserves _
  | before => exact (append_preserves _).bind (fun _ => hflush)
  | after => exact hflush.bind (fun _ => setBuffer_preserves _)
  | nowhere => exact hflush

end

section

variable (hP : Builder.Invariant E P)

include hP

/-- Where a mode may be opened, its scope may. -/
lemma State.Bears.push (hs : s.Bears P R) (hstack : WellStacked env s)
    (hlen : s.stack.length ≤ maxOpenModes) (f : Frame) : (s.push env f).Bears P R := by
  obtain ⟨inner,hstack⟩ := hstack
  have hdepth : s.tree.depth ≤ maxOpenModes := by
    have hcount := List.countP_le_length (p := hasScope env.table) (l := inner)
    rw [hstack.stack,List.length_append,List.length_singleton] at hlen
    rw [hstack.depth]
    omega
  refine ⟨?_,hs.embedded⟩
  rw [State.push,openMode]
  split
  · exact hP.openScope _ hdepth hs.tree
  · exact hs.tree

lemma State.Bears.pops (hs : s.Bears P R) (closed : List Frame) :
    (closed.foldl (fun s f => s.pop env f) s).Bears P R := by
  induction closed generalizing s with
  | nil => exact hs
  | cons f closed ih =>
    refine ih ⟨?_,hs.embedded⟩
    unfold State.pop
    dsimp only
    split
    · exact hP.closeScope hs.tree
    · exact hs.tree

lemma acceptBegin_bears (hE : env.Bears E R) (hstack : WellStacked env s) (hs : s.Bears P R) (id : NodeId) :
    (acceptBegin env m id).Ensures s (fun _ => State.Bears P R) (fun _ => State.Bears P R) := by
  rw [acceptBegin,takeBegin_eq_put,ensures_bind]
  refine ((put_takes env s _ _).and (put_preserves hP.toGrowing hE _ _ s hs)).mono (fun _ s₁ h₁ => ?_)
    (fun _ _ h => h.2)
  rw [ensures_bind]
  refine (enter_ensures env _ _).mono (fun _ s₂ h₂ => ?_) (fun _ _ h => h.1 ▸ h₁.2)
  exact h₂.1 ▸ h₁.2.push hP (hstack.keeps h₁.1.1) h₂.2 _

lemma close_bears (hE : env.Bears E R) (hstack : Nested env inner s) (hs : s.Bears P R)
    {closed : List Frame} (hclosed : closed <+: inner) :
    (close env m closed).Ensures s (fun _ => State.Bears P R) (fun _ => State.Bears P R) := by
  obtain ⟨rest,rfl⟩ := hclosed
  rw [close,ensures_bind,ensures_get]
  dsimp only
  rw [takeEnd_eq_put,ensures_bind]
  refine ((put_takes env s _ _).and (put_preserves hP.toGrowing hE _ _ s hs)).mono (fun _ s₁ h₁ => ?_)
    (fun _ _ h => h.2)
  rw [ensures_bind]
  refine (forM_leave_ensures env closed).mono (fun _ s₂ h₂ => ?_) (fun _ _ => False.elim)
  have hs₂ : s₂.Bears P R := h₂ ▸ h₁.2.pops hP closed
  cases closed.getLast? with
  | none => exact hs₂
  | some outermost =>
    dsimp only
    rw [ensures_bind]
    refine (follow_ensures env s₂ outermost m.start).mono (fun _ s₃ h₃ => ?_) (fun _ _ h => h.1 ▸ hs₂)
    rcases h₃ with rfl | ⟨frame,-,rfl,hlen⟩
    · exact hs₂
    · exact hs₂.push hP ⟨rest,h₂ ▸ (hstack.keeps h₁.1.1).pops⟩ hlen frame

lemma react_bears (ht : env.table.Closed) (hE : env.Bears E R) (hstack : WellStacked env s)
    (hs : s.Bears P R) :
    (react env m).Ensures s (fun _ => State.Bears P R) (fun _ => State.Bears P R) := by
  rw [react,ensures_bind,ensures_get]
  split
  · split
    · exact keepNext_preserves env _ s hs
    · exact hs
  · rw [ensures_bind,ensures_modify]
    have hs : State.Bears P R { s with last := some m } := ⟨hs.tree,hs.embedded⟩
    obtain ⟨inner,h⟩ := hstack
    have hstack : Nested env inner { s with last := some m } := ⟨h.stack,h.isInner,h.length_le,h.depth⟩
    cases m.kind with
    | begins id =>
      dsimp only
      rw [reactToBegin]
      split
      · exact acceptBegin_bears hP hE ⟨_,hstack⟩ hs id
      · exact ignoreBegin_preserves env m _ hs
      · exact (keepNext_preserves env _).ite (keepLexeme_preserves env m) _ hs
    | ends =>
      dsimp only
      rw [reactToEnd,ensures_bind,ensures_get,ensures_bind]
      refine ensures_ofSearch (fun closed hclosed => ?_) hs
      cases closed with
      | none => exact keepLexeme_preserves env m _ hs
      | some closed =>
        rw [hstack.stack] at hclosed
        exact close_bears hP hE hstack hs (closing_inner ht hclosed)
    | illegal => exact reactToIllegal_preserves env m _ hs

/-- A step keeps the tree and the record as they were said to be, also where it halts. -/
theorem step_bears (ht : env.table.Closed) (hE : env.Bears E R) (hstack : WellStacked env s)
    (hs : s.Bears P R) (number : Nat) :
    (step env number).Ensures s (fun _ => State.Bears P R) (fun _ => State.Bears P R) := by
  have hwith : ∀ resumeAt, State.Bears P R { s with resumeAt, stays := false } :=
    fun _ => ⟨hs.tree,hs.embedded⟩
  rw [step,ensures_bind]
  refine (nextMatch_ensures env s).mono (fun found s₁ h₁ => ?_) (fun _ _ h => h.1.elim (fun _ h => h ▸ hwith _))
  obtain ⟨⟨resumeAt,rfl⟩,-⟩ := h₁
  cases found with
  | none => exact hwith resumeAt
  | some m =>
    dsimp only
    split
    · exact hwith resumeAt
    · obtain ⟨inner,h⟩ := hstack
      have hstack : WellStacked env { s with resumeAt, stays := false } :=
        ⟨inner,h.stack,h.isInner,h.length_le,h.depth⟩
      rw [ensures_bind,ensures_get,ensures_bind]
      refine ((append_takes env _ _).and (append_preserves _ _ (hwith resumeAt))).mono (fun _ s₂ h₂ => ?_)
        (fun _ _ h => h.2)
      rw [ensures_bind]
      exact (react_bears hP ht hE (hstack.keeps h₂.1.1) h₂.2).mono
        (fun _ _ h => ⟨h.tree,h.embedded⟩) (fun _ _ h => h)

lemma finish_preserves (hE : env.Bears E R) : (finish env).Preserves (State.Bears P R) := by
  intro s hs
  rw [finish,ensures_bind,ensures_get]
  exact (append_preserves _).bind (fun _ => flush_preserves hP.toGrowing hE) s hs

/-- What holds of the tree at the start of a scan, and of the modes on record, holds in every state
that the scan visits. -/
theorem Visits.bears (ht : env.table.Closed) (hE : env.Bears E R) (hstack : WellStacked env s₀)
    (h₀ : s₀.Bears P R) (h : Visits env s₀ s) : s.Bears P R := by
  have hafter : ∀ {n s}, After env s₀ n s → s.Bears P R := by
    intro n s h
    induction h with
    | start => exact h₀
    | step h hs ih => exact (step_bears hP ht hE (h.visits.wellStacked ht hstack) ih _).ok hs
  have hstep : ∀ {n s s' outcome}, After env s₀ n s → (Scan.step env (n + 1)).run s = (outcome,s') →
      s'.Bears P R := by
    intro n s s' outcome h hs
    have hensures := step_bears hP ht hE (h.visits.wellStacked ht hstack) (hafter h) (n + 1)
    cases outcome with
    | ok goesOn => exact hensures.ok hs
    | error halt => exact hensures.error hs
  cases h with
  | start => exact h₀
  | step h hs => exact hstep h hs
  | @finished n _ outcome h =>
    generalize he : (outcome,s) = e at h
    cases h with
    | halted h hs =>
      cases he
      exact hstep h hs
    | @finished s₁ s₂ h hs =>
      have hfinish := finish_preserves hP hE s₂ (hstep h hs)
      cases outcome with
      | ok u => exact hfinish.ok he.symm
      | error halt => exact hfinish.error he.symm

/-- What is true of the tree after a step is true of it at the end of the run. -/
lemma After.run_bears {n : Nat} {goesOn : Bool} (ht : env.table.Closed) (hE : env.Bears E R)
    (hstack : WellStacked env s₀) (h₀ : s₀.position ≤ env.text.size) (hs : After env s₀ n s)
    (hstep : (Scan.step env (n + 1)).run s = (.ok goesOn,s')) (hs' : s'.Bears P R) :
    (run env s₀).2.Bears P R := by
  have hfinish : ∀ {u}, u.Bears P R → ((finish env).run u).2.Bears P R := by
    intro u hu
    rcases hrun : (finish env).run u with ⟨halt | _,u'⟩
    · exact (finish_preserves hP hE u hu).error hrun
    · exact (finish_preserves hP hE u hu).ok hrun
  cases goesOn with
  | false =>
    rw [(EndsAfter.finished hs hstep).run_eq h₀]
    exact hfinish hs'
  | true =>
    have hkeeps : ∀ {k u}, After env s₀ k u → u.Bears P R → (Scan.step env (k + 1)).Ensures u
        (fun _ => State.Bears P R) (fun _ => State.Bears P R) :=
      fun hu hbears => step_bears hP ht hE (hu.visits.wellStacked ht hstack) hbears _
    obtain ⟨k,-,hends⟩ := run_endsAfter h₀
    have hlater : ∀ {u}, After env s₀ k u → u.Bears P R := by
      refine fun hu => hs.of_later (fun s'' hstep' => ?_)
        (fun _ _ _ _ hu hbears hstep => (hkeeps hu hbears).ok hstep) hu (hends.le_of_after (.step hs hstep))
      cases hstep.symm.trans hstep'
      exact hs'
    generalize run env s₀ = e at hends
    cases hends with
    | halted hu hhalt => exact (hkeeps hu (hlater hu)).error hhalt
    | finished hu hdone => exact hfinish ((hkeeps hu (hlater hu)).ok hdone)

end

end Scan
end Highlight
