import Highlight.Proofs.Assembly.Table
import Highlight.Proofs.Scan.Cursor

/-!
The stack of open modes. The top mode always lies at its bottom and nowhere else, the modes above it
are nodes of the table and at most so many, and the tree has one open scope for each of them that
has a class. An end closes modes from the inside, and never the top mode.
-/
namespace Highlight.Scan

open Rules
open Assembly (IsInner)

/-- Whether a mode has a scope in the tree. -/
def hasScope (table : NodeTable) (f : Frame) : Bool := (table.node f.node).className.isSome

/-- A state whose open modes are the top mode and, inside of it, the given ones. -/
structure Nested (env : Env) (inner : List Frame) (s : State) : Prop where
  stack : s.stack = inner ++ [.top]
  isInner : ∀ f ∈ inner, IsInner env.table.size f.node
  length_le : inner.length ≤ maxOpenModes
  depth : s.tree.depth = 1 + inner.countP (hasScope env.table)

/-- A state with any modes open inside the top mode. -/
def WellStacked (env : Env) (s : State) : Prop := ∃ inner, Nested env inner s

variable {env : Env} {s s' s₀ : State} {m : RuleMatch} {inner : List Frame} {f : Frame}

lemma depth_openMode (table : NodeTable) (f : Frame) (tree : Tree.Builder) :
    (openMode table f tree).depth = tree.depth + if hasScope table f then 1 else 0 := by
  rw [openMode]
  split <;> rename_i hc <;> rw [hasScope,hc] <;> rfl

namespace Nested

lemma keeps (h : Nested env inner s) (hk : s.Keeps s') : Nested env inner s' :=
  ⟨hk.stack.trans h.stack,h.isInner,h.length_le,hk.depth.trans h.depth⟩

lemma push (h : Nested env inner s) (hf : IsInner env.table.size f.node)
    (hlen : s.stack.length ≤ maxOpenModes) : Nested env (f :: inner) (s.push env f) := by
  refine ⟨?_,?_,?_,?_⟩
  · rw [State.push,h.stack,List.cons_append]
  · intro f' hf'
    rcases List.mem_cons.mp hf' with rfl | hf'
    · exact hf
    · exact h.isInner f' hf'
  · rw [h.stack,List.length_append] at hlen
    exact hlen
  · rw [State.push,depth_openMode,h.depth,List.countP_cons,Nat.add_assoc]

lemma pop (h : Nested env (f :: inner) s) : Nested env inner (s.pop env f) := by
  refine ⟨?_,fun f' hf' => h.isInner f' (List.mem_cons_of_mem _ hf'),Nat.le_of_succ_le h.length_le,?_⟩
  · rw [State.pop,h.stack]
    rfl
  · have hdepth := h.depth
    rw [List.countP_cons] at hdepth
    simp only [State.pop]
    cases hscope : (env.node f.node).className.isSome with
    | false =>
      have hf : hasScope env.table f = false := hscope
      rw [hf] at hdepth
      exact hdepth
    | true =>
      have hf : hasScope env.table f = true := hscope
      rw [hf] at hdepth
      rw [if_pos rfl,Tree.Builder.depth_closeScope]
      simp only [if_true] at hdepth
      omega

lemma pops {closed : List Frame} (h : Nested env (closed ++ inner) s) :
    Nested env inner (closed.foldl (fun s f => s.pop env f) s) := by
  induction closed generalizing s with
  | nil => exact h
  | cons f closed ih => exact ih h.pop

end Nested

/-- Widening goes outwards and stops before the top mode. -/
lemma widen_inner (env : Env) (f : Frame) (inner : List Frame) :
    widen env f (inner ++ [.top]) <+: f :: inner := by
  induction inner generalizing f with
  | nil => exact List.prefix_refl _
  | cons g inner ih =>
    have hrest : ∃ h rest, inner ++ [Frame.top] = h :: rest := by
      cases inner with
      | nil => exact ⟨_,_,rfl⟩
      | cons h rest => exact ⟨_,_,rfl⟩
    obtain ⟨h,rest,hrest⟩ := hrest
    rw [List.cons_append,hrest,widen,← hrest]
    split
    · exact List.cons_prefix_cons.mpr ⟨rfl,ih g⟩
    · exact List.cons_prefix_cons.mpr ⟨rfl,List.nil_prefix⟩

/-- What an end closes are innermost modes, without the top mode. -/
theorem closing_inner (ht : env.table.Closed) {position : Nat} {closed : List Frame}
    (h : closing env position (inner ++ [.top]) = .ok (some closed)) : closed <+: inner := by
  induction inner generalizing closed with
  | nil =>
    have hends : endsAt env .top position = .ok false := by
      simp only [endsAt,Frame.top]
      rw [Env.node,ht.top_end]
    rw [List.nil_append,closing,hends] at h
    cases hparent : (env.switches Frame.top.node).endsWithParent <;> rw [hparent] at h <;> cases h
  | cons f inner ih =>
    rw [List.cons_append,closing,except_bind_eq_ok] at h
    obtain ⟨ends,-,h⟩ := h
    split at h
    · cases h
      exact widen_inner env f inner
    · split at h
      · rw [except_bind_eq_ok] at h
        obtain ⟨closed?,hclosed,h⟩ := h
        cases closed? with
        | none => cases h
        | some closed' =>
          cases h
          exact List.cons_prefix_cons.mpr ⟨rfl,ih hclosed⟩
      · cases h

/-- However an action ends, it leaves modes that are open as they may be. -/
def Action.KeepsStacked {α : Type} (x : Action α) (env : Env) (s : State) : Prop :=
  x.Ensures s (fun _ s' => WellStacked env s') (fun _ s' => WellStacked env s')

lemma WellStacked.keeps (h : WellStacked env s) (hk : s.Keeps s') : WellStacked env s' := by
  obtain ⟨inner,h⟩ := h
  exact ⟨inner,h.keeps hk⟩

lemma Action.Takes.bind_keepsStacked {x : Action Unit} {text : String} {α : Type} {f : Unit → Action α}
    (hx : x.Takes env s text) (hs : WellStacked env s)
    (hf : ∀ s', s.Keeps s' → (f ()).KeepsStacked env s') : (x >>= f).KeepsStacked env s := by
  rw [Action.KeepsStacked,Action.ensures_bind]
  exact hx.mono (fun _ s' h => hf s' h.1) (fun _ _ h => hs.keeps h.1)

lemma keepLexeme_keepsStacked (hs : WellStacked env s) : (keepLexeme env m).KeepsStacked env s :=
  (append_takes env s _).bind_keepsStacked hs (fun _ hk => hs.keeps hk)

lemma keepNext_keepsStacked (hs : WellStacked env s) (position : Nat) :
    (keepNext env position).KeepsStacked env s := by
  rw [keepNext]
  split
  · exact (append_takes env s _).bind_keepsStacked hs (fun _ hk => hs.keeps hk)
  · exact hs

lemma ignoreBegin_keepsStacked (hs : WellStacked env s) : (ignoreBegin env m).KeepsStacked env s := by
  rw [Action.KeepsStacked,ignoreBegin,Action.ensures_bind,Action.ensures_get]
  split
  · exact keepNext_keepsStacked hs m.start
  · obtain ⟨inner,h⟩ := hs
    exact ⟨inner,h.stack,h.isInner,h.length_le,h.depth⟩

lemma enter_keepsStacked (hs : WellStacked env s) (hf : IsInner env.table.size f.node) (position : Nat) :
    (enter env f position).KeepsStacked env s := by
  refine (enter_ensures env f position).mono (fun _ s' h => ?_) (fun _ s' h => h.1 ▸ hs)
  obtain ⟨inner,hs⟩ := hs
  rw [h.1]
  exact ⟨f :: inner,hs.push hf h.2⟩

lemma acceptBegin_keepsStacked (hs : WellStacked env s) {id : NodeId} (hid : IsInner env.table.size id) :
    (acceptBegin env m id).KeepsStacked env s := by
  refine (takeBegin_takes env s _ _).bind_keepsStacked hs (fun s₁ hk => ?_)
  rw [Action.KeepsStacked,Action.ensures_bind]
  exact enter_keepsStacked (hs.keeps hk) hid m.start

lemma reactToBegin_keepsStacked (hs : WellStacked env s) {id : NodeId} (hid : IsInner env.table.size id) :
    (reactToBegin env m id).KeepsStacked env s := by
  rw [reactToBegin]
  split
  · exact acceptBegin_keepsStacked hs hid
  · exact ignoreBegin_keepsStacked hs
  · split
    · exact keepNext_keepsStacked hs m.start
    · exact keepLexeme_keepsStacked hs

/-- Closing innermost modes leaves those around them, and what follows the last goes on top. -/
lemma close_keepsStacked (ht : env.table.Closed) (hs : Nested env inner s) {closed : List Frame}
    (hclosed : closed <+: inner) : (close env m closed).KeepsStacked env s := by
  obtain ⟨rest,rfl⟩ := hclosed
  rw [Action.KeepsStacked,close,Action.ensures_bind,Action.ensures_get]
  refine (takeEnd_takes env s _ _).bind_keepsStacked ⟨_,hs⟩ (fun s₁ hk => ?_)
  rw [Action.KeepsStacked,Action.ensures_bind]
  refine (forM_leave_ensures env closed).mono (fun _ s₂ h₂ => ?_) (fun _ _ => False.elim)
  have hs₂ : WellStacked env s₂ := ⟨rest,h₂ ▸ (hs.keeps hk).pops⟩
  cases closed.getLast? with
  | none => exact hs₂
  | some outermost =>
    dsimp only
    rw [Action.ensures_bind]
    refine (follow_ensures env s₂ outermost m.start).mono (fun _ s₃ h₃ => ?_) (fun _ _ h => h.1 ▸ hs₂)
    rcases h₃ with rfl | ⟨frame,hstarts,rfl,hlen⟩
    · exact hs₂
    · obtain ⟨inner,hs₂⟩ := hs₂
      exact ⟨frame :: inner,hs₂.push (ht.starts _ _ hstarts) hlen⟩

lemma reactToEnd_keepsStacked (ht : env.table.Closed) (hs : WellStacked env s) :
    (reactToEnd env m).KeepsStacked env s := by
  obtain ⟨inner,hs⟩ := hs
  rw [Action.KeepsStacked,reactToEnd,Action.ensures_bind,Action.ensures_get,Action.ensures_bind]
  refine Action.ensures_ofSearch (fun closed hclosed => ?_) ⟨inner,hs⟩
  cases closed with
  | none => exact keepLexeme_keepsStacked ⟨inner,hs⟩
  | some closed =>
    rw [hs.stack] at hclosed
    exact close_keepsStacked ht hs (closing_inner ht hclosed)

lemma reactToIllegal_keepsStacked (hs : WellStacked env s) : (reactToIllegal env m).KeepsStacked env s := by
  rw [reactToIllegal]
  split
  · exact keepNext_keepsStacked hs m.start
  · split
    · exact keepLexeme_keepsStacked hs
    · exact hs

lemma react_keepsStacked (ht : env.table.Closed) (hs : WellStacked env s)
    (hm : ∀ id, m.kind = .begins id → IsInner env.table.size id) : (react env m).KeepsStacked env s := by
  rw [Action.KeepsStacked,react,Action.ensures_bind,Action.ensures_get]
  split
  · split
    · exact keepNext_keepsStacked hs m.start
    · exact hs
  · rw [Action.ensures_bind,Action.ensures_modify]
    obtain ⟨inner,h⟩ := hs
    have hs : WellStacked env { s with last := some m } := ⟨inner,h.stack,h.isInner,h.length_le,h.depth⟩
    cases hkind : m.kind with
    | begins id => exact reactToBegin_keepsStacked hs (hm id hkind)
    | ends => exact reactToEnd_keepsStacked ht hs
    | illegal => exact reactToIllegal_keepsStacked hs

/-- A step keeps the stack as it may be, also where it halts. -/
theorem step_keepsStacked (ht : env.table.Closed) (hs : WellStacked env s) (number : Nat) :
    (step env number).KeepsStacked env s := by
  have hwith : ∀ resumeAt, WellStacked env { s with resumeAt, stays := false } := by
    obtain ⟨inner,h⟩ := hs
    exact fun _ => ⟨inner,h.stack,h.isInner,h.length_le,h.depth⟩
  rw [Action.KeepsStacked,step,Action.ensures_bind]
  refine (nextMatch_ensures env s).mono (fun found s₁ h₁ => ?_) (fun _ _ h => h.1.elim (fun _ h => h ▸ hwith _))
  obtain ⟨⟨resumeAt,rfl⟩,first,hexec⟩ := h₁
  cases found with
  | none => exact hwith resumeAt
  | some m =>
    dsimp only
    split
    · exact hwith resumeAt
    · rw [Action.ensures_bind,Action.ensures_get]
      refine (append_takes env _ _).bind_keepsStacked (hwith resumeAt) (fun s₂ hk => ?_)
      rw [Action.KeepsStacked,Action.ensures_bind]
      refine (react_keepsStacked ht ((hwith resumeAt).keeps hk) (fun id hid => ?_)).mono
        (fun moved s₃ h₃ => ?_) (fun _ _ h => h)
      · obtain ⟨rule,hrule,hkind⟩ := RuleSet.exists_rule_of_exec hexec
        exact ht.begins _ rule hrule id (hkind.trans hid)
      · obtain ⟨inner,h₃⟩ := h₃
        exact ⟨inner,h₃.stack,h₃.isInner,h₃.length_le,h₃.depth⟩

lemma finish_keepsStacked (hs : WellStacked env s) : (finish env).KeepsStacked env s := by
  rw [Action.KeepsStacked,finish,Action.ensures_bind,Action.ensures_get]
  exact (append_flush_takes env s _).mono (fun _ _ h => hs.keeps h.1) (fun _ _ h => hs.keeps h.1)

/-- Every state that a scan visits has its modes open as they may be. -/
theorem Visits.wellStacked (ht : env.table.Closed) (h₀ : WellStacked env s₀) (h : Visits env s₀ s) :
    WellStacked env s := by
  have hafter : ∀ {n s}, After env s₀ n s → WellStacked env s := by
    intro n s h
    induction h with
    | start => exact h₀
    | step _ hs ih => exact (step_keepsStacked ht ih _).ok hs
  have hstep : ∀ {n s s' outcome}, After env s₀ n s → (Scan.step env (n + 1)).run s = (outcome,s') →
      WellStacked env s' := by
    intro n s s' outcome h hs
    cases outcome with
    | ok goesOn => exact (step_keepsStacked ht (hafter h) _).ok hs
    | error halt => exact (step_keepsStacked ht (hafter h) _).error hs
  cases h with
  | start => exact h₀
  | step h hs => exact hstep h hs
  | @finished n _ outcome h =>
    generalize he : (outcome,s) = e at h
    cases h with
    | halted h hs =>
      cases he
      exact hstep h hs
    | @finished s₁ s₂ h hs =>
      have hs₂ := finish_keepsStacked (hstep h hs)
      cases outcome with
      | ok u => exact hs₂.ok he.symm
      | error halt => exact hs₂.error he.symm

end Highlight.Scan
