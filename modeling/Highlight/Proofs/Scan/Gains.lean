import Highlight.Proofs.Scan.Moves

/-!
What a reaction gains. Where begins take text in and ends that take none in close a mode, each reaction
moves the cursor or closes a mode, and a mode that opens has moved it. Modes that close then make up for
those that open, and no reaction halts for want of headway.
-/
namespace Highlight

/-- A node that begins wherever its begin matches, takes what begins and ends it, and is followed by no
other. -/
structure Node.IsDirect (n : Node) : Prop where
  beginGuard : n.beginGuard = none
  returnBegin : n.switches.returnBegin = false
  returnEnd : n.switches.returnEnd = false
  starts : n.starts = none

def NodeTable.IsDirect (t : NodeTable) : Prop := ∀ node ∈ t.nodes, node.IsDirect

lemma NodeTable.node_mem_or_default (t : NodeTable) (id : NodeId) :
    t.node id ∈ t.nodes ∨ t.node id = default := by
  rw [node,Array.getD_eq_getD_getElem?]
  cases hn : t.nodes[id]? with
  | none => exact .inr rfl
  | some node => exact .inl (Array.mem_of_getElem? hn)

lemma NodeTable.IsDirect.node {t : NodeTable} (h : t.IsDirect) (id : NodeId) : (t.node id).IsDirect := by
  rcases t.node_mem_or_default id with hmem | hdefault
  · exact h _ hmem
  · rw [hdefault]
    exact ⟨rfl,rfl,rfl,rfl⟩

instance (n : Node) : Decidable n.IsDirect :=
  decidable_of_iff (n.beginGuard.isNone ∧ n.switches.returnBegin = false ∧ n.switches.returnEnd = false ∧
      n.starts = none)
    ⟨fun ⟨hguard,hbegin,hend,hstarts⟩ => ⟨Option.isNone_iff_eq_none.mp hguard,hbegin,hend,hstarts⟩,
      fun h => ⟨Option.isNone_iff_eq_none.mpr h.beginGuard,h.returnBegin,h.returnEnd,h.starts⟩⟩

instance (t : NodeTable) : Decidable t.IsDirect := inferInstanceAs (Decidable (∀ node ∈ t.nodes, _))

namespace Scan

open Rules

variable {env : Env} {s s' : State} {m : RuleMatch} {stack closed : List Frame}
  {position : Nat}

/-- A halt for want of headway. -/
def Halt.IsStall : Halt → Prop
  | .fault (.runawayLoop ..) | .fault (.zeroWidthMatch _) => True
  | _ => False

namespace Action

variable {α β : Type} {x : Action α}

/-- However an action goes, it does not halt for want of headway. -/
def NeverStalls (x : Action α) : Prop :=
  ∀ s, x.Ensures s (fun _ _ => True) (fun halt _ => ¬ halt.IsStall)

lemma neverStalls_pure (a : α) : (pure a : Action α).NeverStalls := fun _ => trivial

lemma neverStalls_modify (f : State → State) : (modify f : Action Unit).NeverStalls := fun _ => trivial

lemma neverStalls_get : (get : Action State).NeverStalls := fun _ => trivial

lemma neverStalls_throw {halt : Halt} (h : ¬ halt.IsStall) : (throw halt : Action α).NeverStalls :=
  fun _ => h

lemma neverStalls_ofSearch (r : Except Regex.GaveUp α) : (ofSearch r).NeverStalls :=
  fun _ => ensures_ofSearch (fun _ _ => trivial) id

lemma neverStalls_ofCall (c : Call α) : (ofCall c).NeverStalls :=
  fun _ => ensures_ofCall (fun _ _ _ => trivial) (fun _ _ _ => id)

lemma NeverStalls.bind {f : α → Action β} (hx : x.NeverStalls) (hf : ∀ a, (f a).NeverStalls) :
    (x >>= f).NeverStalls := by
  intro s
  rw [ensures_bind]
  exact (hx s).mono (fun a s' _ => hf a s') (fun _ _ h => h)

lemma NeverStalls.ite {p : Prop} [Decidable p] {y : Action α} (hx : x.NeverStalls) (hy : y.NeverStalls) :
    (if p then x else y).NeverStalls := by
  split
  · exact hx
  · exact hy

lemma neverStalls_forM {f : α → Action Unit} (hf : ∀ a, (f a).NeverStalls) (l : List α) :
    (l.forM f).NeverStalls :=
  fun _ => ensures_forM (P := fun _ _ => True) (fun a _ s _ => hf a s) trivial

end Action

open Highlight.Scan.Action

section Halts

lemma setBuffer_neverStalls (text : String) : (setBuffer text).NeverStalls := neverStalls_modify _

lemma addPiece_neverStalls (p : Piece) : (addPiece p).NeverStalls := by
  cases p with
  | plain text => exact neverStalls_modify _
  | keyword text entry => exact (neverStalls_modify _).bind (fun _ => neverStalls_modify _)

lemma flushKeywords_neverStalls (node : Node) (buffer : String) :
    (flushKeywords env node buffer).NeverStalls := by
  rw [flushKeywords]
  split
  · exact neverStalls_modify _
  · exact (neverStalls_ofSearch _).bind (fun _ => neverStalls_forM addPiece_neverStalls _)

lemma addEmbedded_neverStalls (node : Node) (sub : SubLanguage) (r : Result) :
    (addEmbedded node sub r).NeverStalls :=
  (neverStalls_modify _).bind (fun _ =>
    ((neverStalls_modify _).bind (fun _ => neverStalls_modify _)).ite (neverStalls_modify _))

lemma flushEmbedded_neverStalls (node : Node) (sub : SubLanguage) (buffer : String) :
    (flushEmbedded env node sub buffer).NeverStalls := by
  refine (neverStalls_pure _).ite (neverStalls_get.bind (fun s => ?_))
  split
  · exact neverStalls_modify _
  · exact (neverStalls_ofCall _).bind (fun r => addEmbedded_neverStalls node sub r)

lemma flush_neverStalls (env : Env) : (flush env).NeverStalls := by
  refine neverStalls_get.bind (fun s => ?_)
  dsimp only
  split
  · exact (flushEmbedded_neverStalls _ _ _).bind (fun _ => neverStalls_modify _)
  · exact (flushKeywords_neverStalls _ _).bind (fun _ => neverStalls_modify _)

lemma finish_neverStalls (env : Env) : (finish env).NeverStalls :=
  neverStalls_get.bind (fun _ => (neverStalls_modify _).bind (fun _ => flush_neverStalls env))

lemma put_neverStalls (lexeme : String) (place : Place) : (put env lexeme place).NeverStalls := by
  have hflush := flush_neverStalls env
  cases place with
  | within => exact neverStalls_modify _
  | before => exact (neverStalls_modify _).bind (fun _ => hflush)
  | after => exact hflush.bind (fun _ => setBuffer_neverStalls lexeme)
  | nowhere => exact hflush

lemma enter_neverStalls (frame : Frame) : (enter env frame position).NeverStalls := by
  have hpush := (neverStalls_modify (fun s => { s with tree := openMode env.table frame s.tree })).bind
    (fun _ => neverStalls_modify (fun s => { s with stack := frame :: s.stack }))
  exact neverStalls_get.bind (fun _ => ((neverStalls_throw id).bind (fun _ => hpush)).ite hpush)

lemma keepLexeme_neverStalls : (keepLexeme env m).NeverStalls :=
  (neverStalls_modify _).bind (fun _ => neverStalls_pure _)

lemma keepNext_neverStalls : (keepNext env position).NeverStalls := by
  rw [keepNext]
  split
  · exact (neverStalls_modify _).bind (fun _ => neverStalls_pure _)
  · exact neverStalls_pure _

lemma acceptBegin_neverStalls (id : NodeId) : (acceptBegin env m id).NeverStalls := by
  rw [acceptBegin,takeBegin_eq_put]
  exact (put_neverStalls _ _).bind (fun _ => (enter_neverStalls _).bind (fun _ => neverStalls_pure _))

lemma leave_neverStalls (f : Frame) : (leave env f).NeverStalls :=
  fun _ => (leave_ensures env f).mono (fun _ _ _ => trivial) (fun _ _ => False.elim)

lemma close_neverStalls : (close env m closed).NeverStalls := by
  simp only [close,takeEnd_eq_put]
  refine neverStalls_get.bind (fun s => (put_neverStalls _ _).bind (fun _ =>
    (neverStalls_forM leave_neverStalls closed).bind (fun _ => ?_)))
  cases closed.getLast? with
  | none => exact neverStalls_pure _
  | some outermost =>
    dsimp only
    refine NeverStalls.bind ?_ (fun _ => neverStalls_pure _)
    rw [follow]
    split
    · exact enter_neverStalls _
    · exact neverStalls_pure _

lemma ignoreBegin_neverStalls : (ignoreBegin env m).NeverStalls :=
  neverStalls_get.bind (fun _ => keepNext_neverStalls.ite
    ((neverStalls_modify _).bind (fun _ => neverStalls_pure _)))

/-- A reaction halts for want of headway only where an empty end follows an empty begin. -/
lemma react_neverStalls (h : stalls s.last m = false) :
    (react env m).Ensures s (fun _ _ => True) (fun halt _ => ¬ halt.IsStall) := by
  rw [react,ensures_bind,ensures_get,h,if_neg Bool.false_ne_true]
  refine (neverStalls_modify _).bind (fun _ => ?_) s
  cases m.kind with
  | begins id =>
    dsimp only
    rw [reactToBegin]
    split
    · exact acceptBegin_neverStalls id
    · exact ignoreBegin_neverStalls
    · exact keepNext_neverStalls.ite keepLexeme_neverStalls
  | ends =>
    refine neverStalls_get.bind (fun s => (neverStalls_ofSearch _).bind (fun closed? => ?_))
    cases closed? with
    | none => exact keepLexeme_neverStalls
    | some closed => exact close_neverStalls
  | illegal => exact keepNext_neverStalls.ite (keepLexeme_neverStalls.ite (neverStalls_throw id))

end Halts

section Reactions

/-- Only modes that end as they begin are open with a delimiter. -/
def Delimited (env : Env) (stack : List Frame) : Prop :=
  ∀ f ∈ stack, f.delimiter ≠ none → (env.switches f.node).endSameAsBegin = true

/-- What a reaction gains by which the cursor moves. A mode that is opened and one that is closed count
as much as a character. -/
structure Gains (env : Env) (m : RuleMatch) (s : State) (moved : Nat) (s' : State) : Prop where
  pace : s'.stack.length + 1 ≤ s.stack.length + 2 * moved
  begins : m.isBegin = true → 0 < moved
  last : s'.last = s.last
  delimiters : Delimited env s.stack → Delimited env s'.stack

lemma Gains.of_keeps {moved : Nat} (hk : s.Keeps s') (hmoved : 0 < moved) : Gains env m s moved s' where
  pace := by
    rw [hk.stack]
    omega
  begins _ := hmoved
  last := hk.last
  delimiters h := hk.stack ▸ h

lemma keepLexeme_gains (hm : m.start < m.stop) :
    (keepLexeme env m).Ensures s (Gains env m s) (fun _ _ => True) := by
  rw [keepLexeme,ensures_bind]
  exact (append_takes env s _).mono (fun _ _ h => .of_keeps h.1 (Nat.sub_pos_of_lt hm)) (fun _ _ _ => trivial)

lemma keepNext_gains : (keepNext env position).Ensures s (Gains env m s) (fun _ _ => True) := by
  rw [keepNext]
  split
  · rw [ensures_bind]
    exact (append_takes env s _).mono (fun _ _ h => .of_keeps h.1 Nat.one_pos) (fun _ _ _ => trivial)
  · exact .of_keeps (.refl s) Nat.one_pos

/-- A mode that opens costs no more than the character that its begin takes in. -/
lemma acceptBegin_gains (hm : m.start < m.stop) {id : NodeId} (hreturn : (env.switches id).returnBegin = false) :
    (acceptBegin env m id).Ensures s (Gains env m s) (fun _ _ => True) := by
  rw [acceptBegin,ensures_bind]
  refine (takeBegin_takes env s _ _).mono (fun _ s₁ h₁ => ?_) (fun _ _ _ => trivial)
  rw [ensures_bind]
  refine (enter_ensures env _ m.start).mono (fun _ s₂ h₂ => ?_) (fun _ _ _ => trivial)
  rw [h₂.1,hreturn,if_neg Bool.false_ne_true]
  have hmoved : 0 < m.stop - m.start := Nat.sub_pos_of_lt hm
  refine ⟨?_,fun _ => hmoved,h₁.1.last,fun h f hf hdelimiter => ?_⟩
  · rw [State.push,List.length_cons,h₁.1.stack]
    omega
  · rcases List.mem_cons.mp hf with rfl | hf
    · by_contra hsame
      exact hdelimiter (if_neg hsame)
    · exact h f (h₁.1.stack ▸ hf) hdelimiter

lemma last_foldl_pop (closed : List Frame) : (closed.foldl (fun s f => s.pop env f) s).last = s.last := by
  induction closed generalizing s with
  | nil => rfl
  | cons f closed ih => exact ih

/-- A mode that closes makes up for the step, whatever its end takes in. -/
lemma close_gains (hdirect : env.table.IsDirect) (hclosed : closed <+: s.stack) (hne : closed ≠ [])
    (hm : m.isBegin = false) : (close env m closed).Ensures s (Gains env m s) (fun _ _ => True) := by
  obtain ⟨rest,hstack⟩ := hclosed
  rw [close,ensures_bind,ensures_get]
  dsimp only
  rw [ensures_bind]
  refine (takeEnd_takes env s _ _).mono (fun _ s₁ h₁ => ?_) (fun _ _ _ => trivial)
  rw [ensures_bind]
  refine (forM_leave_ensures env closed).mono (fun _ s₂ h₂ => ?_) (fun _ _ => False.elim)
  have hrest : s₂.stack = rest := by
    rw [h₂,stack_foldl_pop,h₁.1.stack,← hstack,List.drop_left]
  have hlast : s₂.last = s.last := by rw [h₂,last_foldl_pop,h₁.1.last]
  have hgains : ∀ moved, Gains env m s moved s₂ := by
    intro moved
    refine ⟨?_,fun hbegin => absurd hbegin (by simp [hm]),hlast,fun h f hf => ?_⟩
    · have hpos : 0 < closed.length := List.length_pos_iff.mpr hne
      rw [hrest,← hstack,List.length_append]
      omega
    · rw [hrest] at hf
      exact h f (hstack ▸ List.mem_append_right _ hf)
  cases closed.getLast? with
  | none => exact hgains _
  | some outermost =>
    dsimp only
    rw [ensures_bind]
    refine (follow_ensures env s₂ outermost m.start).mono (fun _ s₃ h₃ => ?_) (fun _ _ _ => trivial)
    rcases h₃ with rfl | ⟨next,hnext,-⟩
    · exact hgains _
    · rw [Env.node,(hdirect.node _).starts] at hnext
      cases hnext

lemma ne_nil_of_closing (h : closing env position stack = .ok (some closed)) : closed ≠ [] := by
  cases stack with
  | nil => cases h
  | cons f stack =>
    rw [closing,except_bind_eq_ok] at h
    obtain ⟨ends,-,h⟩ := h
    split at h
    · obtain ⟨wider,rest,hwider,-⟩ := exists_widen env f stack
      rw [← Option.some.inj (Except.ok.inj h),hwider]
      exact List.cons_ne_nil f wider
    · split at h
      · obtain ⟨closed?,-,h⟩ := except_bind_eq_ok.mp h
        obtain ⟨closed',-,rfl⟩ := Option.map_eq_some_iff.mp (Except.ok.inj h)
        exact List.cons_ne_nil f closed'
      · cases Except.ok.inj h

/-- What a match must be for a reaction to gain: begins take text in, and so do ends that close nothing. -/
structure Feeds (env : Env) (m : RuleMatch) (stack : List Frame) : Prop where
  within : m.start ≤ m.stop
  begins : m.isBegin = true → m.start < m.stop
  ends : m.kind = .ends → m.start = m.stop → closing env m.start stack ≠ .ok none

lemma reactToEnd_gains (hdirect : env.table.IsDirect) (hm : Feeds env m s.stack) (hkind : m.kind = .ends) :
    (reactToEnd env m).Ensures s (Gains env m s) (fun _ _ => True) := by
  rw [reactToEnd,ensures_bind,ensures_get,ensures_bind]
  refine ensures_ofSearch (fun closed? hclosed => ?_) trivial
  cases closed? with
  | none => exact keepLexeme_gains (Nat.lt_of_le_of_ne hm.within (fun heq => hm.ends hkind heq hclosed))
  | some closed =>
    refine close_gains hdirect (closing_innermost hclosed) (ne_nil_of_closing hclosed) ?_
    rw [RuleMatch.isBegin,hkind]

lemma reactToIllegal_gains (hm : m.start ≤ m.stop) :
    (reactToIllegal env m).Ensures s (Gains env m s) (fun _ _ => True) := by
  rw [reactToIllegal]
  split
  · exact keepNext_gains
  · rename_i hempty
    split
    · exact keepLexeme_gains (Nat.lt_of_le_of_ne hm (fun heq => hempty (beq_iff_eq.mpr heq)))
    · trivial

/-- Every reaction gains. It keeps the match in mind. -/
theorem react_gains (hdirect : env.table.IsDirect) (hm : Feeds env m s.stack) (h : stalls s.last m = false) :
    (react env m).Ensures s (Gains env m { s with last := some m }) (fun _ _ => True) := by
  rw [react,ensures_bind,ensures_get,h,if_neg Bool.false_ne_true,ensures_bind,ensures_modify]
  cases hkind : m.kind with
  | begins id =>
    have hbegin : m.isBegin = true := by rw [RuleMatch.isBegin,hkind]
    have haccept : reactToBegin env m id = acceptBegin env m id := by
      rw [reactToBegin,verdict,Env.node,(hdirect.node id).beginGuard]
    dsimp only
    rw [haccept]
    exact acceptBegin_gains (hm.begins hbegin) (hdirect.node id).returnBegin
  | ends => exact reactToEnd_gains hdirect hm hkind
  | illegal => exact reactToIllegal_gains hm.within

end Reactions

end Scan
end Highlight
