import Highlight.Proofs.RoundTrip
import Highlight.Proofs.Scan.Moves
import Highlight.Proofs.Scan.Probe

/-!
Scans by tables in which one mode hosts an embedded grammar, to the end of the text, right after a mode
whose begin takes two characters. All that such a scan hands on is what follows that begin.
-/
namespace Highlight

/-- A table with at most one host: a mode that has no rules and follows on an opening mode, which no
other mode comes between. The begin of the opening mode takes two characters or more. -/
structure NodeTable.HostsAfter (t : NodeTable) (opening host : NodeId) : Prop where
  hosts : ∀ id sub, (t.node id).subLanguage = some sub → id = host ∧ sub = .auto []
  ne_root : opening ≠ rootNode ∧ host ≠ rootNode
  rules_host : (t.node host).rules.rules = []
  rules_opening : ∀ rule ∈ (t.node opening).rules.rules, ∀ id, rule.kind ≠ .begins id
  begins : ∀ id, ∀ rule ∈ (t.node id).rules.rules, rule.kind ≠ .begins host
  starts : ∀ id, (t.node id).starts ≠ some opening ∧ ((t.node id).starts = some host → id = opening)
  switches : (t.node opening).switches.returnBegin = false ∧
    (t.node opening).switches.excludeEnd = false ∧ (t.node opening).switches.skip = false
  two_le : ∀ {id text start first m}, (t.node id).rules.exec text start first = .ok (some m) →
    m.kind = .begins opening → m.start + 2 ≤ m.stop

namespace Scan

open Rules

/-- All that a scan asks for embedded texts is as `P` says: it goes the same way whatever is made of
other texts. -/
def Env.CallsOnly (env : Env) (s₀ : State) (P : SubLanguage → Option Continuation → String → Prop) :
    Prop :=
  ∀ e : Embed, (∀ sub c code, P sub c code → e sub c code = env.embed sub c code) →
    run (env.embedding e) s₀ = run env s₀

variable {env : Env} {s s' : State} {m : RuleMatch} {opening host : NodeId} {position : Nat}

section Agreement

namespace Action

variable {α β : Type} {x y : Action α} {f g : α → Action β}

lemma run_bind_congr (h : x.run s = y.run s)
    (hf : ∀ a s', y.run s = (.ok a,s') → (f a).run s' = (g a).run s') :
    (x >>= f).run s = (y >>= g).run s := by
  simp only [ExceptT.run_bind]
  simp only [StateT.bind,Bind.bind,Pure.pure]
  rw [h]
  rcases hy : y.run s with ⟨halt | a,s'⟩
  · rfl
  · exact hf a s' hy

end Action

open Highlight.Scan.Action

variable (e : Embed)

/-- Text is flushed alike if the same is made of it, should it be embedded. -/
lemma flush_embedding_of_eq (h : ∀ sub, (env.node s.top).subLanguage = some sub → s.buffer ≠ "" →
      e sub (s.carried sub) s.buffer = env.embed sub (s.carried sub) s.buffer) :
    (flush (env.embedding e)).run s = (flush env).run s := by
  rw [run_flush,run_flush,show (env.embedding e).node s.top = env.node s.top from rfl]
  cases hsub : (env.node s.top).subLanguage with
  | none => rfl
  | some sub =>
    refine run_bind_congr ?_ (fun _ _ _ => rfl)
    rw [flushEmbedded,flushEmbedded]
    by_cases hbuffer : s.buffer.isEmpty
    · rw [if_pos hbuffer,if_pos hbuffer]
    · rw [if_neg hbuffer,if_neg hbuffer]
      refine run_bind_congr (x := (get : Action State)) rfl (fun _ s' hs' => ?_)
      cases hs'
      have he : (env.embedding e).embed sub (s.carried sub) s.buffer =
          env.embed sub (s.carried sub) s.buffer :=
        h sub hsub (fun hempty => hbuffer (String.isEmpty_iff.mpr hempty))
      rw [he]

lemma flush_embedding (hs : (env.node s.top).subLanguage = none) :
    (flush (env.embedding e)).run s = (flush env).run s :=
  flush_embedding_of_eq e (fun _ hsub => by rw [hs] at hsub; cases hsub)

lemma append_flush_embedding (text : String) (hs : (env.node s.top).subLanguage = none) :
    (do append text; flush (env.embedding e)).run s = (do append text; flush env).run s :=
  flush_embedding e (s := { s with buffer := s.buffer ++ text }) hs

lemma flush_setBuffer_embedding (text : String) (hs : (env.node s.top).subLanguage = none) :
    (do flush (env.embedding e); setBuffer text).run s = (do flush env; setBuffer text).run s :=
  run_bind_congr (flush_embedding e hs) (fun _ _ _ => rfl)

lemma put_embedding (hs : (env.node s.top).subLanguage = none) (lexeme : String) (place : Place) :
    (put (env.embedding e) lexeme place).run s = (put env lexeme place).run s := by
  cases place with
  | within => rfl
  | before => exact append_flush_embedding e lexeme hs
  | after => exact flush_setBuffer_embedding e lexeme hs
  | nowhere => exact flush_embedding e hs

lemma reactToBegin_embedding (hs : (env.node s.top).subLanguage = none) (id : NodeId) :
    (reactToBegin (env.embedding e) m id).run s = (reactToBegin env m id).run s := by
  have hverdict : verdict (env.embedding e) ((env.embedding e).node id) m =
      verdict env (env.node id) m := rfl
  rw [reactToBegin,reactToBegin,hverdict]
  split
  · rw [acceptBegin,acceptBegin,takeBegin_eq_put,takeBegin_eq_put]
    exact run_bind_congr (put_embedding e hs _ _) (fun _ _ _ => rfl)
  · rfl
  · rfl

/-- Only taking in the lexeme of an end may embed something. -/
lemma close_embedding (hs : (env.node s.top).subLanguage = none) (closed : List Frame) :
    (close (env.embedding e) m closed).run s = (close env m closed).run s := by
  simp only [close,takeEnd_eq_put]
  refine run_bind_congr (x := (get : Action State)) rfl (fun a s' hs' => ?_)
  cases hs'
  exact run_bind_congr (put_embedding e hs _ _) (fun _ _ _ => rfl)

lemma reactToEnd_embedding (hs : (env.node s.top).subLanguage = none) :
    (reactToEnd (env.embedding e) m).run s = (reactToEnd env m).run s := by
  have hclosing : closing (env.embedding e) m.start s.stack = closing env m.start s.stack := by
    apply closing_eq <;> rfl
  rw [run_reactToEnd,run_reactToEnd,hclosing]
  refine run_bind_congr rfl (fun closed s' hs' => ?_)
  have hsame : (ofSearch (closing env m.start s.stack)).Ensures s (fun _ s' => s' = s) (fun _ _ => True) :=
    ensures_ofSearch (fun _ _ => rfl) trivial
  rw [hsame.ok hs']
  cases closed with
  | none => rfl
  | some closed => exact close_embedding e hs closed

lemma react_embedding (hs : (env.node s.top).subLanguage = none) :
    (react (env.embedding e) m).run s = (react env m).run s := by
  rw [run_react,run_react]
  by_cases hstalls : stalls s.last m
  · rw [if_pos hstalls,if_pos hstalls]
    rfl
  · rw [if_neg hstalls,if_neg hstalls]
    refine run_bind_congr (x := (modify _ : Action Unit)) rfl (fun _ s' hs' => ?_)
    cases hs'
    cases m.kind with
    | begins id => exact reactToBegin_embedding e (s := { s with last := some m }) hs id
    | ends => exact reactToEnd_embedding e (s := { s with last := some m }) hs
    | illegal => rfl

/-- A step in a mode that hosts nothing, or that has no rules, asks for no embedded text. -/
lemma step_embedding (hs : (env.node s.top).subLanguage = none ∨ (env.node s.top).rules.rules = [])
    (number : Nat) : (step (env.embedding e) number).run s = (step env number).run s := by
  refine run_bind_congr (x := nextMatch env) rfl (fun found s' hs' => ?_)
  obtain ⟨⟨resumeAt,rfl⟩,first,hexec⟩ := (nextMatch_ensures env s).ok hs'
  cases found with
  | none => rfl
  | some m =>
    rcases hs with hs | hs
    · dsimp only
      by_cases hrunaway : isRunaway env number m.start = true
      · rw [if_pos hrunaway,if_pos (show isRunaway (env.embedding e) number m.start = true from hrunaway)]
        exact run_bind_congr (x := fail _) rfl (fun _ _ hfail => by cases hfail)
      · rw [if_neg hrunaway,if_neg (show ¬ isRunaway (env.embedding e) number m.start = true from hrunaway)]
        refine run_bind_congr (x := (get : Action State)) rfl (fun _ s₁ h₁ => ?_)
        cases h₁
        refine run_bind_congr (x := append _) rfl (fun _ s₂ h₂ => ?_)
        cases h₂
        exact run_bind_congr (react_embedding e hs) (fun _ _ _ => rfl)
    · obtain ⟨rule,hrule,-⟩ := RuleSet.exists_rule_of_exec hexec
      rw [hs] at hrule
      cases hrule

/-- A scan by a table without embedded grammars goes the same way whatever would be made of embedded texts. -/
lemma run_embedding (hs : ∀ id, (env.node id).subLanguage = none) (s : State) :
    run (env.embedding e) s = run env s := by
  have hfinish : ∀ s, (finish (env.embedding e)).run s = (finish env).run s := by
    intro s
    refine run_bind_congr (x := (get : Action State)) rfl (fun _ s' hs' => ?_)
    cases hs'
    exact append_flush_embedding e _ (hs _)
  have hsteps : ∀ n number s, steps (env.embedding e) n number s = steps env n number s := by
    intro n
    induction n with
    | zero => exact fun _ => hfinish
    | succ n ih =>
      intro number s
      rw [steps,steps,step_embedding e (.inl (hs _))]
      rcases (step env number).run s with ⟨halt | _ | _,s'⟩
      · rfl
      · exact hfinish s'
      · exact ih (number + 1) s'
  exact hsteps _ _ s

end Agreement

/-- Neither an opening mode nor a host has anything open inside, both are open only behind two
characters, and a host has kept nothing yet, with the cursor at a position. -/
structure State.Hosting (opening host position : Nat) (s : State) : Prop where
  below : ∀ f ∈ s.stack.tail, f.node ≠ opening ∧ f.node ≠ host
  opened : s.top = opening → 2 ≤ position
  hosted : s.top = host → 2 ≤ position ∧ s.buffer = ""

namespace State.Hosting

lemma of_stack (hs : s.Hosting opening host position) (htop : s.top ≠ host) {position' : Nat}
    (hstack : s'.stack = s.stack) (hposition : position ≤ position') :
    s'.Hosting opening host position' := by
  have htop' : s'.top = s.top := by rw [State.top,hstack,State.top]
  refine ⟨hstack ▸ hs.below,fun h => ?_,fun h => absurd (htop' ▸ h) htop⟩
  exact Nat.le_trans (hs.opened (htop' ▸ h)) hposition

lemma of_forall (ht : env.table.HostsAfter opening host)
    (h : ∀ f ∈ s.stack, f.node ≠ opening ∧ f.node ≠ host) : s.Hosting opening host position := by
  have htop : s.top ≠ opening ∧ s.top ≠ host := by
    rw [State.top]
    cases hhead : s.stack.head? with
    | none => exact ⟨ht.ne_root.1.symm,ht.ne_root.2.symm⟩
    | some f => exact h f (List.mem_of_mem_head? hhead)
  exact ⟨fun f hf => h f (List.mem_of_mem_tail hf),fun hto => absurd hto htop.1,
    fun hto => absurd hto htop.2⟩

end State.Hosting

section Steps

variable (ht : env.table.HostsAfter opening host)

open Highlight.Scan.Action

lemma keepLexeme_stack (env : Env) (s : State) :
    (keepLexeme env m).Ensures s (fun _ s' => s'.stack = s.stack) (fun _ _ => True) := rfl

lemma keepNext_stack (env : Env) (s : State) :
    (keepNext env position).Ensures s (fun _ s' => s'.stack = s.stack) (fun _ _ => True) := by
  rw [keepNext]
  split <;> rfl

lemma ignoreBegin_stack (env : Env) (s : State) :
    (ignoreBegin env m).Ensures s (fun _ s' => s'.stack = s.stack) (fun _ _ => True) := by
  rw [ignoreBegin,ensures_bind,ensures_get]
  split
  · exact keepNext_stack env s
  · rfl

lemma reactToIllegal_stack (env : Env) (s : State) :
    (reactToIllegal env m).Ensures s (fun _ s' => s'.stack = s.stack) (fun _ _ => True) := by
  rw [reactToIllegal]
  repeat' split
  · exact keepNext_stack env s
  · rfl
  · trivial

lemma takeEnd_buffer {sw : Switches Bool} (hskip : sw.skip = false) (hexclude : sw.excludeEnd = false)
    (lexeme : String) :
    (takeEnd env sw lexeme).Ensures s (fun _ s' => s'.buffer = "") (fun _ _ => True) := by
  have hflush : ∀ s, (flush env).Ensures s (fun _ s' => s'.buffer = "") (fun _ _ => True) :=
    fun s => (flush_ensures env s).mono (fun _ _ h => h.2.1) (fun _ _ _ => trivial)
  rw [takeEnd_eq_put,Switches.endPlace,hskip,hexclude,if_neg Bool.false_ne_true,if_neg Bool.false_ne_true]
  split
  · exact hflush s
  · exact hflush { s with buffer := s.buffer ++ lexeme }

lemma foldl_pop_buffer (closed : List Frame) :
    (closed.foldl (fun s f => s.pop env f) s).buffer = s.buffer := by
  induction closed generalizing s with
  | nil => rfl
  | cons f closed ih => exact ih

include ht

lemma top_ne_host {kind : RuleKind} (h : ∃ rule ∈ (env.node s.top).rules.rules, rule.kind = kind) :
    s.top ≠ host := by
  intro htop
  obtain ⟨rule,hrule,-⟩ := h
  rw [htop,Env.node,ht.rules_host] at hrule
  cases hrule

/-- What begins goes on top of a mode that neither opens nor hosts, and the begin of an opening mode is
left behind. -/
lemma acceptBegin_hosting (hs : s.Hosting opening host position) (htop : s.top ≠ opening ∧ s.top ≠ host)
    {id : NodeId} (hid : id ≠ host) (hlong : id = opening → m.start + 2 ≤ m.stop) :
    (acceptBegin env m id).Ensures s (fun moved s' => s'.Hosting opening host (m.start + moved))
      (fun _ _ => True) := by
  rw [acceptBegin,ensures_bind]
  refine (takeBegin_takes env s _ _).mono (fun _ s₁ h₁ => ?_) (fun _ _ _ => trivial)
  rw [ensures_bind]
  refine (enter_ensures env _ _).mono (fun _ s₂ h₂ => ?_) (fun _ _ _ => trivial)
  have hbelow : ∀ f ∈ s.stack, f.node ≠ opening ∧ f.node ≠ host := by
    intro f hf
    rcases hstack : s.stack with _ | ⟨g,rest⟩
    · rw [hstack] at hf
      cases hf
    · rw [State.top,hstack] at htop
      rw [hstack] at hf
      rcases List.mem_cons.mp hf with rfl | hf
      · exact htop
      · exact hs.below f (by rw [hstack]; exact hf)
  have hstack : s₂.stack.tail = s.stack := by rw [h₂.1,State.push,List.tail_cons,h₁.1.stack]
  have htop₂ : s₂.top = id := by rw [h₂.1]; rfl
  refine ⟨hstack ▸ hbelow,fun h => ?_,fun h => absurd (htop₂ ▸ h) hid⟩
  obtain rfl : id = opening := htop₂ ▸ h
  have hmoved := hlong rfl
  rw [Env.switches,Env.node,ht.switches.1,if_neg (by simp)]
  omega

/-- What an end uncovers neither opens nor hosts, unless it is the host that follows an opening mode. -/
lemma close_hosting (hs : s.Hosting opening host position) (htop : s.top ≠ host)
    (hposition : position ≤ m.start) {closed : List Frame} (hclosed : closed <+: s.stack) :
    (close env m closed).Ensures s (fun moved s' => s'.Hosting opening host (m.start + moved))
      (fun _ _ => True) := by
  obtain ⟨rest,hstack⟩ := hclosed
  have hbuffer : s.top = opening →
      (takeEnd env (env.switches s.top) (env.lexeme m)).Ensures s (fun _ s' => s'.buffer = "")
        (fun _ _ => True) := by
    intro h
    rw [h]
    exact takeEnd_buffer ht.switches.2.2 ht.switches.2.1 _
  rw [close,ensures_bind,ensures_get,ensures_bind]
  refine ensures_of_run (fun _ s₁ hs₁ => ?_) (fun _ _ _ => trivial)
  have hkeeps := ((takeEnd_takes env s _ _).ok hs₁).1
  have hbuffer : s.top = opening → s₁.buffer = "" := fun h => (hbuffer h).ok hs₁
  rw [ensures_bind]
  refine (forM_leave_ensures env closed).mono (fun _ s₂ h₂ => ?_) (fun _ _ => False.elim)
  have hrest : s₂.stack = rest := by
    rw [h₂,stack_foldl_pop,hkeeps.stack,← hstack,List.drop_left]
  cases hlast : closed.getLast? with
  | none =>
    rw [List.getLast?_eq_none_iff.mp hlast,List.nil_append] at hstack
    exact hs.of_stack htop (hrest.trans hstack) (Nat.le_trans hposition (Nat.le_add_right _ _))
  | some outermost =>
    obtain ⟨inside,rfl⟩ := List.getLast?_eq_some_iff.mp hlast
    rw [List.append_assoc,List.singleton_append] at hstack
    have hbelow : ∀ f ∈ rest, f.node ≠ opening ∧ f.node ≠ host := by
      intro f hf
      refine hs.below f ?_
      rw [← hstack]
      cases inside with
      | nil => exact hf
      | cons g inside => exact List.mem_append_right _ (List.mem_cons_of_mem _ hf)
    dsimp only
    rw [ensures_bind]
    refine (follow_ensures env s₂ outermost m.start).mono (fun _ s₃ h₃ => ?_) (fun _ _ _ => trivial)
    rcases h₃ with rfl | ⟨next,hnext,rfl,-⟩
    · exact .of_forall ht (hrest ▸ hbelow)
    · refine ⟨fun f hf => hbelow f (hrest ▸ hf),fun h => ?_,fun h => ?_⟩
      · have h : next.node = opening := h
        exact absurd (h ▸ hnext) (ht.starts _).1
      · have h : next.node = host := h
        have houtermost : outermost.node = opening := (ht.starts _).2 (h ▸ hnext)
        -- the opening mode has nothing open inside, so that it is the innermost one
        have hinside : inside = [] := by
          cases inside with
          | nil => rfl
          | cons g inside =>
            refine absurd houtermost (hs.below outermost ?_).1
            rw [← hstack]
            exact List.mem_append_right _ List.mem_cons_self
        have htop : s.top = opening := by
          rw [State.top,← hstack,hinside]
          exact houtermost
        refine ⟨Nat.le_trans (hs.opened htop) (Nat.le_trans hposition (Nat.le_add_right _ _)),?_⟩
        rw [State.push,h₂,foldl_pop_buffer]
        exact hbuffer htop

lemma react_hosting (hs : s.Hosting opening host position) (hposition : position ≤ m.start)
    (hrule : ∃ rule ∈ (env.node s.top).rules.rules, rule.kind = m.kind)
    (hlong : m.kind = .begins opening → m.start + 2 ≤ m.stop) :
    (react env m).Ensures s (fun moved s' => s'.Hosting opening host (m.start + moved))
      (fun _ _ => True) := by
  have htop := top_ne_host ht hrule
  obtain ⟨rule,hrule,hkind⟩ := hrule
  have hstays : ∀ {s' : State} (moved : Nat), s'.stack = s.stack →
      s'.Hosting opening host (m.start + moved) := fun moved hstack =>
    hs.of_stack htop hstack (Nat.le_trans hposition (Nat.le_add_right _ _))
  rw [react,ensures_bind,ensures_get]
  split
  · split
    · exact (keepNext_stack env s).mono (fun moved _ h => hstays moved h) (fun _ _ h => h)
    · trivial
  · rw [ensures_bind,ensures_modify]
    have hs : State.Hosting opening host position { s with last := some m } := ⟨hs.below,hs.opened,hs.hosted⟩
    cases h : m.kind with
    | begins id =>
      dsimp only
      rw [reactToBegin]
      split
      · refine acceptBegin_hosting ht hs ⟨fun hopening => ?_,htop⟩ ?_ (fun hid => hlong (by rw [h,hid]))
        · have hopening : s.top = opening := hopening
          rw [hopening] at hrule
          exact ht.rules_opening rule hrule id (hkind.trans h)
        · rintro rfl
          exact ht.begins _ rule hrule (hkind.trans h)
      · exact (ignoreBegin_stack env _).mono (fun moved _ h => hstays moved h) (fun _ _ h => h)
      · split
        · exact (keepNext_stack env _).mono (fun moved _ h => hstays moved h) (fun _ _ h => h)
        · exact (keepLexeme_stack env _).mono (fun moved _ h => hstays moved h) (fun _ _ h => h)
    | ends =>
      dsimp only
      rw [reactToEnd,ensures_bind,ensures_get,ensures_bind]
      refine ensures_ofSearch (fun closed hclosed => ?_) trivial
      cases closed with
      | none => exact (keepLexeme_stack env _).mono (fun moved _ h => hstays moved h) (fun _ _ h => h)
      | some closed => exact close_hosting ht hs htop hposition (closing_innermost hclosed)
    | illegal => exact (reactToIllegal_stack env _).mono (fun moved _ h => hstays moved h) (fun _ _ h => h)

lemma step_hosting (hs : s.Hosting opening host s.position) (number : Nat) :
    (step env number).Ensures s (fun _ s' => s'.Hosting opening host s'.position) (fun _ _ => True) := by
  rw [step,ensures_bind]
  refine (nextMatch_ensures env s).mono (fun found s₁ h₁ => ?_) (fun _ _ _ => trivial)
  obtain ⟨⟨resumeAt,rfl⟩,first,hexec⟩ := h₁
  cases found with
  | none => exact ⟨hs.below,hs.opened,hs.hosted⟩
  | some m =>
    dsimp only
    split
    · trivial
    · have hrule := RuleSet.exists_rule_of_exec hexec
      let before : State :=
        { s with buffer := s.buffer ++ env.text.slice s.position m.start, resumeAt, stays := false }
      have hbefore : before.Hosting opening host s.position := hs.of_stack (top_ne_host ht hrule) rfl (Nat.le_refl _)
      rw [ensures_bind,ensures_get,ensures_bind,ensures_append,ensures_bind]
      exact (react_hosting ht hbefore (RuleSet.exec_within hexec).start_le hrule
        (fun h => ht.two_le hexec h)).mono (fun moved s₃ h₃ => ⟨h₃.below,h₃.opened,h₃.hosted⟩)
        (fun _ _ h => h)

/-- What is embedded at the end of the text is all that is left of it. -/
lemma finish_embedding {e : Embed} (hs : s.Hosting opening host s.position)
    (he : ∀ front code, front ++ code = env.text.toString → 2 ≤ front.length →
      e (.auto []) none code = env.embed (.auto []) none code) :
    (finish (env.embedding e)).run s = (finish env).run s := by
  refine run_bind_congr (x := (get : Action State)) rfl (fun _ s' hs' => ?_)
  cases hs'
  refine run_bind_congr (x := append _) rfl (fun _ s' hs' => ?_)
  cases hs'
  refine flush_embedding_of_eq e (fun sub hsub hbuffer => ?_)
  obtain ⟨htop,rfl⟩ := ht.hosts _ _ hsub
  obtain ⟨hposition,hempty⟩ := hs.hosted htop
  dsimp only at hbuffer ⊢
  rw [hempty,String.empty_append] at hbuffer ⊢
  refine he (env.text.slice 0 s.position) _ ?_ ?_
  · rw [env.text.slice_append_rest,env.text.slice_eq_toString]
  · have hlt : s.position < env.text.size := by
      by_contra hge
      exact hbuffer (env.text.slice_of_size_le _ (Nat.le_of_not_lt hge))
    simpa [Source.slice,Nat.min_eq_left (Nat.le_of_lt hlt)] using hposition

lemma steps_embedding {e : Embed} (hs : s.Hosting opening host s.position)
    (he : ∀ front code, front ++ code = env.text.toString → 2 ≤ front.length →
      e (.auto []) none code = env.embed (.auto []) none code) (n number : Nat) :
    steps (env.embedding e) n number s = steps env n number s := by
  induction n generalizing s number with
  | zero => exact finish_embedding ht hs he
  | succ n ih =>
    have hstep : (step (env.embedding e) number).run s = (step env number).run s := by
      refine step_embedding e ?_ number
      by_cases htop : s.top = host
      · exact .inr (htop ▸ ht.rules_host)
      · refine .inl (Option.eq_none_iff_forall_ne_some.mpr (fun sub hsub => ?_))
        exact htop (ht.hosts _ _ hsub).1
    rw [steps,steps,hstep]
    have hensures := step_hosting ht hs number
    rcases hrun : (step env number).run s with ⟨halt | _ | _,s'⟩
    · rfl
    · exact finish_embedding ht (hensures.ok hrun) he
    · exact ih (hensures.ok hrun) (number + 1)

/-- A scan that starts afresh hands on nothing but what is left of the text behind two characters, to
whichever grammar fits it best. -/
theorem callsOnly_of_hostsAfter (assembled : List String) :
    env.CallsOnly (.opened env.table none assembled) (fun sub c code => sub = .auto [] ∧ c = none ∧
      ∃ front, front ++ code = env.text.toString ∧ 2 ≤ front.length) := by
  intro e he
  have hlimit : stepLimit (env.embedding e) = stepLimit env := rfl
  rw [run,run,hlimit]
  refine steps_embedding ht ?_ (fun front code h hfront => he _ _ _ ⟨rfl,rfl,front,h,hfront⟩) _ _
  refine ⟨fun f hf => ?_,fun h => absurd h ht.ne_root.1.symm,fun h => absurd h ht.ne_root.2.symm⟩
  cases hf

end Steps

end Scan
end Highlight
