import Highlight.Proofs.IllegalReports
import Highlight.Proofs.Scan.Scopes
import Highlight.Proofs.Scan.Spans

/-!
Where scopes come from. In a table without keywords and embedded grammars, a scope of a class whose modes open
at begin matches alone goes back to such a match. It lies between that match and one that ends the mode, or
else its mode is still open where the scan stops.
-/
namespace Highlight

open Assembly
open Highlight.Tree (Builder Located locatedIn)
open Highlight.Tree.Builder (kinds enclosingText)

namespace NodeTable

variable {t : NodeTable} {kind : String}

/-- A table in which the scopes of a class come from begin matches alone. -/
structure DrawsAtBegins (t : NodeTable) (kind : String) : Prop where
  oneSided : t.OneSided
  keywords : ∀ id, (t.node id).keywords = none
  subLanguage : ∀ id, (t.node id).subLanguage = none
  starts : ∀ {id next}, (t.node id).starts = some next → (t.node next).className ≠ some kind

/-- The outlines say whether a table is such. -/
lemma DrawsAtBegins.of_outlines {g : Grammar} (hg : g.assemble = .ok t) {os : List Outline}
    (hos : outlines g = some os)
    (hplain : ∀ o ∈ os, o.switches = Switches.unset.resolve ∧ o.keywords = none ∧ o.subLanguage = none)
    (hstarts : ∀ o ∈ os, ∀ next ∈ o.starts, os[next]?.bind Outline.className ≠ some kind) :
    t.DrawsAtBegins kind := by
  have hnode := node_of_outlines hg hos
  refine ⟨fun node hmem => ?_,fun id => ?_,fun id => ?_,fun {id next} hnext => ?_⟩
  · obtain ⟨id,hid⟩ := Array.mem_iff_getElem?.mp hmem
    have heq : t.node id = node := by rw [NodeTable.node,Array.getD_eq_getD_getElem?,hid,Option.getD_some]
    rcases hnode id with ⟨-,hdefault⟩ | ⟨o,ho,houtlined⟩
    · rw [← heq,hdefault]
      decide
    · rw [← heq,houtlined.switches,(hplain o (List.mem_of_getElem? ho)).1]
      decide
  · rcases hnode id with ⟨-,hdefault⟩ | ⟨o,ho,houtlined⟩
    · rw [hdefault]
      rfl
    · rw [houtlined.keywords,(hplain o (List.mem_of_getElem? ho)).2.1]
      rfl
  · rcases hnode id with ⟨-,hdefault⟩ | ⟨o,ho,houtlined⟩
    · rw [hdefault]
      rfl
    · rw [houtlined.subLanguage,(hplain o (List.mem_of_getElem? ho)).2.2]
  · rcases hnode id with ⟨-,hdefault⟩ | ⟨o,ho,houtlined⟩
    · rw [hdefault] at hnext
      cases hnext
    · rw [houtlined.starts] at hnext
      have hclass := hstarts o (List.mem_of_getElem? ho) next hnext
      rcases hnode next with ⟨-,hdefault⟩ | ⟨o',ho',houtlined'⟩
      · rw [hdefault]
        exact Option.some_ne_none kind |>.symm
      · rwa [ho',Option.bind_some,← houtlined'.className] at hclass

end NodeTable

namespace Scan

open Rules Highlight.Scan.Action

variable {env : Env} {s s' s₀ u : State} {m e : RuleMatch} {f : Frame} {n number : Nat} {goesOn : Bool}
variable {below closed : List Frame} {kind : String} {scope : Located}

section Steps

variable (ht : env.table.DrawsAtBegins kind)

include ht

lemma flush_located (s : State) : (flush env).Ensures s (fun _ s' => s'.tree.located = s.tree.located)
    (fun _ _ => True) := by
  refine (flushes_text (ht.keywords s.top) (ht.subLanguage s.top) s.buffer s rfl rfl).mono
    (fun _ s' h => ?_) (fun _ _ _ => trivial)
  rw [h]
  exact s.tree.located_addText _

/-- Putting a lexeme in its place closes no scope. -/
lemma put_located (s : State) (lexeme : String) (place : Place) : (put env lexeme place).Ensures s
    (fun _ s' => s'.tree.located = s.tree.located) (fun _ _ => True) := by
  cases place with
  | within => exact rfl
  | before =>
    rw [put,ensures_bind,ensures_append]
    exact flush_located ht _
  | after =>
    rw [put,ensures_bind]
    exact (flush_located ht s).mono (fun _ _ h => h) (fun _ _ h => h)
  | nowhere => exact flush_located ht s

omit ht

/-- Each new scope that is there once modes are closed is that of one of them, with the text that is left in it
when those on top of it are closed. -/
lemma mem_located_pops (h : scope ∈ (closed.foldl (fun s f => s.pop env f) s).tree.located) :
    scope ∈ s.tree.located ∨ ∃ inner f outer kind before rest, closed = inner ++ f :: outer ∧
      (env.node f.node).className.isSome ∧
      (inner.foldl (fun s f => s.pop env f) s).tree.enclosing = (kind,before) :: rest ∧
      scope = ⟨kinds rest,enclosingText ((kind,before) :: rest),some kind,
        (inner.foldl (fun s f => s.pop env f) s).tree.ownText⟩ := by
  induction closed generalizing s with
  | nil => exact .inl h
  | cons f closed ih =>
    rcases ih h with h | ⟨inner,f',outer,kind,before,rest,rfl,hclass,henclosing,hscope⟩
    · replace h : scope ∈ (s.pop env f).tree.located := h
      rw [State.pop] at h
      dsimp only at h
      split at h
      · rename_i hclass
        rcases Builder.mem_located_closeScope h with h | ⟨kind,before,rest,henclosing,hscope⟩
        · exact .inl h
        · exact .inr ⟨[],f,closed,kind,before,rest,rfl,hclass,henclosing,hscope⟩
      · exact .inl h
    · exact .inr ⟨f :: inner,f',outer,kind,before,rest,rfl,hclass,henclosing,hscope⟩

/-- A step takes the modes off the stack that its match closes. It puts none on it, or one that the match
begins or one that follows on another mode. -/
lemma Stepped.stack_cases (h : Stepped env number s goesOn s') :
    s'.stack = s.stack.drop (closedNext env s).length ∨
      (∃ m f, ((nextMatch env).run s).1 = .ok (some m) ∧ m.kind = .begins f.node ∧ closedNext env s = [] ∧
        s'.stack = f :: s.stack) ∨
      ∃ id next, (env.node id).starts = some next.node ∧
        s'.stack = next :: s.stack.drop (closedNext env s).length := by
  cases h with
  | ends hexec =>
    left
    rw [closedNext,nextMatch_eq_ok_iff.mpr hexec]
    rfl
  | @finds m moved s₂ hexec _ hreact =>
    have hfound := nextMatch_eq_ok_iff.mpr hexec
    rw [closedNext_eq hfound]
    cases hreact with
    | opens hkind _ _ hput =>
      have hnone : closedBy env m s = [] := by rw [closedBy,hkind]
      exact .inr (.inl ⟨m,_,hfound,hkind,hnone,congrArg _ ((put_puts env _ _ _).ok hput).keeps.stack⟩)
    | @closes closed s₁ hkind hstalls hclosing hput =>
      have hclosed : closedBy env m s = closed := closedBy_eq hkind hstalls hclosing
      have hstack : s₁.stack = s.stack := ((put_puts env _ _ _).ok hput).keeps.stack
      rw [hclosed,← hstack]
      have hpops : ∀ (closed : List Frame) (s : State),
          (closed.foldl (fun s f => s.pop env f) s).stack = s.stack.drop closed.length := by
        intro closed
        induction closed with
        | nil => exact fun _ => rfl
        | cons f closed ih =>
          intro s
          rw [List.foldl_cons,ih,State.pop,List.drop_tail]
          rfl
      rw [State.close]
      cases hnext : nextFrame? env closed with
      | none => exact .inl (hpops closed s₁)
      | some next =>
        obtain ⟨last,-,hnext⟩ := Option.bind_eq_some_iff.mp hnext
        obtain ⟨id,hid,hnext⟩ := Option.bind_eq_some_iff.mp hnext
        obtain rfl := Option.some.inj hnext
        exact .inr (.inr ⟨last.node,_,hid,congrArg (List.cons _) (hpops closed s₁)⟩)
    | keeps h =>
      have hnone : closedBy env m s = [] := h.closedBy_eq_nil
      rw [hnone]
      exact .inl rfl
    | leaves hkind =>
      rw [closedBy,hkind]
      exact .inl rfl
    | steps hstalls =>
      have hstalls : stalls s.last m = true := hstalls
      left
      rw [closedBy,hstalls]
      split <;> rfl

/-- A step after which a scan is done closes no mode, and leaves the tree as it is. -/
lemma Stepped.of_done (h : Stepped env number s false s') : closedNext env s = [] ∧ s'.tree = s.tree := by
  generalize hdone : false = goesOn at h
  cases h with
  | ends hexec =>
    rw [closedNext,nextMatch_eq_ok_iff.mpr hexec]
    exact ⟨rfl,rfl⟩
  | @finds m moved s₂ hexec _ hreact =>
    have hsize : env.text.size < m.start + moved := Nat.lt_of_not_le (of_decide_eq_false hdone.symm)
    obtain ⟨hstart,hle,hstop⟩ := RuleSet.exec_within hexec
    rw [closedNext_eq (nextMatch_eq_ok_iff.mpr hexec)]
    cases hreact with
    | opens | closes =>
      -- such a step moves the cursor over the lexeme at most
      split at hsize <;> omega
    | leaves => omega
    | keeps h =>
      have hnone : closedBy env m s = [] := h.closedBy_eq_nil
      exact ⟨hnone,rfl⟩
    | steps hstalls =>
      have hstalls : stalls s.last m = true := hstalls
      refine ⟨?_,rfl⟩
      rw [closedBy,hstalls]
      split <;> rfl

/-- A mode of which no step closes enough lives on. -/
lemma Lives.remains (h : Lives env s₀ m f below n s) (hstep : (step env (n + 1)).run s = (.ok true,s'))
    (hsuffix : f :: below <:+ s.stack.drop (closedNext env s).length) : Lives env s₀ m f below (n + 1) s' := by
  have hlength := hsuffix.length_le
  rw [List.length_cons,List.length_drop] at hlength
  exact .stays h (by omega) hstep

end Steps

section Runs

variable {assembled : List String}

/-- A scope of a class that lies between a match that opened a mode and one that closed it. -/
def IsDrawn (env : Env) (s₀ : State) (kind : String) (scope : Located) : Prop :=
  ∃ m e f below n u, (env.node f.node).className = some kind ∧ Spans env s₀ m e f below n u ∧
    scope = scopeBetween env below kind ((env.switches f.node).scopeStart m) ((env.switches u.top).scopeStop e)

/-- The scopes of a class and the open modes of that class go back to begin matches. -/
structure Traced (env : Env) (s₀ : State) (kind : String) (n : Nat) (s : State) : Prop where
  closed : ∀ scope ∈ s.tree.located, scope.kind = some kind → IsDrawn env s₀ kind scope
  opened : ∀ f below, f :: below <:+ s.stack → below ≠ [] → (env.node f.node).className = some kind →
    ∃ m, Lives env s₀ m f below n s

/-- With the modes on top of it closed, the innermost open scope is that of a mode that has a class. -/
lemma Stands.className_eq {above more : List Frame} {before : List Tree} {rest : List (String × List Tree)}
    (h : Stands env (above ++ f :: more) below [] s) (hclass : (env.node f.node).className.isSome)
    (henclosing : (above.foldl (fun s f => s.pop env f) s).tree.enclosing = (kind,before) :: rest) :
    (env.node f.node).className = some kind := by
  obtain ⟨className,hclass⟩ := Option.isSome_iff_exists.mp hclass
  obtain ⟨opened,hopened,hkinds⟩ := h.pops.enclosing
  rw [List.append_nil,henclosing] at hopened
  rw [← hopened,List.map_cons,List.filterMap_cons,hclass] at hkinds
  exact hclass.trans (congrArg some (List.cons.inj hkinds).1.symm)

variable (hclosed : env.table.Closed) (hf : env.Faithful) (ht : env.table.DrawsAtBegins kind)

include hclosed hf ht

/-- A scope that closes with a mode lies between the match that opened the mode and the one that closed it. -/
lemma isDrawn_of_popped {above : List Frame} {before : List Tree} {rest : List (String × List Tree)}
    (h : Spans env (.opened env.table none assembled) m e f below n u)
    (hclass : (env.node f.node).className = some kind) (hstack : u.stack = above ++ f :: below)
    (hput : (put env (env.lexeme e) (env.switches u.top).endPlace).run { u.atMatch env e with last := some e } =
      (.ok (),s))
    (henclosing : (above.foldl (fun s f => s.pop env f) s).tree.enclosing = (kind,before) :: rest) :
    IsDrawn env (.opened env.table none assembled) kind
      ⟨kinds rest,enclosingText ((kind,before) :: rest),some kind,
        (above.foldl (fun s f => s.pop env f) s).tree.ownText⟩ := by
  obtain ⟨-,-,before',rest',inner,hstands,hstands',hscope⟩ :=
    h.scope_eq hclosed ht.oneSided hf (fun _ hc => by cases hc) hclass hput
  obtain rfl : above = inner := List.append_cancel_right (hstack.symm.trans hstands.stack)
  obtain ⟨hbefore,rfl⟩ := List.cons.inj (henclosing.symm.trans hstands'.enclosing_pops)
  obtain ⟨-,rfl⟩ := Prod.mk.inj hbefore
  exact ⟨m,e,f,below,n,u,hclass,h,hscope⟩

/-- The scopes of the class after a step have been there before, or are those of modes that the step closes. -/
lemma Traced.isDrawn_of_step (h : Traced env (.opened env.table none assembled) kind n s)
    (hafter : After env (.opened env.table none assembled) n s) (hstep : (step env (n + 1)).run s = (.ok goesOn,s'))
    (hscope : scope ∈ s'.tree.located) (hkind : scope.kind = some kind) :
    IsDrawn env (.opened env.table none assembled) kind scope := by
  obtain ⟨inner,hstands⟩ := hafter.stands hclosed (fun _ hc => by cases hc)
  have hgoes : ∃ goesOn s', (step env (n + 1)).run s = (.ok goesOn,s') := ⟨goesOn,s',hstep⟩
  have hstepped := (step_cases env _ s).ok hstep
  clear hstep
  cases hstepped with
  | ends => exact h.closed scope hscope hkind
  | @finds e moved s₂ hexec _ hreact =>
    have hfound := nextMatch_eq_ok_iff.mpr hexec
    cases hreact with
    | opens _ _ _ hput =>
      have hlocated := (put_located ht _ _ _).ok hput
      refine h.closed scope ?_ hkind
      dsimp only at hscope
      rwa [located_push,hlocated] at hscope
    | @closes closed s₁ hends hstalls hclosing hput =>
      have hlocated : s₁.tree.located = s.tree.located := by
        rw [(put_located ht _ _ _).ok hput]
        rfl
      have hpops : scope ∈ (closed.foldl (fun s f => s.pop env f) s₁).tree.located := by
        dsimp only at hscope
        rw [State.close] at hscope
        cases hnext : nextFrame? env closed with
        | none => rwa [hnext] at hscope
        | some next => rwa [hnext,Option.elim_some,located_push] at hscope
      rcases mem_located_pops hpops with hold | ⟨above,f,outer,kind',before,rest,rfl,hclass,henclosing,rfl⟩
      · exact h.closed scope (hlocated ▸ hold) hkind
      · obtain rfl : kind' = kind := Option.some.inj hkind
        obtain ⟨more,rfl⟩ : (above ++ f :: outer) <+: inner := by
          rw [show (s.atMatch env e).stack = s.stack from rfl,hstands.stack] at hclosing
          exact closing_inner hclosed hclosing
        have hsplit : s.stack = above ++ f :: (outer ++ more ++ [.top]) := by
          rw [hstands.stack]
          simp only [List.append_assoc,List.cons_append]
        have hputs := (put_puts env _ _ _).ok hput
        have hclass : (env.node f.node).className = some kind' := by
          have hstands₁ := hstands.congr hputs.keeps.stack hputs.enclosing
          rw [List.append_assoc] at hstands₁
          exact hstands₁.className_eq hclass henclosing
        obtain ⟨m,hlives⟩ := h.opened f _ ⟨above,hsplit.symm⟩ (by simp) hclass
        refine isDrawn_of_popped hclosed hf ht ⟨hlives,hfound,?_,hgoes⟩ hclass hsplit hput henclosing
        rw [closedNext_eq hfound,show closedBy env e s = _ from closedBy_eq hends hstalls hclosing,hsplit]
        simp only [List.length_append,List.length_cons]
        omega
    | keeps | leaves | steps => exact h.closed scope hscope hkind

/-- A step keeps scopes and open modes traced. -/
lemma Traced.step (h : Traced env (.opened env.table none assembled) kind n s)
    (hafter : After env (.opened env.table none assembled) n s)
    (hstep : (Scan.step env (n + 1)).run s = (.ok true,s')) :
    Traced env (.opened env.table none assembled) kind (n + 1) s' := by
  refine ⟨fun scope => h.isDrawn_of_step hclosed hf ht hafter hstep,fun f below hsuffix hne hclass => ?_⟩
  have hremains : f :: below <:+ s.stack.drop (closedNext env s).length →
      ∃ m, Lives env (.opened env.table none assembled) m f below (n + 1) s' := by
    intro hsuffix
    obtain ⟨m,hlives⟩ := h.opened f below (hsuffix.trans (List.drop_suffix _ _)) hne hclass
    exact ⟨m,hlives.remains hstep hsuffix⟩
  rcases ((step_cases env _ s).ok hstep).stack_cases with
    hstack | ⟨m,g,hfound,hkind,hnone,hstack⟩ | ⟨id,g,hstarts,hstack⟩
  · exact hremains (hstack ▸ hsuffix)
  · rw [hstack,List.suffix_cons_iff] at hsuffix
    rcases hsuffix with heq | hsuffix
    · obtain ⟨rfl,rfl⟩ := List.cons.inj heq
      exact ⟨m,.opened hafter hfound hkind hstep rfl hstack⟩
    · rw [hnone] at hremains
      exact hremains hsuffix
  · rw [hstack,List.suffix_cons_iff] at hsuffix
    rcases hsuffix with heq | hsuffix
    · obtain ⟨rfl,-⟩ := List.cons.inj heq
      exact absurd hclass (ht.starts hstarts)
    · exact hremains hsuffix

/-- In every state of a scan, scopes and open modes are traced. -/
lemma After.traced (h : After env (.opened env.table none assembled) n s) :
    Traced env (.opened env.table none assembled) kind n s := by
  induction h with
  | start =>
    refine ⟨fun _ hscope => (List.not_mem_nil hscope).elim,fun f below hsuffix hne => ?_⟩
    rcases List.suffix_cons_iff.mp hsuffix with heq | hsuffix
    · exact absurd (List.cons.inj heq).2 hne
    · exact absurd (List.suffix_nil.mp hsuffix) (List.cons_ne_nil _ _)
  | step hafter hstep ih => exact ih.step hclosed hf ht hafter hstep

omit hclosed hf

/-- The scopes of a result have closed in the scan, or are open where it stops. -/
lemma exists_stop_of_conclude {outcome : Except Halt Unit} {settings : Settings} {language code : String} {r : Result}
    (h₀ : s₀.position ≤ env.text.size) (hrun : run env s₀ = (outcome,s))
    (hr : conclude env settings language code s outcome = .ok r) (hscope : scope ∈ locatedIn [] "" r.tree) :
    ∃ n u, After env s₀ n u ∧ closedNext env u = [] ∧
      (scope ∈ u.tree.located ∨ scope.kind ∈ kinds u.tree.enclosing) := by
  match outcome with
  | .ok () =>
    cases hr
    obtain ⟨n,-,hends⟩ := run_endsAfter h₀
    rw [hrun] at hends
    generalize hend : ((.ok () : Except Halt Unit),s) = finished at hends
    cases hends with
    | halted => cases hend
    | @finished u u' hafter hstep =>
      obtain ⟨hnone,htree⟩ := ((step_cases env _ u).ok hstep).of_done
      have htext := flushes_text (ht.keywords u'.top) (ht.subLanguage u'.top)
        (u'.buffer ++ env.text.slice u'.position env.text.size)
      obtain rfl := (finish_succeeds htext).ok hend.symm
      have hmem := Builder.mem_located_finish hscope
      rw [Builder.located_addText,Builder.enclosing_addText,htree] at hmem
      exact ⟨n,u,hafter,hnone,hmem⟩
  | .error (.illegal lexeme) =>
    cases hr
    obtain ⟨n,u,m,hstops,rfl⟩ := exists_stops h₀ hrun (fun hlegal => hlegal)
    refine ⟨n,u,hstops.after,?_,Builder.mem_located_finish hscope⟩
    rw [closedNext_eq hstops.found,closedBy,hstops.objects.kind]
  | .error (.fault fault) =>
    rw [conclude] at hr
    split at hr
    · cases hr
      dsimp only [Result.plaintext] at hscope
      split at hscope
      · cases hscope
      · rw [Tree.locatedIn_leaf] at hscope
        cases hscope
    · cases hr
  | .error (.error error) => cases hr

include hf

/-- Each scope of such a class in a result lies between a match that opened a mode and one that closed it, unless
the mode is still open where the scan stops. -/
theorem isDrawn_or_open {g : Grammar} (hg : g.assemble = .ok env.table) {outcome : Except Halt Unit}
    {settings : Settings} {language code : String} {r : Result}
    (hrun : run env (.opened env.table none assembled) = (outcome,s))
    (hr : conclude env settings language code s outcome = .ok r) (hscope : scope ∈ locatedIn [] "" r.tree)
    (hkind : scope.kind = some kind) :
    IsDrawn env (.opened env.table none assembled) kind scope ∨
      ∃ m f below n u, (env.node f.node).className = some kind ∧
        Lives env (.opened env.table none assembled) m f below n u ∧ closedNext env u = [] := by
  have hclosed := Grammar.assemble_closed hg
  obtain ⟨n,u,hafter,hnone,hmem⟩ := exists_stop_of_conclude ht (opened_in_text env none assembled) hrun hr hscope
  have htraced := hafter.traced hclosed hf ht
  rcases hmem with hmem | hmem
  · exact .inl (htraced.closed scope hmem hkind)
  · obtain ⟨inner,hstands⟩ := hafter.stands hclosed (fun _ hc => by cases hc)
    rw [hstands.kinds_eq,hkind,scopesAround,List.mem_map] at hmem
    obtain ⟨className,hmem,hclass⟩ := hmem
    obtain ⟨f,hfmem,hfclass⟩ := List.mem_filterMap.mp (List.mem_reverse.mp hmem)
    rw [hstands.stack,List.dropLast_concat] at hfmem
    obtain ⟨above,more,rfl⟩ := List.append_of_mem hfmem
    obtain ⟨m,hlives⟩ := htraced.opened f (more ++ [.top]) ⟨above,by rw [hstands.stack]; simp⟩ (by simp)
      (hfclass.trans hclass)
    exact .inr ⟨m,f,_,n,u,hfclass.trans hclass,hlives,hnone⟩

end Runs

section AtOnce

open Assembly

variable {o : Outline} {ic : Bool} {assembled : List String}

/-- A mode that ends everywhere is open in one state only, where its begin ends, and the next step closes it. -/
lemma Lives.closes_atOnce (h : Lives env s₀ m f below n u) (ho : Outlined ic o (env.node f.node))
    (hplain : PlainMode o) (honce : EndsAtOnce o) (hm : m.start < m.stop) : u.stack = f :: below ∧
      ((nextMatch env).run u).1 = .ok (some ⟨m.stop,m.stop,.ends,0⟩) ∧ closedNext env u = [f] := by
  have hswitches : env.switches f.node = o.switches := ho.switches
  rw [hplain.switches] at hswitches
  induction h with
  | stays _ hopen _ ih =>
    obtain ⟨hstack,-,hclosed⟩ := ih
    rw [hstack,hclosed] at hopen
    exact absurd hopen (Nat.lt_irrefl _)
  | @opened n s s' _ hfound hkind hstep hbelow hstack =>
    obtain ⟨hframe,s₁,hput,rfl⟩ := ((step_cases env _ s).ok hstep).opens hfound hkind (hbelow ▸ hstack)
    obtain ⟨-,-,hstop⟩ := RuleSet.exec_within (nextMatch_eq_ok_iff.mp hfound)
    have hkeeps := ((put_puts env _ _ _).ok hput).keeps
    have hposition : m.start + (if (env.switches f.node).returnBegin then 0 else m.stop - m.start) = m.stop := by
      rw [hswitches]
      exact Nat.add_sub_cancel' (Nat.le_of_lt hm)
    have hf : f = { node := f.node } := by
      rw [← hframe,beginFrame,hswitches]
      rfl
    rw [hposition] at hstack ⊢
    generalize hu : { s₁.push env f with position := m.stop } = u at hstack ⊢
    have htop : u.top = f.node := by rw [State.top,hstack]; rfl
    have hat : u.position = m.stop := by rw [← hu]
    have hlast : u.last = some m := by rw [← hu]; exact hkeeps.last
    have hfirst : u.firstRule = 0 := by
      have hstays : u.stays = false := by rw [← hu]; exact hkeeps.stays
      rw [State.firstRule,hstays]
      rfl
    obtain ⟨hexec,hstalls,hends⟩ := honce.closes ho htop hlast (hat ▸ hm) (hat ▸ hstop)
    rw [hat] at hexec hstalls hends
    have hfound' : ((nextMatch env).run u).1 = .ok (some ⟨m.stop,m.stop,.ends,0⟩) := by
      rw [nextMatch_eq_ok_iff,hfirst,hat]
      exact hexec
    refine ⟨hstack,hfound',?_⟩
    have hclosing : closing env m.stop u.stack = .ok (some [f]) := by
      rw [hstack]
      exact closing_own (hf ▸ hends) (by rw [hswitches]; rfl)
    rw [closedNext_eq hfound',closedBy_eq rfl hstalls hclosing]

/-- The match that opened a mode. -/
lemma Lives.exists_begin (h : Lives env s₀ m f below n u) : ∃ k s, After env s₀ k s ∧
    ((nextMatch env).run s).1 = .ok (some m) ∧ m.kind = .begins f.node ∧ s.stack = below := by
  induction h with
  | opened h hfound hkind _ hbelow => exact ⟨_,_,h,hfound,hkind,hbelow⟩
  | stays _ _ _ ih => exact ih

/-- If the modes of a class end everywhere, each scope of that class is the lexeme of a match that begins one. -/
theorem exists_begin_of_located {g : Grammar} (hg : g.assemble = .ok env.table) (hf : env.Faithful)
    (ht : env.table.DrawsAtBegins kind)
    (hmodes : ∀ id, (env.node id).className = some kind →
      ∃ o, Outlined ic o (env.node id) ∧ PlainMode o ∧ EndsAtOnce o)
    (htakes : ∀ {s m id}, ((nextMatch env).run s).1 = .ok (some m) → m.kind = .begins id →
      (env.node id).className = some kind → m.start < m.stop)
    {outcome : Except Halt Unit} {settings : Settings} {language code : String} {r : Result}
    (hrun : run env (.opened env.table none assembled) = (outcome,s))
    (hr : conclude env settings language code s outcome = .ok r) (hscope : scope ∈ locatedIn [] "" r.tree)
    (hkind : scope.kind = some kind) : ∃ n u m id, After env (.opened env.table none assembled) n u ∧
      ((nextMatch env).run u).1 = .ok (some m) ∧ m.kind = .begins id ∧ (env.node id).className = some kind ∧
      scope = scopeBetween env u.stack kind m.start m.stop := by
  rcases isDrawn_or_open hf ht hg hrun hr hscope hkind with
    ⟨m,e,f,below,n,u,hclass,hspans,rfl⟩ | ⟨m,f,below,n,u,hclass,hlives,hnone⟩
  · obtain ⟨k,v,hafter,hfound,hbegins,hbelow⟩ := hspans.lives.exists_begin
    obtain ⟨o,ho,hplain,honce⟩ := hmodes f.node hclass
    obtain ⟨-,hend,-⟩ := hspans.lives.closes_atOnce ho hplain honce (htakes hfound hbegins hclass)
    obtain rfl := Option.some.inj (Except.ok.inj (hspans.found.symm.trans hend))
    refine ⟨k,v,m,f.node,hafter,hfound,hbegins,hclass,?_⟩
    have hswitches : env.switches f.node = o.switches := ho.switches
    rw [hbelow,hswitches,hplain.switches,Switches.scopeStop,ite_self]
    rfl
  · obtain ⟨k,v,-,hfound,hbegins,-⟩ := hlives.exists_begin
    obtain ⟨o,ho,hplain,honce⟩ := hmodes f.node hclass
    rw [(hlives.closes_atOnce ho hplain honce (htakes hfound hbegins hclass)).2.2] at hnone
    cases hnone

end AtOnce

end Scan
end Highlight
