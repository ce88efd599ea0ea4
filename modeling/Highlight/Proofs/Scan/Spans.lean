import Highlight.Proofs.RoundTrip
import Highlight.Proofs.Scan.Lives
import Highlight.Proofs.Tree.Scopes

/-!
The text in the scopes of modes. A scope starts at the match that begins its mode or behind it, as the mode
says. One match may end several modes. It is the innermost of them that says whether their scopes stop before
the match or behind it.
-/
namespace Highlight

open Highlight.Tree (Builder Located locatedIn)
open Highlight.Tree.Builder (kinds enclosingText)

namespace Switches

/-- A mode for which a begin or an end lies on one side of the bound that it marks. -/
structure OneSided (sw : Switches Bool) : Prop where
  skip : sw.skip = false
  begins : ¬ (sw.returnBegin = true ∧ sw.excludeBegin = true)
  ends : ¬ (sw.returnEnd = true ∧ sw.excludeEnd = true)

instance (sw : Switches Bool) : Decidable sw.OneSided :=
  decidable_of_iff (sw.skip = false ∧ ¬ (sw.returnBegin = true ∧ sw.excludeBegin = true) ∧
      ¬ (sw.returnEnd = true ∧ sw.excludeEnd = true))
    ⟨fun h => ⟨h.1,h.2.1,h.2.2⟩,fun h => ⟨h.skip,h.begins,h.ends⟩⟩

/-- Where the scope of a mode starts that a match begins. -/
def scopeStart (sw : Switches Bool) (m : Rules.RuleMatch) : Nat := if sw.excludeBegin then m.stop else m.start

/-- Where scopes stop if a match is found in a mode that ends it. -/
def scopeStop (sw : Switches Bool) (m : Rules.RuleMatch) : Nat :=
  if sw.excludeEnd || sw.returnEnd then m.start else m.stop

variable {sw : Switches Bool}

lemma OneSided.handsBackOnce (h : sw.OneSided) : sw.HandsBackOnce where
  begins hreturn hkept := hkept.elim (fun hexclude => h.begins ⟨hreturn,hexclude⟩)
    (fun hskip => Bool.false_ne_true (h.skip.symm.trans hskip))
  ends hreturn hkept := hkept.elim (fun hexclude => h.ends ⟨hreturn,hexclude⟩)
    (fun hskip => Bool.false_ne_true (h.skip.symm.trans hskip))

/-- Before a mode opens, all text before its scope is put into the tree. -/
lemma OneSided.flushed_beginPlace (h : sw.OneSided) (buffer lexeme : String) :
    sw.beginPlace.flushed buffer lexeme = buffer ++ if sw.excludeBegin then lexeme else "" := by
  rw [beginPlace,h.skip,if_neg Bool.false_ne_true]
  cases sw.excludeBegin with
  | true => rfl
  | false => cases sw.returnBegin <;> simp [Place.flushed]

/-- Before modes close, all text in their scopes is put into the tree. -/
lemma OneSided.flushed_endPlace (h : sw.OneSided) (buffer lexeme : String) :
    sw.endPlace.flushed buffer lexeme = buffer ++ if sw.excludeEnd || sw.returnEnd then "" else lexeme := by
  rw [endPlace,h.skip,if_neg Bool.false_ne_true]
  cases sw.excludeEnd <;> cases sw.returnEnd <;> simp [Place.flushed]

end Switches

/-- A table of modes whose begins and ends lie on one side of the bounds that they mark. -/
def NodeTable.OneSided (t : NodeTable) : Prop := ∀ node ∈ t.nodes, node.switches.OneSided

instance (t : NodeTable) : Decidable t.OneSided := inferInstanceAs (Decidable (∀ node ∈ t.nodes, _))

namespace NodeTable.OneSided

variable {t : NodeTable}

lemma node (h : t.OneSided) (id : NodeId) : (t.node id).switches.OneSided := by
  rw [NodeTable.node,Array.getD_eq_getD_getElem?]
  cases hn : t.nodes[id]? with
  | none => exact ⟨rfl,fun h => absurd h.1 Bool.false_ne_true,fun h => absurd h.1 Bool.false_ne_true⟩
  | some node => exact h node (Array.mem_of_getElem? hn)

lemma handsBackOnce (h : t.OneSided) : t.HandsBackOnce := fun node hnode => (h node hnode).handsBackOnce

end NodeTable.OneSided

namespace Scan

open Rules Highlight.Scan.Action

variable {env : Env} {s s' s₀ u : State} {m e : RuleMatch} {f : Frame} {n number moved : Nat} {goesOn : Bool}
variable {inner below closed : List Frame} {around : List (String × List Tree)} {kind : String}

section Bounds

lemma atMatch_taken_eq (hposition : s.position ≤ m.start) (htaken : s.taken = env.text.slice 0 s.position) :
    (s.atMatch env m).taken = env.text.slice 0 m.start := by
  rw [atMatch_taken,htaken,env.text.slice_append (Nat.zero_le _) hposition]

/-- The text in the tree when a mode opens. -/
lemma Puts.text_begin {sw : Switches Bool} (h : Puts env s (env.lexeme m) sw.beginPlace s') (hsw : sw.OneSided)
    (hf : env.Faithful) (hm : m.start ≤ m.stop) (htaken : s.taken = env.text.slice 0 m.start) :
    s'.tree.text = env.text.slice 0 (sw.scopeStart m) := by
  rw [h.text (hf.givesBack s),hsw.flushed_beginPlace,← String.append_assoc,← State.taken,htaken,
    Switches.scopeStart]
  split
  · exact env.text.slice_append (Nat.zero_le _) hm
  · exact String.append_empty

/-- The text in the tree when modes close. -/
lemma Puts.text_end {sw : Switches Bool} (h : Puts env s (env.lexeme m) sw.endPlace s') (hsw : sw.OneSided)
    (hf : env.Faithful) (hm : m.start ≤ m.stop) (htaken : s.taken = env.text.slice 0 m.start) :
    s'.tree.text = env.text.slice 0 (sw.scopeStop m) := by
  rw [h.text (hf.givesBack s),hsw.flushed_endPlace,← String.append_assoc,← State.taken,htaken,
    Switches.scopeStop]
  split
  · exact String.append_empty
  · exact env.text.slice_append (Nat.zero_le _) hm

end Bounds

section Runs

/-- The classes of the scopes around modes, from the outside in. -/
def scopesAround (env : Env) (stack : List Frame) : List (Option String) :=
  (stack.dropLast.filterMap (fun f => (env.node f.node).className)).reverse.map some

variable {c : Option Continuation} {assembled : List String}

lemma Stands.kinds_eq (h : Stands env inner [.top] [] s) : kinds s.tree.enclosing = scopesAround env s.stack := by
  obtain ⟨opened,henclosing,hkinds⟩ := h.enclosing
  rw [henclosing,List.append_nil,h.stack,scopesAround,List.dropLast_concat,← hkinds,kinds,
    ← List.map_reverse,← List.map_reverse,List.map_map]
  rfl

/-- For as long as a mode lives, its scope is open inside those of the modes around, with the text before it
in the tree. -/
lemma Lives.opens_scope (ht : env.table.Closed) (hsides : env.table.OneSided) (hf : env.Faithful)
    (hc : ∀ c', c = some c' → c'.Resumable) (h : Lives env (.opened env.table c assembled) m f below n u)
    (hclass : (env.node f.node).className = some kind) : ∃ before rest inner,
      Stands env inner (f :: below) ((kind,before) :: rest) u ∧ kinds rest = scopesAround env below ∧
      enclosingText ((kind,before) :: rest) = env.text.slice 0 ((env.switches f.node).scopeStart m) ∧
      (env.switches f.node).scopeStart m ≤ u.position := by
  induction h with
  | @opened n s s' h hfound hkind hstep hbelow hstack =>
    subst hbelow
    obtain ⟨-,s₁,hput,rfl⟩ := ((step_cases env _ s).ok hstep).opens hfound hkind hstack
    obtain ⟨hstart,hm,-⟩ := RuleSet.exec_within (nextMatch_eq_ok_iff.mp hfound)
    obtain ⟨inner,hstands⟩ := h.stands ht hc
    have hside : (env.switches f.node).OneSided := hsides.node f.node
    have hputs := (put_puts env _ _ _).ok hput
    have htaken := atMatch_taken_eq hstart (h.taken_opened hf hsides.handsBackOnce)
    refine ⟨s₁.tree.current,s₁.tree.enclosing,[],⟨?_,[],?_,rfl⟩,?_,hputs.text_begin hside hf hm htaken,?_⟩
    · exact congrArg (List.cons f) hputs.keeps.stack
    · rw [State.push,openMode_of_class hclass]
      rfl
    · rw [hputs.enclosing]
      exact hstands.kinds_eq
    · change _ ≤ m.start + _
      rw [Switches.scopeStart]
      split
      · have hreturn : (env.switches f.node).returnBegin = false :=
          Bool.eq_false_iff.mpr (fun hreturn => hside.begins ⟨hreturn,‹_›⟩)
        rw [hreturn,if_neg Bool.false_ne_true]
        omega
      · exact Nat.le_add_right _ _
  | @stays n s s' h hopen hstep ih =>
    obtain ⟨before,rest,inner,hstands,hkinds,htext,hposition⟩ := ih
    have hstepped := (step_cases env _ s).ok hstep
    have hclosed : (closedNext env s).length ≤ inner.length := by
      rw [hstands.stack,List.length_append,List.length_cons] at hopen
      omega
    obtain ⟨inner',hstands'⟩ := hstepped.stands hstands hclosed
    exact ⟨before,rest,inner',hstands',hkinds,htext,Nat.le_trans hposition hstepped.position_le⟩

end Runs

section Closed

variable {scope : Located} {c : Option Continuation} {assembled : List String}

/-- A scope that has closed stays in the tree. -/
lemma located_invariant (scope : Located) : Builder.Invariant (fun _ => True) (fun b => scope ∈ b.located) where
  addText {b} text h := by rwa [b.located_addText]
  addKeyword {b} text kind h := b.located_subset_addKeyword text kind h
  addEmbedded {b children} kind _ h := b.located_subset_addEmbedded children kind h
  openScope {b} kind _ h := by rwa [b.located_openScope]
  closeScope {b} h := b.located_subset_closeScope h

lemma located_pops (env : Env) (h : scope ∈ s.tree.located) (closed : List Frame) :
    scope ∈ (closed.foldl (fun s f => s.pop env f) s).tree.located :=
  (State.Bears.pops (R := fun _ => True) (located_invariant scope) ⟨h,fun _ _ => trivial⟩ closed).tree

lemma located_push (f : Frame) : (s.push env f).tree.located = s.tree.located := by
  rw [State.push,openMode]
  dsimp only
  split
  · exact s.tree.located_openScope _
  · rfl

lemma text_pops (env : Env) (closed : List Frame) :
    (closed.foldl (fun s f => s.pop env f) s).tree.text = s.tree.text := by
  induction closed generalizing s with
  | nil => rfl
  | cons f closed ih =>
    rw [List.foldl_cons,ih,State.pop]
    dsimp only
    split
    · exact s.tree.text_closeScope
    · rfl

/-- Once the modes on top of a mode are closed, its scope is the innermost open one. -/
lemma Stands.enclosing_pops {before : List Tree} {rest : List (String × List Tree)}
    (h : Stands env inner (f :: below) ((kind,before) :: rest) s) :
    (inner.foldl (fun s f => s.pop env f) s).tree.enclosing = (kind,before) :: rest := by
  have hstands : Stands env (inner ++ []) (f :: below) ((kind,before) :: rest) s := by rwa [List.append_nil]
  obtain ⟨opened,henclosing,hopened⟩ := hstands.pops.enclosing
  obtain rfl := List.map_eq_nil_iff.mp hopened
  exact henclosing

/-- When a mode and those on top of it close, its scope takes in the text that is left in it. -/
lemma Stands.close_scope {before : List Tree} {rest : List (String × List Tree)}
    (h : Stands env inner (f :: below) ((kind,before) :: rest) s)
    (hclass : (env.node f.node).className = some kind) (hclosed : closed <+: s.stack)
    (hlength : inner.length < closed.length) :
    ⟨kinds rest,enclosingText ((kind,before) :: rest),some kind,
      (inner.foldl (fun s f => s.pop env f) s).tree.ownText⟩ ∈ (s.close env closed).tree.located := by
  obtain ⟨outer,rfl⟩ : ∃ outer, closed = inner ++ f :: outer := by
    have hinner : inner ++ [f] <+: s.stack := ⟨below,by rw [h.stack,List.append_assoc]; rfl⟩
    obtain ⟨outer,rfl⟩ := List.prefix_of_prefix_length_le hinner hclosed (by rwa [List.length_append])
    exact ⟨outer,by rw [List.append_assoc]; rfl⟩
  have henclosing := h.enclosing_pops
  rw [State.close,List.foldl_append,List.foldl_cons]
  -- the modes on top are closed, and now the mode itself is
  generalize inner.foldl (fun s f => s.pop env f) s = s₁ at henclosing
  have hclose : (s₁.pop env f).tree = s₁.tree.closeScope := by
    rw [State.pop,hclass]
    rfl
  have hscope : ⟨kinds rest,enclosingText ((kind,before) :: rest),some kind,s₁.tree.ownText⟩ ∈
      (s₁.pop env f).tree.located := by
    rw [hclose,Builder.located_closeScope henclosing,henclosing]
    exact List.mem_append_right _ List.mem_cons_self
  have hpops := located_pops env hscope outer
  cases nextFrame? env (inner ++ f :: outer) with
  | none => exact hpops
  | some next =>
    rw [Option.elim_some,located_push]
    exact hpops

/-- The scope of a class that holds the text between two positions, inside the scopes of given modes. -/
def scopeBetween (env : Env) (below : List Frame) (kind : String) (start stop : Nat) : Located where
  around := scopesAround env below
  before := env.text.slice 0 start
  kind := some kind
  text := env.text.slice start stop

/-- When a match ends a mode, what is left in the scope of the mode is what lies between the bounds. -/
lemma Spans.scope_eq (ht : env.table.Closed) (hsides : env.table.OneSided) (hf : env.Faithful)
    (hc : ∀ c', c = some c' → c'.Resumable) (h : Spans env (.opened env.table c assembled) m e f below n u)
    (hclass : (env.node f.node).className = some kind)
    (hput : (put env (env.lexeme e) (env.switches u.top).endPlace).run { u.atMatch env e with last := some e } =
      (.ok (),s)) :
    (env.switches f.node).scopeStart m ≤ (env.switches u.top).scopeStop e ∧
      (env.switches u.top).scopeStop e ≤ env.text.size ∧
      ∃ before rest inner, Stands env inner (f :: below) ((kind,before) :: rest) u ∧
        Stands env inner (f :: below) ((kind,before) :: rest) s ∧
        ⟨kinds rest,enclosingText ((kind,before) :: rest),some kind,
            (inner.foldl (fun s f => s.pop env f) s).tree.ownText⟩ =
          scopeBetween env below kind ((env.switches f.node).scopeStart m) ((env.switches u.top).scopeStop e) := by
  obtain ⟨before,rest,inner,hstands,hkinds,hbefore,hposition⟩ := h.lives.opens_scope ht hsides hf hc hclass
  obtain ⟨hstart,he,hsize⟩ := RuleSet.exec_within (nextMatch_eq_ok_iff.mp h.found)
  have hstop : e.start ≤ (env.switches u.top).scopeStop e ∧ (env.switches u.top).scopeStop e ≤ e.stop := by
    rw [Switches.scopeStop]
    split
    · exact ⟨Nat.le_refl _,he⟩
    · exact ⟨he,Nat.le_refl _⟩
  have hle : (env.switches f.node).scopeStart m ≤ (env.switches u.top).scopeStop e :=
    Nat.le_trans hposition (Nat.le_trans hstart hstop.1)
  refine ⟨hle,Nat.le_trans hstop.2 hsize,before,rest,inner,hstands,?_⟩
  have hputs := (put_puts env _ _ _).ok hput
  have htaken := atMatch_taken_eq hstart (h.lives.after.taken_opened hf hsides.handsBackOnce)
  have htext := hputs.text_end (hsides.node u.top) hf he htaken
  have hstands' := hstands.congr hputs.keeps.stack hputs.enclosing
  refine ⟨hstands',?_⟩
  -- closing the modes on top puts no text into the tree
  rw [← text_pops env inner,Builder.text,hstands'.enclosing_pops,hbefore,
    ← env.text.slice_append (Nat.zero_le _) hle,String.append_right_inj] at htext
  rw [scopeBetween,hkinds,hbefore,← htext]
  rfl

/-- The scope of a mode is there once the mode is closed. -/
lemma Spans.closes_scope (ht : env.table.Closed) (hsides : env.table.OneSided) (hf : env.Faithful)
    (hc : ∀ c', c = some c' → c'.Resumable) (h : Spans env (.opened env.table c assembled) m e f below n u)
    (hclass : (env.node f.node).className = some kind)
    (hstep : (Scan.step env (n + 1)).run u = (.ok goesOn,s')) :
    (env.switches f.node).scopeStart m ≤ (env.switches u.top).scopeStop e ∧
      (env.switches u.top).scopeStop e ≤ env.text.size ∧
      scopeBetween env below kind ((env.switches f.node).scopeStart m) ((env.switches u.top).scopeStop e) ∈
        s'.tree.located := by
  have hne : closedNext env u ≠ [] := by
    obtain ⟨before,rest,inner,hstands,-⟩ := h.lives.opens_scope ht hsides hf hc hclass
    exact List.ne_nil_of_length_pos (Nat.zero_lt_of_lt (h.closes_some hstands))
  obtain ⟨s₁,position,hput,rfl⟩ := ((step_cases env _ u).ok hstep).closes h.found hne
  obtain ⟨hle,hsize,before,rest,inner,hstands,hstands₁,hscope⟩ := h.scope_eq ht hsides hf hc hclass hput
  refine ⟨hle,hsize,?_⟩
  have hprefix : closedNext env u <+: s₁.stack := by
    rw [((put_puts env _ _ _).ok hput).keeps.stack]
    exact closedNext_prefix env u
  rw [← hscope]
  exact hstands₁.close_scope hclass hprefix (h.closes_some hstands)

/-- A mode that a begin match opens and an end match closes, its own or that of another mode that it closes
with, has a scope in the tree of the scan, inside those of the modes around it. The scope holds the text from
the begin match on, or from behind it if the mode excludes it, to the end match: to behind it, or to its start
if the innermost open mode excludes it or hands it back. -/
theorem scope_of_spans {g : Grammar} (hg : g.assemble = .ok env.table) (hsides : env.table.OneSided)
    (hf : env.Faithful) (hc : ∀ c', c = some c' → Attained c')
    (h : Spans env (.opened env.table c assembled) m e f below n u)
    (hclass : (env.node f.node).className = some kind) :
    let start := (env.switches f.node).scopeStart m
    let stop := (env.switches u.top).scopeStop e
    start ≤ stop ∧ stop ≤ env.text.size ∧
      scopeBetween env below kind start stop ∈
        locatedIn [] "" (run env (.opened env.table c assembled)).2.tree.finish ∧
      ∀ settings language code r keys, (highlight env settings language code c).run assembled = (.ok r,keys) →
        r.fault = none → scopeBetween env below kind start stop ∈ locatedIn [] "" r.tree := by
  intro start stop
  have ht := Grammar.assemble_closed hg
  have hc : ∀ c', c = some c' → c'.Resumable := fun c' hc' => (hc c' hc').resumable
  obtain ⟨goesOn,u',hstep⟩ := h.step
  obtain ⟨hle,hsize,hscope⟩ := h.closes_scope ht hsides hf hc hclass hstep
  have hrun : scopeBetween env below kind start stop ∈
      locatedIn [] "" (run env (.opened env.table c assembled)).2.tree.finish := by
    have hbears := h.lives.after.run_bears (R := fun _ => True) (located_invariant _) ht env.bears_trivial
      (opened_wellStacked hc) (opened_in_text env c assembled) hstep ⟨hscope,fun _ _ => trivial⟩
    exact Builder.located_subset_finish _ hbears.tree
  refine ⟨hle,hsize,hrun,fun settings language code r keys hhighlight hfault => ?_⟩
  obtain ⟨outcome,s,hs,hr⟩ := exists_run_of_highlight hhighlight
  rw [hs] at hrun
  match outcome with
  | .ok () | .error (.illegal lexeme) =>
    cases hr
    exact hrun
  | .error (.fault fault) =>
    simp only [conclude] at hr
    split at hr
    · cases hr
      cases hfault
    · cases hr
  | .error (.error error) => cases hr

end Closed

section Found

variable {more : Nat}

/-- A mode that the first step opens lives for as long as no step comes to where it closes. -/
lemma lives_of_after (hfound : ((nextMatch env).run s₀).1 = .ok (some m)) (hkind : m.kind = .begins f.node)
    (hbelow : s₀.stack = below) (hopens : ∀ s, After env s₀ 1 s → s.stack = f :: below)
    (hstays : ∀ k < more, ∀ s, After env s₀ (k + 1) s →
      below.length + (closedNext env s).length < s.stack.length)
    (h : After env s₀ (more + 1) u) : Lives env s₀ m f below (more + 1) u := by
  induction more generalizing u with
  | zero =>
    have hstack := hopens u h
    cases h with
    | step h hstep =>
      cases h
      exact .opened .start hfound hkind hstep hbelow hstack
  | succ more ih =>
    cases h with
    | step h hstep =>
      have hlives := ih (fun k hk => hstays k (Nat.lt_succ_of_lt hk)) h
      exact .stays hlives (hstays more (Nat.lt_succ_self more) _ h) hstep

/-- A mode with a class that opens and closes, and a tree without a scope of that class that starts and stops
where the mode itself says. -/
structure Astray (env : Env) (kind : String) (m e : RuleMatch) (f : Frame) (n : Nat) (u : State) : Prop where
  oneSided : env.table.OneSided
  spans : Spans env (.opened env.table none []) m e f [.top] n u
  className : (env.node f.node).className = some kind
  subLanguage : (env.node f.node).subLanguage = none
  astray : ∀ scope ∈ locatedIn [] "" (run env (.opened env.table none [])).2.tree.finish, scope.kind = some kind →
    scope.text ≠ env.text.slice ((env.switches f.node).scopeStart m) ((env.switches f.node).scopeStop e)

/-- Whether the step after so many more finds the end of a mode that the first step opens, and the mode is
astray. -/
def isAstray (host : NodeTable → Env) (kind : String) (m e : RuleMatch) (f : Frame) (more : Nat)
    (table : NodeTable) (u : State) : Bool :=
  let env := host table
  let s₀ := State.opened table none []
  let node := table.node f.node
  decide (((nextMatch env).run s₀).1.toOption = some (some m) ∧ m.kind = .begins f.node ∧ s₀.stack = [.top] ∧
      (stateAfter? env s₀ 1).all (·.stack = [f,.top]) = true ∧
      (∀ k < more, (stateAfter? env s₀ (k + 1)).all
        (fun s => 1 + (closedNext env s).length < s.stack.length) = true) ∧
      ((nextMatch env).run u).1.toOption = some (some e) ∧ u.stack.length ≤ 1 + (closedNext env u).length ∧
      ((step env (more + 2)).run u).1.toOption.isSome = true) &&
    decide (table.OneSided ∧ node.className = some kind ∧ node.subLanguage = none ∧
      ∀ scope ∈ locatedIn [] "" (run env s₀).2.tree.finish, scope.kind = some kind →
        scope.text ≠ env.text.slice (node.switches.scopeStart m) (node.switches.scopeStop e))

lemma exists_astray {g : Grammar} {host : NodeTable → Env} (hhost : ∀ t, (host t).table = t)
    (h : shows g host (more + 1) (isAstray host kind m e f more) = true) :
    ∃ table u, g.assemble = .ok table ∧ Astray (host table) kind m e f (more + 1) u := by
  obtain ⟨table,u,htable,hu,h⟩ := exists_of_shows h
  obtain ⟨hspans,h⟩ := Bool.and_eq_true_iff.mp h
  obtain ⟨hfound,hkind,hbelow,hopens,hstays,hnext,hcloses,hstep⟩ := of_decide_eq_true hspans
  obtain ⟨hsides,hclass,hsub,hastray⟩ := of_decide_eq_true h
  have hlives := lives_of_after (except_eq_ok_of_toOption hfound) hkind hbelow
    (fun s hs => of_decide_eq_true (hs.of_all hopens)) (fun k hk s hs => of_decide_eq_true (hs.of_all (hstays k hk))) hu
  obtain ⟨goesOn,hgoes⟩ := Option.isSome_iff_exists.mp hstep
  refine ⟨table,u,htable,?_⟩
  exact {
    oneSided := by rw [hhost]; exact hsides
    spans := by
      rw [hhost]
      exact ⟨hlives,except_eq_ok_of_toOption hnext,hcloses,goesOn,_,Prod.ext (except_eq_ok_of_toOption hgoes) rfl⟩
    className := by rw [Env.node,hhost]; exact hclass
    subLanguage := by rw [Env.node,hhost]; exact hsub
    astray := by rw [Env.switches,Env.node,hhost]; exact hastray }

/-- A grammar of text in brackets. Those around end what is inside, and leave their end to the text after
them. -/
def bracketing : Grammar where
  name := "bracketing"
  root := { contains := some [.mode 1] }
  modes := #[
    { beginPattern := some "\\(", switches := { Switches.unset with endsWithParent := some true } },
    { className := some "outer", beginPattern := some "<", endPattern := some ">", contains := some [.mode 0]
      switches := { Switches.unset with excludeEnd := some true } }]

lemma exists_astray_bracketing : ∃ table u, bracketing.assemble = .ok table ∧
    Astray (.alone table "<(a>") "outer" ⟨0,1,.begins 1,0⟩ ⟨3,4,.ends,0⟩ { node := 1 } 2 u := by
  have hastray : shows bracketing (Env.alone · "<(a>") 2 (isAstray (Env.alone · "<(a>") "outer"
      ⟨0,1,.begins 1,0⟩ ⟨3,4,.ends,0⟩ { node := 1 } 1) = true := by
    decide +kernel
  exact exists_astray (fun _ => rfl) hastray

theorem scope_of_spans_bracketing : ∃ (env : Env) (m e : RuleMatch) (f : Frame) (u : State),
    bracketing.assemble = .ok env.table ∧ env.table.OneSided ∧ env.Faithful ∧
      Spans env (.opened env.table none []) m e f [.top] 2 u ∧ (env.node f.node).className = some "outer" ∧
      scopeBetween env [.top] "outer" ((env.switches f.node).scopeStart m) ((env.switches u.top).scopeStop e) ∈
        locatedIn [] "" (run env (.opened env.table none [])).2.tree.finish := by
  obtain ⟨table,u,hg,h⟩ := exists_astray_bracketing
  have hf : (Env.alone table "<(a>").Faithful := faithful_alone table "<(a>"
  exact ⟨_,_,_,_,u,hg,h.oneSided,hf,h.spans,h.className,
    (scope_of_spans hg h.oneSided hf (fun _ hc => by cases hc) h.spans h.className).2.2.1⟩

/-- A grammar of text that is repeated. -/
def repeating : Grammar where
  name := "repeating"
  root := { contains := some [.mode 0] }
  modes := #[{
    beginPattern := some "a", endPattern := some "a"
    switches := { Switches.unset with excludeBegin := some true, returnBegin := some true } }]

/-- A grammar of text in brackets that another grammar repeats. -/
def resounding : Grammar where
  name := "resounding"
  root := { contains := some [.mode 1] }
  modes := #[
    { beginPattern := some "a", endPattern := some "(?=>)", subLanguage := some (.named "repeating") },
    { className := some "outer", beginPattern := some "<", endPattern := some ">", contains := some [.mode 0] }]

/-- A mode closes where the innermost mode says, and not where it says itself. Besides, the text in it is not
what was scanned if an embedded grammar changes it. -/
theorem exists_scope_astray :
    (∃ (env : Env) (m e : RuleMatch) (f : Frame) (u : State), bracketing.assemble = .ok env.table ∧
      env.text = .ofString "<(a>" ∧ env.Faithful ∧ Astray env "outer" m e f 2 u) ∧
    ∃ (h : Highlighter) (env : Env) (m e : RuleMatch) (f : Frame) (u : State),
      resounding.assemble = .ok env.table ∧ env.text = .ofString "<a>" ∧
        env.embed = h.embedBy (h.highlightWithin 1) ∧ Astray env "outer" m e f 3 u := by
  constructor
  · obtain ⟨table,u,hg,h⟩ := exists_astray_bracketing
    exact ⟨_,_,_,_,u,hg,rfl,faithful_alone table "<(a>",h⟩
  · let h : Highlighter := {
      registry := Registry.insert (Registry.insert {} "resounding" resounding) "repeating" repeating }
    let q : Request := { name := "resounding", code := "<a>" }
    let host (table : NodeTable) : Env := h.envFor (h.highlightWithin 1) table q
    have hastray : shows resounding host 3 (isAstray host "outer" ⟨0,1,.begins 1,0⟩ ⟨2,3,.ends,1⟩
        { node := 1 } 2) = true := by
      decide +kernel
    obtain ⟨table,u,hg,hastray⟩ := exists_astray (fun _ => rfl) hastray
    exact ⟨h,_,_,_,_,u,hg,rfl,rfl,hastray⟩

end Found

end Scan
end Highlight
