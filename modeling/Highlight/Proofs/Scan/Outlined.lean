import Highlight.Proofs.Assembly.Table
import Highlight.Proofs.Scan.Straight

/-!
Steps by nodes whose outlines are known. What the search finds and what flushing comes to settles the state
that a step leads to, when a mode opens and when modes close.
-/
namespace Highlight

namespace Assembly.Outline

/-- What closing a mode does to the tree. -/
def closeTree (o : Outline) (b : Tree.Builder) : Tree.Builder := if o.className.isSome then b.closeScope else b

/-- The relevance after closing a mode. -/
def score (o : Outline) (relevance : Nat) : Nat :=
  if !o.switches.skip && o.subLanguage.isNone then addRelevance relevance o.relevance else relevance

end Assembly.Outline

namespace Scan

open Rules Assembly
open Highlight.Tree (Builder)

variable {env : Env} {s s' s₀ : State} {m : RuleMatch} {id : NodeId} {o : Outline} {os : List Outline} {ic : Bool}
variable {spare spare' : Nat} {f : Builder → Builder} {g : Nat → Nat} {closed rest : List Frame} {frame : Frame}

/-- The step in which a mode opens, after the buffer is flushed by `f` and `g`. -/
structure Opens (env : Env) (o : Outline) (id : NodeId) (m : RuleMatch) (f : Builder → Builder) (g : Nat → Nat)
    (s s' : State) : Prop where
  stack : s'.stack = { node := id } :: s.stack
  tree : s'.tree = o.className.elim (f s.tree) (f s.tree).openScope
  relevance : s'.relevance = g s.relevance
  buffer : s'.buffer = env.lexeme m
  position : s'.position = m.stop
  last : s'.last = some m

/-- A scan takes the step in which a mode opens. -/
lemma ComesTo.opens (h : ComesTo env s₀ spare s)
    (hexec : (env.node s.top).rules.exec env.text s.position 0 = .ok (some m)) (hkind : m.kind = .begins id)
    (ho : Outlined ic o (env.node id)) (hguard : o.guarded = false) (hsw : PlainBegin o.switches)
    (hlen : s.stack.length ≤ maxOpenModes)
    (hflush : env.Flushes s.top (s.buffer ++ env.text.slice s.position m.start) f g)
    (hspare : spare' + 2 * s.position + 1 ≤ spare + 2 * m.stop) :
    ∃ s', ComesTo env s₀ spare' s' ∧ Opens env o id m f g s s' := by
  obtain ⟨hstart,-,-⟩ := RuleSet.exec_within hexec
  have hrules : (s.ruleSet env).exec env.text s.position s.firstRule = .ok (some m) := by
    rw [State.ruleSet,State.firstRule,h.1]
    exact hexec
  have hsw' : PlainBegin (env.switches id) := by
    rw [show env.switches id = o.switches from ho.switches]
    exact hsw
  have hstep : ∃ s', ComesTo env s₀ spare' s' ∧ _ := h.step hstart
    (fun number hrun => step_begins hrules hkind (ho.beginGuard_eq_none hguard) hsw' hlen hrun hflush)
    (fun s' hs' => by
      obtain ⟨resumeAt,rfl⟩ := hs'
      exact ⟨rfl,hspare⟩)
  obtain ⟨s',hcomes,resumeAt,rfl⟩ := hstep
  refine ⟨_,hcomes,rfl,?_,rfl,rfl,rfl,rfl⟩
  have hclass : (env.table.node id).className = o.className := ho.className
  simp only [openMode,hclass]
  cases o.className with
  | none => rfl
  | some className => rfl

/-- The step in which modes close, after the buffer is flushed by `f` and `g`. -/
structure Closes (env : Env) (o : Outline) (os : List Outline) (rest : List Frame) (m : RuleMatch)
    (f : Builder → Builder) (g : Nat → Nat) (s s' : State) : Prop where
  stack : s'.stack = rest
  tree : s'.tree = (o :: os).foldl (fun b o => o.closeTree b) (f s.tree)
  relevance : s'.relevance = (o :: os).foldl (fun n o => o.score n) (g s.relevance)
  buffer : s'.buffer = if o.switches.excludeEnd then env.lexeme m else ""
  position : s'.position = m.stop

lemma foldl_pop (h : List.Forall₂ (fun frame o => Outlined ic o (env.node frame.node)) closed os) (s : State) :
    closed.foldl (fun s f => s.pop env f) s = { s with
      stack := s.stack.drop closed.length
      tree := os.foldl (fun b o => o.closeTree b) s.tree
      relevance := os.foldl (fun n o => o.score n) s.relevance } := by
  induction h generalizing s with
  | nil => rfl
  | @cons frame o closed os ho _ ih =>
    rw [List.foldl_cons,ih,State.pop,ho.className,ho.switches,ho.subLanguage,ho.relevance]
    simp only [List.drop_tail,List.foldl_cons,List.length_cons]
    rfl

/-- A scan takes the step in which modes close. -/
lemma ComesTo.closes (h : ComesTo env s₀ spare s)
    (hexec : (env.node s.top).rules.exec env.text s.position 0 = .ok (some m)) (hkind : m.kind = .ends)
    (hstalls : stalls s.last m = false) (hstack : s.stack = frame :: closed ++ rest)
    (hclosing : closing env m.start s.stack = .ok (some (frame :: closed)))
    (ho : Outlined ic o (env.node frame.node))
    (hos : List.Forall₂ (fun frame o => Outlined ic o (env.node frame.node)) closed os)
    (hstarts : ∀ o' ∈ o :: os, o'.starts = none) (hskip : o.switches.skip = false)
    (hreturn : o.switches.returnEnd = false)
    (hflush : env.Flushes s.top (s.buffer ++ env.text.slice s.position m.start ++
      if o.switches.excludeEnd then "" else env.lexeme m) f g)
    (hspare : spare' + 2 * s.position + 1 ≤ spare + 2 * m.stop) :
    ∃ s', ComesTo env s₀ spare' s' ∧ Closes env o os rest m f g s s' := by
  obtain ⟨hstart,-,-⟩ := RuleSet.exec_within hexec
  have hrules : (s.ruleSet env).exec env.text s.position s.firstRule = .ok (some m) := by
    rw [State.ruleSet,State.firstRule,h.1]
    exact hexec
  have htop : s.top = frame.node := by rw [State.top,hstack]; rfl
  have hswitches : env.switches s.top = o.switches := htop ▸ ho.switches
  have hall : List.Forall₂ (fun frame o => Outlined ic o (env.node frame.node)) (frame :: closed) (o :: os) :=
    .cons ho hos
  obtain ⟨outermost,hlast⟩ : ∃ outermost, (frame :: closed).getLast? = some outermost :=
    ⟨_,List.getLast?_eq_some_getLast (List.cons_ne_nil _ _)⟩
  have houtermost : (env.node outermost.node).starts = none := by
    obtain ⟨o',ho',hof⟩ := forall₂_mem hall.flip (List.mem_of_getLast? hlast)
    rw [hof.starts,hstarts o' ho']
  rw [← hswitches] at hflush hskip hreturn
  have hstep : ∃ s', ComesTo env s₀ spare' s' ∧ _ := h.step hstart
    (fun number hrun => step_ends hrules hkind hstalls hclosing hlast houtermost hskip hreturn hrun hflush)
    (fun s' hs' => by
      obtain ⟨resumeAt,rfl⟩ := hs'
      rw [foldl_pop hall]
      exact ⟨rfl,hspare⟩)
  obtain ⟨s',hcomes,resumeAt,hs'⟩ := hstep
  rw [foldl_pop hall] at hs'
  subst hs'
  refine ⟨_,hcomes,?_,rfl,rfl,?_,rfl⟩
  · simp only [hstack,List.cons_append,List.length_cons,List.drop_succ_cons,List.drop_left]
  · simp only [hswitches]

end Scan
end Highlight
