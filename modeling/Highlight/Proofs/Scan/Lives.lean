import Highlight.Proofs.Scan.Cases

/-!
How long modes stay open. A mode is open until a match closes more modes than are open on top of it. The
scopes that are open in the tree are those of the open modes.
-/
namespace Highlight

open Highlight.Tree (Builder)

namespace Scan

open Rules Highlight.Scan.Action

variable {env : Env} {s s' s₀ u : State} {m e : RuleMatch} {f : Frame} {n number moved : Nat} {goesOn : Bool}
variable {inner below closed : List Frame} {around : List (String × List Tree)} {kind : String}

section Scopes

/-- The modes that a match closes, innermost first. -/
def closedBy (env : Env) (m : RuleMatch) (s : State) : List Frame :=
  match m.kind with
  | .ends =>
    if stalls s.last m then []
    else
      match closing env m.start s.stack with
      | .ok (some closed) => closed
      | _ => []
  | _ => []

/-- The modes that the next step closes. -/
def closedNext (env : Env) (s : State) : List Frame :=
  match ((nextMatch env).run s).1 with
  | .ok (some m) => closedBy env m s
  | _ => []

lemma closedBy_eq (hkind : m.kind = .ends) (hstalls : stalls s.last m = false)
    (hclosing : closing env m.start s.stack = .ok (some closed)) : closedBy env m s = closed := by
  rw [closedBy,hkind,hstalls,hclosing]
  rfl

lemma closedNext_eq (hfound : ((nextMatch env).run s).1 = .ok (some m)) : closedNext env s = closedBy env m s := by
  rw [closedNext,hfound]

lemma closedBy_prefix (env : Env) (m : RuleMatch) (s : State) : closedBy env m s <+: s.stack := by
  unfold closedBy
  split
  · split
    · exact List.nil_prefix
    · split
      · exact closing_innermost ‹_›
      · exact List.nil_prefix
  · exact List.nil_prefix

lemma closedNext_prefix (env : Env) (s : State) : closedNext env s <+: s.stack := by
  unfold closedNext
  split
  · exact closedBy_prefix env _ s
  · exact List.nil_prefix

lemma openMode_of_class (hclass : (env.node f.node).className = some kind) (tree : Builder) :
    openMode env.table f tree = tree.openScope kind := by
  have hclass : (env.table.node f.node).className = some kind := hclass
  rw [openMode,hclass]

lemma openMode_of_none (hclass : (env.node f.node).className = none) (tree : Builder) :
    openMode env.table f tree = tree := by
  have hclass : (env.table.node f.node).className = none := hclass
  rw [openMode,hclass]

/-- A state with some modes open inside others, and with their scopes inside those that were open. -/
structure Stands (env : Env) (inner below : List Frame) (around : List (String × List Tree)) (s : State) :
    Prop where
  stack : s.stack = inner ++ below
  enclosing : ∃ opened, s.tree.enclosing = opened ++ around ∧
    opened.map Prod.fst = inner.filterMap (fun f => (env.node f.node).className)

namespace Stands

lemma congr (h : Stands env inner below around s) (hstack : s'.stack = s.stack)
    (henclosing : s'.tree.enclosing = s.tree.enclosing) : Stands env inner below around s' :=
  ⟨hstack.trans h.stack,henclosing ▸ h.enclosing⟩

lemma push (h : Stands env inner below around s) (f : Frame) :
    Stands env (f :: inner) below around (s.push env f) := by
  refine ⟨by rw [State.push,h.stack,List.cons_append],?_⟩
  obtain ⟨opened,henclosing,hkinds⟩ := h.enclosing
  rw [State.push,List.filterMap_cons]
  dsimp only
  cases hclass : (env.node f.node).className with
  | none =>
    rw [openMode_of_none hclass]
    exact ⟨opened,henclosing,hkinds⟩
  | some kind =>
    rw [openMode_of_class hclass]
    exact ⟨(kind,s.tree.current) :: opened,congrArg (List.cons _) henclosing,by rw [List.map_cons,hkinds]⟩

lemma pop (h : Stands env (f :: inner) below around s) : Stands env inner below around (s.pop env f) := by
  refine ⟨by rw [State.pop,h.stack]; rfl,?_⟩
  obtain ⟨opened,henclosing,hkinds⟩ := h.enclosing
  rw [List.filterMap_cons] at hkinds
  rw [State.pop]
  dsimp only
  cases hclass : (env.node f.node).className with
  | none =>
    rw [hclass] at hkinds
    exact ⟨opened,henclosing,hkinds⟩
  | some kind =>
    rw [hclass] at hkinds
    obtain ⟨scope,opened,rfl,-,hkinds⟩ := List.map_eq_cons_iff.mp hkinds
    refine ⟨opened,?_,hkinds⟩
    rw [Option.isSome_some,if_pos rfl,Builder.closeScope,henclosing]
    rfl

lemma pops (h : Stands env (closed ++ inner) below around s) :
    Stands env inner below around (closed.foldl (fun s f => s.pop env f) s) := by
  induction closed generalizing s with
  | nil => exact h
  | cons f closed ih => exact ih h.pop

lemma close (h : Stands env (closed ++ inner) below around s) :
    ∃ inner', Stands env inner' below around (s.close env closed) := by
  rw [State.close]
  cases nextFrame? env closed with
  | none => exact ⟨inner,h.pops⟩
  | some next => exact ⟨next :: inner,h.pops.push next⟩

lemma exists_eq_append (h : Stands env inner below around s) (hclosed : closed <+: s.stack)
    (hlength : closed.length ≤ inner.length) : ∃ rest, inner = closed ++ rest := by
  rw [h.stack] at hclosed
  obtain ⟨rest,hrest⟩ := List.prefix_of_prefix_length_le hclosed (List.prefix_append inner below) hlength
  exact ⟨rest,hrest.symm⟩

end Stands

/-- A reaction that closes no other modes than those inside leaves those around them as they are. -/
lemma Reaction.stands (h : Reaction env m s moved s') (hs : Stands env inner below around s)
    (hclosed : (closedBy env m s).length ≤ inner.length) : ∃ inner', Stands env inner' below around s' := by
  cases h with
  | opens _ _ _ hput =>
    have hputs := (put_puts env _ _ _).ok hput
    exact ⟨_,(hs.congr hputs.keeps.stack hputs.enclosing).push _⟩
  | closes hkind hstalls hclosing hput =>
    rw [closedBy_eq hkind hstalls hclosing] at hclosed
    obtain ⟨rest,rfl⟩ := hs.exists_eq_append (closing_innermost hclosing) hclosed
    have hputs := (put_puts env _ _ _).ok hput
    exact (hs.congr hputs.keeps.stack hputs.enclosing).close
  | keeps | leaves | steps => exact ⟨inner,hs.congr rfl rfl⟩

lemma Stepped.stands (h : Stepped env number s goesOn s') (hs : Stands env inner below around s)
    (hclosed : (closedNext env s).length ≤ inner.length) : ∃ inner', Stands env inner' below around s' := by
  cases h with
  | finds hexec _ hreact =>
    rw [closedNext_eq (nextMatch_eq_ok_iff.mpr hexec)] at hclosed
    obtain ⟨inner',h'⟩ := hreact.stands (hs.congr rfl rfl) hclosed
    exact ⟨inner',h'.congr rfl rfl⟩
  | ends => exact ⟨inner,hs.congr rfl rfl⟩

end Scopes

section Runs

variable {c : Option Continuation} {assembled : List String}

lemma closedBy_length_le (ht : env.table.Closed) (hstack : s.stack = inner ++ [.top]) :
    (closedBy env m s).length ≤ inner.length := by
  unfold closedBy
  split
  · split
    · exact Nat.zero_le _
    · split
      · rename_i hclosing
        rw [hstack] at hclosing
        exact (closing_inner ht hclosing).length_le
      · exact Nat.zero_le _
  · exact Nat.zero_le _

lemma closedNext_length_le (ht : env.table.Closed) (hstack : s.stack = inner ++ [.top]) :
    (closedNext env s).length ≤ inner.length := by
  unfold closedNext
  split
  · exact closedBy_length_le ht hstack
  · exact Nat.zero_le _

lemma opened_stands (hc : ∀ c', c = some c' → c'.Resumable) :
    ∃ inner, Stands env inner [.top] [] (.opened env.table c assembled) := by
  obtain ⟨inner,hopened,-⟩ := exists_opened_inner env.table hc assembled
  rw [hopened]
  refine ⟨inner,rfl,?_⟩
  clear hopened
  induction inner with
  | nil => exact ⟨[],rfl,rfl⟩
  | cons f inner ih =>
    have hstands : Stands env inner [.top] []
        { stack := inner ++ [.top], tree := inner.foldr (openMode env.table) {}, assembled } := ⟨rfl,ih⟩
    exact (hstands.push f).enclosing

/-- The open scopes are those of the open modes that have a class. -/
lemma After.stands (ht : env.table.Closed) (hc : ∀ c', c = some c' → c'.Resumable)
    (h : After env (.opened env.table c assembled) n s) : ∃ inner, Stands env inner [.top] [] s := by
  induction h with
  | start => exact opened_stands hc
  | step _ hs ih =>
    obtain ⟨inner,hstands⟩ := ih
    exact ((step_cases env _ _).ok hs).stands hstands (closedNext_length_le ht hstands.stack)

/-- A mode that a begin match opened on top of others, with all that has been opened on top of it since. -/
inductive Lives (env : Env) (s₀ : State) (m : RuleMatch) (f : Frame) (below : List Frame) :
    Nat → State → Prop where
  | opened {n : Nat} {s s' : State} (h : After env s₀ n s)
      (hfound : ((nextMatch env).run s).1 = .ok (some m)) (hkind : m.kind = .begins f.node)
      (hstep : (step env (n + 1)).run s = (.ok true,s')) (hbelow : s.stack = below)
      (hstack : s'.stack = f :: below) : Lives env s₀ m f below (n + 1) s'
  /-- The mode stays open as long as no more modes are closed than are open on top of it. -/
  | stays {n : Nat} {s s' : State} (h : Lives env s₀ m f below n s)
      (hopen : below.length + (closedNext env s).length < s.stack.length)
      (hstep : (step env (n + 1)).run s = (.ok true,s')) : Lives env s₀ m f below (n + 1) s'

/-- A mode that one match opened and another one closes, found in a state. -/
structure Spans (env : Env) (s₀ : State) (m e : RuleMatch) (f : Frame) (below : List Frame) (n : Nat) (u : State) :
    Prop where
  lives : Lives env s₀ m f below n u
  found : ((nextMatch env).run u).1 = .ok (some e)
  closes : u.stack.length ≤ below.length + (closedNext env u).length
  step : ∃ goesOn u', (step env (n + 1)).run u = (.ok goesOn,u')

lemma Lives.after (h : Lives env s₀ m f below n u) : After env s₀ n u := by
  induction h with
  | opened h _ _ hstep => exact .step h hstep
  | stays _ _ hstep ih => exact .step ih hstep

/-- The step that opens a mode. -/
lemma Stepped.opens (h : Stepped env number s goesOn s') (hfound : ((nextMatch env).run s).1 = .ok (some m))
    (hkind : m.kind = .begins f.node) (hstack : s'.stack = f :: s.stack) : beginFrame env m f.node = f ∧ ∃ s₁,
      (put env (env.lexeme m) (env.switches f.node).beginPlace).run { s.atMatch env m with last := some m } =
        (.ok (),s₁) ∧
      s' = { s₁.push env f with
        position := m.start + if (env.switches f.node).returnBegin then 0 else m.stop - m.start } := by
  have hexec := nextMatch_eq_ok_iff.mp hfound
  cases h with
  | ends hnone => cases hexec.symm.trans hnone
  | @finds m' moved s₂ hexec' _ hreact =>
    obtain rfl := Option.some.inj (Except.ok.inj (hexec.symm.trans hexec'))
    cases hreact with
    | @opens id s₁ hkind' _ _ hput =>
      obtain rfl : f.node = id := RuleKind.begins.inj (hkind.symm.trans hkind')
      have hframe : beginFrame env m f.node = f := (List.cons.inj hstack).1
      exact ⟨hframe,s₁,hput,by rw [hframe]⟩
    | closes hkind' => cases hkind.symm.trans hkind'
    | keeps | leaves | steps => exact absurd hstack (List.cons_ne_self _ _).symm

lemma IsKept.closedBy_eq_nil (h : IsKept env m s moved) : closedBy env m s = [] := by
  cases h with
  | ignored hkind | aborted hkind | tolerated hkind => rw [closedBy,hkind]
  | unclosing hkind hstalls hclosing =>
    rw [closedBy,hkind,hstalls,hclosing]
    rfl

/-- The step that closes modes. -/
lemma Stepped.closes (h : Stepped env number s goesOn s') (hfound : ((nextMatch env).run s).1 = .ok (some e))
    (hcloses : closedNext env s ≠ []) : ∃ s₁ position,
      (put env (env.lexeme e) (env.switches s.top).endPlace).run { s.atMatch env e with last := some e } =
        (.ok (),s₁) ∧
      s' = { s₁.close env (closedNext env s) with position } := by
  have hexec := nextMatch_eq_ok_iff.mp hfound
  rw [closedNext_eq hfound] at hcloses ⊢
  cases h with
  | ends hnone => cases hexec.symm.trans hnone
  | @finds m' moved s₂ hexec' _ hreact =>
    obtain rfl := Option.some.inj (Except.ok.inj (hexec.symm.trans hexec'))
    cases hreact with
    | opens hkind | leaves hkind => exact absurd (by rw [closedBy,hkind]) hcloses
    | closes hkind hstalls hclosing hput =>
      have hclosed : closedBy env e s = _ := closedBy_eq hkind hstalls hclosing
      exact ⟨_,_,hput,by rw [hclosed]⟩
    | keeps h => exact absurd h.closedBy_eq_nil hcloses
    | steps hstalls =>
      have hstalls : stalls s.last e = true := hstalls
      refine absurd ?_ hcloses
      rw [closedBy,hstalls]
      split <;> rfl

lemma Spans.closes_some (h : Spans env s₀ m e f below n u) (hstands : Stands env inner (f :: below) around u) :
    inner.length < (closedNext env u).length := by
  have hcloses := h.closes
  rw [hstands.stack,List.length_append,List.length_cons] at hcloses
  omega

end Runs

end Scan
end Highlight
