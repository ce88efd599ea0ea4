import Highlight.Proofs.Scan.Lives

/-!
Modes that end as they began. The lexeme that opens such a mode is kept with it, also in continuations, and the
mode's own end closes it where the text goes on with that lexeme. But it is the begin pattern that finds the
end match: this match starts there, and may stop before the lexeme does or go on behind it.
-/
namespace Highlight.Scan

open Rules Highlight.Scan.Action

variable {env : Env} {s s' s₀ u : State} {m e : RuleMatch} {f : Frame} {n : Nat} {lexeme : String}
variable {inner below : List Frame}

section Holds

/-- A mode that ends as it began and that a begin match with this lexeme opened on top of others. It is in its
place in the states of that scan, and of those that go on from where it stops. -/
inductive Holds (lexeme : String) (f : Frame) (below : List Frame) : Env → State → Nat → State → Prop where
  | opened {env : Env} {s₀ s s' : State} {n : Nat} {m : RuleMatch} (h : After env s₀ n s)
      (hfound : ((nextMatch env).run s).1 = .ok (some m)) (hkind : m.kind = .begins f.node)
      (hlexeme : env.lexeme m = lexeme) (hsame : (env.switches f.node).endSameAsBegin = true)
      (hstep : (step env (n + 1)).run s = (.ok true,s')) (hbelow : s.stack = below)
      (hstack : s'.stack = f :: below) : Holds lexeme f below env s₀ (n + 1) s'
  | stays {env : Env} {s₀ s s' : State} {n : Nat} (h : Holds lexeme f below env s₀ n s)
      (hstep : (step env (n + 1)).run s = (.ok true,s')) (hstack : f :: below <:+ s'.stack) :
      Holds lexeme f below env s₀ (n + 1) s'
  /-- Another scan goes on from a continuation that the end of a scan leaves. -/
  | resumed {env env' : Env} {s₀ s s' : State} {n : Nat} {outcome : Except Halt Unit} {c : Continuation}
      (assembled : List String) (h : Holds lexeme f below env s₀ n s) (hends : EndsAfter env s₀ n (outcome,s'))
      (hstack : f :: below <:+ s'.stack) (hframes : c.frames = s'.stack) (hfits : c.fits env'.table.size = true) :
      Holds lexeme f below env' (.opened env'.table (some c) assembled) 0 (.opened env'.table (some c) assembled)

namespace Holds

lemma after (h : Holds lexeme f below env s₀ n u) : After env s₀ n u := by
  induction h with
  | opened h _ _ _ _ hstep => exact .step h hstep
  | stays _ hstep _ ih => exact .step ih hstep
  | resumed => exact .start

lemma stack (h : Holds lexeme f below env s₀ n u) : f :: below <:+ u.stack := by
  cases h with
  | opened _ _ _ _ _ _ _ hstack => exact hstack ▸ List.suffix_refl _
  | stays _ _ hstack => exact hstack
  | resumed assembled h hends hstack hframes hfits =>
    rw [State.opened,if_pos hfits,hframes]
    exact hstack

/-- The lexeme is what is to end the mode, wherever the mode goes. -/
lemma delimiter (h : Holds lexeme f below env s₀ n u) : f.delimiter = some lexeme := by
  induction h with
  | @opened env s₀ s s' n m h hfound hkind hlexeme hsame hstep hbelow hstack =>
    subst hbelow
    have hframe := (((step_cases env _ s).ok hstep).opens hfound hkind hstack).1
    rw [← hframe,beginFrame,if_pos hsame,hlexeme]
  | stays _ _ _ ih => exact ih
  | resumed _ _ _ _ _ _ ih => exact ih

end Holds

end Holds

section Ends

/-- A match that closes a mode by the mode's own end: the modes on top of it leave the end to it. -/
structure ClosesByOwnEnd (env : Env) (u : State) (e : RuleMatch) (inner : List Frame) (f : Frame)
    (below : List Frame) : Prop where
  found : ((nextMatch env).run u).1 = .ok (some e)
  kind : e.kind = .ends
  stalls : stalls u.last e = false
  stack : u.stack = inner ++ f :: below
  leaves : ∀ g ∈ inner, endsAt env g e.start = .ok false ∧ (env.switches g.node).endsWithParent = true
  own : endsAt env f e.start = .ok true

lemma closing_of_leaves {position : Nat} (hleaves : ∀ g ∈ inner, endsAt env g position = .ok false ∧
      (env.switches g.node).endsWithParent = true) (hown : endsAt env f position = .ok true) :
    closing env position (inner ++ f :: below) = .ok (some (inner ++ widen env f below)) := by
  induction inner with
  | nil =>
    rw [List.nil_append,closing,hown]
    rfl
  | cons g inner ih =>
    obtain ⟨hends,hwith⟩ := hleaves g List.mem_cons_self
    rw [List.cons_append,closing,hends,ih (fun g' hg' => hleaves g' (List.mem_cons_of_mem g hg'))]
    exact if_pos hwith

lemma ClosesByOwnEnd.closes (h : ClosesByOwnEnd env u e inner f below) :
    closedNext env u = inner ++ widen env f below := by
  rw [closedNext_eq h.found]
  exact closedBy_eq h.kind h.stalls (h.stack ▸ closing_of_leaves h.leaves h.own)

lemma isPrefix_slice (text : Source) (start : Nat) {stop stop' : Nat} (h : start ≤ stop) (h' : stop ≤ stop') :
    (text.slice start stop).toList <+: (text.slice start stop').toList := by
  rw [← text.slice_append h h',String.toList_append]
  exact List.prefix_append _ _

/-- A mode that ends as it began is closed by its own end where the text goes on with the lexeme that opened it.
The end match starts there, so that its lexeme and that one are the same up to where the shorter one ends: they
are equal exactly if they are equally long. -/
theorem own_end_lexeme (h : Holds lexeme f below env s₀ n u) (he : ClosesByOwnEnd env u e inner f below) :
    closedNext env u = inner ++ widen env f below ∧
      env.text.slice e.start (e.start + lexeme.length) = lexeme ∧
      ((env.lexeme e).toList <+: lexeme.toList ∨ lexeme.toList <+: (env.lexeme e).toList) ∧
      (env.lexeme e = lexeme ↔ e.stop = e.start + lexeme.length) := by
  obtain ⟨-,hle,hsize⟩ := RuleSet.exec_within (nextMatch_eq_ok_iff.mp he.found)
  have hgoes : env.text.slice e.start (e.start + lexeme.length) = lexeme := by
    have hown := he.own
    rw [endsAt,h.delimiter] at hown
    exact eq_of_beq (Except.ok.inj hown)
  refine ⟨he.closes,hgoes,?_,fun heq => ?_,fun hstop => ?_⟩
  · rw [← hgoes,Env.lexeme,RuleMatch.lexeme]
    rcases Nat.le_total e.stop (e.start + lexeme.length) with hshort | hlong
    · exact .inl (isPrefix_slice env.text e.start hle hshort)
    · exact .inr (isPrefix_slice env.text e.start (Nat.le_add_right _ _) hlong)
  · have hlength : (env.lexeme e).length = e.stop - e.start := by
      rw [Env.lexeme,RuleMatch.lexeme,Source.length_slice,Nat.min_eq_left hsize]
    rw [heq] at hlength
    omega
  · rw [Env.lexeme,RuleMatch.lexeme,hstop,hgoes]

end Ends

section Runs

/-- A grammar of words that end as they began, at a word that is the same or longer. -/
def heredoc : Grammar where
  name := "heredoc"
  root := { contains := some [.mode 0] }
  modes := #[{
    className := some "string", beginPattern := some "[A-Z]+"
    switches := { Switches.unset with endSameAsBegin := some true } }]

/-- The frame of a word that began so. -/
def heredocFrame (word : String) : Frame := { node := 1, delimiter := some word }

/-- Whether a match is found in a state that would close the innermost mode by its own end. -/
def closesWord (env : Env) (u : State) (word : String) (e : RuleMatch) : Bool :=
  decide (((nextMatch env).run u).1.toOption = some (some e) ∧ e.kind = .ends ∧ stalls u.last e = false ∧
    u.stack = [heredocFrame word,.top] ∧ (endsAt env (heredocFrame word) e.start).toOption = some true)

lemma closesByOwnEnd_of_closesWord {word : String} (h : closesWord env u word e = true) :
    ClosesByOwnEnd env u e [] (heredocFrame word) [.top] := by
  obtain ⟨hfound,hkind,hstalls,hstack,hown⟩ := of_decide_eq_true h
  exact ⟨except_eq_ok_of_toOption hfound,hkind,hstalls,hstack,nofun,except_eq_ok_of_toOption hown⟩

/-- The first step of a scan opens a word of three letters. -/
lemma exists_holds_heredoc (code word : String) (test : NodeTable → State → Bool)
    (h : sights heredoc code 0 ⟨0,3,.begins 1,0⟩ (fun table s goesOn s' =>
      let env := Env.alone table code
      decide (goesOn = true ∧ env.lexeme ⟨0,3,.begins 1,0⟩ = word ∧ (env.switches 1).endSameAsBegin = true ∧
        s.stack = [.top] ∧ s'.stack = [heredocFrame word,.top]) && test table s') = true) :
    ∃ table s, heredoc.assemble = .ok table ∧
      Holds word (heredocFrame word) [.top] (.alone table code) (.opened table none []) 1 s ∧
        test table s = true := by
  obtain ⟨table,s,goesOn,s',hs,h⟩ := exists_sights h
  obtain ⟨h,htest⟩ := Bool.and_eq_true_iff.mp h
  obtain ⟨rfl,hword,hsame,hbelow,hstack⟩ := of_decide_eq_true h
  exact ⟨table,s',hs.assembled,.opened hs.after hs.next rfl hword hsame hs.step hbelow hstack,htest⟩

/-- A word that is open at the end of a text is closed by a longer one in the text that goes on from there. -/
theorem own_end_lexeme_heredoc : ∃ (env : Env) (s₀ : State) (e : RuleMatch),
    heredoc.assemble = .ok env.table ∧ env.text = .ofString " EOFX b" ∧
      Holds "EOF" (heredocFrame "EOF") [.top] env s₀ 0 s₀ ∧
      ClosesByOwnEnd env s₀ e [] (heredocFrame "EOF") [.top] ∧
      env.text.slice e.start (e.start + "EOF".length) = "EOF" ∧
      (env.lexeme e = "EOF" ↔ e.stop = e.start + "EOF".length) := by
  let c : Continuation := { frames := [heredocFrame "EOF",.top] }
  let last (table : NodeTable) (s : State) := (step (.alone table "EOF a") 2).run s
  obtain ⟨table,s,htable,hholds,h⟩ := exists_holds_heredoc "EOF a" "EOF"
    (fun table s => decide ((last table s).1.toOption = some false ∧
        ((finish (.alone table "EOF a")).run (last table s).2).2.stack = c.frames ∧ c.fits table.size = true) &&
      closesWord (.alone table " EOFX b") (.opened table (some c) []) "EOF" ⟨1,5,.ends,0⟩)
    (by decide +kernel)
  obtain ⟨h,hcloses⟩ := Bool.and_eq_true_iff.mp h
  obtain ⟨hdone,hstack,hfits⟩ := of_decide_eq_true h
  have hends : EndsAfter (.alone table "EOF a") (.opened table none []) 1
      ((finish (.alone table "EOF a")).run (last table s).2) :=
    .finished hholds.after (Prod.ext (except_eq_ok_of_toOption hdone) rfl)
  have hholds' : Holds "EOF" (heredocFrame "EOF") [.top] (.alone table " EOFX b")
      (.opened table (some c) []) 0 (.opened table (some c) []) :=
    .resumed [] hholds hends (hstack ▸ List.suffix_refl _) hstack.symm hfits
  have hown := closesByOwnEnd_of_closesWord hcloses
  obtain ⟨-,hgoes,-,hlexeme⟩ := own_end_lexeme hholds' hown
  exact ⟨_,_,_,htable,rfl,hholds',hown,hgoes,hlexeme⟩

/-- A word closes where it stands at the beginning of a longer one. -/
theorem exists_end_unlike_begin : ∃ (env : Env) (s : State) (e : RuleMatch),
    heredoc.assemble = .ok env.table ∧ env.text = .ofString "EOF a EOFX b EOF" ∧
      Holds "EOF" (heredocFrame "EOF") [.top] env (.opened env.table none []) 1 s ∧
      ClosesByOwnEnd env s e [] (heredocFrame "EOF") [.top] ∧ env.lexeme e = "EOFX" := by
  obtain ⟨table,s,htable,hholds,h⟩ := exists_holds_heredoc "EOF a EOFX b EOF" "EOF"
    (fun table s =>
      let env := Env.alone table "EOF a EOFX b EOF"
      closesWord env s "EOF" ⟨6,10,.ends,0⟩ && decide (env.lexeme ⟨6,10,.ends,0⟩ = "EOFX"))
    (by decide +kernel)
  obtain ⟨hcloses,hlexeme⟩ := Bool.and_eq_true_iff.mp h
  exact ⟨_,s,_,htable,rfl,hholds,closesByOwnEnd_of_closesWord hcloses,of_decide_eq_true hlexeme⟩

end Runs

end Highlight.Scan
