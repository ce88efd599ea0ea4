import Highlight.Proofs.Scan.Growth
import Highlight.Proofs.Scan.Reach

/-!
Why scans halt. An action halts as the actions do that it is put together of, in whatever state it starts, so what a
scan never halts with is read off its text. Only the search for the next match asks for a matcher: if it never lacks
one, no scan halts for want of one.
-/
namespace Highlight.Scan

open Rules

variable {env : Env} {s : State} {α β : Type} {H : Halt → Prop}

namespace Action

/-- Wherever an action starts, it halts only as `H` says. -/
def Halts (x : Action α) (H : Halt → Prop) : Prop := ∀ s, x.Ensures s (fun _ _ => True) (fun halt _ => H halt)

lemma Halts.of_run {x : Action α} (h : x.Halts H) {halt : Halt} (hrun : (x.run s).1 = .error halt) : H halt := by
  rcases hx : x.run s with ⟨outcome,s'⟩
  rw [hx] at hrun
  obtain rfl : outcome = .error halt := hrun
  exact (h s).error hx

lemma halts_pure (a : α) : (pure a : Action α).Halts H := fun _ => trivial

lemma halts_throw {halt : Halt} (h : H halt) : (throw halt : Action α).Halts H := fun _ => h

lemma halts_get : (get : Action State).Halts H := fun _ => trivial

lemma halts_modify (f : State → State) : (modify f : Action Unit).Halts H := fun _ => trivial

lemma halts_ofSearch (h : H (.fault .searchGaveUp)) (r : Except Regex.GaveUp α) : (ofSearch r).Halts H :=
  fun _ => ensures_ofSearch (fun _ _ => trivial) h

lemma halts_ofCall (h : ∀ e, H (.error e)) (c : Call α) : (ofCall c).Halts H :=
  fun _ => ensures_ofCall (fun _ _ _ => trivial) (fun e _ _ => h e)

lemma Halts.bind {x : Action α} {f : α → Action β} (hx : x.Halts H) (hf : ∀ a, (f a).Halts H) :
    (x >>= f).Halts H := by
  intro s
  rw [ensures_bind]
  exact (hx s).mono (fun a s' _ => hf a s') (fun _ _ h => h)

lemma Halts.ite {p : Prop} [Decidable p] {x y : Action α} (hx : x.Halts H) (hy : y.Halts H) :
    (if p then x else y).Halts H := by
  split
  · exact hx
  · exact hy

lemma halts_forM {f : α → Action Unit} (hf : ∀ a, (f a).Halts H) (l : List α) : (l.forM f).Halts H :=
  fun _ => ensures_forM (P := fun _ _ => True) (fun a _ s _ => hf a s) trivial

end Action

/-- Reasons to halt, with those among them that flushing, closing and opening modes may have. -/
structure Halt.Common (H : Halt → Prop) : Prop where
  gaveUp : H (.fault .searchGaveUp)
  tooDeep : ∀ index, H (.fault (.nestingTooDeep maxOpenModes index))
  error : ∀ e, H (.error e)

open Highlight.Scan.Action

section Flushing

lemma addPiece_halts (p : Piece) : (addPiece p).Halts H := by
  cases p with
  | plain text => exact halts_modify _
  | keyword text entry => exact (halts_modify _).bind (fun _ => halts_modify _)

lemma flushKeywords_halts (h : Halt.Common H) (env : Env) (node : Node) (buffer : String) :
    (flushKeywords env node buffer).Halts H := by
  rw [flushKeywords]
  split
  · exact halts_modify _
  · exact (halts_ofSearch h.gaveUp _).bind (fun _ => halts_forM addPiece_halts _)

lemma addEmbedded_halts (node : Node) (sub : SubLanguage) (r : Result) : (addEmbedded node sub r).Halts H := by
  rw [addEmbedded]
  refine (halts_modify _).bind (fun _ => ?_)
  exact .ite ((halts_modify _).bind (fun _ => halts_modify _)) (halts_modify _)

lemma flushEmbedded_halts (h : Halt.Common H) (env : Env) (node : Node) (sub : SubLanguage) (buffer : String) :
    (flushEmbedded env node sub buffer).Halts H := by
  rw [flushEmbedded]
  refine .ite (halts_pure _) (halts_get.bind (fun s => ?_))
  split
  · exact halts_modify _
  · exact (halts_ofCall h.error _).bind (fun _ => addEmbedded_halts _ _ _)

lemma flush_halts (h : Halt.Common H) (env : Env) : (flush env).Halts H := by
  rw [flush]
  refine halts_get.bind (fun s => ?_)
  dsimp only
  split
  · exact (flushEmbedded_halts h _ _ _ _).bind (fun _ => halts_modify _)
  · exact (flushKeywords_halts h _ _ _).bind (fun _ => halts_modify _)

end Flushing

section Reactions

lemma keepLexeme_halts (env : Env) (m : RuleMatch) : (keepLexeme env m).Halts H :=
  (halts_modify _).bind (fun _ => halts_pure _)

lemma keepNext_halts (env : Env) (position : Nat) : (keepNext env position).Halts H := by
  rw [keepNext]
  split
  · exact (halts_modify _).bind (fun _ => halts_pure _)
  · exact halts_pure _

lemma enter_halts (h : Halt.Common H) (env : Env) (frame : Frame) (position : Nat) :
    (enter env frame position).Halts H := by
  have hopen : (do changeTree (openMode env.table frame); modify fun s => { s with stack := frame :: s.stack } :
      Action Unit).Halts H := (halts_modify _).bind (fun _ => halts_modify _)
  rw [enter]
  exact halts_get.bind (fun s => .ite ((halts_throw (h.tooDeep _)).bind (fun _ => hopen)) hopen)

lemma takeBegin_halts (h : Halt.Common H) (env : Env) (sw : Switches Bool) (lexeme : String) :
    (takeBegin env sw lexeme).Halts H := by
  have hflush : (do flush env; if !sw.returnBegin && !sw.excludeBegin then setBuffer lexeme : Action Unit).Halts H :=
    (flush_halts h env).bind (fun _ => .ite (halts_modify _) (halts_pure _))
  rw [takeBegin]
  exact .ite (halts_modify _) (.ite ((halts_modify _).bind (fun _ => hflush)) hflush)

lemma takeEnd_halts (h : Halt.Common H) (env : Env) (sw : Switches Bool) (lexeme : String) :
    (takeEnd env sw lexeme).Halts H := by
  have hflush : (do flush env; if sw.excludeEnd then setBuffer lexeme : Action Unit).Halts H :=
    (flush_halts h env).bind (fun _ => .ite (halts_modify _) (halts_pure _))
  rw [takeEnd]
  exact .ite (halts_modify _) (.ite ((halts_modify _).bind (fun _ => hflush)) hflush)

lemma reactToBegin_halts (h : Halt.Common H) (env : Env) (m : RuleMatch) (id : NodeId) :
    (reactToBegin env m id).Halts H := by
  rw [reactToBegin]
  split
  · rw [acceptBegin]
    exact (takeBegin_halts h _ _ _).bind (fun _ => (enter_halts h _ _ _).bind (fun _ => halts_pure _))
  · rw [ignoreBegin]
    refine halts_get.bind (fun s => ?_)
    exact .ite (keepNext_halts _ _) ((halts_modify _).bind (fun _ => halts_pure _))
  · exact .ite (keepNext_halts _ _) (keepLexeme_halts _ _)

lemma leave_halts (env : Env) (f : Frame) : (leave env f).Halts H := by
  have hscore : ∀ relevance : Nat, ∀ p : Prop, ∀ [Decidable p],
      (if p then score relevance else pure () : Action Unit).Halts H :=
    fun _ _ _ => .ite (halts_modify _) (halts_pure _)
  rw [leave]
  refine (halts_modify _).bind (fun _ => ?_)
  exact .ite ((halts_modify _).bind (fun _ => hscore _ _)) (hscore _ _)

lemma follow_halts (h : Halt.Common H) (env : Env) (f : Frame) (position : Nat) : (follow env f position).Halts H := by
  rw [follow]
  split
  · exact enter_halts h _ _ _
  · exact halts_pure _

lemma close_halts (h : Halt.Common H) (env : Env) (m : RuleMatch) (closed : List Frame) :
    (close env m closed).Halts H := by
  rw [close]
  refine halts_get.bind (fun s => (takeEnd_halts h _ _ _).bind (fun _ => ?_))
  refine (halts_forM (leave_halts env) closed).bind (fun _ => ?_)
  cases closed.getLast? with
  | none => exact halts_pure _
  | some outermost => exact (follow_halts h _ _ _).bind (fun _ => halts_pure _)

lemma reactToEnd_halts (h : Halt.Common H) (env : Env) (m : RuleMatch) : (reactToEnd env m).Halts H := by
  rw [reactToEnd]
  refine halts_get.bind (fun s => (halts_ofSearch h.gaveUp _).bind (fun closed => ?_))
  split
  · exact close_halts h _ _ _
  · exact keepLexeme_halts _ _

end Reactions

section Matchers

end Matchers
end Highlight.Scan
