import Highlight.Proofs.Rules.Exec
import Highlight.Proofs.Scan.Flush
import Highlight.Scan.Step
import Mathlib.Tactic.Lemma

/-!
What the reaction to a match does to the text. Of all combinations of switches there come but four ways to
treat a lexeme, the same for begins and for ends, so that what holds of these holds of both. The cursor stays
until the reaction says how far it moves: not at all, over the lexeme or over one character. What it moves over
is taken in, unless a mode both keeps a lexeme and hands it back.
-/
namespace Highlight

/-- Where the lexeme of a begin or an end goes. -/
inductive Place where
  /-- To the end of the buffer, which goes on. -/
  | within
  /-- To the end of the buffer, which is flushed then. -/
  | before
  /-- To the new buffer, after the old one is flushed. -/
  | after
  /-- Nowhere, since it is scanned once more. The buffer is flushed. -/
  | nowhere
  deriving DecidableEq, Repr

namespace Place

/-- The part of a lexeme that is kept. -/
def kept (lexeme : String) : Place → String
  | within | before | after => lexeme
  | nowhere => ""

/-- What goes into the tree of a buffer and a lexeme. -/
def flushed (buffer lexeme : String) : Place → String
  | within => ""
  | before => buffer ++ lexeme
  | after | nowhere => buffer

/-- What is in the buffer then. -/
def left (buffer lexeme : String) : Place → String
  | within => buffer ++ lexeme
  | before | nowhere => ""
  | after => lexeme

lemma flushed_append_left (buffer lexeme : String) (place : Place) :
    place.flushed buffer lexeme ++ place.left buffer lexeme = buffer ++ place.kept lexeme := by
  cases place <;> simp [flushed,left,kept]

end Place

namespace Switches

variable (sw : Switches Bool)

/-- Where a mode has the lexeme of its begin. -/
def beginPlace : Place :=
  if sw.skip then .within else if sw.excludeBegin then .before else if sw.returnBegin then .nowhere else .after

/-- Where a mode has the lexeme of the end that is found in it. -/
def endPlace : Place :=
  if sw.skip then .within else if sw.excludeEnd then .after else if sw.returnEnd then .nowhere else .before

/-- The part of the lexeme of a begin that is kept is what the cursor moves over, unless the mode keeps all
of it and hands it back. -/
lemma kept_beginPlace (lexeme : String) : sw.beginPlace.kept lexeme =
    (if sw.returnBegin then "" else lexeme) ++
      if sw.returnBegin && (sw.excludeBegin || sw.skip) then lexeme else "" := by
  cases hskip : sw.skip <;> cases hexclude : sw.excludeBegin <;> cases hreturn : sw.returnBegin <;>
    simp [beginPlace,Place.kept,hskip,hexclude,hreturn]

lemma kept_endPlace (lexeme : String) : sw.endPlace.kept lexeme =
    (if sw.returnEnd then "" else lexeme) ++
      if sw.returnEnd && (sw.excludeEnd || sw.skip) then lexeme else "" := by
  cases hskip : sw.skip <;> cases hexclude : sw.excludeEnd <;> cases hreturn : sw.returnEnd <;>
    simp [endPlace,Place.kept,hskip,hexclude,hreturn]

end Switches

namespace Scan

open Highlight.Scan.Action

/-- Put a lexeme where it belongs. -/
def put (env : Env) (lexeme : String) : Place → Action Unit
  | .within => append lexeme
  | .before => do append lexeme; flush env
  | .after => do flush env; setBuffer lexeme
  | .nowhere => flush env

lemma takeBegin_eq_put (env : Env) (sw : Switches Bool) (lexeme : String) :
    takeBegin env sw lexeme = put env lexeme sw.beginPlace := by
  cases hskip : sw.skip <;> cases hexclude : sw.excludeBegin <;> cases hreturn : sw.returnBegin <;>
    simp [takeBegin,Switches.beginPlace,put,hskip,hexclude,hreturn]

lemma takeEnd_eq_put (env : Env) (sw : Switches Bool) (lexeme : String) :
    takeEnd env sw lexeme = put env lexeme sw.endPlace := by
  cases hskip : sw.skip <;> cases hexclude : sw.excludeEnd <;> cases hreturn : sw.returnEnd <;>
    simp [takeEnd,Switches.endPlace,put,hskip,hexclude,hreturn]

end Scan
end Highlight

namespace Highlight

/-- A lexeme that is handed back to the scan is not kept as well. -/
structure Switches.HandsBackOnce (sw : Switches Bool) : Prop where
  begins : sw.returnBegin → ¬ (sw.excludeBegin ∨ sw.skip)
  ends : sw.returnEnd → ¬ (sw.excludeEnd ∨ sw.skip)

namespace Switches.HandsBackOnce

variable {sw : Switches Bool}

lemma kept_beginPlace (h : sw.HandsBackOnce) (lexeme : String) :
    sw.beginPlace.kept lexeme = if sw.returnBegin then "" else lexeme := by
  have honce : (sw.returnBegin && (sw.excludeBegin || sw.skip)) = false := by simpa using h.begins
  rw [Switches.kept_beginPlace,honce,if_neg Bool.false_ne_true,String.append_empty]

lemma kept_endPlace (h : sw.HandsBackOnce) (lexeme : String) :
    sw.endPlace.kept lexeme = if sw.returnEnd then "" else lexeme := by
  have honce : (sw.returnEnd && (sw.excludeEnd || sw.skip)) = false := by simpa using h.ends
  rw [Switches.kept_endPlace,honce,if_neg Bool.false_ne_true,String.append_empty]

end Switches.HandsBackOnce

/-- No mode of a grammar both keeps a lexeme and hands it back. -/
def NodeTable.HandsBackOnce (t : NodeTable) : Prop := ∀ node ∈ t.nodes, node.switches.HandsBackOnce

lemma NodeTable.HandsBackOnce.node {t : NodeTable} (h : t.HandsBackOnce) (id : NodeId) :
    (t.node id).switches.HandsBackOnce := by
  rw [NodeTable.node,Array.getD_eq_getD_getElem?]
  cases hn : t.nodes[id]? with
  | none => exact ⟨nofun,nofun⟩
  | some node => exact h node (Array.mem_of_getElem? hn)

namespace Scan

open Rules

variable {env : Env} {s s' : State} {m : RuleMatch} {H : Halt → State → Prop}

/-- Put a mode on the stack and open its scope. -/
def State.push (env : Env) (frame : Frame) (s : State) : State :=
  { s with stack := frame :: s.stack, tree := openMode env.table frame s.tree }

/-- Take the innermost mode off the stack, close its scope and score it. -/
def State.pop (env : Env) (f : Frame) (s : State) : State :=
  let node := env.node f.node
  { s with
    stack := s.stack.tail
    tree := if node.className.isSome then s.tree.closeScope else s.tree
    relevance := if !node.switches.skip && node.subLanguage.isNone
      then addRelevance s.relevance node.relevance else s.relevance }

@[simp] lemma push_position (frame : Frame) : (s.push env frame).position = s.position := rfl

@[simp] lemma pop_position (f : Frame) : (s.pop env f).position = s.position := rfl

@[simp] lemma text_openMode (table : NodeTable) (f : Frame) (tree : Tree.Builder) :
    (openMode table f tree).text = tree.text := by
  rw [openMode]
  split
  · exact tree.text_openScope _
  · rfl

@[simp] lemma push_taken (frame : Frame) : (s.push env frame).taken = s.taken := by
  simp [State.taken,State.push]

@[simp] lemma pop_taken (f : Frame) : (s.pop env f).taken = s.taken := by
  simp only [State.taken,State.pop]
  split <;> simp

@[simp] lemma foldl_pop_position (closed : List Frame) :
    (closed.foldl (fun s f => s.pop env f) s).position = s.position := by
  induction closed generalizing s with
  | nil => rfl
  | cons f closed ih => exact ih

@[simp] lemma foldl_pop_taken (closed : List Frame) :
    (closed.foldl (fun s f => s.pop env f) s).taken = s.taken := by
  induction closed generalizing s with
  | nil => rfl
  | cons f closed ih => rw [List.foldl_cons,ih,pop_taken]

/-- Opening a mode fails, if at all, before it changes anything. -/
lemma enter_ensures (env : Env) (frame : Frame) (position : Nat) : (enter env frame position).Ensures s
    (fun _ s' => s' = s.push env frame ∧ s.stack.length ≤ maxOpenModes)
    (fun halt s' => s' = s ∧ halt.IsLegal) := by
  simp only [enter,Action.ensures_bind,Action.ensures_get]
  split
  · exact ⟨rfl,trivial⟩
  · exact ⟨rfl,Nat.le_of_not_lt ‹_›⟩

lemma leave_ensures (env : Env) (f : Frame) :
    (leave env f).Ensures s (fun _ s' => s' = s.pop env f) (fun _ _ => False) := by
  cases hc : (env.node f.node).className.isSome <;>
    cases hr : !(env.node f.node).switches.skip && (env.node f.node).subLanguage.isNone <;>
    simp [leave,State.pop,Action.ensures_bind,hc,hr]

lemma forM_leave_ensures (env : Env) (closed : List Frame) : (closed.forM (leave env)).Ensures s
    (fun _ s' => s' = closed.foldl (fun s f => s.pop env f) s) (fun _ _ => False) := by
  refine (Action.ensures_forM (s := s) (l := closed) (f := leave env)
    (P := fun rest s' => rest.foldl (fun s f => s.pop env f) s' =
      closed.foldl (fun s f => s.pop env f) s) ?_ rfl).mono (fun _ _ h => h) (fun _ _ h => h)
  intro f rest s₁ h₁
  refine (leave_ensures env f).mono (fun _ s' h' => ?_) (fun _ _ h => h)
  rw [h']
  exact h₁

lemma State.keeps_buffer (s : State) (buffer : String) : s.Keeps { s with buffer } :=
  ⟨rfl,rfl,rfl,rfl,rfl,rfl⟩

/-- An action takes in a text and changes nothing that the next search depends on. -/
def Action.Takes (x : Action Unit) (env : Env) (s : State) (text : String) : Prop :=
  x.Ensures s (fun _ s' => s.Keeps s' ∧ (env.Faithful → s'.taken = s.taken ++ text))
    (fun halt s' => s.Keeps s' ∧ halt.IsLegal)

lemma append_takes (env : Env) (s : State) (text : String) : (Action.append text).Takes env s text :=
  ⟨s.keeps_buffer _,fun _ => by simp [State.taken,String.append_assoc]⟩

lemma flush_takes (env : Env) (s : State) : (flush env).Takes env s "" := by
  refine (flush_ensures env s).mono (fun _ s' h => ⟨h.1,fun hf => ?_⟩) (fun _ _ h => h)
  rw [State.taken,h.2.2 (hf.givesBack s),h.2.1]

lemma append_flush_takes (env : Env) (s : State) (text : String) :
    (do Action.append text; flush env).Takes env s text := by
  have hk := s.keeps_buffer (s.buffer ++ text)
  rw [Action.Takes,Action.ensures_bind,Action.ensures_append]
  refine (flush_takes env _).mono (fun _ s' h => ⟨hk.trans h.1,fun hf => ?_⟩) (fun _ s' h => ⟨hk.trans h.1,h.2⟩)
  rw [h.2 hf,String.append_empty]
  exact ((append_takes env s text).ok rfl).2 hf

lemma flush_setBuffer_takes (env : Env) (s : State) (text : String) :
    (do flush env; Action.setBuffer text).Takes env s text := by
  rw [Action.Takes,Action.ensures_bind]
  refine (flush_ensures env s).mono (fun _ s' h => ?_) (fun _ _ h => h)
  refine ⟨h.1.trans (s'.keeps_buffer _),fun hf => ?_⟩
  rw [State.taken,h.2.2 (hf.givesBack s)]

lemma put_takes (env : Env) (s : State) (lexeme : String) (place : Place) :
    (put env lexeme place).Takes env s (place.kept lexeme) := by
  cases place with
  | within => exact append_takes env s lexeme
  | before => exact append_flush_takes env s lexeme
  | after => exact flush_setBuffer_takes env s lexeme
  | nowhere => exact flush_takes env s

lemma takeBegin_takes (env : Env) (s : State) (sw : Switches Bool) (lexeme : String) :
    (takeBegin env sw lexeme).Takes env s (sw.beginPlace.kept lexeme) := by
  rw [takeBegin_eq_put]
  exact put_takes env s lexeme _

lemma takeEnd_takes (env : Env) (s : State) (sw : Switches Bool) (lexeme : String) :
    (takeEnd env sw lexeme).Takes env s (sw.endPlace.kept lexeme) := by
  rw [takeEnd_eq_put]
  exact put_takes env s lexeme _

/-- What a reaction does to the text, where the cursor moves by `moved` from the start of the match. -/
structure Reacts (env : Env) (m : RuleMatch) (s : State) (moved : Nat) (s' : State) : Prop where
  position : s'.position = s.position
  moves : moved = 0 ∨ moved = m.stop - m.start ∨ moved = 1
  taken : env.Faithful → env.table.HandsBackOnce →
    s'.taken = s.taken ++ env.text.slice m.start (m.start + moved)

/-- How a reaction halts: with the cursor where it was, and at an illegal lexeme only if those are not
let through. -/
structure Halts (env : Env) (s : State) (halt : Halt) (s' : State) : Prop where
  position : s'.position = s.position
  isLegal : env.tolerant = true → halt.IsLegal

lemma keepLexeme_ensures (env : Env) (s : State) (hm : m.start ≤ m.stop) :
    (keepLexeme env m).Ensures s (Reacts env m s) (Halts env s) := by
  simp only [keepLexeme,Action.ensures_bind,Action.ensures_append]
  refine ⟨rfl,.inr (.inl rfl),fun hf _ => ?_⟩
  rw [Nat.add_sub_cancel' hm]
  exact ((append_takes env s _).ok rfl).2 hf

lemma keepNext_ensures (env : Env) (s : State) : (keepNext env m.start).Ensures s (Reacts env m s) (Halts env s) := by
  rw [keepNext]
  cases hc : env.text.charAt? m.start with
  | none =>
    refine ⟨rfl,.inr (.inr rfl),fun _ _ => ?_⟩
    have hsize : env.text.size ≤ m.start := Array.getElem?_eq_none_iff.mp hc
    rw [env.text.slice_of_size_le _ hsize,String.append_empty]
  | some c =>
    refine ⟨rfl,.inr (.inr rfl),fun hf _ => ?_⟩
    rw [env.text.slice_succ_of_charAt? hc]
    exact ((append_takes env s _).ok rfl).2 hf

lemma ignoreBegin_ensures (env : Env) (s : State) :
    (ignoreBegin env m).Ensures s (Reacts env m s) (Halts env s) := by
  simp only [ignoreBegin,Action.ensures_bind,Action.ensures_get]
  split
  · exact keepNext_ensures env s
  · exact ⟨rfl,.inl rfl,fun _ _ => by rw [Nat.add_zero,Source.slice_self,String.append_empty]; rfl⟩

/-- What the cursor moves over if the lexeme is handed back or not. -/
lemma slice_moved (env : Env) (hm : m.start ≤ m.stop) (returned : Bool) :
    env.text.slice m.start (m.start + if returned then 0 else m.stop - m.start) =
      if returned then "" else env.lexeme m := by
  cases returned with
  | false => simp [Env.lexeme,RuleMatch.lexeme,Nat.add_sub_cancel' hm]
  | true => simp

lemma acceptBegin_ensures (env : Env) (s : State) (hm : m.start ≤ m.stop) (id : NodeId) :
    (acceptBegin env m id).Ensures s (Reacts env m s) (Halts env s) := by
  simp only [acceptBegin,Action.ensures_bind,Action.ensures_pure]
  refine (takeBegin_takes env s _ _).mono (fun _ s₁ h₁ => ?_) (fun _ _ h => ⟨h.1.position,fun _ => h.2⟩)
  refine (enter_ensures env _ _).mono (fun _ s₂ h₂ => ?_) 
    (fun _ _ h => ⟨h.1 ▸ h₁.1.position,fun _ => h.2⟩)
  rw [h₂.1]
  refine ⟨h₁.1.position,?_,fun hf ht => ?_⟩
  · split
    · exact .inl rfl
    · exact .inr (.inl rfl)
  · rw [push_taken,h₁.2 hf]
    congr 1
    exact ((ht.node id).kept_beginPlace _).trans (slice_moved env hm _).symm

lemma reactToBegin_ensures (env : Env) (s : State) (hm : m.start ≤ m.stop) (id : NodeId) :
    (reactToBegin env m id).Ensures s (Reacts env m s) (Halts env s) := by
  simp only [reactToBegin]
  split
  · exact acceptBegin_ensures env s hm id
  · exact ignoreBegin_ensures env s
  · split
    · exact keepNext_ensures env s
    · exact keepLexeme_ensures env s hm

/-- Going on with the mode after a closed one pushes it, if it does anything. -/
lemma follow_ensures (env : Env) (s : State) (f : Frame) (position : Nat) :
    (follow env f position).Ensures s
      (fun _ s' => s' = s ∨ ∃ frame, (env.node f.node).starts = some frame.node ∧
        s' = s.push env frame ∧ s.stack.length ≤ maxOpenModes)
      (fun halt s' => s' = s ∧ halt.IsLegal) := by
  rw [follow]
  split
  · rename_i next hnext
    exact (enter_ensures env _ position).mono (fun _ s' h => .inr ⟨_,hnext,h⟩) (fun _ _ h => h)
  · exact .inl rfl

lemma close_ensures (env : Env) (s : State) (hm : m.start ≤ m.stop) (closed : List Frame) :
    (close env m closed).Ensures s (Reacts env m s) (Halts env s) := by
  simp only [close,Action.ensures_bind,Action.ensures_get]
  refine (takeEnd_takes env s _ _).mono (fun _ s₁ h₁ => ?_) (fun _ _ h => ⟨h.1.position,fun _ => h.2⟩)
  refine (forM_leave_ensures env closed).mono (fun _ s₂ h₂ => ?_) (fun _ _ => False.elim)
  have hposition : s₂.position = s.position := by rw [h₂,foldl_pop_position,h₁.1.position]
  -- what comes next, if anything, only pushes a mode
  have hreacts : ∀ s', s'.position = s₂.position → s'.taken = s₂.taken →
      Reacts env m s (if (env.switches s.top).returnEnd then 0 else m.stop - m.start) s' := by
    intro s' hs' htaken
    refine ⟨hs'.trans hposition,?_,fun hf ht => ?_⟩
    · split
      · exact .inl rfl
      · exact .inr (.inl rfl)
    · rw [htaken,h₂,foldl_pop_taken,h₁.2 hf]
      congr 1
      exact ((ht.node s.top).kept_endPlace _).trans (slice_moved env hm _).symm
  split
  · rw [Action.ensures_bind]
    refine (follow_ensures env s₂ _ m.start).mono (fun _ s₃ h₃ => ?_)
      (fun _ _ h => ⟨h.1 ▸ hposition,fun _ => h.2⟩)
    rcases h₃ with rfl | ⟨frame,-,rfl,-⟩
    · exact hreacts _ rfl rfl
    · exact hreacts _ (push_position frame) (push_taken frame)
  · exact hreacts _ rfl rfl

lemma reactToEnd_ensures (env : Env) (s : State) (hm : m.start ≤ m.stop) :
    (reactToEnd env m).Ensures s (Reacts env m s) (Halts env s) := by
  simp only [reactToEnd,Action.ensures_bind,Action.ensures_get]
  refine Action.ensures_ofSearch (fun closed _ => ?_) ⟨rfl,fun _ => trivial⟩
  cases closed with
  | none => exact keepLexeme_ensures env s hm
  | some closed => exact close_ensures env s hm closed

lemma reactToIllegal_ensures (env : Env) (s : State) (hm : m.start ≤ m.stop) :
    (reactToIllegal env m).Ensures s (Reacts env m s) (Halts env s) := by
  rw [reactToIllegal]
  split
  · exact keepNext_ensures env s
  · split
    · exact keepLexeme_ensures env s hm
    · exact ⟨rfl,fun htolerant => absurd htolerant ‹_›⟩

/-- The cursor moves over what a reaction takes in. -/
theorem react_ensures (env : Env) (s : State) (hm : m.start ≤ m.stop) :
    (react env m).Ensures s (Reacts env m s) (Halts env s) := by
  simp only [react,Action.ensures_bind,Action.ensures_get]
  split
  · split
    · exact keepNext_ensures env s
    · exact ⟨rfl,fun _ => trivial⟩
  · simp only [Action.ensures_bind,Action.ensures_modify]
    -- noting the match changes neither the cursor nor the text
    have hlast : ∀ moved s', Reacts env m { s with last := some m } moved s' → Reacts env m s moved s' :=
      fun _ _ h => ⟨h.position,h.moves,h.taken⟩
    have hhalts : ∀ halt s', Halts env { s with last := some m } halt s' → Halts env s halt s' :=
      fun _ _ h => ⟨h.position,h.isLegal⟩
    cases m.kind with
    | begins id => exact (reactToBegin_ensures env _ hm id).mono hlast hhalts
    | ends => exact (reactToEnd_ensures env _ hm).mono hlast hhalts
    | illegal => exact (reactToIllegal_ensures env _ hm).mono hlast hhalts

end Scan
end Highlight
