import Highlight.Proofs.Scan.React
import Highlight.Scan.State
import Mathlib.Tactic.Lemma

/-!
Two computations side by side. The second follows the first if it does the same for as long as the
first does not fail; where the first fails, the two may part or fail alike, by the reason of the
failure. A computation that follows itself fails only for the reasons that are named.
-/
namespace Highlight

variable {ε σ α β : Type} {parts shares : ε → Prop}

/-- Where `x` gives a value, `y` gives the same one. Where `x` fails for a reason at which they may
part, nothing is said of `y`; any other reason is one that they share, and both fail alike. -/
def Follows (parts shares : ε → Prop) (x y : ExceptT ε (StateM σ) α) : Prop :=
  ∀ s, match x.run s with
    | (.ok a,s') => y.run s = (.ok a,s')
    | (.error e,s') => parts e ∨ shares e ∧ y.run s = (.error e,s')

namespace Follows

variable {x y : ExceptT ε (StateM σ) α}

lemma ok (h : Follows parts shares x y) {s s' : σ} {a : α} (hx : x.run s = (.ok a,s')) :
    y.run s = (.ok a,s') := by
  have h := h s
  rw [hx] at h
  exact h

lemma error (h : Follows parts shares x y) {s s' : σ} {e : ε} (hx : x.run s = (.error e,s')) :
    parts e ∨ shares e ∧ y.run s = (.error e,s') := by
  have h := h s
  rw [hx] at h
  exact h

lemma of_run (hok : ∀ s a s', x.run s = (.ok a,s') → y.run s = (.ok a,s'))
    (herror : ∀ s e s', x.run s = (.error e,s') → parts e ∨ shares e ∧ y.run s = (.error e,s')) :
    Follows parts shares x y := by
  intro s
  split
  · exact hok _ _ _ ‹_›
  · exact herror _ _ _ ‹_›

/-- A computation follows itself if it only fails for reasons that are shared or where they part. -/
lemma refl (herror : ∀ s e s', x.run s = (.error e,s') → parts e ∨ shares e) :
    Follows parts shares x x :=
  of_run (fun _ _ _ hx => hx) (fun _ _ _ hx => (herror _ _ _ hx).imp_right (⟨·,hx⟩))

lemma bind {f g : α → ExceptT ε (StateM σ) β} (h : Follows parts shares x y)
    (hf : ∀ a, Follows parts shares (f a) (g a)) : Follows parts shares (x >>= f) (y >>= g) := by
  intro s
  have h := h s
  simp only [ExceptT.run_bind]
  simp only [StateT.bind,Bind.bind,Pure.pure]
  rcases hx : x.run s with ⟨e | a,s'⟩ <;> rw [hx] at h
  · rcases h with hp | ⟨hs,hy⟩
    · exact .inl hp
    · rw [hy]
      exact .inr ⟨hs,rfl⟩
  · rw [show y.run s = (.ok a,s') from h]
    exact hf a s'

lemma map (f : α → β) (h : Follows parts shares x y) : Follows parts shares (f <$> x) (f <$> y) := by
  rw [← bind_pure_comp,← bind_pure_comp]
  exact h.bind (fun _ _ => rfl)

end Follows

lemma follows_throw {e : ε} (h : parts e ∨ shares e) :
    Follows parts shares (throw e : ExceptT ε (StateM σ) α) (throw e) :=
  fun _ => h.imp_right (⟨·,rfl⟩)

lemma follows_forM {f g : α → ExceptT ε (StateM σ) PUnit} {l : List α}
    (h : ∀ a ∈ l, Follows parts shares (f a) (g a)) : Follows parts shares (l.forM f) (l.forM g) := by
  induction l with
  | nil => exact fun _ => rfl
  | cons a l ih =>
    exact (h a List.mem_cons_self).bind (fun _ => ih (fun a ha => h a (List.mem_cons_of_mem _ ha)))

lemma follows_foldlM {f g : β → α → ExceptT ε (StateM σ) β} {l : List α}
    (h : ∀ b, ∀ a ∈ l, Follows parts shares (f b a) (g b a)) (b : β) :
    Follows parts shares (l.foldlM f b) (l.foldlM g b) := by
  induction l generalizing b with
  | nil => exact fun _ => rfl
  | cons a l ih =>
    rw [List.foldlM_cons,List.foldlM_cons]
    exact (h b a List.mem_cons_self).bind
      (fun b => ih (fun b a ha => h b a (List.mem_cons_of_mem _ ha)) b)

end Highlight

/-!
Scans of one text by one table, side by side. They may differ in what they make of illegal lexemes,
faults and embedded texts. As long as the first does not halt where they may part, the second takes
the same steps.
-/
namespace Highlight.Scan

open Rules

/-- A scan that another one follows, by the same table through the same text. Where one of them lets
something through that the other does not, they part at it. -/
structure Env.Leads (parts shares : Halt → Prop) (env env' : Env) : Prop where
  table : env'.table = env.table
  text : env'.text = env.text
  illegal : ∀ lexeme, parts (.illegal lexeme) ∨ shares (.illegal lexeme)
  fault : ∀ f, parts (.fault f) ∨ shares (.fault f)
  tolerant : env'.tolerant = env.tolerant ∨ env.tolerant = false ∧ ∀ lexeme, parts (.illegal lexeme)
  safeMode : env'.safeMode = env.safeMode ∨ env.safeMode = false ∧ ∀ f, parts (.fault f)
  embed : ∀ sub c code, Option.Rel (Follows (parts ∘ .error) (shares ∘ .error))
    (env.embed sub c code) (env'.embed sub c code)

variable {α : Type} {parts shares : Halt → Prop} {env env' : Env}

lemma Env.Leads.exists_eq (h : env.Leads parts shares env') :
    ∃ tolerant safeMode embed, env' = { env with tolerant, safeMode, embed } := by
  obtain ⟨table,text,tolerant,safeMode,embed⟩ := env'
  obtain ⟨rfl,rfl,-⟩ := h
  exact ⟨tolerant,safeMode,embed,rfl⟩

lemma follows_fail (h : env.Leads parts shares env') (f : Fault) :
    Follows parts shares (Action.fail f : Action α) (Action.fail f) :=
  follows_throw (h.fault f)

lemma follows_ofSearch (h : env.Leads parts shares env') (r : Except Regex.GaveUp α) :
    Follows parts shares (Action.ofSearch r) (Action.ofSearch r) := by
  match r with
  | .ok a => exact fun _ => rfl
  | .error .gaveUp => exact follows_fail h _

/-- A call fails in a scan as it fails on its own. -/
lemma run_ofCall (c : Call α) (s : State) : (Action.ofCall c).run s =
    ((c.run s.assembled).1.mapError .error,{ s with assembled := (c.run s.assembled).2 }) := by
  have h : (Action.ofCall c).Ensures s
      (fun a s' => ((c.run s.assembled).1.mapError Halt.error,
        { s with assembled := (c.run s.assembled).2 }) = (Except.ok a,s'))
      (fun halt s' => ((c.run s.assembled).1.mapError Halt.error,
        { s with assembled := (c.run s.assembled).2 }) = (Except.error halt,s')) :=
    Action.ensures_ofCall (fun a keys hc => by rw [hc]; rfl) (fun e keys hc => by rw [hc]; rfl)
  rcases hrun : (Action.ofCall c).run s with ⟨halt | a,s'⟩
  · exact (h.error hrun).symm
  · exact (h.ok hrun).symm

lemma follows_ofCall {x y : Call α} (h : Follows (parts ∘ .error) (shares ∘ .error) x y) :
    Follows parts shares (Action.ofCall x) (Action.ofCall y) := by
  intro s
  rw [run_ofCall,run_ofCall]
  rcases hx : x.run s.assembled with ⟨e | a,keys⟩
  · exact (h.error hx).imp_right (fun ⟨hs,hy⟩ => ⟨hs,by rw [hy]; rfl⟩)
  · rw [h.ok hx]
    rfl

lemma follows_addPiece (p : Piece) : Follows parts shares (addPiece p) (addPiece p) := by
  cases p <;> exact fun _ => rfl

lemma follows_flushKeywords (h : env.Leads parts shares env') (node : Node) (buffer : String) :
    Follows parts shares (flushKeywords env node buffer) (flushKeywords env' node buffer) := by
  obtain ⟨_,_,_,rfl⟩ := h.exists_eq
  simp only [flushKeywords]
  cases node.keywords with
  | none => exact fun _ => rfl
  | some table =>
    exact (follows_ofSearch h _).bind (fun _ => follows_forM (fun p _ => follows_addPiece p))

lemma follows_addEmbedded (node : Node) (sub : SubLanguage) (r : Result) :
    Follows parts shares (addEmbedded node sub r) (addEmbedded node sub r) := by
  exact .refl (fun _ _ _ hx => (addEmbedded_ensures (H := fun _ _ => False) node sub r).error hx |>.elim)

/-- Here the scans call what their embedded grammars are. -/
lemma follows_flushEmbedded (h : env.Leads parts shares env') (node : Node) (sub : SubLanguage)
    (buffer : String) :
    Follows parts shares (flushEmbedded env node sub buffer) (flushEmbedded env' node sub buffer) := by
  simp only [flushEmbedded]
  split
  · exact fun _ => rfl
  · refine Follows.bind (fun _ => rfl) (fun s => ?_)
    generalize he : env.embed sub (s.carried sub) buffer = call
    generalize he' : env'.embed sub (s.carried sub) buffer = call'
    have hcall := h.embed sub (s.carried sub) buffer
    rw [he,he'] at hcall
    cases hcall with
    | none => exact fun _ => rfl
    | some hcall => exact (follows_ofCall hcall).bind (fun r => follows_addEmbedded node sub r)

lemma follows_flush (h : env.Leads parts shares env') :
    Follows parts shares (flush env) (flush env') := by
  refine Follows.bind (fun _ => rfl) (fun s => ?_)
  rw [Env.node,Env.node,h.table]
  dsimp only
  split
  · exact (follows_flushEmbedded h _ _ _).bind (fun _ _ => rfl)
  · exact (follows_flushKeywords h _ _).bind (fun _ _ => rfl)

lemma follows_keepLexeme (h : env.Leads parts shares env') (m : RuleMatch) :
    Follows parts shares (keepLexeme env m) (keepLexeme env' m) := by
  obtain ⟨_,_,_,rfl⟩ := h.exists_eq
  exact fun _ => rfl

lemma follows_keepNext (h : env.Leads parts shares env') (position : Nat) :
    Follows parts shares (keepNext env position) (keepNext env' position) := by
  simp only [keepNext,h.text]
  split <;> exact fun _ => rfl

lemma follows_enter (h : env.Leads parts shares env') (frame : Frame) (position : Nat) :
    Follows parts shares (enter env frame position) (enter env' frame position) := by
  obtain ⟨_,_,_,rfl⟩ := h.exists_eq
  refine Follows.bind (fun _ => rfl) (fun s => ?_)
  split
  · exact (follows_fail h _).bind (fun _ _ => rfl)
  · exact fun _ => rfl

lemma follows_ignoreBegin (h : env.Leads parts shares env') (m : RuleMatch) :
    Follows parts shares (ignoreBegin env m) (ignoreBegin env' m) := by
  refine Follows.bind (fun _ => rfl) (fun s => ?_)
  split
  · exact follows_keepNext h _
  · exact fun _ => rfl

lemma follows_put (h : env.Leads parts shares env') (lexeme : String) (place : Place) :
    Follows parts shares (put env lexeme place) (put env' lexeme place) := by
  have hflush := follows_flush h
  cases place with
  | within => exact fun _ => rfl
  | before => exact Follows.bind (fun _ => rfl) (fun _ => hflush)
  | after => exact hflush.bind (fun _ _ => rfl)
  | nowhere => exact hflush

lemma follows_acceptBegin (h : env.Leads parts shares env') (m : RuleMatch) (id : NodeId) :
    Follows parts shares (acceptBegin env m id) (acceptBegin env' m id) := by
  obtain ⟨_,_,_,rfl⟩ := h.exists_eq
  rw [acceptBegin,acceptBegin,takeBegin_eq_put,takeBegin_eq_put]
  exact (follows_put h _ _).bind (fun _ => (follows_enter h _ _).bind (fun _ _ => rfl))

lemma follows_reactToBegin (h : env.Leads parts shares env') (m : RuleMatch) (id : NodeId) :
    Follows parts shares (reactToBegin env m id) (reactToBegin env' m id) := by
  have hverdict : verdict env' (env'.node id) m = verdict env (env.node id) m := by
    rw [Env.node,Env.node,h.table,verdict,verdict,h.text]
  rw [reactToBegin,reactToBegin,hverdict]
  split
  · exact follows_acceptBegin h m id
  · exact follows_ignoreBegin h m
  · split
    · exact follows_keepNext h _
    · exact follows_keepLexeme h m

lemma follows_leave (h : env.Leads parts shares env') (f : Frame) :
    Follows parts shares (leave env f) (leave env' f) := by
  obtain ⟨_,_,_,rfl⟩ := h.exists_eq
  exact .refl (fun _ _ _ hx => (leave_ensures env f).error hx |>.elim)

lemma follows_follow (h : env.Leads parts shares env') (f : Frame) (position : Nat) :
    Follows parts shares (follow env f position) (follow env' f position) := by
  simp only [follow,Env.switches,Env.node,h.table]
  split
  · exact follows_enter h _ _
  · exact fun _ => rfl

lemma follows_close (h : env.Leads parts shares env') (m : RuleMatch) (closed : List Frame) :
    Follows parts shares (close env m closed) (close env' m closed) := by
  simp only [close,takeEnd_eq_put,Env.switches,Env.node,Env.lexeme,h.table,h.text]
  refine Follows.bind (fun _ => rfl) (fun s => ?_)
  refine (follows_put h _ _).bind (fun _ => ?_)
  refine (follows_forM (fun f _ => follows_leave h f)).bind (fun _ => ?_)
  cases closed.getLast? with
  | none => exact fun _ => rfl
  | some outermost => exact (follows_follow h _ _).bind (fun _ _ => rfl)

/-- The modes that close together depend on the table only. -/
lemma widen_eq (htable : env'.table = env.table) (f : Frame) (around : List Frame) :
    widen env' f around = widen env f around := by
  obtain ⟨table,text,tolerant,safeMode,embed⟩ := env'
  obtain rfl : table = env.table := htable
  fun_induction Scan.widen env f around with
  | case1 f g g' rest ih =>
    rw [Scan.widen,ih]
    rfl
  | case2 f around hne => simp only [Scan.widen]

/-- The modes that an end closes depend on the table and the text only. -/
lemma closing_eq (htable : env'.table = env.table) (htext : env'.text = env.text) (position : Nat)
    (frames : List Frame) : closing env' position frames = closing env position frames := by
  induction frames with
  | nil => rfl
  | cons f rest ih =>
    rw [closing,closing,ih,widen_eq htable,endsAt,endsAt,Env.switches,Env.switches,Env.node,
      Env.node,htable,htext]

lemma follows_reactToEnd (h : env.Leads parts shares env') (m : RuleMatch) :
    Follows parts shares (reactToEnd env m) (reactToEnd env' m) := by
  refine Follows.bind (fun _ => rfl) (fun s => ?_)
  rw [closing_eq h.table h.text]
  refine (follows_ofSearch h _).bind (fun closed => ?_)
  cases closed with
  | none => exact follows_keepLexeme h m
  | some closed => exact follows_close h m closed

/-- Here a scan that lets illegal lexemes through parts from one that does not. -/
lemma follows_reactToIllegal (h : env.Leads parts shares env') (m : RuleMatch) :
    Follows parts shares (reactToIllegal env m) (reactToIllegal env' m) := by
  simp only [reactToIllegal]
  split
  · exact follows_keepNext h _
  · rcases h.tolerant with ht | ⟨ht,hparts⟩
    · rw [ht,Env.lexeme,Env.lexeme,h.text]
      split
      · exact follows_keepLexeme h m
      · exact follows_throw (h.illegal _)
    · rw [ht]
      exact fun _ => .inl (hparts _)

/-- Here a scan that falls back to plain text parts from one that fails. -/
lemma follows_react (h : env.Leads parts shares env') (m : RuleMatch) :
    Follows parts shares (react env m) (react env' m) := by
  refine Follows.bind (fun _ => rfl) (fun s => ?_)
  split
  · rcases h.safeMode with hsafe | ⟨hsafe,hparts⟩
    · rw [hsafe,h.text]
      split
      · exact follows_keepNext h _
      · exact follows_fail h _
    · rw [hsafe]
      exact fun _ => .inl (hparts _)
  · refine Follows.bind (fun _ => rfl) (fun _ => ?_)
    cases m.kind with
    | begins id => exact follows_reactToBegin h m id
    | ends => exact follows_reactToEnd h m
    | illegal => exact follows_reactToIllegal h m

lemma follows_nextMatch (h : env.Leads parts shares env') :
    Follows parts shares (nextMatch env) (nextMatch env') := by
  simp only [nextMatch,Env.node,h.table,h.text]
  refine Follows.bind (fun _ => rfl) (fun _ => Follows.bind (fun _ => rfl) (fun s => ?_))
  split
  · exact follows_fail h _
  · exact fun _ => rfl
  · split <;> exact fun _ => rfl

lemma follows_step (h : env.Leads parts shares env') (number : Nat) :
    Follows parts shares (step env number) (step env' number) := by
  simp only [step,h.text]
  refine (follows_nextMatch h).bind (fun found => ?_)
  cases found with
  | none => exact fun _ => rfl
  | some m =>
    have hreact : ∀ s : State, Follows parts shares
        (do Action.append (env.text.slice s.position m.start); let moved ← react env m
            modify fun s => { s with position := m.start + moved }
            return decide (m.start + moved ≤ env.text.size) : Action Bool)
        (do Action.append (env.text.slice s.position m.start); let moved ← react env' m
            modify fun s => { s with position := m.start + moved }
            return decide (m.start + moved ≤ env.text.size) : Action Bool) :=
      fun s => Follows.bind (fun _ => rfl) (fun _ => (follows_react h m).bind (fun _ _ => rfl))
    have hrunaway : isRunaway env' number m.start = isRunaway env number m.start := by
      rw [isRunaway,isRunaway,h.text]
    dsimp only
    rw [hrunaway]
    split
    · exact (follows_fail h _).bind (fun _ => Follows.bind (fun _ => rfl) hreact)
    · exact Follows.bind (fun _ => rfl) hreact

lemma follows_finish (h : env.Leads parts shares env') :
    Follows parts shares (finish env) (finish env') := by
  simp only [finish,h.text]
  exact Follows.bind (fun _ => rfl) (fun _ => Follows.bind (fun _ => rfl) (fun _ => follows_flush h))

/-- Steps one after the other, until a step says that the scan is done. -/
lemma steps_succ (env : Env) (n number : Nat) : ExceptT.mk (steps env (n + 1) number) =
    (do if ← step env number then ExceptT.mk (steps env n (number + 1)) else finish env : Action Unit) := by
  funext s
  change steps env (n + 1) number s = ExceptT.run (step env number >>= _) s
  rw [steps]
  simp only [ExceptT.run_bind]
  simp only [StateT.bind,Bind.bind,Pure.pure]
  rcases (step env number).run s with ⟨halt | _ | _,s'⟩ <;> rfl

lemma follows_steps (h : env.Leads parts shares env') (n number : Nat) :
    Follows parts shares (ExceptT.mk (steps env n number)) (ExceptT.mk (steps env' n number)) := by
  induction n generalizing number with
  | zero => exact follows_finish h
  | succ n ih =>
    rw [steps_succ,steps_succ]
    refine (follows_step h number).bind (fun goesOn => ?_)
    cases goesOn with
    | false => exact follows_finish h
    | true => exact ih (number + 1)

/-- Where the scan that leads ends well, the other one ends alike; they part only where it halts. -/
theorem follows_run (h : env.Leads parts shares env') :
    Follows parts shares (ExceptT.mk (run env)) (ExceptT.mk (run env')) := by
  have hlimit : stepLimit env' = stepLimit env := by rw [stepLimit,stepLimit,h.text]
  have hrun : run env' = steps env' (stepLimit env) 1 := by
    funext s
    rw [run,hlimit]
  rw [hrun]
  exact follows_steps h (stepLimit env) 1

end Highlight.Scan
