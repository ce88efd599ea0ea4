import Highlight.Proofs.RoundTrip
import Highlight.Proofs.Scan.Growth
import Highlight.Proofs.Scan.LockStep

/-!
Scans beside probes. Probes are scans of the same text by the same table that make something else of
embedded texts. They go with a scan until it puts text into its tree. So where a scan is cut short by
a call for the whole text, a probe that cuts that call short goes with the scan up to there.
-/
namespace Highlight.Scan

open Rules

/-- How a scan highlights embedded texts. -/
abbrev Embed := SubLanguage → Option Continuation → String → Option (Call Result)

def Env.embedding (env : Env) (e : Embed) : Env := { env with embed := e }

/-- The halt for want of room for embedded texts. -/
def Halt.tooDeep : Halt := .error .embeddingTooDeep

/-- Whether a halt is neither for an embedded text nor for want of room. -/
def Halt.IsOwn (halt : Halt) : Prop := ∀ e, halt ≠ .error e

/-- A scan that embeds nothing halts for none but its own reasons. -/
lemma leads_none (env : Env) : (env.embedding (fun _ _ _ => none)).Leads (fun _ => False) Halt.IsOwn
    (env.embedding (fun _ _ _ => none)) where
  table := rfl
  text := rfl
  illegal := fun _ => .inr nofun
  fault := fun _ => .inr nofun
  tolerant := .inl rfl
  safeMode := .inl rfl
  embed := fun _ _ _ => .none

namespace Action

variable {α β : Type} {env : Env} {probes : Embed → Prop} {s : State}

/-- From `s`, an action ends as `Q` says where it gives a value. If it leaves the tree without text, it
found it so, and the probes do the same. If it is cut short, it found the tree without text, and one of
the probes is cut short as well. -/
def Tracks (env : Env) (probes : Embed → Prop) (x : Env → Action α) (s : State)
    (Q : α → State → Prop) : Prop :=
  (x env).Ensures s
    (fun a s' => Q a s' ∧ (s'.tree.text = "" → s.tree.text = "" ∧
      ∀ e, probes e → (x (env.embedding e)).run s = (.ok a,s')))
    (fun halt _ => halt = .tooDeep → s.tree.text = "" ∧
      ∃ e, probes e ∧ ((x (env.embedding e)).run s).1 = .error .tooDeep)

variable {x : Env → Action α} {f : α → Env → Action β}
variable {P : α → State → Prop} {Q : β → State → Prop}

lemma Tracks.bind (hx : Tracks env probes x s P)
    (hf : ∀ a s', P a s' → Tracks env probes (f a) s' Q) :
    Tracks env probes (fun env => x env >>= fun a => f a env) s Q := by
  rw [Tracks,ensures_bind]
  refine Ensures.mono hx (fun a s₁ h₁ => ?_) (fun halt _ h htoo => ?_)
  · refine Ensures.mono (hf a s₁ h₁.1) (fun b s₂ h₂ => ⟨h₂.1,fun hempty => ?_⟩)
      (fun halt _ h htoo => ?_)
    · obtain ⟨hempty₁,hsame⟩ := h₂.2 hempty
      obtain ⟨hempty₀,hsame₀⟩ := h₁.2 hempty₁
      exact ⟨hempty₀,fun e he => (run_bind_ok (hsame₀ e he)).trans (hsame e he)⟩
    · obtain ⟨hempty₁,e,he,hcut⟩ := h htoo
      obtain ⟨hempty₀,hsame₀⟩ := h₁.2 hempty₁
      exact ⟨hempty₀,e,he,by rw [run_bind_ok (hsame₀ e he),hcut]⟩
  · obtain ⟨hempty,e,he,hcut⟩ := h htoo
    exact ⟨hempty,e,he,run_bind_error hcut⟩

/-- An action may do from one state what another does from another state. -/
lemma Tracks.of_run {y : Env → Action α} {s₁ : State} (h : Tracks env probes x s₁ P)
    (hempty : s₁.tree.text = "" → s.tree.text = "")
    (hxy : ∀ e, (y (env.embedding e)).run s = (x (env.embedding e)).run s₁) :
    Tracks env probes y s P := by
  have henv : (y env).run s = (x env).run s₁ := hxy env.embed
  refine ensures_of_run (fun a s' hy => ?_) (fun halt s' hy htoo => ?_)
  · obtain ⟨hP,hx⟩ := Ensures.ok h (henv ▸ hy)
    exact ⟨hP,fun he => ⟨hempty (hx he).1,fun e hprobe => (hxy e).trans ((hx he).2 e hprobe)⟩⟩
  · obtain ⟨he,e,hprobe,hcut⟩ := Ensures.error h (henv ▸ hy) htoo
    exact ⟨hempty he,e,hprobe,by rw [hxy,hcut]⟩

lemma Tracks.congr {y : Env → Action α} (h : Tracks env probes x s P)
    (hxy : ∀ e, (y (env.embedding e)).run s = (x (env.embedding e)).run s) :
    Tracks env probes y s P :=
  h.of_run id hxy

/-- An action that embeds nothing is the same for the probes. -/
lemma tracks_own (hsame : ∀ e, x (env.embedding e) = x env)
    (howned : Follows (fun _ => False) Halt.IsOwn (x (env.embedding (fun _ _ _ => none)))
      (x (env.embedding (fun _ _ _ => none))))
    (h : (x env).Ensures s (fun a s' => P a s' ∧ (s'.tree.text = "" → s.tree.text = ""))
      (fun _ _ => True)) :
    Tracks env probes x s P := by
  rw [hsame] at howned
  refine ensures_of_run (fun a s' hx => ?_) (fun halt s' hx htoo => ?_)
  · obtain ⟨hP,hempty⟩ := h.ok hx
    exact ⟨hP,fun he => ⟨hempty he,fun e _ => by rw [hsame,hx]⟩⟩
  · rcases howned.error hx with hno | ⟨howned,-⟩
    · exact hno.elim
    · exact absurd htoo (howned _)

end Action

open Highlight.Scan.Action

variable {env : Env} {probes : Embed → Prop} {s : State} {m : RuleMatch}

/-- Text is not flushed if the call for it is cut short. -/
lemma flush_cut {sub : SubLanguage} {call : Call Result} (hsub : (env.node s.top).subLanguage = some sub)
    (hbuffer : s.buffer.isEmpty = false) (hcall : env.embed sub (s.carried sub) s.buffer = some call)
    (hcut : ∀ keys, (call.run keys).1 = .error .embeddingTooDeep) :
    (flush env).Ensures s (fun _ _ => False) (fun halt _ => halt = .tooDeep) := by
  simp only [flush,ensures_bind,ensures_get,hsub,flushEmbedded,hbuffer,Bool.false_eq_true,if_false,hcall]
  refine ensures_ofCall (fun r keys hr => ?_) (fun e keys he => ?_)
  · cases (congrArg Prod.fst hr).symm.trans (hcut _)
  · cases (congrArg Prod.fst he).symm.trans (hcut _)
    rfl

/-- A step that finds a begin is cut short if the text before it is not flushed. -/
lemma step_cut {s₁ : State} {number : Nat} {id : NodeId}
    (hfound : (nextMatch env).run s = (.ok (some m),s₁)) (hkind : m.kind = .begins id)
    (hrunaway : isRunaway env number m.start = false) (hstalls : stalls s₁.last m = false)
    (haccepts : verdict env (env.node id) m = .accept)
    (hplace : (env.switches id).skip = false ∧ (env.switches id).excludeBegin = false)
    (hcut : (flush env).Ensures
      { s₁ with buffer := s₁.buffer ++ env.text.slice s₁.position m.start, last := some m }
      (fun _ _ => False) (fun halt _ => halt = .tooDeep)) :
    ((step env number).run s).1 = .error .tooDeep := by
  have hstep : (step env number).Ensures s (fun _ _ => False) (fun halt _ => halt = .tooDeep) := by
    rw [step,ensures_bind,Ensures,hfound]
    simp only [hrunaway,react,reactToBegin,acceptBegin,takeBegin,hkind,hstalls,haccepts,hplace,
      Bool.false_eq_true,if_false,ensures_bind,ensures_get,ensures_modify,ensures_append]
    exact hcut.mono (fun _ _ => False.elim) (fun _ _ h => h)
  rcases hrun : (step env number).run s with ⟨halt | goesOn,s'⟩
  · rw [hstep.error hrun]
  · exact (hstep.ok hrun).elim

/-- Embedded grammars go on in open modes only where the tree has text already. -/
def State.Fresh (s : State) : Prop := s.tree.text = "" → s.embedded = []

/-- A state with the same text in its tree and the same modes for embedded grammars. -/
structure State.SameTree (s s' : State) : Prop where
  text : s'.tree.text = s.tree.text
  embedded : s'.embedded = s.embedded

lemma State.Fresh.same {s' : State} (h : s.Fresh) (hs : s.SameTree s') : s'.Fresh := by
  rw [State.Fresh,hs.text,hs.embedded]
  exact h

lemma State.SameTree.trans {s' s'' : State} (h : s.SameTree s') (h' : s'.SameTree s'') : s.SameTree s'' :=
  ⟨h'.text.trans h.text,h'.embedded.trans h.embedded⟩

lemma sameTree_push (env : Env) (s : State) (frame : Frame) : s.SameTree (s.push env frame) :=
  ⟨text_openMode _ _ _,rfl⟩

lemma sameTree_foldl_pop (env : Env) (s : State) (closed : List Frame) :
    s.SameTree (closed.foldl (fun s f => s.pop env f) s) := by
  induction closed generalizing s with
  | nil => exact ⟨rfl,rfl⟩
  | cons f closed ih =>
    have hpop : s.SameTree (s.pop env f) := by
      refine ⟨?_,rfl⟩
      simp only [State.pop]
      split
      · exact Tree.Builder.text_closeScope _
      · rfl
    exact hpop.trans (ih (s.pop env f))

lemma tracks_sameTree {α : Type} {x : Env → Action α} (hs : s.Fresh)
    (hsame : ∀ e, x (env.embedding e) = x env)
    (howned : Follows (fun _ => False) Halt.IsOwn (x (env.embedding (fun _ _ _ => none)))
      (x (env.embedding (fun _ _ _ => none))))
    (h : (x env).Ensures s (fun _ s' => s.SameTree s') (fun _ _ => True)) :
    Tracks env probes x s (fun _ s' => s'.Fresh) := by
  refine tracks_own hsame howned (h.mono (fun _ s' h' => ⟨hs.same h',fun he => ?_⟩) (fun _ _ h => h))
  rw [← h'.text,he]

/-- What a scan and its probes make of embedded texts. A part of the text is never cut short, and where
the whole text is, one of the probes is. -/
structure Probed (env : Env) (probes : Embed → Prop) : Prop where
  faithful : env.Faithful
  part : ∀ {sub c code call}, env.embed sub c code = some call →
    code.toList <:+: env.text.toList → code.length < env.text.size →
    ∀ keys, (call.run keys).1 ≠ .error .embeddingTooDeep
  whole : ∀ {sub call keys}, env.embed sub none env.text.toString = some call →
    (call.run keys).1 = .error .embeddingTooDeep →
    ∃ e call', probes e ∧ e sub none env.text.toString = some call' ∧
      ∀ keys, (call'.run keys).1 = .error .embeddingTooDeep

/-- What has been taken in begins the text. -/
def State.Begins (env : Env) (s : State) : Prop := ∃ rest, s.taken ++ rest = env.text.toString

lemma State.Begins.before {text : String} (h : { s with buffer := s.buffer ++ text }.Begins env) :
    s.Begins env := by
  obtain ⟨rest,hrest⟩ := h
  refine ⟨text ++ rest,?_⟩
  rw [← hrest,State.taken,State.taken,String.append_assoc,String.append_assoc,String.append_assoc]

lemma exists_slices {before buffer rest : String} (h : before ++ buffer ++ rest = env.text.toString) :
    buffer.toList <:+: env.text.toList ∧ (buffer.length < env.text.size ∨
      before = "" ∧ buffer = env.text.toString) := by
  have hlist : before.toList ++ buffer.toList ++ rest.toList = env.text.toList := by
    rw [← String.toList_append,← String.toList_append,h,Source.toString,String.toList_ofList]
  refine ⟨⟨_,_,hlist⟩,?_⟩
  have hlength := congrArg List.length hlist
  simp only [List.length_append,String.length_toList,Array.length_toList] at hlength
  rcases Nat.lt_or_ge buffer.length env.text.size with hlt | hge
  · exact .inl hlt
  · have hbefore : before = "" := String.length_eq_zero_iff.mp (by omega)
    have hrest : rest = "" := String.length_eq_zero_iff.mp (by omega)
    rw [hbefore,hrest,String.empty_append,String.append_empty] at h
    exact .inr ⟨hbefore,h⟩

lemma run_flushEmbedded {node : Node} {sub : SubLanguage} {call : Call Result} {err : HighlightError}
    (hbuffer : ¬ s.buffer.isEmpty) (hcall : env.embed sub (s.carried sub) s.buffer = some call)
    (herr : (call.run s.assembled).1 = .error err) :
    ((flushEmbedded env node sub s.buffer).run s).1 = .error (.error err) := by
  rw [flushEmbedded,if_neg hbuffer]
  refine (congrArg Prod.fst (run_bind_ok (x := (get : Action State)) rfl)).trans ?_
  rw [hcall]
  refine run_bind_error ?_
  rw [run_ofCall,herr]
  rfl

lemma invariant_trivial : Tree.Builder.Invariant (fun _ => True) (fun _ => True) where
  addText _ _ := trivial
  addKeyword _ _ _ := trivial
  addEmbedded _ _ _ := trivial
  openScope _ _ _ := trivial
  closeScope _ := trivial

variable (hp : Probed env probes)

include hp

lemma tracks_flushEmbedded (hs : s.Fresh) (hbegins : s.Begins env) (node : Node) (sub : SubLanguage) :
    Tracks env probes (fun env => flushEmbedded env node sub s.buffer) s (fun _ s' => s'.Fresh) := by
  by_cases hbuffer : s.buffer.isEmpty
  · have hnone : ∀ env, flushEmbedded env node sub s.buffer = pure () := by
      intro env
      rw [flushEmbedded,if_pos hbuffer]
    simp only [hnone]
    exact ⟨hs,fun he => ⟨he,fun _ _ => rfl⟩⟩
  · -- once the text is in the tree, the probes may part
    have hparts : ∀ s' : State, s'.tree.text = s.tree.text ++ s.buffer → s'.tree.text ≠ "" := by
      intro s' hs' hempty
      rw [hs',String.append_eq_empty_iff] at hempty
      exact hbuffer (String.isEmpty_iff.mpr hempty.2)
    have hdone : ∀ s' : State, s'.tree.text = s.tree.text ++ s.buffer → s'.Fresh ∧
        (s'.tree.text = "" → s.tree.text = "" ∧ ∀ e, probes e →
          (flushEmbedded (env.embedding e) node sub s.buffer).run s = (.ok (),s')) :=
      fun s' hs' => ⟨fun he => absurd he (hparts s' hs'),fun he => absurd he (hparts s' hs')⟩
    simp only [Tracks,flushEmbedded,if_neg hbuffer,ensures_bind,ensures_get] at hdone ⊢
    cases hcall : env.embed sub (s.carried sub) s.buffer with
    | none => exact hdone _ (Tree.Builder.text_addText _ _)
    | some call =>
      dsimp only
      rw [ensures_bind]
      refine ensures_ofCall (fun r keys hr => ?_) (fun err keys herr htoo => ?_)
      · refine (addEmbedded_ensures node sub r).mono (fun _ s' h => hdone s' ?_) (fun _ _ => False.elim)
        rw [h.2,hp.faithful hcall _ _ _ hr]
      · obtain ⟨rest,hrest⟩ := hbegins
        have herr : (call.run s.assembled).1 = .error .embeddingTooDeep := by
          rw [herr,Halt.error.inj htoo]
        obtain ⟨hwithin,hlt | ⟨hempty,hwhole⟩⟩ := exists_slices hrest
        · exact absurd herr (hp.part hcall hwithin hlt _)
        · have hcarried : s.carried sub = none := by
            cases sub with
            | named name => rw [State.carried,hs hempty,List.lookup_nil]
            | auto listed => rfl
          rw [hcarried,hwhole] at hcall
          obtain ⟨e,call',he,hcall',hcut⟩ := hp.whole hcall herr
          have hcall' : (env.embedding e).embed sub (s.carried sub) s.buffer = some call' := by
            rw [hcarried,hwhole]
            exact hcall'
          refine ⟨hempty,e,he,?_⟩
          have hrun : ((flushEmbedded (env.embedding e) node sub s.buffer).run s).1 = .error .tooDeep :=
            run_flushEmbedded hbuffer hcall' (hcut _)
          rw [flushEmbedded,if_neg hbuffer] at hrun
          exact hrun

lemma tracks_flush (hs : s.Fresh) (hbegins : s.Begins env) :
    Tracks env probes flush s (fun _ s' => s'.Fresh) := by
  have hsetBuffer : ∀ s : State, s.Fresh →
      Tracks env probes (fun _ => setBuffer "") s (fun _ s' => s'.Fresh) :=
    fun s hs => tracks_sameTree hs (fun _ => rfl) (fun _ => rfl) ⟨rfl,rfl⟩
  cases hsub : (env.node s.top).subLanguage with
  | some sub =>
    refine ((tracks_flushEmbedded hp hs hbegins (env.node s.top) sub).bind
      (fun _ s' hs' => hsetBuffer s' hs')).congr (fun e => ?_)
    rw [run_flush,show ((env.embedding e).node s.top).subLanguage = some sub from hsub]
    rfl
  | none =>
    have hkeywords : Tracks env probes (fun env => flushKeywords env (env.node s.top) s.buffer) s
        (fun _ s' => s'.Fresh) := by
      refine tracks_own (fun _ => rfl) ?_ ?_
      · exact follows_flushKeywords (leads_none env) _ _
      · refine ensures_of_run (fun _ s' hx => ?_) (fun _ _ _ => trivial)
        have htext := ((flushKeywords_ensures _ _).ok hx).2
        have hempty : s'.tree.text = "" → s.tree.text = "" := by
          rw [htext,String.append_eq_empty_iff]
          exact And.left
        refine ⟨fun he => ?_,hempty⟩
        have hnone : s.Bears (fun _ => True) (fun _ => False) :=
          ⟨trivial,fun entry h => by rw [hs (hempty he)] at h; cases h⟩
        exact List.eq_nil_iff_forall_not_mem.mpr
          (((flushKeywords_preserves invariant_trivial.toGrowing _ _ s hnone).ok hx).embedded)
    refine (hkeywords.bind (fun _ s' hs' => hsetBuffer s' hs')).congr (fun e => ?_)
    rw [run_flush,show ((env.embedding e).node s.top).subLanguage = none from hsub]

lemma tracks_put (lexeme : String) (place : Place) (hs : s.Fresh)
    (hbegins : { s with buffer := s.buffer ++ lexeme }.Begins env) :
    Tracks env probes (fun env => put env lexeme place) s (fun _ s' => s'.Fresh) := by
  have hbefore := hbegins.before
  cases place with
  | within => exact tracks_sameTree hs (fun _ => rfl) (fun _ => rfl) ⟨rfl,rfl⟩
  | before =>
    exact (tracks_flush (s := { s with buffer := s.buffer ++ lexeme }) hp hs hbegins).of_run id (fun _ => rfl)
  | after =>
    exact (tracks_flush hp hs hbefore).bind
      (fun _ _ hs' => tracks_sameTree hs' (fun _ => rfl) (fun _ => rfl) ⟨rfl,rfl⟩)
  | nowhere => exact tracks_flush hp hs hbefore

omit hp in
lemma tracks_pure {α : Type} (a : α) (hs : s.Fresh) :
    Tracks env probes (fun _ => pure a) s (fun _ s' => s'.Fresh) :=
  tracks_sameTree hs (fun _ => rfl) (fun _ => rfl) ⟨rfl,rfl⟩

omit hp in
lemma tracks_enter (frame : Frame) (position : Nat) (hs : s.Fresh) :
    Tracks env probes (fun env => enter env frame position) s (fun _ s' => s'.Fresh) := by
  refine tracks_sameTree hs (fun _ => rfl) (follows_enter (leads_none env) frame position) ?_
  exact (enter_ensures env frame position).mono
    (fun _ s' h => h.1 ▸ sameTree_push env s frame) (fun _ _ _ => trivial)

lemma tracks_acceptBegin (id : NodeId) (hs : s.Fresh)
    (hbegins : { s with buffer := s.buffer ++ env.lexeme m }.Begins env) :
    Tracks env probes (fun env => acceptBegin env m id) s (fun _ s' => s'.Fresh) := by
  let sw := env.switches id
  let lexeme := env.lexeme m
  let frame : Frame := { node := id, delimiter := if sw.endSameAsBegin then some lexeme else none }
  refine Tracks.congr (x := fun env => put env lexeme sw.beginPlace >>= fun _ =>
    enter env frame m.start >>= fun _ => pure (if sw.returnBegin then 0 else m.stop - m.start)) ?_
    (fun _ => by rw [acceptBegin,takeBegin_eq_put]; rfl)
  refine (tracks_put hp lexeme sw.beginPlace hs hbegins).bind (fun _ s₁ hs₁ => ?_)
  exact (tracks_enter frame m.start hs₁).bind (fun _ s₂ hs₂ => tracks_pure _ hs₂)

omit hp in
lemma tracks_keepNext (position : Nat) (hs : s.Fresh) :
    Tracks env probes (fun env => keepNext env position) s (fun _ s' => s'.Fresh) := by
  refine tracks_sameTree hs (fun _ => rfl) (follows_keepNext (leads_none env) position) ?_
  rw [keepNext]
  split <;> exact ⟨rfl,rfl⟩

omit hp in
lemma tracks_keepLexeme (hs : s.Fresh) :
    Tracks env probes (fun env => keepLexeme env m) s (fun _ s' => s'.Fresh) :=
  tracks_sameTree hs (fun _ => rfl) (follows_keepLexeme (leads_none env) m) ⟨rfl,rfl⟩

omit hp in
lemma tracks_ignoreBegin (hs : s.Fresh) :
    Tracks env probes (fun env => ignoreBegin env m) s (fun _ s' => s'.Fresh) := by
  refine tracks_sameTree hs (fun _ => rfl) (follows_ignoreBegin (leads_none env) m) ?_
  rw [ignoreBegin,ensures_bind,ensures_get,keepNext]
  repeat' split
  all_goals exact ⟨rfl,rfl⟩

omit hp in
lemma tracks_reactToIllegal (hs : s.Fresh) :
    Tracks env probes (fun env => reactToIllegal env m) s (fun _ s' => s'.Fresh) := by
  refine tracks_sameTree hs (fun _ => rfl) (follows_reactToIllegal (leads_none env) m) ?_
  rw [reactToIllegal,keepNext]
  repeat' split
  all_goals first | exact ⟨rfl,rfl⟩ | trivial

lemma tracks_reactToBegin (id : NodeId) (hs : s.Fresh)
    (hbegins : { s with buffer := s.buffer ++ env.lexeme m }.Begins env) :
    Tracks env probes (fun env => reactToBegin env m id) s (fun _ s' => s'.Fresh) := by
  have hsame : ∀ e, verdict (env.embedding e) ((env.embedding e).node id) m =
      verdict env (env.node id) m := fun _ => rfl
  cases hverdict : verdict env (env.node id) m with
  | accept =>
    exact (tracks_acceptBegin hp id hs hbegins).congr (fun e => by rw [reactToBegin,hsame,hverdict])
  | ignore => exact (tracks_ignoreBegin hs).congr (fun e => by rw [reactToBegin,hsame,hverdict])
  | abort =>
    by_cases hempty : m.isEmpty
    · refine (tracks_keepNext m.start hs).congr (fun e => ?_)
      rw [reactToBegin,hsame,hverdict]
      simp only [hempty,if_true]
    · refine (tracks_keepLexeme (m := m) hs).congr (fun e => ?_)
      rw [reactToBegin,hsame,hverdict]
      simp only [hempty]
      rfl

omit hp in
/-- Closing modes and going on with the next embeds nothing. -/
lemma tracks_leave (closed : List Frame) (position : Nat) (hs : s.Fresh) :
    Tracks env probes (fun env => do
      closed.forM (leave env)
      if let some outermost := closed.getLast? then follow env outermost position) s
      (fun _ s' => s'.Fresh) := by
  refine tracks_sameTree hs (fun _ => rfl) ?_ ?_
  · refine (follows_forM (fun f _ => follows_leave (leads_none env) f)).bind (fun _ => ?_)
    cases closed.getLast? with
    | none => exact fun _ => rfl
    | some outermost => exact follows_follow (leads_none env) _ _
  · rw [ensures_bind]
    refine (forM_leave_ensures env closed).mono (fun _ s₁ h₁ => ?_) (fun _ _ _ => trivial)
    have hsame : s.SameTree s₁ := h₁ ▸ sameTree_foldl_pop env s closed
    cases closed.getLast? with
    | none => exact hsame
    | some outermost =>
      refine (follow_ensures env s₁ outermost position).mono (fun _ s₂ h₂ => ?_) (fun _ _ _ => trivial)
      rcases h₂ with rfl | ⟨frame,-,rfl,-⟩
      · exact hsame
      · exact hsame.trans (sameTree_push env s₁ frame)

lemma tracks_close (closed : List Frame) (hs : s.Fresh)
    (hbegins : { s with buffer := s.buffer ++ env.lexeme m }.Begins env) :
    Tracks env probes (fun env => close env m closed) s (fun _ s' => s'.Fresh) := by
  let sw := env.switches s.top
  let lexeme := env.lexeme m
  have hclose := (tracks_put hp lexeme sw.endPlace hs hbegins).bind (fun _ _ hs₁ =>
    (tracks_leave closed m.start hs₁).bind (fun _ _ hs₂ =>
      tracks_pure (if sw.returnEnd then 0 else m.stop - m.start) hs₂))
  refine hclose.congr (fun e => (run_bind_ok (x := (get : Action State)) rfl).trans ?_)
  simp only [takeEnd_eq_put,bind_assoc]
  cases closed.getLast? <;> rfl

lemma tracks_reactToEnd (hs : s.Fresh)
    (hbegins : { s with buffer := s.buffer ++ env.lexeme m }.Begins env) :
    Tracks env probes (fun env => reactToEnd env m) s (fun _ s' => s'.Fresh) := by
  have hclosing : ∀ e, closing (env.embedding e) m.start s.stack = closing env m.start s.stack := by
    intro e
    apply closing_eq <;> rfl
  refine Tracks.congr (x := fun env' => ofSearch (closing env m.start s.stack) >>= fun closed =>
    closed.elim (keepLexeme env' m) (close env' m)) (Tracks.bind (P := fun _ s' => s' = s) ?_ ?_)
    (fun e => by rw [run_reactToEnd,hclosing])
  · refine tracks_own (fun _ => rfl) (follows_ofSearch (leads_none env) _) ?_
    exact ensures_ofSearch (fun _ _ => ⟨rfl,id⟩) trivial
  · rintro (_ | closed) s' rfl
    · exact tracks_keepLexeme hs
    · exact tracks_close hp closed hs hbegins

/-- Lexemes are taken in before something is embedded. -/
lemma tracks_react (hs : s.Fresh) (hbegins : { s with buffer := s.buffer ++ env.lexeme m }.Begins env) :
    Tracks env probes (fun env => react env m) s (fun _ s' => s'.Fresh) := by
  by_cases hstalls : stalls s.last m
  · by_cases hsafe : env.safeMode
    · refine (tracks_keepNext m.start hs).congr (fun e => ?_)
      rw [run_react,if_pos hstalls,if_pos (show (env.embedding e).safeMode = true from hsafe)]
    · refine Tracks.congr (x := fun env => fail (.zeroWidthMatch (env.text.byteOffset m.start))) ?_
        (fun e => ?_)
      · exact tracks_own (fun _ => rfl) (follows_fail (leads_none env) _) trivial
      · rw [run_react,if_pos hstalls,if_neg (show ¬ (env.embedding e).safeMode = true from hsafe)]
  · cases hkind : m.kind with
    | begins k =>
      refine (tracks_reactToBegin (s := { s with last := some m }) hp k hs hbegins).of_run id (fun e => ?_)
      rw [run_react,if_neg hstalls,hkind]
      rfl
    | ends =>
      refine (tracks_reactToEnd (s := { s with last := some m }) hp hs hbegins).of_run id (fun e => ?_)
      rw [run_react,if_neg hstalls,hkind]
      rfl
    | illegal =>
      refine (tracks_reactToIllegal (s := { s with last := some m }) (m := m) hs).of_run id (fun e => ?_)
      rw [run_react,if_neg hstalls,hkind]
      rfl

/-- Between two steps, what has been taken in is the text before the cursor. -/
structure State.AtCursor (env : Env) (s : State) : Prop where
  fresh : s.Fresh
  taken : s.taken = env.text.slice 0 s.position

lemma tracks_finish (hs : s.AtCursor env) : Tracks env probes finish s (fun _ s' => s'.Fresh) := by
  refine (tracks_put hp (env.text.slice s.position env.text.size) .before hs.fresh ⟨"",?_⟩).congr
    (fun e => run_bind_ok (x := (get : Action State)) rfl)
  rw [String.append_empty,← env.text.slice_eq_toString,← env.text.slice_append_rest s.position,
    ← hs.taken,State.taken,State.taken,String.append_assoc]

/-- What a step does with the match that it has found. -/
def goOn (number : Nat) (found : Option RuleMatch) (env : Env) : Action Bool :=
  match found with
  | none => pure false
  | some m => do
    if isRunaway env number m.start then fail (.runawayLoop number (env.text.byteOffset m.start))
    let s ← get
    append (env.text.slice s.position m.start)
    let moved ← react env m
    modify fun s => { s with position := m.start + moved }
    return m.start + moved ≤ env.text.size

lemma tracks_step (number : Nat) (hs : s.AtCursor env) :
    Tracks env probes (fun env => step env number) s (fun _ s' => s'.Fresh) := by
  have hnext : Tracks env probes nextMatch s (fun found s' => s'.AtCursor env ∧
      ∀ m, found = some m → m.Within env.text s'.position) := by
    refine tracks_own (fun _ => rfl) (follows_nextMatch (leads_none env)) ?_
    refine (nextMatch_ensures env s).mono (fun found s' h => ?_) (fun _ _ _ => trivial)
    obtain ⟨⟨resumeAt,rfl⟩,first,hexec⟩ := h
    exact ⟨⟨⟨hs.fresh,hs.taken⟩,fun m hm => RuleSet.exec_within (hm ▸ hexec)⟩,id⟩
  refine (hnext.bind (f := goOn number) (fun found s' hs' => ?_)).congr (fun _ => rfl)
  obtain ⟨hs',hm⟩ := hs'
  cases found with
  | none => exact tracks_pure false hs'.fresh
  | some m =>
    obtain ⟨h1,h2,h3⟩ := hm m rfl
    by_cases hrunaway : isRunaway env number m.start
    · refine Tracks.congr (x := fun env => fail (.runawayLoop number (env.text.byteOffset m.start))) ?_
        (fun e => ?_)
      · exact tracks_own (fun _ => rfl) (follows_fail (leads_none env) _) trivial
      · simp only [goOn]
        rw [if_pos (show isRunaway (env.embedding e) number m.start = true from hrunaway)]
        rfl
    · have hmoves : ∀ moved s₂, State.Fresh s₂ → Tracks env probes (fun env : Env => do
          modify fun s => { s with position := m.start + moved }
          return decide (m.start + moved ≤ env.text.size)) s₂ (fun _ s' => s'.Fresh) := fun _ _ hs₂ =>
        tracks_sameTree hs₂ (fun _ => rfl) (fun _ => rfl) ⟨rfl,rfl⟩
      let s₁ : State := { s' with buffer := s'.buffer ++ env.text.slice s'.position m.start }
      have hbegins : { s₁ with buffer := s₁.buffer ++ env.lexeme m }.Begins env := by
        refine ⟨env.text.slice m.stop env.text.size,?_⟩
        calc s'.tree.text ++ (s'.buffer ++ env.text.slice s'.position m.start ++
              env.text.slice m.start m.stop) ++ env.text.slice m.stop env.text.size
          _ = s'.taken ++ (env.text.slice s'.position m.start ++ env.text.slice m.start m.stop ++
              env.text.slice m.stop env.text.size) := by
            simp only [State.taken,String.append_assoc]
          _ = env.text.toString := by
            rw [hs'.taken,env.text.slice_append h1 h2,env.text.slice_append (Nat.le_trans h1 h2) h3,
              env.text.slice_append_rest,env.text.slice_eq_toString]
      refine ((tracks_react (s := s₁) hp hs'.fresh hbegins).bind
        (fun moved s₂ hs₂ => hmoves moved s₂ hs₂)).of_run id (fun e => ?_)
      simp only [goOn]
      rw [if_neg (show ¬ isRunaway (env.embedding e) number m.start = true from hrunaway)]
      rfl

lemma tracks_steps (ht : env.table.HandsBackOnce) (n number : Nat) (hs : s.AtCursor env)
    (hposition : s.position ≤ env.text.size) :
    Tracks env probes (fun env => ExceptT.mk (steps env n number)) s (fun _ s' => s'.Fresh) := by
  induction n generalizing number s with
  | zero => exact tracks_finish hp hs
  | succ n ih =>
    simp only [steps_succ]
    refine Tracks.bind (P := fun goesOn s' => s'.AtCursor env ∧
      (goesOn = true → s'.position ≤ env.text.size)) ?_ (fun goesOn s' hs' => ?_)
    · refine ensures_of_run (fun goesOn s' hx => ?_) (fun halt s' hx => (tracks_step hp number hs).error hx)
      obtain ⟨hfresh,hprobes⟩ := (tracks_step hp number hs).ok hx
      have hadvances := (step_ensures env number s hposition).ok hx
      refine ⟨⟨⟨hfresh,hadvances.taken hp.faithful ht hs.taken⟩,fun hgoes => ?_⟩,hprobes⟩
      exact hadvances.in_text.resolve_right (fun h => by rw [hgoes] at h; cases h.2)
    · cases goesOn with
      | true => exact ih (number + 1) hs'.1 (hs'.2 rfl)
      | false => exact tracks_finish hp hs'.1

/-- Where a scan is cut short, one of its probes is. -/
theorem exists_probe_cutShort (ht : env.table.HandsBackOnce) {c : Option Continuation} {keys : List String}
    (h : (run env (.opened env.table c keys)).1 = .error .tooDeep) :
    ∃ e, probes e ∧ (run (env.embedding e) (.opened env.table c keys)).1 = .error .tooDeep := by
  have hposition := opened_position env.table c keys
  have hfresh : (State.opened env.table c keys).Fresh := by
    obtain ⟨stack,hopened,-⟩ := exists_opened_eq env.table c keys
    rw [hopened]
    exact fun _ => rfl
  have hopened : (State.opened env.table c keys).AtCursor env :=
    ⟨hfresh,by rw [hposition,opened_taken,Source.slice_self]⟩
  have htracks := tracks_steps hp ht (stepLimit env) 1 hopened (hposition ▸ Nat.zero_le _)
  rcases hrun : run env (.opened env.table c keys) with ⟨outcome,s⟩
  rw [hrun] at h
  obtain rfl : outcome = .error .tooDeep := h
  exact (htracks.error hrun rfl).2

end Highlight.Scan
