import Highlight.Proofs.Scan.Cursor
import Highlight.Proofs.Scan.Ignored

/-!
Steps in which nothing goes wrong. Where it is known what the next search finds and what flushing the
buffer comes to, a step that opens or closes modes leads to one state.
-/
namespace Highlight.Scan

open Rules Highlight.Scan.Action
open Highlight.Tree (Builder)

variable {env : Env} {s : State} {m : RuleMatch} {number : Nat} {id : NodeId} {buffer : String}
variable {f : Builder → Builder} {g : Nat → Nat}

/-- An action gives a value, and ends as `Q` says. -/
def Action.Succeeds {α : Type} (x : Action α) (s : State) (Q : α → State → Prop) : Prop :=
  x.Ensures s Q (fun _ _ => False)

lemma Action.Succeeds.exists_run {α : Type} {x : Action α} {Q : α → State → Prop} (h : x.Succeeds s Q) :
    ∃ a s', x.run s = (.ok a,s') ∧ Q a s' := by
  rcases hrun : x.run s with ⟨halt | a,s'⟩
  · exact (h.error hrun).elim
  · exact ⟨a,s',rfl,h.ok hrun⟩

/-- Flushing a buffer of a mode changes the tree by `f` and the relevance by `g`. -/
def Env.Flushes (env : Env) (id : NodeId) (buffer : String) (f : Builder → Builder) (g : Nat → Nat) :
    Prop :=
  ∀ s : State, s.top = id → s.buffer = buffer → (flush env).Succeeds s
    (fun _ s' => s' = { s with tree := f s.tree, relevance := g s.relevance, buffer := "" })

/-- A mode without keywords puts its text into the tree as it is. -/
lemma flushes_text (hkeywords : (env.node id).keywords = none) (hsub : (env.node id).subLanguage = none)
    (buffer : String) : env.Flushes id buffer (·.addText buffer) (fun n => n) := by
  rintro s rfl rfl
  rw [Succeeds,Ensures,run_flush,hsub,flushKeywords,hkeywords]
  rfl

/-- A search that is known to succeed changes only where the next one may start. -/
lemma nextMatch_succeeds {found : Option RuleMatch}
    (hexec : (s.ruleSet env).exec env.text s.position s.firstRule = .ok found) :
    (nextMatch env).Succeeds s
      (fun found' s' => found' = found ∧ ∃ resumeAt, s' = { s with resumeAt, stays := false }) := by
  refine ensures_of_run (fun found' s' hrun => ?_) (fun halt s' hrun => ?_)
  · have hfound := ((nextMatch_searches env s).ok hrun).1
    rw [hexec] at hfound
    exact ⟨(Except.ok.inj hfound).symm,((nextMatch_ensures env s).ok hrun).1⟩
  · obtain ⟨fault,-,hfails⟩ := (nextMatch_searches env s).error hrun
    rw [hexec] at hfails
    cases hfails

/-- The step in which nothing more is found. -/
lemma step_finds_nothing (hexec : (s.ruleSet env).exec env.text s.position s.firstRule = .ok none) :
    (step env number).Succeeds s
      (fun goesOn s' => goesOn = false ∧ ∃ resumeAt, s' = { s with resumeAt, stays := false }) := by
  rw [Succeeds,step,ensures_bind]
  refine (nextMatch_succeeds hexec).mono (fun found s₁ h₁ => ?_) (fun _ _ => False.elim)
  obtain ⟨rfl,hs₁⟩ := h₁
  exact ⟨rfl,hs₁⟩

/-- The step in which a search fails. -/
lemma exists_step_fails {fault : Fault}
    (hexec : (s.ruleSet env).exec env.text s.position s.firstRule = .error fault) :
    ∃ s', (step env number).run s = (.error (.fault fault),s') := by
  have hsearches := nextMatch_searches env s
  rcases hrun : (nextMatch env).run s with ⟨halt | found,s'⟩
  · obtain ⟨fault',rfl,hfails⟩ := hsearches.error hrun
    rw [hexec] at hfails
    obtain rfl := Except.error.inj hfails
    exact ⟨_,Prod.ext (run_bind_error (congrArg Prod.fst hrun)) rfl⟩
  · have hfound := (hsearches.ok hrun).1
    rw [hexec] at hfound
    cases hfound

/-- What a step does is what the reaction to its match does. -/
lemma step_reacts (hexec : (s.ruleSet env).exec env.text s.position s.firstRule = .ok (some m))
    (hrun : isRunaway env number m.start = false) {Q : Nat → State → Prop}
    (hreact : ∀ resumeAt, (react env m).Succeeds { s with
      buffer := s.buffer ++ env.text.slice s.position m.start, resumeAt, stays := false } Q) :
    (step env number).Succeeds s (fun goesOn s' => ∃ moved s₁, Q moved s₁ ∧
      goesOn = decide (m.start + moved ≤ env.text.size) ∧ s' = { s₁ with position := m.start + moved }) := by
  rw [Succeeds,step,ensures_bind]
  refine (nextMatch_succeeds hexec).mono (fun found s₁ h₁ => ?_) (fun _ _ => False.elim)
  obtain ⟨rfl,resumeAt,rfl⟩ := h₁
  dsimp only
  rw [hrun,if_neg Bool.false_ne_true,ensures_bind,ensures_get,ensures_bind,ensures_append,
    ensures_bind]
  exact (hreact resumeAt).mono (fun moved s₂ h₂ => ⟨moved,s₂,h₂,rfl,rfl⟩) (fun _ _ => False.elim)

/-- Switches of a mode that keeps the lexeme of its begin, and has an end of its own. -/
structure PlainBegin (sw : Switches Bool) : Prop where
  skip : sw.skip = false
  excludeBegin : sw.excludeBegin = false
  returnBegin : sw.returnBegin = false
  endSameAsBegin : sw.endSameAsBegin = false

/-- The step in which a mode opens. -/
lemma step_begins (hexec : (s.ruleSet env).exec env.text s.position s.firstRule = .ok (some m))
    (hkind : m.kind = .begins id) (hguard : (env.node id).beginGuard = none)
    (hsw : PlainBegin (env.switches id)) (hlen : s.stack.length ≤ maxOpenModes)
    (hrun : isRunaway env number m.start = false)
    (hflush : env.Flushes s.top (s.buffer ++ env.text.slice s.position m.start) f g) :
    (step env number).Succeeds s (fun goesOn s' => goesOn = true ∧ ∃ resumeAt, s' = { s with
      stack := { node := id } :: s.stack, tree := openMode env.table { node := id } (f s.tree)
      relevance := g s.relevance, buffer := env.lexeme m, last := some m, position := m.stop
      resumeAt, stays := false }) := by
  obtain ⟨h1,h2,h3⟩ := RuleSet.exec_within hexec
  refine (step_reacts hexec hrun (Q := fun moved s' => moved = m.stop - m.start ∧ ∃ resumeAt, s' = { s with
      stack := { node := id } :: s.stack, tree := openMode env.table { node := id } (f s.tree)
      relevance := g s.relevance, buffer := env.lexeme m, last := some m
      resumeAt, stays := false }) (fun resumeAt => ?_)).mono ?_ (fun _ _ => False.elim)
  · have hstalls : ∀ last, stalls last m = false := by
      rintro (_ | last)
      · rfl
      · simp [stalls,hkind]
    have haccept : verdict env (env.node id) m = .accept := by rw [verdict,hguard]
    rw [Succeeds,react,ensures_bind,ensures_get,hstalls,if_neg Bool.false_ne_true,ensures_bind,
      ensures_modify,hkind]
    dsimp only
    rw [reactToBegin,haccept]
    dsimp only
    rw [acceptBegin,takeBegin,hsw.skip,hsw.excludeBegin,hsw.returnBegin,hsw.endSameAsBegin]
    simp only [Bool.false_eq_true,if_false,Bool.not_false,Bool.and_self,if_true,bind_assoc]
    have hflush := hflush { s with
      buffer := s.buffer ++ env.text.slice s.position m.start, last := some m, resumeAt, stays := false } rfl rfl
    rw [ensures_bind]
    refine hflush.mono (fun _ s₁ h₁ => ?_) (fun _ _ => False.elim)
    rw [h₁,ensures_bind,ensures_setBuffer,ensures_bind]
    rw [enter,ensures_bind,ensures_get]
    rw [if_neg (Nat.not_lt.mpr hlen),ensures_bind,ensures_changeTree,ensures_modify,ensures_pure]
    exact ⟨rfl,resumeAt,rfl⟩
  · rintro goesOn s' ⟨moved,s₁,⟨rfl,resumeAt,rfl⟩,rfl,rfl⟩
    rw [Nat.add_sub_cancel' h2]
    exact ⟨decide_eq_true h3,resumeAt,rfl⟩

/-- The lexeme of an end goes into the closed mode, unless it leaves it out. -/
lemma takeEnd_succeeds {sw : Switches Bool} {lexeme : String} (hskip : sw.skip = false)
    (hreturn : sw.returnEnd = false)
    (hflush : env.Flushes s.top (s.buffer ++ if sw.excludeEnd then "" else lexeme) f g) :
    (takeEnd env sw lexeme).Succeeds s (fun _ s' => s' = { s with
      tree := f s.tree, relevance := g s.relevance, buffer := if sw.excludeEnd then lexeme else "" }) := by
  rw [takeEnd,hskip,hreturn]
  cases hexclude : sw.excludeEnd with
  | true =>
    rw [hexclude,if_pos rfl,String.append_empty] at hflush
    simp only [Bool.false_eq_true,if_false,Bool.or_true,Bool.not_true,if_true]
    rw [Succeeds,ensures_bind]
    refine (hflush s rfl rfl).mono (fun _ s₁ h₁ => ?_) (fun _ _ => False.elim)
    rw [h₁]
    rfl
  | false =>
    rw [hexclude,if_neg Bool.false_ne_true] at hflush
    simp only [Bool.false_eq_true,if_false,Bool.or_false,Bool.not_false,if_true]
    rw [Succeeds,ensures_bind,ensures_append,ensures_bind]
    exact hflush _ rfl rfl

/-- The step in which modes close, after which nothing follows. What is left in the buffer is the lexeme
if the innermost mode leaves it out. -/
lemma step_ends (hexec : (s.ruleSet env).exec env.text s.position s.firstRule = .ok (some m))
    (hkind : m.kind = .ends) (hstalls : stalls s.last m = false) {closed : List Frame} {outermost : Frame}
    (hclosing : closing env m.start s.stack = .ok (some closed)) (hlast : closed.getLast? = some outermost)
    (hstarts : (env.node outermost.node).starts = none) (hskip : (env.switches s.top).skip = false)
    (hreturn : (env.switches s.top).returnEnd = false) (hrun : isRunaway env number m.start = false)
    (hflush : env.Flushes s.top (s.buffer ++ env.text.slice s.position m.start ++
      if (env.switches s.top).excludeEnd then "" else env.lexeme m) f g) :
    (step env number).Succeeds s (fun goesOn s' => goesOn = true ∧ ∃ resumeAt, s' =
      { closed.foldl (fun s f => s.pop env f) { s with
          tree := f s.tree, relevance := g s.relevance
          buffer := if (env.switches s.top).excludeEnd then env.lexeme m else ""
          last := some m, resumeAt, stays := false } with position := m.stop }) := by
  obtain ⟨h1,h2,h3⟩ := RuleSet.exec_within hexec
  refine (step_reacts hexec hrun (Q := fun moved s' => moved = m.stop - m.start ∧ ∃ resumeAt, s' =
      closed.foldl (fun s f => s.pop env f) { s with
          tree := f s.tree, relevance := g s.relevance
          buffer := if (env.switches s.top).excludeEnd then env.lexeme m else ""
          last := some m, resumeAt, stays := false }) (fun resumeAt => ?_)).mono ?_ (fun _ _ => False.elim)
  · rw [Succeeds,react,ensures_bind,ensures_get,hstalls,if_neg Bool.false_ne_true,ensures_bind,
      ensures_modify,hkind]
    dsimp only
    rw [reactToEnd,ensures_bind,ensures_get,hclosing,ensures_bind]
    change (close env m closed).Ensures _ _ _
    have hfollow : ∀ s' : State, (follow env outermost m.start).Ensures s' (fun _ s'' => s'' = s')
        (fun _ _ => False) := by
      intro s'
      rw [follow,hstarts]
      rfl
    rw [close,ensures_bind,ensures_get,ensures_bind]
    refine Ensures.mono (Q := fun _ s' => s' = { s with
      tree := f s.tree, relevance := g s.relevance
      buffer := if (env.switches s.top).excludeEnd then env.lexeme m else ""
      last := some m, resumeAt, stays := false }) ?_ (fun _ s₁ h₁ => ?_) (fun _ _ => False.elim)
    · exact takeEnd_succeeds hskip hreturn hflush
    · rw [h₁,ensures_bind]
      refine (forM_leave_ensures env closed).mono (fun _ s₂ h₂ => ?_) (fun _ _ => False.elim)
      rw [hlast]
      dsimp only
      rw [ensures_bind]
      refine (hfollow s₂).mono (fun _ s₃ h₃ => ?_) (fun _ _ => False.elim)
      rw [h₃,h₂,ensures_pure]
      exact ⟨congrArg (if · = true then 0 else m.stop - m.start) hreturn,resumeAt,rfl⟩
  · rintro goesOn s' ⟨moved,s₁,⟨rfl,resumeAt,rfl⟩,rfl,rfl⟩
    rw [Nat.add_sub_cancel' h2]
    exact ⟨decide_eq_true h3,resumeAt,rfl⟩

section Course

variable {s₀ : State} {spare spare' start : Nat} {P : State → Prop}

/-- A scan comes to a state in at most two steps for each character, less some steps to spare. -/
def ComesTo (env : Env) (s₀ : State) (spare : Nat) (s : State) : Prop :=
  s.stays = false ∧ ∃ n, After env s₀ n s ∧ n + spare ≤ 2 * s.position

lemma comesTo_start (h : s₀.stays = false) (hspare : spare ≤ 2 * s₀.position) : ComesTo env s₀ spare s₀ :=
  ⟨h,0,.start,by omega⟩

/-- A scan that takes so few steps does not run away. -/
lemma isRunaway_eq_false {n position : Nat} (hn : n ≤ 2 * position) (h : position ≤ start) :
    isRunaway env (n + 1) start = false := by
  have hfree : freeSteps = 100000 := rfl
  simp only [isRunaway,Bool.and_eq_false_iff,decide_eq_false_iff_not]
  omega

/-- A step that is known to succeed is one that the scan takes. -/
lemma ComesTo.step (h : ComesTo env s₀ spare s) (hstart : s.position ≤ start)
    (hstep : ∀ number, isRunaway env number start = false → (Scan.step env number).Succeeds s
      (fun goesOn s' => goesOn = true ∧ P s'))
    (hspare : ∀ s', P s' → s'.stays = false ∧ spare' + 2 * s.position + 1 ≤ spare + 2 * s'.position) :
    ∃ s', ComesTo env s₀ spare' s' ∧ P s' := by
  obtain ⟨-,n,hafter,hn⟩ := h
  obtain ⟨goesOn,s',hrun,rfl,hP⟩ := (hstep (n + 1) (isRunaway_eq_false (by omega) hstart)).exists_run
  obtain ⟨hstays,hle⟩ := hspare s' hP
  exact ⟨s',⟨hstays,n + 1,.step hafter hrun,by omega⟩,hP⟩

/-- A run ends where nothing more is found. -/
lemma ComesTo.run_eq (h : ComesTo env s₀ spare s) (h₀ : s₀.position ≤ env.text.size)
    (hexec : (s.ruleSet env).exec env.text s.position s.firstRule = .ok none) :
    ∃ resumeAt, run env s₀ = (finish env).run { s with resumeAt, stays := false } := by
  obtain ⟨-,n,hafter,-⟩ := h
  obtain ⟨goesOn,s',hrun,rfl,resumeAt,rfl⟩ := (@step_finds_nothing env s (n + 1) hexec).exists_run
  exact ⟨resumeAt,(EndsAfter.finished hafter hrun).run_eq h₀⟩

/-- A run fails where a search does. -/
lemma ComesTo.exists_run_eq_fault (h : ComesTo env s₀ spare s) (h₀ : s₀.position ≤ env.text.size) {fault : Fault}
    (hexec : (s.ruleSet env).exec env.text s.position s.firstRule = .error fault) :
    ∃ s', run env s₀ = (.error (.fault fault),s') := by
  obtain ⟨-,n,hafter,-⟩ := h
  obtain ⟨s',hrun⟩ := @exists_step_fails env s (n + 1) fault hexec
  exact ⟨s',(EndsAfter.halted hafter hrun).run_eq h₀⟩

/-- Taking in what follows the last match. -/
lemma finish_succeeds (hflush : env.Flushes s.top (s.buffer ++ env.text.slice s.position env.text.size) f g) :
    (finish env).Succeeds s (fun _ s' => s' =
      { s with tree := f s.tree, relevance := g s.relevance, buffer := "" }) := by
  rw [finish,Succeeds,ensures_bind,ensures_get,ensures_bind,ensures_append]
  exact hflush _ rfl rfl

end Course

end Highlight.Scan
