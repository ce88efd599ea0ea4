import Highlight.Proofs.Scan.Growth
import Highlight.Proofs.Scan.Ignored
import Highlight.Proofs.Scan.Moves
import Highlight.Proofs.Tree.Scopes

/-!
All that a step of a scan can do: it opens a mode, closes modes, keeps text as it is, or leaves an ignored
begin to the rules after it. A mode that opens or closes has one of four places for the lexeme. What a
scan keeps to, a proof shows case by case.
-/
namespace Highlight

namespace Scan

open Rules Highlight.Scan.Action

variable {env : Env} {s s' s₁ : State} {m : RuleMatch} {number moved : Nat}

section Places

/-- What putting a lexeme in its place does: nothing but filling the innermost open scope of the tree and
the buffer. -/
structure Puts (env : Env) (s : State) (lexeme : String) (place : Place) (s' : State) : Prop where
  keeps : s.Keeps s'
  enclosing : s'.tree.enclosing = s.tree.enclosing
  buffer : s'.buffer = place.left s.buffer lexeme
  text : s.GivesBack env → s'.tree.text = s.tree.text ++ place.flushed s.buffer lexeme

lemma growing_enclosing (enclosing : List (String × List Tree)) :
    Tree.Builder.Growing (fun _ => True) (fun b => b.enclosing = enclosing) where
  addText text h := (Tree.Builder.enclosing_addText _ text).trans h
  addKeyword text kind h := (Tree.Builder.enclosing_addKeyword _ text kind).trans h
  addEmbedded _ _ h := h

lemma flush_puts (env : Env) (s : State) :
    (flush env).Ensures s (fun _ s' => ∀ lexeme, Puts env s lexeme .nowhere s') (fun _ _ => True) := by
  have henclosing := flush_preserves (growing_enclosing s.tree.enclosing) env.bears_trivial s
    ⟨rfl,fun _ _ => trivial⟩
  refine ((flush_ensures env s).and henclosing).mono (fun _ s' h lexeme => ?_) (fun _ _ _ => trivial)
  obtain ⟨⟨hkeeps,hbuffer,htext⟩,hbears⟩ := h
  exact ⟨hkeeps,hbears.tree,hbuffer,htext⟩

lemma put_puts (env : Env) (s : State) (lexeme : String) (place : Place) :
    (put env lexeme place).Ensures s (fun _ s' => Puts env s lexeme place s') (fun _ _ => True) := by
  cases place with
  | within => exact ⟨s.keeps_buffer _,rfl,rfl,fun _ => (String.append_empty).symm⟩
  | before =>
    rw [put,ensures_bind,ensures_append]
    refine (flush_puts env _).mono (fun _ s' h => ?_) (fun _ _ h => h)
    obtain ⟨hkeeps,henclosing,hbuffer,htext⟩ := h lexeme
    exact ⟨(s.keeps_buffer _).trans hkeeps,henclosing,hbuffer,htext⟩
  | after =>
    rw [put,ensures_bind]
    refine (flush_puts env s).mono (fun _ s' h => ?_) (fun _ _ h => h)
    obtain ⟨hkeeps,henclosing,-,htext⟩ := h lexeme
    exact ⟨hkeeps.trans (s'.keeps_buffer _),henclosing,rfl,htext⟩
  | nowhere => exact (flush_puts env s).mono (fun _ s' h => h lexeme) (fun _ _ h => h)

/-- The text in the tree and the buffer grows by what is kept of the lexeme. -/
lemma Puts.taken {lexeme : String} {place : Place} (h : Puts env s lexeme place s') (hf : s.GivesBack env) :
    s'.taken = s.taken ++ place.kept lexeme := by
  rw [State.taken,h.text hf,h.buffer,String.append_assoc,Place.flushed_append_left,State.taken,
    String.append_assoc]

end Places

section Reactions

/-- The mode that a begin match opens. -/
def beginFrame (env : Env) (m : RuleMatch) (id : NodeId) : Frame :=
  { node := id, delimiter := if (env.switches id).endSameAsBegin then some (env.lexeme m) else none }

/-- The mode that follows closed ones. -/
def nextFrame? (env : Env) (closed : List Frame) : Option Frame := do
  let f ← closed.getLast?
  let next ← (env.node f.node).starts
  return { node := next, delimiter := if (env.switches f.node).endSameAsBegin then f.delimiter else none }

/-- Close modes, and go on with the mode that follows. -/
def State.close (env : Env) (closed : List Frame) (s : State) : State :=
  let s := closed.foldl (fun s f => s.pop env f) s
  (nextFrame? env closed).elim s (s.push env)

/-- Why a match is kept as text, with the number of characters that are. -/
inductive IsKept (env : Env) (m : RuleMatch) (s : State) : Nat → Prop where
  /-- The last begin is ignored. -/
  | ignored {id : NodeId} (hkind : m.kind = .begins id) (hverdict : verdict env (env.node id) m = .ignore)
      (hlast : s.resumeAt = 0) : IsKept env m s 1
  | aborted {id : NodeId} (hkind : m.kind = .begins id) (hverdict : verdict env (env.node id) m = .abort) :
      IsKept env m s (if m.isEmpty then 1 else m.stop - m.start)
  /-- An end closes nothing. -/
  | unclosing (hkind : m.kind = .ends) (hstalls : stalls s.last m = false)
      (hclosing : closing env m.start s.stack = .ok none) : IsKept env m s (m.stop - m.start)
  /-- What is illegal is empty or let through. -/
  | tolerated (hkind : m.kind = .illegal) (h : m.isEmpty = true ∨ env.tolerant = true) :
      IsKept env m s (if m.isEmpty then 1 else m.stop - m.start)

/-- What the reaction to a match does, where the cursor moves by so much from the start of the match. -/
inductive Reaction (env : Env) (m : RuleMatch) (s : State) : Nat → State → Prop where
  | opens {id : NodeId} {s₁ : State} (hkind : m.kind = .begins id)
      (hverdict : verdict env (env.node id) m = .accept) (hroom : s.stack.length ≤ maxOpenModes)
      (hput : (put env (env.lexeme m) (env.switches id).beginPlace).run { s with last := some m } = (.ok (),s₁)) :
      Reaction env m s (if (env.switches id).returnBegin then 0 else m.stop - m.start)
        (s₁.push env (beginFrame env m id))
  | closes {closed : List Frame} {s₁ : State} (hkind : m.kind = .ends) (hstalls : stalls s.last m = false)
      (hclosing : closing env m.start s.stack = .ok (some closed))
      (hput : (put env (env.lexeme m) (env.switches s.top).endPlace).run { s with last := some m } =
        (.ok (),s₁)) :
      Reaction env m s (if (env.switches s.top).returnEnd then 0 else m.stop - m.start) (s₁.close env closed)
  | keeps {moved : Nat} (h : IsKept env m s moved) :
      Reaction env m s moved
        { s with last := some m, buffer := s.buffer ++ env.text.slice m.start (m.start + moved) }
  /-- An ignored begin is left to the rules after it. -/
  | leaves {id : NodeId} (hkind : m.kind = .begins id) (hverdict : verdict env (env.node id) m = .ignore)
      (hresume : s.resumeAt ≠ 0) : Reaction env m s 0 { s with last := some m, stays := true }
  /-- An empty mode that would close at once is left open for a character. -/
  | steps (hstalls : stalls s.last m = true) (hsafe : env.safeMode = true) :
      Reaction env m s 1 { s with buffer := s.buffer ++ env.text.slice m.start (m.start + 1) }

lemma keepLexeme_keeps (hm : m.start ≤ m.stop) {Q : Nat → State → Prop} {H : Halt → State → Prop}
    (h : Q (m.stop - m.start)
      { s with buffer := s.buffer ++ env.text.slice m.start (m.start + (m.stop - m.start)) }) :
    (keepLexeme env m).Ensures s Q H := by
  rw [Nat.add_sub_cancel' hm] at h
  rw [keepLexeme,ensures_bind,ensures_append,ensures_pure]
  exact h

lemma keepNext_keeps (position : Nat) {Q : Nat → State → Prop} {H : Halt → State → Prop}
    (h : Q 1 { s with buffer := s.buffer ++ env.text.slice position (position + 1) }) :
    (keepNext env position).Ensures s Q H := by
  rw [keepNext]
  cases hc : env.text.charAt? position with
  | none =>
    rw [env.text.slice_of_size_le _ (Array.getElem?_eq_none_iff.mp hc),String.append_empty] at h
    exact h
  | some c =>
    rw [env.text.slice_succ_of_charAt? hc] at h
    exact h

lemma acceptBegin_cases {id : NodeId} {Q : Nat → State → Prop}
    (h : ∀ s₁, (put env (env.lexeme m) (env.switches id).beginPlace).run s = (.ok (),s₁) →
      s₁.stack.length ≤ maxOpenModes →
      Q (if (env.switches id).returnBegin then 0 else m.stop - m.start) (s₁.push env (beginFrame env m id))) :
    (acceptBegin env m id).Ensures s Q (fun _ _ => True) := by
  rw [acceptBegin,takeBegin_eq_put,ensures_bind]
  refine ensures_of_run (fun _ s₁ hput => ?_) (fun _ _ _ => trivial)
  rw [ensures_bind]
  refine (enter_ensures env _ m.start).mono (fun _ s₂ h₂ => ?_) (fun _ _ _ => trivial)
  obtain ⟨rfl,hroom⟩ := h₂
  exact h s₁ hput hroom

lemma follow_cases {closed : List Frame} {f : Frame} (hlast : closed.getLast? = some f) (position : Nat) :
    (follow env f position).Ensures s (fun _ s' => s' = (nextFrame? env closed).elim s (s.push env))
      (fun _ _ => True) := by
  rw [follow]
  cases hstarts : (env.node f.node).starts with
  | none =>
    have hnext : nextFrame? env closed = none := by simp [nextFrame?,hlast,hstarts]
    rw [hnext]
    exact rfl
  | some next =>
    refine (enter_ensures env _ position).mono (fun _ s' h => ?_) (fun _ _ _ => trivial)
    rw [h.1,nextFrame?,hlast]
    simp [hstarts]

lemma close_cases {closed : List Frame} {Q : Nat → State → Prop}
    (h : ∀ s₁, (put env (env.lexeme m) (env.switches s.top).endPlace).run s = (.ok (),s₁) →
      Q (if (env.switches s.top).returnEnd then 0 else m.stop - m.start) (s₁.close env closed)) :
    (close env m closed).Ensures s Q (fun _ _ => True) := by
  rw [close,ensures_bind,ensures_get]
  dsimp only
  rw [takeEnd_eq_put,ensures_bind]
  refine ensures_of_run (fun _ s₁ hput => ?_) (fun _ _ _ => trivial)
  have h := h s₁ hput
  rw [ensures_bind]
  refine (forM_leave_ensures env closed).mono (fun _ s₂ h₂ => ?_) (fun _ _ => False.elim)
  subst h₂
  cases hlast : closed.getLast? with
  | none =>
    have hnext : nextFrame? env closed = none := by simp [nextFrame?,hlast]
    rw [State.close,hnext] at h
    exact h
  | some outermost =>
    dsimp only
    rw [ensures_bind]
    refine (follow_cases hlast m.start).mono (fun _ s₃ h₃ => ?_) (fun _ _ _ => trivial)
    subst h₃
    exact h

/-- A reaction that gives how far the cursor moves is one of these. -/
theorem react_cases (env : Env) (s : State) (hm : m.start ≤ m.stop) :
    (react env m).Ensures s (Reaction env m s) (fun _ _ => True) := by
  rw [react,ensures_bind,ensures_get]
  cases hstalls : stalls s.last m with
  | true =>
    rw [if_pos rfl]
    cases hsafe : env.safeMode with
    | true => exact keepNext_keeps m.start (.steps hstalls hsafe)
    | false => exact trivial
  | false =>
    rw [if_neg Bool.false_ne_true,ensures_bind,ensures_modify]
    cases hkind : m.kind with
    | begins id =>
      dsimp only
      rw [reactToBegin]
      cases hverdict : verdict env (env.node id) m with
      | accept =>
        refine acceptBegin_cases (fun s₁ hput hroom => .opens hkind hverdict ?_ hput)
        exact ((put_puts env _ _ _).ok hput).keeps.stack ▸ hroom
      | ignore =>
        dsimp only
        rw [ignoreBegin,ensures_bind,ensures_get]
        split
        · exact keepNext_keeps m.start (.keeps (.ignored hkind hverdict ‹_›))
        · exact .leaves hkind hverdict ‹_›
      | abort =>
        have hkept := IsKept.aborted (s := s) hkind hverdict
        dsimp only
        split
        · rw [if_pos ‹_›] at hkept
          exact keepNext_keeps m.start (.keeps hkept)
        · rw [if_neg ‹_›] at hkept
          exact keepLexeme_keeps hm (.keeps hkept)
    | ends =>
      dsimp only
      rw [reactToEnd,ensures_bind,ensures_get,ensures_bind]
      refine ensures_ofSearch (fun closed hclosing => ?_) trivial
      cases closed with
      | none => exact keepLexeme_keeps hm (.keeps (.unclosing hkind hstalls hclosing))
      | some closed => exact close_cases (fun s₁ hput => .closes hkind hstalls hclosing hput)
    | illegal =>
      dsimp only
      rw [reactToIllegal]
      split
      · rename_i hempty
        have hkept : IsKept env m s _ := .tolerated hkind (.inl hempty)
        rw [if_pos hempty] at hkept
        exact keepNext_keeps m.start (.keeps hkept)
      · split
        · rename_i hempty htolerant
          have hkept : IsKept env m s _ := .tolerated hkind (.inr htolerant)
          rw [if_neg hempty] at hkept
          exact keepLexeme_keeps hm (.keeps hkept)
        · exact trivial

end Reactions

section Steps

/-- The state in which a scan reacts to a match: the text before the match is in the buffer. -/
def State.atMatch (env : Env) (m : RuleMatch) (s : State) : State :=
  { s with
    resumeAt := if m.isBegin then (s.ruleSet env).resumeAfter m.index else s.firstRule
    stays := false
    buffer := s.buffer ++ env.text.slice s.position m.start }

lemma atMatch_taken (env : Env) (m : RuleMatch) (s : State) :
    (s.atMatch env m).taken = s.taken ++ env.text.slice s.position m.start := by
  simp [State.taken,State.atMatch,String.append_assoc]

/-- What a step does that gives whether the scan goes on. -/
inductive Stepped (env : Env) (number : Nat) (s : State) : Bool → State → Prop where
  | finds {m : RuleMatch} {moved : Nat} {s' : State}
      (hexec : (s.ruleSet env).exec env.text s.position s.firstRule = .ok (some m))
      (hfew : ¬ isRunaway env number m.start) (hreact : Reaction env m (s.atMatch env m) moved s') :
      Stepped env number s (decide (m.start + moved ≤ env.text.size)) { s' with position := m.start + moved }
  | ends (hexec : (s.ruleSet env).exec env.text s.position s.firstRule = .ok none) :
      Stepped env number s false { s with resumeAt := s.firstRule, stays := false }

/-- A step moves the cursor to where its match starts, or on from there. -/
lemma Stepped.position_le {goesOn : Bool} (h : Stepped env number s goesOn s') : s.position ≤ s'.position := by
  cases h with
  | finds hexec => exact Nat.le_trans (RuleSet.exec_within hexec).start_le (Nat.le_add_right _ _)
  | ends => exact Nat.le_refl _

/-- A search looks from the cursor on, and notes where the next one may go on. -/
lemma nextMatch_cases (env : Env) (s : State) : (nextMatch env).Ensures s
    (fun found s' => (s.ruleSet env).exec env.text s.position s.firstRule = .ok found ∧
      s' = found.elim { s with resumeAt := s.firstRule, stays := false }
        (fun m => { s.atMatch env m with buffer := s.buffer }))
    (fun halt _ => ∃ fault, halt = .fault fault ∧
      (s.ruleSet env).exec env.text s.position s.firstRule = .error fault) := by
  simp only [nextMatch,ensures_bind,ensures_modify,ensures_get]
  split
  · exact ⟨_,rfl,‹_›⟩
  · exact ⟨‹_›,rfl⟩
  · rename_i m hexec
    split
    · rename_i hbegin
      refine ⟨hexec,?_⟩
      simp only [Option.elim_some,State.atMatch,if_pos hbegin]
      rfl
    · rename_i hbegin
      refine ⟨hexec,?_⟩
      simp only [Option.elim_some,State.atMatch,if_neg hbegin]
      rfl

/-- A search finds what fires first of the rules that may be used. -/
lemma nextMatch_eq_ok_iff {found : Option RuleMatch} : ((nextMatch env).run s).1 = .ok found ↔
    (s.ruleSet env).exec env.text s.position s.firstRule = .ok found := by
  rcases hrun : (nextMatch env).run s with ⟨halt | found',s₁⟩
  · obtain ⟨fault,rfl,hexec⟩ := (nextMatch_cases env s).error hrun
    rw [hexec]
    exact ⟨nofun,nofun⟩
  · rw [((nextMatch_cases env s).ok hrun).1]
    exact ⟨fun h => congrArg _ (Except.ok.inj h),fun h => congrArg _ (Except.ok.inj h)⟩

/-- A step that finds a match reacts to it, unless it is one too many. -/
lemma step_of_found {Q : Bool → State → Prop} {H : Halt → State → Prop}
    (hexec : (s.ruleSet env).exec env.text s.position s.firstRule = .ok (some m))
    (hmany : ∀ s', isRunaway env number m.start = true →
      H (.fault (.runawayLoop number (env.text.byteOffset m.start))) s')
    (hfew : ¬ isRunaway env number m.start → (react env m).Ensures (s.atMatch env m)
      (fun moved s' => Q (decide (m.start + moved ≤ env.text.size)) { s' with position := m.start + moved }) H) :
    (step env number).Ensures s Q H := by
  rw [step,ensures_bind]
  refine (nextMatch_cases env s).mono (fun found s₁ h₁ => ?_) (fun _ _ hhalt => ?_)
  · obtain ⟨hfound,rfl⟩ := h₁
    obtain rfl := Except.ok.inj (hexec.symm.trans hfound)
    dsimp only [Option.elim_some]
    split
    · exact hmany _ ‹_›
    · rw [ensures_bind,ensures_get,ensures_bind,ensures_append,ensures_bind]
      exact hfew ‹_›
  · obtain ⟨fault,-,herror⟩ := hhalt
    cases hexec.symm.trans herror

/-- A step whose search fails halts with that fault. -/
lemma step_of_error {Q : Bool → State → Prop} {H : Halt → State → Prop} {f : Fault}
    (hexec : (s.ruleSet env).exec env.text s.position s.firstRule = .error f)
    (hhalt : ∀ s', H (.fault f) s') : (step env number).Ensures s Q H := by
  rw [step,ensures_bind]
  refine (nextMatch_cases env s).mono (fun found s₁ h₁ => ?_) (fun halt s' herror => ?_)
  · cases hexec.symm.trans h₁.1
  · obtain ⟨fault,rfl,herror⟩ := herror
    obtain rfl := Except.error.inj (hexec.symm.trans herror)
    exact hhalt s'

/-- A step whose search finds nothing is the last one. -/
lemma step_of_none {Q : Bool → State → Prop} {H : Halt → State → Prop}
    (hexec : (s.ruleSet env).exec env.text s.position s.firstRule = .ok none)
    (hdone : Q false { s with resumeAt := s.firstRule, stays := false }) : (step env number).Ensures s Q H := by
  rw [step,ensures_bind]
  refine (nextMatch_cases env s).mono (fun found s₁ h₁ => ?_) (fun halt s' herror => ?_)
  · obtain ⟨hfound,rfl⟩ := h₁
    obtain rfl := Except.ok.inj (hexec.symm.trans hfound)
    exact hdone
  · obtain ⟨fault,rfl,herror⟩ := herror
    cases hexec.symm.trans herror

/-- A step that gives whether the scan goes on is one of these. -/
theorem step_cases (env : Env) (number : Nat) (s : State) :
    (step env number).Ensures s (Stepped env number s) (fun _ _ => True) := by
  rcases hexec : (s.ruleSet env).exec env.text s.position s.firstRule with fault | _ | m
  · exact step_of_error hexec (fun _ => trivial)
  · exact step_of_none hexec (.ends hexec)
  · refine step_of_found hexec (fun _ _ => trivial) (fun hfew => ?_)
    exact (react_cases env (s.atMatch env m) (RuleSet.exec_within hexec).start_le_stop).mono
      (fun moved s₂ hreact => .finds hexec hfew hreact) (fun _ _ h => h)

end Steps

lemma faithful_alone (table : NodeTable) (code : String) : (Env.alone table code).Faithful :=
  fun hembed => by cases hembed

end Scan
end Highlight
