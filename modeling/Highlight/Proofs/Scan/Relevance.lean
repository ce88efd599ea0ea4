import Highlight.Proofs.Calls
import Highlight.Proofs.Scan.Cases

/-!
The relevance of a scan. What adds to it are the modes that ends close, the keywords in the text and the
results of embedded grammars. As no sum exceeds the greatest relevance, it makes no difference when the
relevance reaches it.
-/
namespace Highlight

/-- Sums that stop at the greatest relevance are as good as a sum that does not. -/
lemma addRelevance_min (a b : Nat) : addRelevance (min a maxRelevance) b = min (a + b) maxRelevance := by
  simp only [addRelevance]
  omega

namespace Scan

open Rules Highlight.Scan.Action

/-- What a scan comes upon. -/
inductive Event where
  | opened (f : Frame)
  | closed (f : Frame)
  | keyword (word : String) (entry : KeywordEntry)
  /-- The result of an embedded grammar, in a mode with the given node. -/
  | embedded (id : NodeId) (r : Result)

namespace Event

/-- What an event adds to the relevance. -/
def relevance (env : Env) : Event → Nat
  | opened _ => 0
  | closed f => if !(env.switches f.node).skip && (env.node f.node).subLanguage.isNone
      then (env.node f.node).relevance else 0
  | keyword _ entry => entry.relevance
  | embedded id r => if 0 < (env.node id).relevance then r.relevance else 0

def opened? : Event → Option Frame
  | opened f => some f
  | _ => none

def closed? : Event → Option Frame
  | closed f => some f
  | _ => none

end Event

section Events

variable (env : Env)

/-- The keywords among the words at the given places of a buffer. -/
def keywordEvents (table : KeywordTable) (buffer : Source) (words : List (Nat × Nat)) : List Event :=
  words.filterMap (fun word =>
    let text := buffer.slice word.1 word.2
    (lookupWord table env.table.ignoreCase text).map (.keyword text))

/-- What there is in the buffer. -/
def flushEvents (s : State) : List Event :=
  let node := env.node s.top
  match node.subLanguage with
  | some sub =>
    if s.buffer.isEmpty then []
    else ((env.embed sub (s.carried sub) s.buffer).bind (fun run => (run.run s.assembled).1.toOption)).toList.map
      (.embedded s.top)
  | none =>
    match node.keywords with
    | none => []
    | some table =>
      let source := Source.ofString s.buffer
      match node.lexemes.findAll source with
      | .ok words => keywordEvents env table source words
      | .error _ => []

/-- What there is in the buffer when a lexeme is put in its place. -/
def putEvents (s : State) (lexeme : String) : Place → List Event
  | .within => []
  | .before => flushEvents env { s with buffer := s.buffer ++ lexeme }
  | .after | .nowhere => flushEvents env s

/-- What the reaction to a match comes upon. -/
def reactEvents (m : RuleMatch) (s : State) : List Event :=
  match m.kind with
  | .begins id =>
    if verdict env (env.node id) m = .accept then
      putEvents env s (env.lexeme m) (env.switches id).beginPlace ++ [.opened (beginFrame env m id)]
    else []
  | .ends =>
    if stalls s.last m then []
    else
      match closing env m.start s.stack with
      | .ok (some closed) =>
        putEvents env s (env.lexeme m) (env.switches s.top).endPlace ++ closed.map .closed ++
          (nextFrame? env closed).toList.map .opened
      | _ => []
  | .illegal => []

def stepEvents (s : State) : List Event :=
  match ((nextMatch env).run s).1 with
  | .ok (some m) => reactEvents env m (s.atMatch env m)
  | _ => []

/-- What there is in the text that is left at the end. -/
def finishEvents (s : State) : List Event :=
  flushEvents env { s with buffer := s.buffer ++ env.text.slice s.position env.text.size }

/-- What at most `n` steps and the end of a scan come upon, the first step having the given number. -/
def stepsEvents : Nat → Nat → State → List Event
  | 0, _, s => finishEvents env s
  | n + 1, number, s => stepEvents env s ++
    match (step env number).run s with
    | (.ok true,s') => stepsEvents n (number + 1) s'
    | (.ok false,s') => finishEvents env s'
    | (.error _,_) => []

/-- What a whole scan comes upon. -/
def events (s : State) : List Event := stepsEvents env (stepLimit env) 1 s

/-- What events add up to. -/
def total (es : List Event) : Nat := es.foldr (fun e sum => e.relevance env + sum) 0

end Events

variable {env : Env} {s s' s₁ : State} {m : RuleMatch} {number moved : Nat} {goesOn : Bool}

@[simp] lemma total_nil : total env [] = 0 := rfl

@[simp] lemma total_cons (e : Event) (es : List Event) : total env (e :: es) = e.relevance env + total env es := rfl

@[simp] lemma total_append (es es' : List Event) : total env (es ++ es') = total env es + total env es' := by
  induction es with
  | nil => rw [List.nil_append,total_nil,Nat.zero_add]
  | cons e es ih => rw [List.cons_append,total_cons,total_cons,ih,Nat.add_assoc]

/-- The relevance of a state is a sum, as far as it may go. -/
def State.Scores (s : State) (n : Nat) : Prop := s.relevance = min n maxRelevance

lemma Scores.add {s : State} {n : Nat} (h : s.Scores n) (relevance : Nat) :
    addRelevance s.relevance relevance = min (n + relevance) maxRelevance := by
  rw [h,addRelevance_min]

section Flushes

variable {n : Nat} {H : Halt → State → Prop}

/-- What there is in a piece of text. -/
def Piece.events : Piece → List Event
  | plain _ => []
  | keyword word entry => [.keyword word entry]

lemma flatMap_piecesFrom (table : KeywordTable) (buffer : Source) (start : Nat) (words : List (Nat × Nat)) :
    (piecesFrom table env.table.ignoreCase buffer start words).flatMap Piece.events =
      keywordEvents env table buffer words := by
  induction words generalizing start with
  | nil => rfl
  | cons word words ih =>
    obtain ⟨a,b⟩ := word
    have hword : (Piece.ofWord table env.table.ignoreCase (buffer.slice a b)).events ++
        keywordEvents env table buffer words = keywordEvents env table buffer ((a,b) :: words) := by
      simp only [Piece.ofWord,keywordEvents,List.filterMap_cons]
      cases lookupWord table env.table.ignoreCase (buffer.slice a b) <;> rfl
    rw [piecesFrom,List.flatMap_cons,List.flatMap_cons,ih,hword]
    rfl

lemma addPiece_scores (env : Env) (hs : s.Scores n) (p : Piece) :
    (addPiece p).Ensures s (fun _ s' => s'.Scores (n + total env p.events)) H := by
  cases p with
  | plain text => exact hs
  | keyword word entry =>
    rw [addPiece,ensures_bind,ensures_score,ensures_changeTree]
    exact Scores.add hs entry.relevance

lemma addPieces_scores (hs : s.Scores n) (pieces : List Piece) : (pieces.forM addPiece).Ensures s
    (fun _ s' => s'.Scores (n + total env (pieces.flatMap Piece.events))) H := by
  refine (ensures_forM (P := fun rest s' => ∃ k, s'.Scores k ∧
    k + total env (rest.flatMap Piece.events) = n + total env (pieces.flatMap Piece.events))
    (fun p rest s₁ h₁ => ?_) ⟨n,hs,rfl⟩).mono (fun _ s' h => ?_) (fun _ _ h => h)
  · obtain ⟨k,hk,hsum⟩ := h₁
    refine (addPiece_scores env hk p).mono (fun _ s' h => ⟨_,h,?_⟩) (fun _ _ h => h)
    rw [← hsum,List.flatMap_cons,total_append,Nat.add_assoc]
  · obtain ⟨k,hk,hsum⟩ := h
    rw [← hsum]
    exact hk

lemma addEmbedded_scores (hs : s.Scores n) (id : NodeId) (sub : SubLanguage) (r : Result) :
    (addEmbedded (env.node id) sub r).Ensures s
      (fun _ s' => s'.Scores (n + (Event.embedded id r).relevance env)) H := by
  have hcarry : (s.carry sub r.continuation).Scores n := by
    unfold State.carry
    split
    · exact hs
    · exact hs
  rw [Event.relevance]
  by_cases hscores : 0 < (env.node id).relevance
  · simp only [addEmbedded,ensures_bind,ensures_modify,if_pos hscores,ensures_score,ensures_changeTree]
    exact Scores.add hcarry r.relevance
  · simp only [addEmbedded,ensures_bind,ensures_modify,if_neg hscores,ensures_changeTree]
    exact hcarry

/-- Flushing adds up what there is in the buffer. -/
lemma flush_scores (hs : s.Scores n) : (flush env).Ensures s
    (fun _ s' => s'.Scores (n + total env (flushEvents env s))) (fun _ _ => True) := by
  rw [flush,ensures_bind,ensures_get]
  dsimp only
  cases hsub : (env.node s.top).subLanguage with
  | none =>
    rw [ensures_bind,flushKeywords]
    cases hkeywords : (env.node s.top).keywords with
    | none =>
      simp only [flushEvents,hsub,hkeywords]
      exact hs
    | some table =>
      rw [ensures_bind]
      refine ensures_ofSearch (fun words hwords => ?_) trivial
      simp only [flushEvents,hsub,hkeywords,hwords,← flatMap_piecesFrom table _ 0 words]
      exact addPieces_scores hs _
  | some sub =>
    rw [ensures_bind,flushEmbedded]
    by_cases hempty : s.buffer.isEmpty = true
    · simp only [flushEvents,hsub,if_pos hempty]
      exact hs
    · rw [if_neg hempty,ensures_bind,ensures_get]
      cases hembed : env.embed sub (s.carried sub) s.buffer with
      | none =>
        simp only [flushEvents,hsub,if_neg hempty,hembed]
        exact hs
      | some run =>
        dsimp only
        rw [ensures_bind]
        refine ensures_ofCall (fun r keys hr => ?_) (fun _ _ _ => trivial)
        simp only [flushEvents,hsub,if_neg hempty,hembed,Option.bind_some,hr,Except.toOption,
          Option.toList_some,List.map_cons,List.map_nil,total_cons,total_nil,Nat.add_zero]
        exact addEmbedded_scores (s := { s with assembled := keys }) hs s.top sub r

lemma put_scores (hs : s.Scores n) (lexeme : String) (place : Place) : (put env lexeme place).Ensures s
    (fun _ s' => s'.Scores (n + total env (putEvents env s lexeme place))) (fun _ _ => True) := by
  cases place with
  | within => exact hs
  | before =>
    rw [put,ensures_bind,ensures_append]
    exact flush_scores (s := { s with buffer := s.buffer ++ lexeme }) hs
  | after =>
    rw [put,ensures_bind]
    exact flush_scores hs
  | nowhere => exact flush_scores hs

end Flushes

section Steps

variable {n : Nat}

lemma pop_scores (hs : s.Scores n) (f : Frame) : (s.pop env f).Scores (n + (Event.closed f).relevance env) := by
  by_cases hscores : (!(env.switches f.node).skip && (env.node f.node).subLanguage.isNone) = true
  · rw [Event.relevance,if_pos hscores]
    exact (if_pos hscores).trans (Scores.add hs _)
  · rw [Event.relevance,if_neg hscores]
    exact (if_neg hscores).trans hs

lemma close_scores (hs : s.Scores n) (closed : List Frame) :
    (s.close env closed).Scores (n + total env (closed.map .closed)) := by
  have hpops : (closed.foldl (fun s f => s.pop env f) s).Scores (n + total env (closed.map .closed)) := by
    induction closed generalizing s n with
    | nil => exact hs
    | cons f closed ih =>
      rw [List.map_cons,total_cons,← Nat.add_assoc]
      exact ih (pop_scores hs f)
  rw [State.close]
  cases nextFrame? env closed <;> exact hpops

lemma total_opened (fs : List Frame) : total env (fs.map .opened) = 0 := by
  induction fs with
  | nil => rfl
  | cons f fs ih => rw [List.map_cons,total_cons,ih]; rfl

lemma IsKept.reactEvents_eq_nil (h : IsKept env m s moved) : reactEvents env m s = [] := by
  cases h with
  | ignored hkind hverdict | aborted hkind hverdict => simp [reactEvents,hkind,hverdict]
  | unclosing hkind _ hclosing => simp [reactEvents,hkind,hclosing]
  | tolerated hkind => simp [reactEvents,hkind]

lemma reactEvents_of_ignored {id : NodeId} (hkind : m.kind = .begins id)
    (hverdict : verdict env (env.node id) m = .ignore) : reactEvents env m s = [] := by
  simp [reactEvents,hkind,hverdict]

lemma reactEvents_of_stalls (hstalls : stalls s.last m = true) : reactEvents env m s = [] := by
  cases hkind : m.kind with
  | begins id => cases (stalls_of_begins hkind _).symm.trans hstalls
  | ends => simp [reactEvents,hkind,hstalls]
  | illegal => simp [reactEvents,hkind]

/-- A reaction adds up what it comes upon. -/
lemma Reaction.scores (h : Reaction env m s moved s') (hs : s.Scores n) :
    s'.Scores (n + total env (reactEvents env m s)) := by
  cases h with
  | @opens id s₁ hkind hverdict _ hput =>
    have hs₁ := (put_scores (s := { s with last := some m }) hs _ _).ok hput
    simp only [reactEvents,hkind,if_pos hverdict,total_append]
    exact hs₁
  | @closes closed s₁ hkind hstalls hclosing hput =>
    have hs₁ := (put_scores (s := { s with last := some m }) hs _ _).ok hput
    simp only [reactEvents,hkind,hstalls,Bool.false_eq_true,if_false,hclosing,total_append,total_opened,
      Nat.add_zero,← Nat.add_assoc]
    exact close_scores hs₁ closed
  | keeps h =>
    rw [h.reactEvents_eq_nil]
    exact hs
  | leaves hkind hverdict =>
    rw [reactEvents_of_ignored hkind hverdict]
    exact hs
  | steps hstalls =>
    rw [reactEvents_of_stalls hstalls]
    exact hs

/-- A step adds up what it comes upon. -/
lemma Stepped.scores (h : Stepped env number s goesOn s') (hs : s.Scores n) :
    s'.Scores (n + total env (stepEvents env s)) := by
  cases h with
  | finds hexec _ hreact =>
    rw [stepEvents,nextMatch_eq_ok_iff.mpr hexec]
    exact hreact.scores hs
  | ends hexec =>
    rw [stepEvents,nextMatch_eq_ok_iff.mpr hexec]
    exact hs

lemma finish_scores (hs : s.Scores n) : (finish env).Ensures s
    (fun _ s' => s'.Scores (n + total env (finishEvents env s))) (fun _ _ => True) := by
  rw [finish,ensures_bind,ensures_get,ensures_bind,ensures_append]
  exact flush_scores (s := { s with buffer := s.buffer ++ env.text.slice s.position env.text.size }) hs

/-- A scan that is done has added up all that it came upon. -/
lemma steps_scores {k : Nat} (hs : s.Scores n) (h : steps env k number s = (.ok (),s')) :
    s'.Scores (n + total env (stepsEvents env k number s)) := by
  induction k generalizing number s n with
  | zero => exact (finish_scores hs).ok h
  | succ k ih =>
    rw [steps] at h
    rw [stepsEvents,total_append,← Nat.add_assoc]
    rcases hstep : (step env number).run s with ⟨halt | _ | _,s₁⟩
    · rw [hstep] at h
      cases h
    · rw [hstep] at h
      exact (finish_scores (((step_cases env number s).ok hstep).scores hs)).ok h
    · rw [hstep] at h
      exact ih (((step_cases env number s).ok hstep).scores hs) h

end Steps

section Stacks

variable {es es' : List Event} {stack stack' stack'' : List Frame}

/-- Each mode that was open or opened has closed, once, or is still open. -/
def Balanced (es : List Event) (stack stack' : List Frame) : Prop :=
  (es.filterMap Event.opened? ++ stack).Perm (es.filterMap Event.closed? ++ stack')

lemma balanced_nil (stack : List Frame) : Balanced [] stack stack := List.Perm.refl _

lemma Balanced.append (h : Balanced es stack stack') (h' : Balanced es' stack' stack'') :
    Balanced (es ++ es') stack stack'' := by
  have hopened := List.perm_append_comm_assoc (es.filterMap Event.opened?) (es'.filterMap Event.opened?) stack
  have hclosed := List.perm_append_comm_assoc (es'.filterMap Event.opened?) (es.filterMap Event.closed?) stack'
  rw [Balanced,List.filterMap_append,List.filterMap_append,List.append_assoc,List.append_assoc]
  exact hopened.trans ((h.append_left _).trans (hclosed.trans (h'.append_left _)))

/-- Text and embedded results open and close no modes. -/
lemma balanced_flushEvents (env : Env) (s : State) (stack : List Frame) :
    Balanced (flushEvents env s) stack stack := by
  have hnone : ∀ e ∈ flushEvents env s, e.opened? = none ∧ e.closed? = none := by
    intro e he
    rw [flushEvents] at he
    split at he
    · split at he
      · cases he
      · obtain ⟨r,-,rfl⟩ := List.mem_map.mp he
        exact ⟨rfl,rfl⟩
    · split at he
      · cases he
      · dsimp only at he
        split at he
        · obtain ⟨word,-,hword⟩ := List.mem_filterMap.mp he
          obtain ⟨entry,-,rfl⟩ := Option.map_eq_some_iff.mp hword
          exact ⟨rfl,rfl⟩
        · cases he
  rw [Balanced,List.filterMap_eq_nil_iff.mpr (fun e he => (hnone e he).1),
    List.filterMap_eq_nil_iff.mpr (fun e he => (hnone e he).2)]

lemma balanced_putEvents (env : Env) (s : State) (lexeme : String) (place : Place) (stack : List Frame) :
    Balanced (putEvents env s lexeme place) stack stack := by
  cases place with
  | within => exact balanced_nil stack
  | before | after | nowhere => exact balanced_flushEvents env _ stack

lemma balanced_opened (f : Frame) (stack : List Frame) : Balanced [.opened f] stack (f :: stack) :=
  List.Perm.refl _

lemma balanced_closed (closed stack : List Frame) : Balanced (closed.map .closed) (closed ++ stack) stack := by
  have hopened : (closed.map Event.closed).filterMap Event.opened? = [] := by
    simp [Event.opened?]
  have hclosed : (closed.map Event.closed).filterMap Event.closed? = closed := by
    simp [List.filterMap_map,Function.comp_def,Event.closed?]
  rw [Balanced,hopened,hclosed]
  exact List.Perm.refl _

lemma Reaction.balanced (h : Reaction env m s moved s') : Balanced (reactEvents env m s) s.stack s'.stack := by
  cases h with
  | @opens id s₁ hkind hverdict _ hput =>
    have hstack : s₁.stack = s.stack := ((put_puts env _ _ _).ok hput).keeps.stack
    simp only [reactEvents,hkind,if_pos hverdict]
    rw [State.push,hstack]
    exact (balanced_putEvents env s _ _ s.stack).append (balanced_opened _ _)
  | @closes closed s₁ hkind hstalls hclosing hput =>
    have hstack : s₁.stack = s.stack := ((put_puts env _ _ _).ok hput).keeps.stack
    obtain ⟨rest,hrest⟩ := closing_innermost hclosing
    have hpops : (closed.foldl (fun s f => s.pop env f) s₁).stack = rest := by
      rw [stack_foldl_pop,hstack,← hrest,List.drop_left]
    simp only [reactEvents,hkind,hstalls,Bool.false_eq_true,if_false,hclosing]
    have hcloses : Balanced (closed.map .closed) s.stack rest := hrest ▸ balanced_closed closed rest
    refine ((balanced_putEvents env s _ _ s.stack).append hcloses).append ?_
    rw [State.close]
    cases nextFrame? env closed with
    | none => exact hpops ▸ balanced_nil rest
    | some next => exact hpops ▸ balanced_opened next _
  | keeps h =>
    rw [h.reactEvents_eq_nil]
    exact balanced_nil s.stack
  | leaves hkind hverdict =>
    rw [reactEvents_of_ignored hkind hverdict]
    exact balanced_nil s.stack
  | steps hstalls =>
    rw [reactEvents_of_stalls hstalls]
    exact balanced_nil s.stack

lemma Stepped.balanced (h : Stepped env number s goesOn s') : Balanced (stepEvents env s) s.stack s'.stack := by
  cases h with
  | finds hexec _ hreact =>
    rw [stepEvents,nextMatch_eq_ok_iff.mpr hexec]
    exact hreact.balanced
  | ends hexec =>
    rw [stepEvents,nextMatch_eq_ok_iff.mpr hexec]
    exact balanced_nil s.stack

lemma finish_balanced (env : Env) (s : State) : (finish env).Ensures s
    (fun _ s' => Balanced (finishEvents env s) s.stack s'.stack) (fun _ _ => True) := by
  rw [finish,ensures_bind,ensures_get,ensures_bind,ensures_append]
  refine (flush_ensures env _).mono (fun _ s' h => ?_) (fun _ _ _ => trivial)
  rw [h.1.stack]
  exact balanced_flushEvents env _ s.stack

/-- A scan that is done has come upon each mode that is open, and upon the end of each that no longer is. -/
lemma steps_balanced {k : Nat} (h : steps env k number s = (.ok (),s')) :
    Balanced (stepsEvents env k number s) s.stack s'.stack := by
  induction k generalizing number s with
  | zero => exact (finish_balanced env s).ok h
  | succ k ih =>
    rw [steps] at h
    rw [stepsEvents]
    rcases hstep : (step env number).run s with ⟨halt | _ | _,s₁⟩
    · rw [hstep] at h
      cases h
    · rw [hstep] at h
      exact ((step_cases env number s).ok hstep).balanced.append ((finish_balanced env s₁).ok h)
    · rw [hstep] at h
      exact ((step_cases env number s).ok hstep).balanced.append (ih h)

end Stacks

lemma opened_relevance (table : NodeTable) (c : Option Continuation) (keys : List String) :
    (State.opened table c keys).Scores 0 := by
  obtain ⟨stack,hopened,-⟩ := exists_opened_eq table c keys
  rw [hopened]
  rfl

/-- The relevance of a result that reports nothing illegal and no fault is the sum of what the scan came upon,
or the greatest relevance if the sum exceeds it: the relevance of each mode that an end closed, of each
keyword and of each embedded result. A mode that the scan opened or found open has closed, and counts,
once, or is still open and counts for nothing. -/
theorem highlight_relevance {settings : Settings} {language code : String} {c : Option Continuation}
    {keys keys' : List String} {r : Result}
    (hrun : (highlight env settings language code c).run keys = (.ok r,keys')) (hlegal : r.illegal = none)
    (hfault : r.fault = none) :
    r.relevance = min (total env (events env (.opened env.table c keys))) (UInt32.size - 1) ∧
      ∃ left, r.continuation = some left ∧
        Balanced (events env (.opened env.table c keys)) (State.opened env.table c keys).stack left.frames := by
  obtain ⟨outcome,s,hs,hr⟩ := exists_run_of_highlight hrun
  match outcome with
  | .ok () =>
    cases hr
    have hscores := steps_scores (opened_relevance env.table c keys) hs
    rw [Nat.zero_add] at hscores
    exact ⟨hscores,_,rfl,steps_balanced hs⟩
  | .error (.illegal lexeme) =>
    cases hr
    cases hlegal
  | .error (.fault f) =>
    simp only [conclude] at hr
    split at hr
    · cases hr
      cases hfault
    · cases hr
  | .error (.error e) => cases hr

/-- A grammar of a word and of letters, one of which scores as much as may be. -/
def tallying : Grammar where
  name := "tallying"
  root := { keywords := some (.plain "k|3"), lexemes := some "k", contains := some [.mode 0,.mode 1] }
  modes := #[{ beginPattern := some "a", relevance := some 4294967295 },{ beginPattern := some "b" }]

/-- What there is to score exceeds the greatest relevance. -/
theorem highlight_relevance_tallying : ∃ (env : Env) (r : Result) (keys' : List String),
    tallying.assemble = .ok env.table ∧
      (highlight env {} "tallying" "kab" none).run [] = (.ok r,keys') ∧ r.illegal = none ∧ r.fault = none ∧
      total env (events env (.opened env.table none [])) = 4294967299 ∧ r.relevance = 4294967295 ∧
      ∃ left, r.continuation = some left ∧
        Balanced (events env (.opened env.table none [])) [.top] left.frames := by
  have htable : tallying.assemble.toOption.any (fun t =>
      let env := Env.alone t "kab"
      ((highlight env {} "tallying" "kab" none).run []).1.toOption.any (fun r =>
        r.illegal.isNone && r.fault.isNone && decide (total env (events env (.opened t none [])) = 4294967299))) =
      true := by decide +kernel
  obtain ⟨t,ht,htests⟩ := exists_eq_ok_of_any htable
  obtain ⟨r,keys,hrun,htests⟩ := exists_ok_of_any _ htests
  simp only [Bool.and_eq_true,decide_eq_true_eq,Option.isNone_iff_eq_none] at htests
  obtain ⟨⟨hlegal,hfault⟩,htotal⟩ := htests
  obtain ⟨hrelevance,hstack⟩ := highlight_relevance hrun hlegal hfault
  refine ⟨.alone t "kab",r,keys,ht,hrun,hlegal,hfault,htotal,?_,hstack⟩
  rw [hrelevance]
  exact congrArg (min · (UInt32.size - 1)) htotal

end Scan
end Highlight
