import Highlight.Proofs.Assembly.Caseless
import Highlight.Proofs.Scan.LockStep
import Highlight.Proofs.Text.AsciiCase
import Highlight.Tree.Builder

/-!
Scans of a text and of the text with small letters, by a table that ignores case. Step for step, the second
does to the state with small letters what the first does to its own. The trees over the two texts have the same
scopes and leaves in the same places.
-/
namespace Highlight

namespace Tree

mutual

/-- The tree over the text with small letters for its ASCII capitals. -/
def toLower : Tree → Tree
  | leaf text => leaf text.toLower
  | scope tag children => scope tag (allToLower children)

def allToLower : List Tree → List Tree
  | [] => []
  | t :: ts => t.toLower :: allToLower ts

end

lemma allToLower_eq_map (ts : List Tree) : allToLower ts = ts.map toLower := by
  induction ts with
  | nil => rfl
  | cons t ts ih => rw [allToLower,ih,List.map_cons]

lemma allToLower_reverse (ts : List Tree) : allToLower ts.reverse = (allToLower ts).reverse := by
  rw [allToLower_eq_map,allToLower_eq_map,List.map_reverse]

namespace Builder

/-- The tree that comes of the same steps over the text with small letters. -/
def toLower (b : Builder) : Builder where
  current := allToLower b.current
  enclosing := b.enclosing.map (fun (kind,before) => (kind,allToLower before))

lemma toLower_pushText (text : String) (ts : List Tree) :
    allToLower (pushText text ts) = pushText text.toLower (allToLower ts) := by
  match ts with
  | [] => rfl
  | .scope tag children :: rest => rfl
  | .leaf last :: rest => rw [pushText,allToLower,allToLower,Tree.toLower,String.toLower_append]; rfl

@[simp] lemma toLower_addText (b : Builder) (text : String) :
    (b.addText text).toLower = b.toLower.addText text.toLower := by
  rw [addText,addText,String.isEmpty_toLower]
  split
  · rfl
  · exact congrArg (Builder.mk · b.toLower.enclosing) (toLower_pushText text b.current)

@[simp] lemma toLower_openScope (b : Builder) (kind : String) :
    (b.openScope kind).toLower = b.toLower.openScope kind := rfl

@[simp] lemma toLower_closeScope (b : Builder) : b.closeScope.toLower = b.toLower.closeScope := by
  obtain ⟨current,enclosing⟩ := b
  cases enclosing with
  | nil => rfl
  | cons scope rest => 
    simp only [toLower,closeScope,List.map_cons,allToLower,Tree.toLower,allToLower_reverse]

@[simp] lemma toLower_addKeyword (b : Builder) (text kind : String) :
    (b.addKeyword text kind).toLower = b.toLower.addKeyword text.toLower kind := by
  rw [addKeyword,addKeyword,String.isEmpty_toLower]
  split
  · rfl
  · rw [toLower_closeScope,toLower_addText,toLower_openScope]

lemma toLower_collapse (current : List Tree) (enclosing : List (String × List Tree)) :
    allToLower (collapse current enclosing) =
      collapse (allToLower current) (enclosing.map (fun (kind,before) => (kind,allToLower before))) := by
  induction enclosing generalizing current with
  | nil => rfl
  | cons scope rest ih =>
    rw [collapse,ih]
    simp only [collapse,List.map_cons,allToLower,Tree.toLower,allToLower_reverse]

@[simp] lemma toLower_finish (b : Builder) : allToLower b.finish = b.toLower.finish := by
  rw [finish,finish,allToLower_reverse]
  exact congrArg List.reverse (toLower_collapse b.current b.enclosing)

end Builder
end Tree
end Highlight

namespace Highlight.Scan

open Rules

/-- The state of a scan of the text with small letters. -/
def State.toLower (s : State) : State := { s with tree := s.tree.toLower, buffer := s.buffer.toLower }

/-- No open mode ends as it began. -/
def State.Undelimited (s : State) : Prop := ∀ f ∈ s.stack, f.delimiter = none

/-- Why the scan of the text with small letters stops. -/
def Halt.toLower : Halt → Halt
  | illegal lexeme => illegal lexeme.toLower
  | halt => halt

/-- The scan of the text with small letters. Nothing is embedded where case does not count. -/
def Env.toLower (env : Env) : Env := { env with text := env.text.toLower, embed := fun _ _ _ => none }

/-- A scan in which case does not count. -/
structure Env.Caseless (env : Env) : Prop where
  ignoreCase : env.table.ignoreCase = true
  node (id : NodeId) : (env.node id).Caseless

variable {α β : Type} {env : Env}

/-- Where no open mode ends as it began, `y` does to a state with small letters what `x` does to the state,
and gives the same value. -/
def Lowers (x y : Action α) : Prop :=
  ∀ s : State, s.Undelimited → (x.run s).2.Undelimited ∧
    y.run s.toLower = ((x.run s).1.mapError Halt.toLower,(x.run s).2.toLower)

section Steps

variable {x y : Action α}

lemma Lowers.bind {f g : α → Action β} (h : Lowers x y) (hf : ∀ a, Lowers (f a) (g a)) :
    Lowers (x >>= f) (y >>= g) := by
  intro s hs
  obtain ⟨hs',hy⟩ := h s hs
  simp only [ExceptT.run_bind]
  simp only [StateT.bind,Bind.bind,Pure.pure]
  rw [hy]
  rcases hx : x.run s with ⟨e | a,s'⟩
  · rw [hx] at hs'
    exact ⟨hs',rfl⟩
  · rw [hx] at hs'
    exact hf a s' hs'

/-- What looks at the state first. -/
lemma Lowers.get_bind {f g : State → Action β} (hf : ∀ s : State, s.Undelimited → Lowers (f s) (g s.toLower)) :
    Lowers (get >>= f) (get >>= g) :=
  fun s hs => hf s hs s hs

lemma lowers_pure (a : α) : Lowers (pure a) (pure a) := fun _ hs => ⟨hs,rfl⟩

lemma lowers_throw (halt : Halt) : Lowers (throw halt : Action α) (throw halt.toLower) := fun _ hs => ⟨hs,rfl⟩

lemma lowers_fail (f : Fault) : Lowers (Action.fail f : Action α) (Action.fail f) := lowers_throw (.fault f)

lemma lowers_modify {f g : State → State} (hf : ∀ s : State, s.Undelimited → (f s).Undelimited)
    (hg : ∀ s : State, g s.toLower = (f s).toLower) : Lowers (modify f) (modify g) :=
  fun s hs => ⟨hf s hs,congrArg (Prod.mk (Except.ok ())) (hg s)⟩

lemma lowers_append (text : String) : Lowers (Action.append text) (Action.append text.toLower) :=
  lowers_modify (fun _ hs => hs) (fun s => congrArg (fun buffer => { s.toLower with buffer })
    (String.toLower_append s.buffer text).symm)

lemma lowers_setBuffer (text : String) : Lowers (Action.setBuffer text) (Action.setBuffer text.toLower) :=
  lowers_modify (fun _ hs => hs) (fun _ => rfl)

lemma lowers_changeTree {f g : Tree.Builder → Tree.Builder} (h : ∀ b : Tree.Builder, (f b).toLower = g b.toLower) :
    Lowers (Action.changeTree f) (Action.changeTree g) :=
  lowers_modify (fun _ hs => hs) (fun s => congrArg (fun tree => { s.toLower with tree }) (h s.tree).symm)

lemma lowers_addText (text : String) :
    Lowers (Action.changeTree (·.addText text)) (Action.changeTree (·.addText text.toLower)) :=
  lowers_changeTree (fun b => b.toLower_addText text)

lemma lowers_score (relevance : Nat) : Lowers (Action.score relevance) (Action.score relevance) :=
  lowers_modify (fun _ hs => hs) (fun _ => rfl)

lemma lowers_ofSearch (r : Except Regex.GaveUp α) : Lowers (Action.ofSearch r) (Action.ofSearch r) := by
  match r with
  | .ok a => exact lowers_pure a
  | .error .gaveUp => exact lowers_fail _

lemma lowers_forM {f g : β → Action Unit} (i : β → β) (h : ∀ b, Lowers (f b) (g (i b))) (l : List β) :
    Lowers (l.forM f) ((l.map i).forM g) := by
  induction l with
  | nil => exact lowers_pure ()
  | cons b l ih => exact (h b).bind (fun _ => ih)

end Steps

/-! Flushing. Words are looked up in lower case. -/
section Flush

/-- The piece that comes of the text with small letters. -/
def Piece.toLower : Piece → Piece
  | plain text => plain text.toLower
  | keyword text entry => keyword text.toLower entry

lemma piecesFrom_toLower (table : KeywordTable) (buffer : Source) (start : Nat) (words : List (Nat × Nat)) :
    piecesFrom table true buffer.toLower start words =
      (piecesFrom table true buffer start words).map Piece.toLower := by
  have hword : ∀ word : String, Piece.ofWord table true word.toLower = (Piece.ofWord table true word).toLower := by
    intro word
    have hlookup : lookupWord table true word.toLower = lookupWord table true word :=
      congrArg table.find? (Text.lower_toLower word)
    rw [Piece.ofWord,Piece.ofWord,hlookup]
    split <;> rfl
  induction words generalizing start with
  | nil =>
    rw [piecesFrom,piecesFrom,Source.slice_toLower,Source.size_toLower]
    rfl
  | cons word words ih =>
    obtain ⟨a,b⟩ := word
    rw [piecesFrom,piecesFrom,Source.slice_toLower,Source.slice_toLower,hword,ih]
    rfl

lemma lowers_addPiece (p : Piece) : Lowers (addPiece p) (addPiece p.toLower) := by
  cases p with
  | plain text => exact lowers_addText text
  | keyword text entry =>
    exact (lowers_score _).bind (fun _ => lowers_changeTree (fun b => b.toLower_addKeyword text _))

variable (h : env.Caseless)
include h

lemma lowers_flushKeywords (id : NodeId) (buffer : String) :
    Lowers (flushKeywords env (env.node id) buffer) (flushKeywords env.toLower (env.node id) buffer.toLower) := by
  rw [flushKeywords,flushKeywords]
  split
  · exact lowers_addText buffer
  · rename_i table _
    have hic : env.toLower.table.ignoreCase = true := h.ignoreCase
    dsimp only
    rw [h.ignoreCase,hic,Source.ofString_toLower,Regex.findAll_toLower _ (h.node id).lexemes]
    refine (lowers_ofSearch _).bind (fun words => ?_)
    rw [piecesFrom_toLower]
    exact lowers_forM Piece.toLower lowers_addPiece _

lemma lowers_flush : Lowers (flush env) (flush env.toLower) := by
  refine Lowers.get_bind (fun s hs => ?_)
  have hnode : env.toLower.node s.toLower.top = env.node s.top := rfl
  rw [hnode]
  dsimp only
  rw [(h.node s.top).subLanguage]
  refine (lowers_flushKeywords h s.top s.buffer).bind (fun _ => ?_)
  have hempty := lowers_setBuffer ""
  rwa [String.toLower_empty] at hempty

end Flush

/-! Steps. What the text has at a position is a small letter for a capital, and nothing asks for more. -/
section Steps

lemma lexeme_toLower (m : RuleMatch) : env.toLower.lexeme m = (env.lexeme m).toLower :=
  env.text.slice_toLower m.start m.stop

lemma byteOffset_toLower (position : Nat) : env.toLower.text.byteOffset position = env.text.byteOffset position :=
  env.text.byteOffset_toLower position

lemma lowers_keepLexeme (m : RuleMatch) : Lowers (keepLexeme env m) (keepLexeme env.toLower m) := by
  rw [keepLexeme,keepLexeme,lexeme_toLower]
  exact (lowers_append _).bind (fun _ => lowers_pure _)

lemma lowers_keepNext (position : Nat) : Lowers (keepNext env position) (keepNext env.toLower position) := by
  have hchar : env.toLower.text.charAt? position = (env.text.charAt? position).map Char.toLower :=
    env.text.charAt?_toLower position
  simp only [keepNext,hchar]
  cases env.text.charAt? position with
  | none => exact lowers_pure 1
  | some c =>
    have happend := lowers_append (String.singleton c)
    rw [String.toLower_singleton] at happend
    exact happend.bind (fun _ => lowers_pure 1)

lemma lowers_enter {frame : Frame} (hframe : frame.delimiter = none) (position : Nat) :
    Lowers (enter env frame position) (enter env.toLower frame position) := by
  refine Lowers.get_bind (fun s hs => ?_)
  have hopen : Lowers
      (do Action.changeTree (openMode env.table frame); modify fun s => { s with stack := frame :: s.stack })
      (do Action.changeTree (openMode env.table frame); modify fun s => { s with stack := frame :: s.stack }) := by
    refine (lowers_changeTree (fun b => ?_)).bind (fun _ => lowers_modify (fun s hs f hf => ?_) (fun _ => rfl))
    · rw [openMode,openMode]
      split <;> rfl
    · rcases List.mem_cons.mp hf with rfl | hf
      · exact hframe
      · exact hs f hf
  rw [byteOffset_toLower]
  have hstack : s.toLower.stack = s.stack := rfl
  rw [hstack]
  split
  · exact (lowers_fail _).bind (fun _ => hopen)
  · exact hopen

lemma lowers_ignoreBegin (m : RuleMatch) : Lowers (ignoreBegin env m) (ignoreBegin env.toLower m) := by
  refine Lowers.get_bind (fun s hs => ?_)
  have hresume : s.toLower.resumeAt = s.resumeAt := rfl
  rw [hresume]
  split
  · exact lowers_keepNext _
  · exact Lowers.bind (lowers_modify (fun _ hs => hs) (fun _ => rfl)) (fun _ => lowers_pure 0)

variable (h : env.Caseless)
include h

lemma lowers_put (lexeme : String) (place : Place) :
    Lowers (put env lexeme place) (put env.toLower lexeme.toLower place) := by
  have hflush := lowers_flush h
  cases place with
  | within => exact lowers_append lexeme
  | before => exact (lowers_append lexeme).bind (fun _ => hflush)
  | after => exact hflush.bind (fun _ => lowers_setBuffer lexeme)
  | nowhere => exact hflush

lemma lowers_acceptBegin (m : RuleMatch) (id : NodeId) :
    Lowers (acceptBegin env m id) (acceptBegin env.toLower m id) := by
  have hsame : (env.switches id).endSameAsBegin = false := (h.node id).endSameAsBegin
  have hswitches : env.toLower.switches id = env.switches id := rfl
  simp only [acceptBegin,takeBegin_eq_put,hswitches,lexeme_toLower,hsame]
  exact (lowers_put h _ _).bind (fun _ => (lowers_enter rfl _).bind (fun _ => lowers_pure _))

lemma verdict_toLower (m : RuleMatch) (id : NodeId) :
    verdict env.toLower (env.node id) m = verdict env (env.node id) m := by
  rw [verdict,verdict]
  cases hguard : (env.node id).beginGuard with
  | none => rfl
  | some guard =>
    cases guard with
    | custom check => exact absurd hguard ((h.node id).beginGuard check)
    | noSurroundingDot =>
      have hdot : ∀ c? : Option Char, decide (c?.map Char.toLower = some '.') = decide (c? = some '.') := by
        intro c?
        cases c? with
        | none => rfl
        | some c => simp
      have hbefore : env.toLower.text.charBefore? m.start = (env.text.charBefore? m.start).map Char.toLower :=
        env.text.charBefore?_toLower m.start
      have hafter : env.toLower.text.charAt? m.stop = (env.text.charAt? m.stop).map Char.toLower :=
        env.text.charAt?_toLower m.stop
      have hmet : (decide (env.toLower.text.charBefore? m.start = some '.') ||
          decide (env.toLower.text.charAt? m.stop = some '.')) =
          (decide (env.text.charBefore? m.start = some '.') || decide (env.text.charAt? m.stop = some '.')) := by
        rw [hbefore,hafter,hdot,hdot]
      exact congrArg (fun met : Bool => if met then Verdict.ignore else .accept) hmet

lemma lowers_reactToBegin (m : RuleMatch) (id : NodeId) :
    Lowers (reactToBegin env m id) (reactToBegin env.toLower m id) := by
  have hnode : env.toLower.node id = env.node id := rfl
  rw [reactToBegin,reactToBegin,hnode,verdict_toLower h]
  split
  · exact lowers_acceptBegin h m id
  · exact lowers_ignoreBegin m
  · split
    · exact lowers_keepNext _
    · exact lowers_keepLexeme m

omit h in
lemma lowers_leave (f : Frame) : Lowers (leave env f) (leave env.toLower f) := by
  have hnode : env.toLower.node f.node = env.node f.node := rfl
  simp only [leave,hnode]
  refine Lowers.bind (lowers_modify (fun s hs g hg => hs g (List.mem_of_mem_tail hg)) (fun _ => rfl)) (fun _ => ?_)
  have hscore : Lowers
      (do if !(env.node f.node).switches.skip && (env.node f.node).subLanguage.isNone then
            Action.score (env.node f.node).relevance)
      (do if !(env.node f.node).switches.skip && (env.node f.node).subLanguage.isNone then
            Action.score (env.node f.node).relevance) := by
    split
    · exact lowers_score _
    · exact lowers_pure ()
  split
  · exact (lowers_changeTree Tree.Builder.toLower_closeScope).bind (fun _ => hscore)
  · exact hscore

lemma lowers_follow (f : Frame) (position : Nat) :
    Lowers (follow env f position) (follow env.toLower f position) := by
  have hsame : (env.switches f.node).endSameAsBegin = false := (h.node f.node).endSameAsBegin
  have hswitches : env.toLower.switches f.node = env.switches f.node := rfl
  have hnode : env.toLower.node f.node = env.node f.node := rfl
  simp only [follow,hswitches,hnode,hsame]
  split
  · exact lowers_enter rfl _
  · exact lowers_pure ()

lemma lowers_close (m : RuleMatch) (closed : List Frame) :
    Lowers (close env m closed) (close env.toLower m closed) := by
  simp only [close,takeEnd_eq_put]
  refine Lowers.get_bind (fun s hs => ?_)
  have hswitches : env.toLower.switches s.toLower.top = env.switches s.top := rfl
  simp only [hswitches,lexeme_toLower]
  refine (lowers_put h _ _).bind (fun _ => ?_)
  have hleave := lowers_forM (f := leave env) id lowers_leave closed
  rw [List.map_id] at hleave
  refine hleave.bind (fun _ => ?_)
  cases closed.getLast? with
  | none => exact lowers_pure _
  | some outermost => exact (lowers_follow h _ _).bind (fun _ => lowers_pure _)

/-- The modes that an end closes are the same, as long as none of them ends as it began. -/
lemma closing_toLower (position : Nat) {frames : List Frame} (hframes : ∀ f ∈ frames, f.delimiter = none) :
    closing env.toLower position frames = closing env position frames := by
  have hends : ∀ f : Frame, f.delimiter = none → endsAt env.toLower f position = endsAt env f position := by
    intro f hf
    have hnode : env.toLower.node f.node = env.node f.node := rfl
    rw [endsAt,endsAt,hf,hnode]
    cases hr : (env.node f.node).endRegex with
    | none => rfl
    | some r => exact Regex.matchesIn_toLower env.text ((h.node f.node).endRegex r hr) position
  induction frames with
  | nil => rfl
  | cons f rest ih =>
    have htable : env.toLower.table = env.table := rfl
    have hswitches : env.toLower.switches f.node = env.switches f.node := rfl
    rw [closing,closing,ih (fun g hg => hframes g (List.mem_cons_of_mem _ hg)),
      hends f (hframes f List.mem_cons_self),widen_eq htable,hswitches]

lemma lowers_reactToEnd (m : RuleMatch) : Lowers (reactToEnd env m) (reactToEnd env.toLower m) := by
  refine Lowers.get_bind (fun s hs => ?_)
  have hclosing : closing env.toLower m.start s.toLower.stack = closing env m.start s.stack :=
    closing_toLower h m.start hs
  rw [hclosing]
  refine (lowers_ofSearch _).bind (fun closed => ?_)
  cases closed with
  | none => exact lowers_keepLexeme m
  | some closed => exact lowers_close h m closed

omit h in
lemma lowers_reactToIllegal (m : RuleMatch) :
    Lowers (reactToIllegal env m) (reactToIllegal env.toLower m) := by
  have htolerant : env.toLower.tolerant = env.tolerant := rfl
  simp only [reactToIllegal,htolerant,lexeme_toLower]
  split
  · exact lowers_keepNext _
  · split
    · exact lowers_keepLexeme m
    · exact lowers_throw (.illegal _)

lemma lowers_react (m : RuleMatch) : Lowers (react env m) (react env.toLower m) := by
  refine Lowers.get_bind (fun s hs => ?_)
  have hlast : s.toLower.last = s.last := rfl
  have hsafe : env.toLower.safeMode = env.safeMode := rfl
  rw [hlast,hsafe,byteOffset_toLower]
  split
  · split
    · exact lowers_keepNext _
    · exact lowers_fail _
  · refine Lowers.bind (lowers_modify (fun _ hs => hs) (fun _ => rfl)) (fun _ => ?_)
    cases m.kind with
    | begins id => exact lowers_reactToBegin h m id
    | ends => exact lowers_reactToEnd h m
    | illegal => exact lowers_reactToIllegal m

lemma lowers_nextMatch : Lowers (nextMatch env) (nextMatch env.toLower) := by
  refine Lowers.bind (lowers_modify (fun _ hs => hs) (fun _ => rfl)) (fun _ => Lowers.get_bind (fun s hs => ?_))
  have hexec : (env.toLower.node s.toLower.top).rules.exec env.toLower.text s.toLower.position s.toLower.resumeAt =
      (env.node s.top).rules.exec env.text s.position s.resumeAt :=
    (h.node s.top).exec_toLower env.text s.position s.resumeAt
  dsimp only
  rw [hexec]
  split
  · exact lowers_fail _
  · exact lowers_pure none
  · split
    · exact Lowers.bind (lowers_modify (fun _ hs => hs) (fun _ => rfl)) (fun _ => lowers_pure _)
    · exact lowers_pure _

theorem lowers_step (number : Nat) : Lowers (step env number) (step env.toLower number) := by
  refine (lowers_nextMatch h).bind (fun found => ?_)
  cases found with
  | none => exact lowers_pure false
  | some m =>
    have hreact : ∀ position : Nat, Lowers
        (do Action.append (env.text.slice position m.start); let moved ← react env m
            modify fun s => { s with position := m.start + moved }
            return decide (m.start + moved ≤ env.text.size) : Action Bool)
        (do Action.append (env.toLower.text.slice position m.start); let moved ← react env.toLower m
            modify fun s => { s with position := m.start + moved }
            return decide (m.start + moved ≤ env.toLower.text.size) : Action Bool) := by
      intro position
      have hslice : env.toLower.text.slice position m.start = (env.text.slice position m.start).toLower :=
        env.text.slice_toLower position m.start
      have hsize : env.toLower.text.size = env.text.size := env.text.size_toLower
      rw [hslice,hsize]
      refine (lowers_append _).bind (fun _ => (lowers_react h m).bind (fun moved => ?_))
      exact Lowers.bind (lowers_modify (fun _ hs => hs) (fun _ => rfl)) (fun _ => lowers_pure _)
    have hrunaway : isRunaway env.toLower number m.start = isRunaway env number m.start := by
      rw [isRunaway,isRunaway,byteOffset_toLower]
    dsimp only
    rw [hrunaway,byteOffset_toLower]
    split
    · exact (lowers_fail _).bind (fun _ => Lowers.get_bind (fun s _ => hreact s.position))
    · exact Lowers.get_bind (fun s _ => hreact s.position)

lemma lowers_finish : Lowers (finish env) (finish env.toLower) := by
  refine Lowers.get_bind (fun s _ => ?_)
  have hslice : env.toLower.text.slice s.toLower.position env.toLower.text.size =
      (env.text.slice s.position env.text.size).toLower := by
    have hsize : env.toLower.text.size = env.text.size := env.text.size_toLower
    rw [hsize]
    exact env.text.slice_toLower s.position env.text.size
  rw [hslice]
  exact (lowers_append _).bind (fun _ => lowers_flush h)

lemma lowers_steps (n number : Nat) :
    Lowers (ExceptT.mk (steps env n number)) (ExceptT.mk (steps env.toLower n number)) := by
  induction n generalizing number with
  | zero => exact lowers_finish h
  | succ n ih =>
    rw [steps_succ,steps_succ]
    refine (lowers_step h number).bind (fun goesOn => ?_)
    cases goesOn with
    | false => exact lowers_finish h
    | true => exact ih (number + 1)

/-- The scan of the text with small letters comes to the state with small letters, and stops alike. -/
theorem lowers_run : Lowers (ExceptT.mk (run env)) (ExceptT.mk (run env.toLower)) := by
  have hlimit : stepLimit env.toLower = stepLimit env := by
    have hsize : env.toLower.text.size = env.text.size := env.text.size_toLower
    rw [stepLimit,stepLimit,hsize,byteOffset_toLower]
  have hrun : run env.toLower = steps env.toLower (stepLimit env) 1 := by
    funext s
    rw [run,hlimit]
  rw [hrun]
  exact lowers_steps h (stepLimit env) 1

end Steps

end Highlight.Scan
