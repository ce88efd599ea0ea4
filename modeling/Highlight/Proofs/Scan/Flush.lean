import Highlight.Proofs.Regex.Search
import Highlight.Proofs.Scan.Action
import Highlight.Proofs.Text.Slice
import Highlight.Proofs.Tree.Text

/-!
What flushing the buffer does. It leaves the open modes and the cursor alone, and it moves the text
of the buffer to the tree unchanged, however the text is split into keywords, as long as embedded
grammars give back the text that they are handed.
-/
namespace Highlight

namespace Regex

/-- Spans one after the other, in order, from a position to at most `size`. -/
def Ascending (size : Nat) : Nat → List (Nat × Nat) → Prop
  | start, [] => start ≤ size
  | start, (a,b) :: words => start ≤ a ∧ a ≤ b ∧ Ascending size b words

/-- Successive matches lie one after the other. -/
lemma matchesFrom_ascending {r : Regex} {text : Source} {n start lo : Nat} {previous : Option Nat}
    {words : List (Nat × Nat)} (h : r.matchesFrom text n start previous = .ok words)
    (hlo : lo ≤ start) (hsize : lo ≤ text.size) : Ascending text.size lo words := by
  induction n generalizing start lo previous words with
  | zero => cases h; exact hsize
  | succ n ih =>
    rw [matchesFrom] at h
    split at h
    · cases h; exact hsize
    · cases hf : r.find text start with
      | error e => rw [hf] at h; cases h
      | ok f? =>
        rw [hf] at h
        cases f? with
        | none => cases h; exact hsize
        | some f =>
          obtain ⟨h1,h2,h3⟩ := search_bounds hf
          have hstop : f.stop ≤ text.size := h3
          -- the matches after this one, from wherever the search for them starts
          have hrest : ∀ {next : Nat} {previous : Option Nat} {words : List (Nat × Nat)},
              f.stop ≤ next → (do
                let rest ← r.matchesFrom text n next previous
                return (f.start,f.stop) :: rest) = Except.ok words →
              Ascending text.size lo words := by
            intro next previous words hnext hw
            cases hm : r.matchesFrom text n next previous with
            | error e => rw [hm] at hw; cases hw
            | ok rest =>
              rw [hm] at hw
              cases hw
              exact ⟨Nat.le_trans hlo h1,h2,ih hm hnext hstop⟩
          simp only [bind,Except.bind] at h
          split at h
          · split at h
            · exact ih h (by omega) hsize
            · exact hrest (Nat.le_succ _) h
          · exact hrest (Nat.le_refl _) h

lemma findAll_ascending {r : Regex} {text : Source} {words : List (Nat × Nat)}
    (h : r.findAll text = .ok words) : Ascending text.size 0 words :=
  matchesFrom_ascending h (Nat.le_refl 0) (Nat.zero_le _)

end Regex

namespace Scan

variable {env : Env} {s s' : State}

/-- What neither flushing nor text changes: the open modes, the depth of the tree and all that
decides on the next search. -/
structure State.Keeps (s s' : State) : Prop where
  stack : s'.stack = s.stack
  depth : s'.tree.depth = s.tree.depth
  position : s'.position = s.position
  last : s'.last = s.last
  resumeAt : s'.resumeAt = s.resumeAt
  stays : s'.stays = s.stays

lemma State.Keeps.refl (s : State) : s.Keeps s := ⟨rfl,rfl,rfl,rfl,rfl,rfl⟩

lemma State.Keeps.trans {s'' : State} (h : s.Keeps s') (h' : s'.Keeps s'') : s.Keeps s'' :=
  ⟨h'.stack.trans h.stack,h'.depth.trans h.depth,h'.position.trans h.position,h'.last.trans h.last,
    h'.resumeAt.trans h.resumeAt,h'.stays.trans h.stays⟩

/-- A halt for any other reason than an illegal lexeme. -/
def Halt.IsLegal : Halt → Prop
  | .illegal _ => False
  | .fault _ | .error _ => True

/-- The text that has been taken in: what is in the tree and what is still in the buffer. -/
def State.taken (s : State) : String := s.tree.text ++ s.buffer

/-- Embedded grammars give back the text that they are handed. -/
def Env.Faithful (env : Env) : Prop :=
  ∀ {sub c code run}, env.embed sub c code = some run →
    run.Gives (fun r => Tree.texts r.tree = code)

/-- The grammar that the innermost mode embeds, if it does, gives back the text that it is handed. -/
def State.GivesBack (env : Env) (s : State) : Prop :=
  ∀ {sub c code run}, (env.node s.top).subLanguage = some sub → env.embed sub c code = some run →
    run.Gives (fun r => Tree.texts r.tree = code)

lemma Env.Faithful.givesBack (hf : env.Faithful) (s : State) : s.GivesBack env := fun _ hembed => hf hembed

@[simp] lemma text_plain (text : String) : (Piece.plain text).text = text := rfl

@[simp] lemma text_ofWord (table : KeywordTable) (ignoreCase : Bool) (word : String) :
    (Piece.ofWord table ignoreCase word).text = word := by
  rw [Piece.ofWord]
  split <;> rfl

/-- The pieces of a buffer spell it out. -/
lemma join_piecesFrom (table : KeywordTable) (ignoreCase : Bool) (buffer : Source) {start : Nat}
    {words : List (Nat × Nat)} (h : Regex.Ascending buffer.size start words) :
    String.join ((piecesFrom table ignoreCase buffer start words).map Piece.text) =
      buffer.slice start buffer.size := by
  induction words generalizing start with
  | nil => simp [piecesFrom,String.join_cons]
  | cons word words ih =>
    obtain ⟨a,b⟩ := word
    obtain ⟨h1,h2,h3⟩ := h
    have hb : ∀ {lo : Nat} {words : List (Nat × Nat)},
        Regex.Ascending buffer.size lo words → lo ≤ buffer.size := by
      intro lo words hw
      induction words generalizing lo with
      | nil => exact hw
      | cons word words ih =>
        obtain ⟨h1,h2,h3⟩ := hw
        exact Nat.le_trans h1 (Nat.le_trans h2 (ih h3))
    have hba := hb h3
    simp only [piecesFrom,List.map_cons,String.join_cons,text_ofWord,text_plain,ih h3]
    rw [buffer.slice_append h2 hba,buffer.slice_append h1 (Nat.le_trans h2 hba)]

section

variable {H : Halt → State → Prop}

lemma addPiece_ensures (p : Piece) : (addPiece p).Ensures s
    (fun _ s' => s.Keeps s' ∧ s'.tree.text = s.tree.text ++ p.text ∧ s'.buffer = s.buffer) H := by
  cases p with
  | plain text =>
    simp only [addPiece,Action.ensures_changeTree]
    exact ⟨⟨rfl,by simp,rfl,rfl,rfl,rfl⟩,by simp [Piece.text],trivial⟩
  | keyword text entry =>
    simp only [addPiece,Action.ensures_bind,Action.ensures_score,Action.ensures_changeTree]
    exact ⟨⟨rfl,by simp,rfl,rfl,rfl,rfl⟩,by simp [Piece.text],trivial⟩

lemma addPieces_ensures (pieces : List Piece) : (pieces.forM addPiece).Ensures s
    (fun _ s' => s.Keeps s' ∧
      s'.tree.text = s.tree.text ++ String.join (pieces.map Piece.text)) H := by
  have h := Action.ensures_forM (H := H) (s := s) (l := pieces) (f := addPiece)
    (P := fun rest s' => s.Keeps s' ∧ s'.tree.text ++ String.join (rest.map Piece.text) =
      s.tree.text ++ String.join (pieces.map Piece.text)) ?_ ⟨.refl s,rfl⟩
  · refine h.mono (fun _ s' h' => ⟨h'.1,?_⟩) (fun _ _ h => h)
    simpa using h'.2
  · intro p rest s₁ h₁
    refine (addPiece_ensures p).mono (fun _ s' h' => ⟨h₁.1.trans h'.1,?_⟩) (fun _ _ h => h)
    rw [← h₁.2,h'.2.1]
    simp [String.join_cons,String.append_assoc]

end

lemma flushKeywords_ensures (node : Node) (buffer : String) :
    (flushKeywords env node buffer).Ensures s
      (fun _ s' => s.Keeps s' ∧ s'.tree.text = s.tree.text ++ buffer) (fun halt s' => s.Keeps s' ∧ halt.IsLegal) := by
  simp only [flushKeywords]
  cases node.keywords with
  | none =>
    simp only [Action.ensures_changeTree]
    exact ⟨⟨rfl,by simp,rfl,rfl,rfl,rfl⟩,by simp⟩
  | some table =>
    rw [Action.ensures_bind]
    refine Action.ensures_ofSearch (fun words hw => ?_) ⟨.refl s,trivial⟩
    refine (addPieces_ensures _).mono (fun _ s' h => ⟨h.1,?_⟩) (fun _ _ h => h)
    rw [h.2,join_piecesFrom _ _ _ (Regex.findAll_ascending hw),Source.slice_all]

lemma addEmbedded_ensures (node : Node) (sub : SubLanguage) (r : Result)
    {H : Halt → State → Prop} : (addEmbedded node sub r).Ensures s
      (fun _ s' => s.Keeps s' ∧ s'.tree.text = s.tree.text ++ Tree.texts r.tree) H := by
  have hcarry : ∀ c, s.Keeps (s.carry sub c) ∧ (s.carry sub c).tree = s.tree := by
    intro c
    simp only [State.carry]
    split <;> exact ⟨⟨rfl,rfl,rfl,rfl,rfl,rfl⟩,rfl⟩
  obtain ⟨hk,ht⟩ := hcarry r.continuation
  simp only [addEmbedded,Action.ensures_bind,Action.ensures_modify]
  split <;> simp only [Action.ensures_bind,Action.ensures_score,Action.ensures_changeTree] <;>
    exact ⟨hk.trans ⟨rfl,by simp,rfl,rfl,rfl,rfl⟩,by simp [ht]⟩

lemma flushEmbedded_ensures (node : Node) {sub : SubLanguage} (hsub : (env.node s.top).subLanguage = some sub)
    (buffer : String) : (flushEmbedded env node sub buffer).Ensures s
      (fun _ s' => s.Keeps s' ∧ (s.GivesBack env → s'.tree.text = s.tree.text ++ buffer))
      (fun halt s' => s.Keeps s' ∧ halt.IsLegal) := by
  simp only [flushEmbedded]
  split
  · rename_i hb
    rw [String.isEmpty_iff.mp hb]
    exact ⟨.refl s,fun _ => by simp⟩
  · simp only [Action.ensures_bind,Action.ensures_get]
    cases he : env.embed sub (s.carried sub) buffer with
    | none =>
      simp only [Action.ensures_changeTree]
      exact ⟨⟨rfl,by simp,rfl,rfl,rfl,rfl⟩,fun _ => by simp⟩
    | some run =>
      simp only [Action.ensures_bind]
      refine Action.ensures_ofCall (fun r keys hr => ?_) (fun e keys hr => ⟨⟨rfl,rfl,rfl,rfl,rfl,rfl⟩,trivial⟩)
      refine (addEmbedded_ensures node sub r).mono (fun _ s' h => ?_) (fun _ _ h => h)
      have hk : s.Keeps { s with assembled := keys } := ⟨rfl,rfl,rfl,rfl,rfl,rfl⟩
      refine ⟨hk.trans h.1,fun hf => ?_⟩
      rw [h.2,hf hsub he _ _ _ hr]

/-- Flushing empties the buffer into the tree and keeps all else but the score. -/
theorem flush_ensures (env : Env) (s : State) : (flush env).Ensures s
    (fun _ s' => s.Keeps s' ∧ s'.buffer = "" ∧ (s.GivesBack env → s'.tree.text = s.taken))
    (fun halt s' => s.Keeps s' ∧ halt.IsLegal) := by
  simp only [flush,Action.ensures_bind,Action.ensures_get]
  cases hsub : (env.node s.top).subLanguage with
  | none =>
    simp only [Action.ensures_bind,Action.ensures_setBuffer]
    refine (flushKeywords_ensures _ s.buffer).mono (fun _ s' h => ?_) (fun _ _ h => h)
    exact ⟨h.1.trans ⟨rfl,rfl,rfl,rfl,rfl,rfl⟩,trivial,fun _ => h.2⟩
  | some sub =>
    simp only [Action.ensures_bind,Action.ensures_setBuffer]
    refine (flushEmbedded_ensures _ hsub s.buffer).mono (fun _ s' h => ?_) (fun _ _ h => h)
    exact ⟨h.1.trans ⟨rfl,rfl,rfl,rfl,rfl,rfl⟩,trivial,h.2⟩

end Scan
end Highlight
