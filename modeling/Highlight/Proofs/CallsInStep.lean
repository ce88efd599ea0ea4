import Highlight.Proofs.Calls
import Highlight.Proofs.Scan.LockStep

/-!
Calls of a highlighter side by side. They follow each other if their scans do; the grammars embedded
in a scan are called one level deeper.
-/
namespace Highlight

namespace Scan

/-- What a scan that halts fails with. It does not fail at an illegal lexeme, nor at a fault if plain
text stands in for that. -/
def Halt.failure (safeMode : Bool) : Halt → Option HighlightError
  | .illegal _ => none
  | .fault f => if safeMode then none else some (.fault f)
  | .error e => some e

/-- The halts at illegal lexemes or faults, if these count, and those at some errors. -/
def Halt.Among (illegal fault : Prop) (error : HighlightError → Prop) : Halt → Prop
  | .illegal _ => illegal
  | .fault _ => fault
  | .error e => error e

variable {parts shares : Halt → Prop} {env env' : Env} {settings settings' : Settings}

lemma conclude_eq_error {language code : String} {s : State} {halt : Halt} {e : HighlightError} :
    conclude env settings language code s (.error halt) = .error e ↔
      halt.failure env.safeMode = some e := by
  cases halt with
  | illegal lexeme => exact ⟨nofun,nofun⟩
  | fault f => cases hsafe : env.safeMode <;> simp [conclude,Halt.failure,hsafe]
  | error e => simp [conclude,Halt.failure]

/-- Scans that halt alike are concluded alike, if the halt fails both of them or neither. -/
lemma Env.Leads.conclude (h : env.Leads parts shares env')
    (hclass : settings'.classPrefix = settings.classPrefix) (language code : String) (s : State)
    {outcome : Except Halt Unit}
    (hfailure : ∀ halt, outcome = .error halt → halt.failure env'.safeMode = halt.failure env.safeMode) :
    conclude env' settings' language code s outcome = conclude env settings language code s outcome := by
  obtain ⟨_,_,_,rfl⟩ := h.exists_eq
  match outcome with
  | .ok () => rw [Scan.conclude,Scan.conclude,hclass]
  | .error (.illegal lexeme) =>
    have hreport : report env settings' s lexeme = report env settings s lexeme := by
      unfold report
      rw [hclass]
    rw [Scan.conclude,Scan.conclude,← hreport]
    rfl
  | .error (.fault f) =>
    have hsafe := hfailure _ rfl
    cases hs : env.safeMode <;> simp_all [Scan.conclude,Halt.failure]
  | .error (.error e) => rfl

/-- One scan of a call follows another if what they part at fails the first. -/
theorem follows_highlight (h : env.Leads parts shares env')
    (hclass : settings'.classPrefix = settings.classPrefix) {parts' shares' : HighlightError → Prop}
    (hparts : ∀ halt, parts halt → ∃ e, halt.failure env.safeMode = some e ∧ parts' e)
    (hshares : ∀ halt, shares halt → halt.failure env'.safeMode = halt.failure env.safeMode ∧
      ∀ e, halt.failure env.safeMode = some e → shares' e)
    (language code : String) (c : Option Continuation) :
    Follows parts' shares' (highlight env settings language code c)
      (highlight env' settings' language code c) := by
  intro keys
  rw [run_highlight,run_highlight,h.table]
  rcases hrun : run env (.opened env.table c keys) with ⟨halt | _,s⟩
  · rcases (follows_run h).error hrun with hp | ⟨hs,hrun'⟩
    · obtain ⟨e,he,hpe⟩ := hparts halt hp
      rw [conclude_eq_error.mpr he]
      exact .inl hpe
    · rw [show run env' (.opened env.table c keys) = (.error halt,s) from hrun',
        h.conclude hclass _ _ _ (fun halt' he => Except.error.inj he ▸ (hshares halt hs).1)]
      cases hc : conclude env settings language code s (.error halt) with
      | error e => exact .inr ⟨(hshares halt hs).2 e (conclude_eq_error.mp hc),rfl⟩
      | ok r => rfl
  · rw [show run env' (.opened env.table c keys) = (.ok (),s) from (follows_run h).ok hrun,
      h.conclude hclass _ _ _ (fun _ he => by cases he)]
    rfl

end Scan

namespace Highlighter

variable {h h' : Highlighter} {run run' : Request → Call Result} {parts shares : HighlightError → Prop}

lemma contains_of_isDetected {r : Registry} {name : String} (h : r.isDetected name = true) :
    r.contains name = true := by
  rw [Registry.contains]
  rw [Registry.isDetected] at h
  cases hf : r.find? name with
  | none => simp [hf] at h
  | some e => rfl

lemma follows_detectBy {code : String}
    (hrun : ∀ name, h.registry.contains name = true →
      Follows parts shares (run { name, code, tolerant := true }) (run' { name, code, tolerant := true }))
    (candidates : List String) :
    Follows parts shares (h.detectBy run candidates code) (h.detectBy run' candidates code) := by
  refine (follows_foldlM (fun ranking name hname => ?_) _).bind (fun _ _ => rfl)
  have hname := contains_of_isDetected (List.mem_filter.mp hname).2
  exact (hrun name hname).bind (fun _ _ => rfl)

/-- Embedded text is highlighted by grammars that are known. -/
lemma follows_embedBy
    (hrun : ∀ q, h.registry.contains q.name = true → Follows parts shares (run q) (run' q))
    (sub : SubLanguage) (c : Option Continuation) (code : String) :
    Option.Rel (Follows parts shares) (h.embedBy run sub c code) (h.embedBy run' sub c code) := by
  cases sub with
  | named name =>
    simp only [embedBy]
    split
    · exact .some (hrun _ ‹_›)
    · exact .none
  | auto listed => exact .some ((follows_detectBy (fun name hname => hrun _ hname) _).map _)

/-- Calls follow each other if their scans do, and if they may fail for want of a grammar where there
is none. -/
lemma follows_highlightWithin_succ {depth depth' : Nat} {q : Request}
    (hregistry : h'.registry = h.registry)
    (hunknown : h.registry.contains q.name = true ∨
      parts (.unknownGrammar q.name) ∨ shares (.unknownGrammar q.name))
    (hgrammar : ∀ entry ∈ h.registry.entries, ∀ e, entry.2.grammar.assemble = .error e →
      parts (.grammar e) ∨ shares (.grammar e))
    (hscan : ∀ table, Follows parts shares (h.scan (h.highlightWithin depth) table q)
      (h'.scan (h'.highlightWithin depth') table q)) :
    Follows parts shares (h.highlightWithin (depth + 1) q) (h'.highlightWithin (depth' + 1) q) := by
  rw [highlightWithin,highlightWithin,hregistry]
  split
  · rename_i hfind
    rcases hunknown with hknown | hunknown
    · rw [Registry.contains,hfind] at hknown
      cases hknown
    · exact follows_throw hunknown
  · rename_i key entry hfind
    split
    · rename_i e he
      exact follows_throw (hgrammar _ (Registry.mem_of_find? hfind) e (entry.table_get.symm.trans he))
    · exact Follows.bind (fun _ => rfl) (fun _ => hscan _)

/-- Scans for one request follow each other if the calls for embedded texts do. -/
lemma leads_envFor (parts shares : Scan.Halt → Prop) {table : NodeTable} {q : Request}
    (hillegal : ∀ lexeme, parts (.illegal lexeme) ∨ shares (.illegal lexeme))
    (hfault : ∀ f, parts (.fault f) ∨ shares (.fault f))
    (hsafe : h'.settings.safeMode = h.settings.safeMode ∨
      h.settings.safeMode = false ∧ ∀ f, parts (.fault f))
    (hembed : ∀ sub c code, Option.Rel (Follows (parts ∘ .error) (shares ∘ .error))
      (h.embedBy run sub c code) (h'.embedBy run' sub c code)) :
    (h.envFor run table q).Leads parts shares (h'.envFor run' table q) :=
  ⟨rfl,rfl,hillegal,hfault,.inl rfl,hsafe,hembed⟩

/-- A call that has room for another level of embedded texts does the same, unless it was cut short
for want of room. -/
theorem follows_deeper (depth : Nat) (q : Request) :
    Follows (· = .embeddingTooDeep) (fun _ => True) (h.highlightWithin depth q)
      (h.highlightWithin (depth + 1) q) := by
  induction depth generalizing q with
  | zero => exact fun _ => .inl rfl
  | succ depth ih =>
    refine follows_highlightWithin_succ rfl (.inr (.inr trivial)) (fun _ _ _ _ => .inr trivial)
      (fun table => ?_)
    refine Scan.follows_highlight (leads_envFor (Scan.Halt.Among False False (· = .embeddingTooDeep))
      (fun _ => True) (fun _ => .inr trivial) (fun _ => .inr trivial) (.inl rfl)
      (follows_embedBy (fun q _ => ih q))) rfl (fun halt hhalt => ?_) (fun _ _ => ⟨rfl,fun _ _ => trivial⟩) _ _ _
    cases halt with
    | illegal lexeme => exact hhalt.elim
    | fault f => exact hhalt.elim
    | error e => exact ⟨e,rfl,hhalt⟩

lemma follows_deeper_detectBy (depth : Nat) (candidates : List String) (code : String) :
    Follows (· = .embeddingTooDeep) (fun _ => True)
      (h.detectBy (h.highlightWithin depth) candidates code)
      (h.detectBy (h.highlightWithin (depth + 1)) candidates code) :=
  follows_detectBy (fun _ _ => follows_deeper depth _) candidates

/-- A call fails for want of room for embedded texts, and fails with any less room as well. -/
def CutShort {α : Type} (x : Nat → Call α) (room : Nat) (keys : List String) : Prop :=
  ∀ depth ≤ room, ((x depth).run keys).1 = .error .embeddingTooDeep

lemma cutShort_of_error {α : Type} {x : Nat → Call α} {keys : List String}
    (hx : ∀ depth, Follows (· = .embeddingTooDeep) (fun _ => True) (x depth) (x (depth + 1)))
    {room : Nat} (h : ((x room).run keys).1 = .error .embeddingTooDeep) : CutShort x room keys := by
  intro depth hle
  induction hle with
  | refl => exact h
  | @step room _ ih =>
    apply ih
    rcases hrun : (x room).run keys with ⟨e | a,keys'⟩
    · rcases (hx room).error hrun with he | ⟨-,hrun'⟩
      · rw [he]
      · rw [hrun'] at h
        exact h
    · rw [(hx room).ok hrun] at h
      cases h

end Highlighter
end Highlight
