import Highlight.Proofs.CallsInStep
import Highlight.Proofs.Except
import Highlight.Proofs.Registrations

/-!
What safe mode changes. It only tells what becomes of faults: where no fault occurs a call does the
same without it, and with it no fault ever gets out of a call, since plain text stands in for the
result of the scan that ran into it.
-/
namespace Highlight

/-- What gets out of a call in safe mode, if its grammar is known: that a grammar cannot be assembled,
or that there is no room for more embedded texts. -/
def HighlightError.GetsOut : HighlightError → Prop
  | .grammar _ | .embeddingTooDeep => True
  | _ => False

/-- Plain text in place of the result of a scan. -/
structure Result.IsFallback (code : String) (r : Result) : Prop where
  illegal : r.illegal = none
  relevance : r.relevance = 0
  value : r.value = Html.escape code
  tree : r.tree = if code = "" then [] else [.leaf code]

namespace Scan

variable (env : Env) {settings : Settings} {language code : String} {c : Option Continuation}

/-- A scan without safe mode gives no result with a fault. -/
lemma highlight_faultless (hsafe : env.safeMode = false) :
    (highlight env settings language code c).Gives (fun r => r.fault = none) := by
  intro keys r keys' hrun
  obtain ⟨outcome,s,-,hr⟩ := exists_run_of_highlight hrun
  match outcome with
  | .ok () => cases hr; rfl
  | .error (.illegal lexeme) => cases hr; rfl
  | .error (.fault f) =>
    rw [conclude,hsafe] at hr
    cases hr
  | .error (.error e) => cases hr

/-- A result with a fault is plain text. -/
lemma highlight_fallback : (highlight env settings language code c).Gives
    (fun r => r.fault.isSome → r.IsFallback code) := by
  intro keys r keys' hrun hfault
  obtain ⟨outcome,s,-,hr⟩ := exists_run_of_highlight hrun
  match outcome with
  | .ok () => cases hr; cases hfault
  | .error (.illegal lexeme) => cases hr; cases hfault
  | .error (.fault f) =>
    rw [conclude] at hr
    split at hr
    · cases hr
      exact ⟨rfl,rfl,rfl,by simp [Result.plaintext]⟩
    · cases hr
  | .error (.error e) => cases hr

end Scan

namespace Highlighter

variable {h : Highlighter}

/-- The highlighter with safe mode on or off. -/
def withSafeMode (h : Highlighter) (safeMode : Bool) : Highlighter :=
  { h with settings := { h.settings with safeMode } }

lemma embedBy_withSafeMode (safeMode : Bool) (run : Request → Call Result) :
    (h.withSafeMode safeMode).embedBy run = h.embedBy run := by
  funext sub c code
  cases sub <;> rfl

lemma highlightWithin_faultless (depth : Nat) (q : Request) :
    ((h.withSafeMode false).highlightWithin depth q).Gives (fun r => r.fault = none) := by
  refine highlightWithin_gives (P := fun _ r => r.fault = none) (fun run q table _ _ => ?_) depth q
  exact Scan.highlight_faultless ((h.withSafeMode false).envFor run table q) rfl

lemma highlightWithin_fallback (depth : Nat) (q : Request) :
    (h.highlightWithin depth q).Gives (fun r => r.fault.isSome → r.IsFallback q.code) := by
  refine highlightWithin_gives (P := fun q r => r.fault.isSome → r.IsFallback q.code)
    (fun run q table _ _ => ?_) depth q
  exact Scan.highlight_fallback (h.envFor run table q)

/-- A call in safe mode follows the same call without it, until that one fails. -/
lemma follows_withSafeMode (depth : Nat) (q : Request) :
    Follows (fun _ => True) (fun _ => False) ((h.withSafeMode false).highlightWithin depth q)
      ((h.withSafeMode true).highlightWithin depth q) := by
  induction depth generalizing q with
  | zero => exact fun _ => .inl trivial
  | succ depth ih =>
    refine follows_highlightWithin_succ rfl (.inr (.inl trivial)) (fun _ _ _ _ => .inl trivial)
      (fun table => ?_)
    have hembed : ∀ sub c code, Option.Rel (Follows (fun _ => True) (fun _ => False))
        ((h.withSafeMode false).embedBy ((h.withSafeMode false).highlightWithin depth) sub c code)
        ((h.withSafeMode true).embedBy ((h.withSafeMode true).highlightWithin depth) sub c code) := by
      rw [embedBy_withSafeMode,embedBy_withSafeMode]
      exact follows_embedBy (fun q _ => ih q)
    refine Scan.follows_highlight (leads_envFor (Scan.Halt.Among False True (fun _ => True))
      (Scan.Halt.Among True False (fun _ => False)) (fun _ => .inr trivial)
      (fun _ => .inl trivial) (.inr ⟨rfl,fun _ => trivial⟩) hembed) rfl (fun halt hhalt => ?_)
      (fun halt hhalt => ?_) _ _ _
    · cases halt with
      | illegal lexeme => exact hhalt.elim
      | fault f => exact ⟨.fault f,rfl,trivial⟩
      | error e => exact ⟨e,rfl,trivial⟩
    · cases halt with
      | illegal lexeme => exact ⟨rfl,nofun⟩
      | fault f => exact hhalt.elim
      | error e => exact hhalt.elim

/-- Where a call succeeds without safe mode, it gives the same result in safe mode, and no fault is
reported. -/
theorem succeeds_withSafeMode (h : Highlighter) :
    (∀ q keys r keys', ((h.withSafeMode false).highlight q).run keys = (.ok r,keys') →
      ((h.withSafeMode true).highlight q).run keys = (.ok r,keys') ∧ r.fault = none) ∧
    (∀ candidates code keys o keys',
      ((h.withSafeMode false).detectAmong candidates code).run keys = (.ok o,keys') →
      ((h.withSafeMode true).detectAmong candidates code).run keys = (.ok o,keys') ∧
        o.best.fault = none ∧ ∀ r, o.runnerUp = some r → r.fault = none) ∧
    ∀ code keys o keys', ((h.withSafeMode false).detect code).run keys = (.ok o,keys') →
      ((h.withSafeMode true).detect code).run keys = (.ok o,keys') ∧
        o.best.fault = none ∧ ∀ r, o.runnerUp = some r → r.fault = none := by
  have hdetect : ∀ candidates code keys o keys',
      ((h.withSafeMode false).detectAmong candidates code).run keys = (.ok o,keys') →
      ((h.withSafeMode true).detectAmong candidates code).run keys = (.ok o,keys') ∧
        o.best.fault = none ∧ ∀ r, o.runnerUp = some r → r.fault = none := by
    intro candidates code keys o keys' hrun
    have hfollows : Follows (fun _ => True) (fun _ => False)
        ((h.withSafeMode false).detectAmong candidates code)
        ((h.withSafeMode true).detectAmong candidates code) :=
      follows_detectBy (h := h) (fun name _ => follows_withSafeMode _ _) candidates
    have hgives : ((h.withSafeMode false).detectAmong candidates code).Gives
        (fun o => o.best.fault = none ∧ ∀ r, o.runnerUp = some r → r.fault = none) :=
      detectBy_gives (fun name => highlightWithin_faultless _ _) rfl candidates
    exact ⟨hfollows.ok hrun,hgives _ _ _ hrun⟩
  exact ⟨fun q _ _ _ hrun => ⟨(follows_withSafeMode _ q).ok hrun,highlightWithin_faultless _ q _ _ _ hrun⟩,
    hdetect,fun code => hdetect _ code⟩

/-- Two grammars that highlight what is in angle brackets by each other. -/
def mutuallyEmbedding : Highlighter :=
  let embedding (name other : String) : Grammar := {
    name, root := { contains := some [.mode 0] }
    modes := #[{ beginPattern := some "<", endPattern := some ">", subLanguage := some (.named other)
                 switches := { Switches.unset with excludeBegin := some true } }] }
  { registry := (Registry.insert {} "p" (embedding "p" "q")).insert "q" (embedding "q" "p") }

theorem succeeds_withSafeMode_embedded :
    (∃ r keys, ((mutuallyEmbedding.withSafeMode false).highlight
        { name := "p", code := "a<b<c" }).run [] = (.ok r,keys) ∧
      ((mutuallyEmbedding.withSafeMode true).highlight
        { name := "p", code := "a<b<c" }).run [] = (.ok r,keys) ∧ r.fault = none) ∧
    ∃ o keys, ((mutuallyEmbedding.withSafeMode false).detect "a<b<c").run [] = (.ok o,keys) ∧
      ((mutuallyEmbedding.withSafeMode true).detect "a<b<c").run [] = (.ok o,keys) ∧
        o.best.fault = none := by
  obtain ⟨r,keys,hrun,-⟩ := exists_ok_of_any (x := ((mutuallyEmbedding.withSafeMode false).highlight
    { name := "p", code := "a<b<c" }).run []) (fun _ => true) (by decide +kernel)
  obtain ⟨o,keys',hdetect,-⟩ := exists_ok_of_any (x := ((mutuallyEmbedding.withSafeMode false).detect
    "a<b<c").run []) (fun _ => true) (by decide +kernel)
  have hsafe := (succeeds_withSafeMode mutuallyEmbedding).2.2 _ _ _ _ hdetect
  exact ⟨⟨r,keys,hrun,(succeeds_withSafeMode mutuallyEmbedding).1 _ _ _ _ hrun⟩,
    o,keys',hdetect,hsafe.1,hsafe.2.1⟩

/-- In safe mode a call for a known grammar fails for want of room only, or if a grammar cannot be
assembled. -/
lemma highlightWithin_fails (hsafe : h.settings.safeMode = true) {P : HighlightError → Prop}
    (hdeep : P .embeddingTooDeep)
    (hgrammar : ∀ entry ∈ h.registry.entries, ∀ e, entry.2.grammar.assemble = .error e → P (.grammar e))
    (depth : Nat) (q : Request) (hknown : h.registry.contains q.name = true) :
    Follows (fun _ => False) P (h.highlightWithin depth q) (h.highlightWithin depth q) := by
  induction depth generalizing q with
  | zero => exact fun _ => .inr ⟨hdeep,rfl⟩
  | succ depth ih =>
    refine follows_highlightWithin_succ rfl (.inl hknown)
      (fun entry hentry e he => .inr (hgrammar entry hentry e he)) (fun table => ?_)
    refine Scan.follows_highlight (leads_envFor (Scan.Halt.Among False False (fun _ => False))
      (Scan.Halt.Among True True P) (fun _ => .inr trivial)
      (fun _ => .inr trivial) (.inl rfl) (follows_embedBy ih)) rfl (fun halt hhalt => ?_)
      (fun halt hhalt => ⟨rfl,fun e he => ?_⟩) _ _ _
    · cases halt <;> exact hhalt.elim
    · cases halt with
      | illegal lexeme => cases he
      | fault f =>
        rw [Scan.Halt.failure,show (h.envFor _ table q).safeMode = true from hsafe] at he
        cases he
      | error e' =>
        cases he
        exact hhalt

lemma highlightWithin_getsOut (hsafe : h.settings.safeMode = true) (depth : Nat) (q : Request)
    (hknown : h.registry.contains q.name = true) :
    Follows (fun _ => False) HighlightError.GetsOut (h.highlightWithin depth q)
      (h.highlightWithin depth q) :=
  highlightWithin_fails hsafe trivial (fun _ _ _ _ => trivial) depth q hknown

lemma highlight_unknown {q : Request} (hunknown : h.registry.contains q.name = false) :
    h.registry.find? q.name = none ∧ h.highlight q = throw (.unknownGrammar q.name) := by
  have hfind : h.registry.find? q.name = none := by
    rw [Registry.contains] at hunknown
    exact Option.isNone_iff_eq_none.mp (by simpa using hunknown)
  exact ⟨hfind,by rw [highlight,depthFor,spareDepth,highlightWithin,hfind]⟩

lemma highlight_error (hsafe : h.settings.safeMode = true) {q : Request} {keys keys' : List String}
    {e : HighlightError} (hrun : (h.highlight q).run keys = (.error e,keys')) :
    (e = .unknownGrammar q.name ∧ h.registry.find? q.name = none ∧
      (h.registry.Built → ¬ h.registry.Declares q.name)) ∨
    (∃ g, e = .grammar g) ∨
    e = .embeddingTooDeep ∧ CutShort (h.highlightWithin · q) (h.depthFor q.code) keys := by
  cases hknown : h.registry.contains q.name with
  | false =>
    obtain ⟨hfind,hthrow⟩ := highlight_unknown hknown
    rw [hthrow] at hrun
    cases hrun
    exact .inl ⟨rfl,hfind,fun hbuilt => hbuilt.find?_eq_none.mp hfind⟩
  | true =>
    obtain ⟨he,-⟩ := ((highlightWithin_getsOut hsafe _ q hknown).error hrun).resolve_left id
    cases e with
    | grammar g => exact .inr (.inl ⟨g,rfl⟩)
    | embeddingTooDeep =>
      exact .inr (.inr ⟨rfl,cutShort_of_error (fun depth => follows_deeper depth q)
        (congrArg Prod.fst hrun)⟩)
    | _ => exact he.elim

lemma detectAmong_error (hsafe : h.settings.safeMode = true) {candidates : List String} {code : String}
    {keys keys' : List String} {e : HighlightError}
    (hrun : (h.detectAmong candidates code).run keys = (.error e,keys')) :
    (∃ g, e = .grammar g) ∨ e = .embeddingTooDeep ∧
      CutShort (fun depth => h.detectBy (h.highlightWithin depth) candidates code) (h.depthFor code) keys := by
  have hfails : Follows (fun _ => False) HighlightError.GetsOut (h.detectAmong candidates code)
      (h.detectAmong candidates code) :=
    follows_detectBy (fun name hname => highlightWithin_getsOut hsafe _ _ hname) candidates
  obtain ⟨he,-⟩ := (hfails.error hrun).resolve_left id
  cases e with
  | grammar g => exact .inl ⟨g,rfl⟩
  | embeddingTooDeep =>
    exact .inr ⟨rfl,cutShort_of_error (fun depth => follows_deeper_detectBy depth candidates code)
      (congrArg Prod.fst hrun)⟩
  | _ => exact he.elim

/-- In safe mode no fault gets out of a call. It fails if its own grammar is not known, or if a
grammar cannot be assembled, its own or one of an embedded text; otherwise the embedded texts were
nested too deep for the call. A fault that is reported with a result has made plain text of it. -/
theorem errors_inSafeMode (h : Highlighter) (hsafe : h.settings.safeMode = true) :
    (∀ q keys e keys', (h.highlight q).run keys = (.error e,keys') →
      (e = .unknownGrammar q.name ∧ h.registry.find? q.name = none ∧
        (h.registry.Built → ¬ h.registry.Declares q.name)) ∨
      (∃ g, e = .grammar g) ∨
      e = .embeddingTooDeep ∧ CutShort (h.highlightWithin · q) (h.depthFor q.code) keys) ∧
    (∀ candidates code keys e keys', (h.detectAmong candidates code).run keys = (.error e,keys') →
      (∃ g, e = .grammar g) ∨ e = .embeddingTooDeep ∧
        CutShort (fun depth => h.detectBy (h.highlightWithin depth) candidates code) (h.depthFor code) keys) ∧
    (∀ code keys e keys', (h.detect code).run keys = (.error e,keys') →
      (∃ g, e = .grammar g) ∨ e = .embeddingTooDeep ∧
        CutShort (fun depth => h.detectBy (h.highlightWithin depth) h.candidates code) (h.depthFor code) keys) ∧
    (∀ q, (h.highlight q).Gives (fun r => r.fault.isSome → r.IsFallback q.code)) ∧
    ∀ candidates code, (h.detectAmong candidates code).Gives (fun o =>
      (o.best.fault.isSome → o.best.IsFallback code) ∧
        ∀ r, o.runnerUp = some r → r.fault.isSome → r.IsFallback code) := by
  refine ⟨fun _ _ _ _ hrun => highlight_error hsafe hrun,
    fun _ _ _ _ _ hrun => detectAmong_error hsafe hrun,
    fun _ _ _ _ hrun => detectAmong_error hsafe hrun,
    fun q => highlightWithin_fallback _ q,fun candidates code => ?_⟩
  exact detectBy_gives (P := fun r => r.fault.isSome → r.IsFallback code)
    (fun name => highlightWithin_fallback _ { name, code, tolerant := true })
    (fun hfault => by cases hfault) candidates

/-- A grammar whose matcher cannot be rebuilt without its first rule, which is ignored wherever it
matches: what is left refers to a group that there is no more. -/
def dangling : Grammar where
  name := "dangling"
  root := { contains := some [.mode 0,.mode 1] }
  modes := #[
    { beginPattern := some "(a)(b)", beginGuard := some (.custom fun _ => .ignore) },
    { beginPattern := some "c\\k<2>" }]

theorem errors_inSafeMode_dangling :
    let h : Highlighter := { registry := Registry.insert {} "dangling" dangling }
    h.settings.safeMode = true ∧
    (∃ r keys, (h.highlight { name := "dangling", code := "ab&" }).run [] = (.ok r,keys) ∧
      r.fault.isSome ∧ r.value = "ab&amp;" ∧ r.tree = [.leaf "ab&"]) ∧
    ∃ keys, (h.highlight { name := "Other", code := "ab&" }).run [] =
      (.error (.unknownGrammar "Other"),keys) ∧ ¬ h.registry.Declares "Other" := by
  intro h
  have hbuilt : h.registry.Built := .insert .empty "dangling" dangling
  obtain ⟨r,keys,hrun,hfault⟩ := exists_ok_of_any (x := (h.highlight { name := "dangling", code := "ab&" }).run [])
    (·.fault.isSome) (by decide +kernel)
  have hfallback : r.IsFallback "ab&" := (errors_inSafeMode h rfl).2.2.2.1 _ _ _ _ hrun hfault
  refine ⟨rfl,⟨r,keys,hrun,hfault,hfallback.value.trans (by decide +kernel),hfallback.tree⟩,[],rfl,?_⟩
  rcases (errors_inSafeMode h rfl).1 { name := "Other", code := "ab&" } [] _ [] rfl with
    ⟨-,-,hnone⟩ | ⟨_,he⟩ | ⟨he,-⟩
  · exact hnone hbuilt
  · cases he
  · cases he

end Highlighter
end Highlight
