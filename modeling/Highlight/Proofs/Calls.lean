import Highlight.Highlighter
import Highlight.Proofs.Scan.Action

/-!
What calls of a highlighter come down to: scans by the tables of registered grammars, whose embedded
texts are highlighted by calls that may nest less deep.
-/
namespace Highlight

lemma Registry.mem_of_find? {r : Registry} {name key : String} {e : Entry}
    (h : r.find? name = some (key,e)) : (key,e) ∈ r.entries := by
  have hmem : ∀ {k : String}, r.entries.lookup k = some e → (k,e) ∈ r.entries := by
    intro k hk
    obtain ⟨before,after,hsplit,-⟩ := List.lookup_eq_some_iff.mp hk
    rw [hsplit]
    exact List.mem_append_right _ List.mem_cons_self
  simp only [find?] at h
  split at h
  · cases h
    exact hmem ‹_›
  · simp only [Option.bind_eq_bind,Option.bind_eq_some_iff,Option.pure_def,Option.some.injEq,
      Prod.mk.injEq] at h
    obtain ⟨k,-,e',he,rfl,rfl⟩ := h
    exact hmem he

namespace Scan

variable {env : Env} {c : Option Continuation}

lemma run_highlight (settings : Settings) (language code : String) (keys : List String) :
    (highlight env settings language code c).run keys =
      (conclude env settings language code (run env (.opened env.table c keys)).2
        (run env (.opened env.table c keys)).1,(run env (.opened env.table c keys)).2.assembled) :=
  rfl

/-- A result comes from what a scan concludes with. -/
lemma exists_run_of_highlight {settings : Settings} {language code : String} {keys keys' : List String}
    {r : Result} (h : (highlight env settings language code c).run keys = (.ok r,keys')) :
    ∃ outcome s, run env (.opened env.table c keys) = (outcome,s) ∧
      conclude env settings language code s outcome = .ok r := by
  rw [run_highlight] at h
  exact ⟨_,_,rfl,congrArg Prod.fst h⟩

end Scan

namespace Highlighter

variable {h : Highlighter} {run : Request → Call Result}

/-- A node table of a registered grammar. -/
def Assembles (h : Highlighter) (table : NodeTable) : Prop :=
  ∃ entry ∈ h.registry.entries, entry.2.grammar.assemble = .ok table

/-- What a request asks of a scan, given how embedded texts are highlighted. -/
def envFor (h : Highlighter) (run : Request → Call Result) (table : NodeTable) (q : Request) : Scan.Env :=
  { table, text := .ofString q.code, tolerant := q.tolerant
    safeMode := h.settings.safeMode, embed := h.embedBy run }

/-- The scan that a request comes down to. -/
def scan (h : Highlighter) (run : Request → Call Result) (table : NodeTable) (q : Request) :
    Call Result :=
  Scan.highlight (h.envFor run table q) h.settings q.name q.code q.continuation

/-- A call of a known grammar is a scan by its table. -/
lemma run_highlightWithin_succ {depth : Nat} {q : Request} {key : String} {entry : Entry}
    {table : NodeTable} (hfind : h.registry.find? q.name = some (key,entry))
    (htable : entry.table.get = .ok table) (keys : List String) :
    (h.highlightWithin (depth + 1) q).run keys =
      (h.scan (h.highlightWithin depth) table q).run (keys.insert key) := by
  rw [highlightWithin,hfind]
  dsimp only
  rw [htable]
  rfl

/-- A call is what a scan by the table of the grammar concludes with. -/
lemma exists_highlight_eq {q : Request} {key : String} {entry : Entry} {table : NodeTable}
    (hfind : h.registry.find? q.name = some (key,entry)) (htable : entry.grammar.assemble = .ok table)
    (keys : List String) : ∃ run, ∀ {outcome s},
      Scan.run (h.envFor run table q) (.opened table q.continuation (keys.insert key)) = (outcome,s) →
      ((h.highlight q).run keys).1 =
        Scan.conclude (h.envFor run table q) h.settings q.name q.code s outcome := by
  obtain ⟨depth,hdepth⟩ : ∃ depth, h.depthFor q.code = depth + 1 :=
    Nat.exists_eq_succ_of_ne_zero (by simp [depthFor,spareDepth])
  refine ⟨h.highlightWithin depth,fun {outcome s} hrun => ?_⟩
  rw [highlight,hdepth,run_highlightWithin_succ hfind (entry.table_get.trans htable),scan,
    Scan.run_highlight]
  dsimp only [envFor] at hrun ⊢
  rw [hrun]

/-- A highlighter that knows one grammar. -/
def only (name : String) (g : Grammar) : Highlighter := { registry := Registry.insert {} name g }

lemma find?_only (name : String) (g : Grammar) :
    (only name g).registry.find? name = some (Registry.key name,.ofGrammar g) := by
  simp [only,Registry.insert,Registry.store,Registry.find?]

/-- What the scan by the table of a grammar gives, a call for that grammar gives. -/
lemma highlightWithin_succ_gives {P : Result → Prop} {depth : Nat} {q : Request}
    (hscan : ∀ key entry table, h.registry.find? q.name = some (key,entry) →
      entry.grammar.assemble = .ok table → (h.scan (h.highlightWithin depth) table q).Gives P) :
    (h.highlightWithin (depth + 1) q).Gives P := by
  rw [highlightWithin]
  split
  · exact Call.gives_throw _
  · rename_i key entry hfind
    split
    · exact Call.gives_throw _
    · rename_i table htable
      rw [entry.table_get] at htable
      exact Call.Gives.bind (P := fun _ => True) (fun _ _ _ _ => trivial)
        (fun _ _ => hscan key entry table hfind htable)

/-- What a scan gives if the calls for embedded texts do, every call gives. -/
theorem highlightWithin_gives {P : Request → Result → Prop}
    (hscan : ∀ run q table, h.Assembles table → (∀ q, (run q).Gives (P q)) →
      (h.scan run table q).Gives (P q)) (depth : Nat) (q : Request) :
    (h.highlightWithin depth q).Gives (P q) := by
  induction depth generalizing q with
  | zero => exact Call.gives_throw _
  | succ depth ih =>
    exact highlightWithin_succ_gives (fun _ _ table hfind htable =>
      hscan _ q table ⟨_,Registry.mem_of_find? hfind,htable⟩ ih)

/-- Detection gives results of the candidates, or plain text. -/
lemma detectBy_gives {P : Result → Prop} {code : String}
    (hrun : ∀ name, (run { name, code, tolerant := true }).Gives P)
    (hplain : P (.plaintext Result.plaintextName code)) (candidates : List String) :
    (h.detectBy run candidates code).Gives (fun o => P o.best ∧ ∀ r, o.runnerUp = some r → P r) := by
  -- whatever is ranked came out of a run
  have hranked : ∀ ranking : Ranking,
      (∀ r, ranking.best = some r → P r) ∧ (∀ r, ranking.second = some r → P r) → ∀ r, P r →
      (∀ r', (ranking.add r).best = some r' → P r') ∧
        ∀ r', (ranking.add r).second = some r' → P r' := by
    intro ranking hranking r hr
    rw [Ranking.add]
    split
    · exact ⟨fun _ h => Option.some.inj h ▸ hr,hranking.1⟩
    · split
      · exact ⟨hranking.1,fun _ h => Option.some.inj h ▸ hr⟩
      · exact hranking
  rw [detectBy]
  refine Call.Gives.bind (P := fun ranking : Ranking =>
    (∀ r, ranking.best = some r → P r) ∧ ∀ r, ranking.second = some r → P r)
    (Call.gives_foldlM (fun ranking hranking name _ => ?_) ⟨nofun,nofun⟩) (fun ranking hranking => ?_)
  · exact (hrun name).bind (fun r hr => Call.gives_pure (hranked ranking hranking r hr))
  · refine Call.gives_pure ⟨?_,hranking.2⟩
    rw [Ranking.outcome]
    cases hbest : ranking.best with
    | none => exact hplain
    | some r => exact hranking.1 r hbest

/-- Embedded text is highlighted by calls that let illegal lexemes through. -/
lemma embedBy_gives {P : Result → Prop} {sub : SubLanguage} {c : Option Continuation} {code : String}
    {call : Call Result}
    (hrun : ∀ name c, (run { name, code, tolerant := true, continuation := c }).Gives P)
    (hplain : P (.plaintext Result.plaintextName code)) (h : h.embedBy run sub c code = some call) :
    call.Gives P := by
  cases sub with
  | named name =>
    simp only [embedBy] at h
    split at h
    · cases h
      exact hrun name c
    · cases h
  | auto listed =>
    cases h
    exact (detectBy_gives (fun name => hrun name none) hplain _).map (fun _ ho => ho.1)

end Highlighter
end Highlight
