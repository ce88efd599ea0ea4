import Highlight.Proofs.Detection
import Highlight.Proofs.SafeMode
import Highlight.Proofs.Scan.Probe
import Mathlib.Data.List.Perm.Subperm
import Mathlib.Data.List.Sublists
import Mathlib.Logic.Relation

/-!
Which calls return. An embedded text is a part of the text around it, so the calls for embedded texts
nest for ever only if some text is handed on unchanged for ever. As there are only so many grammars,
it is then handed round by some of them.
-/
namespace Highlight

open Relation (TransGen)

namespace Call

variable {α β : Type}

/-- A call is cut short, whatever is assembled before it. -/
def Stops (c : Call α) : Prop := ∀ keys, (c.run keys).1 = .error .embeddingTooDeep

lemma Steady.stops {c : Call α} (hc : c.Steady) {keys : List String}
    (h : (c.run keys).1 = .error .embeddingTooDeep) : c.Stops :=
  fun keys' => (hc keys' keys).trans h

lemma run_map (f : α → β) (c : Call α) (keys : List String) :
    ((f <$> c).run keys).1 = f <$> (c.run keys).1 := by
  rw [← bind_pure_comp,run_bind_fst]
  cases (c.run keys).1 <;> rfl

end Call

namespace Highlighter

variable {h : Highlighter} {run : Request → Call Result} {table : NodeTable} {q : Request}
variable {sub : SubLanguage} {text name key : String}

/-- The grammars that are called for text of a sub-language. -/
def Calls (h : Highlighter) (sub : SubLanguage) (name : String) : Prop :=
  match sub with
  | .named embedded => name = embedded ∧ h.registry.contains embedded = true
  | .auto listed =>
    name ∈ (if listed.isEmpty then h.candidates else listed).filter h.registry.isDetected

lemma Calls.contains (hcalls : h.Calls sub name) : h.registry.contains name = true := by
  cases sub with
  | named embedded => exact hcalls.1 ▸ hcalls.2
  | auto listed => exact contains_of_isDetected (List.mem_filter.mp hcalls).2

/-- An embedded text whose call fails was embedded in a grammar whose call fails alike. -/
lemma exists_of_embedBy_error (hrun : ∀ q, (run q).Steady) {c : Option Continuation} {call : Call Result}
    (hcall : h.embedBy run sub c text = some call) {keys : List String} {e : HighlightError}
    (he : (call.run keys).1 = .error e) : ∃ name c', h.Calls sub name ∧ (c = none → c' = none) ∧
      ((run { name, code := text, tolerant := true, continuation := c' }).run keys).1 = .error e := by
  cases sub with
  | named embedded =>
    simp only [embedBy] at hcall
    split at hcall
    · rename_i hknown
      cases hcall
      exact ⟨embedded,c,⟨rfl,hknown⟩,id,he⟩
    · cases hcall
  | auto listed =>
    cases hcall
    rw [Call.run_map,run_detectBy hrun _ text keys keys] at he
    cases hm : ((if listed.isEmpty then h.candidates else listed).filter h.registry.isDetected).mapM
        (fun name => ((run { name, code := text, tolerant := true }).run keys).1) with
    | ok results =>
      rw [hm] at he
      cases he
    | error e' =>
      rw [hm] at he
      cases he
      obtain ⟨name,hname,hfails⟩ := exists_of_list_mapM_eq_error hm
      exact ⟨name,none,hname,fun _ => rfl,hfails⟩

/-- An embedded text is cut short if the call for a grammar that it is embedded in is, and no call
fails otherwise. -/
lemma exists_embedBy_stops (hrun : ∀ q, (run q).Steady)
    (hfails : ∀ name, h.registry.contains name = true → ∀ keys e,
      ((run { name, code := text, tolerant := true }).run keys).1 = .error e → e = .embeddingTooDeep)
    (hcalls : h.Calls sub name) (hstops : (run { name, code := text, tolerant := true }).Stops) :
    ∃ call, h.embedBy run sub none text = some call ∧ call.Stops := by
  cases sub with
  | named embedded =>
    obtain ⟨rfl,hknown⟩ := hcalls
    exact ⟨_,by simp only [embedBy,hknown,if_true],hstops⟩
  | auto listed =>
    refine ⟨_,rfl,fun keys => ?_⟩
    rw [Call.run_map,run_detectBy hrun _ text keys keys,list_mapM_eq_error_of_mem (fun name' hname' e he =>
      hfails name' (contains_of_isDetected (List.mem_filter.mp hname').2) keys e he) hcalls (hstops keys)]
    rfl

/-- Plain text stands in for embedded texts, but calls for one grammar on one text are cut short. -/
def probe (h : Highlighter) (key text : String) (q : Request) : Call Result :=
  if (h.registry.find? q.name).map Prod.fst = some key ∧ q.code = text then throw .embeddingTooDeep
  else pure (.plaintext q.name q.code)

lemma steady_probe (key text : String) (q : Request) : (h.probe key text q).Steady := by
  rw [probe]
  split
  · exact Call.steady_throw _
  · exact Call.steady_pure _

lemma run_probe_eq_error {keys : List String} {e : HighlightError}
    (he : ((h.probe key text q).run keys).1 = .error e) :
    (h.registry.find? q.name).map Prod.fst = some key ∧ q.code = text ∧ e = .embeddingTooDeep := by
  rw [probe] at he
  split at he
  · rename_i hq
    cases he
    exact ⟨hq.1,hq.2,rfl⟩
  · cases he

lemma probe_stops {entry : Entry} (hfind : h.registry.find? q.name = some (key,entry)) :
    (h.probe key q.code q).Stops := by
  intro keys
  rw [probe,if_pos ⟨by rw [hfind]; rfl,rfl⟩]
  rfl

/-- A grammar hands a text on: when it highlights the text, it embeds all of it in the other grammar. -/
def HandsOn (h : Highlighter) (text key key' : String) : Prop :=
  ∃ entry table, h.registry.entries.lookup key = some entry ∧ entry.grammar.assemble = .ok table ∧
    key' ∈ h.registry.names ∧
    (h.scan (h.probe key' text) table { name := key, code := text, tolerant := true }).Stops

lemma steady_scan (hrun : ∀ q, (run q).Steady) (table : NodeTable) (q : Request) :
    (h.scan run table q).Steady :=
  Scan.steady_highlight (steady_envFor hrun table q) _ _ _ _

lemma scan_stops_iff (hrun : ∀ q, (run q).Steady) (keys : List String) :
    (h.scan run table q).Stops ↔
      (Scan.run (h.envFor run table q) (.opened table q.continuation keys)).1 = .error .tooDeep := by
  have hconclude : ((h.scan run table q).run keys).1 = .error .embeddingTooDeep ↔
      (Scan.run (h.envFor run table q) (.opened table q.continuation keys)).1 = .error .tooDeep := by
    rw [scan,Scan.run_highlight]
    dsimp only [envFor]
    generalize (Scan.run _ _).1 = outcome
    rcases outcome with (lexeme | f | e) | _
    · exact ⟨fun he => (by cases he),fun he => (by cases he)⟩
    · rw [Scan.conclude_eq_error]
      cases h.settings.safeMode <;> exact ⟨fun he => (by cases he),fun he => (by cases he)⟩
    · rw [Scan.conclude_eq_error]
      exact ⟨fun he => by cases he; rfl,fun he => by cases he; rfl⟩
    · exact ⟨fun he => (by cases he),fun he => (by cases he)⟩
  exact ⟨fun hstops => hconclude.mp (hstops keys),
    fun hstops => (steady_scan hrun table q).stops (hconclude.mpr hstops)⟩

/-- Where a scan is cut short although no part of its text is, the whole text is embedded in some
grammar. -/
lemma exists_handed (hrun : ∀ q, (run q).Steady) (hspells : ∀ q, (run q).Gives (SpellsOut q))
    (htable : table.HandsBackOnce)
    (hpart : ∀ q', q'.code.toList <:+: q.code.toList → q'.code.length < q.code.length →
      ¬ (run q').Stops)
    (hstops : (h.scan run table q).Stops) :
    ∃ name key entry, h.registry.find? name = some (key,entry) ∧
      (run { name, code := q.code, tolerant := true }).Stops ∧
      (h.scan (h.probe key q.code) table q).Stops := by
  let probes (e : Scan.Embed) : Prop := ∃ name key entry, h.registry.find? name = some (key,entry) ∧
    (run { name, code := q.code, tolerant := true }).Stops ∧ e = h.embedBy (h.probe key q.code)
  have htext : (h.envFor run table q).text.toString = q.code := Source.toString_ofString q.code
  have hprobed : Scan.Probed (h.envFor run table q) probes := by
    refine ⟨fun hembed => ?_,fun hcall hwithin hlt keys he => ?_,fun hcall he => ?_⟩
    · exact embedBy_gives (fun name c => (hspells _).mono (fun r hr => hr.2 (hr.1 rfl)))
        (Scan.texts_plaintext _ _) hembed
    · obtain ⟨name,c,-,-,hfails⟩ := exists_of_embedBy_error hrun hcall he
      exact hpart _ hwithin hlt ((hrun _).stops hfails)
    · rw [htext] at hcall
      obtain ⟨name,c,hcalls,hnone,hfails⟩ := exists_of_embedBy_error hrun hcall he
      obtain rfl := hnone rfl
      obtain ⟨⟨key,entry⟩,hfind⟩ := Option.isSome_iff_exists.mp hcalls.contains
      obtain ⟨call,hprobe,hstops⟩ := exists_embedBy_stops (steady_probe key q.code)
        (fun _ _ _ _ he => (run_probe_eq_error he).2.2) hcalls (probe_stops hfind)
      rw [htext]
      exact ⟨_,call,⟨name,key,entry,hfind,(hrun _).stops hfails,rfl⟩,hprobe,hstops⟩
  obtain ⟨_,⟨name,key,entry,hfind,hcut,rfl⟩,hprobe⟩ :=
    Scan.exists_probe_cutShort hprobed htable ((scan_stops_iff hrun []).mp hstops)
  exact ⟨name,key,entry,hfind,hcut,(scan_stops_iff (steady_probe key q.code) []).mpr hprobe⟩

/-- What a grammar is called does not matter to its scan. -/
lemma scan_stops_name (hrun : ∀ q, (run q).Steady) (name : String) :
    (h.scan run table { q with name }).Stops ↔ (h.scan run table q).Stops := by
  rw [scan_stops_iff hrun [],scan_stops_iff hrun []]
  rfl

lemma highlightWithin_succ_stops {depth : Nat} {key : String} {entry : Entry}
    (hfind : h.registry.find? q.name = some (key,entry)) (htable : entry.grammar.assemble = .ok table) :
    (h.highlightWithin (depth + 1) q).Stops ↔ (h.scan (h.highlightWithin depth) table q).Stops := by
  have hrun : ∀ keys, (h.highlightWithin (depth + 1) q).run keys =
      (h.scan (h.highlightWithin depth) table q).run (keys.insert key) :=
    run_highlightWithin_succ hfind (entry.table_get.trans htable)
  constructor
  · intro hstops
    have hscan := (congrArg Prod.fst (hrun [])).symm.trans (hstops [])
    exact (steady_scan (steady_highlightWithin depth) table q).stops hscan
  · intro hstops keys
    rw [hrun]
    exact hstops _

/-- A call that is cut short is a scan that is. -/
lemma exists_scan_stops {depth : Nat} (hstops : (h.highlightWithin (depth + 1) q).Stops) :
    ∃ key entry table, h.registry.find? q.name = some (key,entry) ∧
      entry.grammar.assemble = .ok table ∧ (h.scan (h.highlightWithin depth) table q).Stops := by
  cases hfind : h.registry.find? q.name with
  | none =>
    have herror := hstops []
    rw [highlightWithin,hfind] at herror
    cases herror
  | some found =>
    obtain ⟨key,entry⟩ := found
    cases htable : entry.grammar.assemble with
    | error e =>
      have herror := hstops []
      rw [highlightWithin,hfind] at herror
      dsimp only at herror
      rw [entry.table_get,htable] at herror
      cases herror
    | ok table => exact ⟨key,entry,table,rfl,htable,(highlightWithin_succ_stops hfind htable).mp hstops⟩

lemma key_mem_names {r : Registry} {entry : Entry} (hfind : r.find? name = some (key,entry)) :
    key ∈ r.names :=
  List.mem_map_of_mem (f := Prod.fst) (Registry.mem_of_find? hfind)

lemma lookup_of_find? {r : Registry} {entry : Entry} (hfind : r.find? name = some (key,entry)) :
    r.entries.lookup key = some entry := by
  simp only [Registry.find?] at hfind
  split at hfind
  · cases hfind
    assumption
  · simp only [Option.bind_eq_bind,Option.bind_eq_some_iff,Option.pure_def,Option.some.injEq,
      Prod.mk.injEq] at hfind
    obtain ⟨_,-,_,hlookup,rfl,rfl⟩ := hfind
    exact hlookup

lemma Stops.mono {depth room : Nat} (hle : depth ≤ room) (hstops : (h.highlightWithin room q).Stops) :
    (h.highlightWithin depth q).Stops :=
  fun keys => cutShort_of_error (fun depth => follows_deeper depth q) (hstops keys) depth hle

/-- Where no part of a text is cut short but the text is, each level hands it on to the next. -/
lemma exists_chain (hh : h.HandsBackOnce) {base : Nat}
    (hpart : ∀ q, q.code.toList <:+: text.toList → q.code.length < text.length →
      ¬ (h.highlightWithin base q).Stops) (n : Nat) {entry : Entry}
    (hfind : h.registry.find? name = some (key,entry))
    (hstops : (h.highlightWithin (base + n) { name, code := text, tolerant := true }).Stops) :
    ∃ keys, (key :: keys).IsChain (h.HandsOn text) ∧ (∀ k ∈ key :: keys, k ∈ h.registry.names) ∧
      keys.length = n := by
  induction n generalizing name key entry with
  | zero => exact ⟨[],.singleton _,by simpa using key_mem_names hfind,rfl⟩
  | succ n ih =>
    obtain ⟨_,_,table,hfind',htable,hscan⟩ := exists_scan_stops hstops
    obtain ⟨rfl,rfl⟩ := Prod.mk.inj (Option.some.inj (hfind.symm.trans hfind'))
    obtain ⟨name',key',entry',hfound,hstops',hprobe⟩ := exists_handed (steady_highlightWithin _)
      (fun _ => highlightWithin_spellsOut hh _ _)
      (hh table ⟨_,Registry.mem_of_find? hfind,htable⟩)
      (fun q' hwithin hlt hstops => hpart q' hwithin hlt (Stops.mono (Nat.le_add_right _ _) hstops)) hscan
    obtain ⟨keys,hchain,hmem,hlength⟩ := ih hfound hstops'
    have hhands : h.HandsOn text key key' := by
      refine ⟨_,table,lookup_of_find? hfind,htable,key_mem_names hfound,?_⟩
      exact (scan_stops_name (q := { name, code := text, tolerant := true })
        (steady_probe key' text) key).mpr hprobe
    refine ⟨key' :: keys,.cons_cons hhands hchain,?_,by rw [List.length_cons,hlength]⟩
    exact List.forall_mem_cons.mpr ⟨key_mem_names hfind,hmem⟩

/-- Where no text is handed round, only so many levels hand a text on. -/
lemma length_le_of_chain (hround : ∀ key, ¬ TransGen (h.HandsOn text) key key) {keys : List String}
    (hchain : keys.IsChain (h.HandsOn text)) (hmem : ∀ k ∈ keys, k ∈ h.registry.names) :
    keys.length ≤ h.registry.size := by
  have hpairwise : keys.Pairwise (TransGen (h.HandsOn text)) :=
    (hchain.imp (fun _ _ => TransGen.single)).pairwise
  have hnodup : keys.Nodup := by
    refine hpairwise.imp (fun hto => ?_)
    rintro rfl
    exact hround _ hto
  calc keys.length
    _ ≤ h.registry.names.length := (hnodup.subperm hmem).length_le
    _ = h.registry.size := List.length_map _

/-- Room for one more length of text is room for each grammar, and for the call itself. -/
lemma not_stops (hh : h.HandsBackOnce) {code : String}
    (hround : ∀ text key, text.toList <:+: code.toList → ¬ TransGen (h.HandsOn text) key key) (n : Nat)
    {q : Request} (hwithin : q.code.toList <:+: code.toList) (hlength : q.code.length < n) {depth : Nat}
    (hdepth : (h.registry.size + 1) * n ≤ depth) : ¬ (h.highlightWithin depth q).Stops := by
  induction n generalizing q depth with
  | zero => exact absurd hlength (Nat.not_lt_zero _)
  | succ n ih =>
    let base := (h.registry.size + 1) * n
    have hbase : base + h.registry.size + 1 ≤ depth := hdepth
    have hpart : ∀ q', q'.code.toList <:+: q.code.toList → q'.code.length < q.code.length → ∀ {room},
        base ≤ room → ¬ (h.highlightWithin room q').Stops := fun q' hwithin' hlt _ hroom =>
      ih (hwithin'.trans hwithin) (Nat.lt_of_lt_of_le hlt (Nat.le_of_lt_succ hlength)) hroom
    intro hstops
    obtain ⟨_,_,table,hfind,htable,hscan⟩ := exists_scan_stops (Stops.mono hbase hstops)
    obtain ⟨name,key,entry,hfound,hstops',-⟩ := exists_handed (steady_highlightWithin _)
      (fun _ => highlightWithin_spellsOut hh _ _)
      (hh table ⟨_,Registry.mem_of_find? hfind,htable⟩)
      (fun q' hwithin' hlt => hpart q' hwithin' hlt (Nat.le_add_right _ _)) hscan
    obtain ⟨keys,hchain,hmem,hkeys⟩ := exists_chain hh
      (fun q' hwithin' hlt => hpart q' hwithin' hlt (Nat.le_refl base)) h.registry.size hfound hstops'
    have hlevels := length_le_of_chain (hround q.code · hwithin) hchain hmem
    rw [List.length_cons,hkeys] at hlevels
    exact Nat.not_succ_le_self _ hlevels

/-- Room that is enough is as good as any more. -/
lemma run_eq_of_le {α : Type} {x : Nat → Call α} {keys : List String} {room : Nat}
    (hx : ∀ depth, Follows (· = .embeddingTooDeep) (fun _ => True) (x depth) (x (depth + 1)))
    (henough : ∀ depth ≥ room, ((x depth).run keys).1 ≠ .error .embeddingTooDeep) {depth : Nat}
    (hdepth : room ≤ depth) : (x depth).run keys = (x room).run keys := by
  induction depth, hdepth using Nat.le_induction with
  | base => rfl
  | succ depth hdepth ih =>
    rw [← ih]
    rcases hrun : (x depth).run keys with ⟨e | a,keys'⟩
    · rcases (hx depth).error hrun with he | ⟨-,hrun'⟩
      · exact absurd (by rw [hrun,he]) (henough depth hdepth)
      · exact hrun'
    · exact (hx depth).ok hrun

/-- A detection whose candidates return returns as well. -/
lemma detectBy_returns (hrun : ∀ q, (run q).Steady) (candidates : List String) {code : String}
    {keys : List String} (hcall : ∀ name,
      ((run { name, code, tolerant := true }).run keys).1 ≠ .error .embeddingTooDeep) :
    ((h.detectBy run candidates code).run keys).1 ≠ .error .embeddingTooDeep := by
  intro hcut
  rw [run_detectBy hrun candidates code keys keys] at hcut
  cases hm : (candidates.filter h.registry.isDetected).mapM
      (fun name => ((run { name, code, tolerant := true }).run keys).1) with
  | ok results =>
    rw [hm] at hcut
    cases hcut
  | error e =>
    rw [hm] at hcut
    cases hcut
    obtain ⟨name,-,hfails⟩ := exists_of_list_mapM_eq_error hm
    exact hcall name hfails

/-- Every call and every detection returns, and more room makes no difference to it, unless grammars
hand a part of the text round between them. -/
theorem highlight_returns (h : Highlighter) (hh : h.HandsBackOnce) (code : String)
    (hround : ∀ text key, text.toList <:+: code.toList → ¬ TransGen (h.HandsOn text) key key) :
    (∀ q, q.code = code → ∀ depth ≥ h.depthFor code, ∀ keys,
      ((h.highlightWithin depth q).run keys).1 ≠ .error .embeddingTooDeep ∧
      (h.highlightWithin depth q).run keys = (h.highlight q).run keys) ∧
    ∀ candidates, ∀ depth ≥ h.depthFor code, ∀ keys,
      ((h.detectBy (h.highlightWithin depth) candidates code).run keys).1 ≠ .error .embeddingTooDeep ∧
      (h.detectBy (h.highlightWithin depth) candidates code).run keys =
        (h.detectAmong candidates code).run keys := by
  have hcall : ∀ q, q.code = code → ∀ depth ≥ h.depthFor code, ∀ keys,
      ((h.highlightWithin depth q).run keys).1 ≠ .error .embeddingTooDeep := by
    rintro q rfl depth hdepth keys hcut
    have hroom : (h.registry.size + 1) * (q.code.length + 1) ≤ depth :=
      Nat.le_trans (Nat.le_add_right _ _) hdepth
    exact not_stops hh hround (q.code.length + 1) (List.infix_refl _) (Nat.lt_succ_self _) hroom
      ((steady_highlightWithin depth q).stops hcut)
  have hdetect : ∀ candidates, ∀ depth ≥ h.depthFor code, ∀ keys,
      ((h.detectBy (h.highlightWithin depth) candidates code).run keys).1 ≠ .error .embeddingTooDeep :=
    fun candidates depth hdepth keys => detectBy_returns (steady_highlightWithin depth) candidates
      (fun name => hcall _ rfl depth hdepth keys)
  refine ⟨fun q hq depth hdepth keys => ⟨hcall q hq depth hdepth keys,?_⟩,
    fun candidates depth hdepth keys => ⟨hdetect candidates depth hdepth keys,?_⟩⟩
  · rw [highlight,hq]
    exact run_eq_of_le (fun depth => follows_deeper depth q)
      (fun depth hdepth => hcall q hq depth hdepth keys) hdepth
  · exact run_eq_of_le (x := fun depth => h.detectBy (h.highlightWithin depth) candidates code)
      (fun depth => follows_deeper_detectBy depth candidates code)
      (fun depth hdepth => hdetect candidates depth hdepth keys) hdepth

lemma probe_gives (key text : String) (q : Request) :
    (h.probe key text q).Gives (fun r => Tree.texts r.tree = q.code) := by
  rw [probe]
  split
  · exact Call.gives_throw _
  · exact Call.gives_pure (Scan.texts_plaintext _ _)

/-- A text that a grammar hands on is cut short if it is in the other grammar. -/
lemma HandsOn.stops {depth : Nat} {key' : String} (hhands : h.HandsOn text key key') (hh : h.HandsBackOnce)
    (hfails : ∀ name, h.registry.contains name = true → ∀ keys e,
      ((h.highlightWithin depth { name, code := text, tolerant := true }).run keys).1 = .error e →
        e = .embeddingTooDeep)
    (hstops : ∀ name entry, h.registry.find? name = some (key',entry) →
      (h.highlightWithin depth { name, code := text, tolerant := true }).Stops)
    {entry : Entry} (hfind : h.registry.find? name = some (key,entry)) :
    (h.highlightWithin (depth + 1) { name, code := text, tolerant := true }).Stops := by
  obtain ⟨entry',table,hlookup,htable,-,hprobe⟩ := hhands
  obtain rfl : entry' = entry := Option.some.inj (hlookup.symm.trans (lookup_of_find? hfind))
  rw [highlightWithin_succ_stops (q := { name, code := text, tolerant := true }) hfind htable]
  generalize hq : ({ name := key, code := text, tolerant := true } : Request) = q at hprobe
  have hcode : q.code = text := hq ▸ rfl
  suffices hscan : (h.scan (h.highlightWithin depth) table q).Stops by
    rw [← hq] at hscan
    exact (scan_stops_name (q := { name := key, code := text, tolerant := true })
      (steady_highlightWithin depth) name).mpr hscan
  have htext : (h.envFor (h.probe key' text) table q).text.toString = text :=
    (Source.toString_ofString q.code).trans hcode
  have hprobed : Scan.Probed (h.envFor (h.probe key' text) table q)
      (· = h.embedBy (h.highlightWithin depth)) := by
    refine ⟨fun hembed => ?_,fun hcall _ hlt keys he => ?_,fun hcall he => ?_⟩
    · exact embedBy_gives (fun name c => probe_gives key' text _) (Scan.texts_plaintext _ _) hembed
    · obtain ⟨name,c,-,-,hcut⟩ := exists_of_embedBy_error (steady_probe key' text) hcall he
      obtain ⟨-,hwhole,-⟩ := run_probe_eq_error hcut
      have hsize : (h.envFor (h.probe key' text) table q).text.size = q.code.length := by
        simp [envFor,Source.ofString,String.length_toList]
      rw [hsize,hcode,← hwhole] at hlt
      exact absurd hlt (Nat.lt_irrefl _)
    · rw [htext] at hcall ⊢
      obtain ⟨name,c,hcalls,-,hcut⟩ := exists_of_embedBy_error (steady_probe key' text) hcall he
      obtain ⟨hname,-,-⟩ := run_probe_eq_error hcut
      obtain ⟨⟨_,entry'⟩,hfind',rfl⟩ := Option.map_eq_some_iff.mp hname
      have hembed : ∃ call, h.embedBy (h.highlightWithin depth) _ none text = some call ∧ call.Stops :=
        exists_embedBy_stops (steady_highlightWithin depth) hfails hcalls (hstops name entry' hfind')
      obtain ⟨call',hcall',hstops'⟩ := hembed
      exact ⟨_,call',rfl,hcall',hstops'⟩
  have honce : table.HandsBackOnce := hh table ⟨_,Registry.mem_of_find? hfind,htable⟩
  obtain ⟨_,rfl,hcut⟩ := Scan.exists_probe_cutShort hprobed honce
    ((scan_stops_iff (steady_probe key' text) []).mp hprobe)
  exact (scan_stops_iff (steady_highlightWithin depth) []).mpr hcut

/-- In safe mode, and where all grammars can be assembled, grammars that hand a text round never come
to an end with it. -/
theorem endless_of_round (hh : h.HandsBackOnce) (hsafe : h.settings.safeMode = true)
    (hassembles : ∀ entry ∈ h.registry.entries, ∃ table, entry.2.grammar.assemble = .ok table)
    (hround : TransGen (h.HandsOn text) key key) {entry : Entry}
    (hfind : h.registry.find? name = some (key,entry)) (depth : Nat) :
    (h.highlightWithin depth { name, code := text, tolerant := true }).Stops := by
  have hfails : ∀ depth name, h.registry.contains name = true → ∀ keys e,
      ((h.highlightWithin depth { name, code := text, tolerant := true }).run keys).1 = .error e →
        e = .embeddingTooDeep := by
    intro depth name hknown keys e he
    have hgrammar : ∀ entry ∈ h.registry.entries, ∀ e, entry.2.grammar.assemble = .error e →
        HighlightError.grammar e = .embeddingTooDeep := by
      intro entry hentry e he
      obtain ⟨table,htable⟩ := hassembles entry hentry
      cases htable.symm.trans he
    have hfollows := highlightWithin_fails (P := (· = .embeddingTooDeep)) hsafe rfl hgrammar depth
      { name, code := text, tolerant := true } hknown
    exact ((hfollows.error (Prod.ext he rfl)).resolve_left id).1
  induction depth generalizing key name entry with
  | zero => exact fun _ => rfl
  | succ depth ih =>
    obtain ⟨key',hhands,hback⟩ := Relation.TransGen.head'_iff.mp hround
    exact hhands.stops hh (hfails depth) (fun name entry hfind' => ih (.tail' hback hhands) hfind') hfind

section Examples

/-- Whether an outcome is that a call is cut short. -/
def isStopped {α : Type} : Except HighlightError α → Bool
  | .error e => e = .embeddingTooDeep
  | .ok _ => false

lemma isStopped_iff {α : Type} {outcome : Except HighlightError α} :
    isStopped outcome = true ↔ outcome = .error .embeddingTooDeep := by
  cases outcome <;> simp [isStopped]

/-- A grammar that hands a text on to itself never comes to an end with it, if it is the only one. -/
lemma endless_only (name : String) (g : Grammar) (code : String)
    (hall : g.assemble.toOption.any (fun t => t.nodes.all (handsBackOnce ·.switches) &&
      isStopped (((only name g).scan ((only name g).probe (Registry.key name) code) t
        { name := Registry.key name, code, tolerant := true }).run []).1) = true) :
    ∃ table, g.assemble = .ok table ∧ (only name g).HandsBackOnce ∧
      (∀ entry ∈ (only name g).registry.entries, ∃ table, entry.2.grammar.assemble = .ok table) ∧
      ∀ depth, ((only name g).highlightWithin depth { name, code, tolerant := true }).Stops := by
  obtain ⟨table,htable,hall⟩ := exists_eq_ok_of_any hall
  obtain ⟨honce,hstopped⟩ := Bool.and_eq_true_iff.mp hall
  have hh : (only name g).HandsBackOnce := handsBackOnce_only htable honce
  have hfind := find?_only name g
  have hhands : (only name g).HandsOn code (Registry.key name) (Registry.key name) :=
    ⟨_,table,lookup_of_find? hfind,htable,key_mem_names hfind,
      (steady_scan (steady_probe _ code) table _).stops (isStopped_iff.mp hstopped)⟩
  have hassembles : ∀ entry ∈ (only name g).registry.entries, ∃ table,
      entry.2.grammar.assemble = .ok table := by
    intro entry hentry
    obtain rfl : entry = (Registry.key name,Entry.ofGrammar g) := List.mem_singleton.mp hentry
    exact ⟨table,htable⟩
  exact ⟨table,htable,hh,hassembles,endless_of_round hh rfl hassembles (.single hhands) hfind⟩

/-- A grammar whose text is highlighted by the grammar itself. -/
def ouroboros : Grammar where
  name := "ouroboros"
  root := { subLanguage := some (.named "ouroboros") }

/-- A grammar may hand a text on to itself, so that there is no end to it. -/
theorem exists_endless : ∃ h q, h.HandsBackOnce ∧ h.settings.safeMode = true ∧
    (∀ entry ∈ h.registry.entries, ∃ table, entry.2.grammar.assemble = .ok table) ∧
    ∀ depth keys, ((highlightWithin h depth q).run keys).1 = .error .embeddingTooDeep := by
  obtain ⟨_,-,hh,hassembles,hstops⟩ := endless_only "ouroboros" ouroboros "a" (by decide +kernel)
  exact ⟨only "ouroboros" ouroboros,_,hh,rfl,hassembles,hstops⟩

theorem highlight_returns_selfEmbedding : ∃ h : Highlighter, h.HandsBackOnce ∧
    (∀ text key, text.toList <:+: "a<b<c>".toList → ¬ TransGen (h.HandsOn text) key key) ∧
    ∀ depth ≥ h.depthFor "a<b<c>", ∀ keys,
      ((h.highlightWithin depth { name := "nested", code := "a<b<c>" }).run keys).1 ≠
        .error .embeddingTooDeep := by
  let h := only "nested" selfEmbedding
  let key := Registry.key "nested"
  have hall : selfEmbedding.assemble.toOption.any (fun t => t.nodes.all (handsBackOnce ·.switches) &&
      "a<b<c>".toList.sublists.all (fun text => !isStopped ((h.scan (h.probe key (.ofList text)) t
        { name := key, code := .ofList text, tolerant := true }).run []).1)) = true := by
    decide +kernel
  obtain ⟨table,htable,hall⟩ := exists_eq_ok_of_any hall
  obtain ⟨honce,hparts⟩ := Bool.and_eq_true_iff.mp hall
  have hh : h.HandsBackOnce := handsBackOnce_only htable honce
  have hround : ∀ text key', text.toList <:+: "a<b<c>".toList →
      ¬ TransGen (h.HandsOn text) key' key' := by
    intro text key' hwithin hround
    obtain ⟨key'',hhands,-⟩ := Relation.TransGen.head'_iff.mp hround
    obtain ⟨entry,table',hlookup,htable',hkey,hstops⟩ := hhands
    obtain ⟨before,after,hsplit,-⟩ := List.lookup_eq_some_iff.mp hlookup
    have hmem : (key',entry) ∈ h.registry.entries := by
      rw [hsplit]
      exact List.mem_append_right _ List.mem_cons_self
    obtain ⟨rfl,rfl⟩ := Prod.mk.inj (List.mem_singleton.mp hmem)
    obtain rfl : key'' = key := List.mem_singleton.mp hkey
    obtain rfl : table = table' := Except.ok.inj (htable.symm.trans htable')
    have hpart := List.all_eq_true.mp hparts text.toList (List.mem_sublists.mpr hwithin.sublist)
    rw [String.ofList_toList,isStopped_iff.mpr (hstops [])] at hpart
    cases hpart
  exact ⟨h,hh,hround,fun depth hdepth keys =>
    ((highlight_returns h hh _ hround).1 _ rfl depth hdepth keys).1⟩

/-- A grammar whose text before a mark is highlighted by the grammar itself. -/
def relaying : Grammar where
  name := "relaying"
  root := { contains := some [.mode 0], subLanguage := some (.named "relaying") }
  modes := #[{ className := some "mark", beginPattern := some "b" }]

/-- A scan may not come to the end of its first step. -/
theorem exists_step_endless : ∃ (h : Highlighter) (table : NodeTable) (q : Request), h.HandsBackOnce ∧
    h.settings.safeMode = true ∧ relaying.assemble = .ok table ∧ ∀ depth,
      ((Scan.step (h.envFor (h.highlightWithin depth) table q) 1).run (.opened table none [])).1 =
        .error .tooDeep := by
  let h := only "relaying" relaying
  let host (table : NodeTable) (depth : Nat) : Scan.Env :=
    h.envFor (h.highlightWithin depth) table { name := "relaying", code := "ab" }
  obtain ⟨table,htable,hh,-,hstops⟩ := endless_only "relaying" relaying "a" (by decide +kernel)
  have hmark : relaying.assemble.toOption.all (fun t =>
      decide (((Scan.nextMatch (host t 0)).run (.opened t none [])).1.toOption = some (some ⟨1,2,.begins 1,0⟩) ∧
        Scan.verdict (host t 0) (t.node 1) ⟨1,2,.begins 1,0⟩ = .accept ∧
        (t.node 1).switches.skip = false ∧ (t.node 1).switches.excludeBegin = false ∧
        (t.node 0).subLanguage = some (.named "relaying"))) = true := by
    decide +kernel
  rw [htable] at hmark
  obtain ⟨hnext,haccepts,hskip,hexclude,hsub⟩ := of_decide_eq_true hmark
  refine ⟨h,table,{ name := "relaying", code := "ab" },hh,rfl,htable,fun depth => ?_⟩
  rcases hrun : (Scan.nextMatch (host table depth)).run (.opened table none []) with ⟨outcome,s⟩
  obtain rfl : outcome = .ok (some ⟨1,2,.begins 1,0⟩) :=
    (congrArg Prod.fst hrun).symm.trans (except_eq_ok_of_toOption hnext)
  obtain ⟨⟨resumeAt,rfl⟩,-⟩ := (Scan.nextMatch_ensures _ _).ok hrun
  have hrunaway : Scan.isRunaway (host table depth) 1 1 = false := rfl
  have hbuffer : "" ++ (host table depth).text.slice 0 1 = "a" := by
    rw [String.empty_append]
    exact show (Source.ofString "ab").slice 0 1 = "a" by decide
  have hembed : (host table depth).embed (.named "relaying") none "a" =
      some (h.highlightWithin depth { name := "relaying", code := "a", tolerant := true }) := by
    have hknown : h.registry.contains "relaying" = true := by
      rw [Registry.contains,find?_only]
      rfl
    simp only [host,envFor,embedBy,hknown,if_true]
  refine Scan.step_cut hrun rfl hrunaway rfl haccepts ⟨hskip,hexclude⟩ ?_
  refine Scan.flush_cut hsub (hbuffer ▸ rfl) (Eq.trans ?_ hembed) (hstops depth)
  exact congrArg ((host table depth).embed (.named "relaying") none) hbuffer

end Examples

end Highlighter
end Highlight
