import Highlight.Proofs.Scan.Growth
import Highlight.Proofs.Tree.Nesting

/-!
How deep the trees of results are. A scan keeps the modes that are open within a limit, but each
embedded text is scanned on its own. So the limit holds for the scopes of each result by itself, and
for a whole tree only where nothing is embedded.
-/
namespace Highlight

open Highlight.Tree (Builder)

/-- Whether some mode hands its text to another grammar. -/
def NodeTable.Embeds (t : NodeTable) : Prop := ∃ node ∈ t.nodes, node.subLanguage ≠ none

namespace Scan

variable {embeds : Prop} {env : Env} {c : Option Continuation} {keys : List String}

/-- Trees whose scopes fit into the room that a scan has. -/
def AllFit (embeds : Prop) (ts : List Tree) : Prop := ∀ t ∈ ts, t.Fits embeds maxOpenModes maxOpenModes

lemma fits_invariant : Builder.Invariant (fun ts => embeds ∧ AllFit embeds ts)
    (Builder.Fits embeds maxOpenModes) where
  addText text h := h.addText text
  addKeyword text kind h := h.addKeyword text kind
  addEmbedded kind hE h := h.addEmbedded kind hE.1 hE.2
  openScope kind hdepth h := h.openScope kind hdepth
  closeScope h := h.closeScope

lemma opened_bears (hc : ∀ c', c = some c' → c'.Resumable) :
    (State.opened env.table c keys).Bears (Builder.Fits embeds maxOpenModes) Continuation.Resumable := by
  obtain ⟨inner,hopened,-,hlen⟩ := exists_opened_inner env.table hc keys
  rw [hopened]
  refine ⟨?_,fun _ h => by cases h⟩
  clear hopened
  induction inner with
  | nil => exact Builder.fits_empty embeds maxOpenModes
  | cons f inner ih =>
    have hopen := ih (Nat.le_of_succ_le hlen)
    have hdepth : (inner.foldr (openMode env.table) {}).depth ≤ maxOpenModes := by
      have hcount := List.countP_le_length (p := hasScope env.table) (l := inner)
      rw [List.length_cons] at hlen
      rw [depth_foldr_openMode]
      omega
    dsimp only
    rw [List.foldr_cons,openMode]
    split
    · exact hopen.openScope _ hdepth
    · exact hopen

lemma allFit_plaintext (language code : String) : AllFit embeds (Result.plaintext language code).tree := by
  intro t ht
  simp only [Result.plaintext] at ht
  split at ht
  · cases ht
  · rw [List.mem_singleton.mp ht]
    exact Tree.fits_leaf code

/-- The tree of a scan fits if those that are embedded in it do. -/
lemma highlight_fits (settings : Settings) (language code : String) (ht : env.table.Closed)
    (hE : env.Bears (fun ts => embeds ∧ AllFit embeds ts) Continuation.Resumable)
    (hc : ∀ c', c = some c' → c'.Resumable) :
    (highlight env settings language code c).Gives (fun r => AllFit embeds r.tree ∧
      ∀ c', r.continuation = some c' → c'.Resumable) := by
  intro keys r keys' hrun
  obtain ⟨outcome,s,hs,hr⟩ := exists_run_of_highlight hrun
  obtain ⟨n,-,hends⟩ := run_endsAfter (opened_in_text env c keys)
  rw [hs] at hends
  have hbears := (Visits.finished hends).bears fits_invariant ht hE (opened_wellStacked hc) (opened_bears hc)
  have hstack := (Visits.finished hends).wellStacked ht (opened_wellStacked hc)
  match outcome with
  | .ok () =>
    cases hr
    exact ⟨Builder.fits_finish hbears.tree,fun _ h => Option.some.inj h ▸ hstack.resumable⟩
  | .error (.illegal lexeme) =>
    cases hr
    exact ⟨Builder.fits_finish hbears.tree,nofun⟩
  | .error (.fault f) =>
    simp only [conclude] at hr
    split at hr
    · cases hr
      exact ⟨allFit_plaintext language code,fun _ h => Option.some.inj h ▸ hstack.resumable⟩
    · cases hr
  | .error (.error e) => cases hr

end Scan

namespace Highlighter

open Scan

variable {h : Highlighter} {run : Request → Call Result}

/-- The tree of a result fits, and the modes left open can be taken up, if those that the request
names can. -/
def FitsScans (q : Request) (r : Result) : Prop :=
  (∀ c, q.continuation = some c → c.Resumable) →
    AllFit True r.tree ∧ ∀ c, r.continuation = some c → c.Resumable

/-- Whatever a mode embeds fits, so that the mode's own tree does. -/
lemma envFor_bears (hrun : ∀ q, (run q).Gives (FitsScans q)) (table : NodeTable) (q : Request) :
    (h.envFor run table q).Bears (fun ts => table.Embeds ∧ AllFit table.Embeds ts)
      Continuation.Resumable := by
  intro id sub c code call hsub hcall hc
  have hembeds : table.Embeds := by
    change (table.node id).subLanguage = some sub at hsub
    rw [NodeTable.node,Array.getD_eq_getD_getElem?] at hsub
    cases hnode : table.nodes[id]? with
    | none =>
      rw [hnode] at hsub
      cases hsub
    | some node =>
      rw [hnode] at hsub
      exact ⟨node,Array.mem_of_getElem? hnode,by
        rw [show node.subLanguage = some sub from hsub]
        exact Option.some_ne_none sub⟩
  have hfits : call.Gives (fun r => AllFit True r.tree ∧ ∀ c', r.continuation = some c' → c'.Resumable) := by
    cases sub with
    | named name =>
      simp only [envFor,embedBy] at hcall
      split at hcall
      · cases hcall
        exact (hrun _).mono (fun r hr => hr hc)
      · cases hcall
    | auto listed =>
      cases hcall
      exact (detectBy_gives (fun name => (hrun _).mono (fun r hr => hr (fun _ h => by cases h)))
        ⟨allFit_plaintext _ _,fun _ h => by cases h⟩ _).map (fun _ ho => ho.1)
  exact hfits.mono (fun r hr => ⟨⟨hembeds,by rw [eq_true hembeds]; exact hr.1⟩,hr.2⟩)

lemma scan_fits (hrun : ∀ q, (run q).Gives (FitsScans q)) {table : NodeTable} (htable : table.Closed)
    {q : Request} (hq : ∀ c, q.continuation = some c → c.Resumable) :
    (h.scan run table q).Gives (fun r => AllFit table.Embeds r.tree ∧
      ∀ c, r.continuation = some c → c.Resumable) :=
  highlight_fits _ _ _ htable (envFor_bears hrun table q) hq

lemma highlightWithin_fitsScans (depth : Nat) (q : Request) :
    (h.highlightWithin depth q).Gives (FitsScans q) := by
  refine highlightWithin_gives (P := FitsScans) (fun run q table htable hrun => ?_) depth q
  obtain ⟨entry,-,htable⟩ := htable
  intro keys r keys' hscan hq
  have hfits := scan_fits hrun (Grammar.assemble_closed htable) hq keys r keys' hscan
  refine ⟨fun t ht tags hpath => ?_,hfits.2⟩
  exact (hfits.1 t ht tags hpath).mono (fun _ => trivial)

/-- No mode of the grammar that a name stands for hands its text to another grammar. -/
def Monolingual (h : Highlighter) (name : String) : Prop :=
  ∀ key entry table, h.registry.find? name = some (key,entry) →
    entry.grammar.assemble = .ok table → ¬ table.Embeds

/-- A path down the tree of a result passes at most 1000 modes and one keyword, and another 1000 modes
for each embedded result on it. Without embedded results, at most 1001 scopes lie on any path. -/
theorem highlight_nesting (h : Highlighter) (q : Request)
    (hq : ∀ c, q.continuation = some c → Attained c) :
    (h.highlight q).Gives (fun r => ∀ t ∈ r.tree, ∀ tags, t.Path tags →
      tags.countP (!·.embedded) ≤ 1000 * (tags.countP (·.embedded) + 1) + 1 ∧
      (h.Monolingual q.name → tags.length ≤ 1001)) := by
  intro keys r keys' hrun t ht tags hpath
  have hq : ∀ c, q.continuation = some c → c.Resumable := fun c hc => (hq c hc).resumable
  constructor
  · have hle := ((highlightWithin_fitsScans _ q _ _ _ hrun hq).1 t ht tags hpath).countP_le
    rw [maxOpenModes] at hle
    omega
  · intro hmono
    have hgives : (h.highlight q).Gives (fun r => ∀ t ∈ r.tree, ∀ tags, t.Path tags →
        tags.length ≤ 1001) := by
      rw [highlight,depthFor,spareDepth]
      refine highlightWithin_succ_gives (fun key entry table hfind htable => ?_)
      refine (scan_fits (highlightWithin_fitsScans _) (Grammar.assemble_closed htable) hq).mono ?_
      exact fun r hr t ht tags hpath => (hr.1 t ht tags hpath).length_le (hmono key entry table hfind htable)
    exact hgives _ _ _ hrun t ht tags hpath

theorem highlight_nesting_quoting : ∃ c r keys, Attained c ∧ (only "quoting" quoting).Monolingual "quoting" ∧
    ((only "quoting" quoting).highlight { name := "quoting", code := "c\"", continuation := some c }).run [] =
      (.ok r,keys) ∧ ∀ t ∈ r.tree, ∀ tags, t.Path tags → tags.length ≤ 1001 := by
  let resumed (c : Continuation) : Request := { name := "quoting", code := "c\"", continuation := some c }
  have hok : ((((only "quoting" quoting).highlight { name := "quoting", code := "a\"b" }).run []).1.toOption.bind
      Result.continuation).any (fun c =>
        (((only "quoting" quoting).highlight (resumed c)).run []).1.toOption.isSome) = true := by
    decide +kernel
  obtain ⟨c,hc,hresumed⟩ := (Option.any_eq_true _ _).mp hok
  obtain ⟨r,hr,hc⟩ := Option.bind_eq_some_iff.mp hc
  obtain ⟨r',hr'⟩ := Option.isSome_iff_exists.mp hresumed
  have hattained : Attained c := .highlight (q := { name := "quoting", code := "a\"b" }) nofun
    (Prod.ext (except_eq_ok_of_toOption hr) rfl) hc
  have hrun : ((only "quoting" quoting).highlight (resumed c)).run [] = (.ok r',_) :=
    Prod.ext (except_eq_ok_of_toOption hr') rfl
  have hmono : (only "quoting" quoting).Monolingual "quoting" := by
    intro key entry table hfind htable
    rw [find?_only] at hfind
    cases hfind
    have hall : quoting.assemble.toOption.all (fun t => t.nodes.all (·.subLanguage.isNone)) = true := by
      decide +kernel
    rw [show quoting.assemble = .ok table from htable] at hall
    rintro ⟨node,hnode,hsub⟩
    exact hsub (Option.isNone_iff_eq_none.mp (Array.all_eq_true_iff_forall_mem.mp hall node hnode))
  refine ⟨c,r',_,hattained,hmono,hrun,fun t ht tags hpath => ?_⟩
  exact (highlight_nesting (only "quoting" quoting) (resumed c)
    (fun c' hc' => Option.some.inj hc' ▸ hattained) _ _ _ hrun t ht tags hpath).2 hmono

end Highlighter

section Spiral

open Scan Rules

/-- A grammar whose only mode hands the rest of the text to the grammar itself. -/
def spiral : Grammar where
  name := "spiral"
  root := { contains := some [.mode 0] }
  modes := #[{
    className := some "turn", beginPattern := some "<", subLanguage := some (.named "spiral")
    switches := { Switches.unset with endsWithParent := some true, excludeBegin := some true } }]

/-- What the table of the grammar comes to. -/
structure Coils (t : NodeTable) : Prop where
  top_sub : (t.node rootNode).subLanguage = none
  top_keywords : (t.node rootNode).keywords = none
  top_resume : (t.node rootNode).rules.resumeAfter 0 = 0
  top_whole : (t.node rootNode).rules.whole? =
    some (some (.group 1 (.set (.single '<')),true),[(1,.begins 1,0)])
  turn_class : (t.node 1).className = some "turn"
  turn_guard : (t.node 1).beginGuard.isNone
  turn_sub : (t.node 1).subLanguage = some (.named "spiral")
  turn_switches : (t.node 1).switches = ⟨true,false,false,true,false,false,false,false⟩
  turn_whole : (t.node 1).rules.whole? = some (none,[])

lemma spiral_coils {t : NodeTable} (h : spiral.assemble = .ok t) : Coils t := by
  have htop : spiral.assemble.toOption.all (fun t => decide (
      (t.node rootNode).subLanguage = none ∧ (t.node rootNode).keywords = none ∧
      (t.node rootNode).rules.resumeAfter 0 = 0 ∧
      (t.node rootNode).rules.whole? =
        some (some (.group 1 (.set (.single '<')),true),[(1,.begins 1,0)]))) = true := by
    decide +kernel
  have hturn : spiral.assemble.toOption.all (fun t => decide (
      (t.node 1).className = some "turn" ∧ (t.node 1).beginGuard.isNone ∧
      (t.node 1).subLanguage = some (.named "spiral") ∧
      (t.node 1).switches = ⟨true,false,false,true,false,false,false,false⟩ ∧
      (t.node 1).rules.whole? = some (none,[]))) = true := by
    decide +kernel
  rw [h] at htop hturn
  obtain ⟨h1,h2,h3,h4⟩ := of_decide_eq_true htop
  obtain ⟨h5,h6,h7,h8,h9⟩ := of_decide_eq_true hturn
  exact ⟨h1,h2,h3,h4,h5,h6,h7,h8,h9⟩

namespace Coils

variable {t : NodeTable} (h : Coils t)

include h

lemma exec_top (rest : List Char) : (t.node rootNode).rules.exec ('<' :: rest).toArray 0 0 =
    .ok (some { start := 0, stop := 1, kind := .begins 1, index := 0 }) := by
  obtain ⟨m,hregex,hbranches,hexec⟩ := RuleSet.exec_of_whole? h.top_whole
  obtain ⟨r,hr,hpattern⟩ := Option.map_eq_some_iff.mp hregex
  obtain ⟨hpattern,hplain⟩ := Prod.mk.inj hpattern
  rw [hexec,Matcher.exec,hr]
  simp only [Regex.find,Regex.search,hplain,if_true,hpattern]
  simp [Regex.searchPlain,Regex.Pattern.ways,Regex.Haystack.charAt?,Regex.Spot.openGroup,
    Regex.Spot.closeGroup,Regex.Spot.advance,Regex.CharSet.contains,hbranches,Regex.Found.stop,
    Regex.Found.capture?,Regex.Spot.capture?]

lemma exec_turn (text : Source) (start : Nat) : (t.node 1).rules.exec text start 0 = .ok none := by
  obtain ⟨m,hregex,-,hexec⟩ := RuleSet.exec_of_whole? h.turn_whole
  rw [hexec,Matcher.exec,Option.map_eq_none_iff.mp hregex]

end Coils

/-- The state of a scan that has met its first lexeme. -/
def inTurn (keys : List String) : State where
  stack := [{ node := 1 },.top]
  tree := { enclosing := [("turn",[.leaf "<"])] }
  last := some { start := 0, stop := 1, kind := .begins 1, index := 0 }
  position := 1
  assembled := keys

lemma step_turns {env : Env} (h : Coils env.table) {rest : List Char}
    (htext : env.text = ('<' :: rest).toArray) (keys : List String) :
    (step env 1).Ensures { assembled := keys } (fun goesOn s => goesOn = true ∧ s = inTurn keys)
      (fun _ _ => False) := by
  have hexec : (env.node 0).rules.exec env.text 0 0 =
      .ok (some { start := 0, stop := 1, kind := .begins 1, index := 0 }) := htext ▸ h.exec_top rest
  have htop : Frame.top.node = 0 := rfl
  have hsub : (env.node 0).subLanguage = none := h.top_sub
  have hkeywords : (env.node 0).keywords = none := h.top_keywords
  have hguard : (env.node 1).beginGuard = none := Option.isNone_iff_eq_none.mp h.turn_guard
  have hswitches : (env.node 1).switches = _ := h.turn_switches
  have hresume : (env.node 0).rules.resumeAfter 0 = 0 := h.top_resume
  have hslice : env.text.slice 0 1 = "<" := by rw [htext]; simp [Source.slice]
  have hsize : 1 ≤ env.text.size := by simp [htext]
  simp [-bind_pure_comp,step,nextMatch,Action.ensures_bind,State.top,htop,hexec,RuleMatch.isBegin,
    isRunaway,freeSteps,react,stalls,reactToBegin,verdict,hguard,acceptBegin,takeBegin,
    Env.switches,hswitches,flush,hsub,flushKeywords,hkeywords,enter,maxOpenModes,Env.lexeme,
    RuleMatch.lexeme,hslice,openMode,h.turn_class,Tree.Builder.openScope,Tree.Builder.addText,
    Tree.Builder.pushText,hsize,hresume,inTurn]

lemma step_ends {env : Env} (h : Coils env.table) (keys : List String) :
    (step env 2).Ensures (inTurn keys) (fun goesOn s => goesOn = false ∧ s = inTurn keys)
      (fun _ _ => False) := by
  have hexec : ∀ start, (env.node 1).rules.exec env.text start 0 = .ok none := h.exec_turn env.text
  simp [-bind_pure_comp,step,nextMatch,Action.ensures_bind,State.top,inTurn,hexec]

/-- Without text after the first lexeme, the scope of the mode stays empty. -/
lemma finish_ends {env : Env} (h : Coils env.table) (htext : env.text = ['<'].toArray) (keys : List String) :
    (finish env).Ensures (inTurn keys)
      (fun _ s => s.tree.finish = [.leaf "<",.scope { kind := some "turn" } []]) (fun _ _ => False) := by
  have hsub : (env.node 1).subLanguage = some (.named "spiral") := h.turn_sub
  have hslice : env.text.slice 1 env.text.size = "" := by simp [htext,Source.slice]
  simp [-bind_pure_comp,finish,flush,Action.ensures_bind,State.top,inTurn,hsub,hslice,flushEmbedded,
    Tree.Builder.finish,Tree.Builder.closeAll,Tree.Builder.collapse]

/-- The text after the first lexeme is highlighted inside of the mode. -/
lemma finish_embeds {env : Env} (h : Coils env.table) {rest : String} (hrest : rest.isEmpty = false)
    (htext : env.text = ('<' :: rest.toList).toArray) {call : Call Result}
    (hcall : env.embed (.named "spiral") none rest = some call)
    {keys keys' : List String} {r : Result} (hr : call.run keys = (.ok r,keys')) :
    (finish env).Ensures (inTurn keys)
      (fun _ s => ∃ kind, s.tree.finish = [.leaf "<",.scope { kind := some "turn" }
        [.scope { kind, embedded := true } r.tree]]) (fun _ _ => False) := by
  have hsub : (env.node 1).subLanguage = some (.named "spiral") := h.turn_sub
  have hslice : env.text.slice 1 env.text.size = rest := by simp [htext,Source.slice]
  simp only [finish,flush,Action.ensures_bind,State.top,inTurn,hsub,hslice,flushEmbedded,
    hrest,hcall,State.carried,Action.ensures_get,Action.ensures_append,String.empty_append,
    List.head?_cons,Option.map_some,Option.getD_some,List.lookup_nil,Bool.false_eq_true,if_false]
  refine Action.ensures_ofCall (fun r' keys'' hr' => ?_) (fun e keys'' he => ?_)
  · obtain rfl : r = r' := Except.ok.inj (Prod.mk.inj (hr.symm.trans hr')).1
    have hcarry : ∀ s : State, (s.carry (.named "spiral") r.continuation).tree = s.tree := by
      intro s
      unfold State.carry
      split <;> rfl
    by_cases hscores : 0 < (env.node 1).relevance
    · simp [-bind_pure_comp,addEmbedded,Action.ensures_bind,hscores,hcarry,Tree.Builder.addEmbedded,
        Tree.Builder.finish,Tree.Builder.closeAll,Tree.Builder.collapse]
    · simp [-bind_pure_comp,addEmbedded,Action.ensures_bind,hscores,hcarry,Tree.Builder.addEmbedded,
        Tree.Builder.finish,Tree.Builder.closeAll,Tree.Builder.collapse]
  · cases hr.symm.trans he

/-- A scan meets the first lexeme, and takes in the rest of the text at once. -/
lemma run_coils {env : Env} (h : Coils env.table) {rest : List Char}
    (htext : env.text = ('<' :: rest).toArray) (keys : List String) {Q : Unit → State → Prop}
    (hfinish : (finish env).Ensures (inTurn keys) Q (fun _ _ => False)) :
    ∃ s, Scan.run env (.opened env.table none keys) = (.ok (),s) ∧ Q () s := by
  obtain ⟨n,hn⟩ : ∃ n, stepLimit env = n + 1 + 1 := by
    refine ⟨max freeSteps (3 * env.text.byteOffset env.text.size) - 1,?_⟩
    have hfree := Nat.le_max_left freeSteps (3 * env.text.byteOffset env.text.size)
    rw [freeSteps] at hfree
    rw [stepLimit,freeSteps]
    omega
  rw [Scan.run,hn,steps]
  have hopened : State.opened env.table none keys = { assembled := keys } := rfl
  rw [hopened]
  rcases hturns : (step env 1).run { assembled := keys } with ⟨halt | goesOn,s⟩
  · exact ((step_turns h htext keys).error hturns).elim
  · obtain ⟨rfl,rfl⟩ := (step_turns h htext keys).ok hturns
    dsimp only
    rw [steps]
    rcases hends : (step env (1 + 1)).run (inTurn keys) with ⟨halt | goesOn,s⟩
    · exact ((step_ends h keys).error hends).elim
    · obtain ⟨rfl,rfl⟩ := (step_ends h keys).ok hends
      dsimp only
      rcases hfinishes : (finish env).run (inTurn keys) with ⟨halt | u,s⟩
      · exact (hfinish.error hfinishes).elim
      · exact ⟨s,rfl,hfinish.ok hfinishes⟩

namespace Highlighter

/-- A highlighter that knows the grammar. -/
def spirals : Highlighter := only "spiral" spiral

/-- A call comes down to a scan by the table of the grammar. -/
lemma run_highlightWithin_spirals (depth : Nat) (q : Request) (hq : q.name = "spiral") (keys : List String) :
    ∃ t keys', Coils t ∧ (spirals.highlightWithin (depth + 1) q).run keys =
      (spirals.scan (spirals.highlightWithin depth) t q).run keys' := by
  have hok : spiral.assemble.toOption.isSome = true := by decide +kernel
  obtain ⟨t,ht⟩ := Option.isSome_iff_exists.mp hok
  have ht := except_eq_ok_of_toOption ht
  have hfind : spirals.registry.find? q.name = some (Registry.key "spiral",.ofGrammar spiral) := by
    rw [hq]
    exact find?_only "spiral" spiral
  exact ⟨t,_,spiral_coils ht,run_highlightWithin_succ hfind ((Entry.ofGrammar spiral).table_get.trans ht) keys⟩

/-- A scan whose finish leaves a tree gives a result with that tree. -/
lemma exists_scan_coils {run : Request → Call Result} {t : NodeTable} (h : Coils t) {q : Request}
    (hq : q.continuation = none) {rest : List Char} (hcode : q.code.toList = '<' :: rest)
    {keys : List String} {P : List Tree → Prop}
    (hfinish : (finish (spirals.envFor run t q)).Ensures (inTurn keys) (fun _ s => P s.tree.finish)
      (fun _ _ => False)) :
    ∃ r keys', (spirals.scan run t q).run keys = (.ok r,keys') ∧ P r.tree := by
  have htext : (spirals.envFor run t q).text = ('<' :: rest).toArray := by
    rw [← hcode]
    rfl
  obtain ⟨s,hs,hP⟩ := run_coils h htext keys hfinish
  rw [scan,hq,run_highlight,hs]
  exact ⟨_,_,rfl,hP⟩

/-- A text of so many lexemes. -/
def turns (n : Nat) : String := String.ofList (List.replicate n '<')

lemma toList_turns (n : Nat) : (turns (n + 1)).toList = '<' :: (turns n).toList := by
  simp [turns,List.replicate_succ]

/-- Some path through the trees passes so many scopes that are not embedded results. -/
def Passes (n : Nat) (ts : List Tree) : Prop :=
  ∃ t ∈ ts, ∃ tags, t.Path tags ∧ tags.countP (!·.embedded) = n

/-- Each level of embedded texts puts another scope around the tree of the next. -/
lemma exists_passes (n depth : Nat) (tolerant : Bool) (keys : List String) (hn : n < depth) :
    ∃ r keys', (spirals.highlightWithin depth { name := "spiral", code := turns (n + 1), tolerant }).run keys =
      (.ok r,keys') ∧ Passes (n + 1) r.tree := by
  induction n generalizing depth tolerant keys with
  | zero =>
    obtain ⟨depth,rfl⟩ := Nat.exists_eq_add_of_lt hn
    let q : Request := { name := "spiral", code := turns (0 + 1), tolerant }
    obtain ⟨t,keys₁,hcoils,hrun⟩ := run_highlightWithin_spirals (0 + depth) q rfl keys
    have hcode : q.code.toList = ['<'] := toList_turns 0
    have htext : (spirals.envFor (spirals.highlightWithin (0 + depth)) t q).text = ['<'].toArray := by
      rw [← hcode]
      rfl
    rw [hrun]
    refine exists_scan_coils (P := Passes (0 + 1)) hcoils rfl hcode
      ((finish_ends hcoils htext keys₁).mono (fun _ s hs => ?_) (fun _ _ h => h))
    rw [hs]
    exact ⟨_,List.mem_cons_of_mem _ List.mem_cons_self,_,.scope _ _,rfl⟩
  | succ n ih =>
    obtain ⟨depth,rfl⟩ := Nat.exists_eq_add_of_lt hn
    let q : Request := { name := "spiral", code := turns (n + 1 + 1), tolerant }
    obtain ⟨t,keys₁,hcoils,hrun⟩ := run_highlightWithin_spirals (n + 1 + depth) q rfl keys
    obtain ⟨r,keys₂,hr,t',ht',tags,hpath,hcount⟩ := ih (n + 1 + depth) true keys₁ (by omega)
    have hknown : spirals.registry.contains "spiral" = true := by
      rw [spirals,Registry.contains,find?_only]
      rfl
    have hcall : (spirals.envFor (spirals.highlightWithin (n + 1 + depth)) t q).embed (.named "spiral") none
        (turns (n + 1)) = some (spirals.highlightWithin (n + 1 + depth)
          { name := "spiral", code := turns (n + 1), tolerant := true }) := by
      simp only [envFor,embedBy,hknown,if_true]
    have hrest : (turns (n + 1)).isEmpty = false := by
      rw [← Bool.not_eq_true,String.isEmpty_iff]
      simp [turns,List.replicate_succ]
    have hcode : q.code.toList = '<' :: (turns (n + 1)).toList := toList_turns (n + 1)
    have htext : (spirals.envFor (spirals.highlightWithin (n + 1 + depth)) t q).text =
        ('<' :: (turns (n + 1)).toList).toArray := by
      rw [← hcode]
      rfl
    rw [hrun]
    refine exists_scan_coils (P := Passes (n + 1 + 1)) hcoils rfl hcode
      ((finish_embeds hcoils hrest htext hcall hr).mono (fun _ s hs => ?_) (fun _ _ h => h))
    obtain ⟨kind,hs⟩ := hs
    rw [hs]
    refine ⟨_,List.mem_cons_of_mem _ List.mem_cons_self,_,
      .child List.mem_cons_self (.child ht' hpath),?_⟩
    rw [List.countP_cons,List.countP_cons,hcount]
    rfl

lemma exists_nested (n : Nat) : ∃ q r keys t tags, q.continuation = none ∧
    (spirals.highlight q).run [] = (.ok r,keys) ∧ t ∈ r.tree ∧ t.Path tags ∧
      n < tags.countP (!·.embedded) := by
  have hroom : n < spirals.depthFor (turns (n + 1)) := by
    have hlength : (turns (n + 1)).length = n + 1 := by simp [turns]
    have hsize : n + 1 + 1 ≤ (spirals.registry.size + 1) * (n + 1 + 1) :=
      Nat.le_mul_of_pos_left _ (Nat.succ_pos _)
    rw [depthFor,hlength]
    omega
  obtain ⟨r,keys,hr,t,ht,tags,hpath,hcount⟩ := exists_passes n _ false [] hroom
  refine ⟨{ name := "spiral", code := turns (n + 1) },r,keys,t,tags,rfl,?_,ht,hpath,?_⟩
  · rw [highlight]
    exact hr
  · rw [hcount]
    exact Nat.lt_succ_self n

/-- The scopes of embedded texts inside each other pass the limit, and no fault is reported. -/
theorem exists_nested_past_limit : ∃ q r keys t tags, q.continuation = none ∧
    (spirals.highlight q).run [] = (.ok r,keys) ∧ t ∈ r.tree ∧ t.Path tags ∧
      1001 < tags.countP (!·.embedded) :=
  exists_nested 1001

end Highlighter

end Spiral
end Highlight
