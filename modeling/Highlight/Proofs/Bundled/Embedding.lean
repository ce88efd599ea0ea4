import Highlight.Grammar.Bundled
import Highlight.Proofs.Assembly.Compiled
import Highlight.Proofs.Returns
import Highlight.Proofs.Scan.Hosts
import Highlight.Proofs.Scan.Ignored

/-!
What the bundled grammars embed. Only the body of an HTTP message is handed on, to whichever grammar
fits it best, HTTP among them. It begins after an empty line, so that each detection has two bytes less
to go through than the one around it.
-/
namespace Highlight

open Rules

/-- A pattern that matches two characters, each of a set. -/
def Regex.Pattern.isPair : Pattern → Bool
  | .cat (.set _) (.set _) => true
  | _ => false

/-- A rule whose matches take two characters. -/
def Rules.Rule.takesPair (rule : Rule) (ignoreCase : Bool) : Bool :=
  match Regex.compileRule rule.pattern ignoreCase with
  | .ok g => g.plain && g.pattern.isPair
  | .error _ => false

namespace NodeTable

/-- Whether a node is as `HostsAfter` says. -/
def hostsAfterAt (t : NodeTable) (opening host id : NodeId) : Bool :=
  let node := t.node id
  node.subLanguage.all (fun sub => id == host && sub == .auto []) &&
    node.rules.rules.all (fun rule => rule.kind != .begins host && (rule.kind != .begins opening ||
      isCombinable node.rules.rules node.rules.ignoreCase false && rule.takesPair node.rules.ignoreCase)) &&
    node.starts != some opening && (node.starts != some host || id == opening)

/-- A test for `HostsAfter`. -/
def hostsAfter (t : NodeTable) (opening host : NodeId) : Bool :=
  opening != rootNode && host != rootNode && (t.node host).rules.rules.isEmpty &&
    (t.node opening).rules.rules.all (!·.isBegin) && !(t.node opening).switches.returnBegin &&
    !(t.node opening).switches.excludeEnd && !(t.node opening).switches.skip &&
    (List.range t.size).all (t.hostsAfterAt opening host)

end NodeTable

/-- A set leads to the next position, if anywhere. -/
lemma Regex.Pattern.ways_set (t : Haystack) (cs : CharSet) (s : Spot) :
    (Pattern.set cs).ways t s = [] ∨ (Pattern.set cs).ways t s = [s.advance] := by
  rw [ways]
  repeat' split
  · exact .inr rfl
  · exact .inl rfl
  · exact .inl rfl

lemma Regex.stop_of_isPair {r : Regex} (hplain : r.plain = true) (hpair : r.pattern.isPair = true)
    {t : Haystack} {q stop : Nat} (h : (r.preferred t q).map Spot.position = some stop) :
    stop = q + 2 := by
  rw [preferred,if_pos hplain] at h
  unfold Pattern.isPair at hpair
  split at hpair
  · rename_i a b hpattern
    rw [hpattern,Pattern.ways] at h
    rcases Pattern.ways_set t a { position := q } with ha | ha
    · rw [ha] at h
      cases h
    · rw [ha,thenWays] at h
      rcases Pattern.ways_set t b (Spot.advance { position := q }) with hb | hb
      · rw [hb] at h
        cases h
      · rw [hb] at h
        exact (Option.some.inj h).symm
  · cases hpair

lemma Rules.Rule.stop_of_takesPair {rule : Rule} {ic : Bool} (h : rule.takesPair ic = true) {text : Source}
    {q stop : Nat} (hstop : rule.end? ic text q = some stop) : stop = q + 2 := by
  rw [Rule.takesPair] at h
  rw [Rule.end?] at hstop
  cases hcompile : Regex.compileRule rule.pattern ic with
  | error e =>
    rw [hcompile] at h
    cases h
  | ok g =>
    rw [hcompile] at h hstop
    obtain ⟨hplain,hpair⟩ := Bool.and_eq_true_iff.mp h
    exact Regex.stop_of_isPair hplain hpair hstop

lemma NodeTable.HostsAfter.of_hostsAfter {g : Grammar} {t : NodeTable} (hg : g.assemble = .ok t)
    {opening host : NodeId} (h : t.hostsAfter opening host = true) : t.HostsAfter opening host := by
  simp only [hostsAfter,Bool.and_eq_true,bne_iff_ne,List.isEmpty_iff,List.all_eq_true,
    Bool.not_eq_true',List.mem_range] at h
  obtain ⟨⟨⟨⟨⟨⟨⟨hopening,hhost⟩,hempty⟩,hbegins⟩,hreturn⟩,hexclude⟩,hskip⟩,hall⟩ := h
  -- a node outside of the table has nothing to say
  have hnode : ∀ id, t.hostsAfterAt opening host id = true := by
    intro id
    rcases Nat.lt_or_ge id t.size with hlt | hge
    · exact hall id hlt
    · have hdefault : t.node id = default := by
        rw [NodeTable.node,Array.getD_eq_getD_getElem?,Array.getElem?_eq_none_iff.mpr hge]
        rfl
      rw [hostsAfterAt,hdefault]
      rfl
  simp only [hostsAfterAt,Bool.and_eq_true,Bool.or_eq_true,List.all_eq_true,bne_iff_ne,
    beq_iff_eq] at hnode
  refine ⟨fun id sub hsub => ?_,⟨hopening,hhost⟩,hempty,fun rule hrule id hkind => ?_,
    fun id rule hrule => (((hnode id).1.1.2) rule hrule).1,fun id => ⟨(hnode id).1.2,fun hstarts => ?_⟩,
    ⟨hreturn,hexclude,hskip⟩,fun {id text start first m} hexec hkind => ?_⟩
  · have hsub := (Option.all_eq_true _ _).mp (hnode id).1.1.1 sub hsub
    simpa using hsub
  · have hbegin := hbegins rule hrule
    rw [Rule.isBegin,hkind] at hbegin
    cases hbegin
  · exact (hnode id).2.resolve_left (fun hne => hne hstarts)
  · obtain ⟨rule,hrule,hrulekind⟩ := RuleSet.exists_rule_of_exec hexec
    have hcombinable := ((hnode id).1.1.2 rule hrule).2.resolve_left (fun hne => hne (hrulekind.trans hkind))
    have hfires : Fires _ _ text start first m := hexec ▸ Grammar.exec_answers hg
      (.of_isCombinable hcombinable.1) start first
    obtain ⟨fired,hfired,hfiredkind⟩ := Option.map_eq_some_iff.mp hfires.kind
    have hstop := hfires.stop
    rw [endAt?,hfired] at hstop
    have hpair := (((hnode id).1.1.2 fired (List.mem_of_getElem? hfired)).2.resolve_left
      (fun hne => hne (hfiredkind.trans hkind))).2
    exact Nat.le_of_eq (Rule.stop_of_takesPair hpair hstop).symm

/-- Where no mode hosts anything, nodes that there are not stand in for the opening mode and its host. -/
lemma NodeTable.HostsAfter.of_drafts {g : Grammar} {t : NodeTable} (hg : g.assemble = .ok t)
    (h : (Assembly.draftAll g).toOption.all (fun drafts => drafts.all (·.mode.subLanguage.isNone)) = true) :
    t.HostsAfter t.size (t.size + 1) := by
  obtain ⟨drafts,hdrafts,hsize,hnode⟩ := Grammar.node_of_assemble hg
  have hnone := Array.all_eq_true_iff_forall_mem.mp
    ((Option.all_eq_true _ _).mp h drafts (by rw [hdrafts]; rfl))
  have hclosed := Grammar.assemble_closed hg
  have hdefault : ∀ id, t.size ≤ id → t.node id = default := by
    intro id hid
    rcases hnode id with ⟨-,h⟩ | ⟨d,hd,-⟩
    · exact h
    · have hlt := (Array.getElem?_eq_some_iff.mp hd).1
      omega
  have hopening := hdefault t.size (Nat.le_refl _)
  have hhost := hdefault (t.size + 1) (Nat.le_succ _)
  have hbegins : ∀ id, ∀ rule ∈ (t.node id).rules.rules, ∀ k, t.size ≤ k → rule.kind ≠ .begins k :=
    fun id rule hrule k hk hkind => Nat.not_lt.mpr hk (hclosed.begins id rule hrule k hkind).2
  have hstarts : ∀ id k, t.size ≤ k → (t.node id).starts ≠ some k :=
    fun id k hk hkind => Nat.not_lt.mpr hk (hclosed.starts id k hkind).2
  constructor
  case hosts =>
    intro id sub hsub
    rcases hnode id with ⟨-,h⟩ | ⟨d,hd,hof⟩
    · rw [h] at hsub
      cases hsub
    · have hd := hnone d (Array.mem_of_getElem? hd)
      rw [← (Assembly.drafted_of_nodeOf hof).subLanguage,hsub] at hd
      cases hd
  case ne_root => exact ⟨hclosed.size_ne,Nat.succ_ne_zero _⟩
  case rules_host =>
    rw [hhost]
    rfl
  case rules_opening =>
    intro rule hrule
    rw [hopening] at hrule
    cases hrule
  case begins => exact fun id rule hrule => hbegins id rule hrule _ (Nat.le_succ _)
  case starts =>
    exact fun id => ⟨hstarts id _ (Nat.le_refl _),fun h => absurd h (hstarts id _ (Nat.le_succ _))⟩
  case switches =>
    rw [hopening]
    exact ⟨rfl,rfl,rfl⟩
  case two_le =>
    intro id text start first m hexec hkind
    obtain ⟨rule,hrule,hrulekind⟩ := RuleSet.exists_rule_of_exec hexec
    exact absurd (hrulekind.trans hkind) (hbegins _ rule hrule _ (Nat.le_refl _))

namespace Grammar.Bundled

/-- A bundled grammar hosts others in one mode at most. -/
lemma exists_hostsAfter {name : String} {g : Grammar} (hmem : (name,g) ∈ all) {t : NodeTable}
    (ht : g.assemble = .ok t) : ∃ opening host, t.HostsAfter opening host := by
  have hsubless : ∀ g ∈ [json,diff,ini], (Assembly.draftAll g).toOption.all
      (fun drafts => drafts.all (·.mode.subLanguage.isNone)) = true := by
    decide +kernel
  have hhttp : http.assemble.toOption.all (·.hostsAfter 9 10) = true := by decide +kernel
  simp only [all,List.mem_cons,List.not_mem_nil,or_false,Prod.mk.injEq] at hmem
  rcases hmem with ⟨-,rfl⟩ | ⟨-,rfl⟩ | ⟨-,rfl⟩ | ⟨-,rfl⟩
  · exact ⟨_,_,.of_drafts ht (hsubless _ (by simp))⟩
  · exact ⟨_,_,.of_drafts ht (hsubless _ (by simp))⟩
  · exact ⟨_,_,.of_drafts ht (hsubless _ (by simp))⟩
  · exact ⟨_,_,.of_hostsAfter ht ((Option.all_eq_true _ _).mp hhttp t (by rw [ht]; rfl))⟩

end Grammar.Bundled

lemma Registry.entries_bundled :
    bundled.entries = Grammar.Bundled.all.map (fun (name,g) => (name,Entry.ofGrammar g)) := rfl

namespace Scan

/-- A scan is cut short only in the call for an embedded text. -/
lemma run_ne_tooDeep {env : Env} (h : ∀ {sub c code call}, env.embed sub c code = some call →
      ∀ keys, (call.run keys).1 ≠ .error .embeddingTooDeep) (s : State) :
    (run env s).1 ≠ .error .tooDeep := by
  have hleads : env.Leads (fun _ => False) (· ≠ .tooDeep) env := by
    refine ⟨rfl,rfl,fun _ => .inr nofun,fun _ => .inr nofun,.inl rfl,.inl rfl,fun sub c code => ?_⟩
    cases hcall : env.embed sub c code with
    | none => exact .none
    | some call =>
      refine .some (.refl (fun keys e keys' hrun => .inr (fun he => ?_)))
      exact h hcall keys (by rw [hrun,Halt.error.inj he])
  intro hcut
  rcases hrun : run env s with ⟨outcome,s'⟩
  rw [hrun] at hcut
  obtain rfl : outcome = .error .tooDeep := hcut
  exact ((follows_run hleads).error hrun).elim id (fun hshared => hshared.1 rfl)

end Scan

namespace Highlighter

/-- A highlighter that knows the bundled grammars and no others. -/
def ofBundled (settings : Settings) : Highlighter := { settings, registry := .bundled }

variable {settings : Settings} {run : Request → Call Result} {table : NodeTable} {q : Request}

/-- A call for an embedded text that begins two bytes later, with no mode left open. -/
def EmbedsLess (text : String) (sub : SubLanguage) (c : Option Continuation) (code : String) : Prop :=
  sub = .auto [] ∧ c = none ∧ ∃ front, front ++ code = text ∧ 2 ≤ front.utf8ByteSize

lemma EmbedsLess.utf8ByteSize_le {text code : String} {sub : SubLanguage} {c : Option Continuation}
    (h : EmbedsLess text sub c code) : code.utf8ByteSize + 2 ≤ text.utf8ByteSize := by
  obtain ⟨-,-,front,rfl,hfront⟩ := h
  rw [String.utf8ByteSize_append]
  omega

/-- A scan by a bundled grammar that starts afresh embeds only what is left of its text two bytes
later. -/
lemma callsOnly_ofBundled (htable : (ofBundled settings).Assembles table) (run : Request → Call Result)
    (q : Request) (keys : List String) :
    ((ofBundled settings).envFor run table q).CallsOnly (.opened table none keys) (EmbedsLess q.code) := by
  obtain ⟨entry,hentry,htable⟩ := htable
  rw [ofBundled,Registry.entries_bundled] at hentry
  obtain ⟨⟨name,g⟩,hmem,rfl⟩ := List.mem_map.mp hentry
  obtain ⟨opening,host,hhosts⟩ := Grammar.Bundled.exists_hostsAfter hmem htable
  have hcalls : ((ofBundled settings).envFor run table q).CallsOnly (.opened table none keys) _ :=
    Scan.callsOnly_of_hostsAfter hhosts keys
  intro e he
  refine hcalls e ?_
  rintro sub c code ⟨hsub,hc,front,hfront,hlength⟩
  refine he sub c code ⟨hsub,hc,front,hfront.trans (Source.toString_ofString q.code),?_⟩
  have hle := Source.length_le_utf8ByteSize front.toList
  rw [String.ofList_toList,String.length_toList] at hle
  exact Nat.le_trans hlength hle

/-- Two bytes of text are enough for each level of embedding. -/
lemma not_stops_ofBundled (depth : Nat) (hq : q.continuation = none)
    (hdepth : q.code.utf8ByteSize / 2 < depth) :
    ¬ ((ofBundled settings).highlightWithin depth q).Stops := by
  induction depth generalizing q with
  | zero => exact absurd hdepth (Nat.not_lt_zero _)
  | succ depth ih =>
    intro hstops
    obtain ⟨key,entry,table,hfind,htable,hscan⟩ := exists_scan_stops hstops
    have hcut := (scan_stops_iff (steady_highlightWithin depth) []).mp hscan
    let env := (ofBundled settings).envFor ((ofBundled settings).highlightWithin depth) table q
    -- texts that are not shorter are not embedded, so that they may be left alone
    let shorter : Scan.Embed := fun sub c code =>
      if c = none ∧ code.utf8ByteSize + 2 ≤ q.code.utf8ByteSize then env.embed sub c code else none
    have hsame : Scan.run (env.embedding shorter) (.opened table none []) =
        Scan.run env (.opened table none []) := by
      refine callsOnly_ofBundled ⟨_,Registry.mem_of_find? hfind,htable⟩ _ q [] shorter ?_
      exact fun sub c code hless => if_pos ⟨hless.2.1,hless.utf8ByteSize_le⟩
    have hgoes : ∀ {sub c code call}, (env.embedding shorter).embed sub c code = some call →
        ∀ keys, (call.run keys).1 ≠ .error .embeddingTooDeep := by
      intro sub c code call hcall keys he
      replace hcall : shorter sub c code = some call := hcall
      simp only [shorter] at hcall
      split at hcall
      · rename_i hshorter
        obtain ⟨name,c',-,hnone,hfails⟩ := exists_of_embedBy_error (steady_highlightWithin depth) hcall he
        refine ih (hnone hshorter.1) ?_ ((steady_highlightWithin depth _).stops hfails)
        dsimp only
        omega
      · cases hcall
    rw [hq] at hcut
    exact Scan.run_ne_tooDeep hgoes _ ((congrArg Prod.fst hsame).trans hcut)

/-- A character takes at most four bytes. -/
lemma half_lt_depthFor (settings : Settings) (code : String) :
    code.utf8ByteSize / 2 < (ofBundled settings).depthFor code := by
  have hbytes : ∀ cs : List Char, (String.ofList cs).utf8ByteSize ≤ 4 * cs.length := by
    intro cs
    induction cs with
    | nil => exact Nat.zero_le _
    | cons c cs ih =>
      have hc := c.utf8Size_le_four
      rw [String.ofList_cons,String.utf8ByteSize_append,String.utf8ByteSize_singleton,List.length_cons]
      omega
  have hcode := hbytes code.toList
  have hsize : (ofBundled settings).registry.size = 4 := rfl
  rw [String.ofList_toList,String.length_toList] at hcode
  rw [depthFor,hsize]
  omega

/-- A scan by a bundled grammar that starts afresh embeds nothing but what is left of its text two bytes
later, in a detection among all candidates. So every call and every detection returns, and detections
nest at most half as deep as the text has bytes. -/
theorem ofBundled_returns (settings : Settings) :
    (∀ run table q keys, (ofBundled settings).Assembles table → q.continuation = none →
      ((ofBundled settings).envFor run table q).CallsOnly (.opened table q.continuation keys)
        (EmbedsLess q.code)) ∧
    (∀ q, q.continuation = none → ∀ depth > q.code.utf8ByteSize / 2, ∀ keys,
      (((ofBundled settings).highlightWithin depth q).run keys).1 ≠ .error .embeddingTooDeep ∧
      ((ofBundled settings).highlightWithin depth q).run keys =
        ((ofBundled settings).highlight q).run keys) ∧
    ∀ candidates code, ∀ depth > code.utf8ByteSize / 2, ∀ keys,
      (((ofBundled settings).detectBy ((ofBundled settings).highlightWithin depth) candidates code).run
        keys).1 ≠ .error .embeddingTooDeep ∧
      ((ofBundled settings).detectBy ((ofBundled settings).highlightWithin depth) candidates code).run keys =
        ((ofBundled settings).detectAmong candidates code).run keys := by
  have hcall : ∀ q : Request, q.continuation = none → ∀ depth > q.code.utf8ByteSize / 2, ∀ keys,
      (((ofBundled settings).highlightWithin depth q).run keys).1 ≠ .error .embeddingTooDeep :=
    fun q hq depth hdepth keys hcut =>
      not_stops_ofBundled depth hq hdepth ((steady_highlightWithin depth q).stops hcut)
  have hdetect : ∀ candidates code, ∀ depth > code.utf8ByteSize / 2, ∀ keys,
      (((ofBundled settings).detectBy ((ofBundled settings).highlightWithin depth) candidates code).run
        keys).1 ≠ .error .embeddingTooDeep := fun candidates code depth hdepth keys =>
    detectBy_returns (steady_highlightWithin depth) candidates (fun name => hcall _ rfl depth hdepth keys)
  refine ⟨fun run table q keys htable hq => hq ▸ callsOnly_ofBundled htable run q keys,
    fun q hq depth hdepth keys => ⟨hcall q hq depth hdepth keys,?_⟩,
    fun candidates code depth hdepth keys => ⟨hdetect candidates code depth hdepth keys,?_⟩⟩
  · have henough : ∀ depth > q.code.utf8ByteSize / 2, _ = _ := fun depth hdepth =>
      run_eq_of_le (fun depth => follows_deeper depth q) (fun depth hdepth => hcall q hq depth hdepth keys) hdepth
    exact (henough depth hdepth).trans (henough _ (half_lt_depthFor settings q.code)).symm
  · have henough : ∀ depth > code.utf8ByteSize / 2, _ = _ := fun depth hdepth => run_eq_of_le
      (x := fun depth => (ofBundled settings).detectBy ((ofBundled settings).highlightWithin depth) candidates code)
      (fun depth => follows_deeper_detectBy depth candidates code)
      (fun depth hdepth => hdetect candidates code depth hdepth keys) hdepth
    exact (henough depth hdepth).trans (henough _ (half_lt_depthFor settings code)).symm

/-- A message whose body is a message with a body. -/
theorem ofBundled_returns_message :
    let h := ofBundled {}
    let q : Request := { name := "https", code := "HTTP/1.1 200 OK\n\nHTTP/1.1 404\n\n{}" }
    (∃ table, h.Assembles table ∧
      (h.envFor h.highlight table q).CallsOnly (.opened table none []) (EmbedsLess q.code)) ∧
    (∀ keys, ((h.highlightWithin 17 q).run keys).1 ≠ .error .embeddingTooDeep) ∧
    ∀ keys, ((h.detectBy (h.highlightWithin 17) h.candidates q.code).run keys).1 ≠
      .error .embeddingTooDeep := by
  intro h q
  have hdepth : q.code.utf8ByteSize / 2 < 17 := by decide +kernel
  have hhttp : ∃ table, Grammar.Bundled.http.assemble = .ok table := Grammar.exists_assemble (by decide +kernel)
  obtain ⟨table,htable⟩ := hhttp
  have hassembles : h.Assembles table :=
    ⟨("http",.ofGrammar Grammar.Bundled.http),by simp [h,ofBundled,Registry.entries_bundled,
      Grammar.Bundled.all],htable⟩
  obtain ⟨hcalls,hreturns,hdetects⟩ := ofBundled_returns {}
  exact ⟨⟨table,hassembles,hcalls _ table q [] hassembles rfl⟩,
    fun keys => (hreturns q rfl 17 hdepth keys).1,fun keys => (hdetects _ q.code 17 hdepth keys).1⟩

end Highlighter

end Highlight
