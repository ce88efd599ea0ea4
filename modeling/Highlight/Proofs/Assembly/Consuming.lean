import Highlight.Proofs.Assembly.OwnEnd
import Highlight.Proofs.Regex.Stays
import Highlight.Proofs.Rules.Alternated
import Highlight.Proofs.Rules.ZeroWidth

/-!
Grammars whose begins and given ends match no empty text. Where such a pattern is plain, backtracking finds no
empty match either, so that two of them with a bar between them make up a third. Where an end rule of such a
grammar matches the empty text, this comes from a mode that gives no end and so ends at once: that of the node
itself or, as long as each ends with its parent, one of those around it.
-/
namespace Highlight.Rules

open Regex

variable {ic plain : Bool} {own inherited source : String} {r : Reader} {p : Pattern} {text : Source}
  {q : Nat} {s : Spot}

/-- A pattern that matches no empty text, as a regex of its own. -/
def Consumes (ignoreCase : Bool) (pattern : String) : Prop :=
  ∀ g, Regex.compileRule pattern ignoreCase = .ok g → ∀ (text : Source) (q : Nat) (s : Spot),
    q ≤ text.size → g.preferred { text } q = some s → q < s.position

/-- A test for patterns that match no empty text: they are plain and, whatever holds at a position, do not
end where they start. -/
def goesOn (source : String) (ignoreCase : Bool) : Bool :=
  (Regex.compileRule source ignoreCase).toOption.any (fun g => g.plain && !g.pattern.stays (fun _ => true))

/-- A plain pattern that cannot end where it starts goes on. -/
lemma lt_of_lead? (ho : Ordered (regexOf r p)) (hplain : (regexOf r p).plain = true) (hq : q ≤ text.size)
    (hstays : (regexOf r p).pattern.stays (·.holds { text } q) = false)
    (h : (regexOf r p).pattern.lead? plain { text } { position := q } = some s) : q < s.position := by
  have hpattern : (regexOf r p).pattern.isPlain r.referenced = true := Pattern.isPlain_settle hplain
  rw [Ordered,if_pos hplain] at ho
  have hmem := mem_ends_of_lead? hpattern ho hq h
  refine Nat.lt_of_le_of_ne (ends_bounds _ hpattern hq hmem).1 (fun heq => ?_)
  rw [← heq,mem_ends_self_iff _ (Pattern.isPositional_of_isPlain hpattern) hq,hstays] at hmem
  cases hmem

namespace Consumes

/-- A plain pattern that matches no empty text, nor cuts short a text to do so. -/
lemma stays_eq_false (h : Consumes ic source) (hg : Regex.compileRule source ic = .ok (regexOf r p))
    (ho : Ordered (regexOf r p)) (hplain : (regexOf r p).plain = true) (hq : q ≤ text.size) :
    (regexOf r p).pattern.stays (·.holds { text } q) = false := by
  rw [Ordered,if_pos hplain] at ho
  refine Bool.eq_false_iff.mpr (fun hstays => ?_)
  obtain ⟨s,hs,hposition⟩ := exists_lead?_of_stays (Pattern.isPlain_settle hplain) ho hq hstays
  have hsize : q ≤ (text.extract 0 q).size := by simp [hq]
  refine Nat.ne_of_gt (h _ hg _ q s hsize ?_) hposition
  rw [preferred_eq,hplain]
  exact hs

/-- It matches none however it is run. -/
lemma lt_of_lead? (h : Consumes ic source) (hg : Regex.compileRule source ic = .ok (regexOf r p))
    (ho : Ordered (regexOf r p)) (hplain : plain = true → (regexOf r p).plain = true) (hq : q ≤ text.size)
    (hs : (regexOf r p).pattern.lead? plain { text } { position := q } = some s) : q < s.position := by
  cases hp : (regexOf r p).plain with
  | true => exact Rules.lt_of_lead? ho hp hq (h.stays_eq_false hg ho hp hq) hs
  | false =>
    obtain rfl : plain = false := Bool.eq_false_iff.mpr (fun ht => Bool.eq_false_iff.mp hp (hplain ht))
    refine h _ hg text q s hq ?_
    rw [preferred_eq,hp]
    exact hs

/-- Two patterns that match no empty text match none with a bar between them. -/
theorem barred (h : Consumes ic own) (h' : Consumes ic inherited) (hjoin : Joinable own inherited ic) :
    Consumes ic (own ++ "|" ++ inherited) := by
  obtain ⟨a,b,p,p',joined,hg,hordered,hg',hordered',hjoined,hplain,hleads⟩ := exists_barred_leads hjoin
  intro g hcompiled text q s hq hs
  obtain rfl := Except.ok.inj (hjoined.symm.trans hcompiled)
  rw [preferred_eq,hleads,Option.or_eq_some_iff] at hs
  rcases hs with hs | ⟨-,hs⟩
  · exact h.lt_of_lead? hg hordered (fun hp => (Bool.and_eq_true_iff.mp (hplain.symm.trans hp)).1) hq hs
  · have htraces := Pattern.leads_renumber joined.plain { text } (regexOf b p').pattern _ _
      (Spot.Traces.start a.groups q)
    unfold Pattern.lead? at hs
    obtain ⟨rest,hrest⟩ := List.head?_eq_some_iff.mp hs
    rw [hrest] at htraces
    obtain ⟨first,l,hfirst,-,hl⟩ := List.forall₂_cons_right_iff.mp htraces
    have hlead : (regexOf b p').pattern.lead? joined.plain { text } { position := q } = some first := by
      rw [Pattern.lead?,hl]
      rfl
    rw [hfirst.position]
    exact h'.lt_of_lead? hg' hordered' (fun hp => (Bool.and_eq_true_iff.mp (hplain.symm.trans hp)).2) hq hlead

/-- A match that rules find takes text in, if those of its kind match no empty text. -/
lemma start_lt_stop {rules : List Rule} {start first : Nat} {m : RuleMatch}
    (h : ∀ rule ∈ rules, rule.kind = m.kind → Consumes ic rule.pattern)
    (hfires : Fires rules ic text start first m) : m.start < m.stop := by
  obtain ⟨rule,hrule,hkind⟩ := Option.map_eq_some_iff.mp hfires.kind
  have hstop := hfires.stop
  rw [endAt?,hrule,Option.bind_eq_bind,Option.bind_some,Rule.end?] at hstop
  split at hstop
  · rename_i g hg
    obtain ⟨s,hs,hposition⟩ := Option.map_eq_some_iff.mp hstop
    exact hposition ▸ h rule (List.mem_of_getElem? hrule) hkind g hg text _ s hfires.start_le_size hs
  · cases hstop

lemma of_goesOn (h : goesOn source ic = true) : Consumes ic source := by
  intro g hg text q s hq hs
  obtain ⟨r,p,-,rfl,hordered,-⟩ := readsAs_of_compileRule hg
  rw [goesOn,hg] at h
  obtain ⟨hplain,hstays⟩ := Bool.and_eq_true_iff.mp h
  have hpattern : (regexOf r p).pattern.isPlain r.referenced = true := Pattern.isPlain_settle hplain
  rw [preferred_eq] at hs
  refine Rules.lt_of_lead? hordered hplain hq (Bool.eq_false_iff.mpr (fun hholds => ?_)) hs
  rw [Pattern.stays_mono hpattern (fun _ _ _ _ => rfl) hholds] at hstays
  cases hstays

end Consumes

end Highlight.Rules

namespace Highlight

open Assembly Rules

/-- A mode that ends at once: no end is given, and it does not end with its parent. -/
def Mode.EndsAtOnce (m : Mode) : Prop :=
  m.switches.endSameAsBegin.getD false = false ∧ m.endPattern = none ∧ m.endsWithParent = false

/-- The begins of all modes that are compiled match no empty text, nor do the ends that are given. -/
structure Grammar.Consuming (g : Grammar) : Prop where
  begins : ∀ p m id, CompiledUnder g p m id → Consumes g.ignoreCase (beginOf m)
  ends : ∀ p m id, CompiledUnder g p m id → ∀ own ∈ m.endPattern, Consumes g.ignoreCase own

lemma Grammar.Consuming.of_innerModes {g : Grammar} (h : ∀ m ∈ g.innerModes,
    ∀ source ∈ beginOf m :: m.endPattern.toList, Rules.goesOn source g.ignoreCase = true) : g.Consuming where
  begins _ m _ hid := .of_goesOn (h m hid.mem_innerModes _ List.mem_cons_self)
  ends _ m _ hid own hown :=
    .of_goesOn (h m hid.mem_innerModes own (List.mem_cons_of_mem _ (Option.mem_toList.mpr hown)))

/-- The end rule of a node may match the empty text. -/
structure NodeTable.MayEndEmpty (t : NodeTable) (id : NodeId) : Prop where
  ends : t.endText id ≠ ""
  empty : ¬ Consumes t.ignoreCase (t.endText id)

variable {g : Grammar} {t : NodeTable} {s : Drafts} {p id below : NodeId} {m : Mode} {text : Source} {q : Nat}

/-- The own ends of a mode are its end or its begin, unless it ends at once. -/
lemma Assembly.endOf_cases (m : Mode) : m.EndsAtOnce ∧ endOf m = some zeroWidth ∨
    ∀ own ∈ endOf m, own = beginOf m ∨ own ∈ m.endPattern := by
  unfold Mode.EndsAtOnce endOf
  cases hsame : m.switches.endSameAsBegin.getD false with
  | true => exact .inr (fun own h => .inl (Option.some.inj h).symm)
  | false =>
    cases hend : m.endPattern with
    | some given => exact .inr (fun own h => .inr h)
    | none =>
      cases hparent : m.endsWithParent with
      | true => exact .inr (fun own h => nomatch h)
      | false => exact .inl ⟨⟨rfl,rfl,rfl⟩,rfl⟩

lemma Grammar.Consuming.own (hc : g.Consuming) (hid : CompiledUnder g p m id) (hm : ¬ m.EndsAtOnce) :
    ∀ own ∈ endOf m, Consumes g.ignoreCase own := by
  intro own hown
  rcases (endOf_cases m).resolve_left (fun h => hm h.1) own hown with rfl | h
  · exact hc.begins p m id hid
  · exact hc.ends p m id hid own h

/-- An end rule that may match the empty text does so because of a mode that ends at once, or because of
the end rule that it takes over. -/
theorem NodeTable.MayEndEmpty.cases (hg : g.assemble = .ok t) (hends : g.EndsApart) (hc : g.Consuming)
    (hid : CompiledUnder g p m id) (h : t.MayEndEmpty id) :
    m.EndsAtOnce ∨ m.endsWithParent = true ∧ t.MayEndEmpty p := by
  by_cases hm : m.EndsAtOnce
  · exact .inl hm
  have hown := hc.own hid hm
  obtain ⟨hne,hempty⟩ := h
  rw [endText_of_compiledUnder hg hid,ignoreCase_of_assemble hg] at hempty
  rw [endText_of_compiledUnder hg hid] at hne
  by_cases hinherits : m.endsWithParent = true ∧ t.endText p ≠ ""
  · obtain ⟨hparent,hbelow⟩ := hinherits
    refine .inr ⟨hparent,hbelow,fun hconsumes => hempty ?_⟩
    rw [ignoreCase_of_assemble hg] at hconsumes
    rw [terminatorOf_inherited hparent hbelow]
    cases he : endOf m with
    | none =>
      rw [Option.map_none,Option.getD_none,String.empty_append]
      exact hconsumes
    | some own =>
      obtain ⟨grouped,hends⟩ := hends
      have hjoin : Joinable own (t.endText p) g.ignoreCase :=
        (hends m hid.mem_innerModes own he).joinable ((endText_selfContained hg hends p).resolve_left hbelow)
      exact (hown own he).barred hconsumes hjoin
  · rw [terminatorOf_own hinherits] at hne hempty
    cases he : endOf m with
    | none =>
      rw [he] at hne
      exact absurd rfl hne
    | some own =>
      rw [he] at hempty
      exact absurd (hown own he) hempty

namespace Assembly

/-- A node whose mode ends at once. -/
def ClosesAtOnce (g : Grammar) (id : NodeId) : Prop := ∃ p m, CompiledUnder g p m id ∧ m.EndsAtOnce

/-- Where the end rule of a node may match the empty text and its mode does not end at once, the node ends
with its parent, and the end rule of the node that it is inside of may match the empty text. -/
theorem mayEndEmpty_below (hg : g.assemble = .ok t) (hs : walk g = .ok s) (hends : g.EndsApart)
    (hc : g.Consuming) (hid : Inside g s id below) (hinner : IsInner t.size id) (h : t.MayEndEmpty id)
    (honce : ¬ ClosesAtOnce g id) :
    (t.node id).switches.endsWithParent = true ∧ t.MayEndEmpty below := by
  obtain ⟨p,-,m,hm⟩ := Grammar.exists_compiledUnder hg hinner
  obtain ⟨hparent,-⟩ := (h.cases hg hends hc hm).resolve_left (fun hm' => honce ⟨p,m,hm,hm'⟩)
  have hswitch : (t.node id).switches.endsWithParent = true := by
    obtain ⟨s',origin,hs',horigin,hmode,hplace⟩ := hm
    rw [endsWithParent_of_place hg hs' horigin hmode hplace,hparent]
  refine ⟨hswitch,?_⟩
  obtain ⟨origin,m,owner,horigin,hmode,hplace,howner⟩ := hid
  have hparent : m.endsWithParent = true :=
    (endsWithParent_of_place hg hs horigin hmode hplace).symm.trans hswitch
  rcases howner (Grammar.dependsOnParent_iff.mpr (.inl hparent)) with rfl | ⟨rfl,-⟩
  · have hm : CompiledUnder g below m id := ⟨s,origin,hs,horigin,hmode,hplace⟩
    exact ((h.cases hg hends hc hm).resolve_left (fun hm' => honce ⟨below,m,hm,hm'⟩)).2
  · exact h

/-- The test for the end of a node that closes at once always succeeds, and its end does not change with
its begin. -/
theorem ClosesAtOnce.matchesIn (hg : g.assemble = .ok t) (hinner : IsInner t.size id)
    (h : ClosesAtOnce g id) : (t.node id).switches.endSameAsBegin = false ∧
      ∃ r, (t.node id).endRegex = some r ∧
        ∀ (text : Source) (q : Nat), q ≤ text.size → r.matchesIn text q = .ok true := by
  obtain ⟨p,m,hm,honce⟩ := h
  have hend : endOf m = some zeroWidth := by
    obtain ⟨hsame,hend,hparent⟩ := honce
    simp [endOf,hsame,hend,hparent]
  have hown : OwnEnd g id zeroWidth := ⟨p,m,hm,hend⟩
  constructor
  · obtain ⟨s,origin,hs,horigin,hmode,hplace⟩ := hm
    rw [switches_of_place hg hs horigin hmode hplace]
    exact honce.1
  · rcases endRegex_of_isInner hg hinner with ⟨-,hnone⟩ | ⟨own,r,-,hunique,hr,hregex⟩
    · exact absurd hown (hnone _)
    · rw [← hunique _ hown] at hr
      exact ⟨r,hregex,fun text q hq => Regex.matchesIn_zeroWidth hr hq⟩

/-- The rule that begins a node has the begin of the mode that the node is made for. -/
lemma exists_compiledUnder_of_begins (hg : g.assemble = .ok t) {rule : Rule} {child : NodeId}
    (hrule : rule ∈ (t.node id).rules.rules) (hkind : rule.kind = .begins child) :
    ∃ p m, CompiledUnder g p m child ∧ rule.pattern = beginOf m := by
  have hinner : IsInner t.size child := (Grammar.assemble_closed hg).begins id rule hrule child hkind
  obtain ⟨p,-,m,hm⟩ := Grammar.exists_compiledUnder hg hinner
  obtain ⟨s,origin,hs,horigin,hmode,hplace⟩ := hm
  refine ⟨p,m,⟨s,origin,hs,horigin,hmode,hplace⟩,?_⟩
  obtain ⟨d,hd,-,-,hbegin⟩ := draft_of_place hs horigin hmode hplace
  rcases nodeOf_of_node hg hs id with hdefault | ⟨d',-,hof⟩
  · rw [hdefault] at hrule
    cases hrule
  · rw [(drafted_of_nodeOf hof).rules_eq] at hrule
    rw [(begins_of_mem_rulesOf hrule hkind).2,Array.getD_eq_getD_getElem?,hd,Option.getD_some,hbegin]
    rfl

end Assembly
end Highlight
