import Highlight.Proofs.Assembly.Placed
import Highlight.Proofs.Rules.Groupless

/-!
What the end rule of a node means. Its text is the mode's own end and, if the mode ends with its parent,
the text of the parent's end rule after a bar. It matches where the own end or the parent's end rule
matches, as far as the one text can be written before the other.
-/
namespace Highlight

open Assembly Rules

def Rules.Rule.isEnd (r : Rule) : Bool :=
  match r.kind with
  | .ends => true
  | _ => false

namespace NodeTable

/-- The end rule of a node, if it has one. -/
def endRule? (t : NodeTable) (id : NodeId) : Option Rule :=
  (t.node id).rules.rules.find? Rule.isEnd

/-- The text of the end rule; empty if there is none. -/
def endText (t : NodeTable) (id : NodeId) : String := ((t.endRule? id).map Rule.pattern).getD ""

/-- Whether the end rule of a node matches at a position. Without such a rule it never does. -/
def EndsAt (t : NodeTable) (id : NodeId) (text : Source) (position : Nat) : Prop :=
  ∃ rule ∈ t.endRule? id, MatchesAt rule.pattern t.ignoreCase text position

instance (t : NodeTable) (id : NodeId) (text : Source) (position : Nat) :
    Decidable (t.EndsAt id text position) :=
  inferInstanceAs (Decidable (∃ rule ∈ t.endRule? id, _))

end NodeTable

namespace Assembly

variable {g : Grammar} {t : NodeTable} {p id : NodeId} {m : Mode} {parent own : String}

lemma find?_rulesOf (drafts : Array Draft) (d : Draft) :
    (rulesOf drafts d).find? Rule.isEnd =
      if d.terminator = "" then none else some ⟨d.terminator,.ends⟩ := by
  have hbegins : ∀ f : NodeId → String,
      (d.children.map (fun child => (⟨f child,.begins child⟩ : Rule))).find? Rule.isEnd = none := by
    intro f
    rw [List.find?_eq_none]
    intro rule hrule
    obtain ⟨child,-,rfl⟩ := List.mem_map.mp hrule
    exact Bool.false_ne_true
  rw [rulesOf,List.find?_append,List.find?_append,hbegins,Option.none_or]
  by_cases h : d.terminator = ""
  · cases d.mode.illegal with
    | none => simp [h]
    | some illegal => simp [h,Rule.isEnd]
  · have hne : d.terminator.isEmpty = false := by simpa using h
    simp [h,hne,Rule.isEnd]

/-- The end rule of a node is the terminator of its draft, if that is not empty. -/
lemma endRule?_of_nodeOf {drafts : Array Draft} {d : Draft} {ic : Bool}
    (h : nodeOf drafts ic d = .ok (t.node id)) : t.endText id = d.terminator ∧
      t.endRule? id = if d.terminator = "" then none else some ⟨d.terminator,.ends⟩ := by
  have hrule : t.endRule? id = if d.terminator = "" then none else some ⟨d.terminator,.ends⟩ := by
    rw [NodeTable.endRule?,(drafted_of_nodeOf h).rules_eq,find?_rulesOf]
  refine ⟨?_,hrule⟩
  rw [NodeTable.endText,hrule]
  split
  · exact Eq.symm ‹_›
  · rfl

/-- An end rule is not empty. -/
lemma endsAt_iff_endText (h : g.assemble = .ok t) {text : Source} {q : Nat} : t.EndsAt id text q ↔
    t.endText id ≠ "" ∧ MatchesAt (t.endText id) t.ignoreCase text q := by
  have hrule : t.endRule? id = if t.endText id = "" then none else some ⟨t.endText id,.ends⟩ := by
    obtain ⟨drafts,-,-,hnode⟩ := Grammar.node_of_assemble h
    rcases hnode id with ⟨-,hdefault⟩ | ⟨d,-,hof⟩
    · rw [NodeTable.endText,NodeTable.endRule?,hdefault]
      rfl
    · obtain ⟨htext,hrule⟩ := endRule?_of_nodeOf hof
      rw [htext,hrule]
  unfold NodeTable.EndsAt
  rw [hrule]
  split
  · rename_i hempty
    exact ⟨fun ⟨_,hrule,_⟩ => (nomatch hrule),fun h => absurd hempty h.1⟩
  · rename_i hne
    refine ⟨fun ⟨rule,hrule,hmatch⟩ => ?_,fun h => ⟨_,rfl,h.2⟩⟩
    obtain rfl := Option.some.inj hrule
    exact ⟨hne,hmatch⟩

lemma ignoreCase_of_assemble (h : g.assemble = .ok t) : t.ignoreCase = g.ignoreCase := by
  obtain ⟨drafts,-,h⟩ := except_bind_eq_ok.mp h
  obtain ⟨nodes,-,h⟩ := except_bind_eq_ok.mp h
  obtain rfl := Except.ok.inj h
  rfl

lemma terminatorOf_own (h : ¬ (m.endsWithParent = true ∧ parent ≠ "")) :
    terminatorOf m parent = (endOf m).getD "" := by
  have hfalse : (m.endsWithParent && !parent.isEmpty) = false := by simpa using h
  rw [terminatorOf,hfalse]
  rfl

lemma terminatorOf_inherited (h : m.endsWithParent = true) (hparent : parent ≠ "") :
    terminatorOf m parent = ((endOf m).map (· ++ "|")).getD "" ++ parent := by
  have htrue : (m.endsWithParent && !parent.isEmpty) = true := by
    have hne : parent.isEmpty = false := by simpa using hparent
    rw [h,hne]
    rfl
  rw [terminatorOf,htrue]
  cases endOf m with
  | none => rfl
  | some own => rfl

/-- The text of an end rule, by that of the parent's. -/
theorem endText_of_compiledUnder (h : g.assemble = .ok t) (hid : CompiledUnder g p m id) :
    t.endText id = terminatorOf m (t.endText p) := by
  obtain ⟨drafts,hdrafts,-,hnode⟩ := Grammar.node_of_assemble h
  obtain ⟨s,origin,hs,horigin,hmode,hplace⟩ := hid
  obtain ⟨s',hs',rfl⟩ := draftAll_eq_ok.mp hdrafts
  obtain rfl := Except.ok.inj (hs.symm.trans hs')
  have htext : ∀ {i d}, s.drafts[i]? = some d → t.endText i = d.terminator := by
    intro i d hd
    rcases hnode i with ⟨hnone,-⟩ | ⟨d',hd',hof⟩
    · rw [hd] at hnone
      cases hnone
    · obtain rfl := Option.some.inj (hd.symm.trans hd')
      exact (endRule?_of_nodeOf hof).1
  obtain ⟨m',terminator,d,hd⟩ := (walk_settled hs).2 _ _ hplace
  obtain rfl : m = m' := Option.some.inj (hmode.symm.trans hd.mode)
  cases terminator with
  | none => exact absurd (hd.root.mpr rfl) horigin
  | some terminator =>
    have hown : d.terminator = terminatorOf m terminator := by
      rw [hd.own]
      rfl
    rw [htext hd.draft,hown]
    cases hends : m.endsWithParent with
    | false =>
      have hnot : ∀ parent, ¬ (m.endsWithParent = true ∧ parent ≠ "") := by simp [hends]
      rw [terminatorOf_own (hnot _),terminatorOf_own (hnot _)]
    | true =>
      have hdep : g.dependsOnParent m = true := Grammar.dependsOnParent_iff.mpr (.inl hends)
      obtain ⟨p',d',hp,hd',rfl⟩ := hd.parent hends terminator rfl
      rw [keyOf,if_pos hdep] at hp
      obtain rfl := Option.some.inj hp
      rw [htext hd']

/-- The end rule of a mode that ends with its parent, where the parent has one. -/
lemma endsAt_inherited_iff (h : g.assemble = .ok t) (hid : CompiledUnder g p m id)
    (hends : m.endsWithParent = true) (hne : t.endText p ≠ "")
    (hjoin : ∀ own, endOf m = some own → Joinable own (t.endText p) t.ignoreCase) {text : Source}
    {q : Nat} (hq : q ≤ text.size) : t.EndsAt id text q ↔
      (∃ own, endOf m = some own ∧ MatchesAt own t.ignoreCase text q) ∨
        MatchesAt (t.endText p) t.ignoreCase text q := by
  rw [endsAt_iff_endText h,endText_of_compiledUnder h hid,terminatorOf_inherited hends hne]
  cases hown : endOf m with
  | none => simp [hne]
  | some own =>
    have hmatch := matchesAt_barred (hjoin own hown) hq
    simp [hne,hmatch]

end Assembly

/-- What a mode takes over of the end of its parent. -/
def NodeTable.inheritedEnd (t : NodeTable) (p : NodeId) (m : Mode) : String :=
  if m.endsWithParent then t.endText p else ""

/-- An own end that comes to stand in an end rule as it is: an inherited end can be written after it or,
where none is inherited, it is a text at all. -/
def EndFits (own : Option String) (inherited : String) (ignoreCase : Bool) : Prop :=
  ∀ e, own = some e → if inherited = "" then e ≠ "" else Joinable e inherited ignoreCase

/-- The end rule of a node that is compiled below a parent matches where the mode's own end matches or,
if the mode ends with its parent, where the parent's end rule does. -/
theorem NodeTable.endsAt_iff_of_endFits {g : Grammar} {t : NodeTable} {p id : NodeId} {m : Mode}
    {text : Source} {q : Nat} (h : g.assemble = .ok t) (hid : CompiledUnder g p m id)
    (hfits : EndFits (endOf m) (t.inheritedEnd p m) t.ignoreCase) (hq : q ≤ text.size) :
    t.EndsAt id text q ↔ (∃ own, endOf m = some own ∧ MatchesAt own t.ignoreCase text q) ∨
      m.endsWithParent = true ∧ t.EndsAt p text q := by
  by_cases hinherits : m.endsWithParent = true ∧ t.endText p ≠ ""
  · obtain ⟨hends,hne⟩ := hinherits
    rw [inheritedEnd,if_pos hends] at hfits
    have hjoin : ∀ own, endOf m = some own → Joinable own (t.endText p) t.ignoreCase := by
      intro own hown
      have hjoinable := hfits own hown
      rwa [if_neg hne] at hjoinable
    rw [endsAt_inherited_iff h hid hends hne hjoin hq,endsAt_iff_endText h]
    simp [hends,hne]
  · have hinherited : t.inheritedEnd p m = "" := by
      unfold inheritedEnd
      split
      · exact not_not.mp (fun hne => hinherits ⟨‹_›,hne⟩)
      · rfl
    have hnot : ¬ (m.endsWithParent = true ∧ t.EndsAt p text q) := by
      rw [endsAt_iff_endText h]
      exact fun hends => hinherits ⟨hends.1,hends.2.1⟩
    rw [or_iff_left hnot,endsAt_iff_endText h,endText_of_compiledUnder h hid,terminatorOf_own hinherits]
    cases hown : endOf m with
    | none => simp
    | some own =>
      have hne := hfits own hown
      rw [if_pos hinherited] at hne
      simp [hne]

section Nested

variable {own outer : String}

/-- A mode that ends with its parent. -/
def inner (own : String) : Mode where
  className := some "inner"
  beginPattern := some ":"
  endPattern := some own
  switches := { Switches.unset with endsWithParent := some true }

/-- A grammar with such a mode inside another one. -/
def nested (own outer : String) : Grammar where
  name := "nested"
  root := { contains := some [.mode 1] }
  modes := #[inner own,{ className := some "outer", beginPattern := some "<", endPattern := some outer
                         contains := some [.mode 0] }]

/-- What the table of this grammar says of a position: whether the inner end rule matches there, whether
its own end does, and whether the outer end rule does. -/
def endsOfNested? (own outer text : String) (q : Nat) : Option (Bool × Bool × Bool) :=
  (nested own outer).assemble.toOption.map (fun t =>
    (decide (t.EndsAt 2 (.ofString text) q),decide (MatchesAt own t.ignoreCase (.ofString text) q),
      decide (t.EndsAt 1 (.ofString text) q)))

/-- The own end refers to no group, so that the outer end may refer to its own. -/
theorem NodeTable.endsAt_iff_of_endFits_nested : ∃ t, (nested "a+" "(b)\\1").assemble = .ok t ∧
    CompiledUnder (nested "a+" "(b)\\1") 1 (inner "a+") 2 ∧
    EndFits (endOf (inner "a+")) (t.inheritedEnd 1 (inner "a+")) t.ignoreCase ∧
    (t.EndsAt 2 (.ofString "<:xbb>") 3 ↔ (∃ own, endOf (inner "a+") = some own ∧
      MatchesAt own t.ignoreCase (.ofString "<:xbb>") 3) ∨
        (inner "a+").endsWithParent = true ∧ t.EndsAt 1 (.ofString "<:xbb>") 3) := by
  have ht : (nested "a+" "(b)\\1").assemble.toOption.map (fun t => (t.endText 1,t.ignoreCase)) =
      some ("(b)\\1",false) := by decide +kernel
  obtain ⟨t,htable,ht⟩ := Option.map_eq_some_iff.mp ht
  obtain ⟨htext,hcase⟩ := Prod.mk.inj ht
  have hassemble := except_eq_ok_of_toOption htable
  have hid : CompiledUnder (nested "a+" "(b)\\1") 1 (inner "a+") 2 :=
    .of_walk (.table 0) nofun rfl (by decide +kernel)
  have hfits : EndFits (endOf (inner "a+")) (t.inheritedEnd 1 (inner "a+")) t.ignoreCase := by
    have hinherited : t.inheritedEnd 1 (inner "a+") = "(b)\\1" := htext
    intro e he
    obtain rfl := Option.some.inj he
    rw [hinherited,hcase,if_neg (by decide)]
    exact .of_isJoinable (by decide +kernel)
  exact ⟨t,hassemble,hid,hfits,endsAt_iff_of_endFits hassemble hid hfits (by decide)⟩

/-- The end rule of the inner mode is not what it was built from. -/
def Misends (own outer text : String) (q : Nat) : Prop :=
  ∃ t, (nested own outer).assemble = .ok t ∧ CompiledUnder (nested own outer) 1 (inner own) 2 ∧
    q ≤ (Source.ofString text).size ∧
    ¬ (t.EndsAt 2 (.ofString text) q ↔ (∃ e, endOf (inner own) = some e ∧
      MatchesAt e t.ignoreCase (.ofString text) q) ∨
        (inner own).endsWithParent = true ∧ t.EndsAt 1 (.ofString text) q)

lemma misends_of_endsOfNested? {own outer text : String} {q : Nat} (ends inside outside : Bool)
    (hid : (walk (nested own outer)).toOption.bind (fun s => s.places.lookup
      (keyOf (nested own outer) (.table 0) (inner own) (some 1))) = some 2)
    (hq : q ≤ (Source.ofString text).size)
    (h : endsOfNested? own outer text q = some (ends,inside,outside))
    (hne : ends ≠ (inside || outside)) : Misends own outer text q := by
  obtain ⟨t,htable,hall⟩ := Option.map_eq_some_iff.mp h
  obtain ⟨rfl,hboth⟩ := Prod.mk.inj hall
  obtain ⟨rfl,rfl⟩ := Prod.mk.inj hboth
  refine ⟨t,except_eq_ok_of_toOption htable,.of_walk (.table 0) nofun rfl hid,hq,fun hiff => hne ?_⟩
  have hends : (inner own).endsWithParent = true := rfl
  have hown : endOf (inner own) = some own := rfl
  rw [Bool.eq_iff_iff,Bool.or_eq_true,decide_eq_true_eq,decide_eq_true_eq,decide_eq_true_eq,hiff]
  simp [hends,hown]

/-- What has to fit: the group that an outer end refers to is taken for one of the inner end, the flags
of the inner end go on into the outer end, and there is no end rule for an empty end. -/
theorem misends_nested : Misends "(a)\\1" "(b)\\1" "<:xbb>" 3 ∧ Misends "(?i)a" "b" "<:xB" 3 ∧
    Misends "" "" "<:x" 2 := by
  refine ⟨?_,?_,?_⟩
  · exact misends_of_endsOfNested? false false true (by decide +kernel) (by decide)
      (by decide +kernel) nofun
  · exact misends_of_endsOfNested? true false false (by decide +kernel) (by decide)
      (by decide +kernel) nofun
  · exact misends_of_endsOfNested? false true false (by decide +kernel) (by decide)
      (by decide +kernel) nofun

end Nested

section Chains

variable {g : Grammar} {t : NodeTable} {p id : NodeId} {m : Mode}

/-- The modes that nodes other than the first may be made for: those of the table and their variants. -/
def Grammar.innerModes (g : Grammar) : List Mode :=
  g.modes.toList.flatMap (fun m => m :: (m.variants.getD []).map m.inherit)

lemma mem_innerModes {origin : Origin} (horigin : origin ≠ .root) (hmode : origin.mode? g = some m) :
    m ∈ g.innerModes := by
  have htable : ∀ {i : ModeId} {m' : Mode}, g.mode? i = some m' → m' ∈ g.modes.toList :=
    fun h => Array.mem_toList_iff.mpr (Array.mem_of_getElem? h)
  refine List.mem_flatMap.mpr ?_
  cases origin with
  | root => exact absurd rfl horigin
  | table i => exact ⟨m,htable hmode,List.mem_cons_self⟩
  | variant i index =>
    simp only [Origin.mode?,Option.bind_eq_bind,Option.bind_eq_some_iff] at hmode
    obtain ⟨base,hbase,variants,hvariants,variant,hvariant,hm⟩ := hmode
    obtain rfl := Option.some.inj hm
    refine ⟨base,htable hbase,List.mem_cons_of_mem _ ?_⟩
    rw [hvariants]
    exact List.mem_map_of_mem (List.mem_of_getElem? hvariant)

/-- The ends of all modes may be joined in any number. -/
def Grammar.EndsApart (g : Grammar) : Prop :=
  ∃ grouped, ∀ m ∈ g.innerModes, ∀ own ∈ endOf m, SelfContained g.ignoreCase grouped own

/-- The end of every mode is a pattern without groups. -/
def Grammar.EndsGroupless (g : Grammar) : Prop :=
  ∀ m ∈ g.innerModes, ∀ own ∈ endOf m,
    (Regex.compileRule own g.ignoreCase).toOption.isSome = true ∧ Groupless g.ignoreCase own

instance (g : Grammar) : Decidable g.EndsGroupless :=
  inferInstanceAs (Decidable (∀ m ∈ g.innerModes, _))

/-- Ends without groups may be joined. -/
theorem Grammar.EndsGroupless.endsApart {g : Grammar} (h : g.EndsGroupless) : g.EndsApart := by
  refine ⟨false,fun m hm own hown => ?_⟩
  obtain ⟨hcompiles,hgroupless⟩ := h m hm own hown
  obtain ⟨regex,hregex⟩ := Option.isSome_iff_exists.mp hcompiles
  exact .of_groupless ⟨regex,except_eq_ok_of_toOption hregex⟩ hgroupless

lemma Assembly.CompiledUnder.mem_innerModes (h : CompiledUnder g p m id) : m ∈ g.innerModes := by
  obtain ⟨s,origin,-,horigin,hmode,-⟩ := h
  exact Highlight.mem_innerModes horigin hmode

lemma endText_eq_empty (h : g.assemble = .ok t) (hid : ¬ IsInner t.size id) : t.endText id = "" := by
  obtain ⟨drafts,hdrafts,hsize,hnode⟩ := Grammar.node_of_assemble h
  rcases hnode id with ⟨-,hdefault⟩ | ⟨d,hd,hof⟩
  · rw [NodeTable.endText,NodeTable.endRule?,hdefault]
    rfl
  · have hlt := (Array.getElem?_eq_some_iff.mp hd).1
    have hroot : id = rootNode := not_not.mp (fun hne => hid ⟨hne,hsize ▸ hlt⟩)
    rw [(endRule?_of_nodeOf hof).1,((draftAll_wellFormed hdrafts).2.2 d (hroot ▸ hd)).terminator]

/-- So may the end rules, however many ends each of them is made of. The induction follows the parents
outwards. -/
lemma endText_selfContained (h : g.assemble = .ok t) {grouped : Bool}
    (hends : ∀ m ∈ g.innerModes, ∀ own ∈ endOf m, SelfContained g.ignoreCase grouped own) (id : NodeId) :
    t.endText id = "" ∨ SelfContained g.ignoreCase grouped (t.endText id) := by
  induction id using Nat.strong_induction_on with
  | _ id ih =>
    by_cases hid : IsInner t.size id
    · obtain ⟨p,hlt,m,hm⟩ := Grammar.exists_compiledUnder h hid
      have hown : ∀ own, endOf m = some own → SelfContained g.ignoreCase grouped own :=
        fun own hown => hends m hm.mem_innerModes own hown
      rw [endText_of_compiledUnder h hm]
      by_cases hinherits : m.endsWithParent = true ∧ t.endText p ≠ ""
      · have hparent := (ih p hlt).resolve_left hinherits.2
        rw [terminatorOf_inherited hinherits.1 hinherits.2]
        cases he : endOf m with
        | none =>
          rw [Option.map_none,Option.getD_none,String.empty_append]
          exact .inr hparent
        | some own => exact .inr ((hown own he).barred hparent)
      · rw [terminatorOf_own hinherits]
        cases he : endOf m with
        | none => exact .inl rfl
        | some own => exact .inr (hown own he)
    · exact .inl (endText_eq_empty h hid)

/-- A mode that ends with its parent ends where the parent does. -/
theorem endsAt_of_parent (h : g.assemble = .ok t) (hends : g.EndsApart) (hid : CompiledUnder g p m id)
    (hm : m.endsWithParent = true) {text : Source} {q : Nat} (hq : q ≤ text.size)
    (hp : t.EndsAt p text q) : t.EndsAt id text q := by
  obtain ⟨grouped,hends⟩ := hends
  obtain ⟨hne,hmatch⟩ := (endsAt_iff_endText h).mp hp
  have hparent := (endText_selfContained h hends p).resolve_left hne
  refine (endsAt_inherited_iff h hid hm hne (fun own hown => ?_) hq).mpr (.inr hmatch)
  rw [ignoreCase_of_assemble h]
  exact (hends m hid.mem_innerModes own hown).joinable hparent

end Chains

end Highlight
