import Highlight.Proofs.Rules.Combined
import Mathlib.Data.List.TakeDrop

/-!
Which rule fires first. A rule set finds what a search rule by rule would find: the leftmost position
where some rule matches, the first rule that matches there, and the end of its own match.
-/
namespace Highlight.Rules

open Regex List

variable {ic named : Bool} {text : Source} {start first : Nat}

/-- Where the match ends that a rule prefers at a position, if it matches there alone. -/
def Rule.end? (rule : Rule) (ignoreCase : Bool) (text : Source) (position : Nat) : Option Nat :=
  match Regex.compileRule rule.pattern ignoreCase with
  | .ok g => (g.preferred { text } position).map Spot.position
  | .error _ => none

/-- The same for the rule of a number. -/
def endAt? (rules : List Rule) (ignoreCase : Bool) (text : Source) (i position : Nat) : Option Nat :=
  rules[i]? >>= fun rule => rule.end? ignoreCase text position

/-- A match by the first rule that fires at or after `start`, of those from number `first` on. -/
structure Fires (rules : List Rule) (ignoreCase : Bool) (text : Source) (start first : Nat)
    (m : RuleMatch) : Prop where
  start_le : start ≤ m.start
  start_le_size : m.start ≤ text.size
  first_le : first ≤ m.index
  kind : rules[m.index]?.map Rule.kind = some m.kind
  stop : endAt? rules ignoreCase text m.index m.start = some m.stop
  least : ∀ i, first ≤ i → i < m.index → endAt? rules ignoreCase text i m.start = none
  leftmost : ∀ q, start ≤ q → q < m.start → ∀ i, first ≤ i → endAt? rules ignoreCase text i q = none

/-- The answer of a search rule by rule. -/
def IsFirst (rules : List Rule) (ignoreCase : Bool) (text : Source) (start first : Nat) :
    Option RuleMatch → Prop
  | none => ∀ q, start ≤ q → q ≤ text.size → ∀ i, first ≤ i → endAt? rules ignoreCase text i q = none
  | some m => Fires rules ignoreCase text start first m

/-- Rules whose patterns may stand beside each other in one pattern. Either none has a named group or
none refers to a group by number. -/
structure Combinable (rules : List Rule) (ignoreCase named : Bool) : Prop where
  compiles : ∀ rule ∈ rules, ∃ g, Regex.compileRule rule.pattern ignoreCase = .ok g
  fits : ∀ rule ∈ rules, FitsFrom named 0 rule.pattern.toList
  flags : ∀ rule ∈ rules.dropLast, KeepsFlags ignoreCase rule.pattern
  room : groupsInAll (rules.map (fun rule => countGroups rule.pattern)) < UInt64.size
  /-- Where one pattern needs backtracking, the loops of the others have empty rounds last. -/
  loops : ∀ rule ∈ rules, ∀ g, Regex.compileRule rule.pattern ignoreCase = .ok g → g.plain = false →
    ∀ rule' ∈ rules, ∀ g', Regex.compileRule rule'.pattern ignoreCase = .ok g' → g'.plain = true →
      g'.pattern.EmptyRoundsLast

instance (source : String) : Decidable (KeepsFlags ic source) := inferInstanceAs (Decidable (_ = _))

/-- A test that makes sure that rules are combinable: plain loops take a character in each round. -/
def isCombinable (rules : List Rule) (ignoreCase named : Bool) : Bool :=
  rules.all (fun rule => fitsWithin named rule.pattern.toList.length 0 rule.pattern.toList &&
    match Regex.compileRule rule.pattern ignoreCase with
    | .ok g => !g.plain || g.pattern.roundsConsume
    | .error _ => false) &&
  rules.dropLast.all (fun rule => decide (KeepsFlags ignoreCase rule.pattern)) &&
  decide (groupsInAll (rules.map (fun rule => countGroups rule.pattern)) < UInt64.size)

lemma Combinable.of_isCombinable {rules : List Rule} (h : isCombinable rules ic named = true) :
    Combinable rules ic named := by
  simp only [isCombinable,Bool.and_eq_true,all_eq_true,decide_eq_true_eq] at h
  obtain ⟨⟨hrules,hflags⟩,hroom⟩ := h
  have hcompiled : ∀ rule ∈ rules, ∃ g, Regex.compileRule rule.pattern ic = .ok g ∧
      (!g.plain || g.pattern.roundsConsume) = true := by
    intro rule hr
    have hg := (hrules rule hr).2
    cases hcompile : Regex.compileRule rule.pattern ic with
    | error e =>
      rw [hcompile] at hg
      cases hg
    | ok g =>
      rw [hcompile] at hg
      exact ⟨g,rfl,hg⟩
  refine ⟨fun rule hr => ?_,fun rule hr => (hrules rule hr).1,hflags,hroom,
    fun _ _ _ _ _ rule hr g hg hplain => ?_⟩
  · obtain ⟨g,hg,-⟩ := hcompiled rule hr
    exact ⟨g,hg⟩
  · obtain ⟨g',hg',hrounds⟩ := hcompiled rule hr
    obtain rfl := Except.ok.inj (hg'.symm.trans hg)
    obtain ⟨r,p,-,heq,-,-⟩ := readsAs_of_compileRule hg
    rw [heq] at hplain hrounds ⊢
    rw [hplain] at hrounds
    exact Pattern.emptyRoundsLast_of_roundsConsume (Pattern.isPlain_settle hplain) hrounds

lemma Combinable.drop {rules : List Rule} (h : Combinable rules ic named) (k : Nat) :
    Combinable (rules.drop k) ic named where
  compiles rule hr := h.compiles rule (mem_of_mem_drop hr)
  fits rule hr := h.fits rule (mem_of_mem_drop hr)
  flags rule hr := by
    rw [dropLast_drop_eq_drop_dropLast] at hr
    exact h.flags rule (mem_of_mem_drop hr)
  room := by
    rw [map_drop]
    exact Nat.lt_of_le_of_lt (groupsInAll_drop_le k _) h.room
  loops rule hr g hg hplain rule' hr' :=
    h.loops rule (mem_of_mem_drop hr) g hg hplain rule' (mem_of_mem_drop hr')

/-- A rule and what is read of it alone. -/
structure Part.Of (ic named : Bool) (rule : Rule) (x : Part) : Prop where
  text : x.text = rule.pattern.toList
  proper : x.Proper (ruleFlags ic) named
  compiled : Regex.compileRule rule.pattern ic = .ok x.regex
  ordered : Ordered x.regex
  groups : x.regex.groups = countGroups rule.pattern
  flags : KeepsFlags ic rule.pattern → x.reader.flags = ruleFlags ic

lemma exists_part {rule : Rule} {g : Regex} (h : Regex.compileRule rule.pattern ic = .ok g)
    (hfits : FitsFrom named 0 rule.pattern.toList)
    (hroom : countGroups rule.pattern + 1 < UInt64.size) : ∃ x, Part.Of ic named rule x := by
  obtain ⟨r,p,hreads,rfl,hordered,hflags⟩ := readsAs_of_compileRule h
  have hproper : Part.Proper (ruleFlags ic) named ⟨rule.pattern.toList,r,p⟩ := ⟨hreads,hfits⟩
  exact ⟨⟨rule.pattern.toList,r,p⟩,rfl,hproper,h,hordered,(hproper.within rfl hroom).2,hflags⟩

lemma exists_parts {rules : List Rule} (h : ∀ rule ∈ rules, ∃ x, Part.Of ic named rule x) :
    ∃ xs, Forall₂ (Part.Of ic named) rules xs := by
  induction rules with
  | nil => exact ⟨[],.nil⟩
  | cons rule rules ih =>
    obtain ⟨x,hx⟩ := h rule mem_cons_self
    obtain ⟨xs,hxs⟩ := ih (fun rule hr => h rule (mem_cons_of_mem _ hr))
    exact ⟨x :: xs,.cons hx hxs⟩

lemma Combinable.parts {rules : List Rule} (h : Combinable rules ic named) :
    ∃ xs, Forall₂ (Part.Of ic named) rules xs := by
  refine exists_parts (fun rule hr => ?_)
  obtain ⟨g,hg⟩ := h.compiles rule hr
  have hle : countGroups rule.pattern + 1 ≤
      groupsInAll (rules.map (fun rule => countGroups rule.pattern)) :=
    le_groupsInAll (List.mem_map_of_mem hr)
  exact exists_part hg (h.fits rule hr) (Nat.lt_of_le_of_lt hle h.room)

section Places

variable {α β : Type} {R : α → β → Prop} {as : List α} {bs : List β}

lemma forall₂_getElem? (h : Forall₂ R as bs) {i : Nat} {b : β} (hb : bs[i]? = some b) :
    ∃ a, as[i]? = some a ∧ R a b := by
  induction h generalizing i with
  | nil => cases hb
  | cons hr _ ih =>
    cases i with
    | zero =>
      obtain rfl := Option.some.inj hb
      exact ⟨_,rfl,hr⟩
    | succ i => exact ih hb

lemma forall₂_mem (h : Forall₂ R as bs) {b : β} (hb : b ∈ bs) : ∃ a ∈ as, R a b := by
  obtain ⟨i,hi⟩ := mem_iff_getElem?.mp hb
  obtain ⟨a,ha,hr⟩ := forall₂_getElem? h hi
  exact ⟨a,mem_of_getElem? ha,hr⟩

lemma forall₂_dropLast (h : Forall₂ R as bs) : Forall₂ R as.dropLast bs.dropLast := by
  rw [dropLast_eq_take,dropLast_eq_take,h.length_eq]
  exact forall₂_take _ h

lemma forall₂_map_eq {γ : Type} {f : α → γ} {g : β → γ} (h : Forall₂ R as bs)
    (hr : ∀ a b, R a b → f a = g b) : as.map f = bs.map g := by
  induction h with
  | nil => rfl
  | cons hab _ ih => rw [map_cons,map_cons,hr _ _ hab,ih]

end Places

/-- The rules of a combinable list compile as one pattern, with the alternatives of each. -/
theorem Combinable.compileRule {rules : List Rule} (h : Combinable rules ic named) (hne : rules ≠ [])
    {xs : List Part} (hxs : Forall₂ (Part.Of ic named) rules xs) :
    (∃ groups, Regex.compileRule (join (rules.map Rule.pattern) "|").source ic =
      .ok ⟨.alts (alternatives 0 ((xs.map Part.regex).map (fun g => (g.groups,g.pattern)))),groups,
        (xs.map Part.regex).all Regex.plain⟩) ∧
      (join (rules.map Rule.pattern) "|").groups =
        groupsFrom 0 ((xs.map Part.regex).map Regex.groups) := by
  have hcounts : rules.map (fun rule => countGroups rule.pattern) =
      xs.map (fun x => groupCount x.text) :=
    forall₂_map_eq hxs (fun rule x hx => by rw [countGroups_eq,hx.text])
  have hroom := h.room
  rw [hcounts] at hroom
  constructor
  · have hproper : ∀ x ∈ xs, x.Proper (ruleFlags ic) named := by
      intro x hx
      obtain ⟨rule,-,hrule⟩ := forall₂_mem hxs hx
      exact hrule.proper
    have hflags : ∀ x ∈ xs.dropLast, x.reader.flags = ruleFlags ic := by
      intro x hx
      obtain ⟨rule,hr,hrule⟩ := forall₂_mem (forall₂_dropLast hxs) hx
      exact hrule.flags (h.flags rule hr)
    refine compile_parts ?_ (properInTurn_of_keep hproper hflags) ?_ hroom ?_
    · rintro rfl
      cases hxs
      exact hne rfl
    · intro x hx
      obtain ⟨rule,-,hrule⟩ := forall₂_mem hxs hx
      exact hrule.ordered
    · rw [join_source,map_map]
      exact congrArg _ (forall₂_map_eq hxs (fun rule x hx => hx.text.symm))
  · have hgroups : (rules.map Rule.pattern).map countGroups = (xs.map Part.regex).map Regex.groups := by
      rw [map_map,map_map]
      exact forall₂_map_eq hxs (fun rule x hx => hx.groups.symm)
    rw [← hgroups]
    exact wrapFrom_groups 0 _

/-- Whether the patterns of all rules are plain. -/
def allPlain (xs : List Part) : Bool := (xs.map Part.regex).all Regex.plain

section Leads

variable {rules : List Rule} {xs : List Part} {x : Part} {i q : Nat}

/-- A rule leads to the same position in the joined pattern as it does alone. -/
lemma lead?_position (h : Combinable rules ic named) (hxs : Forall₂ (Part.Of ic named) rules xs)
    (hx : x ∈ xs) (hq : q ≤ text.size) :
    (x.regex.pattern.lead? (allPlain xs) { text } { position := q }).map Spot.position =
      (x.regex.preferred { text } q).map Spot.position := by
  obtain ⟨rule,hrule,hof⟩ := forall₂_mem hxs hx
  rw [preferred_eq]
  cases hall : allPlain xs with
  | true =>
    have hplain : x.regex.plain = true := all_eq_true.mp hall _ (mem_map_of_mem hx)
    rw [hplain]
  | false =>
    cases hplain : x.regex.plain with
    | false => rfl
    | true =>
      obtain ⟨g,hg,hbacktracks⟩ := List.all_eq_false.mp hall
      obtain ⟨y,hy,rfl⟩ := mem_map.mp hg
      obtain ⟨rule',hrule',hof'⟩ := forall₂_mem hxs hy
      have hloops := h.loops rule' hrule' _ hof'.compiled (by simpa using hbacktracks) rule hrule _
        hof.compiled hplain
      have hordered := hof.ordered
      rw [Ordered,if_pos hplain] at hordered
      have hpattern : x.regex.pattern.isPlain x.reader.referenced = true :=
        Pattern.isPlain_settle hplain
      exact (head_ways_eq_head_routes { text } hpattern hordered hloops hq).symm

lemma end?_eq {rule : Rule} (h : Part.Of ic named rule x) :
    rule.end? ic text q = (x.regex.preferred { text } q).map Spot.position := by
  rw [Rule.end?,h.compiled]

/-- The matches of single rules, by the parts of the joined pattern. -/
lemma endAt?_eq (h : Combinable (rules.drop first) ic named)
    (hxs : Forall₂ (Part.Of ic named) (rules.drop first) xs) (hi : first ≤ i) (hq : q ≤ text.size) :
    endAt? rules ic text i q = xs[i - first]?.bind (fun x =>
      (x.regex.pattern.lead? (allPlain xs) { text } { position := q }).map Spot.position) := by
  have hdrop : rules[i]? = (rules.drop first)[i - first]? := by
    rw [getElem?_drop,Nat.add_sub_cancel' hi]
  rw [endAt?,hdrop]
  cases hx : xs[i - first]? with
  | none =>
    have hnone : (rules.drop first)[i - first]? = none := by
      rw [getElem?_eq_none_iff,hxs.length_eq]
      exact getElem?_eq_none_iff.mp hx
    rw [hnone]
    rfl
  | some x =>
    obtain ⟨rule,hrule,hof⟩ := forall₂_getElem? hxs hx
    rw [hrule]
    exact (end?_eq hof).trans (lead?_position h hxs (mem_of_getElem? hx) hq).symm

end Leads

/-- What a search may answer: what fires first or, if some pattern needs backtracking, that it gave
up. -/
def Answers (rules : List Rule) (ignoreCase : Bool) (text : Source) (start first : Nat) :
    Except Fault (Option RuleMatch) → Prop
  | .ok found => IsFirst rules ignoreCase text start first found
  | .error fault => fault = .searchGaveUp ∧ ∃ rule ∈ rules.drop first,
      ∃ g, Regex.compileRule rule.pattern ignoreCase = .ok g ∧ g.plain = false

namespace Matcher

variable {rules : List Rule} {xs : List Part}

/-- The alternatives of the parts. -/
def alternativesOf (xs : List Part) : List Pattern :=
  alternatives 0 ((xs.map Part.regex).map (fun g => (g.groups,g.pattern)))

lemma preferred_joined (hne : xs ≠ []) (groups i : Nat) (text : Source) :
    Regex.preferred ⟨.alts (alternativesOf xs),groups,allPlain xs⟩ { text } i =
      (alternativesOf xs).findSome? (fun p => p.lead? (allPlain xs) { text } { position := i }) := by
  rw [preferred_eq]
  exact Pattern.lead?_alts (alternatives_ne_nil (by simpa using hne))

/-- If the alternatives do not match, no rule does. -/
lemma endAt?_eq_none (h : Combinable (rules.drop first) ic named)
    (hxs : Forall₂ (Part.Of ic named) (rules.drop first) xs) {i q : Nat} (hi : first ≤ i)
    (hq : q ≤ text.size) (hnone : (alternativesOf xs).findSome?
      (fun p => p.lead? (allPlain xs) { text } { position := q }) = none) :
    endAt? rules ic text i q = none := by
  rw [endAt?_eq h hxs hi hq]
  cases hx : xs[i - first]? with
  | none => rfl
  | some x =>
    have hrefused := refused_of_findSome? hnone (x.regex.groups,x.regex.pattern)
      (mem_map_of_mem (mem_map_of_mem (mem_of_getElem? hx)))
    rw [Option.bind_some,hrefused]
    rfl

lemma getElem?_branchesOf {groups : List Nat} {j g : Nat} {rule : Rule} (hg : groups[j]? = some g)
    (hrule : rules[j]? = some rule) :
    (branchesOf groups rules first)[j]? = some ⟨g,rule.kind,first + j⟩ := by
  have hzip : (groups.zip rules)[j]? = some (g,rule) := getElem?_zip_eq_some.mpr ⟨hg,hrule⟩
  rw [branchesOf,getElem?_mapIdx,hzip]
  rfl

/-- The branch that is found is that of the alternative to which a match belongs. -/
lemma find?_branchesOf (hlen : rules.length = xs.length) {i j : Nat} {last : Spot} {b : Bool}
    (hj : Chosen b { text } i 0 ((xs.map Part.regex).map (fun g => (g.groups,g.pattern))) last j) :
    ∃ rule g, rules[j]? = some rule ∧ (branchesOf (groupsFrom 0 ((xs.map Part.regex).map Regex.groups))
      rules first).find? (fun b => (last.capture? b.group).isSome) =
        some ⟨g,rule.kind,first + j⟩ := by
  obtain ⟨g,hg,hcapture,hearlier⟩ := hj.own
  have hsizes : ((xs.map Part.regex).map (fun g => (g.groups,g.pattern))).map Prod.fst =
      (xs.map Part.regex).map Regex.groups := map_map
  rw [hsizes] at hg
  generalize hgroups : groupsFrom 0 ((xs.map Part.regex).map Regex.groups) = groups at hg ⊢
  have hsorted : groups.Pairwise (· < ·) := hgroups ▸ groupsFrom_sorted 0 _
  have hlength : groups.length = rules.length := by
    rw [← hgroups,length_groupsFrom,length_map,length_map,hlen]
  obtain ⟨hjlt,hgj⟩ := List.getElem?_eq_some_iff.mp hg
  have hrule : rules[j]? = some rules[j] := getElem?_eq_getElem (hlength ▸ hjlt)
  obtain ⟨hlt,hbj⟩ := List.getElem?_eq_some_iff.mp (getElem?_branchesOf hg hrule)
  refine ⟨rules[j],g,hrule,find?_eq_some_iff_getElem.mpr ⟨hcapture,j,hlt,hbj,fun j' hj' => ?_⟩⟩
  have hg' : groups[j']? = some groups[j'] := getElem?_eq_getElem (by omega)
  have hrule' : rules[j']? = some rules[j'] := getElem?_eq_getElem (by omega)
  obtain ⟨hlt',hbj'⟩ := List.getElem?_eq_some_iff.mp (getElem?_branchesOf hg' hrule')
  rw [hbj']
  have hless : groups[j'] < g := by
    rw [← hgj]
    exact pairwise_iff_getElem.mp hsorted j' j _ hjlt hj'
  have hmem : groups[j'] ∈ groupsFrom 0 ((xs.map Part.regex).map Regex.groups) := by
    rw [hgroups]
    exact getElem_mem _
  have hpos : 0 < groups[j'] := lt_of_mem_groupsFrom hmem
  rw [hearlier _ hpos hless]
  rfl

lemma build_eq {g : Regex} (hne : rules ≠ [])
    (h : Regex.compileRule (join (rules.map Rule.pattern) "|").source ic = .ok g) :
    build rules first ic =
      .ok { regex := some g, branches := branchesOf (join (rules.map Rule.pattern) "|").groups rules first } := by
  rw [build,if_neg (by simpa using hne)]
  dsimp only
  rw [h]

/-- The matcher over the parts of a list of rules. -/
def joined (xs : List Part) (groups : Nat) (rules : List Rule) (first : Nat) : Matcher where
  regex := some ⟨.alts (alternativesOf xs),groups,allPlain xs⟩
  branches := branchesOf (groupsFrom 0 ((xs.map Part.regex).map Regex.groups)) rules first

/-- A search gives up only over a pattern that needs backtracking. -/
lemma exists_backtracking (hxs : Forall₂ (Part.Of ic named) rules xs) {p : Pattern} {groups : Nat}
    {e : GaveUp} (h : Regex.find ⟨p,groups,allPlain xs⟩ text start = .error e) :
    ∃ rule ∈ rules, ∃ g, Regex.compileRule rule.pattern ic = .ok g ∧ g.plain = false := by
  cases hall : allPlain xs with
  | true =>
    rw [hall] at h
    cases h
  | false =>
    obtain ⟨g,hg,hplain⟩ := List.all_eq_false.mp hall
    obtain ⟨x,hx,rfl⟩ := mem_map.mp hg
    obtain ⟨rule,hrule,hof⟩ := forall₂_mem hxs hx
    exact ⟨rule,hrule,x.regex,hof.compiled,by simpa using hplain⟩

/-- The alternative to which a match belongs is the first rule that matches there. -/
lemma fires_of_chosen (h : Combinable (rules.drop first) ic named)
    (hxs : Forall₂ (Part.Of ic named) (rules.drop first) xs) {f : Found} {j : Nat} {rule : Rule}
    (hj : Chosen (allPlain xs) { text } f.start 0
      ((xs.map Part.regex).map (fun g => (g.groups,g.pattern))) f.last j)
    (hrule : (rules.drop first)[j]? = some rule) (hstart : start ≤ f.start) (hsize : f.start ≤ text.size)
    (hbefore : ∀ q, start ≤ q → q < f.start → ∀ i, first ≤ i → endAt? rules ic text i q = none) :
    Fires rules ic text start first
      { start := f.start, stop := f.stop, kind := rule.kind, index := first + j } where
  start_le := hstart
  start_le_size := hsize
  first_le := Nat.le_add_right first j
  kind := by
    rw [getElem?_drop] at hrule
    rw [hrule]
    rfl
  stop := by
    obtain ⟨y,alone,hy,halone,hposition⟩ := hj.matched
    rw [map_map,getElem?_map,Option.map_eq_some_iff] at hy
    obtain ⟨x,hx,rfl⟩ := hy
    have halone : x.regex.pattern.lead? (allPlain xs) { text } { position := f.start } = some alone :=
      halone
    rw [endAt?_eq h hxs (Nat.le_add_right first j) hsize,Nat.add_sub_cancel_left,hx,Option.bind_some,
      halone]
    exact congrArg some hposition.symm
  least i hi hlt := by
    rw [endAt?_eq h hxs hi hsize]
    cases hx : xs[i - first]? with
    | none => rfl
    | some x =>
      have hy : ((xs.map Part.regex).map (fun g => (g.groups,g.pattern)))[i - first]? =
          some (x.regex.groups,x.regex.pattern) := by
        rw [map_map,getElem?_map,hx]
        rfl
      have hlt : i - first < j := by
        simp only at hlt
        omega
      have hnone : x.regex.pattern.lead? (allPlain xs) { text } { position := f.start } = none :=
        hj.refused _ hlt _ hy
      rw [Option.bind_some,hnone]
      rfl
  leftmost := hbefore

lemma exec_joined (h : Combinable (rules.drop first) ic named)
    (hxs : Forall₂ (Part.Of ic named) (rules.drop first) xs) (hne : xs ≠ []) (groups : Nat) :
    Answers rules ic text start first ((joined xs groups (rules.drop first) first).exec text start) := by
  simp only [joined,exec]
  cases hfind : Regex.find ⟨.alts (alternativesOf xs),groups,allPlain xs⟩ text start with
  | error e =>
    cases e
    exact ⟨rfl,exists_backtracking hxs hfind⟩
  | ok found =>
    have hleftmost := search_isLeftmost hfind
    cases found with
    | none =>
      intro q hq hsize i hi
      have hnone := hleftmost q hq (by simp only [Haystack.size]; omega)
      rw [preferred_joined hne] at hnone
      exact endAt?_eq_none h hxs hi hsize hnone
    | some f =>
      obtain ⟨hstart,hend,hpreferred,hbefore⟩ := hleftmost
      simp only [Haystack.size] at hend
      rw [preferred_joined hne] at hpreferred
      obtain ⟨j,hj⟩ := exists_chosen hpreferred
      obtain ⟨rule,g,hrule,hbranch⟩ := find?_branchesOf hxs.length_eq hj
      simp only [Found.capture?]
      rw [hbranch]
      refine fires_of_chosen h hxs hj hrule hstart (by omega) (fun q hq hlt i hi => ?_)
      have hnone := hbefore q hq hlt
      rw [preferred_joined hne] at hnone
      exact endAt?_eq_none h hxs hi (by omega) hnone

/-- A combined matcher finds what fires first. -/
theorem exec_answers (h : Combinable (rules.drop first) ic named) :
    ∃ m, build (rules.drop first) first ic = .ok m ∧
      ∀ text start, Answers rules ic text start first (m.exec text start) := by
  by_cases hne : rules.drop first = []
  · refine ⟨{ regex := none, branches := [] },by rw [build,hne]; rfl,fun text start q _ _ i hi => ?_⟩
    have hlen : rules.length ≤ first := drop_eq_nil_iff.mp hne
    have hnone : rules[i]? = none := List.getElem?_eq_none_iff.mpr (by omega)
    rw [endAt?,hnone]
    rfl
  obtain ⟨xs,hxs⟩ := h.parts
  have hxs_ne : xs ≠ [] := by
    intro hnil
    rw [← length_eq_zero_iff,← hxs.length_eq,length_eq_zero_iff] at hnil
    exact hne hnil
  obtain ⟨⟨groups,hcompile⟩,hgroups⟩ := h.compileRule hne hxs
  refine ⟨_,build_eq hne hcompile,fun text start => ?_⟩
  rw [hgroups]
  exact exec_joined h hxs hxs_ne groups

end Matcher

namespace RuleSet

variable {rules : List Rule}

lemma length_suffixMatchers (rules : List Rule) (first : Nat) :
    (suffixMatchers ic rules first).length = rules.length + 1 := by
  induction rules generalizing first with
  | nil => rfl
  | cons rule rules ih => exact congrArg (· + 1) (ih _)

/-- A rule set has a matcher for each suffix of its rules. -/
lemma exists_build {m : Matcher} (h : Matcher.build rules 0 ic = .ok m) :
    ∃ s, build rules ic = .ok s ∧ s.rules = rules ∧ s.ignoreCase = ic ∧
      s.suffixes.size = rules.length + 1 := by
  unfold build
  split
  · rename_i e he
    rw [h] at he
    cases he
  · refine ⟨_,rfl,rfl,rfl,?_⟩
    simp only [List.size_toArray,length_cons,length_tail,length_suffixMatchers]
    omega

/-- A rule set with a matcher for each suffix of its rules finds what fires first. -/
lemma exec_answers {s : RuleSet} (h : Combinable s.rules s.ignoreCase named)
    (hsize : s.suffixes.size = s.rules.length + 1) (text : Source) (start first : Nat) :
    Answers s.rules s.ignoreCase text start first (s.exec text start first) := by
  unfold exec
  cases hmatcher : s.suffixes[first]? with
  | none =>
    have hlen := Array.getElem?_eq_none_iff.mp hmatcher
    intro q _ _ i hi
    have hnone : s.rules[i]? = none := List.getElem?_eq_none_iff.mpr (by omega)
    rw [endAt?,hnone]
    rfl
  | some matcher =>
    obtain ⟨m,hm,hanswers⟩ := Matcher.exec_answers (h.drop first)
    have hget := s.get_of_suffixes first matcher hmatcher
    rw [hm] at hget
    dsimp only
    rw [hget]
    exact hanswers text start

/-- Combinable rules form a rule set, and it finds what fires first. -/
lemma exists_answers (h : Combinable rules ic named) : ∃ s, build rules ic = .ok s ∧
    ∀ text start first, Answers rules ic text start first (s.exec text start first) := by
  obtain ⟨full,hfull,-⟩ := Matcher.exec_answers (h.drop 0)
  have hfull : Matcher.build rules 0 ic = .ok full := hfull
  obtain ⟨s,hs,rfl,rfl,hsize⟩ := exists_build hfull
  exact ⟨s,hs,exec_answers h hsize⟩

end RuleSet

end Highlight.Rules
