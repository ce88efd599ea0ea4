import Highlight.Proofs.Assembly.Placed

/-!
What comes of assembling a grammar. The walk of its mode graph ends even where modes contain each other
without end: it makes no more nodes than the modes would unfold to, down to the depth where it gives up.
The table that it leaves is well formed; if there is none, the error names a fault of the grammar.
-/
namespace Highlight

open Assembly

/-- The sum of the sizes of what a child stands for. A mode that contains itself adds nothing. -/
def Grammar.childSize (g : Grammar) (size : Mode → Nat) : Child → Nat
  | .self => 0
  | .mode id => ((occurrences g id).toOption.getD []).foldr (fun o total => size o.2 + total) 0

/-- The nodes that a mode would have without sharing, with those of all that it contains and of what
follows it, in a tree of some depth. -/
def Grammar.unfoldedSize (g : Grammar) : Nat → Mode → Nat
  | 0, _ => 0
  | depth + 1, m =>
    1 + (m.contains.getD []).foldr (fun child total => g.childSize (g.unfoldedSize depth) child + total) 0 +
      ((g.next? m).map (g.unfoldedSize depth)).getD 0

/-- The rules of a set in order: those that begin modes, then at most one for the end, then at most one for
what is illegal. -/
def Rules.RuleSet.InOrder (s : RuleSet) : Prop :=
  ∃ begins ends illegal, s.rules = begins ++ ends ++ illegal ∧ begins.length = s.beginCount ∧
    (∀ rule ∈ begins, rule.isBegin = true) ∧
      (ends.length ≤ 1 ∧ ∀ rule ∈ ends, rule.kind = .ends) ∧
        illegal.length ≤ 1 ∧ ∀ rule ∈ illegal, rule.kind = .illegal

/-- A closed table in which the top mode is the only one without a begin, and has no end rule and nothing
that follows it, and in which each rule that begins a node has the begin of that node. -/
structure NodeTable.WellFormed (t : NodeTable) : Prop extends t.Closed where
  begin_eq_none : ∀ id < t.size, (t.node id).beginPattern = none ↔ id = rootNode
  top_rules : ∀ rule ∈ (t.node rootNode).rules.rules, rule.kind ≠ .ends
  top_starts : (t.node rootNode).starts = none
  inOrder : ∀ id, (t.node id).rules.InOrder
  begins_pattern : ∀ id, ∀ rule ∈ (t.node id).rules.rules, ∀ k, rule.kind = .begins k →
    (t.node k).beginPattern = some rule.pattern

/-- What an error says of a grammar that is not assembled. -/
def Grammar.Faulty (g : Grammar) : GrammarError → Prop
  | .selfReferenceAtRoot => .self ∈ g.root.contains.getD []
  | .unknownMode id => g.mode? id = none
  | .nestingTooDeep limit => limit = maxNesting
  | .invalidPattern pattern reason => Regex.compileAnchored pattern g.ignoreCase = .error reason ∨
      Regex.compileRule pattern g.ignoreCase = .error reason

namespace Assembly

variable {g : Grammar} {s s' : Drafts} {d : Draft} {id : NodeId}

namespace Walk

variable {α β : Type} {P : GrammarError → Prop} {Q : α → Drafts → Prop}

/-- How a walk from `s` ends: as `Q` says if it succeeds, and with an error as `P` says if not. -/
def Ends (x : Walk α) (s : Drafts) (P : GrammarError → Prop) (Q : α → Drafts → Prop) : Prop :=
  match x.run s with
  | .ok (a,s') => Q a s'
  | .error e => P e

lemma Ends.bind {x : Walk α} {f : α → Walk β} {Q' : β → Drafts → Prop} (hx : x.Ends s P Q)
    (hf : ∀ a s', Q a s' → (f a).Ends s' P Q') : (x >>= f).Ends s P Q' := by
  unfold Ends at hx ⊢
  rw [StateT.run_bind]
  cases hrun : x.run s with
  | error e =>
    rw [hrun] at hx
    exact hx
  | ok r =>
    rw [hrun] at hx
    exact hf r.1 r.2 hx

lemma ends_lift {x : Except GrammarError α} (hok : ∀ a, x = .ok a → Q a s)
    (herror : ∀ e, x = .error e → P e) : (liftM x : Walk α).Ends s P Q := by
  cases x with
  | error e => exact herror e rfl
  | ok a => exact hok a rfl

/-- A traversal adds no more drafts than its parts do. -/
lemma ends_mapM {f : α → Walk β} (size : α → Nat) {l : List α}
    (hf : ∀ a ∈ l, ∀ s, (f a).Ends s P (fun _ s' => s'.drafts.size ≤ s.drafts.size + size a)) :
    (l.mapM f).Ends s P
      (fun _ s' => s'.drafts.size ≤ s.drafts.size + l.foldr (fun a total => size a + total) 0) := by
  induction l generalizing s with
  | nil => exact Nat.le_refl _
  | cons a l ih =>
    rw [List.mapM_cons]
    refine (hf a List.mem_cons_self s).bind (fun _ s₁ h₁ => ?_)
    refine (ih (fun a ha => hf a (List.mem_cons_of_mem _ ha))).bind (fun _ s₂ h₂ => ?_)
    have hsum : s₂.drafts.size ≤ s.drafts.size + (a :: l).foldr (fun a total => size a + total) 0 := by
      rw [List.foldr_cons]
      omega
    exact hsum

end Walk

section Size

lemma tableMode_ends {n : ModeId} {Q : Mode → Drafts → Prop} (hQ : ∀ m, g.mode? n = some m → Q m s) :
    (liftM (tableMode g n) : Walk Mode).Ends s g.Faulty Q := by
  refine Walk.ends_lift (fun m hm => hQ m (tableMode_eq_ok.mp hm)) (fun e he => ?_)
  unfold tableMode at he
  split at he
  · cases he
  · rename_i hnone
    obtain rfl := Except.error.inj he
    exact hnone

lemma faulty_of_occurrences {n : ModeId} {e : GrammarError} (h : occurrences g n = .error e) :
    g.Faulty e := by
  unfold occurrences tableMode at h
  cases hm : g.mode? n with
  | none =>
    rw [hm] at h
    obtain rfl := Except.error.inj h
    exact hm
  | some m =>
    rw [hm] at h
    simp only [bind,Except.bind] at h
    split at h <;> cases h

lemma placeChild_ends {placeMode : Origin → Mode → Walk NodeId} {size : Mode → Nat} {child : Child}
    (hplace : ∀ origin m s, (placeMode origin m).Ends s g.Faulty
      (fun _ s' => s'.drafts.size ≤ s.drafts.size + size m)) :
    (placeChild g placeMode id child).Ends s g.Faulty
      (fun _ s' => s'.drafts.size ≤ s.drafts.size + g.childSize size child) := by
  cases child with
  | self => exact Nat.le_refl _
  | mode n =>
    refine Walk.Ends.bind (Q := fun found s' => occurrences g n = .ok found ∧ s' = s)
      (Walk.ends_lift (fun found h => ⟨h,rfl⟩) (fun e => faulty_of_occurrences)) (fun found s₁ h => ?_)
    obtain ⟨hfound,rfl⟩ := h
    rw [Grammar.childSize,hfound]
    exact Walk.ends_mapM (fun o : Origin × Mode => size o.2) (fun o _ s => hplace o.1 o.2 s)

lemma placeNext_ends {placeMode : Origin → Mode → Walk NodeId} {size : Mode → Nat} {next : Option ModeId}
    (hplace : ∀ origin m s, (placeMode origin m).Ends s g.Faulty
      (fun _ s' => s'.drafts.size ≤ s.drafts.size + size m)) :
    (placeNext g placeMode id next).Ends s g.Faulty (fun _ s' =>
      s'.drafts.size ≤ s.drafts.size + ((next.bind g.mode?).map size).getD 0) := by
  cases next with
  | none => exact Nat.le_refl _
  | some n =>
    refine Walk.Ends.bind (Q := fun m s' => g.mode? n = some m ∧ s' = s)
      (tableMode_ends (fun m hm => ⟨hm,rfl⟩)) (fun m s₁ h => ?_)
    obtain ⟨hm,rfl⟩ := h
    refine (hplace (.table n) m s₁).bind (fun node s₂ h₂ => ?_)
    have hsize : (s₂.drafts.modify id (fun d => { d with starts := some node })).size ≤
        s₁.drafts.size + (((some n).bind g.mode?).map size).getD 0 := by
      rw [Array.size_modify,Option.bind_some,hm]
      exact h₂
    exact hsize

lemma checkTop_ends {m : Mode} {parent : Option NodeId} (hroot : parent = none → m = g.root) :
    (checkTop m parent).Ends s g.Faulty (fun _ s' => s' = s) := by
  unfold checkTop
  split
  · rename_i h
    rw [Bool.and_eq_true,List.contains_iff_mem] at h
    have hself : .self ∈ g.root.contains.getD [] := hroot (Option.isNone_iff_eq_none.mp h.1) ▸ h.2
    exact hself
  · rfl

/-- Placing a mode makes no more nodes than it would unfold to. The induction is on the room for nested
modes. -/
lemma place_ends (g : Grammar) (dependencies : Array Bool) (room : Nat) (origin : Origin) {m : Mode}
    (parent : Option NodeId) (s : Drafts) (hroot : parent = none → m = g.root) :
    (place g dependencies room origin m parent).Ends s g.Faulty
      (fun _ s' => s'.drafts.size ≤ s.drafts.size + g.unfoldedSize room m) := by
  induction room generalizing origin m parent s with
  | zero =>
    rw [place]
    refine Walk.Ends.bind (Q := fun s₁ s' => s' = s) rfl (fun s₁ s₂ h => ?_)
    rw [h]
    split
    · exact Nat.le_add_right _ _
    · exact rfl
  | succ room ih =>
    rw [place]
    refine Walk.Ends.bind (Q := fun s₁ s' => s₁ = s ∧ s' = s) ⟨rfl,rfl⟩ (fun s₁ s₂ h => ?_)
    rw [h.1,h.2]
    split
    · exact Nat.le_add_right _ _
    refine Walk.Ends.bind (Q := fun _ s' => s'.drafts.size = s.drafts.size + 1)
      (Array.size_push _) (fun id s₃ h₃ => ?_)
    refine (checkTop_ends hroot).bind (fun _ s₄ h₄ => ?_)
    rw [h₄]
    refine (Walk.ends_mapM (g.childSize (g.unfoldedSize room)) (fun child _ s =>
      placeChild_ends (fun origin m s => ih origin _ s (fun h => absurd h (Option.some_ne_none id))))).bind
      (fun children s₅ h₅ => ?_)
    refine Walk.Ends.bind (Q := fun _ s' => s'.drafts.size = s₅.drafts.size) Array.size_modify
      (fun _ s₆ h₆ => ?_)
    refine Walk.Ends.bind (Q := fun _ s' => s'.drafts.size ≤ s₆.drafts.size +
      ((g.next? m).map (g.unfoldedSize room)).getD 0) ?_ (fun _ s₇ h₇ => ?_)
    · cases parent with
      | none => exact Nat.le_add_right _ _
      | some p => exact placeNext_ends (fun origin m s => ih origin _ s (fun h => absurd h (Option.some_ne_none _)))
    · have hsize : s₇.drafts.size ≤ s.drafts.size + g.unfoldedSize (room + 1) m := by
        rw [Grammar.unfoldedSize]
        omega
      exact hsize

end Size

section Drafts

/-- Of the drafts of a walk, only that of the top mode has no begin. -/
lemma begin_eq_none_of_walk (hs : walk g = .ok s) (hd : s.drafts[id]? = some d) :
    d.beginPattern = none ↔ id = rootNode := by
  obtain ⟨hroot,hsettled⟩ := walk_settled hs
  have hbegin : ∀ key, s.places.lookup key = some id → (d.beginPattern = none ↔ key.1 = .root) := by
    intro key hkey
    obtain ⟨m,terminator,d',h⟩ := hsettled key id hkey
    obtain rfl := Option.some.inj (hd.symm.trans h.draft)
    rw [h.root,h.own]
    cases terminator with
    | none => exact ⟨fun _ => rfl,fun _ => rfl⟩
    | some terminator => exact ⟨nofun,nofun⟩
  constructor
  · intro hnone
    obtain ⟨key,hkey⟩ := (walk_placed hs).all id (Array.getElem?_eq_some_iff.mp hd).1
    obtain ⟨m,parent,hmade⟩ := (walk_placed hs).made key id hkey
    have horigin := (hbegin key hkey).mp hnone
    have htop : key = (.root,none) := by
      rw [hmade.kept,horigin,hmade.root.mp horigin,keyOf,ite_self]
    rw [htop,hroot] at hkey
    exact (Option.some.inj hkey).symm
  · rintro rfl
    exact (hbegin _ hroot).mpr rfl

end Drafts

section Nodes

variable {drafts : Array Draft} {ic : Bool} {n : Node} {e : GrammarError}

/-- The rules of a draft are in order. -/
lemma inOrder_of_rules {s : Rules.RuleSet} (h : s.rules = rulesOf drafts d) : s.InOrder := by
  refine ⟨_,_,_,h,?_,fun rule hrule => ?_,⟨?_,fun rule hrule => ?_⟩,?_,fun rule hrule => ?_⟩
  · have hbegins (pattern : NodeId → String) : (d.children.map (fun child =>
        (⟨pattern child,.begins child⟩ : Rules.Rule))).countP Rules.Rule.isBegin = d.children.length := by
      rw [List.countP_map]
      exact List.countP_eq_length.mpr (fun _ _ => rfl)
    rw [Rules.RuleSet.beginCount,h,rulesOf,List.countP_append,List.countP_append,hbegins,List.length_map]
    cases d.mode.illegal <;> cases d.terminator.isEmpty <;> rfl
  · obtain ⟨child,-,rfl⟩ := List.mem_map.mp hrule
    rfl
  · split <;> simp
  · split at hrule
    · cases hrule
    · rw [List.mem_singleton.mp hrule]
  · split <;> simp
  · split at hrule
    · rw [List.mem_singleton.mp hrule]
    · cases hrule

lemma eq_error_of_blame {pattern : String} {r : Except Regex.PatternError Regex}
    (h : blame pattern r = .error e) : ∃ reason, e = .invalidPattern pattern reason ∧ r = .error reason := by
  cases r with
  | ok re => cases h
  | error reason => exact ⟨reason,(Except.error.inj h).symm,rfl⟩

lemma eq_error_of_build {rules : List Rules.Rule} (h : Rules.RuleSet.build rules ic = .error e) :
    ∃ pattern reason, e = .invalidPattern pattern reason ∧ Regex.compileRule pattern ic = .error reason := by
  unfold Rules.RuleSet.build at h
  split at h
  · rename_i e' hbuild
    obtain rfl := Except.error.inj h
    unfold Rules.Matcher.build at hbuild
    split at hbuild
    · cases hbuild
    · dsimp only at hbuild
      split at hbuild
      · cases hbuild
      · rename_i reason hcompile
        exact ⟨_,reason,(Except.error.inj hbuild).symm,hcompile⟩
  · cases h

lemma exists_of_array_mapM_eq_error {α β : Type} {f : α → Except GrammarError β} {as : Array α}
    (h : as.mapM f = .error e) : ∃ a, f a = .error e := by
  have hlist : as.toList.mapM f = .error e := by
    rw [← Array.toList_mapM,h]
    rfl
  obtain ⟨a,-,ha⟩ := exists_of_list_mapM_eq_error hlist
  exact ⟨a,ha⟩

/-- A node is refused for a pattern of its own. -/
lemma faulty_of_nodeOf (h : nodeOf drafts g.ignoreCase d = .error e) : g.Faulty e := by
  unfold nodeOf at h
  cases hend : d.endPattern.mapM (fun p => blame p (Regex.compileAnchored p g.ignoreCase)) with
  | error e' =>
    rw [hend] at h
    obtain rfl := Except.error.inj h
    cases hpattern : d.endPattern with
    | none =>
      rw [hpattern] at hend
      cases hend
    | some p =>
      rw [hpattern] at hend
      cases hblame : blame p (Regex.compileAnchored p g.ignoreCase) with
      | ok re =>
        simp only [Option.mapM_some,hblame] at hend
        cases hend
      | error e' =>
        simp only [Option.mapM_some,hblame] at hend
        obtain ⟨reason,rfl,hreason⟩ := eq_error_of_blame hblame
        obtain rfl := Except.error.inj hend
        exact .inl hreason
  | ok endRegex =>
    rw [hend] at h
    generalize d.mode.lexemes.getD defaultLexemes = lexemes at h
    cases hlexemes : blame lexemes (Regex.compileRule lexemes g.ignoreCase) with
    | error e' =>
      simp only [bind,Except.bind,hlexemes] at h
      obtain rfl := Except.error.inj h
      obtain ⟨reason,rfl,hreason⟩ := eq_error_of_blame hlexemes
      exact .inr hreason
    | ok lexemes =>
      cases hrules : Rules.RuleSet.build (rulesOf drafts d) g.ignoreCase with
      | error e' =>
        simp only [bind,Except.bind,hlexemes,hrules] at h
        obtain rfl := Except.error.inj h
        obtain ⟨pattern,reason,rfl,hreason⟩ := eq_error_of_build hrules
        exact .inr hreason
      | ok rules =>
        simp only [bind,Except.bind,hlexemes,hrules] at h
        cases h

end Nodes

end Assembly

variable {g : Grammar} {t : NodeTable}

/-- A grammar that is assembled gives a well-formed table. -/
lemma Grammar.wellFormed_of_assemble (h : g.assemble = .ok t) : t.WellFormed := by
  have hclosed := assemble_closed h
  obtain ⟨drafts,hdrafts,hsize,hnode⟩ := node_of_assemble h
  obtain ⟨-,-,htop⟩ := draftAll_wellFormed hdrafts
  obtain ⟨s,hs,rfl⟩ := draftAll_eq_ok.mp hdrafts
  have hbegin : ∀ id d, s.drafts[id]? = some d → (t.node id).beginPattern = d.beginPattern := by
    intro id d hd
    rcases hnode id with ⟨hnone,-⟩ | ⟨d',hd',hof⟩
    · rw [hnone] at hd
      cases hd
    · obtain rfl := Option.some.inj (hd.symm.trans hd')
      exact (drafted_of_nodeOf hof).beginPattern
  refine { hclosed with
    begin_eq_none := fun id hid => ?_
    top_rules := fun rule hrule hends => ?_
    top_starts := ?_
    inOrder := fun id => ?_
    begins_pattern := fun id rule hrule k hk => ?_ }
  · have hd : s.drafts[id]? = some s.drafts[id] := Array.getElem?_eq_getElem (hsize ▸ hid)
    rw [hbegin id _ hd]
    exact begin_eq_none_of_walk hs hd
  · rcases hnode rootNode with ⟨-,hdefault⟩ | ⟨d,hd,hof⟩
    · rw [hdefault] at hrule
      cases hrule
    · rw [(drafted_of_nodeOf hof).rules_eq,rulesOf,(htop d hd).terminator] at hrule
      simp only [List.mem_append,List.mem_map] at hrule
      rcases hrule with (⟨child,-,rfl⟩ | hrule) | hrule
      · cases hends
      · cases hrule
      · split at hrule
        · rw [List.mem_singleton.mp hrule] at hends
          cases hends
        · cases hrule
  · rcases hnode rootNode with ⟨-,hdefault⟩ | ⟨d,hd,hof⟩
    · rw [hdefault]
      rfl
    · rw [(drafted_of_nodeOf hof).starts]
      exact (htop d hd).starts
  · rcases hnode id with ⟨-,hdefault⟩ | ⟨d,-,hof⟩
    · rw [hdefault]
      exact ⟨[],[],[],rfl,rfl,List.forall_mem_nil _,⟨Nat.zero_le _,List.forall_mem_nil _⟩,Nat.zero_le _,List.forall_mem_nil _⟩
    · exact inOrder_of_rules (drafted_of_nodeOf hof).rules_eq
  · have hinner := hclosed.begins id rule hrule k hk
    have hlt : k < s.drafts.size := hsize ▸ hinner.2
    have hd : s.drafts[k]? = some s.drafts[k] := Array.getElem?_eq_getElem hlt
    rw [hbegin k _ hd]
    rcases hnode id with ⟨-,hdefault⟩ | ⟨d,-,hof⟩
    · rw [hdefault] at hrule
      cases hrule
    · rw [(drafted_of_nodeOf hof).rules_eq] at hrule
      rw [(begins_of_mem_rulesOf hrule hk).2,Array.getD_eq_getD_getElem?,hd,Option.getD_some]
      cases hpattern : s.drafts[k].beginPattern with
      | none => exact absurd ((begin_eq_none_of_walk hs hd).mp hpattern) hinner.1
      | some pattern => rfl

/-- Whatever grammar is assembled, the outcome is a well-formed table with no more nodes than the modes
unfold to down to the depth limit, or an error that names a fault of the grammar. -/
theorem Grammar.assemble_outcome (g : Grammar) :
    (∃ t, g.assemble = .ok t ∧ t.WellFormed ∧ t.size ≤ g.unfoldedSize (maxNesting + 1) g.root) ∨
      ∃ e, g.assemble = .error e ∧ g.Faulty e := by
  have hwalk := place_ends g g.parentDependencies (maxNesting + 1) .root none {} (fun _ => rfl)
  cases h : g.assemble with
  | ok t =>
    refine .inl ⟨t,rfl,wellFormed_of_assemble h,?_⟩
    obtain ⟨drafts,hdrafts,hsize,-⟩ := node_of_assemble h
    obtain ⟨s,hs,rfl⟩ := draftAll_eq_ok.mp hdrafts
    obtain ⟨id,hrun⟩ := walk_eq_ok.mp hs
    rw [Walk.Ends,hrun] at hwalk
    have hle : s.drafts.size ≤ 0 + g.unfoldedSize (maxNesting + 1) g.root := hwalk
    omega
  | error e =>
    refine .inr ⟨e,rfl,?_⟩
    unfold assemble draftAll at h
    cases hrun : (place g g.parentDependencies (maxNesting + 1) .root g.root none).run {} with
    | error e' =>
      rw [Walk.Ends,hrun] at hwalk
      rw [hrun] at h
      obtain rfl := Except.error.inj h
      exact hwalk
    | ok p =>
      rw [hrun] at h
      cases hnodes : p.2.drafts.mapM (nodeOf p.2.drafts g.ignoreCase) with
      | ok nodes =>
        simp only [bind,Except.bind,pure,Except.pure,hnodes] at h
        cases h
      | error e' =>
        simp only [bind,Except.bind,pure,Except.pure,hnodes] at h
        obtain rfl := Except.error.inj h
        obtain ⟨d,hd⟩ := exists_of_array_mapM_eq_error hnodes
        exact faulty_of_nodeOf hd

end Highlight
