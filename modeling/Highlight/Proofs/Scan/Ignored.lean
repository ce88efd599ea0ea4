import Highlight.Proofs.Rules.Found
import Highlight.Proofs.Scan.React
import Highlight.Proofs.Scan.Reach

/-!
Begins that a guard ignores. The rules after an ignored begin are searched from its place on, over all
of the text that is left, so that a match of theirs further on wins over the rules up to the ignored
one. After the last begin all rules are searched, but from the next character on, so that the end and
what is illegal do not get their turn at that place.
-/
namespace Highlight

open Rules

variable {named : Bool} {text : Source}

namespace Rules

variable {rules : List Rule} {ic : Bool} {last p : Nat} {found : Option RuleMatch}

/-- None of the rules up to a number matches after a position, as far as what was found starts, or as
far as the text goes. -/
def PassesOver (rules : List Rule) (ignoreCase : Bool) (text : Source) (last position : Nat)
    (found : Option RuleMatch) : Prop :=
  ∀ i ≤ last, ∀ q, position < q → q ≤ (found.map RuleMatch.start).getD text.size →
    endAt? rules ignoreCase text i q = none

lemma Fires.passesOver_iff {m : RuleMatch} (hlater : ∀ i, last < i → endAt? rules ic text i p = none)
    (h : Fires rules ic text p (last + 1) m) :
    Fires rules ic text (p + 1) 0 m ↔ PassesOver rules ic text last p (some m) := by
  have hindex : last < m.index := h.first_le
  constructor
  · intro hall i hi q hq hle
    rcases Nat.eq_or_lt_of_le hle with rfl | hlt
    · exact hall.least i (Nat.zero_le _) (Nat.lt_of_le_of_lt hi hindex)
    · exact hall.leftmost q hq hlt i (Nat.zero_le _)
  · intro hpasses
    have hne : m.start ≠ p := by
      intro heq
      have hstop := h.stop
      rw [heq,hlater m.index hindex] at hstop
      cases hstop
    have hstart : p + 1 ≤ m.start := Nat.lt_of_le_of_ne h.start_le (Ne.symm hne)
    refine ⟨hstart,h.start_le_size,Nat.zero_le _,h.kind,h.stop,fun i _ hi => ?_,fun q hq hlt i _ => ?_⟩
    · rcases Nat.lt_or_ge last i with hlast | hlast
      · exact h.least i hlast hi
      · exact hpasses i hlast m.start hstart (Nat.le_refl _)
    · rcases Nat.lt_or_ge last i with hlast | hlast
      · exact h.leftmost q (Nat.le_of_succ_le hq) hlt i hlast
      · exact hpasses i hlast q hq (Nat.le_of_lt hlt)

/-- What the later rules find further on is what all rules find there if it passes over no match of the
others. -/
lemma IsFirst.passesOver_iff (hlater : ∀ i, last < i → endAt? rules ic text i p = none)
    (h : IsFirst rules ic text p (last + 1) found) :
    IsFirst rules ic text (p + 1) 0 found ↔ PassesOver rules ic text last p found := by
  cases found with
  | some m => exact Fires.passesOver_iff hlater h
  | none =>
    constructor
    · exact fun hall i _ q hq hle => hall q hq hle i (Nat.zero_le _)
    · intro hpasses q hq hle i _
      rcases Nat.lt_or_ge last i with hlast | hlast
      · exact h q (Nat.le_of_succ_le hq) hle i hlast
      · exact hpasses i hlast q hq hle

/-- Rules one of which matches where the search starts fire there. -/
lemma IsFirst.exists_at {first i : Nat} (h : IsFirst rules ic text p first found) (hp : p ≤ text.size)
    (hi : first ≤ i) (hmatch : endAt? rules ic text i p ≠ none) :
    ∃ m, found = some m ∧ m.start = p ∧ Fires rules ic text p first m := by
  cases found with
  | none => exact absurd (h p (Nat.le_refl _) hp i hi) hmatch
  | some m =>
    have h : Fires rules ic text p first m := h
    refine ⟨m,rfl,?_,h⟩
    rcases Nat.eq_or_lt_of_le h.start_le with heq | hlt
    · exact heq.symm
    · exact absurd (h.leftmost p (Nat.le_refl _) hlt i hi) hmatch

end Rules

/-- The rules of a node in a table find what fires first, if they are combinable. -/
theorem Grammar.exec_answers {g : Grammar} {t : NodeTable} (hg : g.assemble = .ok t) {id : NodeId}
    (h : Combinable (t.node id).rules.rules (t.node id).rules.ignoreCase named) (start first : Nat) :
    Answers (t.node id).rules.rules (t.node id).rules.ignoreCase text start first
      ((t.node id).rules.exec text start first) := by
  obtain ⟨drafts,-,-,hnode⟩ := node_of_assemble hg
  rcases hnode id with ⟨-,hdefault⟩ | ⟨d,-,hof⟩
  · rw [hdefault]
    exact fun q _ _ i _ => endAt?_of_length_le (Nat.zero_le _) q
  · exact RuleSet.answers_of_build (Assembly.drafted_of_nodeOf hof).rules h start first

namespace Scan

variable {env : Env} {s s' s₁ : State} {m : RuleMatch} {number : Nat} {goesOn : Bool}

/-- The rules that a state is searched by. -/
def State.ruleSet (env : Env) (s : State) : RuleSet := (env.node s.top).rules

/-- A step that finds the begin of a mode and ignores it by the guard of the mode. -/
structure Ignores (env : Env) (number : Nat) (s : State) (m : RuleMatch) (goesOn : Bool)
    (s' : State) : Prop where
  found : ∃ s₁, (nextMatch env).run s = (.ok (some m),s₁)
  ignored : ∃ id, m.kind = .begins id ∧ verdict env (env.node id) m = .ignore
  step : (Scan.step env number).run s = (.ok goesOn,s')

/-- The rule from which on the next search looks. -/
def State.firstRule (s : State) : Nat := if s.stays then s.resumeAt else 0

/-- A search looks from the cursor on, and notes where to go on after a begin. -/
lemma nextMatch_searches (env : Env) (s : State) : (nextMatch env).Ensures s
    (fun found s' => (s.ruleSet env).exec env.text s.position s.firstRule = .ok found ∧
      ∀ m, found = some m → m.isBegin = true → s' =
        { s with stays := false, resumeAt := (s.ruleSet env).resumeAfter m.index })
    (fun halt _ => ∃ fault, halt = .fault fault ∧
      (s.ruleSet env).exec env.text s.position s.firstRule = .error fault) := by
  simp only [nextMatch,Action.ensures_bind,Action.ensures_modify,Action.ensures_get]
  split
  · exact ⟨_,rfl,‹_›⟩
  · refine ⟨‹_›,fun m hm => ?_⟩
    cases hm
  · rename_i m hexec
    split
    · refine ⟨hexec,fun m' hm _ => ?_⟩
      obtain rfl := Option.some.inj hm
      rfl
    · rename_i hbegin
      refine ⟨hexec,fun m' hm hbegin' => ?_⟩
      obtain rfl := Option.some.inj hm
      exact absurd hbegin' hbegin

/-- Where an ignored begin leaves the scan: behind its first character if it was the last begin, and
else at its start, to go on with the rule after it. -/
def Left (env : Env) (s : State) (m : RuleMatch) (goesOn : Bool) (s' : State) : Prop :=
  s'.top = s.top ∧
    if m.index + 1 = (s.ruleSet env).beginCount then
      s'.position = m.start + 1 ∧ s'.firstRule = 0
    else goesOn = true ∧ s'.position = m.start ∧ s'.firstRule = m.index + 1

lemma ignoreBegin_leaves (hm : m.start ≤ env.text.size)
    (hresume : s.resumeAt = (s.ruleSet env).resumeAfter m.index) (hstays : s.stays = false) :
    (ignoreBegin env m).Ensures s
      (fun moved s' => Left env s m (decide (m.start + moved ≤ env.text.size))
        { s' with position := m.start + moved }) (fun _ _ => False) := by
  rw [ignoreBegin,Action.ensures_bind,Action.ensures_get,hresume,RuleSet.resumeAfter]
  by_cases hlast : m.index + 1 = (s.ruleSet env).beginCount
  · rw [if_pos hlast,if_pos rfl,keepNext]
    have hleft : ∀ buffer, Left env s m (decide (m.start + 1 ≤ env.text.size))
        { s with buffer, position := m.start + 1 } := by
      intro buffer
      refine ⟨rfl,?_⟩
      rw [if_pos hlast]
      refine ⟨rfl,?_⟩
      rw [State.firstRule,hstays]
      rfl
    cases env.text.charAt? m.start with
    | none => exact hleft s.buffer
    | some c => exact hleft _
  · rw [if_neg hlast,if_neg (Nat.succ_ne_zero _),Action.ensures_bind,Action.ensures_modify,
      Action.ensures_pure]
    refine ⟨rfl,?_⟩
    rw [if_neg hlast]
    refine ⟨decide_eq_true hm,rfl,?_⟩
    rw [State.firstRule,if_pos rfl]
    simp only [hresume,RuleSet.resumeAfter,if_neg hlast]

lemma stalls_of_begins {id : NodeId} (hkind : m.kind = .begins id) (last : Option RuleMatch) :
    stalls last m = false := by
  cases last with
  | none => rfl
  | some last => simp [stalls,hkind]

/-- The reaction to a begin that is ignored. -/
lemma ensures_react_of_ignore {id : NodeId} (hkind : m.kind = .begins id)
    (hverdict : verdict env (env.node id) m = .ignore) {Q : Nat → State → Prop}
    {H : Halt → State → Prop} : (react env m).Ensures s Q H ↔
      (ignoreBegin env m).Ensures { s with last := some m } Q H := by
  rw [react,Action.ensures_bind,Action.ensures_get,stalls_of_begins hkind,if_neg Bool.false_ne_true,
    Action.ensures_bind,Action.ensures_modify,hkind]
  dsimp only
  rw [reactToBegin,hverdict]

lemma Ignores.leaves (h : Ignores env number s m goesOn s') :
    m.start ≤ env.text.size ∧ Left env s m goesOn s' := by
  obtain ⟨s₁,hfound⟩ := h.found
  obtain ⟨id,hkind,hverdict⟩ := h.ignored
  have hbegin : m.isBegin = true := by
    rw [RuleMatch.isBegin,hkind]
  obtain ⟨hexec,hs₁⟩ := (nextMatch_searches env s).ok hfound
  obtain rfl := hs₁ m rfl hbegin
  obtain ⟨-,hstart,hstop⟩ := RuleSet.exec_within hexec
  have hm : m.start ≤ env.text.size := Nat.le_trans hstart hstop
  have hstep : (Scan.step env number).Ensures s (fun goesOn s' => Left env s m goesOn s')
      (fun _ _ => True) := by
    rw [Scan.step,Action.ensures_bind,Action.Ensures,hfound]
    dsimp only
    split
    · exact trivial
    · rw [Action.ensures_bind,Action.ensures_get,Action.ensures_bind,Action.ensures_append,
        Action.ensures_bind,ensures_react_of_ignore hkind hverdict]
      refine (ignoreBegin_leaves hm rfl rfl).mono (fun _ _ hleft => ?_) (fun _ _ => False.elim)
      exact hleft
  exact ⟨hm,hstep.ok h.step⟩

variable {g : Grammar} {i : Nat}

/-- What gives up a search: a pattern that needs backtracking. -/
def MayGiveUp (rules : List Rule) (ignoreCase : Bool) (halt : Halt) : Prop :=
  halt = .fault .searchGaveUp ∧
    ∃ rule ∈ rules, ∃ g, Regex.compileRule rule.pattern ignoreCase = .ok g ∧ g.plain = false

/-- The next search after an ignored begin looks for what fires first of the rules after it or, if it
was the last begin, of all rules from the next character on. -/
lemma Ignores.next (hg : g.assemble = .ok env.table) (h : Ignores env number s m goesOn s')
    (hrules : Combinable (s.ruleSet env).rules (s.ruleSet env).ignoreCase named) :
    (nextMatch env).Ensures s'
      (fun found _ => IsFirst (s.ruleSet env).rules (s.ruleSet env).ignoreCase env.text
        s'.position s'.firstRule found)
      (fun halt _ => MayGiveUp (s.ruleSet env).rules (s.ruleSet env).ignoreCase halt) := by
  obtain ⟨-,htop,-⟩ := h.leaves
  have hset : s'.ruleSet env = s.ruleSet env := congrArg (fun id => (env.node id).rules) htop
  have hanswers : Answers (s.ruleSet env).rules (s.ruleSet env).ignoreCase env.text s'.position
      s'.firstRule ((s'.ruleSet env).exec env.text s'.position s'.firstRule) := by
    rw [hset]
    exact Grammar.exec_answers hg hrules s'.position s'.firstRule
  refine (nextMatch_searches env s').mono (fun found _ hfound => ?_) (fun halt _ hhalt => ?_)
  · rw [hfound.1] at hanswers
    exact hanswers
  · obtain ⟨fault,rfl,hexec⟩ := hhalt
    rw [hexec] at hanswers
    obtain ⟨rfl,rule,hrule,hbacktracks⟩ := hanswers
    exact ⟨rfl,rule,List.mem_of_mem_drop hrule,hbacktracks⟩

section Runs

/-- A begin that is ignored in a scan of a text on its own, by rules that tell upper from lower case. -/
structure IgnoredAlone (g : Grammar) (code : String) (rules : List Rule) (m : RuleMatch)
    (found : Option RuleMatch) (env : Env) (n : Nat) (s s' : State) : Prop where
  assembled : g.assemble = .ok env.table
  text : env.text = .ofString code
  after : After env (.opened env.table none []) n s
  ignores : Ignores env (n + 1) s m true s'
  rules : (s.ruleSet env).rules = rules
  ignoreCase : (s.ruleSet env).ignoreCase = false
  next : ∃ s'', (nextMatch env).run s' = (.ok found,s'')

lemma exists_run_of_ok {α : Type} {x : Action α} {a : α} (h : (x.run s).1 = .ok a) :
    ∃ s', x.run s = (.ok a,s') :=
  ⟨_,Prod.ext h rfl⟩

lemma exists_ignoredAlone {code : String} {n : Nat} {id : NodeId} {rules : List Rule} {found : Option RuleMatch}
    (hkind : m.kind = .begins id)
    (h : sights g code n m (fun table s goesOn s' =>
      let env := Env.alone table code
      decide (goesOn = true ∧ verdict env (env.node id) m = .ignore ∧ (s.ruleSet env).rules = rules ∧
        (s.ruleSet env).ignoreCase = false ∧ ((nextMatch env).run s').1.toOption = some found)) = true) :
    ∃ env s s', IgnoredAlone g code rules m found env n s s' := by
  obtain ⟨table,s,goesOn,s',hs,h⟩ := exists_sights h
  obtain ⟨rfl,hverdict,hrules,hcase,hfound⟩ := of_decide_eq_true h
  exact ⟨Env.alone table code,s,s',hs.assembled,rfl,hs.after,
    ⟨exists_run_of_ok hs.next,⟨id,hkind,hverdict⟩,hs.step⟩,hrules,hcase,
    exists_run_of_ok (except_eq_ok_of_toOption hfound)⟩

end Runs

/-- After an ignored begin at whose place no later rule matches, the next match is the first of all
rules from the next position on exactly if the begin was the last one, or the rules up to it have no
match that is passed over. -/
theorem isFirst_after_ignored_iff (hg : g.assemble = .ok env.table)
    (hrules : Combinable (s.ruleSet env).rules (s.ruleSet env).ignoreCase named)
    (h : Ignores env number s m goesOn s')
    (hlater : ∀ i, m.index < i → endAt? (s.ruleSet env).rules
      (s.ruleSet env).ignoreCase env.text i m.start = none) :
    (nextMatch env).Ensures s'
      (fun found _ => IsFirst (s.ruleSet env).rules (s.ruleSet env).ignoreCase env.text
          (m.start + 1) 0 found ↔
        m.index + 1 = (s.ruleSet env).beginCount ∨
          PassesOver (s.ruleSet env).rules (s.ruleSet env).ignoreCase env.text m.index
            m.start found)
      (fun halt _ => MayGiveUp (s.ruleSet env).rules (s.ruleSet env).ignoreCase halt) := by
  obtain ⟨-,-,hleft⟩ := h.leaves
  refine (h.next hg hrules).mono (fun found _ hfirst => ?_) (fun _ _ hhalt => hhalt)
  split at hleft
  · obtain ⟨hposition,hrule⟩ := hleft
    rw [hposition,hrule] at hfirst
    exact ⟨fun _ => .inl ‹_›,fun _ => hfirst⟩
  · obtain ⟨-,hposition,hrule⟩ := hleft
    rw [hposition,hrule] at hfirst
    rw [hfirst.passesOver_iff hlater]
    exact ⟨.inr,fun hor => hor.resolve_left ‹_›⟩

/-- A grammar of words that no dot may touch, and of signs. -/
def dotted : Grammar where
  name := "dotted"
  root := { contains := some [.mode 0,.mode 1] }
  modes := #[{ className := some "word", beginPattern := some "if", beginGuard := some .noSurroundingDot },
             { className := some "sign", beginPattern := some "#" }]

lemma exists_ignored_dotted : ∃ env s s', IgnoredAlone dotted ".if if #"
    [⟨"if",.begins 1⟩,⟨"#",.begins 2⟩] ⟨1,3,.begins 1,0⟩ (some ⟨7,8,.begins 2,1⟩) env 0 s s' :=
  exists_ignoredAlone rfl (by decide +kernel)

lemma none_later_dotted (i : Nat) (hi : 0 < i) :
    endAt? [⟨"if",.begins 1⟩,⟨"#",.begins 2⟩] false (.ofString ".if if #") i 1 = none := by
  rcases Nat.eq_or_lt_of_le hi with rfl | hi
  · decide +kernel
  · exact endAt?_of_length_le hi 1

theorem isFirst_after_ignored_dotted : ∃ (env : Env) (s s' s'' : State) (found : Option RuleMatch),
    dotted.assemble = .ok env.table ∧ Ignores env 1 s ⟨1,3,.begins 1,0⟩ true s' ∧
      (nextMatch env).run s' = (.ok found,s'') ∧
      (IsFirst (s.ruleSet env).rules (s.ruleSet env).ignoreCase env.text 2 0 found ↔
        1 = (s.ruleSet env).beginCount ∨ PassesOver (s.ruleSet env).rules
          (s.ruleSet env).ignoreCase env.text 0 1 found) := by
  obtain ⟨env,s,s',hg,htext,-,h,hrules,hcase,s'',hnext⟩ := exists_ignored_dotted
  have hcombinable : Combinable (s.ruleSet env).rules (s.ruleSet env).ignoreCase false := by
    rw [hrules,hcase]
    exact .of_isCombinable (by decide +kernel)
  refine ⟨env,s,s',s'',_,hg,h,hnext,(isFirst_after_ignored_iff hg hcombinable h ?_).ok hnext⟩
  rw [hrules,hcase,htext]
  exact none_later_dotted

/-- The word after the next blank is passed over, because the word before it is ignored. -/
theorem exists_passed_over : ∃ (env : Env) (s s' s'' : State) (m : RuleMatch) (found : Option RuleMatch),
    dotted.assemble = .ok env.table ∧ env.text = .ofString ".if if #" ∧
      After env (.opened env.table none []) 0 s ∧ Ignores env 1 s m true s' ∧
      (∀ i, m.index < i → endAt? (s.ruleSet env).rules (s.ruleSet env).ignoreCase env.text i
        m.start = none) ∧
      (nextMatch env).run s' = (.ok found,s'') ∧
      ¬ IsFirst (s.ruleSet env).rules (s.ruleSet env).ignoreCase env.text (m.start + 1) 0 found := by
  obtain ⟨env,s,s',hg,htext,hafter,h,hrules,hcase,s'',hnext⟩ := exists_ignored_dotted
  refine ⟨env,s,s',s'',_,_,hg,htext,hafter,h,?_,hnext,?_⟩
  · rw [hrules,hcase,htext]
    exact none_later_dotted
  · rw [hrules,hcase,htext]
    intro hfires
    have hword := hfires.leftmost 4 (by decide) (by decide) 0 (Nat.le_refl _)
    have hmatches : endAt? [⟨"if",.begins 1⟩,⟨"#",.begins 2⟩] false (.ofString ".if if #") 0 4 ≠ none := by
      decide +kernel
    exact hmatches hword

/-- After an ignored begin at whose place a later rule matches, the next match is that of the first
such rule at the place exactly if the begin was not the last one. -/
theorem later_after_ignored_iff (hg : g.assemble = .ok env.table)
    (hrules : Combinable (s.ruleSet env).rules (s.ruleSet env).ignoreCase named)
    (h : Ignores env number s m goesOn s') (hi : m.index < i)
    (hmatch : endAt? (s.ruleSet env).rules (s.ruleSet env).ignoreCase env.text i
      m.start ≠ none) :
    (nextMatch env).Ensures s'
      (fun found _ => (goesOn = true ∧ s'.position = m.start ∧ ∃ later, found = some later ∧
          later.start = m.start ∧ Fires (s.ruleSet env).rules
            (s.ruleSet env).ignoreCase env.text m.start (m.index + 1) later) ↔
        m.index + 1 ≠ (s.ruleSet env).beginCount)
      (fun halt _ => MayGiveUp (s.ruleSet env).rules (s.ruleSet env).ignoreCase halt) := by
  obtain ⟨hm,-,hleft⟩ := h.leaves
  refine (h.next hg hrules).mono (fun found _ hfirst => ?_) (fun _ _ hhalt => hhalt)
  split at hleft
  · rename_i hlast
    obtain ⟨hposition,-⟩ := hleft
    rw [hposition]
    exact ⟨fun hstays => absurd hstays.2.1 (Nat.succ_ne_self _),fun hne => absurd hlast hne⟩
  · rename_i hlast
    obtain ⟨hgoes,hposition,hrule⟩ := hleft
    rw [hposition,hrule] at hfirst
    exact ⟨fun _ => hlast,fun _ => ⟨hgoes,hposition,hfirst.exists_at hm hi hmatch⟩⟩

/-- A grammar of brackets that contain a closing bracket which no dot may touch. -/
def bracketed : Grammar where
  name := "bracketed"
  root := { contains := some [.mode 1] }
  modes := #[{ className := some "inner", beginPattern := some "\\]", beginGuard := some .noSurroundingDot },
             { className := some "outer", beginPattern := some "\\[", endPattern := some "\\]",
               contains := some [.mode 0] }]

lemma exists_ignored_bracketed : ∃ env s s', IgnoredAlone bracketed "[.])"
    [⟨"\\]",.begins 2⟩,⟨"\\]",.ends⟩] ⟨2,3,.begins 2,0⟩ none env 1 s s' :=
  exists_ignoredAlone rfl (by decide +kernel)

/-- The end of the brackets matches where the begin is ignored. -/
lemma end_bracketed : endAt? [⟨"\\]",.begins 2⟩,⟨"\\]",.ends⟩] false (.ofString "[.])") 1 2 ≠ none := by
  decide +kernel

theorem later_after_ignored_bracketed : ∃ (env : Env) (s s' s'' : State) (goesOn : Bool)
    (found : Option RuleMatch), bracketed.assemble = .ok env.table ∧
      Ignores env 2 s ⟨2,3,.begins 2,0⟩ goesOn s' ∧ (nextMatch env).run s' = (.ok found,s'') ∧
      ((goesOn = true ∧ s'.position = 2 ∧ ∃ later, found = some later ∧ later.start = 2 ∧
        Fires (s.ruleSet env).rules (s.ruleSet env).ignoreCase env.text 2 1 later) ↔
          1 ≠ (s.ruleSet env).beginCount) := by
  obtain ⟨env,s,s',hg,htext,-,h,hrules,hcase,s'',hnext⟩ := exists_ignored_bracketed
  have hcombinable : Combinable (s.ruleSet env).rules (s.ruleSet env).ignoreCase false := by
    rw [hrules,hcase]
    exact .of_isCombinable (by decide +kernel)
  have hmatch : endAt? (s.ruleSet env).rules (s.ruleSet env).ignoreCase env.text 1 2 ≠ none := by
    rw [hrules,hcase,htext]
    exact end_bracketed
  exact ⟨env,s,s',s'',_,_,hg,h,hnext,
    (later_after_ignored_iff hg hcombinable h Nat.one_pos hmatch).ok hnext⟩

/-- The end of the brackets is passed over, because it is also an ignored begin. -/
theorem exists_end_passed_over : ∃ (env : Env) (s s' s'' : State) (m : RuleMatch)
    (found : Option RuleMatch), bracketed.assemble = .ok env.table ∧ env.text = .ofString "[.])" ∧
      After env (.opened env.table none []) 1 s ∧ Ignores env 2 s m true s' ∧
      (∃ i, m.index < i ∧ endAt? (s.ruleSet env).rules (s.ruleSet env).ignoreCase env.text i
        m.start ≠ none) ∧
      (nextMatch env).run s' = (.ok found,s'') ∧
      ¬ ∃ later, found = some later ∧ Fires (s.ruleSet env).rules (s.ruleSet env).ignoreCase env.text
        m.start (m.index + 1) later := by
  obtain ⟨env,s,s',hg,htext,hafter,h,hrules,hcase,s'',hnext⟩ := exists_ignored_bracketed
  refine ⟨env,s,s',s'',_,_,hg,htext,hafter,h,⟨1,Nat.one_pos,?_⟩,hnext,?_⟩
  · rw [hrules,hcase,htext]
    exact end_bracketed
  · rintro ⟨later,hnone,-⟩
    cases hnone

end Scan
end Highlight
