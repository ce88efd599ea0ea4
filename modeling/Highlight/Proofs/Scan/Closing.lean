import Highlight.Proofs.Assembly.OwnEnd
import Highlight.Proofs.Continuations
import Highlight.Proofs.Scan.Ignored

/-!
What an end match closes. Where the end rule of the innermost mode matches, the own end of one of the
modes does that the end may be left to. The modes are tried from the inside, with the text before the
match out of sight, so that what closes is told right if the own ends look ahead only.
-/
namespace Highlight.Scan

open Assembly Rules

variable {g : Grammar} {env : Env} {s s' s₁ : State} {named named' : Bool} {m : RuleMatch} {q : Nat}
  {f : Frame} {inner above below stack : List Frame} {drafts : Drafts}

section Reached

/-- A state that a scan visits which starts afresh, or goes on where another one by the same table has
come to. -/
inductive Reaches (table : NodeTable) : Env → State → Prop where
  | afresh {env : Env} {assembled : List String} {s : State} (htable : env.table = table)
      (h : Visits env (.opened table none assembled) s) : Reaches table env s
  | resumed {env env' : Env} {assembled : List String} {s s' : State} (hs' : Reaches table env' s')
      (htable : env.table = table)
      (h : Visits env (.opened table (some { frames := s'.stack }) assembled) s) : Reaches table env s

lemma Reaches.wellStacked {t : NodeTable} (ht : t.Closed) (h : Reaches t env s) : WellStacked env s := by
  induction h with
  | afresh htable h =>
    subst htable
    exact h.wellStacked ht (opened_wellStacked (fun _ hc => by cases hc))
  | resumed _ htable h ih =>
    subst htable
    refine h.wellStacked ht (opened_wellStacked (fun c hc => ?_))
    exact Option.some.inj hc ▸ ih.resumable

lemma opened_neighbours {t : NodeTable} {c : Option Continuation} {assembled : List String}
    (h : ∀ c', c = some c' → Neighbours g drafts c'.frames) :
    Neighbours g drafts (State.opened t c assembled).stack := by
  obtain ⟨stack,hopened,hstack⟩ := exists_opened_eq t c assembled
  rw [hopened]
  rcases hstack with rfl | ⟨c',rfl,-,rfl⟩
  · exact List.isChain_singleton _
  · exact h c' rfl

/-- Each open mode is inside the one below it. -/
lemma Reaches.neighbours {t : NodeTable} (hg : g.assemble = .ok t) (hs : walk g = .ok drafts)
    (hnests : g.NestsApart) (h : Reaches t env s) : Neighbours g drafts s.stack := by
  induction h with
  | afresh htable h =>
    subst htable
    exact h.keepsNeighbours hg hs hnests (opened_neighbours (fun _ hc => by cases hc))
  | resumed _ htable h ih =>
    subst htable
    refine h.keepsNeighbours hg hs hnests (opened_neighbours (fun c hc => ?_))
    exact Option.some.inj hc ▸ ih

end Reached

section Ends

/-- The innermost mode and, as long as each ends with its parent, those around it. -/
def endChain (env : Env) : List Frame → List Frame
  | [] => []
  | f :: rest => f :: if (env.switches f.node).endsWithParent then endChain env rest else []

/-- The innermost of the modes in a chain whose own end matches at a position, the modes inside of it and
those around it. -/
structure IsInnermostEnd (g : Grammar) (env : Env) (position : Nat) (stack above : List Frame) (f : Frame)
    (below : List Frame) : Prop where
  stack : stack = above ++ f :: below
  above : ∀ a ∈ above, (env.switches a.node).endsWithParent = true ∧
    ¬ OwnEndsAt g a.node env.text position
  ends : OwnEndsAt g f.node env.text position

/-- A node whose own end needs backtracking. -/
def Backtracks (g : Grammar) (id : NodeId) : Prop :=
  ∃ own r, OwnEnd g id own ∧ Regex.compileRule own g.ignoreCase = .ok r ∧ r.plain = false

lemma mem_endChain (h : ∀ a ∈ above, (env.switches a.node).endsWithParent = true) :
    ∀ a ∈ above ++ [f], a ∈ endChain env (above ++ f :: below) := by
  induction above with
  | nil =>
    intro a ha
    rw [List.mem_singleton.mp ha]
    exact List.mem_cons_self
  | cons b above ih =>
    intro a ha
    rw [List.cons_append,endChain,if_pos (h b List.mem_cons_self)]
    rcases List.mem_cons.mp ha with rfl | ha
    · exact List.mem_cons_self
    · exact List.mem_cons_of_mem b (ih (fun a ha => h a (List.mem_cons_of_mem b ha)) a ha)

lemma endsAt_of_delimiter (h : f.delimiter = none) :
    endsAt env f q = match (env.table.node f.node).endRegex with
      | some r => r.matchesIn env.text q
      | none => .ok false := by
  rw [endsAt,h]
  rfl

/-- The test for the end of an open mode tells whether its own end matches, if the end looks ahead. -/
lemma endsAt_iff (hg : g.assemble = .ok env.table) (hends : g.EndsApart)
    (hahead : g.EndsLookAhead named) (hf : IsInner env.table.size f.node) (hdelimiter : f.delimiter = none)
    (hq : q ≤ env.text.size) :
    (∃ ends, endsAt env f q = .ok ends ∧ (ends = true ↔ OwnEndsAt g f.node env.text q)) ∨
      endsAt env f q = .error .gaveUp ∧ Backtracks g f.node := by
  rw [endsAt_of_delimiter hdelimiter]
  rcases endRegex_of_isInner hg hf with ⟨hnone,hown⟩ | ⟨own,r,hown,hunique,hr,hregex⟩
  · rw [hnone]
    exact .inl ⟨false,rfl,(fun h => by cases h),fun ⟨own,h,_⟩ => absurd h (hown own)⟩
  · rw [hregex]
    obtain ⟨p,m,hm,hend⟩ := hown
    obtain ⟨hfits,hroom,hlooks⟩ := hahead m hm.mem_innerModes own hend
    obtain ⟨grouped,hends⟩ := hends
    obtain ⟨r',hr'⟩ := (hends m hm.mem_innerModes own hend).compiles
    have hown : OwnEndsAt g f.node env.text q ↔ MatchesAt own g.ignoreCase env.text q :=
      ⟨fun ⟨own',h,hmatch⟩ => hunique own' h ▸ hmatch,
        fun hmatch => ⟨own,⟨p,m,hm,hend⟩,hmatch⟩⟩
    rcases matchesIn_anchored hr' hfits hroom hr hq with ⟨ends,hsearch,hmatch⟩ | ⟨hsearch,hplain⟩
    · exact .inl ⟨ends,hsearch,by rw [hmatch,hlooks env.text q hq,hown]⟩
    · exact .inr ⟨hsearch,own,r',⟨p,m,hm,hend⟩,hr',hplain⟩

/-- Where the end rule of the innermost mode matches, the own end of a mode in its chain does. The
induction goes outwards. -/
lemma exists_isInnermostEnd (hg : g.assemble = .ok env.table) (hs : walk g = .ok drafts)
    (hends : g.EndsApart) (hinner : ∀ f ∈ inner, IsInner env.table.size f.node)
    (hneighbours : Neighbours g drafts (inner ++ [.top])) (hq : q ≤ env.text.size)
    (h : ∀ f rest, inner ++ [.top] = f :: rest → env.table.EndsAt f.node env.text q) :
    ∃ above f below, IsInnermostEnd g env q (inner ++ [.top]) above f below ∧
      ∀ a ∈ above ++ [f], a ∈ inner := by
  induction inner with
  | nil =>
    have hroot : ¬ IsInner env.table.size rootNode := fun h => h.1 rfl
    obtain ⟨hne,-⟩ := (endsAt_iff_endText hg).mp (h .top [] rfl)
    exact absurd (endText_eq_empty hg hroot) hne
  | cons f inner ih =>
    by_cases hown : OwnEndsAt g f.node env.text q
    · refine ⟨[],f,inner ++ [.top],⟨rfl,(fun _ ha => by cases ha),hown⟩,fun a ha => ?_⟩
      rw [List.mem_singleton.mp ha]
      exact List.mem_cons_self
    · have hbelow : ∀ b rest, inner ++ [.top] = b :: rest →
          (env.switches f.node).endsWithParent = true ∧ env.table.EndsAt b.node env.text q := by
        intro b rest hrest
        rw [List.cons_append,hrest] at hneighbours
        have hinside := (List.isChain_cons_cons.mp hneighbours).1
        exact endsAt_below hg hs hends hinside (hinner f List.mem_cons_self) hq (h f _ rfl) hown
      obtain ⟨above,f',below,hin,hmem⟩ := ih (fun a ha => hinner a (List.mem_cons_of_mem f ha))
        hneighbours.tail (fun b rest hrest => (hbelow b rest hrest).2)
      have hparent : (env.switches f.node).endsWithParent = true := by
        cases hrest : inner ++ [Frame.top] with
        | nil => simp at hrest
        | cons b rest => exact (hbelow b rest hrest).1
      refine ⟨f :: above,f',below,⟨?_,?_,hin.ends⟩,?_⟩
      · rw [List.cons_append,hin.stack]
        rfl
      · intro a ha
        rcases List.mem_cons.mp ha with rfl | ha
        · exact ⟨hparent,hown⟩
        · exact hin.above a ha
      · intro a ha
        rcases List.mem_cons.mp ha with rfl | ha
        · exact List.mem_cons_self
        · exact List.mem_cons_of_mem f (hmem a ha)

/-- Tests that tell the own ends close the modes down to the innermost one of those that end. -/
lemma closing_of_isInnermostEnd (h : IsInnermostEnd g env q stack above f below)
    (htests : ∀ a ∈ above ++ [f],
      (∃ ends, endsAt env a q = .ok ends ∧ (ends = true ↔ OwnEndsAt g a.node env.text q)) ∨
        endsAt env a q = .error .gaveUp ∧ Backtracks g a.node) :
    closing env q stack = .ok (some (above ++ widen env f below)) ∨
      closing env q stack = .error .gaveUp ∧ ∃ a ∈ above ++ [f], Backtracks g a.node := by
  obtain ⟨rfl,habove,hf⟩ := h
  induction above with
  | nil =>
    rcases htests f List.mem_cons_self with ⟨ends,htest,hends⟩ | ⟨htest,hback⟩
    · obtain rfl := hends.mpr hf
      exact .inl (by simp only [List.nil_append,closing,htest]; rfl)
    · exact .inr ⟨by simp only [List.nil_append,closing,htest]; rfl,f,List.mem_cons_self,hback⟩
  | cons b above ih =>
    obtain ⟨hparent,hown⟩ := habove b List.mem_cons_self
    rcases htests b List.mem_cons_self with ⟨ends,htest,hends⟩ | ⟨htest,hback⟩
    · obtain rfl : ends = false := Bool.eq_false_iff.mpr (fun htrue => hown (hends.mp htrue))
      have hstep : closing env q (b :: above ++ f :: below) =
          (closing env q (above ++ f :: below)).map (·.map (b :: ·)) := by
        rw [List.cons_append,closing,htest]
        simp only [bind,Except.bind,Bool.false_eq_true,if_false,hparent,if_true]
        cases closing env q (above ++ f :: below) with
        | error e => rfl
        | ok closed => rfl
      rw [hstep]
      rcases ih (fun a ha => htests a (List.mem_cons_of_mem b ha))
        (fun a ha => habove a (List.mem_cons_of_mem b ha)) with hclosed | ⟨hgave,a,ha,hback⟩
      · exact .inl (by rw [hclosed]; rfl)
      · exact .inr ⟨by rw [hgave]; rfl,a,List.mem_cons_of_mem b ha,hback⟩
    · exact .inr ⟨by rw [List.cons_append,closing,htest]; rfl,b,List.mem_cons_self,hback⟩

end Ends

lemma ignoreCase_of_ruleSet (hg : g.assemble = .ok env.table)
    {rule : Rule} (hrule : rule ∈ (s.ruleSet env).rules) :
    (s.ruleSet env).ignoreCase = env.table.ignoreCase := by
  obtain ⟨drafts,-,-,hnode⟩ := Grammar.node_of_assemble hg
  rcases hnode s.top with ⟨-,hdefault⟩ | ⟨d,-,hof⟩
  · have hset : s.ruleSet env = default := congrArg Node.rules hdefault
    rw [hset] at hrule
    cases hrule
  · rw [ignoreCase_of_assemble hg]
    exact RuleSet.ignoreCase_of_build (drafted_of_nodeOf hof).rules

/-- Where a search finds an end, the end rule of the innermost mode matches. -/
lemma endsAt_of_nextMatch (hg : g.assemble = .ok env.table)
    (hrules : Combinable (s.ruleSet env).rules (s.ruleSet env).ignoreCase named)
    (hnext : (nextMatch env).run s = (.ok (some m),s₁)) (hkind : m.kind = .ends) :
    m.start ≤ env.text.size ∧ env.table.EndsAt s.top env.text m.start := by
  have hexec : (s.ruleSet env).exec env.text s.position s.firstRule = .ok (some m) :=
    ((nextMatch_searches env s).ok hnext).1
  have hfires : Answers (s.ruleSet env).rules (s.ruleSet env).ignoreCase env.text s.position s.firstRule
      ((s.ruleSet env).exec env.text s.position s.firstRule) :=
    Grammar.exec_answers hg hrules s.position s.firstRule
  rw [hexec] at hfires
  obtain ⟨rule,hrule,hends⟩ := Option.map_eq_some_iff.mp (hfires.kind.trans (congrArg some hkind))
  have hmem := List.mem_of_getElem? hrule
  refine ⟨hfires.start_le_size,rule,endRule?_of_mem hg hmem hends,?_⟩
  rw [← ignoreCase_of_ruleSet hg hmem,← isSome_end?_iff]
  have hstop := hfires.stop
  rw [endAt?,hrule] at hstop
  exact Option.isSome_iff_exists.mpr ⟨m.stop,hstop⟩

/-- An end match closes at least one mode: those down to the innermost one, of those that the end may be
left to, whose own end matches where the match starts, and those that it takes with it. It does so
unless that search is given up, for want of a budget that the own end of such a mode needs. -/
def ClosesInnermost (g : Grammar) (env : Env) (m : RuleMatch) (stack : List Frame) (s : State) : Prop :=
  ∃ above f below wider rest, IsInnermostEnd g env m.start stack above f below ∧
    widen env f below = f :: wider ∧ stack = above ++ f :: wider ++ rest ∧
    (((reactToEnd env m).run s = (close env m (above ++ f :: wider)).run s ∧
        ∀ moved s', (reactToEnd env m).run s = (.ok moved,s') →
          Uncovers env (above ++ f :: wider) rest s'.stack) ∨
      ((reactToEnd env m).run s).1 = .error (.fault .searchGaveUp) ∧
        ∃ a ∈ above ++ [f], Backtracks g a.node)

/-- Where the end rule of the innermost mode matches, modes close, if the own ends look ahead only. -/
theorem reactToEnd_closes (hg : g.assemble = .ok env.table) (hends : g.EndsApart) (hnests : g.NestsApart)
    (hahead : g.EndsLookAhead named) (hs : Reaches env.table env s)
    (hrules : Combinable (s.ruleSet env).rules (s.ruleSet env).ignoreCase named')
    (hnext : (nextMatch env).run s = (.ok (some m),s₁)) (hkind : m.kind = .ends)
    (hdelimiters : ∀ f ∈ endChain env s.stack, f.delimiter = none) (hs' : s'.stack = s.stack) :
    ClosesInnermost g env m s.stack s' := by
  obtain ⟨hstart,htop⟩ := endsAt_of_nextMatch hg hrules hnext hkind
  obtain ⟨drafts,hdrafts,-⟩ := Grammar.node_of_assemble hg
  obtain ⟨placed,hwalk,-⟩ := draftAll_eq_ok.mp hdrafts
  obtain ⟨inner,hstacked⟩ := hs.wellStacked (Grammar.assemble_closed hg)
  have hneighbours := hs.neighbours hg hwalk hnests
  rw [hstacked.stack] at hneighbours
  have hfirst : ∀ f rest, inner ++ [.top] = f :: rest → env.table.EndsAt f.node env.text m.start := by
    intro f rest hrest
    rw [State.top,hstacked.stack,hrest] at htop
    exact htop
  obtain ⟨above,f,below,hin,hmem⟩ :=
    exists_isInnermostEnd hg hwalk hends hstacked.isInner hneighbours hstart hfirst
  rw [← hstacked.stack] at hin
  obtain ⟨wider,rest,hwider,hbelow⟩ := exists_widen env f below
  have hstack : s.stack = above ++ f :: wider ++ rest := by
    rw [hin.stack,hbelow,List.append_assoc]
  have htests : ∀ a ∈ above ++ [f], (∃ ends, endsAt env a m.start = .ok ends ∧
      (ends = true ↔ OwnEndsAt g a.node env.text m.start)) ∨
        endsAt env a m.start = .error .gaveUp ∧ Backtracks g a.node := by
    intro a ha
    have hchain : a ∈ endChain env (above ++ f :: below) :=
      mem_endChain (fun a ha => (hin.above a ha).1) a ha
    rw [← hin.stack] at hchain
    exact endsAt_iff hg hends hahead (hstacked.isInner a (hmem a ha)) (hdelimiters a hchain) hstart
  refine ⟨above,f,below,wider,rest,hin,hwider,hstack,?_⟩
  rw [run_reactToEnd,hs']
  rcases closing_of_isInnermostEnd hin htests with hclosed | ⟨hgave,hback⟩
  · rw [hclosed,hwider]
    have hrun : (Action.ofSearch (.ok (some (above ++ f :: wider))) >>= fun closed =>
        closed.elim (keepLexeme env m) (close env m)).run s' =
          (close env m (above ++ f :: wider)).run s' := Action.run_bind_ok rfl
    refine .inl ⟨hrun,fun moved s₂ hok => ?_⟩
    exact (close_uncovers (hs'.trans hstack)).ok (hrun.symm.trans hok)
  · rw [hgave]
    exact .inr ⟨Action.run_bind_error rfl,hback⟩

section Runs

variable {code : String} {n : Nat} {nodes : List NodeId} {rules : List Rule}
  {closed : Option (List NodeId)}

lemma mem_of_mem_endChain {a : Frame} (h : a ∈ endChain env stack) : a ∈ stack := by
  induction stack with
  | nil => cases h
  | cons b stack ih =>
    rw [endChain] at h
    rcases List.mem_cons.mp h with rfl | h
    · exact List.mem_cons_self
    · split at h
      · exact List.mem_cons_of_mem b (ih h)
      · cases h

/-- A state of a scan of a text on its own, in which an end is found. -/
structure EndFound (g : Grammar) (code : String) (nodes : List NodeId) (rules : List Rule)
    (m : RuleMatch) (closed : Option (List NodeId)) (env : Env) (s : State) : Prop where
  assembled : g.assemble = .ok env.table
  text : env.text = .ofString code
  reaches : Reaches env.table env s
  nodes : s.stack.map Frame.node = nodes
  delimiters : ∀ f ∈ endChain env s.stack, f.delimiter = none
  rules : (s.ruleSet env).rules = rules
  ignoreCase : (s.ruleSet env).ignoreCase = false
  next : ∃ s₁, (nextMatch env).run s = (.ok (some m),s₁)
  kind : m.kind = .ends
  closing : ∃ frames, Scan.closing env m.start s.stack = .ok frames ∧
    frames.map (·.map Frame.node) = closed

lemma exists_endFound (hkind : m.kind = .ends)
    (h : sights g code n m (fun table s _ _ =>
      let env := Env.alone table code
      decide (s.stack.map Frame.node = nodes ∧ s.stack.all (·.delimiter.isNone) = true ∧
        (s.ruleSet env).rules = rules ∧ (s.ruleSet env).ignoreCase = false ∧
        (closing env m.start s.stack).toOption.map (·.map (·.map Frame.node)) = some closed)) = true) :
    ∃ env s, EndFound g code nodes rules m closed env s := by
  obtain ⟨table,s,_,_,hs,h⟩ := exists_sights h
  obtain ⟨hnodes,hdelimiters,hrules,hcase,hclosing⟩ := of_decide_eq_true h
  obtain ⟨frames,hframes,hclosed⟩ := Option.map_eq_some_iff.mp hclosing
  refine ⟨Env.alone table code,s,hs.assembled,rfl,.afresh rfl hs.after.visits,hnodes,fun f hf => ?_,hrules,hcase,
    exists_run_of_ok hs.next,hkind,frames,except_eq_ok_of_toOption hframes,hclosed⟩
  exact Option.isNone_iff_eq_none.mp (List.all_eq_true.mp hdelimiters f (mem_of_mem_endChain hf))

/-- The end of the outer mode is left to it by the inner one, which ends with it. -/
theorem reactToEnd_closes_nested : ∃ (env : Env) (s s₁ : State) (m : RuleMatch),
    (nested "a" ">").assemble = .ok env.table ∧
      (nested "a" ">").EndsApart ∧ (nested "a" ">").NestsApart ∧ (nested "a" ">").EndsLookAhead false ∧
      Reaches env.table env s ∧ Combinable (s.ruleSet env).rules (s.ruleSet env).ignoreCase false ∧
      (nextMatch env).run s = (.ok (some m),s₁) ∧ m.kind = .ends ∧
      (∀ f ∈ endChain env s.stack, f.delimiter = none) ∧
      ClosesInnermost (nested "a" ">") env m s.stack s := by
  obtain ⟨env,s,h⟩ : ∃ env s, EndFound (nested "a" ">") "<:x>" [2,1,0] [⟨"a|>",.ends⟩] ⟨3,4,.ends,0⟩ (some [2,1])
      env s := exists_endFound (n := 2) rfl (by decide +kernel)
  obtain ⟨s₁,hnext⟩ := h.next
  have hends : (nested "a" ">").EndsApart := Grammar.EndsGroupless.endsApart (by decide +kernel)
  have hnests : (nested "a" ">").NestsApart := by decide +kernel
  have hahead : (nested "a" ">").EndsLookAhead false := .of_endsAskAhead (by decide +kernel)
  have hrules : Combinable (s.ruleSet env).rules (s.ruleSet env).ignoreCase false := by
    rw [h.rules,h.ignoreCase]
    exact .of_isCombinable (by decide +kernel)
  have hcloses : ClosesInnermost (nested "a" ">") env _ s.stack s :=
    reactToEnd_closes h.assembled hends hnests hahead h.reaches hrules hnext h.kind h.delimiters rfl
  exact ⟨env,s,s₁,_,h.assembled,hends,hnests,hahead,h.reaches,hrules,hnext,h.kind,h.delimiters,hcloses⟩

/-- A mode whose end is to follow a letter. -/
def afterLetter : Mode where
  className := some "x"
  beginPattern := some "<"
  endPattern := some "(?<=a)>"

/-- A grammar of such a mode. -/
def lagging : Grammar where
  name := "lagging"
  root := { contains := some [.mode 0] }
  modes := #[afterLetter]

/-- The end is found and is the mode's own, but nothing closes: the test does not see the letter. -/
theorem exists_end_closes_nothing : ∃ (env : Env) (s s₁ : State) (m : RuleMatch),
    lagging.assemble = .ok env.table ∧ env.text = .ofString "<a>b" ∧ Reaches env.table env s ∧
      (nextMatch env).run s = (.ok (some m),s₁) ∧ m.kind = .ends ∧
      (∀ f ∈ endChain env s.stack, f.delimiter = none) ∧ OwnEndsAt lagging s.top env.text m.start ∧
      ∀ s', s'.stack = s.stack → (reactToEnd env m).run s' = (keepLexeme env m).run s' := by
  obtain ⟨env,s,h⟩ : ∃ env s, EndFound lagging "<a>b" [1,0] [⟨"(?<=a)>",.ends⟩] ⟨2,3,.ends,0⟩ none env s :=
    exists_endFound (n := 1) rfl (by decide +kernel)
  obtain ⟨s₁,hnext⟩ := h.next
  have hcompiled : CompiledUnder lagging 0 afterLetter 1 :=
    .of_walk (.table 0) (fun h => by cases h) rfl (by decide +kernel)
  have htop : s.top = 1 := by
    rw [State.top,← List.head?_map,h.nodes]
    rfl
  have hmatch : MatchesAt "(?<=a)>" false (.ofString "<a>b") 2 := by decide +kernel
  refine ⟨env,s,s₁,_,h.assembled,h.text,h.reaches,hnext,h.kind,h.delimiters,?_,fun s' hs' => ?_⟩
  · rw [htop,h.text]
    exact ⟨_,⟨0,afterLetter,hcompiled,rfl⟩,hmatch⟩
  · obtain ⟨frames,hframes,hnone⟩ := h.closing
    obtain rfl := Option.map_eq_none_iff.mp hnone
    rw [run_reactToEnd,hs',hframes]
    exact Action.run_bind_ok rfl

end Runs
end Highlight.Scan
