import Highlight.Proofs.Assembly.Consuming
import Highlight.Proofs.Scan.Closing
import Highlight.Proofs.Scan.Gains

/-!
The headway of a scan. Where begins and given ends match no empty text, a step takes a character in or
closes a mode, which some character was taken in to open. So a scan takes at most two steps for each
character, and the check for scans that run away never stops it.
-/
namespace Highlight

/-- In the rules of all nodes the patterns mean what they mean alone, and so they do in the end rules that
nodes take over. -/
structure Grammar.ReadsApart (g : Grammar) (t : NodeTable) : Prop where
  rules : ∀ node ∈ t.nodes, ∃ named, Rules.Combinable node.rules.rules node.rules.ignoreCase named
  ends : g.EndsApart

lemma Rules.combinable_nil (ic named : Bool) : Combinable [] ic named :=
  .of_isCombinable (by cases ic <;> cases named <;> rfl)

lemma Grammar.ReadsApart.combinable {g : Grammar} {t : NodeTable} (h : g.ReadsApart t) (id : NodeId) :
    ∃ named, Rules.Combinable (t.node id).rules.rules (t.node id).rules.ignoreCase named := by
  rcases t.node_mem_or_default id with hmem | hdefault
  · exact h.rules _ hmem
  · rw [hdefault]
    exact ⟨false,Rules.combinable_nil _ _⟩

namespace Scan

open Assembly Rules Highlight.Scan.Action

variable {g : Grammar} {env : Env} {s s' s₁ : State} {m : RuleMatch} {n : Nat} {drafts : Drafts}
  {inner : List Frame} {position : Nat} {assembled : List String}

section Matches

/-- Where the end rule of the innermost mode may match the empty text, an end there closes modes. The
induction goes outwards, to the mode that ends at once. -/
lemma closing_ne_none (hg : g.assemble = .ok env.table) (hs : walk g = .ok drafts) (hends : g.EndsApart)
    (hc : g.Consuming) (hinner : ∀ f ∈ inner, IsInner env.table.size f.node)
    (hneighbours : Neighbours g drafts (inner ++ [.top])) (hdelimited : Delimited env (inner ++ [.top]))
    (hposition : position ≤ env.text.size)
    (h : ∀ f rest, inner ++ [.top] = f :: rest → env.table.MayEndEmpty f.node) :
    closing env position (inner ++ [.top]) ≠ .ok none := by
  induction inner with
  | nil =>
    have hroot : ¬ IsInner env.table.size rootNode := fun h => h.1 rfl
    exact absurd (endText_eq_empty hg hroot) (h .top [] rfl).ends
  | cons f inner ih =>
    have hf := hinner f List.mem_cons_self
    intro hnone
    rw [List.cons_append,closing,except_bind_eq_ok] at hnone
    obtain ⟨ends,hat,hnone⟩ := hnone
    by_cases honce : ClosesAtOnce g f.node
    · obtain ⟨hsame,r,hr,hmatch⟩ := honce.matchesIn hg hf
      have hdelimiter : f.delimiter = none := by
        by_contra hsome
        exact Bool.false_ne_true (hsame.symm.trans (hdelimited f List.mem_cons_self hsome))
      rw [endsAt_of_delimiter hdelimiter,hr] at hat
      obtain rfl : true = ends := Except.ok.inj ((hmatch env.text position hposition).symm.trans hat)
      cases hnone
    · have hbelow : ∀ b rest, inner ++ [.top] = b :: rest →
          (env.switches f.node).endsWithParent = true ∧ env.table.MayEndEmpty b.node := by
        intro b rest hrest
        rw [List.cons_append,hrest] at hneighbours
        exact mayEndEmpty_below hg hs hends hc (List.isChain_cons_cons.mp hneighbours).1 hf (h f _ rfl) honce
      have hparent : (env.switches f.node).endsWithParent = true := by
        cases hrest : inner ++ [Frame.top] with
        | nil => simp at hrest
        | cons b rest => exact (hbelow b rest hrest).1
      split at hnone
      · cases hnone
      · rw [except_bind_eq_ok] at hnone
        obtain ⟨closed?,hclosed,hnone⟩ := hnone
        obtain rfl := Option.map_eq_none_iff.mp (Except.ok.inj hnone)
        exact ih (fun a ha => hinner a (List.mem_cons_of_mem f ha)) hneighbours.tail
          (fun a ha => hdelimited a (List.mem_cons_of_mem f ha)) (fun b rest hrest => (hbelow b rest hrest).2)
          hclosed

/-- What a search finds in a scan that started afresh, a reaction gains by. -/
theorem feeds_of_nextMatch (hg : g.assemble = .ok env.table) (hdirect : env.table.IsDirect)
    (hc : g.Consuming) (hapart : g.ReadsApart env.table)
    (hs : Visits env (.opened env.table none assembled) s) (hdelimited : Delimited env s.stack)
    (hnext : (nextMatch env).run s = (.ok (some m),s₁)) : Feeds env m s.stack := by
  obtain ⟨named,hrules⟩ := hapart.combinable s.top
  have hrules : Combinable (s.ruleSet env).rules (s.ruleSet env).ignoreCase named := hrules
  have hexec : (s.ruleSet env).exec env.text s.position s.firstRule = .ok (some m) :=
    ((nextMatch_searches env s).ok hnext).1
  have hfires : Answers (s.ruleSet env).rules (s.ruleSet env).ignoreCase env.text s.position s.firstRule
      ((s.ruleSet env).exec env.text s.position s.firstRule) :=
    Grammar.exec_answers hg hrules s.position s.firstRule
  rw [hexec] at hfires
  have hcase : ∀ rule ∈ (s.ruleSet env).rules, (s.ruleSet env).ignoreCase = g.ignoreCase :=
    fun rule hrule => (ignoreCase_of_ruleSet hg hrule).trans (ignoreCase_of_assemble hg)
  refine ⟨(RuleSet.exec_within hexec).start_le_stop,fun hbegin => ?_,fun hkind hempty => ?_⟩
  · refine Consumes.start_lt_stop (fun rule hrule hkind => ?_) hfires
    obtain ⟨id,hid⟩ : ∃ id, m.kind = .begins id := by
      unfold RuleMatch.isBegin at hbegin
      split at hbegin
      · exact ⟨_,‹_›⟩
      · cases hbegin
    obtain ⟨p,mode,hmode,hpattern⟩ := exists_compiledUnder_of_begins hg hrule (hkind.trans hid)
    rw [hpattern,hcase rule hrule]
    exact hc.begins p mode id hmode
  · obtain ⟨hstart,htop⟩ := endsAt_of_nextMatch hg hrules hnext hkind
    have hmay : env.table.MayEndEmpty s.top := by
      refine ⟨((endsAt_iff_endText hg).mp htop).1,fun hconsumes => ?_⟩
      refine Nat.ne_of_lt (Consumes.start_lt_stop (fun rule hrule hends => ?_) hfires) hempty
      have htext : env.table.endText s.top = rule.pattern := by
        rw [NodeTable.endText,endRule?_of_mem hg hrule (hends.trans hkind)]
        rfl
      rw [← htext,hcase rule hrule,← ignoreCase_of_assemble hg]
      exact hconsumes
    obtain ⟨drafts,hdrafts,-⟩ := Grammar.node_of_assemble hg
    obtain ⟨placed,hwalk,-⟩ := draftAll_eq_ok.mp hdrafts
    obtain ⟨inner,hinner⟩ := hs.wellStacked (Grammar.assemble_closed hg)
      (opened_wellStacked (fun _ h => by cases h))
    have hopened : Neighbours g placed (State.opened env.table none assembled).stack :=
      List.isChain_singleton Frame.top
    have hneighbours := hs.neighbours_of_followers hg hwalk
      (fun id next _ hstarts => absurd (hstarts.symm.trans (hdirect.node id).starts) (Option.some_ne_none next))
      hopened
    have hfirst : ∀ f rest, inner ++ [.top] = f :: rest → env.table.MayEndEmpty f.node := by
      intro f rest hrest
      rw [State.top,hinner.stack,hrest] at hmay
      exact hmay
    rw [hinner.stack] at hneighbours hdelimited ⊢
    exact closing_ne_none hg hwalk hapart.ends hc hinner.isInner hneighbours hdelimited hstart hfirst

end Matches

section Runs

/-- A scan keeps pace if it has taken at most two steps for each character, less one for each open mode.
The begin that it handled last lies behind it. -/
structure Paced (env : Env) (n : Nat) (s : State) : Prop where
  steps : n + s.stack.length ≤ 2 * s.position + 1
  last : ∀ m, s.last = some m → m.isBegin = true → m.start < s.position
  delimiters : Delimited env s.stack

lemma Paced.stalls_eq_false (h : Paced env n s) (hm : s.position ≤ m.start) : stalls s.last m = false := by
  cases hlast : s.last with
  | none => rfl
  | some last =>
    rw [stalls.eq_def]
    dsimp only
    cases hbegin : last.isBegin with
    | false => rfl
    | true =>
      have hbefore : (last.start == m.start) = false :=
        beq_false_of_ne (Nat.ne_of_lt (Nat.lt_of_lt_of_le (h.last last hlast hbegin) hm))
      rw [hbefore,Bool.and_false,Bool.false_and]

/-- The step after those that a scan has taken is not one too many. -/
lemma Paced.isRunaway_eq_false (h : Paced env n s) (hs : WellStacked env s) (hm : s.position ≤ m.start) :
    isRunaway env (n + 1) m.start = false := by
  obtain ⟨inner,hinner⟩ := hs
  have hopen : s.stack.length = inner.length + 1 := by rw [hinner.stack,List.length_append]; rfl
  have hsteps := h.steps
  refine Bool.eq_false_iff.mpr (fun hrunaway => ?_)
  simp only [isRunaway,Bool.and_eq_true,decide_eq_true_eq] at hrunaway
  have hfree : 0 < freeSteps := by decide
  omega

/-- What a reaction gains keeps pace with the step. -/
lemma Gains.paced {moved : Nat} (h : Gains env m { s with last := some m } moved s') (hs : Paced env n s)
    (hm : s.position ≤ m.start) : Paced env (n + 1) { s' with position := m.start + moved } where
  steps := by
    have hpace : s'.stack.length + 1 ≤ s.stack.length + 2 * moved := h.pace
    have hsteps := hs.steps
    dsimp only
    omega
  last := by
    intro m' hm' hbegin
    obtain rfl := Option.some.inj (h.last.symm.trans hm')
    exact Nat.lt_add_of_pos_right (h.begins hbegin)
  delimiters := h.delimiters hs.delimiters

lemma react_paced (hdirect : env.table.IsDirect) (h : Paced env n s) (hm : s.position ≤ m.start)
    (hfeeds : Feeds env m s.stack) : (react env m).Ensures s
      (fun moved s' => Paced env (n + 1) { s' with position := m.start + moved })
      (fun halt _ => ¬ halt.IsStall) := by
  have hstalls := h.stalls_eq_false hm
  exact ((react_gains hdirect hfeeds hstalls).and (react_neverStalls hstalls)).mono
    (fun _ _ hreact => hreact.1.paced h hm) (fun _ _ hreact => hreact.2)

/-- A step keeps pace, and does not halt for want of headway. -/
lemma step_paced (hdirect : env.table.IsDirect) (hs : WellStacked env s) (h : Paced env n s)
    (hgives : ∀ halt s₁, (nextMatch env).run s = (.error halt,s₁) → ¬ halt.IsStall)
    (hfeeds : ∀ m s₁, (nextMatch env).run s = (.ok (some m),s₁) → Feeds env m s.stack) :
    (step env (n + 1)).Ensures s (fun goesOn s' => goesOn = true → Paced env (n + 1) s')
      (fun halt _ => ¬ halt.IsStall) := by
  rw [step,ensures_bind]
  refine ensures_of_run (fun found s₁ hnext => ?_) hgives
  obtain ⟨⟨resumeAt,rfl⟩,first,hexec⟩ := (nextMatch_ensures env s).ok hnext
  cases found with
  | none => exact fun hgoes => absurd hgoes Bool.false_ne_true
  | some m =>
    have hm : s.position ≤ m.start := (RuleSet.exec_within hexec).start_le
    have hpaced : Paced env n { s with
        buffer := s.buffer ++ env.text.slice s.position m.start, resumeAt, stays := false } :=
      ⟨h.steps,h.last,h.delimiters⟩
    dsimp only
    rw [h.isRunaway_eq_false hs hm,if_neg Bool.false_ne_true,ensures_bind,ensures_get,ensures_bind,
      ensures_append,ensures_bind]
    exact (react_paced hdirect hpaced hm (hfeeds m _ hnext)).mono (fun _ _ h _ => h) (fun _ _ h => h)

/-- A search gives up at the most. -/
lemma not_isStall_of_nextMatch (hg : g.assemble = .ok env.table) (hapart : g.ReadsApart env.table) {halt : Halt}
    (hnext : (nextMatch env).run s = (.error halt,s₁)) : ¬ halt.IsStall := by
  obtain ⟨named,hrules⟩ := hapart.combinable s.top
  obtain ⟨fault,rfl,hexec⟩ := (nextMatch_searches env s).error hnext
  have hanswers : Answers (s.ruleSet env).rules (s.ruleSet env).ignoreCase env.text s.position s.firstRule
      ((s.ruleSet env).exec env.text s.position s.firstRule) :=
    Grammar.exec_answers hg hrules s.position s.firstRule
  rw [hexec] at hanswers
  rw [hanswers.1]
  exact id

variable (assembled) in
lemma opened_paced : Paced env 0 (.opened env.table none assembled) where
  steps := Nat.le_refl 1
  last := nofun
  delimiters f hf hdelimiter := by
    obtain rfl := List.mem_singleton.mp hf
    exact absurd rfl hdelimiter

/-- A scan that starts afresh keeps pace for as long as it goes on. -/
theorem After.paced (hg : g.assemble = .ok env.table) (hdirect : env.table.IsDirect) (hc : g.Consuming)
    (hapart : g.ReadsApart env.table) (h : After env (.opened env.table none assembled) n s) :
    Paced env n s := by
  induction h with
  | start => exact opened_paced assembled
  | step h hs ih =>
    have hstacked := h.visits.wellStacked (Grammar.assemble_closed hg) (opened_wellStacked (fun _ h => by cases h))
    exact (step_paced hdirect hstacked ih (fun _ _ => not_isStall_of_nextMatch hg hapart)
      (fun _ _ => feeds_of_nextMatch hg hdirect hc hapart h.visits ih.delimiters)).ok hs rfl

/-- A scan that the checks for want of headway never stop: it takes at most two steps for each character
before the cursor, so that none of its steps is too many, and no empty end follows an empty begin. -/
structure MakesHeadway (env : Env) (s₀ : State) : Prop where
  steps : ∀ n s, After env s₀ n s → n ≤ 2 * s.position
  runaway : ∀ n s m s₁, After env s₀ n s → (nextMatch env).run s = (.ok (some m),s₁) →
    isRunaway env (n + 1) m.start = false
  stalls : ∀ n s m s₁, After env s₀ n s → (nextMatch env).run s = (.ok (some m),s₁) →
    stalls s₁.last m = false
  outcome : ∀ halt, (run env s₀).1 = .error halt → ¬ halt.IsStall

/-- A scan that starts afresh makes headway if begins and given ends match no empty text. -/
theorem run_makes_headway (hg : g.assemble = .ok env.table) (hdirect : env.table.IsDirect) (hc : g.Consuming)
    (hapart : g.ReadsApart env.table) (assembled : List String) :
    MakesHeadway env (.opened env.table none assembled) := by
  have hstacked : ∀ {n s}, After env (.opened env.table none assembled) n s → WellStacked env s :=
    fun h => h.visits.wellStacked (Grammar.assemble_closed hg) (opened_wellStacked (fun _ h => by cases h))
  refine ⟨fun n s h => ?_,fun n s m s₁ h hnext => ?_,fun n s m s₁ h hnext => ?_,fun halt hrun => ?_⟩
  · obtain ⟨inner,hinner⟩ := hstacked h
    have hsteps := (h.paced hg hdirect hc hapart).steps
    rw [hinner.stack,List.length_append,List.length_singleton] at hsteps
    omega
  · obtain ⟨-,first,hexec⟩ := (nextMatch_ensures env s).ok hnext
    exact (h.paced hg hdirect hc hapart).isRunaway_eq_false (hstacked h) (RuleSet.exec_within hexec).start_le
  · obtain ⟨⟨resumeAt,rfl⟩,first,hexec⟩ := (nextMatch_ensures env s).ok hnext
    exact (h.paced hg hdirect hc hapart).stalls_eq_false (RuleSet.exec_within hexec).start_le
  · obtain ⟨n,-,hends⟩ := run_endsAfter (opened_in_text env none assembled)
    generalize run env (.opened env.table none assembled) = e at hends hrun
    cases hends with
    | halted h hs =>
      obtain rfl := Except.error.inj hrun
      have hpaced := h.paced hg hdirect hc hapart
      exact (step_paced hdirect (hstacked h) hpaced (fun _ _ => not_isStall_of_nextMatch hg hapart)
        (fun _ _ => feeds_of_nextMatch hg hdirect hc hapart h.visits hpaced.delimiters)).error hs
    | @finished s s' => exact (finish_neverStalls env s').error (Prod.ext hrun rfl)

/-- A grammar of angles with notes in them, which end with the angle, and words in those, which end at
once. -/
def annotated : Grammar where
  name := "annotated"
  root := { contains := some [.mode 2] }
  modes := #[
    { className := some "word", beginPattern := some "b" },
    { className := some "note", beginPattern := some ":", contains := some [.mode 0]
      switches := { Switches.unset with endsWithParent := some true } },
    { className := some "angle", beginPattern := some "<", endPattern := some ">"
      contains := some [.mode 1] }]

/-- A text in which the end of an angle closes the note in it as well. -/
theorem run_makes_headway_annotated : ∃ env : Env,
    annotated.assemble = .ok env.table ∧ env.text = .ofString "<:bb>b" ∧ env.table.IsDirect ∧
      annotated.Consuming ∧ annotated.ReadsApart env.table ∧
      MakesHeadway env (.opened env.table none []) := by
  have htable : annotated.assemble.toOption.any (fun t => decide t.IsDirect &&
      t.nodes.all (fun node => isCombinable node.rules.rules node.rules.ignoreCase false)) = true := by
    decide +kernel
  obtain ⟨t,hg,htests⟩ := exists_eq_ok_of_any htable
  obtain ⟨hdirect,hrules⟩ := Bool.and_eq_true_iff.mp htests
  have hdirect : t.IsDirect := of_decide_eq_true hdirect
  have hc : annotated.Consuming := .of_innerModes (by decide +kernel)
  have hapart : annotated.ReadsApart t :=
    ⟨fun node hnode => ⟨false,.of_isCombinable (Array.all_eq_true_iff_forall_mem.mp hrules node hnode)⟩,
      Grammar.EndsGroupless.endsApart (by decide +kernel)⟩
  have hheadway : MakesHeadway (Env.alone t "<:bb>b") (.opened t none []) :=
    run_makes_headway hg hdirect hc hapart []
  exact ⟨Env.alone t "<:bb>b",hg,rfl,hdirect,hc,hapart,hheadway⟩

/-- A grammar of letters with pairs and items in them. A pair begins with a class that starts with a
bracket, so that the parenthesis in it is taken for that of a group. -/
def miscounting : Grammar where
  name := "miscounting"
  root := { contains := some [.mode 2] }
  modes := #[
    { className := some "pair", beginPattern := some "[](]a" },
    { className := some "item", beginPattern := some "x" },
    { className := some "letter", beginPattern := some "m", contains := some [.mode 0,.mode 1] }]

/-- The empty end of the letter is taken for the begin of an item, which would end right there. -/
theorem exists_stalls_miscounting : ∃ env : Env,
    miscounting.assemble = .ok env.table ∧ env.text = .ofString "m" ∧ env.table.IsDirect ∧
      miscounting.Consuming ∧
      (run env (.opened env.table none [])).1 = .error (.fault (.zeroWidthMatch 1)) := by
  have hfault : miscounting.assemble.toOption.any (fun t => decide t.IsDirect &&
      decide ((run { Env.alone t "m" with safeMode := false } (.opened t none [])).1 =
        .error (.fault (.zeroWidthMatch 1)))) = true := by
    decide +kernel
  obtain ⟨t,hg,htests⟩ := exists_eq_ok_of_any hfault
  obtain ⟨hdirect,hrun⟩ := Bool.and_eq_true_iff.mp htests
  exact ⟨_,hg,rfl,of_decide_eq_true hdirect,.of_innerModes (by decide +kernel),of_decide_eq_true hrun⟩

end Runs

end Scan
end Highlight
