import Highlight.Proofs.Calls
import Highlight.Proofs.Scan.Stack

/-!
Continuations that calls hand out. They hold modes as a scan leaves them open, so that a scan that
takes them up, by the same grammar or by another one, keeps its stack in order as well.
-/
namespace Highlight

/-- A continuation of a result of any call, where calls may go on from such continuations. -/
inductive Attained : Continuation → Prop where
  | highlight {h : Highlighter} {depth : Nat} {q : Request} {keys keys' : List String} {r : Result}
      {c : Continuation} (hq : ∀ c, q.continuation = some c → Attained c)
      (hrun : (h.highlightWithin depth q).run keys = (.ok r,keys'))
      (hc : r.continuation = some c) : Attained c
  | detect {h : Highlighter} {candidates : List String} {code : String} {keys keys' : List String}
      {o : Outcome} {r : Result} {c : Continuation}
      (hrun : (h.detectAmong candidates code).run keys = (.ok o,keys'))
      (hr : r = o.best ∨ o.runnerUp = some r) (hc : r.continuation = some c) : Attained c

/-- Modes of some grammar inside the top mode, no more than may be open. -/
def Continuation.Resumable (c : Continuation) : Prop :=
  ∃ inner, c.frames = inner ++ [.top] ∧ (∀ f ∈ inner, f.node ≠ rootNode) ∧
    inner.length ≤ Scan.maxOpenModes

namespace Scan

variable {env : Env} {s : State} {c : Option Continuation} {assembled : List String}

lemma WellStacked.resumable (h : WellStacked env s) : ({ frames := s.stack } : Continuation).Resumable := by
  obtain ⟨inner,h⟩ := h
  exact ⟨inner,h.stack,fun f hf => (h.isInner f hf).1,h.length_le⟩

lemma depth_foldr_openMode (table : NodeTable) (inner : List Frame) :
    (inner.foldr (openMode table) {}).depth = 1 + inner.countP (hasScope table) := by
  induction inner with
  | nil => rfl
  | cons f inner ih => rw [List.foldr_cons,depth_openMode,ih,List.countP_cons,Nat.add_assoc]

/-- A scan starts in the top mode, or in modes of a continuation that fit the table. -/
lemma exists_opened_inner (table : NodeTable) (hc : ∀ c', c = some c' → c'.Resumable) (assembled : List String) :
    ∃ inner, State.opened table c assembled =
        { stack := inner ++ [.top], tree := inner.foldr (openMode table) {}, assembled } ∧
      (∀ f ∈ inner, Assembly.IsInner table.size f.node) ∧ inner.length ≤ maxOpenModes := by
  obtain ⟨stack,hopened,hstack⟩ := exists_opened_eq table c assembled
  rcases hstack with rfl | ⟨c',rfl,hfits,rfl⟩
  · exact ⟨[],hopened,nofun,Nat.zero_le _⟩
  · obtain ⟨inner,hframes,hinner,hlen⟩ := hc c' rfl
    rw [hframes,List.dropLast_concat] at hopened
    refine ⟨inner,hopened,fun f hf => ⟨hinner f hf,?_⟩,hlen⟩
    simp only [Continuation.fits,Bool.and_eq_true,List.all_eq_true,decide_eq_true_eq] at hfits
    exact hfits.2 f (hframes ▸ List.mem_append_left _ hf)

lemma opened_wellStacked (hc : ∀ c', c = some c' → c'.Resumable) :
    WellStacked env (.opened env.table c assembled) := by
  obtain ⟨inner,hopened,hinner,hlen⟩ := exists_opened_inner env.table hc assembled
  rw [hopened]
  exact ⟨inner,rfl,hinner,hlen,depth_foldr_openMode env.table inner⟩

lemma run_wellStacked (ht : env.table.Closed) (hc : ∀ c', c = some c' → c'.Resumable) :
    WellStacked env (run env (.opened env.table c assembled)).2 := by
  obtain ⟨n,-,hends⟩ := run_endsAfter (opened_in_text env c assembled)
  exact (Visits.finished hends).wellStacked ht (opened_wellStacked hc)

end Scan

namespace Highlighter

variable {h : Highlighter}

lemma highlightWithin_resumable (depth : Nat) (q : Request)
    (hq : ∀ c, q.continuation = some c → c.Resumable) :
    (h.highlightWithin depth q).Gives (fun r => ∀ c, r.continuation = some c → c.Resumable) := by
  refine (highlightWithin_gives (P := fun q r => (∀ c, q.continuation = some c → c.Resumable) →
    ∀ c, r.continuation = some c → c.Resumable) (fun run q table htable _ keys r keys' hrun hq c hc => ?_)
    depth q).mono (fun _ hr => hr hq)
  obtain ⟨entry,-,htable⟩ := htable
  obtain ⟨outcome,s,hs,hr⟩ := Scan.exists_run_of_highlight hrun
  have hstack : Scan.WellStacked (h.envFor run table q)
      (Scan.run (h.envFor run table q) (.opened table q.continuation keys)).2 :=
    Scan.run_wellStacked (Grammar.assemble_closed htable) hq
  have hs : Scan.run (h.envFor run table q) (.opened table q.continuation keys) = (outcome,s) := hs
  rw [hs] at hstack
  match outcome with
  | .ok () =>
    cases hr
    exact Option.some.inj hc ▸ hstack.resumable
  | .error (.illegal lexeme) =>
    cases hr
    cases hc
  | .error (.fault f) =>
    simp only [Scan.conclude] at hr
    split at hr
    · cases hr
      exact Option.some.inj hc ▸ hstack.resumable
    · cases hr
  | .error (.error e) => cases hr

end Highlighter

/-- Whatever calls a continuation has come through, it holds the top mode and modes inside of it. -/
theorem Attained.resumable {c : Continuation} (h : Attained c) : c.Resumable := by
  induction h with
  | highlight hq hrun hc ih =>
    exact Highlighter.highlightWithin_resumable _ _ ih _ _ _ hrun _ hc
  | @detect h candidates code keys keys' o r c hrun hr hc =>
    have hgives := Highlighter.detectBy_gives (h := h)
      (P := fun r => ∀ c, r.continuation = some c → c.Resumable)
      (fun name => Highlighter.highlightWithin_resumable _ { name, code, tolerant := true } nofun)
      nofun candidates _ _ _ hrun
    rcases hr with rfl | hr
    · exact hgives.1 c hc
    · exact hgives.2 r hr c hc

namespace Scan

/-- Whatever a scan goes on from, in every state that it passes through or halts in its stack has
the top mode at the bottom and nowhere else, and has modes of its table above, not more than may be
open; the tree is as deep as there are classes among them; and an end closes innermost modes, never
the top mode. -/
theorem visits_stack {g : Grammar} {env : Env} (hg : g.assemble = .ok env.table)
    {c : Option Continuation} (hc : ∀ c', c = some c' → Attained c') {assembled : List String} {s : State}
    (hs : Visits env (.opened env.table c assembled) s) :
    1 ≤ s.stack.length ∧ s.stack.length ≤ 1001 ∧
      s.stack.getLast? = some { node := rootNode, delimiter := none } ∧
      (∀ f ∈ s.stack.dropLast, f.node ≠ rootNode) ∧ (∀ f ∈ s.stack, f.node < env.table.size) ∧
      s.tree.depth = 1 + s.stack.dropLast.countP (fun f => (env.node f.node).className.isSome) ∧
      ∀ position closed, closing env position s.stack = .ok (some closed) →
        closed <+: s.stack.dropLast := by
  have ht := Grammar.assemble_closed hg
  obtain ⟨inner,h⟩ := hs.wellStacked ht (opened_wellStacked (fun c' hc' => (hc c' hc').resumable))
  have hlen := h.length_le
  rw [h.stack,List.dropLast_concat,List.length_append]
  refine ⟨Nat.le_add_left _ _,Nat.add_le_add_right hlen 1,List.getLast?_concat,
    fun f hf => (h.isInner f hf).1,fun f hf => ?_,h.depth,fun position closed => closing_inner ht⟩
  rcases List.mem_append.mp hf with hf | hf
  · exact (h.isInner f hf).2
  · rw [List.mem_singleton.mp hf]
    exact Nat.pos_of_ne_zero ht.size_ne

/-- A grammar of text in quotes. -/
def quoting : Grammar where
  name := "quoting"
  root := { contains := some [.mode 0] }
  modes := #[{ className := some "quote", beginPattern := some "\"", endPattern := some "\"" }]

theorem visits_stack_quoting : ∃ (env : Env) (c : Continuation) (s : State),
    quoting.assemble = .ok env.table ∧ Attained c ∧ c.depth = 2 ∧
      Visits env (.opened env.table (some c) []) s ∧ s.stack.length ≤ 1001 ∧
      s.stack.getLast? = some { node := rootNode, delimiter := none } := by
  let h : Highlighter := { registry := Registry.insert {} "quoting" quoting }
  let q : Request := { name := "quoting", code := "a\"b" }
  have hrun : (((h.highlight q).run []).1.toOption.bind Result.continuation).any (·.depth == 2) = true := by
    decide +kernel
  have htable : quoting.assemble.toOption.isSome = true := by decide +kernel
  cases ht : quoting.assemble with
  | error e =>
    rw [ht] at htable
    cases htable
  | ok table =>
    rcases hr : (h.highlight q).run [] with ⟨e | r,keys⟩
    · rw [hr] at hrun
      cases hrun
    · rw [hr] at hrun
      obtain ⟨c,hc,hdepth⟩ := (Option.any_eq_true _ _).mp hrun
      have hattained : Attained c := .highlight (q := q) nofun hr hc
      let env : Env := { table, text := .ofString "c\"", tolerant := false, safeMode := true,
                         embed := fun _ _ _ => none }
      have hstart : Visits env (.opened env.table (some c) []) (.opened env.table (some c) []) := .start
      have hstack := visits_stack ht (fun c' hc' => Option.some.inj hc' ▸ hattained) hstart
      exact ⟨env,c,_,rfl,hattained,by simpa using hdepth,hstart,hstack.2.1,hstack.2.2.1⟩

end Scan
end Highlight
