import Highlight.Proofs.Scan.Cases

/-!
What a step makes of the text that the cursor moves over. It goes into the tree or the buffer, whatever
the modes say that open and close, except that a mode may keep a lexeme and hand it back to the scan as
well. The lexeme then comes twice.
-/
namespace Highlight

namespace Scan

open Rules

variable {env : Env} {s s' s₁ : State} {m : RuleMatch} {number moved : Nat} {goesOn : Bool}

/-- Whether a match closes modes. -/
def closesAny (env : Env) (m : RuleMatch) (s : State) : Bool :=
  !stalls s.last m && (closing env m.start s.stack).toOption.any Option.isSome

/-- Whether the lexeme of a match is kept and handed back as well: by the mode that it begins, or by the
innermost mode if it closes any. -/
def keptTwice (env : Env) (m : RuleMatch) (s : State) : Bool :=
  match m.kind with
  | .begins id =>
    let sw := env.switches id
    decide (verdict env (env.node id) m = .accept) && (sw.returnBegin && (sw.excludeBegin || sw.skip))
  | .ends =>
    let sw := env.switches s.top
    closesAny env m s && (sw.returnEnd && (sw.excludeEnd || sw.skip))
  | .illegal => false

lemma close_taken (env : Env) (closed : List Frame) (s : State) : (s.close env closed).taken = s.taken := by
  rw [State.close]
  cases nextFrame? env closed with
  | none => exact foldl_pop_taken closed
  | some next => exact (push_taken next).trans (foldl_pop_taken closed)

/-- A match that is kept as text is not handed back. -/
lemma IsKept.keptTwice_eq_false (h : IsKept env m s moved) : keptTwice env m s = false := by
  cases h with
  | ignored hkind hverdict | aborted hkind hverdict => simp [keptTwice,hkind,hverdict]
  | unclosing hkind _ hclosing => simp [keptTwice,closesAny,hkind,hclosing,Except.toOption]
  | tolerated hkind => simp [keptTwice,hkind]

/-- A reaction takes in what the cursor moves over, and the lexeme besides if it is kept twice. -/
lemma Reaction.taken (h : Reaction env m s moved s') (hf : s.GivesBack env) (hm : m.start ≤ m.stop) :
    s'.taken = s.taken ++
      (env.text.slice m.start (m.start + moved) ++ if keptTwice env m s then env.lexeme m else "") := by
  cases h with
  | opens hkind hverdict _ hput =>
    rw [push_taken,((put_puts env _ _ _).ok hput).taken hf,Switches.kept_beginPlace,slice_moved env hm]
    simp only [keptTwice,hkind,hverdict,decide_true,Bool.true_and]
    rfl
  | closes hkind hstalls hclosing hput =>
    have hcloses : closesAny env m s = true := by simp [closesAny,hstalls,hclosing,Except.toOption]
    rw [close_taken,((put_puts env _ _ _).ok hput).taken hf,Switches.kept_endPlace,slice_moved env hm]
    simp only [keptTwice,hkind,hcloses,Bool.true_and]
    rfl
  | keeps h =>
    rw [h.keptTwice_eq_false]
    simp [State.taken,String.append_assoc]
  | leaves hkind hverdict =>
    simp [keptTwice,hkind,hverdict,State.taken]
  | steps hstalls =>
    have honce : keptTwice env m s = false := by
      cases hkind : m.kind with
      | begins id => simp [stalls_of_begins hkind] at hstalls
      | ends => simp [keptTwice,closesAny,hkind,hstalls]
      | illegal => simp [keptTwice,hkind]
    simp [State.taken,String.append_assoc,honce]

/-- A step takes in the text from the cursor on, as far as the cursor moves, and a lexeme that is kept
twice once more. -/
lemma Stepped.taken (h : Stepped env number s goesOn s')
    (hexec : (s.ruleSet env).exec env.text s.position s.firstRule = .ok (some m)) (hf : s.GivesBack env) :
    s'.taken = s.taken ++ env.text.slice s.position s'.position ++
      if keptTwice env m s then env.lexeme m else "" := by
  cases h with
  | ends hnone => cases hexec.symm.trans hnone
  | @finds m' moved s₂ hexec' _ hreact =>
    obtain rfl := Option.some.inj (Except.ok.inj (hexec.symm.trans hexec'))
    obtain ⟨hstart,hm,-⟩ := RuleSet.exec_within hexec
    have hreact : s₂.taken = _ := hreact.taken hf hm
    change s₂.taken = _
    rw [hreact,atMatch_taken,← env.text.slice_append hstart (Nat.le_add_right m.start moved)]
    simp only [String.append_assoc]
    rfl

/-- The text in the tree and the buffer grows in a step by the text that the cursor moves over, exactly if
no character of the lexeme is kept and handed back. The lexeme comes twice where it is. -/
theorem step_conserves_iff (hf : s.GivesBack env) (hfound : (nextMatch env).run s = (.ok (some m),s₁))
    (hstep : (step env number).run s = (.ok goesOn,s')) :
    (s'.taken = s.taken ++ env.text.slice s.position s'.position ↔
      ¬ (m.start < m.stop ∧ keptTwice env m s = true)) ∧
    (keptTwice env m s = true →
      s'.taken = s.taken ++ env.text.slice s.position s'.position ++ env.lexeme m) := by
  have hexec := ((nextMatch_cases env s).ok hfound).1
  have htaken := ((step_cases env number s).ok hstep).taken hexec hf
  have hlexeme : env.lexeme m = "" ↔ ¬ m.start < m.stop := by
    have hstop := (RuleSet.exec_within hexec).stop_le
    rw [← String.length_eq_zero_iff,Env.lexeme,RuleMatch.lexeme,env.text.length_slice]
    omega
  cases htwice : keptTwice env m s with
  | false =>
    rw [htwice,if_neg Bool.false_ne_true,String.append_empty] at htaken
    exact ⟨iff_of_true htaken (fun h => Bool.false_ne_true h.2),fun h => absurd h Bool.false_ne_true⟩
  | true =>
    rw [htwice,if_pos rfl] at htaken
    refine ⟨?_,fun _ => htaken⟩
    rw [htaken,String.append_eq_left_iff,hlexeme]
    simp

/-- A grammar of words whose last letter is left to the text after them, and is scanned once more. -/
def echoing : Grammar where
  name := "echoing"
  root := { contains := some [.mode 0] }
  modes := #[{
    className := some "word", beginPattern := some "a", endPattern := some "b"
    switches := { Switches.unset with excludeEnd := some true, returnEnd := some true } }]

/-- The end of a word is taken in, and the cursor stays where it is. -/
lemma exists_sights_echoing : ∃ table s goesOn s', Sights echoing "ab" 1 ⟨1,2,.ends,0⟩ table s goesOn s' ∧
    s.position = 1 ∧ s'.position = 1 ∧ s.taken = "a" ∧ s'.taken = "ab" := by
  have hsights : sights echoing "ab" 1 ⟨1,2,.ends,0⟩ (fun _ s _ s' =>
      decide (s.position = 1 ∧ s'.position = 1 ∧ s.taken = "a" ∧ s'.taken = "ab")) = true := by
    decide +kernel
  obtain ⟨table,s,goesOn,s',hs,h⟩ := exists_sights hsights
  exact ⟨table,s,goesOn,s',hs,of_decide_eq_true h⟩

theorem step_conserves_iff_echoing : ∃ (env : Env) (s s₁ s' : State) (m : RuleMatch) (goesOn : Bool),
    echoing.assemble = .ok env.table ∧ s.GivesBack env ∧ (nextMatch env).run s = (.ok (some m),s₁) ∧
      (step env 2).run s = (.ok goesOn,s') ∧
      (s'.taken = s.taken ++ env.text.slice s.position s'.position ↔
        ¬ (m.start < m.stop ∧ keptTwice env m s = true)) ∧
      (keptTwice env m s = true →
        s'.taken = s.taken ++ env.text.slice s.position s'.position ++ env.lexeme m) := by
  obtain ⟨table,s,goesOn,s',hs,-⟩ := exists_sights_echoing
  obtain ⟨s₁,hnext⟩ := exists_run_of_ok hs.next
  have hgives : s.GivesBack (.alone table "ab") := Env.Faithful.givesBack (faithful_alone table "ab") s
  exact ⟨_,s,s₁,s',_,goesOn,hs.assembled,hgives,hnext,hs.step,step_conserves_iff hgives hnext hs.step⟩

/-- The step of an end match that adds to the text without moving the cursor. -/
theorem exists_step_repeats : ∃ (env : Env) (s s₁ s' : State) (m : RuleMatch) (goesOn : Bool),
    echoing.assemble = .ok env.table ∧ env.text = .ofString "ab" ∧
      After env (.opened env.table none []) 1 s ∧ (nextMatch env).run s = (.ok (some m),s₁) ∧ m.kind = .ends ∧
      (step env 2).run s = (.ok goesOn,s') ∧
      s'.taken ≠ s.taken ++ env.text.slice s.position s'.position := by
  obtain ⟨table,s,goesOn,s',hs,hposition,hposition',htaken,htaken'⟩ := exists_sights_echoing
  obtain ⟨s₁,hnext⟩ := exists_run_of_ok hs.next
  refine ⟨_,s,s₁,s',_,goesOn,hs.assembled,rfl,hs.after,hnext,rfl,hs.step,?_⟩
  rw [hposition,hposition',htaken,htaken',Source.slice_self]
  decide

end Scan
end Highlight
