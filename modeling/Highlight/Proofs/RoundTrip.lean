import Highlight.Proofs.Calls
import Highlight.Proofs.Scan.Cursor

/-!
Highlighting loses no text: the leaves of the tree spell out the text that was highlighted. A scan
has taken in the text before its cursor; embedded texts come back whole because the calls nest less
deep, and plain text stands in where a scan runs into a fault.
-/
namespace Highlight

namespace Scan

variable {env : Env} {s s' s₀ : State} {n : Nat}

lemma opened_taken (table : NodeTable) (c : Option Continuation) (assembled : List String) :
    (State.opened table c assembled).taken = "" := by
  have hfold : ∀ frames : List Frame, (frames.foldr (openMode table) {}).text = "" := by
    intro frames
    induction frames with
    | nil => rfl
    | cons f frames ih => rw [List.foldr_cons,text_openMode,ih]
  obtain ⟨stack,hopened,-⟩ := exists_opened_eq table c assembled
  rw [hopened,State.taken,hfold]
  rfl

/-- What a scan has taken in is the text before its cursor. -/
lemma After.taken (h : After env s₀ n s) (hf : env.Faithful) (ht : env.table.HandsBackOnce)
    (hposition : s₀.position ≤ env.text.size) (h₀ : s₀.taken = env.text.slice 0 s₀.position) :
    s.taken = env.text.slice 0 s.position := by
  induction h with
  | start => exact h₀
  | @step n s s' h hs ih =>
    exact ((step_ensures env (n + 1) s (h.cursor hposition).1).ok hs).taken hf ht ih

lemma finish_ensures (env : Env) (s : State) : (finish env).Ensures s
    (fun _ s' => env.Faithful → s.taken = env.text.slice 0 s.position →
      s'.tree.text = env.text.toString)
    (fun halt _ => halt.IsLegal) := by
  simp only [finish,Action.ensures_bind,Action.ensures_get,Action.ensures_append]
  refine (flush_ensures env _).mono (fun _ s' h hf htaken => ?_) (fun _ _ h => h.2)
  calc s'.tree.text
    _ = s.taken ++ env.text.slice s.position env.text.size := by
      rw [h.2.2 (hf.givesBack _)]
      simp [State.taken,String.append_assoc]
    _ = env.text.toString := by
      rw [htaken,env.text.slice_append_rest,env.text.slice_eq_toString]

variable {c : Option Continuation} {assembled : List String} {outcome : Except Halt Unit}

lemma After.taken_opened (h : After env (.opened env.table c assembled) n s) (hf : env.Faithful)
    (ht : env.table.HandsBackOnce) : s.taken = env.text.slice 0 s.position := by
  refine h.taken hf ht (opened_in_text env c assembled) ?_
  rw [opened_position,opened_taken,Source.slice_self]

/-- A scan that lets illegal lexemes through does not halt at one. -/
lemma run_isLegal (htolerant : env.tolerant = true) {halt : Halt}
    (h : run env (.opened env.table c assembled) = (.error halt,s)) : halt.IsLegal := by
  obtain ⟨n,-,hends⟩ := run_endsAfter (opened_in_text env c assembled)
  rw [h] at hends
  generalize he : ((.error halt : Except Halt Unit),s) = e at hends
  cases hends with
  | halted hafter hs =>
    cases he
    have hposition := (hafter.cursor (opened_in_text env c assembled)).1
    exact ((step_ensures env _ _ hposition).error hs).isLegal htolerant
  | finished hafter hs => exact (finish_ensures env _).error he.symm

/-- The tree of a scan that is done spells out the text. -/
lemma run_text (hf : env.Faithful) (ht : env.table.HandsBackOnce)
    (h : run env (.opened env.table c assembled) = (.ok (),s)) : s.tree.text = env.text.toString := by
  obtain ⟨n,-,hends⟩ := run_endsAfter (opened_in_text env c assembled)
  rw [h] at hends
  generalize he : ((.ok () : Except Halt Unit),s) = e at hends
  cases hends with
  | halted hafter hs => cases he
  | finished hafter hs =>
    have hposition := (hafter.cursor (opened_in_text env c assembled)).1
    have htaken := ((step_ensures env _ _ hposition).ok hs).taken hf ht (hafter.taken_opened hf ht)
    exact (finish_ensures env _).ok he.symm hf htaken

@[simp] lemma texts_plaintext (language code : String) :
    Tree.texts (Result.plaintext language code).tree = code := by
  simp only [Result.plaintext]
  split
  · rename_i hempty
    rw [String.isEmpty_iff.mp hempty]
    rfl
  · simp

/-- A result spells out the text unless the scan halted at something illegal. -/
lemma highlight_gives (settings : Settings) (language code : String) (hf : env.Faithful)
    (ht : env.table.HandsBackOnce) (hcode : env.text.toString = code) :
    (highlight env settings language code c).Gives (fun r =>
      (env.tolerant = true → r.illegal = none) ∧ (r.illegal = none → Tree.texts r.tree = code)) := by
  intro keys r keys' hrun
  obtain ⟨outcome,s,hs,hr⟩ := exists_run_of_highlight hrun
  match outcome with
  | .ok () =>
    cases hr
    exact ⟨fun _ => rfl,fun _ => by rw [Tree.Builder.texts_finish,run_text hf ht hs,hcode]⟩
  | .error (.illegal lexeme) =>
    cases hr
    exact ⟨fun htolerant => (run_isLegal htolerant hs).elim,nofun⟩
  | .error (.fault f) =>
    simp only [conclude] at hr
    split at hr
    · cases hr
      exact ⟨fun _ => rfl,fun _ => texts_plaintext language code⟩
    · cases hr
  | .error (.error e) => cases hr

end Scan
namespace Highlighter

variable {h : Highlighter}

/-- No mode of a registered grammar both keeps a lexeme and hands it back. -/
def HandsBackOnce (h : Highlighter) : Prop := ∀ table, h.Assembles table → table.HandsBackOnce

/-- Whether a lexeme that is handed back is not kept as well. -/
def handsBackOnce (sw : Switches Bool) : Bool :=
  !(sw.returnBegin && (sw.excludeBegin || sw.skip)) && !(sw.returnEnd && (sw.excludeEnd || sw.skip))

lemma handsBackOnce_only {name : String} {g : Grammar} {table : NodeTable} (htable : g.assemble = .ok table)
    (hall : table.nodes.all (handsBackOnce ·.switches) = true) : (only name g).HandsBackOnce := by
  rintro table' ⟨entry,hentry,htable'⟩ node hnode
  obtain rfl : entry = (Registry.key name,Entry.ofGrammar g) := List.mem_singleton.mp hentry
  obtain rfl : table = table' := Except.ok.inj (htable.symm.trans htable')
  have honce : handsBackOnce node.switches = true := Array.all_eq_true_iff_forall_mem.mp hall node hnode
  simp only [handsBackOnce,Bool.and_eq_true,Bool.not_eq_true',Bool.and_eq_false_iff,
    Bool.or_eq_false_iff] at honce
  obtain ⟨hbegins,hends⟩ := honce
  constructor
  · intro hreturn
    simpa [hreturn] using hbegins
  · intro hreturn
    simpa [hreturn] using hends

/-- A tree that spells out a text, unless the scan halted at something illegal. -/
def SpellsOut (q : Request) (r : Result) : Prop :=
  (q.tolerant = true → r.illegal = none) ∧ (r.illegal = none → Tree.texts r.tree = q.code)

/-- Calls that spell out their texts give back the texts that are embedded. -/
lemma faithful_of_spellsOut {run : Request → Call Result} (hrun : ∀ q, (run q).Gives (SpellsOut q))
    (table : NodeTable) (q : Request) : (h.envFor run table q).Faithful :=
  fun hembed => embedBy_gives (fun _ _ => (hrun _).mono (fun _ hr => hr.2 (hr.1 rfl)))
    (Scan.texts_plaintext _ _) hembed

lemma highlightWithin_spellsOut (hh : h.HandsBackOnce) (depth : Nat) (q : Request) :
    (h.highlightWithin depth q).Gives (SpellsOut q) := by
  refine highlightWithin_gives (P := SpellsOut) (fun run q table htable hrun => ?_) depth q
  exact Scan.highlight_gives h.settings q.name q.code (faithful_of_spellsOut hrun table q) (hh table htable)
    (Source.toString_ofString q.code)

/-- The trees of results spell out the highlighted text: of a result that reports nothing illegal,
and of the best two results of a detection. -/
theorem highlight_text (h : Highlighter) (hh : h.HandsBackOnce) :
    (∀ q, (h.highlight q).Gives (fun r => r.illegal = none → (Tree.root r.tree).text = q.code)) ∧
    (∀ candidates code, (h.detectAmong candidates code).Gives (fun o =>
      (Tree.root o.best.tree).text = code ∧
        ∀ r, o.runnerUp = some r → (Tree.root r.tree).text = code)) ∧
    ∀ code, (h.detect code).Gives (fun o => (Tree.root o.best.tree).text = code) := by
  have hdetect : ∀ candidates code, (h.detectAmong candidates code).Gives (fun o =>
      (Tree.root o.best.tree).text = code ∧
        ∀ r, o.runnerUp = some r → (Tree.root r.tree).text = code) := by
    intro candidates code
    refine detectBy_gives (P := fun r => (Tree.root r.tree).text = code) (fun name => ?_) ?_ candidates
    · refine (highlightWithin_spellsOut hh _ _).mono (fun r hr => ?_)
      rw [Tree.text_root]
      exact hr.2 (hr.1 rfl)
    · rw [Tree.text_root,Scan.texts_plaintext]
  refine ⟨fun q => ?_,hdetect,fun code => (hdetect _ code).mono (fun _ ho => ho.1)⟩
  refine (highlightWithin_spellsOut hh _ q).mono (fun r hr hlegal => ?_)
  rw [Tree.text_root]
  exact hr.2 hlegal

/-- A grammar whose one mode hands its end back and highlights what is inside by the grammar itself. -/
def selfEmbedding : Grammar where
  name := "nested"
  root := { contains := some [.mode 0] }
  modes := #[{
    className := some "x", beginPattern := some "<", endPattern := some ">"
    subLanguage := some (.named "nested")
    switches := { Switches.unset with excludeBegin := some true, returnEnd := some true } }]

theorem highlight_text_selfEmbedding :
    let h : Highlighter := { registry := Registry.insert {} "nested" selfEmbedding }
    h.HandsBackOnce ∧ ∃ r keys, (h.highlight { name := "nested", code := "a<b<c>" }).run [] = (.ok r,keys) ∧
      r.illegal = none ∧ (Tree.root r.tree).text = "a<b<c>" := by
  intro h
  have hh : h.HandsBackOnce := by
    rintro table ⟨entry,hentry,htable⟩ node hnode
    obtain rfl : entry = ("nested",Entry.ofGrammar selfEmbedding) :=
      List.mem_singleton.mp hentry
    have hall : ∀ node ∈ (selfEmbedding.assemble.toOption.map NodeTable.nodes).getD #[],
        (node.switches.returnBegin && (node.switches.excludeBegin || node.switches.skip)) = false ∧
          (node.switches.returnEnd && (node.switches.excludeEnd || node.switches.skip)) = false := by
      decide +kernel
    have htable : selfEmbedding.assemble = .ok table := htable
    rw [htable] at hall
    have hnode := hall node hnode
    constructor <;> simp_all
  have hok : ((h.highlight { name := "nested", code := "a<b<c>" }).run []).1.toOption.any
      (·.illegal.isNone) = true := by decide +kernel
  rcases hrun : (h.highlight { name := "nested", code := "a<b<c>" }).run [] with ⟨e | r,keys⟩
  · rw [hrun] at hok
    cases hok
  · rw [hrun] at hok
    have hlegal : r.illegal = none := Option.isNone_iff_eq_none.mp hok
    exact ⟨hh,r,keys,rfl,hlegal,(highlight_text h hh).1 _ _ _ _ hrun hlegal⟩

end Highlighter
end Highlight
