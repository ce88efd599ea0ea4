import Highlight.Proofs.Except
import Highlight.Proofs.RoundTrip
import Highlight.Proofs.Scan.Cases
import Highlight.Proofs.Scan.Halts
import Highlight.Proofs.Text.Window

/-!
Reports of illegal lexemes. A scan that is not to let them through halts before an illegal match that has
characters, and leaves its state as the match found it: the tree spells out a beginning of the text before
the cursor, and the report shows the text around the cursor.
-/
namespace Highlight

namespace Scan

open Rules Highlight.Scan.Action

variable {env : Env} {s s' s₀ : State} {m : RuleMatch} {n number : Nat}

lemma Halt.common_isLegal : Halt.Common Halt.IsLegal := ⟨trivial,fun _ => trivial,fun _ => trivial⟩

/-- An illegal match with characters that is not let through. -/
structure Objects (env : Env) (m : RuleMatch) (halt : Halt) : Prop where
  kind : m.kind = .illegal
  nonempty : m.isEmpty = false
  strict : env.tolerant = false
  halt_eq : halt = .illegal (env.lexeme m)

/-- A reaction that halts at something illegal has done nothing but note the match. -/
lemma react_objects (env : Env) (m : RuleMatch) (s : State) : (react env m).Ensures s (fun _ _ => True)
    (fun halt s' => ¬ halt.IsLegal → Objects env m halt ∧ s' = { s with last := some m }) := by
  have hcommon := Halt.common_isLegal
  have hlegally : ∀ {x : Action Nat} {s : State} {P : Halt → State → Prop}, x.Halts Halt.IsLegal →
      x.Ensures s (fun _ _ => True) (fun halt s' => ¬ halt.IsLegal → P halt s') :=
    fun h => (h _).mono (fun _ _ _ => trivial) (fun _ _ hlegal hillegal => absurd hlegal hillegal)
  rw [react,ensures_bind,ensures_get]
  split
  · split
    · exact hlegally (keepNext_halts env m.start)
    · exact fun hillegal => absurd trivial hillegal
  · rw [ensures_bind,ensures_modify]
    cases hkind : m.kind with
    | begins id => exact hlegally (reactToBegin_halts hcommon env m id)
    | ends => exact hlegally (reactToEnd_halts hcommon env m)
    | illegal =>
      dsimp only
      rw [reactToIllegal]
      split
      · exact hlegally (keepNext_halts env m.start)
      · split
        · exact trivial
        · rename_i hempty htolerant
          exact fun _ => ⟨⟨hkind,eq_false_of_ne_true hempty,eq_false_of_ne_true htolerant,rfl⟩,rfl⟩

/-- A step that halts at something illegal found it in the state before, and has done nothing but take the
text before it into the buffer. -/
lemma step_objects (env : Env) (number : Nat) (s : State) : (step env number).Ensures s (fun _ _ => True)
    (fun halt s' => ¬ halt.IsLegal → ∃ m, ((nextMatch env).run s).1 = .ok (some m) ∧ Objects env m halt ∧
      s' = { s.atMatch env m with last := some m }) := by
  rcases hexec : (s.ruleSet env).exec env.text s.position s.firstRule with fault | _ | m
  · exact step_of_error hexec (fun _ hillegal => absurd trivial hillegal)
  · exact step_of_none hexec trivial
  · refine step_of_found hexec (fun _ _ hillegal => absurd trivial hillegal) (fun _ => ?_)
    refine (react_objects env m (s.atMatch env m)).mono (fun _ _ _ => trivial) (fun halt s' h hillegal => ?_)
    exact ⟨m,nextMatch_eq_ok_iff.mpr hexec,h hillegal⟩

/-- The last state of a scan that halts at something illegal, and the match that it halts at. -/
structure Stops (env : Env) (s₀ : State) (n : Nat) (s : State) (m : RuleMatch) (halt : Halt) : Prop where
  after : After env s₀ n s
  found : ((nextMatch env).run s).1 = .ok (some m)
  objects : Objects env m halt

lemma Stops.within (h : Stops env s₀ n s m halt) : m.Within env.text s.position :=
  RuleSet.exec_within (nextMatch_eq_ok_iff.mp h.found)

lemma Stops.start_lt (h : Stops env s₀ n s m halt) : m.start < m.stop := by
  have hle := h.within.start_le_stop
  have hne : m.start ≠ m.stop := by simpa [RuleMatch.isEmpty] using h.objects.nonempty
  omega

/-- A run that halts at something illegal halts in a step. -/
lemma exists_stops {halt : Halt} (h₀ : s₀.position ≤ env.text.size) (hrun : run env s₀ = (.error halt,s'))
    (hillegal : ¬ halt.IsLegal) :
    ∃ n s m, Stops env s₀ n s m halt ∧ s' = { s.atMatch env m with last := some m } := by
  obtain ⟨n,-,hends⟩ := run_endsAfter h₀
  rw [hrun] at hends
  generalize he : ((.error halt : Except Halt Unit),s') = e at hends
  cases hends with
  | @halted s s'' halt' hafter hstep =>
    cases he
    obtain ⟨m,hfound,hobjects,hs'⟩ := (step_objects env _ s).error hstep hillegal
    exact ⟨n,s,m,⟨hafter,hfound,hobjects⟩,hs'⟩
  | finished hafter hstep => exact absurd ((finish_ensures env _).error he.symm) hillegal

/-- The match that a report is about: the rules of the innermost mode, which is the one that the report names,
find it at or after the index. -/
structure Blames (env : Env) (s : State) (m : RuleMatch) (report : IllegalReport) : Prop where
  className : report.className = (env.node s.top).className
  found : ((nextMatch env).run s).1 = .ok (some m)
  kind : m.kind = .illegal
  rule : ∃ rule ∈ (env.node s.top).rules.rules, rule.kind = .illegal
  index : report.index = env.text.byteOffset s.position
  index_le : report.index ≤ env.text.byteOffset m.start
  nonempty : m.start < m.stop
  stop_le : m.stop ≤ env.text.size

lemma Stops.blames {lexeme : String} (settings : Settings) (h : Stops env s₀ n s m (.illegal lexeme)) :
    Blames env s m (report env settings { s.atMatch env m with last := some m } lexeme) where
  className := rfl
  found := h.found
  kind := h.objects.kind
  rule := by
    obtain ⟨rule,hrule,hkind⟩ := RuleSet.exists_rule_of_exec (nextMatch_eq_ok_iff.mp h.found)
    exact ⟨rule,hrule,hkind.trans h.objects.kind⟩
  index := rfl
  index_le := env.text.byteOffset_mono h.within.start_le
  nonempty := h.start_lt
  stop_le := h.within.stop_le

/-- The tree of a scan that stops spells out the text up to some point before the cursor. -/
lemma Stops.tree_text {c : Option Continuation} {assembled : List String} {halt : Halt} (hf : env.Faithful)
    (ht : env.table.HandsBackOnce) (h : Stops env (.opened env.table c assembled) n s m halt) :
    ∃ rest, s.tree.text ++ rest = env.text.toString ∧
      s.tree.text.utf8ByteSize ≤ env.text.byteOffset s.position := by
  have htaken : s.tree.text ++ s.buffer = env.text.slice 0 s.position := h.after.taken_opened hf ht
  refine ⟨s.buffer ++ env.text.slice s.position env.text.size,?_,?_⟩
  · rw [← String.append_assoc,htaken,Source.slice_append_rest,Source.slice_eq_toString]
  · rw [Source.byteOffset_eq,← htaken,String.utf8ByteSize_append]
    exact Nat.le_add_right _ _

end Scan

namespace Highlighter

variable {h : Highlighter} {q : Request} {r : Result} {report : IllegalReport}

/-- What the result of a call tells of something illegal. Offsets count bytes. -/
structure Reports (h : Highlighter) (q : Request) (r : Result) (report : IllegalReport) : Prop where
  relevance : r.relevance = 0
  value : r.value = Html.escape q.code
  before : report.before = Html.render h.settings.classPrefix (.root r.tree)
  index_le : report.index ≤ q.code.utf8ByteSize
  index_isBoundary : IsBoundary q.code report.index
  text : ∃ rest, (Tree.root r.tree).text ++ rest = q.code ∧
    (Tree.root r.tree).text.utf8ByteSize ≤ report.index
  context : ∃ left right, left ++ report.context ++ right = q.code ∧
    IsGreatest {o | IsBoundary q.code o ∧ o ≤ report.index - 100} left.utf8ByteSize ∧
    IsLeast {o | IsBoundary q.code o ∧ min q.code.utf8ByteSize (report.index + 100) ≤ o}
      (left ++ report.context).utf8ByteSize
  blames : ∃ (key : String) (entry : Entry) (env : Scan.Env) (assembled : List String) (n : Nat)
      (s : Scan.State) (m : Rules.RuleMatch), h.registry.find? q.name = some (key,entry) ∧
    entry.grammar.assemble = .ok env.table ∧ env.text = .ofString q.code ∧
    Scan.After env (.opened env.table q.continuation assembled) n s ∧ Scan.Blames env s m report

/-- The result of a scan that stops at something illegal. -/
lemma reports_of_stops {key : String} {entry : Entry} {table : NodeTable} {run : Request → Call Result}
    {keys : List String} {n : Nat} {s : Scan.State} {m : Rules.RuleMatch} {lexeme : String}
    (hfind : h.registry.find? q.name = some (key,entry)) (htable : entry.grammar.assemble = .ok table)
    (hf : (h.envFor run table q).Faithful) (ht : table.HandsBackOnce)
    (hstops : Scan.Stops (h.envFor run table q) (.opened table q.continuation keys) n s m (.illegal lexeme)) :
    let stopped := { s.atMatch (h.envFor run table q) m with last := some m }
    let report := Scan.report (h.envFor run table q) h.settings stopped lexeme
    Reports h q { Result.plaintext q.name q.code with tree := s.tree.finish, illegal := some report } report := by
  have hcode : (h.envFor run table q).text.toString = q.code := Source.toString_ofString q.code
  have hposition := (hstops.after.cursor (Scan.opened_in_text (h.envFor run table q) _ _)).1
  refine ⟨rfl,rfl,rfl,?_,?_,?_,?_,key,entry,_,keys,n,s,m,hfind,htable,rfl,hstops.after,hstops.blames h.settings⟩
  · rw [← hcode,← Source.byteOffset_size]
    exact Source.byteOffset_mono _ hposition
  · rw [← hcode]
    exact Source.isBoundary_byteOffset _ hposition
  · rw [Tree.text_root,Tree.Builder.texts_finish,← hcode]
    exact hstops.tree_text hf ht
  · rw [← hcode]
    exact Source.window_eq _ s.position Scan.contextRadius

/-- A result that reports something illegal has no relevance and is escaped text. Its tree spells out a
beginning of the text that ends at the reported index or before, the markup of the report is that of the
tree, and the context of the report is the text around the index, widened to whole characters. The rules
of the mode that the report names found an illegal match with characters at or after the index. -/
theorem highlight_reports (h : Highlighter) (hh : h.HandsBackOnce) (q : Request) :
    (h.highlight q).Gives (fun r => ∀ report, r.illegal = some report → Reports h q r report) := by
  obtain ⟨depth,hdepth⟩ : ∃ depth, h.depthFor q.code = depth + 1 :=
    Nat.exists_eq_succ_of_ne_zero (by simp [depthFor,spareDepth])
  rw [highlight,hdepth]
  refine highlightWithin_succ_gives (fun key entry table hfind htable keys r keys' hrun report hreport => ?_)
  have hf : (h.envFor (h.highlightWithin depth) table q).Faithful :=
    faithful_of_spellsOut (highlightWithin_spellsOut hh depth) table q
  have ht := hh table ⟨_,Registry.mem_of_find? hfind,htable⟩
  obtain ⟨outcome,s',hs,hr⟩ := Scan.exists_run_of_highlight hrun
  cases outcome with
  | ok _ =>
    cases hr
    cases hreport
  | error halt =>
    cases halt with
    | illegal lexeme =>
      cases hr
      cases hreport
      obtain ⟨n,s,m,hstops,rfl⟩ := Scan.exists_stops (Scan.opened_in_text _ _ _) hs (fun hlegal => hlegal)
      exact reports_of_stops (s := s) hfind htable hf ht hstops
    | fault f =>
      rw [Scan.conclude] at hr
      split at hr
      · cases hr
        cases hreport
      · cases hr
    | error e => cases hr

/-- A grammar whose strings may not contain line ends. -/
def singleLine : Grammar where
  name := "single-line"
  root := { contains := some [.mode 0] }
  modes := #[{
    className := some "string", beginPattern := some "\"", endPattern := some "\"", illegal := some "\\n" }]

/-- The report of a string that is open at the end of a line. -/
theorem highlight_reports_singleLine :
    let h := only "single-line" singleLine
    let q : Request := { name := "single-line", code := "é \"ü\n\"" }
    h.HandsBackOnce ∧ ∃ r keys report, (h.highlight q).run [] = (.ok r,keys) ∧
      r.illegal = some report ∧ report.index = 4 ∧ Reports h q r report := by
  intro h q
  have hall : singleLine.assemble.toOption.any (·.nodes.all (handsBackOnce ·.switches)) = true := by
    decide +kernel
  obtain ⟨table,htable,honce⟩ := exists_eq_ok_of_any hall
  have hh : h.HandsBackOnce := handsBackOnce_only htable honce
  have hok : ((h.highlight q).run []).1.toOption.any (·.illegal.any (·.index == 4)) = true := by
    decide +kernel
  obtain ⟨r,keys,hrun,hillegal⟩ := exists_ok_of_any _ hok
  obtain ⟨report,hreport,hindex⟩ := (Option.any_eq_true _ _).mp hillegal
  exact ⟨hh,r,keys,report,hrun,hreport,beq_iff_eq.mp hindex,
    highlight_reports h hh q _ _ _ hrun report hreport⟩

end Highlighter
end Highlight
