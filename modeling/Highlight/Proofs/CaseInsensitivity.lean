import Highlight.Proofs.Calls
import Highlight.Proofs.Scan.AsciiCase
import Highlight.Proofs.Scan.Reach

/-!
Grammars that ignore case. Texts that differ in nothing but the case of ASCII letters are highlighted alike
by such a grammar: both calls fail with the same error, or both give trees that differ only in those
letters.
-/
namespace Highlight

/-- Results that agree but for the case of ASCII letters: the trees have the same scopes and leaves in the
same places, and the scans stopped at the same byte or ended in the same modes. -/
structure Result.AgreesWith (r r' : Result) : Prop where
  tree : Tree.allToLower r'.tree = Tree.allToLower r.tree
  relevance : r'.relevance = r.relevance
  illegal : r'.illegal.map IllegalReport.index = r.illegal.map IllegalReport.index
  fault : r'.fault = r.fault
  continuation : r'.continuation = r.continuation

/-- Two outcomes: the same error, or results that agree but for the case of ASCII letters. -/
def Alike : Except HighlightError Result → Except HighlightError Result → Prop
  | .ok r, .ok r' => r.AgreesWith r'
  | .error e, .error e' => e' = e
  | _, _ => False

lemma Alike.relevance {x y : Except HighlightError Result} (h : Alike x y) :
    y.toOption.map Result.relevance = x.toOption.map Result.relevance := by
  match x, y with
  | .ok r, .ok r' => exact congrArg some (Result.AgreesWith.relevance h)
  | .error _, .error _ => rfl

namespace Scan

variable {env env' : Env}

lemma undelimited_opened {table : NodeTable} {c : Option Continuation} {assembled : List String}
    (hc : ∀ c' ∈ c, ∀ f ∈ c'.frames, f.delimiter = none) : (State.opened table c assembled).Undelimited := by
  have htop : ∀ f ∈ [Frame.top], f.delimiter = none := by
    intro f hf
    rw [List.mem_singleton.mp hf]
    rfl
  obtain ⟨stack,hopened,hstack⟩ := exists_opened_eq table c assembled
  rw [hopened]
  rcases hstack with rfl | ⟨c',rfl,-,rfl⟩
  · exact htop
  · exact hc c' rfl

/-- Scans that come to the same state and outcome with small letters are concluded alike. -/
lemma alike_conclude {settings : Settings} {language code code' : String} {s s' : State}
    {outcome outcome' : Except Halt Unit} (henv : env'.toLower = env.toLower)
    (hcode : code'.toLower = code.toLower) (hs : s'.toLower = s.toLower)
    (houtcome : outcome'.mapError Halt.toLower = outcome.mapError Halt.toLower) :
    Alike (conclude env settings language code s outcome) (conclude env' settings language code' s' outcome') := by
  have htree : Tree.allToLower s'.tree.finish = Tree.allToLower s.tree.finish := by
    rw [Tree.Builder.toLower_finish,Tree.Builder.toLower_finish]
    exact congrArg (fun s => s.tree.finish) hs
  have hplain : Tree.allToLower (Result.plaintext language code').tree =
      Tree.allToLower (Result.plaintext language code).tree := by
    have hempty : code'.isEmpty = code.isEmpty := by
      rw [← String.isEmpty_toLower,hcode,String.isEmpty_toLower]
    simp only [Result.plaintext,hempty]
    split
    · rfl
    · simp only [Tree.allToLower,Tree.toLower,hcode]
  have hcontinuation : some { frames := s'.stack } = some ({ frames := s.stack } : Continuation) :=
    congrArg (fun s => some ({ frames := s.stack } : Continuation)) hs
  have hposition : s'.position = s.position := by simpa only [State.toLower] using congrArg State.position hs
  have hrelevance : s'.relevance = s.relevance := by simpa only [State.toLower] using congrArg State.relevance hs
  have hsafe : env'.safeMode = env.safeMode := by simpa only [Env.toLower] using congrArg Env.safeMode henv
  have hindex : env'.text.byteOffset s'.position = env.text.byteOffset s.position := by
    have htext : env'.text.toLower = env.text.toLower := congrArg Env.text henv
    rw [hposition,← Source.byteOffset_toLower,htext,Source.byteOffset_toLower]
  cases outcome with
  | ok u =>
    cases outcome' with
    | ok u' => exact ⟨htree,hrelevance,rfl,rfl,hcontinuation⟩
    | error halt' => cases houtcome
  | error halt =>
    cases outcome' with
    | ok u' => cases houtcome
    | error halt' =>
      have hhalt : halt'.toLower = halt.toLower := Except.error.inj houtcome
      cases halt with
      | illegal lexeme =>
        cases halt' with
        | illegal lexeme' => exact ⟨htree,rfl,congrArg some hindex,rfl,rfl⟩
        | fault f' => cases hhalt
        | error e' => cases hhalt
      | fault f =>
        cases halt' with
        | illegal lexeme' => cases hhalt
        | fault f' =>
          obtain rfl : f' = f := Halt.fault.inj hhalt
          simp only [conclude,hsafe]
          split
          · exact ⟨hplain,rfl,rfl,rfl,hcontinuation⟩
          · exact rfl
        | error e' => cases hhalt
      | error e =>
        cases halt' with
        | illegal lexeme' => cases hhalt
        | fault f' => cases hhalt
        | error e' =>
          obtain rfl : e' = e := Halt.error.inj hhalt
          exact rfl

/-- Scans of two texts that agree but for the case of ASCII letters. -/
theorem alike_run {settings : Settings} {language code code' : String} {s : State} (h : env.Caseless)
    (h' : env'.Caseless) (henv : env'.toLower = env.toLower) (hcode : code'.toLower = code.toLower)
    (hs : s.Undelimited) :
    Alike (conclude env settings language code (run env s).2 (run env s).1)
      (conclude env' settings language code' (run env' s).2 (run env' s).1) := by
  have hlower : run env.toLower s.toLower = ((run env s).1.mapError Halt.toLower,(run env s).2.toLower) :=
    (lowers_run h s hs).2
  have hlower' : run env'.toLower s.toLower = ((run env' s).1.mapError Halt.toLower,(run env' s).2.toLower) :=
    (lowers_run h' s hs).2
  rw [henv,hlower] at hlower'
  obtain ⟨houtcome,hstate⟩ := Prod.mk.inj hlower'
  exact alike_conclude henv hcode hstate.symm houtcome.symm

end Scan

namespace Highlighter

variable {h : Highlighter}

/-- A grammar that cannot be assembled fails every call. -/
lemma highlight_eq_error {q : Request} {key : String} {entry : Entry} {e : GrammarError}
    (hfind : h.registry.find? q.name = some (key,entry)) (htable : entry.grammar.assemble = .error e)
    (keys : List String) : ((h.highlight q).run keys).1 = .error (.grammar e) := by
  obtain ⟨depth,hdepth⟩ : ∃ depth, h.depthFor q.code = depth + 1 :=
    Nat.exists_eq_succ_of_ne_zero (by simp [depthFor,spareDepth])
  rw [highlight,hdepth,highlightWithin,hfind]
  dsimp only
  rw [entry.table_get,htable]
  rfl

/-- Case-insensitive grammars ignore the case of ASCII letters. -/
theorem highlight_ignoresCase {q : Request} {code key : String} {entry : Entry}
    (hfind : h.registry.find? q.name = some (key,entry)) (hcaseless : entry.grammar.isCaseless = true)
    (hfresh : ∀ c ∈ q.continuation, ∀ f ∈ c.frames, f.delimiter = none)
    (hcode : code.toLower = q.code.toLower) (keys : List String) :
    Alike ((h.highlight q).run keys).1 ((h.highlight { q with code }).run keys).1 := by
  have hfind' : h.registry.find? ({ q with code } : Request).name = some (key,entry) := hfind
  cases htable : entry.grammar.assemble with
  | error e => rw [highlight_eq_error hfind htable,highlight_eq_error hfind' htable,Alike]
  | ok table =>
    obtain ⟨run,hcall⟩ := exists_highlight_eq hfind htable keys
    obtain ⟨run',hcall'⟩ := exists_highlight_eq hfind' htable keys
    have hc := Grammar.caseless_of_assemble htable hcaseless
    have henv : (h.envFor run' table { q with code }).toLower = (h.envFor run table q).toLower := by
      simp only [envFor,Scan.Env.toLower,← Source.ofString_toLower,hcode]
    rw [hcall rfl,hcall' rfl]
    exact Scan.alike_run ⟨hc.1,hc.2⟩ ⟨hc.1,hc.2⟩ henv hcode (Scan.undelimited_opened hfresh)

/-- A grammar of keywords and remarks. -/
def remarks : Grammar where
  name := "remarks"
  ignoreCase := true
  root := { keywords := some (.plain "if not"), contains := some [.mode 0] }
  modes := #[{ className := some "remark", beginPattern := some "rem\\b", endPattern := some "[^a-z ]" }]

theorem highlight_ignoresCase_remarks : remarks.isCaseless = true ∧ "iF x REM y;".toLower = "If X rem Y;".toLower ∧
    Alike (((only "remarks" remarks).highlight { name := "remarks", code := "If X rem Y;" }).run []).1
      (((only "remarks" remarks).highlight { name := "remarks", code := "iF x REM y;" }).run []).1 := by
  have hcaseless : remarks.isCaseless = true := by decide +kernel
  have hcode : "iF x REM y;".toLower = "If X rem Y;".toLower := by
    simp [← String.toList_inj,String.toList_toLower]
  exact ⟨hcaseless,hcode,highlight_ignoresCase (q := { name := "remarks", code := "If X rem Y;" })
    (find?_only "remarks" remarks) hcaseless nofun hcode []⟩

/-- A grammar of three marks. Where their patterns are joined, the flag that the first ends with makes a
comment of the start of the second, and what is left of the class in that switches a flag off. -/
def torn : Grammar where
  name := "torn"
  ignoreCase := true
  root := { contains := some [.mode 0,.mode 1,.mode 2] }
  modes := #[
    { className := some "first", beginPattern := some "a(?x)" },
    { className := some "second", beginPattern := some "#[;\n(?-i)]" },
    { className := some "third", beginPattern := some "b" }]

theorem exists_heeds_case : torn.ignoreCase = true ∧
    (∀ m ∈ torn.modes, ∃ p, m = { className := m.className, beginPattern := some p } ∧
      Rules.ignoresCase p = true) ∧ "B".toLower = "b".toLower ∧
      ¬ Alike (((only "torn" torn).highlight { name := "torn", code := "b" }).run []).1
        (((only "torn" torn).highlight { name := "torn", code := "B" }).run []).1 := by
  have hmodes : ∀ m ∈ torn.modes, ∃ p, m = { className := m.className, beginPattern := some p } ∧
      Rules.ignoresCase p = true := by
    intro m hm
    simp only [torn,List.mem_toArray,List.mem_cons,List.not_mem_nil,or_false] at hm
    rcases hm with rfl | rfl | rfl
    · exact ⟨_,rfl,by decide +kernel⟩
    · exact ⟨_,rfl,by decide +kernel⟩
    · exact ⟨_,rfl,by decide +kernel⟩
  have hcode : "B".toLower = "b".toLower := by
    simp [← String.toList_inj,String.toList_toLower]
  have hmarked : (((only "torn" torn).highlight { name := "torn", code := "b" }).run []).1.toOption.map
      Result.relevance = some 1 := by decide +kernel
  have hmissed : (((only "torn" torn).highlight { name := "torn", code := "B" }).run []).1.toOption.map
      Result.relevance = some 0 := by decide +kernel
  refine ⟨rfl,hmodes,hcode,fun halike => ?_⟩
  have hrelevance := halike.relevance
  rw [hmarked,hmissed] at hrelevance
  cases hrelevance

end Highlighter
end Highlight
