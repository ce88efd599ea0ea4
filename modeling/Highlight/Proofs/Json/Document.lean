import Highlight.Grammar.Bundled
import Highlight.Proofs.Assembly.Compiled
import Highlight.Proofs.Calls
import Highlight.Proofs.Json.Values

/-!
Whole texts of JSON are highlighted by the bundled grammar: the scopes of the tree are the tokens other than
punctuation. A search returns at each blank that it passes over, so that it gives up on very many of them.
-/
namespace Highlight

open Rules Regex Assembly Scan
open Highlight.Tree (scopesOf)

namespace JsonText

variable {env : Env} {s₀ : State}

/-- The most blanks around a whole text that a search gets over. -/
def longestBlank : Nat := 99999

/-- The longest number. A search over it keeps one choice open for each digit, and no matcher here counts those:
as many as this, and the few for the other parts of the pattern, are fewer than the 1,000,000 that may be open. -/
def longestNumber : Nat := 999900

namespace Document

/-- No stretch is so long that a search gives up, containers nest no deeper than modes may, and a choice may be
kept open at each character of a number. -/
structure Manageable (d : Document) : Prop where
  depth : d.value.depth ≤ 499
  before : d.before.val.length ≤ longestBlank
  after : d.after.val.length ≤ longestBlank
  stretches : ∀ n ∈ d.value.stretches, n ≤ longestStretch
  numbers : ∀ token ∈ d.value.tokens, token.1 = "number" → token.2.length ≤ longestNumber

variable {d : Document}

/-- A scan of a whole text comes to its end, and draws the scopes of its tokens. -/
theorem Manageable.run_eq (h : d.Manageable) (ht : Grammar.Bundled.json.assemble = .ok env.table)
    (hs₀ : Arrives env s₀ 0 [.top] [] 0) (h₀ : s₀.position ≤ env.text.size)
    (htext : env.text = .ofString d.text) :
    ∃ s, run env s₀ = (.ok (),s) ∧ s.stack = [.top] ∧ scopesOf s.tree.finish = d.value.tokens.map scopeOf := by
  have hspells : env.text.Spells 0 (d.before.val ++ d.value.chars ++ d.after.val) := by
    rw [htext]
    have hall := Source.spells_all d.text
    rwa [Document.text,String.toList_ofList] at hall
  have hsize : env.text.size = 0 + (d.before.val ++ d.value.chars).length + d.after.val.length := by
    rw [htext,Source.ofString,List.size_toArray,Document.text,String.toList_ofList,Nat.zero_add,
      List.length_append]
  have hfits : ∀ n ≤ longestBlank, Holder.top.FitsBudget n := fun n hn => by
    have hmost : (longestBlank + 1) * (Holder.top.returns + 1) ≤ searchBudget := by decide
    exact Nat.le_trans (Nat.mul_le_mul_right _ (Nat.succ_le_succ hn)) hmost
  have htop : Holder.top ∈ Holder.all := List.mem_cons_self
  have hrest := hspells.right
  have hfollows := d.after.follows hrest (by
    rw [← hsize,Array.getElem?_eq_none (Nat.le_refl _)]
    exact List.mem_cons_self)
  have hvalue : Arrives env s₀ 0 [.top] (d.value.tokens.map scopeOf) _ :=
    Value.scan ht d.value d.notLiteral htop hs₀ d.before hspells.left (Nat.zero_le _) (hfits _ h.before)
      (fun c hc => by rw [Haystack.charBefore?,if_pos (Nat.zero_le _)] at hc; cases hc) rfl hfollows h.stretches
      (by have hdepth := h.depth; simp only [maxOpenModes,List.length_nil]; omega)
  obtain ⟨s,cs,hcomes,⟨hstack,henclosing,hscopes⟩,hbuffer,hcs,hposition⟩ := hvalue
  rw [← hposition] at hrest hsize
  have hnode : s.top = rootNode := by rw [State.top,hstack]; rfl
  have hquiet := quiet_of_spells hrest (d.after.mem_quiet htop)
  rw [← hsize] at hquiet
  have hexec : (s.ruleSet env).exec env.text s.position s.firstRule = .ok none := by
    rw [State.ruleSet,hnode,State.firstRule,hcomes.1]
    refine hquiet.exec_end (Holder.build_rules ht htop) ?_ (by omega)
    exact hfits _ (by rw [hsize,Nat.add_sub_cancel_left]; exact h.after)
  obtain ⟨resumeAt,hrun⟩ := hcomes.run_eq h₀ hexec
  obtain ⟨f,g,hflush,htree⟩ :=
    flushesAs_open ht (show rootNode ∈ openNodes by decide) (wordless_append hcs d.after.wordless)
  rw [String.ofList_append,← hbuffer,← hrest.slice,← hsize,← hnode] at hflush
  obtain ⟨_,s',hfinish,rfl⟩ := (finish_succeeds (s := { s with resumeAt, stays := false }) hflush).exists_run
  rw [hrun,hfinish]
  refine ⟨_,rfl,hstack,?_⟩
  have henclosing' : (f s.tree).enclosing = [] := (htree _).1.trans henclosing
  have hfinished : (f s.tree).finish = (f s.tree).current.reverse := by
    rw [Tree.Builder.finish,Tree.Builder.closeAll,henclosing']
    rfl
  have hdrawn : (f s.tree).scopes = d.value.tokens.map scopeOf := by
    rw [(htree _).2,hscopes,List.append_nil]
  dsimp only
  rw [hfinished]
  exact hdrawn

/-- A search gives up on very many blanks before a value. -/
theorem run_gaveUp (d : Document) (hlong : longestBlank + 1 < d.before.val.length)
    (ht : Grammar.Bundled.json.assemble = .ok env.table) (hs₀ : Arrives env s₀ 0 [.top] [] 0)
    (h₀ : s₀.position ≤ env.text.size) (htext : env.text = .ofString d.text) :
    ∃ s, run env s₀ = (.error (.fault .searchGaveUp),s) := by
  obtain ⟨s,cs,hcomes,hbetween,-,-,hposition⟩ := hs₀
  have htop : Holder.top ∈ Holder.all := List.mem_cons_self
  have hspells : env.text.Spells 0 (d.before.val ++ d.value.chars ++ d.after.val) := by
    rw [htext]
    have hall := Source.spells_all d.text
    rwa [Document.text,String.toList_ofList] at hall
  have hquiet := quiet_of_spells hspells.left.left (d.before.mem_quiet htop)
  have hnode : s.top = rootNode := by rw [State.top,hbetween.stack]; rfl
  have hexec : (s.ruleSet env).exec env.text s.position s.firstRule = .error .searchGaveUp := by
    rw [State.ruleSet,hnode,State.firstRule,hcomes.1,hposition]
    refine hquiet.exec_gaveUp htop (Holder.build_rules ht htop) (Nat.zero_le _)
      (hspells.left.left.le_size (Nat.zero_le _)) ?_
    have hbudget : searchBudget = (longestBlank + 1) * (Holder.top.returns + 1) := rfl
    rw [hbudget,Nat.zero_add,Nat.sub_zero]
    exact Nat.mul_lt_mul_of_pos_right hlong (Nat.succ_pos _)
  exact hcomes.exists_run_eq_fault h₀ hexec

end Document
end JsonText

open JsonText

variable {h : Highlighter} {name key : String} {entry : Entry}

lemma exists_assemble_json : ∃ table, Grammar.Bundled.json.assemble = .ok table :=
  Grammar.exists_assemble (by decide +kernel)

/-- A text of JSON is highlighted to the end, and only the top mode is open there. The scopes are its tokens
other than punctuation, in order: names of members, other strings, numbers and literals. -/
theorem Highlighter.highlight_json (hfind : h.registry.find? name = some (key,entry))
    (hentry : entry.grammar = Grammar.Bundled.json) {d : Document} (hd : d.Manageable) (tolerant : Bool)
    (keys : List String) :
    ∃ r, ((h.highlight { name, code := d.text, tolerant }).run keys).1 = .ok r ∧ r.illegal = none ∧
      r.fault = none ∧ r.continuation = some { frames := [.top] } ∧
      scopesOf r.tree = d.value.tokens.map scopeOf := by
  obtain ⟨table,htable⟩ := exists_assemble_json
  obtain ⟨run,hcall⟩ := exists_highlight_eq (q := { name, code := d.text, tolerant }) hfind (hentry ▸ htable) keys
  have hopened : Arrives (h.envFor run table { name, code := d.text, tolerant })
      (.opened table none (keys.insert key)) 0 [.top] [] 0 :=
    ⟨_,[],comesTo_start rfl (Nat.zero_le _),⟨rfl,rfl,rfl⟩,rfl,rfl,rfl⟩
  obtain ⟨s,hrun,hstack,hscopes⟩ := hd.run_eq htable hopened (Nat.zero_le _) rfl
  refine ⟨_,hcall hrun,rfl,rfl,?_,hscopes⟩
  exact congrArg (fun frames : List Frame => some ({ frames } : Continuation)) hstack

/-- An object whose only member is an array of a number and a literal. -/
def JsonText.Document.small : Document where
  before := .none
  value := .object (.last .none [.unescaped 'a' (by decide)] .none (.mk (.spaces 1) (.array (.more
    (.mk .none (.number { negative := true, whole := .zero, fraction := none, exponent := none }) .none)
    (.last (.mk (.spaces 1) (.literal .null) .none)))) .none))
  after := .none
  notLiteral := rfl

theorem Highlighter.highlight_json_small :
    Document.small.text = "\x7b\"a\": [-0, null]\x7d" ∧ Document.small.Manageable ∧
    ∃ r, ((Highlighter.highlight { registry := .bundled }
        { name := "json", code := Document.small.text }).run []).1 = .ok r ∧
      r.illegal = none ∧ r.fault = none ∧ r.continuation = some { frames := [.top] } ∧
      scopesOf r.tree = [(some "attr","\"a\""),(some "number","-0"),(some "literal","null")] := by
  have hfind : Registry.bundled.find? "json" = some ("json",.ofGrammar Grammar.Bundled.json) := rfl
  have hsmall : Document.small.Manageable := ⟨by decide,by decide,by decide,by decide,by decide⟩
  exact ⟨rfl,hsmall,highlight_json (h := { registry := .bundled }) hfind rfl hsmall false []⟩

/-- A string after very many blanks is not found: the text falls back to plain text. -/
theorem Highlighter.exists_json_gaveUp : ∃ d : Document, d.value.depth ≤ 499 ∧
    ∃ r, ((Highlighter.highlight { registry := .bundled } { name := "json", code := d.text }).run []).1 = .ok r ∧
      r.fault = some .searchGaveUp ∧ scopesOf r.tree = [] ∧
      d.value.tokens.map scopeOf = [(some "string","\"\"")] := by
  obtain ⟨d,hlong,hdepth,htokens⟩ : ∃ d : Document, longestBlank + 1 < d.before.val.length ∧ d.value.depth ≤ 499 ∧
      d.value.tokens.map scopeOf = [(some "string","\"\"")] := by
    refine ⟨{ before := .spaces 200000, value := .string [], after := .none, notLiteral := rfl },?_,by decide,rfl⟩
    rw [show (Blank.spaces 200000).val = List.replicate 200000 ' ' from rfl,List.length_replicate]
    decide
  have hfind : Registry.bundled.find? "json" = some ("json",.ofGrammar Grammar.Bundled.json) := rfl
  obtain ⟨table,htable⟩ := exists_assemble_json
  obtain ⟨run,hcall⟩ := exists_highlight_eq (h := { registry := .bundled })
    (q := { name := "json", code := d.text }) hfind htable []
  have hopened : Arrives (Highlighter.envFor { registry := .bundled } run table { name := "json", code := d.text })
      (.opened table none (List.insert "json" [])) 0 [.top] [] 0 :=
    ⟨_,[],comesTo_start rfl (Nat.zero_le _),⟨rfl,rfl,rfl⟩,rfl,rfl,rfl⟩
  obtain ⟨s,hrun⟩ := d.run_gaveUp hlong htable hopened (Nat.zero_le _) rfl
  refine ⟨d,hdepth,_,hcall hrun,rfl,?_,htokens⟩
  change scopesOf (if d.text.isEmpty then [] else [.leaf d.text]) = []
  split <;> rfl

end Highlight
