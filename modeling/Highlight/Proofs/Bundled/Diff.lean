import Highlight.Grammar.Bundled
import Highlight.Proofs.Assembly.Compiled
import Highlight.Proofs.Calls
import Highlight.Proofs.Scan.LineTrees

/-!
Differences between files are highlighted line by line. The result for two texts with a line break between
them is put together from the results for each of them.
-/
namespace Highlight

open Rules Regex Highlight.Tree

namespace Regex

/-- A text before a line break is lines of the whole. -/
lemma lines_front (front back : Source) : Lines front (front ++ #['\n'] ++ back) 0 where
  fits := by
    rw [Array.size_append,Array.size_append]
    omega
  chars k hk := by rw [Nat.zero_add,Array.append_assoc,Array.getElem?_append_left hk]
  starts := .inl rfl
  stops := by
    right
    rw [Nat.zero_add,Array.append_assoc,Array.getElem?_append_right (Nat.le_refl _),Nat.sub_self]
    exact Array.getElem?_append_left (Nat.zero_lt_one)

/-- A text after a line break is lines of the whole. -/
lemma lines_back (front back : Source) : Lines back (front ++ #['\n'] ++ back) (front.size + 1) where
  fits := by simp
  chars k hk := by
    rw [Array.getElem?_append_right (by simp)]
    congr 1
    simp
  starts := by
    right
    rw [Nat.add_sub_cancel,Array.append_assoc,Array.getElem?_append_right (Nat.le_refl _),Nat.sub_self]
    exact Array.getElem?_append_left (Nat.zero_lt_one)
  stops := .inl (by simp)

end Regex

section Marked

variable {g : Grammar} {ms : List LineMode} {h : Highlighter} {name key : String} {entry : Entry}
variable {table : NodeTable}

/-- A call for a grammar of line marks gives their tree. -/
lemma Grammar.MarksLines.highlight_gives (hms : g.MarksLines ms)
    (hfind : h.registry.find? name = some (key,entry)) (hentry : entry.grammar = g)
    (htable : g.assemble = .ok table) {code : String} {marks : List Mark}
    (hmarks : MarkedFrom ms (.ofString code) 0 marks) (tolerant : Bool) (keys : List String) :
    ∃ r, ((h.highlight { name, code, tolerant }).run keys).1 = .ok r ∧
      r.tree = lineTrees (.ofString code) 0 marks ∧ r.relevance = scoreMarks marks ∧
      r.fault = none ∧ r.illegal = none := by
  obtain ⟨run,hcall⟩ := Highlighter.exists_highlight_eq (q := { name, code, tolerant }) hfind
    (hentry ▸ htable) keys
  have htop : Scan.AtTop 0 {} 0 (.opened table none (keys.insert key)) := ⟨rfl,rfl,rfl,rfl,rfl⟩
  obtain ⟨s,hrun,-,htree,hrelevance⟩ : ∃ s, Scan.run (h.envFor run table { name, code, tolerant })
      (.opened table none (keys.insert key)) = (.ok (),s) ∧ _ :=
    htop.run_eq hms htable (Nat.zero_le _) hmarks (Scan.comesTo_start rfl (Nat.zero_le _))
  refine ⟨_,hcall hrun,?_,hrelevance,rfl,rfl⟩
  refine (congrArg Builder.finish htree).trans ?_
  exact finish_drawFrom _ _ _ (fun u hu => by cases hu)

end Marked

namespace Grammar.Bundled

/-- The modes of diffs, in the order of their nodes. -/
def diffLines : List LineMode := [
  ⟨"^@@ +-\\d+,\\d+ +\\+\\d+,\\d+ +@@$","meta",10,false⟩,
  ⟨"^\\*\\*\\* +\\d+,\\d+ +\\*\\*\\*\\*$","meta",10,false⟩,
  ⟨"^--- +\\d+,\\d+ +----$","meta",10,false⟩,
  ⟨"Index: ","comment",1,true⟩,
  ⟨"=\x7b3,\x7d","comment",1,true⟩,
  ⟨"^-\x7b3\x7d","comment",1,true⟩,
  ⟨"^\\*\x7b3\x7d ","comment",1,true⟩,
  ⟨"^\\+\x7b3\x7d","comment",1,true⟩,
  ⟨"^\\*\x7b15\x7d$","comment",1,false⟩,
  ⟨"^\\+","addition",1,true⟩,
  ⟨"^-","deletion",1,true⟩,
  ⟨"^!","addition",1,true⟩]

lemma marksLines_diff : diff.MarksLines diffLines where
  ignoreCase := rfl
  outlines := by decide +kernel
  combinable := by decide +kernel
  plain := by decide +kernel
  staysInLine := by decide +kernel
  takesSome := by decide +kernel

lemma exists_assemble_diff : ∃ table, diff.assemble = .ok table := Grammar.exists_assemble (by decide +kernel)

end Grammar.Bundled

open Grammar.Bundled

/-- A result without a fault or an illegal lexeme, none of whose scopes has a line break in it. The scopes
inside a scope have a part of its text. -/
structure Result.InLines (r : Result) : Prop where
  fault : r.fault = none
  illegal : r.illegal = none
  scopes : ∀ tag children, .scope tag children ∈ r.tree → '\n' ∉ (Tree.scope tag children).text.toList

/-- Diffs are highlighted line by line: the tree for two texts with a line break between them is the tree
for the one, the line break, and the tree for the other, with leaves that lie side by side made one. The
relevances add up as far as relevance goes. -/
theorem Highlighter.highlight_diff_append {h : Highlighter} {name key : String} {entry : Entry}
    (hfind : h.registry.find? name = some (key,entry)) (hentry : entry.grammar = diff) (a b : String)
    (tolerant : Bool) (keys : List String) :
    ∃ ra rb r, ((h.highlight { name, code := a, tolerant }).run keys).1 = .ok ra ∧
      ((h.highlight { name, code := b, tolerant }).run keys).1 = .ok rb ∧
      ((h.highlight { name, code := a ++ "\n" ++ b, tolerant }).run keys).1 = .ok r ∧
      r.tree = mergeLeaves (ra.tree ++ .leaf "\n" :: rb.tree) ∧
      r.relevance = addRelevance ra.relevance rb.relevance ∧ ∀ x ∈ [ra,rb,r], x.InLines := by
  have hms := marksLines_diff
  obtain ⟨table,htable⟩ := exists_assemble_diff
  have hgives : ∀ code marks, MarkedFrom diffLines (.ofString code) 0 marks → _ := fun _ _ hmarks =>
    hms.highlight_gives hfind hentry htable hmarks tolerant keys
  obtain ⟨marksA,hmarksA⟩ := hms.exists_marks htable (.ofString a) (Nat.zero_le _)
  obtain ⟨marksB,hmarksB⟩ := hms.exists_marks htable (.ofString b) (Nat.zero_le _)
  have hsource : Source.ofString (a ++ "\n" ++ b) = Source.ofString a ++ #['\n'] ++ Source.ofString b := by
    rw [Source.ofString_append,Source.ofString_append]
    rfl
  have hmarks := MarkedFrom.append hms.staysInLine hms.takesSome (lines_front _ _) (lines_back _ _) (by simp)
    (Nat.zero_le _) hmarksA hmarksB
  rw [← hsource] at hmarks
  obtain ⟨ra,hra,htreeA,hrelevanceA,hfaultA,hillegalA⟩ := hgives a _ hmarksA
  obtain ⟨rb,hrb,htreeB,hrelevanceB,hfaultB,hillegalB⟩ := hgives b _ hmarksB
  obtain ⟨r,hr,htree,hrelevance,hfault,hillegal⟩ := hgives (a ++ "\n" ++ b) _ hmarks
  refine ⟨ra,rb,r,hra,hrb,hr,?_,?_,?_⟩
  · rw [htree,htreeA,htreeB,hsource]
    exact lineTrees_append (Nat.zero_le _) (hmarksA.within hms.takesSome) _ _
  · rw [hrelevance,hrelevanceA,hrelevanceB,scoreMarks_append]
  · have hlines : ∀ {code marks} {x : Result}, MarkedFrom diffLines (.ofString code) 0 marks →
        x.tree = lineTrees (.ofString code) 0 marks → x.fault = none → x.illegal = none → x.InLines :=
      fun hm ht hf hi => ⟨hf,hi,fun tag children hmem => hm.scope_text hms.staysInLine (ht ▸ hmem)⟩
    simp only [List.forall_mem_cons]
    exact ⟨hlines hmarksA htreeA hfaultA hillegalA,hlines hmarksB htreeB hfaultB hillegalB,
      hlines hmarks htree hfault hillegal,fun x hx => by cases hx⟩

/-- A hunk before a line that is taken out. -/
theorem Highlighter.highlight_diff_append_bundled : ∃ ra rb r,
    ((Highlighter.highlight { registry := .bundled } { name := "patch", code := "@@ -1,2 +1,2 @@" }).run []).1 =
      .ok ra ∧
    ((Highlighter.highlight { registry := .bundled } { name := "patch", code := "-old\n" }).run []).1 = .ok rb ∧
    ((Highlighter.highlight { registry := .bundled }
      { name := "patch", code := "@@ -1,2 +1,2 @@" ++ "\n" ++ "-old\n" }).run []).1 = .ok r ∧
    r.tree = mergeLeaves (ra.tree ++ .leaf "\n" :: rb.tree) ∧
    r.relevance = addRelevance ra.relevance rb.relevance ∧ ∀ x ∈ [ra,rb,r], x.InLines := by
  have hfind : Registry.bundled.find? "patch" = some ("diff",.ofGrammar diff) := rfl
  exact highlight_diff_append (h := { registry := .bundled }) hfind rfl "@@ -1,2 +1,2 @@" "-old\n" false []

end Highlight
