import Highlight.Format.Html
import Highlight.Proofs.Tree.Scopes

/-!
What the markup of a tree carries: tags that are properly nested, and the escaped text of the tree around
them, which can be unescaped.
-/
namespace Highlight

/-- The class of a scope in markup. -/
def Tag.className? (tag : Tag) (classPrefix : String) : Option String :=
  tag.kind.map ((if tag.embedded then "" else classPrefix) ++ ·)

namespace Tree

mutual

/-- The classes of the scopes of a tree in its markup, each before those inside it. -/
def classNames (classPrefix : String) : Tree → List String
  | leaf _ => []
  | scope tag children => (tag.className? classPrefix).toList ++ classNamesOf classPrefix children

def classNamesOf (classPrefix : String) : List Tree → List String
  | [] => []
  | t :: ts => t.classNames classPrefix ++ classNamesOf classPrefix ts

end

end Tree

namespace Html

variable {classPrefix markup body : String} {tag : Tag} {shown shown' : List Char} {ts us cs ds : List String}

/-- Markup without what stands from an opening bracket to the next closing one. It starts in a tag or not. -/
def stripFrom : Bool → List Char → List Char
  | _, [] => []
  | false, '<' :: rest => stripFrom true rest
  | false, c :: rest => c :: stripFrom false rest
  | true, '>' :: rest => stripFrom false rest
  | true, _ :: rest => stripFrom true rest

def strip (markup : String) : String := String.ofList (stripFrom false markup.toList)

/-- What stands in the tags of markup. It starts outside of tags, or in one of which the given characters
came before, the last one first. -/
def tagsFrom : Option (List Char) → List Char → List String
  | _, [] => []
  | none, '<' :: rest => tagsFrom (some []) rest
  | none, _ :: rest => tagsFrom none rest
  | some before, '>' :: rest => String.ofList before.reverse :: tagsFrom none rest
  | some before, c :: rest => tagsFrom (some (c :: before)) rest

def tags (markup : String) : List String := tagsFrom none markup.toList

def unescapeFrom : List Char → List Char
  | [] => []
  | '&' :: 'l' :: 't' :: ';' :: rest => '<' :: unescapeFrom rest
  | '&' :: 'g' :: 't' :: ';' :: rest => '>' :: unescapeFrom rest
  | '&' :: 'a' :: 'm' :: 'p' :: ';' :: rest => '&' :: unescapeFrom rest
  | c :: rest => c :: unescapeFrom rest

/-- Text that escaped text stands for, in one pass over it. -/
def unescape (text : String) : String := String.ofList (unescapeFrom text.toList)

/-- Tags that open and close spans, one in another or one after another. The spans have these classes, each
before those inside it. -/
inductive Nested : List String → List String → Prop
  | nil : Nested [] []
  | span {inner rest cs ds : List String} (className : String) (h : Nested inner cs) (hrest : Nested rest ds) :
      Nested (("span class=\"" ++ className ++ "\"") :: inner ++ "/span" :: rest) (className :: cs ++ ds)

lemma Nested.append (h : Nested ts cs) (h' : Nested us ds) : Nested (ts ++ us) (cs ++ ds) := by
  induction h with
  | nil => exact h'
  | span className h _ _ ih =>
    have hspan := Nested.span className h ih
    simpa only [List.cons_append,List.append_assoc] using hspan

/-- Markup that shows a text and has some tags, all of them complete. -/
structure Shows (markup : String) (shown : List Char) (ts : List String) : Prop where
  strip : ∀ rest, stripFrom false (markup.toList ++ rest) = shown ++ stripFrom false rest
  tags : ∀ rest, tagsFrom none (markup.toList ++ rest) = ts ++ tagsFrom none rest

namespace Shows

lemma empty : Shows "" [] [] := ⟨fun _ => rfl,fun _ => rfl⟩

lemma append {markup' : String} (h : Shows markup shown ts) (h' : Shows markup' shown' us) :
    Shows (markup ++ markup') (shown ++ shown') (ts ++ us) where
  strip rest := by rw [String.toList_append,List.append_assoc,h.strip,h'.strip,List.append_assoc]
  tags rest := by rw [String.toList_append,List.append_assoc,h.tags,h'.tags,List.append_assoc]

/-- A text without opening brackets shows itself. -/
lemma text {text : String} (h : '<' ∉ text.toList) : Shows text text.toList [] where
  strip rest := by
    generalize text.toList = cs at h ⊢
    induction cs with
    | nil => rfl
    | cons c cs ih =>
      obtain ⟨hc,hcs⟩ := List.ne_and_not_mem_of_not_mem_cons h
      rw [List.cons_append,List.cons_append,stripFrom,ih hcs]
      exact Ne.symm hc
  tags rest := by
    generalize text.toList = cs at h ⊢
    induction cs with
    | nil => rfl
    | cons c cs ih =>
      obtain ⟨hc,hcs⟩ := List.ne_and_not_mem_of_not_mem_cons h
      rw [List.cons_append,tagsFrom,ih hcs]
      exact Ne.symm hc

/-- A tag shows nothing. -/
lemma ofTag (h : '>' ∉ body.toList) : Shows ("<" ++ body ++ ">") [] [body] := by
  have hstrip : ∀ cs, '>' ∉ cs → ∀ rest, stripFrom true (cs ++ '>' :: rest) = stripFrom false rest := by
    intro cs hcs rest
    induction cs with
    | nil => rfl
    | cons c cs ih =>
      obtain ⟨hc,hcs⟩ := List.ne_and_not_mem_of_not_mem_cons hcs
      rw [List.cons_append,stripFrom,ih hcs]
      exact Ne.symm hc
  have htags : ∀ cs, '>' ∉ cs → ∀ before rest, tagsFrom (some before) (cs ++ '>' :: rest) =
      String.ofList (before.reverse ++ cs) :: tagsFrom none rest := by
    intro cs hcs before rest
    induction cs generalizing before with
    | nil => rw [List.append_nil]; rfl
    | cons c cs ih =>
      obtain ⟨hc,hcs⟩ := List.ne_and_not_mem_of_not_mem_cons hcs
      rw [List.cons_append,tagsFrom,ih hcs,List.reverse_cons,List.append_assoc]
      · rfl
      · exact Ne.symm hc
  have hlist : ∀ rest, ("<" ++ body ++ ">").toList ++ rest = '<' :: (body.toList ++ '>' :: rest) := by simp
  constructor
  · intro rest
    rw [hlist,stripFrom,hstrip _ h]
    rfl
  · intro rest
    rw [hlist,tagsFrom,htags _ h]
    simp

end Shows

lemma escapeChar_eq_self {c : Char} (h : ¬ (c = '&' ∨ c = '<' ∨ c = '>')) : escapeChar c = [c] := by
  unfold escapeChar
  split
  · exact absurd (.inl rfl) h
  · exact absurd (.inr (.inl rfl)) h
  · exact absurd (.inr (.inr rfl)) h
  · rfl

lemma not_mem_escapeChar (c : Char) : '<' ∉ escapeChar c := by
  by_cases h : c = '&' ∨ c = '<' ∨ c = '>'
  · rcases h with rfl | rfl | rfl <;> decide
  · rw [escapeChar_eq_self h,List.mem_singleton]
    exact fun hc => h (.inr (.inl hc.symm))

lemma shows_escape (text : String) : Shows (escape text) (escape text).toList [] := by
  refine .text (fun h => ?_)
  rw [escape,String.toList_ofList,List.mem_flatMap] at h
  obtain ⟨c,-,hc⟩ := h
  exact not_mem_escapeChar c hc

lemma unescapeFrom_escapeChar (c : Char) (rest : List Char) :
    unescapeFrom (escapeChar c ++ rest) = c :: unescapeFrom rest := by
  by_cases h : c = '&' ∨ c = '<' ∨ c = '>'
  · rcases h with rfl | rfl | rfl <;> rfl
  · rw [escapeChar_eq_self h,List.singleton_append,unescapeFrom]
    all_goals exact fun _ hc _ => h (.inl hc)

/-- Escaped text can be unescaped, whatever it looks like. -/
theorem unescape_escape (text : String) : unescape (escape text) = text := by
  have hlist : ∀ cs : List Char, unescapeFrom (cs.flatMap escapeChar) = cs := by
    intro cs
    induction cs with
    | nil => rfl
    | cons c cs ih => rw [List.flatMap_cons,unescapeFrom_escapeChar,ih]
  rw [unescape,escape,String.toList_ofList,hlist,String.ofList_toList]

lemma escape_append (a b : String) : escape (a ++ b) = escape a ++ escape b := by
  rw [escape,String.toList_append,List.flatMap_append,String.ofList_append]
  rfl

section Trees

open Highlight.Tree (walkAllThen walkThen walkThen_eq walkAllThen_eq texts classNamesOf scopesOf)

lemma render_leaf (text : String) : render classPrefix (.leaf text) = escape text := by
  simp [render,Tree.walk,walkThen,ofEvent,String.join_cons]

lemma join_ofEvent (ts : List Tree) : String.join ((walkAllThen ts []).map (ofEvent classPrefix)) =
    String.join (ts.map (render classPrefix)) := by
  induction ts with
  | nil => rfl
  | cons t ts ih =>
    simp only [walkAllThen]
    rw [walkThen_eq]
    simp [String.join_append,String.join_cons,ih,render]

lemma render_scope (tag : Tag) (children : List Tree) : render classPrefix (.scope tag children) =
    openTag classPrefix tag ++ String.join (children.map (render classPrefix)) ++ closeTag tag := by
  simp only [render,Tree.walk,walkThen]
  rw [walkAllThen_eq]
  simp [String.join_append,String.join_cons,join_ofEvent,ofEvent,String.append_assoc]

/-- The tags of a scope with a class. -/
lemma tags_of_eq_some {name : String} (h : tag.className? classPrefix = some name) :
    openTag classPrefix tag = "<" ++ ("span class=\"" ++ name ++ "\"") ++ ">" ∧
      closeTag tag = "<" ++ "/span" ++ ">" := by
  obtain ⟨kind,hkind,rfl⟩ := Option.map_eq_some_iff.mp h
  refine ⟨?_,?_⟩
  · have hopen : "<span class=\"" = "<" ++ "span class=\"" := rfl
    have hclose : "\">" = "\"" ++ ">" := rfl
    simp only [openTag,hkind,hopen,hclose,String.append_assoc]
  · rw [closeTag,hkind]
    rfl

/-- A scope without a class has no tags. -/
lemma tags_of_eq_none (h : tag.className? classPrefix = none) :
    openTag classPrefix tag = "" ∧ closeTag tag = "" := by
  have hkind : tag.kind = none := Option.map_eq_none_iff.mp h
  rw [openTag,closeTag,hkind]
  exact ⟨rfl,rfl⟩

/-- What a scope has around it is a pair of tags, or nothing. -/
lemma Shows.inScope (h : Shows markup shown ts) (hnested : Nested ts cs)
    (hname : ∀ name ∈ tag.className? classPrefix, '>' ∉ name.toList) :
    ∃ us, Shows (openTag classPrefix tag ++ markup ++ closeTag tag) shown us ∧
      Nested us ((tag.className? classPrefix).toList ++ cs) := by
  cases hclass : tag.className? classPrefix with
  | none =>
    obtain ⟨hopen,hclose⟩ := tags_of_eq_none hclass
    refine ⟨ts,?_,hnested⟩
    rwa [hopen,hclose,String.empty_append,String.append_empty]
  | some name =>
    obtain ⟨hopen,hclose⟩ := tags_of_eq_some hclass
    have hbody : '>' ∉ ("span class=\"" ++ name ++ "\"").toList := by
      have hfree := hname name hclass
      simp [hfree]
    have hshows := ((ofTag hbody).append h).append (ofTag (show '>' ∉ "/span".toList by decide))
    rw [← hopen,← hclose,List.nil_append,List.append_nil] at hshows
    refine ⟨_,hshows,?_⟩
    have hspan := Nested.span name hnested .nil
    rwa [List.append_nil] at hspan

mutual

lemma shows_render : ∀ t : Tree, (∀ name ∈ t.classNames classPrefix, '>' ∉ name.toList) →
    ∃ ts, Shows (render classPrefix t) (escape t.text).toList ts ∧ Nested ts (t.classNames classPrefix)
  | .leaf text, _ => ⟨[],by rw [render_leaf,Tree.text_leaf]; exact shows_escape text,.nil⟩
  | .scope tag children, h => by
    rw [Tree.classNames] at h ⊢
    obtain ⟨ts,hshows,hnested⟩ :=
      shows_renderAll children (fun name hname => h name (List.mem_append_right _ hname))
    rw [render_scope,Tree.text_scope]
    exact hshows.inScope hnested (fun name hname => h name (List.mem_append_left _ (Option.mem_toList.mpr hname)))

lemma shows_renderAll : ∀ ts : List Tree, (∀ name ∈ classNamesOf classPrefix ts, '>' ∉ name.toList) →
    ∃ us, Shows (String.join (ts.map (render classPrefix))) (escape (texts ts)).toList us ∧
      Nested us (classNamesOf classPrefix ts)
  | [], _ => ⟨[],.empty,.nil⟩
  | t :: ts, h => by
    rw [classNamesOf] at h ⊢
    obtain ⟨us,hshows,hnested⟩ := shows_render t (fun name hname => h name (List.mem_append_left _ hname))
    obtain ⟨vs,hshows',hnested'⟩ := shows_renderAll ts (fun name hname => h name (List.mem_append_right _ hname))
    refine ⟨us ++ vs,?_,hnested.append hnested'⟩
    rw [List.map_cons,String.join_cons,Tree.texts_cons,escape_append,String.toList_append]
    exact hshows.append hshows'

end

mutual

lemma not_mem_classNames (hbefore : '>' ∉ classPrefix.toList) : ∀ t : Tree,
    (∀ scope ∈ t.scopes, ∀ kind ∈ scope.1, '>' ∉ kind.toList) → ∀ name ∈ t.classNames classPrefix, '>' ∉ name.toList
  | .leaf _, _ => fun name hname => by cases hname
  | .scope tag children, h => by
    rw [Tree.scopes] at h
    intro name hname
    rw [Tree.classNames] at hname
    rcases List.mem_append.mp hname with hname | hname
    · obtain ⟨kind,hkind,rfl⟩ := Option.map_eq_some_iff.mp (Option.mem_toList.mp hname)
      have hfree := h _ List.mem_cons_self kind hkind
      split <;> simp [hfree,hbefore]
    · exact not_mem_classNamesOf hbefore children (fun scope hscope => h scope (List.mem_cons_of_mem _ hscope))
        name hname

lemma not_mem_classNamesOf (hbefore : '>' ∉ classPrefix.toList) : ∀ ts : List Tree,
    (∀ scope ∈ scopesOf ts, ∀ kind ∈ scope.1, '>' ∉ kind.toList) →
      ∀ name ∈ classNamesOf classPrefix ts, '>' ∉ name.toList
  | [], _ => fun name hname => by cases hname
  | t :: ts, h => by
    rw [scopesOf] at h
    intro name hname
    rw [classNamesOf] at hname
    rcases List.mem_append.mp hname with hname | hname
    · exact not_mem_classNames hbefore t (fun scope hscope => h scope (List.mem_append_left _ hscope)) name hname
    · exact not_mem_classNamesOf hbefore ts (fun scope hscope => h scope (List.mem_append_right _ hscope))
        name hname

end

/-- The markup of a tree has properly nested tags, one that opens and one that closes for each scope with a
class. Without the tags it is the escaped text of the tree, which can be unescaped. -/
theorem render_carries {t : Tree} (hbefore : '>' ∉ classPrefix.toList)
    (hkinds : ∀ scope ∈ t.scopes, ∀ kind ∈ scope.1, '>' ∉ kind.toList) :
    Nested (tags (render classPrefix t)) (t.classNames classPrefix) ∧
      strip (render classPrefix t) = escape t.text ∧ unescape (strip (render classPrefix t)) = t.text := by
  obtain ⟨ts,hshows,hnested⟩ := shows_render t (not_mem_classNames hbefore t hkinds)
  have htags : tags (render classPrefix t) = ts := by
    have h := hshows.tags []
    rwa [List.append_nil,tagsFrom,List.append_nil] at h
  have hstrip : strip (render classPrefix t) = escape t.text := by
    have h := hshows.strip []
    rw [List.append_nil,stripFrom,List.append_nil] at h
    rw [strip,h,String.ofList_toList]
  rw [htags,hstrip]
  exact ⟨hnested,rfl,unescape_escape t.text⟩

/-- A text that looks like markup, in a scope without a class inside an embedded one. -/
theorem render_carries_entity :
    let t : Tree := .root
      [.leaf "a",.scope ⟨some "b",true⟩ [.scope {} [.leaf "<&lt;"],.scope ⟨some "c",false⟩ []]]
    Nested ["span class=\"b\"","span class=\"p-c\"","/span","/span"] ["b","p-c"] ∧
      strip (render "p-" t) = "a&lt;&amp;lt;" ∧ unescape "a&lt;&amp;lt;" = "a<&lt;" :=
  @render_carries "p-"
    (.root [.leaf "a",.scope ⟨some "b",true⟩ [.scope {} [.leaf "<&lt;"],.scope ⟨some "c",false⟩ []]])
    (by decide) (by decide)

end Trees

end Html
end Highlight
