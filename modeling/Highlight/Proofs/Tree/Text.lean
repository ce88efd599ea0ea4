import Highlight.Tree.Builder
import Mathlib.Tactic.Lemma

/-!
The text of a tree under construction: what the leaves spell out, those of the open scopes included.
Opening and closing scopes leave it as it is, and what is added comes last.
-/
namespace Highlight

namespace Tree

mutual

lemma walkThen_eq : ∀ (t : Tree) (rest : List WalkEvent), t.walkThen rest = t.walk ++ rest
  | leaf text, rest => rfl
  | scope tag children, rest => by
    simp only [walk,walkThen]
    rw [walkAllThen_eq children (.closes tag :: rest),walkAllThen_eq children [.closes tag]]
    simp

lemma walkAllThen_eq : ∀ (ts : List Tree) (rest : List WalkEvent),
    walkAllThen ts rest = walkAllThen ts [] ++ rest
  | [], rest => rfl
  | t :: ts, rest => by
    simp only [walkAllThen]
    rw [walkThen_eq t,walkThen_eq t (walkAllThen ts []),walkAllThen_eq ts rest]
    simp

end

/-- The text of several trees. -/
def texts (ts : List Tree) : String := String.join (ts.map text)

@[simp] lemma texts_nil : texts [] = "" := rfl

@[simp] lemma texts_cons (t : Tree) (ts : List Tree) : texts (t :: ts) = t.text ++ texts ts := by
  simp [texts,String.join_cons]

@[simp] lemma texts_append (ts us : List Tree) : texts (ts ++ us) = texts ts ++ texts us := by
  simp [texts,String.join_append]

@[simp] lemma text_leaf (text : String) : (leaf text).text = text := by
  simp [Tree.text,walk,walkThen,WalkEvent.leafText,String.join_cons]

lemma join_walkAllThen (ts : List Tree) :
    String.join ((walkAllThen ts []).map WalkEvent.leafText) = texts ts := by
  induction ts with
  | nil => rfl
  | cons t ts ih =>
    simp only [walkAllThen]
    rw [walkThen_eq]
    simp [String.join_append,ih,Tree.text]

@[simp] lemma text_scope (tag : Tag) (children : List Tree) :
    (scope tag children).text = texts children := by
  simp only [Tree.text,walk,walkThen]
  rw [walkAllThen_eq]
  simp [String.join_append,String.join_cons,join_walkAllThen,WalkEvent.leafText]

@[simp] lemma text_root (children : List Tree) : (root children).text = texts children :=
  text_scope {} children

namespace Builder

/-- The text before the innermost open scope. -/
def enclosingText : List (String × List Tree) → String
  | [] => ""
  | (_,before) :: rest => enclosingText rest ++ texts before.reverse

/-- The text that a tree under construction spells out so far. -/
def text (b : Builder) : String := enclosingText b.enclosing ++ texts b.current.reverse

@[simp] lemma text_empty : ({} : Builder).text = "" := rfl

@[simp] lemma text_openScope (b : Builder) (kind : String) : (b.openScope kind).text = b.text := by
  simp [text,openScope,enclosingText]

@[simp] lemma text_closeScope (b : Builder) : b.closeScope.text = b.text := by
  obtain ⟨current,enclosing⟩ := b
  cases enclosing with
  | nil => rfl
  | cons scope rest => simp [text,closeScope,enclosingText,String.append_assoc]

lemma texts_pushText (text : String) (nodes : List Tree) :
    texts (pushText text nodes).reverse = texts nodes.reverse ++ text := by
  cases nodes with
  | nil => simp [pushText]
  | cons t nodes =>
    cases t with
    | leaf last => simp [pushText,String.append_assoc]
    | scope tag children => simp [pushText,String.append_assoc]

@[simp] lemma text_addText (b : Builder) (s : String) : (b.addText s).text = b.text ++ s := by
  simp only [addText]
  split
  · rename_i h
    rw [String.isEmpty_iff.mp h,String.append_empty]
  · simp [text,texts_pushText,String.append_assoc]

@[simp] lemma text_addKeyword (b : Builder) (s kind : String) :
    (b.addKeyword s kind).text = b.text ++ s := by
  simp only [addKeyword]
  split
  · rename_i h
    rw [String.isEmpty_iff.mp h,String.append_empty]
  · simp

@[simp] lemma text_addEmbedded (b : Builder) (children : List Tree) (kind : Option String) :
    (b.addEmbedded children kind).text = b.text ++ texts children := by
  simp [text,addEmbedded,String.append_assoc]

lemma texts_collapse (current : List Tree) (enclosing : List (String × List Tree)) :
    texts (collapse current enclosing).reverse = enclosingText enclosing ++ texts current.reverse := by
  induction enclosing generalizing current with
  | nil => simp [collapse,enclosingText]
  | cons scope rest ih =>
    obtain ⟨kind,before⟩ := scope
    simp [collapse,ih,enclosingText,String.append_assoc]

/-- Nothing is lost where the open scopes are closed at the end. -/
@[simp] lemma texts_finish (b : Builder) : texts b.finish = b.text := texts_collapse _ _

@[simp] lemma depth_closeScope (b : Builder) : b.closeScope.depth = max 1 (b.depth - 1) := by
  obtain ⟨current,enclosing⟩ := b
  cases enclosing with
  | nil => rfl
  | cons scope rest => simp [depth,closeScope]

@[simp] lemma depth_addKeyword (b : Builder) (s kind : String) :
    (b.addKeyword s kind).depth = b.depth := by
  simp only [addKeyword]
  split
  · rfl
  · rw [depth_closeScope,depth_addText,depth_openScope]
    simp [depth]

@[simp] lemma depth_addEmbedded (b : Builder) (children : List Tree) (kind : Option String) :
    (b.addEmbedded children kind).depth = b.depth := rfl

end Builder
end Tree
end Highlight
