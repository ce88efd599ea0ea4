import Highlight.Proofs.Tree.Text

/-!
The scopes of a tree, and where they lie: inside which others, and after which text. Text that is added to a
tree under construction adds no scope, and a scope that closes comes after those before it. It stays where it
is, whatever is added to the tree.
-/
namespace Highlight.Tree

mutual

/-- The scopes of a tree, each before those inside it, with its class and its text. -/
def scopes : Tree → List (Option String × String)
  | leaf _ => []
  | scope tag children => (tag.kind,texts children) :: scopesOf children

/-- The scopes of several trees. -/
def scopesOf : List Tree → List (Option String × String)
  | [] => []
  | t :: ts => t.scopes ++ scopesOf ts

end

lemma scopesOf_append (ts us : List Tree) : scopesOf (ts ++ us) = scopesOf ts ++ scopesOf us := by
  induction ts with
  | nil => rfl
  | cons t ts ih => rw [List.cons_append,scopesOf,scopesOf,ih,List.append_assoc]

namespace Builder

variable {b : Builder}

/-- The scopes that have closed in the innermost open scope. -/
def scopes (b : Builder) : List (Option String × String) := scopesOf b.current.reverse

/-- The text in the innermost open scope. -/
def ownText (b : Builder) : String := texts b.current.reverse

@[simp] lemma enclosing_addText (b : Builder) (s : String) : (b.addText s).enclosing = b.enclosing := by
  rw [addText]
  split
  · rfl
  · rfl

@[simp] lemma scopes_addText (b : Builder) (s : String) : (b.addText s).scopes = b.scopes := by
  obtain ⟨current,enclosing⟩ := b
  rw [addText]
  split
  · rfl
  · simp only [scopes]
    cases current with
    | nil => rfl
    | cons t current =>
      cases t with
      | leaf last => simp [pushText,scopesOf_append,scopesOf,Tree.scopes]
      | scope tag children => simp [pushText,scopesOf_append,scopesOf,Tree.scopes]

@[simp] lemma ownText_addText (b : Builder) (s : String) : (b.addText s).ownText = b.ownText ++ s := by
  rw [addText]
  split
  · rename_i hempty
    rw [String.isEmpty_iff.mp hempty,String.append_empty]
  · exact texts_pushText s b.current

@[simp] lemma enclosing_addKeyword (b : Builder) (s kind : String) :
    (b.addKeyword s kind).enclosing = b.enclosing := by
  rw [addKeyword]
  split
  · rfl
  · simp [closeScope,openScope]

/-- A keyword is a scope of its own. -/
lemma scopes_addKeyword (b : Builder) {s : String} (hs : s ≠ "") (kind : String) :
    (b.addKeyword s kind).scopes = b.scopes ++ [(some kind,s)] := by
  have hempty : s.isEmpty = false := by simpa using hs
  simp [addKeyword,hempty,openScope,closeScope,addText,pushText,scopes,scopesOf_append,scopesOf,
    Tree.scopes]

/-- A scope closes as one of the scopes around it, with those inside it after it. -/
lemma scopes_closeScope {kind : String} {before : List Tree} {rest : List (String × List Tree)}
    (h : b.enclosing = (kind,before) :: rest) : b.closeScope.enclosing = rest ∧
      b.closeScope.scopes = scopesOf before.reverse ++ (some kind,b.ownText) :: b.scopes := by
  rw [closeScope,h]
  simp [scopes,ownText,scopesOf_append,scopesOf,Tree.scopes]

end Builder
end Highlight.Tree

namespace Highlight.Tree

/-- A scope: the classes of the scopes around it, from the outside in, the text before it, its class and its
text. -/
structure Located where
  around : List (Option String)
  before : String
  kind : Option String
  text : String
  deriving DecidableEq, Repr

mutual

/-- The scopes of a tree that lies inside others, after a text. -/
def located (around : List (Option String)) (before : String) : Tree → List Located
  | leaf _ => []
  | scope tag children =>
    ⟨around,before,tag.kind,texts children⟩ :: locatedIn (around ++ [tag.kind]) before children

/-- The scopes of successive trees. -/
def locatedIn (around : List (Option String)) (before : String) : List Tree → List Located
  | [] => []
  | t :: ts => t.located around before ++ locatedIn around (before ++ t.text) ts

end

variable {around : List (Option String)} {before : String}

lemma locatedIn_append (ts us : List Tree) : locatedIn around before (ts ++ us) =
    locatedIn around before ts ++ locatedIn around (before ++ texts ts) us := by
  induction ts generalizing before with
  | nil => rw [List.nil_append,locatedIn,List.nil_append,texts_nil,String.append_empty]
  | cons t ts ih =>
    rw [List.cons_append,locatedIn,locatedIn,ih,texts_cons,List.append_assoc,String.append_assoc]

lemma locatedIn_leaf (text : String) : locatedIn around before [leaf text] = [] := by
  rw [locatedIn,located,locatedIn,List.nil_append]

lemma locatedIn_scope (tag : Tag) (children : List Tree) : locatedIn around before [scope tag children] =
    ⟨around,before,tag.kind,texts children⟩ :: locatedIn (around ++ [tag.kind]) before children := by
  rw [locatedIn,located,locatedIn,List.append_nil]

namespace Builder

variable {b : Builder}

/-- The classes of open scopes, from the outside in. -/
def kinds (enclosing : List (String × List Tree)) : List (Option String) :=
  (enclosing.map (fun scope => some scope.1)).reverse

lemma kinds_cons (kind : String) (before : List Tree) (rest : List (String × List Tree)) :
    kinds ((kind,before) :: rest) = kinds rest ++ [some kind] := by
  simp [kinds]

/-- The scopes that have closed before the open ones. -/
def locatedAround : List (String × List Tree) → List Located
  | [] => []
  | (_,before) :: rest => locatedAround rest ++ locatedIn (kinds rest) (enclosingText rest) before.reverse

/-- The scopes that have closed. -/
def located (b : Builder) : List Located :=
  locatedAround b.enclosing ++ locatedIn (kinds b.enclosing) (enclosingText b.enclosing) b.current.reverse

lemma locatedIn_pushText (text : String) (nodes : List Tree) :
    locatedIn around before (pushText text nodes).reverse = locatedIn around before nodes.reverse := by
  have hleaf : ∀ (rest : List Tree) (text : String),
      locatedIn around before (leaf text :: rest).reverse = locatedIn around before rest.reverse := by
    intro rest text
    rw [List.reverse_cons,locatedIn_append,locatedIn_leaf,List.append_nil]
  cases nodes with
  | nil => exact hleaf [] text
  | cons t rest =>
    cases t with
    | leaf last => exact (hleaf rest _).trans (hleaf rest last).symm
    | scope tag children => exact hleaf _ text

@[simp] lemma located_addText (b : Builder) (text : String) : (b.addText text).located = b.located := by
  rw [addText]
  split
  · rfl
  · rw [located,locatedIn_pushText]
    rfl

@[simp] lemma located_openScope (b : Builder) (kind : String) : (b.openScope kind).located = b.located := by
  rw [located,openScope,locatedAround,List.reverse_nil,locatedIn,List.append_nil]
  rfl

/-- A scope that closes comes in, and those inside it stay. -/
lemma located_closeScope {kind : String} {before : List Tree} {rest : List (String × List Tree)}
    (h : b.enclosing = (kind,before) :: rest) : b.closeScope.located =
      locatedAround b.enclosing ++ ⟨kinds rest,enclosingText b.enclosing,some kind,b.ownText⟩ ::
        locatedIn (kinds b.enclosing) (enclosingText b.enclosing) b.current.reverse := by
  rw [closeScope,h,located,List.reverse_cons,locatedIn_append,locatedIn_scope,locatedAround,kinds_cons,
    enclosingText,List.append_assoc]
  rfl

lemma located_subset_closeScope (b : Builder) : b.located ⊆ b.closeScope.located := by
  cases h : b.enclosing with
  | nil => simp [closeScope,h]
  | cons scope rest =>
    rw [located_closeScope h,located]
    exact List.append_subset.mpr ⟨List.subset_append_left _ _,
      List.subset_append_of_subset_right _ (List.subset_cons_self _ _)⟩

/-- A scope that closes is the only new one. -/
lemma mem_located_closeScope {scope : Located} (h : scope ∈ b.closeScope.located) : scope ∈ b.located ∨
    ∃ kind before rest, b.enclosing = (kind,before) :: rest ∧
      scope = ⟨kinds rest,enclosingText ((kind,before) :: rest),some kind,b.ownText⟩ := by
  cases henclosing : b.enclosing with
  | nil =>
    rw [closeScope,henclosing] at h
    exact .inl h
  | cons around rest =>
    obtain ⟨kind,before⟩ := around
    rw [located_closeScope henclosing,List.mem_append,List.mem_cons] at h
    rcases h with h | rfl | h
    · exact .inl (List.mem_append_left _ h)
    · exact .inr ⟨kind,before,rest,rfl,by rw [henclosing]⟩
    · exact .inl (List.mem_append_right _ h)

lemma located_subset_addKeyword (b : Builder) (text kind : String) :
    b.located ⊆ (b.addKeyword text kind).located := by
  rw [addKeyword]
  split
  · exact List.Subset.refl _
  · have hclose := located_subset_closeScope ((b.openScope kind).addText text)
    rwa [located_addText,located_openScope] at hclose

lemma located_subset_addEmbedded (b : Builder) (children : List Tree) (kind : Option String) :
    b.located ⊆ (b.addEmbedded children kind).located := by
  rw [located,located,addEmbedded,List.reverse_cons,locatedIn_append,← List.append_assoc]
  exact List.subset_append_left _ _

/-- The scopes that have closed are in the finished tree, whose other scopes are those that were open. -/
lemma located_subset_finish (b : Builder) : b.located ⊆ locatedIn [] "" b.finish := by
  obtain ⟨current,enclosing⟩ := b
  induction enclosing generalizing current with
  | nil => exact List.Subset.refl _
  | cons scope rest ih =>
    exact List.Subset.trans (located_subset_closeScope _) (ih _)

/-- The scopes of the finished tree have closed before, or are among those that were open. -/
lemma mem_located_finish {scope : Located} (h : scope ∈ locatedIn [] "" b.finish) :
    scope ∈ b.located ∨ scope.kind ∈ kinds b.enclosing := by
  obtain ⟨current,enclosing⟩ := b
  induction enclosing generalizing current with
  | nil => exact .inl h
  | cons around rest ih =>
    obtain ⟨kind,before⟩ := around
    rw [kinds_cons]
    rcases ih _ h with h | h
    · rcases mem_located_closeScope (b := ⟨current,(kind,before) :: rest⟩) h with h | ⟨_,_,_,henclosing,rfl⟩
      · exact .inl h
      · obtain ⟨rfl,-⟩ := Prod.mk.inj (List.cons.inj henclosing).1
        exact .inr (List.mem_append_right _ List.mem_cons_self)
    · exact .inr (List.mem_append_left _ h)

end Builder
end Highlight.Tree
