import Highlight.Proofs.Tree.Text
import Mathlib.Data.List.Chain

/-!
Trees as what comes out of operations in any order. Whatever opens and closes between them, the texts
that the operations add come out one after the other; and leaves that would lie side by side are one
leaf, as long as this holds in the trees that are embedded.
-/
namespace Highlight.Tree

def isLeaf : Tree → Bool
  | leaf _ => true
  | scope .. => false

/-- Two trees that are not both leaves. -/
def Apart (t u : Tree) : Prop := t.isLeaf = false ∨ u.isLeaf = false

lemma Apart.symm {t u : Tree} (h : Apart t u) : Apart u t := Or.symm h

/-- No leaf is empty, and no two leaves lie side by side in one scope. -/
inductive Tidy : Tree → Prop where
  | leaf {text : String} (htext : text ≠ "") : Tidy (leaf text)
  | scope {tag : Tag} {children : List Tree} (hall : ∀ t ∈ children, Tidy t)
      (hapart : children.IsChain Apart) : Tidy (scope tag children)

/-- Trees that are tidy together, as the children of one scope. -/
structure AllTidy (ts : List Tree) : Prop where
  all : ∀ t ∈ ts, t.Tidy
  apart : ts.IsChain Apart

namespace AllTidy

variable {ts : List Tree} {t : Tree}

lemma nil : AllTidy [] := ⟨nofun,.nil⟩

lemma reverse (h : AllTidy ts) : AllTidy ts.reverse :=
  ⟨fun t ht => h.all t (List.mem_reverse.mp ht),
    List.isChain_reverse.mpr (h.apart.imp (fun _ _ => Apart.symm))⟩

lemma tail (h : AllTidy (t :: ts)) : AllTidy ts :=
  ⟨fun u hu => h.all u (List.mem_cons_of_mem _ hu),h.apart.tail⟩

/-- Next to a scope there may be anything. -/
lemma cons_scope {tag : Tag} {children : List Tree} (h : AllTidy ts) (hchildren : AllTidy children) :
    AllTidy (scope tag children :: ts) := by
  refine ⟨List.forall_mem_cons.mpr ⟨.scope hchildren.all hchildren.apart,h.all⟩,?_⟩
  exact List.isChain_cons.mpr ⟨fun _ _ => .inl rfl,h.apart⟩

/-- Next to a leaf there may be what is apart from any other leaf. -/
lemma cons_leaf {text : String} (htext : text ≠ "") (h : AllTidy ts)
    (hnext : ∀ u ∈ ts.head?, u.isLeaf = false) : AllTidy (leaf text :: ts) := by
  refine ⟨List.forall_mem_cons.mpr ⟨.leaf htext,h.all⟩,?_⟩
  exact List.isChain_cons.mpr ⟨fun u hu => .inr (hnext u hu),h.apart⟩

end AllTidy

namespace Builder

/-- An operation on a tree under construction. -/
inductive Operation where
  | adds (text : String)
  | addsKeyword (text kind : String)
  | opens (kind : String)
  | closes
  | closesAll
  | embeds (children : List Tree) (kind : Option String)

namespace Operation

def apply (b : Builder) : Operation → Builder
  | adds text => b.addText text
  | addsKeyword text kind => b.addKeyword text kind
  | opens kind => b.openScope kind
  | closes => b.closeScope
  | closesAll => b.closeAll
  | embeds children kind => b.addEmbedded children kind

/-- The text that an operation adds. -/
def added : Operation → String
  | adds text | addsKeyword text _ => text
  | opens _ | closes | closesAll => ""
  | embeds children _ => texts children

/-- What an operation embeds is tidy. -/
def EmbedsTidy : Operation → Prop
  | embeds children _ => AllTidy children
  | _ => True

end Operation

/-- The tree under construction after some operations. -/
def after (ops : List Operation) : Builder := ops.foldl Operation.apply {}

lemma text_closeAll (b : Builder) : b.closeAll.text = b.text := by
  simp [text,closeAll,enclosingText,texts_collapse]

/-- An operation adds its text at the end. -/
lemma text_apply (b : Builder) (op : Operation) : (op.apply b).text = b.text ++ op.added := by
  cases op with
  | adds | addsKeyword | opens | closes | embeds => simp [Operation.apply,Operation.added]
  | closesAll => simp [Operation.apply,Operation.added,text_closeAll]

/-- What precedes each open scope is tidy, and so is what the innermost one holds. -/
structure Tidy (b : Builder) : Prop where
  current : AllTidy b.current
  enclosing : ∀ scope ∈ b.enclosing, AllTidy scope.2

namespace Tidy

variable {b : Builder}

lemma empty : ({} : Builder).Tidy := ⟨.nil,nofun⟩

/-- Text is merged with a leaf that it would lie beside. -/
lemma addText (h : b.Tidy) (text : String) : (b.addText text).Tidy := by
  rw [Builder.addText]
  split
  · exact h
  · rename_i hempty
    have htext : text ≠ "" := fun he => hempty (String.isEmpty_iff.mpr he)
    refine ⟨?_,h.enclosing⟩
    have hcurrent := h.current
    cases hb : b.current with
    | nil => exact .cons_leaf htext .nil (fun u hu => by cases hu)
    | cons t rest =>
      rw [hb] at hcurrent
      cases t with
      | leaf last =>
        refine .cons_leaf (fun he => htext ?_) hcurrent.tail (fun u hu => ?_)
        · exact (String.append_eq_empty_iff.mp he).2
        · obtain ⟨rest',rfl⟩ := List.head?_eq_some_iff.mp hu
          exact (List.isChain_cons_cons.mp hcurrent.apart).1.resolve_left (fun h => by cases h)
      | scope tag children =>
        refine .cons_leaf htext hcurrent (fun u hu => ?_)
        obtain rfl := Option.some.inj hu
        rfl

lemma openScope (h : b.Tidy) (kind : String) : (b.openScope kind).Tidy :=
  ⟨.nil,List.forall_mem_cons.mpr ⟨h.current,h.enclosing⟩⟩

lemma closeScope (h : b.Tidy) : b.closeScope.Tidy := by
  obtain ⟨current,enclosing⟩ := b
  cases enclosing with
  | nil => exact h
  | cons scope rest =>
    obtain ⟨hbefore,hrest⟩ := List.forall_mem_cons.mp h.enclosing
    exact ⟨hbefore.cons_scope h.current.reverse,hrest⟩

lemma closeAll (h : b.Tidy) : b.closeAll.Tidy := by
  obtain ⟨current,enclosing⟩ := b
  induction enclosing generalizing current with
  | nil => exact h
  | cons scope rest ih => exact ih _ h.closeScope

lemma addKeyword (h : b.Tidy) (text kind : String) : (b.addKeyword text kind).Tidy := by
  rw [Builder.addKeyword]
  split
  · exact h
  · exact ((h.openScope kind).addText text).closeScope

lemma addEmbedded {children : List Tree} (h : b.Tidy) (hchildren : AllTidy children)
    (kind : Option String) : (b.addEmbedded children kind).Tidy :=
  ⟨h.current.cons_scope hchildren,h.enclosing⟩

lemma apply {op : Operation} (h : b.Tidy) (hop : op.EmbedsTidy) : (op.apply b).Tidy := by
  cases op with
  | adds text => exact h.addText text
  | addsKeyword text kind => exact h.addKeyword text kind
  | opens kind => exact h.openScope kind
  | closes => exact h.closeScope
  | closesAll => exact h.closeAll
  | embeds children kind => exact h.addEmbedded hop kind

end Tidy

/-- Operations one after the other add their texts one after the other. -/
lemma text_foldl_apply (b : Builder) (ops : List Operation) :
    (ops.foldl Operation.apply b).text = b.text ++ String.join (ops.map Operation.added) := by
  induction ops generalizing b with
  | nil => simp
  | cons op ops ih =>
    rw [List.foldl_cons,ih,text_apply,List.map_cons,String.join_cons,String.append_assoc]

lemma Tidy.foldl_apply {b : Builder} (h : b.Tidy) {ops : List Operation}
    (hops : ∀ op ∈ ops, op.EmbedsTidy) : (ops.foldl Operation.apply b).Tidy := by
  induction ops generalizing b with
  | nil => exact h
  | cons op ops ih =>
    obtain ⟨hop,hops⟩ := List.forall_mem_cons.mp hops
    exact ih (h.apply hop) hops

/-- Whatever the operations, the finished tree spells out the texts that they add, in their order. It
is tidy if the trees are that are embedded in it. -/
theorem finish_after (ops : List Operation) :
    (root (after ops).finish).text = String.join (ops.map Operation.added) ∧
      ((∀ op ∈ ops, op.EmbedsTidy) → (root (after ops).finish).Tidy) := by
  constructor
  · rw [text_root,texts_finish,after,text_foldl_apply,text_empty,String.empty_append]
  · intro hops
    have htidy := (Tidy.empty.foldl_apply hops).closeAll.current.reverse
    exact .scope htidy.all htidy.apart

/-- A close too many, an open scope left over, and leaves beside each other and beside an embedded
tree. -/
theorem finish_after_unbalanced :
    let ops := [.closes,.adds "a",.adds "b",.opens "x",.adds "",.addsKeyword "if" "k",.opens "y",
      .embeds [leaf "c",scope { kind := some "z" } []] none,.closesAll,.adds "d"]
    (∀ op ∈ ops, op.EmbedsTidy) ∧ (root (after ops).finish).Tidy ∧
      (root (after ops).finish).text = "abifcd" := by
  intro ops
  have hops : ∀ op ∈ ops, op.EmbedsTidy := by
    have hembedded : AllTidy [leaf "c",scope { kind := some "z" } []] :=
      .cons_leaf (by decide) (.cons_scope .nil .nil) (fun _ hu => Option.some.inj hu ▸ rfl)
    simpa [ops,Operation.EmbedsTidy] using hembedded
  exact ⟨hops,(finish_after ops).2 hops,(finish_after ops).1.trans (by decide +kernel)⟩

end Builder
end Highlight.Tree
