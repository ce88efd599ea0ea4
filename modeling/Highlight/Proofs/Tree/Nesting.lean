import Highlight.Tree.Builder
import Mathlib.Tactic.Lemma

/-!
How deep scopes lie inside each other. A scan has so many modes open at most, with a keyword inside
the innermost one; but a text that is embedded has a scan of its own, which counts its modes anew.
-/
namespace Highlight

namespace Tree

/-- The tags of the scopes that are met on the way from a tree down to one of its leaves or scopes. -/
inductive Path : Tree → List Tag → Prop where
  | leaf (text : String) : Path (leaf text) []
  | scope (tag : Tag) (children : List Tree) : Path (scope tag children) [tag]
  | child {tag : Tag} {children : List Tree} {t : Tree} {tags : List Tag} (ht : t ∈ children)
      (h : Path t tags) : Path (scope tag children) (tag :: tags)

/-- Whether `room` more scopes may open on a path. The last one may exceed that, as a keyword does
inside the innermost mode. An embedded result, if there may be any, has all of `limit` for itself. -/
def FitsInto (embeds : Prop) (limit : Nat) : Nat → List Tag → Prop
  | _, [] => True
  | 0, tag :: tags => if tag.embedded then embeds ∧ FitsInto embeds limit limit tags else tags = []
  | room + 1, tag :: tags =>
    if tag.embedded then embeds ∧ FitsInto embeds limit limit tags
    else FitsInto embeds limit room tags

variable {embeds : Prop} {limit room : Nat} {tag : Tag} {tags : List Tag} {children : List Tree}

lemma fitsInto_embedded (htag : tag.embedded = true) :
    FitsInto embeds limit room (tag :: tags) ↔ embeds ∧ FitsInto embeds limit limit tags := by
  cases room <;> rw [FitsInto,if_pos htag]

lemma fitsInto_succ (htag : tag.embedded = false) :
    FitsInto embeds limit (room + 1) (tag :: tags) ↔ FitsInto embeds limit room tags := by
  rw [FitsInto,if_neg (Bool.eq_false_iff.mp htag)]

lemma fitsInto_zero (htag : tag.embedded = false) :
    FitsInto embeds limit 0 (tag :: tags) ↔ tags = [] := by
  rw [FitsInto,if_neg (Bool.eq_false_iff.mp htag)]

lemma FitsInto.mono {embeds' : Prop} (h : FitsInto embeds limit room tags) (hembeds : embeds → embeds') :
    FitsInto embeds' limit room tags := by
  induction tags generalizing room with
  | nil => cases room <;> trivial
  | cons tag tags ih =>
    cases htag : tag.embedded with
    | true =>
      obtain ⟨he,hrest⟩ := (fitsInto_embedded htag).mp h
      exact (fitsInto_embedded htag).mpr ⟨hembeds he,ih hrest⟩
    | false =>
      cases room with
      | succ room => exact (fitsInto_succ htag).mpr (ih ((fitsInto_succ htag).mp h))
      | zero => exact (fitsInto_zero htag).mpr ((fitsInto_zero htag).mp h)

/-- A path passes so many scopes for each embedded result on it and for what is around these. -/
lemma FitsInto.countP_le (h : FitsInto embeds limit room tags) :
    tags.countP (!·.embedded) ≤ room + limit * tags.countP (·.embedded) + 1 := by
  induction tags generalizing room with
  | nil => exact Nat.zero_le _
  | cons tag tags ih =>
    rw [List.countP_cons,List.countP_cons]
    cases htag : tag.embedded with
    | true =>
      have hrest := ih ((fitsInto_embedded htag).mp h).2
      simp only [Bool.not_true,Bool.false_eq_true,if_false,if_true,Nat.mul_add,Nat.mul_one]
      omega
    | false =>
      simp only [Bool.not_false,Bool.false_eq_true,if_false,if_true,Nat.add_zero]
      cases room with
      | succ room =>
        have hrest := ih ((fitsInto_succ htag).mp h)
        omega
      | zero =>
        rw [(fitsInto_zero htag).mp h]
        simp

/-- Where nothing is embedded, all scopes on a path count. -/
lemma FitsInto.length_le (h : FitsInto embeds limit room tags) (hembeds : ¬ embeds) :
    tags.length ≤ room + 1 := by
  induction tags generalizing room with
  | nil => exact Nat.zero_le _
  | cons tag tags ih =>
    cases htag : tag.embedded with
    | true => exact absurd ((fitsInto_embedded htag).mp h).1 hembeds
    | false =>
      cases room with
      | succ room => exact Nat.succ_le_succ (ih ((fitsInto_succ htag).mp h))
      | zero =>
        rw [(fitsInto_zero htag).mp h]
        exact Nat.le_refl _

/-- A tree whose scopes fit below so many open ones. -/
def Fits (embeds : Prop) (limit room : Nat) (t : Tree) : Prop :=
  ∀ tags, t.Path tags → FitsInto embeds limit room tags

lemma fits_leaf (text : String) : (leaf text).Fits embeds limit room := by
  rintro tags (_ | _)
  trivial

/-- A word with a class may stand in the innermost mode of all. -/
lemma fits_word (kind text : String) : (scope { kind := some kind } [leaf text]).Fits embeds limit room := by
  have hword : FitsInto embeds limit room [({ kind := some kind } : Tag)] := by
    cases room <;> trivial
  intro tags h
  cases h with
  | scope => exact hword
  | child ht h =>
    obtain rfl := List.mem_singleton.mp ht
    cases h
    exact hword

lemma fits_scope (htag : tag.embedded = false) (h : ∀ t ∈ children, t.Fits embeds limit room) :
    (scope tag children).Fits embeds limit (room + 1) := by
  intro tags hpath
  cases hpath with
  | scope => exact (fitsInto_succ htag).mpr trivial
  | child ht hpath => exact (fitsInto_succ htag).mpr (h _ ht _ hpath)

lemma fits_embedded (hembeds : embeds) (htag : tag.embedded = true)
    (h : ∀ t ∈ children, t.Fits embeds limit limit) : (scope tag children).Fits embeds limit room := by
  intro tags hpath
  cases hpath with
  | scope => exact (fitsInto_embedded htag).mpr ⟨hembeds,trivial⟩
  | child ht hpath => exact (fitsInto_embedded htag).mpr ⟨hembeds,h _ ht _ hpath⟩

namespace Builder

variable {b : Builder}

/-- What precedes the open scopes fits, each part at its own depth. -/
def EnclosingFits (embeds : Prop) (limit : Nat) : List (String × List Tree) → Prop
  | [] => True
  | (_,before) :: rest =>
      (∀ t ∈ before, t.Fits embeds limit (limit - rest.length)) ∧ EnclosingFits embeds limit rest

/-- A tree under construction whose scopes fit so far. -/
structure Fits (embeds : Prop) (limit : Nat) (b : Builder) : Prop where
  length_le : b.enclosing.length ≤ limit
  current : ∀ t ∈ b.current, t.Fits embeds limit (limit - b.enclosing.length)
  enclosing : EnclosingFits embeds limit b.enclosing

lemma Fits.add (h : b.Fits embeds limit) {t : Tree} (ht : t.Fits embeds limit (limit - b.enclosing.length)) :
    ({ b with current := t :: b.current } : Builder).Fits embeds limit where
  length_le := h.length_le
  current := List.forall_mem_cons.mpr ⟨ht,h.current⟩
  enclosing := h.enclosing

lemma Fits.addText (h : b.Fits embeds limit) (text : String) : (b.addText text).Fits embeds limit := by
  rw [Builder.addText]
  split
  · exact h
  · refine ⟨h.length_le,fun t ht => ?_,h.enclosing⟩
    rw [pushText.eq_def] at ht
    split at ht
    · rename_i hcurrent
      rcases List.mem_cons.mp ht with rfl | ht
      · exact fits_leaf _
      · exact h.current t (hcurrent ▸ List.mem_cons_of_mem _ ht)
    · rcases List.mem_cons.mp ht with rfl | ht
      · exact fits_leaf _
      · exact h.current t ht

lemma addKeyword_eq (b : Builder) {text : String} (kind : String) (htext : text.isEmpty = false) :
    b.addKeyword text kind =
      { b with current := scope { kind := some kind } [leaf text] :: b.current } := by
  simp [Builder.addKeyword,openScope,Builder.addText,closeScope,pushText,htext]

lemma Fits.addKeyword (h : b.Fits embeds limit) (text kind : String) :
    (b.addKeyword text kind).Fits embeds limit := by
  cases htext : text.isEmpty with
  | true =>
    rw [Builder.addKeyword,if_pos htext]
    exact h
  | false =>
    rw [addKeyword_eq b kind htext]
    exact h.add (fits_word kind text)

lemma Fits.addEmbedded (h : b.Fits embeds limit) (kind : Option String) (hembeds : embeds)
    (hchildren : ∀ t ∈ children, t.Fits embeds limit limit) :
    (b.addEmbedded children kind).Fits embeds limit :=
  h.add (fits_embedded hembeds rfl hchildren)

lemma Fits.openScope (h : b.Fits embeds limit) (kind : String) (hdepth : b.depth ≤ limit) :
    (b.openScope kind).Fits embeds limit :=
  ⟨hdepth,nofun,h.current,h.enclosing⟩

/-- A scope closes into the room that it took when it opened. -/
lemma fits_closed {current : List Tree} {kind : String} {n : Nat} (hlen : n + 1 ≤ limit)
    (hcurrent : ∀ t ∈ current, t.Fits embeds limit (limit - (n + 1))) :
    (scope { kind := some kind } current.reverse).Fits embeds limit (limit - n) := by
  rw [show limit - n = limit - (n + 1) + 1 by omega]
  exact fits_scope rfl (fun t ht => hcurrent t (List.mem_reverse.mp ht))

lemma Fits.closeScope (h : b.Fits embeds limit) : b.closeScope.Fits embeds limit := by
  obtain ⟨current,enclosing⟩ := b
  cases enclosing with
  | nil => exact h
  | cons scope rest =>
    obtain ⟨hlen,hcurrent,hbefore,hrest⟩ := h
    exact ⟨Nat.le_of_succ_le hlen,List.forall_mem_cons.mpr ⟨fits_closed hlen hcurrent,hbefore⟩,hrest⟩

lemma fits_finish (h : b.Fits embeds limit) : ∀ t ∈ b.finish, t.Fits embeds limit limit := by
  have hcollapse : ∀ (enclosing : List (String × List Tree)) (current : List Tree),
      enclosing.length ≤ limit → (∀ t ∈ current, t.Fits embeds limit (limit - enclosing.length)) →
      EnclosingFits embeds limit enclosing →
        ∀ t ∈ collapse current enclosing, t.Fits embeds limit limit := by
    intro enclosing
    induction enclosing with
    | nil => exact fun current _ hcurrent _ => hcurrent
    | cons scope rest ih =>
      rintro current hlen hcurrent ⟨hbefore,hrest⟩
      exact ih _ (Nat.le_of_succ_le hlen)
        (List.forall_mem_cons.mpr ⟨fits_closed hlen hcurrent,hbefore⟩) hrest
  intro t ht
  exact hcollapse _ _ h.length_le h.current h.enclosing t (List.mem_reverse.mp ht)

lemma fits_empty (embeds : Prop) (limit : Nat) : ({} : Builder).Fits embeds limit :=
  ⟨Nat.zero_le _,nofun,trivial⟩

end Builder
end Tree
end Highlight
