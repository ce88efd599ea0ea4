import Highlight.Proofs.Rules.Lexemes
import Highlight.Tree.Json
import Mathlib.Tactic.IntervalCases

/-!
What the compact text of a JSON value tells of the value. Read from the left, a text tells where its value ends
and which value it is, so no text begins with another, and the values of two texts agree where the texts do.
-/
namespace Highlight.Json

/-- The characters of a text in pieces. -/
def spell (pieces : List String) : List Char := pieces.flatMap String.toList

variable {rest rest' : List String} {cs ds xs ys : List Char} {c d : Char}

@[simp] lemma spell_nil : spell [] = [] := rfl

@[simp] lemma spell_cons (piece : String) (pieces : List String) :
    spell (piece :: pieces) = piece.toList ++ spell pieces := rfl

lemma toList_compact (j : Json) : j.compact.toList = spell (j.printThen none []) := String.toList_join

/-! Strings. An escape is told by what follows its backslash, and the closing quote is no escape's first character. -/
section Quotes

def hexValue (c : Char) : Nat := if c.isDigit then c.toNat - 48 else c.toNat - 87

/-- The character that a text in quotes goes on with, and the text after it. -/
def unquote? : List Char → Option (Char × List Char)
  | [] => none
  | '\\' :: 'u' :: '0' :: '0' :: high :: low :: cs => some (Char.ofNat (16 * hexValue high + hexValue low),cs)
  | '\\' :: 'n' :: cs => some ('\n',cs)
  | '\\' :: 'r' :: cs => some ('\r',cs)
  | '\\' :: 't' :: cs => some ('\t',cs)
  | '\\' :: 'b' :: cs => some ('\x08',cs)
  | '\\' :: 'f' :: cs => some ('\x0c',cs)
  | '\\' :: c :: cs => some (c,cs)
  | c :: cs => some (c,cs)

lemma unquote?_ordinary (h : c ≠ '\\') : unquote? (c :: cs) = some (c,cs) := by
  unfold unquote?
  split <;> simp_all

lemma quoteChar_ordinary (hcontrol : 0x20 ≤ c.toNat) (hquote : c ≠ '"') (hbackslash : c ≠ '\\') :
    quoteChar c = [c] := by
  have hnot : ∀ d : Char, d.toNat < 0x20 → c ≠ d := by
    rintro d hd rfl
    exact absurd hd (Nat.not_lt.mpr hcontrol)
  unfold quoteChar
  split
  case h_1 => exact absurd rfl hquote
  case h_2 => exact absurd rfl hbackslash
  case h_8 => exact if_neg (Nat.not_lt.mpr hcontrol)
  all_goals exact absurd rfl (hnot _ (by decide))

/-- What is written for a character is read back. -/
lemma unquote?_quoteChar (c : Char) (cs : List Char) : unquote? (quoteChar c ++ cs) = some (c,cs) := by
  by_cases hcontrol : c.toNat < 0x20
  · rw [← Char.ofNat_toNat c]
    generalize c.toNat = n at hcontrol
    interval_cases n <;> rfl
  by_cases hquote : c = '"'
  · subst hquote
    rfl
  by_cases hbackslash : c = '\\'
  · subst hbackslash
    rfl
  rw [quoteChar_ordinary (Nat.le_of_not_lt hcontrol) hquote hbackslash]
  exact unquote?_ordinary hbackslash

lemma quoteChar_inj (h : quoteChar c ++ xs = quoteChar d ++ ys) : c = d ∧ xs = ys := by
  have hread := unquote?_quoteChar c xs
  rw [h,unquote?_quoteChar d ys] at hread
  exact (Prod.mk.inj (Option.some.inj hread)).imp Eq.symm Eq.symm

lemma quoteChar_ne_quote : quoteChar c ++ xs ≠ '"' :: ys := by
  intro h
  have hread := unquote?_quoteChar c xs
  rw [h,unquote?_ordinary (by decide)] at hread
  obtain ⟨rfl,rfl⟩ := Prod.mk.inj (Option.some.inj hread)
  exact absurd h (by simp [quoteChar])

lemma quoted_inj : cs.flatMap quoteChar ++ '"' :: xs = ds.flatMap quoteChar ++ '"' :: ys → cs = ds ∧ xs = ys := by
  induction cs generalizing ds with
  | nil =>
    cases ds with
    | nil => exact fun h => ⟨rfl,List.tail_eq_of_cons_eq h⟩
    | cons d ds =>
      rw [List.flatMap_cons,List.append_assoc]
      exact fun h => absurd h.symm quoteChar_ne_quote
  | cons c cs ih =>
    rw [List.flatMap_cons,List.append_assoc]
    cases ds with
    | nil => exact fun h => absurd h quoteChar_ne_quote
    | cons d ds =>
      rw [List.flatMap_cons,List.append_assoc]
      intro h
      obtain ⟨rfl,htail⟩ := quoteChar_inj h
      obtain ⟨rfl,hrest⟩ := ih htail
      exact ⟨rfl,hrest⟩

lemma toList_quote (s : String) : (quote s).toList = '"' :: s.toList.flatMap quoteChar ++ ['"'] :=
  String.toList_ofList

/-- A string ends at its closing quote. -/
lemma quote_inj {s t : String} (h : (quote s).toList ++ xs = (quote t).toList ++ ys) : s = t ∧ xs = ys := by
  simp only [toList_quote,List.append_assoc,List.cons_append,List.nil_append] at h
  obtain ⟨hchars,h⟩ := quoted_inj (List.tail_eq_of_cons_eq h)
  exact ⟨String.toList_inj.mp hchars,h⟩

end Quotes

/-- A number that comes right before ends here. -/
def EndsNumber (cs : List Char) : Prop := cs.head?.any Char.isDigit = false

lemma number_inj {m n : Nat} (hxs : EndsNumber xs) (hys : EndsNumber ys)
    (h : (toString m).toList ++ xs = (toString n).toList ++ ys) : m = n ∧ xs = ys := by
  have htake : ∀ {n : Nat} {cs : List Char}, EndsNumber cs →
      ((toString n).toList ++ cs).takeWhile Char.isDigit = (toString n).toList := by
    intro n cs hcs
    rw [List.takeWhile_append_of_pos (fun c hc => Rules.isDigit_toString hc),(Rules.no_digits hcs).1,
      List.append_nil]
  have hdigits : (toString m).toList = (toString n).toList := by rw [← htake hxs,h,htake hys]
  refine ⟨?_,List.append_cancel_left (hdigits ▸ h)⟩
  rw [← Rules.decimalValue_toString m,hdigits,Rules.decimalValue_toString]

/-! The first character of a text tells how the value is built. -/
section Shapes

inductive Shape where
  | null
  | bool (b : Bool)
  | number
  | string
  | array
  | object
  deriving DecidableEq

def shape : Json → Shape
  | null => .null
  | bool b => .bool b
  | number _ => .number
  | string _ => .string
  | array _ => .array
  | object _ => .object

/-- The shape of a value whose text begins with a character. -/
def Shape.ofLead? : Char → Option Shape
  | 'n' => some .null
  | 't' => some (.bool true)
  | 'f' => some (.bool false)
  | '"' => some .string
  | '[' => some .array
  | '\x7b' => some .object
  | c => if c.isDigit then some .number else none

lemma Shape.ofLead?_digit (h : c.isDigit = true) : Shape.ofLead? c = some .number := by
  unfold Shape.ofLead?
  split
  case h_7 => exact if_pos h
  all_goals exact absurd h (by decide)

lemma spell_array (items : List Json) : spell ((array items).printThen none rest) =
    '[' :: spell (itemsThen none true items ("" :: "]" :: rest)) := by
  cases items <;> simp [printThen,itemsThen,Layout.inner,Layout.lineBreak]

lemma spell_object (fields : List (String × Json)) : spell ((object fields).printThen none rest) =
    '\x7b' :: spell (fieldsThen none true fields ("" :: "\x7d" :: rest)) := by
  cases fields <;> simp [printThen,fieldsThen,Layout.inner,Layout.lineBreak]

lemma exists_lead (j : Json) (rest : List String) :
    ∃ c cs, spell (j.printThen none rest) = c :: cs ∧ Shape.ofLead? c = some j.shape := by
  cases j with
  | null => exact ⟨_,_,rfl,rfl⟩
  | bool b => cases b <;> exact ⟨_,_,rfl,rfl⟩
  | number n =>
    obtain ⟨c,cs,hcs⟩ := List.exists_cons_of_ne_nil (Rules.toString_ne_nil n)
    refine ⟨c,cs ++ spell rest,by rw [printThen,spell_cons,hcs,List.cons_append],?_⟩
    exact Shape.ofLead?_digit (Rules.isDigit_toString (hcs ▸ List.mem_cons_self))
  | string s => exact ⟨'"',_,by rw [printThen,spell_cons,toList_quote]; rfl,rfl⟩
  | array items => exact ⟨'[',_,spell_array items,rfl⟩
  | object fields => exact ⟨'\x7b',_,spell_object fields,rfl⟩

lemma shape_eq {j k : Json} (h : spell (j.printThen none rest) = spell (k.printThen none rest')) :
    j.shape = k.shape := by
  obtain ⟨c,cs,hj,hlead⟩ := exists_lead j rest
  obtain ⟨d,ds,hk,hlead'⟩ := exists_lead k rest'
  obtain ⟨rfl,-⟩ := List.cons.inj (hj.symm.trans (h.trans hk))
  exact Option.some.inj (hlead.symm.trans hlead')

end Shapes

/-! Members. A list that goes on does not look as if it were at its end. -/
section Members

variable {first : Bool}

lemma spell_items_cons (t : Json) (ts : List Json) : spell (itemsThen none first (t :: ts) rest) =
    (comma first).toList ++ spell (t.printThen none (itemsThen none false ts rest)) := rfl

lemma spell_fields_cons (name : String) (value : Json) (fs : List (String × Json)) :
    spell (fieldsThen none first ((name,value) :: fs) rest) = (comma first).toList ++ ((quote name).toList ++
      ':' :: spell (value.printThen none (fieldsThen none false fs rest))) := by
  simp [fieldsThen,Layout.lineBreak,Layout.colon]

lemma spell_items_ne {t : Json} {ts : List Json} : spell (itemsThen none first (t :: ts) rest) ≠ ']' :: cs := by
  rw [spell_items_cons]
  cases first with
  | true =>
    obtain ⟨c,ds,ht,hlead⟩ := exists_lead t (itemsThen none false ts rest)
    rw [ht]
    intro h
    obtain rfl := (List.cons.inj h).1
    cases hlead
  | false => exact fun h => nomatch (List.cons.inj h).1

lemma spell_fields_ne {f : String × Json} {fs : List (String × Json)} :
    spell (fieldsThen none first (f :: fs) rest) ≠ '\x7d' :: cs := by
  rw [spell_fields_cons,toList_quote]
  cases first with
  | true => exact fun h => nomatch (List.cons.inj h).1
  | false => exact fun h => nomatch (List.cons.inj h).1

lemma endsNumber_items (items : List Json) : EndsNumber (spell (itemsThen none false items ("" :: "]" :: rest))) := by
  cases items <;> rfl

lemma endsNumber_fields (fields : List (String × Json)) :
    EndsNumber (spell (fieldsThen none false fields ("" :: "\x7d" :: rest))) := by
  cases fields <;> rfl

end Members

mutual

/-- The text of a value is told apart from what follows it, which must end a number. -/
theorem printThen_inj : ∀ (j k : Json) {rest rest' : List String}, EndsNumber (spell rest) →
    EndsNumber (spell rest') → spell (j.printThen none rest) = spell (k.printThen none rest') →
    j = k ∧ spell rest = spell rest'
  | null, k, _, _, _, _, h => by
    cases k with
    | null =>
      have hnull : "null".toList ++ spell _ = "null".toList ++ spell _ := h
      exact ⟨rfl,List.append_cancel_left hnull⟩
    | _ => exact nomatch shape_eq h
  | bool b, k, _, _, _, _, h => by
    cases k with
    | bool b' =>
      obtain rfl := Shape.bool.inj (shape_eq h)
      exact ⟨rfl,List.append_cancel_left h⟩
    | _ => exact nomatch shape_eq h
  | number n, k, _, _, hrest, hrest', h => by
    cases k with
    | number n' =>
      obtain ⟨rfl,hafter⟩ := number_inj hrest hrest' h
      exact ⟨rfl,hafter⟩
    | _ => exact nomatch shape_eq h
  | string s, k, _, _, _, _, h => by
    cases k with
    | string s' =>
      obtain ⟨rfl,hafter⟩ := quote_inj h
      exact ⟨rfl,hafter⟩
    | _ => exact nomatch shape_eq h
  | array items, k, _, _, _, _, h => by
    cases k with
    | array items' =>
      rw [spell_array,spell_array] at h
      obtain ⟨rfl,hafter⟩ := itemsThen_inj items items' (List.tail_eq_of_cons_eq h)
      exact ⟨rfl,hafter⟩
    | _ => exact nomatch shape_eq h
  | object fields, k, _, _, _, _, h => by
    cases k with
    | object fields' =>
      rw [spell_object,spell_object] at h
      obtain ⟨rfl,hafter⟩ := fieldsThen_inj fields fields' (List.tail_eq_of_cons_eq h)
      exact ⟨rfl,hafter⟩
    | _ => exact nomatch shape_eq h

theorem itemsThen_inj : ∀ (ts us : List Json) {first : Bool} {rest rest' : List String},
    spell (itemsThen none first ts ("" :: "]" :: rest)) = spell (itemsThen none first us ("" :: "]" :: rest')) →
    ts = us ∧ spell rest = spell rest'
  | [], [], _, _, _, h => ⟨rfl,List.tail_eq_of_cons_eq h⟩
  | [], _ :: _, _, _, _, h => absurd h.symm spell_items_ne
  | _ :: _, [], _, _, _, h => absurd h spell_items_ne
  | t :: ts, u :: us, _, _, _, h => by
    rw [spell_items_cons,spell_items_cons] at h
    obtain ⟨rfl,htail⟩ := printThen_inj t u (endsNumber_items ts) (endsNumber_items us) (List.append_cancel_left h)
    obtain ⟨rfl,hafter⟩ := itemsThen_inj ts us htail
    exact ⟨rfl,hafter⟩

theorem fieldsThen_inj : ∀ (fs gs : List (String × Json)) {first : Bool} {rest rest' : List String},
    spell (fieldsThen none first fs ("" :: "\x7d" :: rest)) =
      spell (fieldsThen none first gs ("" :: "\x7d" :: rest')) →
    fs = gs ∧ spell rest = spell rest'
  | [], [], _, _, _, h => ⟨rfl,List.tail_eq_of_cons_eq h⟩
  | [], _ :: _, _, _, _, h => absurd h.symm spell_fields_ne
  | _ :: _, [], _, _, _, h => absurd h spell_fields_ne
  | (name,value) :: fs, (name',value') :: gs, _, _, _, h => by
    rw [spell_fields_cons,spell_fields_cons] at h
    obtain ⟨rfl,hcolon⟩ := quote_inj (List.append_cancel_left h)
    obtain ⟨rfl,htail⟩ := printThen_inj value value' (endsNumber_fields fs) (endsNumber_fields gs)
      (List.tail_eq_of_cons_eq hcolon)
    obtain ⟨rfl,hafter⟩ := fieldsThen_inj fs gs htail
    exact ⟨rfl,hafter⟩

end

/-- A value is told by its text on one line. -/
theorem compact_inj {j k : Json} (h : j.compact = k.compact) : j = k := by
  have htexts : spell (j.printThen none []) = spell (k.printThen none []) := by
    rw [← toList_compact,← toList_compact,h]
  have hend : EndsNumber (spell []) := rfl
  exact (printThen_inj j k hend hend htexts).1

end Highlight.Json

namespace Highlight

/-! The fields of a scope that are left out are told by those that are there. -/

lemma Tag.jsonFields_inj {tag tag' : Tag} (h : tag.jsonFields = tag'.jsonFields) : tag = tag' := by
  obtain ⟨kind,embedded⟩ := tag
  obtain ⟨kind',embedded'⟩ := tag'
  cases kind <;> cases kind' <;> cases embedded <;> cases embedded' <;> simp_all [Tag.jsonFields]

mutual

theorem Tree.toJson_inj : ∀ (t u : Tree), t.toJson = u.toJson → t = u
  | .leaf text, .leaf text', h => congrArg Tree.leaf (Json.string.inj h)
  | .leaf _, .scope .., h => nomatch h
  | .scope .., .leaf _, h => nomatch h
  | .scope tag children, .scope tag' children', h => by
    obtain ⟨hfields,hlast⟩ := List.append_inj' (Json.object.inj h) rfl
    obtain rfl := Tag.jsonFields_inj hfields
    have hchildren : Tree.allToJson children = Tree.allToJson children' := by simpa using hlast
    rw [Tree.allToJson_inj children children' hchildren]

theorem Tree.allToJson_inj : ∀ (ts us : List Tree), Tree.allToJson ts = Tree.allToJson us → ts = us
  | [], [], _ => rfl
  | [], _ :: _, h => nomatch h
  | _ :: _, [], h => nomatch h
  | t :: ts, u :: us, h => by
    obtain ⟨hhead,htail⟩ := List.cons.inj h
    rw [Tree.toJson_inj t u hhead,Tree.allToJson_inj ts us htail]

end

/-- Trees have the same text as JSON if and only if they are the same, whatever their leaves and classes are. -/
theorem Tree.compact_toJson_eq_iff (t u : Tree) : t.toJson.compact = u.toJson.compact ↔ t = u :=
  ⟨fun h => Tree.toJson_inj t u (Json.compact_inj h),fun h => h ▸ rfl⟩

end Highlight
