import Highlight.Proofs.Rules.Fits

/-!
Texts that are sealed: what stands around such a text completes nothing that is broken in it. The light scan can
tell. Parentheses close what they open, no backslash comes last, the bounds of repetitions are in order, references
have numbers that can be moved, and a name that the text refers to is one of its own if what stands around it has a
group of that name.
-/
namespace Highlight.Rules

open Regex

/-- Whether the bounds of a repetition are in order, if there are any after an opening brace. -/
def boundsAscend (cs : List Char) : Bool :=
  match readBounds? false cs with
  | some (least,some most,_) => decide (least ≤ most)
  | _ => true

/-- Two numbers below this have a sum that can be written in 64 bits. -/
def halfRange : Nat := UInt64.size / 2

lemma halfRange_add : halfRange + halfRange = UInt64.size := rfl

lemma halfRange_lt : halfRange < UInt64.size := by decide

namespace Token

/-- The name of the group that a token opens, given what follows it. -/
def opens? (rest : List Char) : Token → Option String
  | special true => (readName? '>' (rest.drop (if rest.head? = some 'P' then 2 else 1))).map Prod.fst
  | _ => none

/-- The name that a token refers to. -/
def refers? (rest : List Char) : Token → Option String
  | special false =>
    if ['P','='].isPrefixOf rest then (readName? ')' (rest.drop 2)).map Prod.fst else none
  | escape c => if c = 'k' && rest.head? = some '<' then (readName? '>' rest.tail).map Prod.fst else none
  | _ => none

/-- Whether a token may stand in a sealed text, where `depth` groups are open. Names in `own` are those of groups
before it, names in `foreign` those of groups around the text. -/
def isSealed (foreign own : List String) (depth : Nat) (rest : List Char) (t : Token) : Bool :=
  (match t with
    | plain c => (c != ')' || decide (0 < depth)) && (c != '\\' || !rest.isEmpty) && (c != '\x7b' || boundsAscend rest)
    | reference digits => decide (digitsValue digits < halfRange)
    | _ => true) &&
  (t.refers? rest).all (fun name => own.contains name || !foreign.contains name)

end Token

/-- The tokens of a text, each with what follows it. -/
def scanWithin : Nat → List Char → List (Token × List Char)
  | 0, _ | _, [] => []
  | n + 1, c :: rest => nextToken c rest :: scanWithin n (nextToken c rest).2

def scan (cs : List Char) : List (Token × List Char) := scanWithin cs.length cs

/-- The names of the groups that a text opens. -/
def groupNames (cs : List Char) : List String := (scan cs).filterMap (fun t => t.1.opens? t.2)

/-- Whether tokens may stand in a sealed text, up to its end. -/
def sealedThrough (foreign : List String) : List String → Nat → List (Token × List Char) → Bool
  | _, depth, [] => depth == 0
  | own, depth, (t,rest) :: ts =>
    t.isSealed foreign own depth rest &&
      sealedThrough foreign ((t.opens? rest).toList ++ own) (t.depthAfter depth) ts

/-- The rest of a sealed text, where `depth` groups are open and those of the names in `own` were opened. -/
def SealedFrom (foreign own : List String) (depth : Nat) (cs : List Char) : Prop :=
  sealedThrough foreign own depth (scan cs) = true

/-- Whether a text starts with bounds of a repetition. -/
def startsRounds : List Char → Bool
  | '\x7b' :: rest => (readBounds? false rest).isSome
  | _ => false

/-- A text that fits and is sealed, where groups around it have the names `foreign`. Neither a parenthesis before it
nor the flags of a rule make something else of how it starts. -/
structure Sealed (named : Bool) (foreign : List String) (cs : List Char) : Prop where
  fits : FitsFrom named 0 cs
  through : SealedFrom foreign [] 0 cs
  unmarked : cs.head? ≠ some '?'
  rounds : startsRounds cs = false

/-- Texts that are sealed one after the other, the groups of each being around those after it. -/
def SealedInTurn (named : Bool) : List String → List (List Char) → Prop
  | _, [] => True
  | foreign, cs :: rest => Sealed named foreign cs ∧ SealedInTurn named (groupNames cs ++ foreign) rest

instance {named : Bool} {foreign : List String} {cs : List Char} : Decidable (Sealed named foreign cs) :=
  decidable_of_iff ((fitsWithin named cs.length 0 cs = true ∧ sealedThrough foreign [] 0 (scan cs) = true) ∧
    cs.head? ≠ some '?' ∧ startsRounds cs = false)
    ⟨fun h => ⟨h.1.1,h.1.2,h.2.1,h.2.2⟩,fun h => ⟨⟨h.fits,h.through⟩,h.unmarked,h.rounds⟩⟩

instance decidableSealedInTurn (named : Bool) : (foreign : List String) → (texts : List (List Char)) →
    Decidable (SealedInTurn named foreign texts)
  | _, [] => .isTrue trivial
  | foreign, cs :: rest =>
    have := decidableSealedInTurn named (groupNames cs ++ foreign) rest
    inferInstanceAs (Decidable (Sealed named foreign cs ∧ SealedInTurn named (groupNames cs ++ foreign) rest))

/-!
Texts that need no backtracking are made into an automaton, which may not take more than so many bytes. None is made
here: what a text says of its size tells those apart whose automaton is small enough, alone and beside others.
-/

/-- Bytes that an automaton may take. -/
def automatonLimit : Nat := 10 * 1024 * 1024

/-- Bytes for a character, and for a class of any characters. -/
def stateBytes : Nat := 4 * 1024
def classBytes : Nat := 256 * 1024

namespace Token

/-- Bytes for a token: a class if it may stand for many characters, else one for each of those that it is written of. -/
def bytes : Token → Nat
  | set body =>
    (if body.all (fun c => c != '\\' && c.toNat < 128) then 0 else classBytes) + (body.length + 1) * stateBytes
  | escape c => if ['d','D','s','S','w','W','h','H','p','P'].contains c then classBytes else stateBytes
  | _ => stateBytes

/-- How many copies are made of what a repetition with bounds repeats. -/
def copies (rest : List Char) : Token → Nat
  | plain '\x7b' => ((readBounds? false rest).map (fun (least,most,_) => max least (most.getD least) + 1)).getD 1
  | _ => 1

end Token

/-- Bytes for a text, as if each repetition with bounds went over all of it. -/
def textBytes (cs : List Char) : Nat :=
  (scan cs).foldl (fun n t => n + t.1.bytes) 0 * (scan cs).foldl (fun n t => n * t.1.copies t.2) 1 + stateBytes

/-- Texts whose automaton is small enough. -/
def Light (texts : List (List Char)) : Prop := texts.foldl (fun n cs => n + textBytes cs) 0 ≤ automatonLimit

instance {texts : List (List Char)} : Decidable (Light texts) := inferInstanceAs (Decidable (_ ≤ _))

variable {foreign own : List String} {d : Nat} {c : Char} {cs rest : List Char}

lemma scanWithin_eq {n m : Nat} (hn : cs.length ≤ n) (hm : cs.length ≤ m) : scanWithin n cs = scanWithin m cs := by
  induction n generalizing m cs with
  | zero =>
    rw [List.eq_nil_of_length_eq_zero (Nat.le_zero.mp hn)]
    cases m <;> rfl
  | succ n ih =>
    cases cs with
    | nil => cases m <;> rfl
    | cons c rest =>
      cases m with
      | zero => simp at hm
      | succ m =>
        have hlen := nextToken_length c rest
        simp only [List.length_cons] at hn hm
        simp only [scanWithin]
        rw [ih (by omega) (show _ ≤ m by omega)]

lemma scan_cons (c : Char) (rest : List Char) : scan (c :: rest) = nextToken c rest :: scan (nextToken c rest).2 := by
  simp only [scan,List.length_cons,scanWithin]
  rw [scanWithin_eq (nextToken_length c rest) (Nat.le_refl _)]

lemma groupNames_cons (c : Char) (rest : List Char) : groupNames (c :: rest) =
    ((nextToken c rest).1.opens? (nextToken c rest).2).toList ++ groupNames (nextToken c rest).2 := by
  rw [groupNames,scan_cons,List.filterMap_cons]
  cases (nextToken c rest).1.opens? (nextToken c rest).2 with
  | none => rfl
  | some name => rfl

lemma sealedFrom_nil : SealedFrom foreign own d [] ↔ d = 0 := beq_iff_eq

lemma sealedFrom_cons : SealedFrom foreign own d (c :: rest) ↔
    (nextToken c rest).1.isSealed foreign own d (nextToken c rest).2 = true ∧
      SealedFrom foreign (((nextToken c rest).1.opens? (nextToken c rest).2).toList ++ own)
        ((nextToken c rest).1.depthAfter d) (nextToken c rest).2 := by
  rw [SealedFrom,scan_cons,sealedThrough,Bool.and_eq_true]
  rfl

/-- Only groups have names. -/
lemma opens?_eq_none {t : Token} (h : t.captures = false) (rest : List Char) : t.opens? rest = none := by
  cases t with
  | special captures =>
    cases captures with
    | true => cases h
    | false => rfl
  | _ => rfl

end Highlight.Rules

/-! What the light scan goes over without finding a group or a reference. -/
namespace Highlight.Rules

open Regex

variable {named : Bool} {d : Nat} {o : Nat} {c : Char} {cs rest : List Char}

/-- The light scan goes over the text `u` without finding a group or a reference. -/
structure Passes (named : Bool) (d : Nat) (u : List Char) (d' : Nat) (rest : List Char) : Prop where
  shift : ∀ o, shiftChars o (u ++ rest) = u ++ shiftChars o rest
  count : groupCount (u ++ rest) = groupCount rest
  fits : FitsFrom named d (u ++ rest) → FitsFrom named d' rest
  names : groupNames (u ++ rest) = groupNames rest
  sealedFrom : ∀ foreign own, SealedFrom foreign own d (u ++ rest) → SealedFrom foreign own d' rest

namespace Passes

lemma nil : Passes named d [] d rest := ⟨fun _ => rfl,rfl,id,rfl,fun _ _ => id⟩

lemma append {u v : List Char} {d₁ d₂ : Nat} (hu : Passes named d u d₁ (v ++ rest))
    (hv : Passes named d₁ v d₂ rest) : Passes named d (u ++ v) d₂ rest := by
  refine ⟨fun o => ?_,?_,fun h => hv.fits (hu.fits ?_),?_,fun _ _ h => hv.sealedFrom _ _ (hu.sealedFrom _ _ ?_)⟩
  · rw [List.append_assoc,hu.shift,hv.shift,List.append_assoc]
  · rw [List.append_assoc,hu.count,hv.count]
  · rwa [List.append_assoc] at h
  · rw [List.append_assoc,hu.names,hv.names]
  · rwa [List.append_assoc] at h

/-- A token that is neither a group nor a reference. -/
lemma of_token {u : List Char} {t : Token} (h : nextToken c (u ++ rest) = (t,rest))
    (hshift : ∀ o, t.shifted o = c :: u) (hcount : t.captures = false) :
    Passes named d (c :: u) (t.depthAfter d) rest := by
  refine ⟨fun o => ?_,?_,fun hfits => ?_,?_,fun _ _ hsealed => ?_⟩
  · rw [List.cons_append,shiftChars_cons,h,hshift]
  · rw [List.cons_append,groupCount_cons,h,hcount]
    rfl
  · rw [List.cons_append,fitsFrom_cons,h] at hfits
    exact hfits.2.2
  · rw [List.cons_append,groupNames_cons,h,opens?_eq_none hcount]
    rfl
  · rw [List.cons_append,sealedFrom_cons,h,opens?_eq_none hcount] at hsealed
    exact hsealed.2

lemma ordinary (h : IsOrdinary c) :
    Passes named d [c] (if c = ')' then d - 1 else d) rest :=
  of_token (u := []) (nextToken_ordinary h rest) (fun _ => rfl) rfl

lemma escape {e : Char} (h : startsReference e = false) : Passes named d ['\\',e] d rest := by
  by_cases he : e = '\n'
  · subst he
    have hbackslash : nextToken '\\' ('\n' :: rest) = (.plain '\\','\n' :: rest) := rfl
    have hfirst : Passes named d ['\\'] d (['\n'] ++ rest) :=
      of_token (u := []) hbackslash (fun _ => rfl) rfl
    exact hfirst.append (ordinary ⟨by decide,by decide,by decide⟩)
  · exact of_token (u := [e]) (nextToken_escape h he rest) (fun _ => rfl) rfl

lemma set {body : List Char} (h : setBody? (body ++ ']' :: rest) = some (body,rest)) :
    Passes named d ('[' :: body ++ [']']) d rest := by
  have hset : nextToken '[' ((body ++ [']']) ++ rest) = (.set body,rest) := by
    rw [List.append_assoc]
    exact nextToken_set h
  exact of_token hset (fun _ => rfl) rfl

/-- Names, digits and the like. -/
lemma ordinaries {u : List Char} (h : ∀ c ∈ u, IsOrdinary c ∧ c ≠ ')') : Passes named d u d rest := by
  induction u with
  | nil => exact nil
  | cons c u ih =>
    obtain ⟨hc,hclose⟩ := h c List.mem_cons_self
    have hfirst : Passes named d [c] d (u ++ rest) := by
      simpa only [if_neg hclose] using @ordinary named d c (u ++ rest) hc
    exact hfirst.append (ih (fun c hc => h c (List.mem_cons_of_mem _ hc)))

end Passes
end Highlight.Rules
