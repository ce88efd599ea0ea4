import Highlight.Grammar.Guard
import Highlight.Grammar.Keywords

/-!
Modes: the lexical rules of a grammar. Every setting may be left open, so that modes can be laid
over each other; a setting of the upper one wins.
-/
namespace Highlight

/-- A mode of a grammar, by its place in the mode table. -/
abbrev ModeId := Nat

/-- What a mode may contain. -/
inductive Child where
  | mode (id : ModeId)
  /-- The containing mode itself. -/
  | self
  deriving DecidableEq, Repr

/-- The grammar for the text inside a mode. -/
inductive SubLanguage where
  | named (name : String)
  /-- The best of some grammars, or of all if none are given. -/
  | auto (candidates : List String)
  deriving DecidableEq, Repr

/-- The yes-or-no settings of a mode. -/
structure Switches (α : Type) where
  endsWithParent : α
  endsParent : α
  endSameAsBegin : α
  excludeBegin : α
  excludeEnd : α
  returnBegin : α
  returnEnd : α
  skip : α
  deriving DecidableEq, Inhabited, Repr

namespace Switches

def unset : Switches (Option Bool) := ⟨none,none,none,none,none,none,none,none⟩

/-- The settings of `upper` where it has any, else those of `lower`. -/
def laidOver (upper lower : Switches (Option Bool)) : Switches (Option Bool) where
  endsWithParent := upper.endsWithParent <|> lower.endsWithParent
  endsParent := upper.endsParent <|> lower.endsParent
  endSameAsBegin := upper.endSameAsBegin <|> lower.endSameAsBegin
  excludeBegin := upper.excludeBegin <|> lower.excludeBegin
  excludeEnd := upper.excludeEnd <|> lower.excludeEnd
  returnBegin := upper.returnBegin <|> lower.returnBegin
  returnEnd := upper.returnEnd <|> lower.returnEnd
  skip := upper.skip <|> lower.skip

/-- The settings, off where they are open. -/
def resolve (s : Switches (Option Bool)) : Switches Bool where
  endsWithParent := s.endsWithParent.getD false
  endsParent := s.endsParent.getD false
  endSameAsBegin := s.endSameAsBegin.getD false
  excludeBegin := s.excludeBegin.getD false
  excludeEnd := s.excludeEnd.getD false
  returnBegin := s.returnBegin.getD false
  returnEnd := s.returnEnd.getD false
  skip := s.skip.getD false

end Switches

structure Mode where
  /-- The class of the mode's span; without one it leaves no span. -/
  className : Option String := none
  beginPattern : Option String := none
  endPattern : Option String := none
  /-- Words that begin the mode, in place of a pattern. -/
  beginKeywords : Option String := none
  illegal : Option String := none
  keywords : Option Keywords := none
  /-- What the mode's text is searched for when it is looked up in the keyword table. -/
  lexemes : Option String := none
  contains : Option (List Child) := none
  variants : Option (List Mode) := none
  /-- The mode that follows when this one closes. -/
  starts : Option ModeId := none
  subLanguage : Option SubLanguage := none
  relevance : Option Nat := none
  switches : Switches (Option Bool) := .unset
  beginGuard : Option BeginGuard := none
  deriving Inhabited

namespace Mode

/-- The mode with every setting of `overrides` laid over it. Variants are not passed on. -/
def inherit (base overrides : Mode) : Mode where
  className := overrides.className <|> base.className
  beginPattern := overrides.beginPattern <|> base.beginPattern
  endPattern := overrides.endPattern <|> base.endPattern
  beginKeywords := overrides.beginKeywords <|> base.beginKeywords
  illegal := overrides.illegal <|> base.illegal
  keywords := overrides.keywords <|> base.keywords
  lexemes := overrides.lexemes <|> base.lexemes
  contains := overrides.contains <|> base.contains
  variants := none
  starts := overrides.starts <|> base.starts
  subLanguage := overrides.subLanguage <|> base.subLanguage
  relevance := overrides.relevance <|> base.relevance
  switches := overrides.switches.laidOver base.switches
  beginGuard := overrides.beginGuard <|> base.beginGuard

def endsWithParent (m : Mode) : Bool := m.switches.endsWithParent.getD false

end Mode
end Highlight
