import Highlight.Regex.Error

/-! What can go wrong, by cause, and the text that reports each cause. -/
namespace Highlight

/-- Why a grammar definition cannot be assembled. -/
inductive GrammarError where
  | selfReferenceAtRoot
  | invalidPattern (pattern : String) (reason : Regex.PatternError)
  | nestingTooDeep (limit : Nat)
  | unknownMode (id : Nat)
  deriving DecidableEq, Repr

/-- A safeguard that stopped a scan; indices are byte offsets. -/
inductive Fault where
  | runawayLoop (iterations index : Nat)
  | zeroWidthMatch (index : Nat)
  | nestingTooDeep (limit index : Nat)
  /-- A matcher for some of a mode's rules could not be built. -/
  | brokenMatcher (reason : GrammarError)
  /-- A search spent its budget. -/
  | searchGaveUp
  deriving DecidableEq, Repr

/-- Why a call of the highlighter fails. -/
inductive HighlightError where
  | unknownGrammar (name : String)
  | missingRequiredGrammar (name : String)
  | definitionFailed (name reason : String)
  | grammar (e : GrammarError)
  | fault (f : Fault)
  /-- Embedded languages are nested more deeply than the call allows. -/
  | embeddingTooDeep
  deriving DecidableEq, Repr

def GrammarError.message : GrammarError → String
  | selfReferenceAtRoot => "contains `self` is not supported at the top level of a grammar"
  | invalidPattern pattern reason => s!"invalid pattern `{pattern}`: {reason.message}"
  | nestingTooDeep limit => s!"mode nesting exceeds {limit} levels"
  | unknownMode id => s!"mode ModeId({id}) is not defined in this grammar"

def Fault.message : Fault → String
  | runawayLoop iterations index =>
    s!"potential infinite loop: {iterations} iterations at index {index}"
  | zeroWidthMatch index => s!"zero width match at index {index}"
  | nestingTooDeep limit index => s!"mode nesting exceeds {limit} levels at index {index}"
  | brokenMatcher reason => s!"regex failure: {reason.message}"
  | searchGaveUp => "regex failure: a search ran out of its budget"

def HighlightError.message : HighlightError → String
  | unknownGrammar name =>
    s!"could not find the language '{name}', did you forget to register it?"
  | missingRequiredGrammar name => s!"the '{name}' language is required, but not loaded"
  | definitionFailed name reason =>
    s!"language definition for '{name}' could not be registered: {reason}"
  | grammar e => e.message
  | fault f => f.message
  | embeddingTooDeep => "embedded languages are nested too deeply"

end Highlight
