/-! Why a text is not a pattern. -/
namespace Highlight.Regex

inductive PatternError where
  | unclosedGroup | unopenedGroup | unclosedSet | unclosedComment | unclosedClassName
  | nothingToRepeat | roundsOutOfOrder | rangeOutOfOrder | rangeOfClass
  | trailingBackslash | unknownEscape | invalidCodePoint
  | unknownClass | unknownFlag | unsupportedGroup | invalidGroupName | unknownGroup
  | numberedAmongNamed | nestedTooDeep | unboundedLookBehind
  deriving DecidableEq, Repr

def PatternError.message : PatternError → String
  | unclosedGroup => "a group is not closed"
  | unopenedGroup => "a closing parenthesis has no opening one"
  | unclosedSet => "a character set is not closed"
  | unclosedComment => "a comment is not closed"
  | unclosedClassName => "a class name is not closed"
  | nothingToRepeat => "there is nothing to repeat"
  | roundsOutOfOrder => "the bounds of a repetition are out of order"
  | rangeOutOfOrder => "the ends of a range are out of order"
  | rangeOfClass => "a range ends in a class"
  | trailingBackslash => "a backslash ends the pattern"
  | unknownEscape => "an escape is unknown"
  | invalidCodePoint => "a code point is invalid"
  | unknownClass => "a class name is unknown"
  | unknownFlag => "a flag is unknown"
  | unsupportedGroup => "a kind of group is not supported"
  | invalidGroupName => "a group name is invalid"
  | unknownGroup => "a reference names no group before it"
  | numberedAmongNamed => "a numbered reference stands beside named groups"
  | nestedTooDeep => "groups are nested too deeply"
  | unboundedLookBehind => "a look-behind has no fixed width"

end Highlight.Regex
