import Highlight.Error
import Highlight.Regex.Basic
import Highlight.Rules.Fragment

/-!
Combined matchers. The rules of a mode are tried as one alternation: the match that starts first
wins and, among those that start together, the rule listed first. A rule set also matches any of
its suffixes, so that a rejected rule's successors get their turn at the same spot.
-/
namespace Highlight.Rules

/-- What it means that a rule fires. -/
inductive RuleKind where
  | begins (node : Nat)
  | ends
  | illegal
  deriving DecidableEq, Repr

structure Rule where
  pattern : String
  kind : RuleKind
  deriving DecidableEq, Repr

/-- A rule that fired, by its place in the full list, on the text between two positions. -/
structure RuleMatch where
  start : Nat
  stop : Nat
  kind : RuleKind
  index : Nat
  deriving DecidableEq, Repr

def RuleMatch.isBegin (m : RuleMatch) : Bool :=
  match m.kind with
  | .begins _ => true
  | _ => false

def RuleMatch.isEmpty (m : RuleMatch) : Bool := m.start == m.stop

def RuleMatch.lexeme (m : RuleMatch) (text : Source) : String := text.slice m.start m.stop

def Rule.isBegin (r : Rule) : Bool :=
  match r.kind with
  | .begins _ => true
  | _ => false

/-- A rule as part of an alternation: the capture group around it and its place. -/
structure Branch where
  group : Nat
  kind : RuleKind
  index : Nat

/-- One alternation over consecutive rules. -/
structure Matcher where
  regex : Option Regex
  branches : List Branch

namespace Matcher

/-- Number the rules from `first` on. -/
def branchesOf (groups : List Nat) (rules : List Rule) (first : Nat) : List Branch :=
  (groups.zip rules).mapIdx (fun i (group,rule) => ⟨group,rule.kind,first + i⟩)

/-- Build the alternation of rules that are numbered from `first` on. -/
def build (rules : List Rule) (first : Nat) (ignoreCase : Bool) : Except GrammarError Matcher :=
  if rules.isEmpty then .ok { regex := none, branches := [] }
  else
    let joined := join (rules.map (·.pattern)) "|"
    match Regex.compileRule joined.source ignoreCase with
    | .ok regex => .ok { regex, branches := branchesOf joined.groups rules first }
    | .error reason => .error (.invalidPattern joined.source reason)

/-- The rule that fires first at or after `start`. -/
def exec (m : Matcher) (text : Source) (start : Nat) : Except Fault (Option RuleMatch) :=
  match m.regex with
  | none => .ok none
  | some regex =>
    match regex.find text start with
    | .error .gaveUp => .error .searchGaveUp
    | .ok none => .ok none
    | .ok (some f) =>
      .ok ((m.branches.find? (fun b => (f.capture? b.group).isSome)).map
        (fun b => { start := f.start, stop := f.stop, kind := b.kind, index := b.index }))

end Matcher

/-- All rules of a mode, with a matcher for each suffix of the list. -/
structure RuleSet where
  rules : List Rule := []
  ignoreCase : Bool := false
  suffixes : Array (Thunk (Except GrammarError Matcher)) := #[]
  get_of_suffixes (k : Nat) (m : Thunk (Except GrammarError Matcher)) :
    suffixes[k]? = some m → m.get = Matcher.build (rules.drop k) k ignoreCase := by simp

instance : Inhabited RuleSet := ⟨{}⟩

namespace RuleSet

/-- Matchers for the rules from number `first` on and for each suffix of them. -/
def suffixMatchers (ignoreCase : Bool) :
    List Rule → Nat → List (Thunk (Except GrammarError Matcher))
  | [], first => [Thunk.mk fun _ => Matcher.build [] first ignoreCase]
  | rule :: rest, first =>
    Thunk.mk (fun _ => Matcher.build (rule :: rest) first ignoreCase) ::
      suffixMatchers ignoreCase rest (first + 1)

theorem get_of_suffixMatchers {ignoreCase : Bool} {rules : List Rule} {first k : Nat}
    {m : Thunk (Except GrammarError Matcher)}
    (h : (suffixMatchers ignoreCase rules first)[k]? = some m) :
    m.get = Matcher.build (rules.drop k) (first + k) ignoreCase := by
  induction rules generalizing first k with
  | nil =>
    cases k with
    | zero => simp [suffixMatchers] at h; subst h; rfl
    | succ k => simp [suffixMatchers] at h
  | cons rule rest ih =>
    cases k with
    | zero => simp [suffixMatchers] at h; subst h; rfl
    | succ k =>
      have hk : first + (k + 1) = first + 1 + k := by omega
      rw [hk]
      exact ih (by simpa [suffixMatchers] using h)

/-- Build a rule set. Broken rules show at once, in the matcher for the whole list. -/
def build (rules : List Rule) (ignoreCase : Bool) : Except GrammarError RuleSet :=
  match h : Matcher.build rules 0 ignoreCase with
  | .error e => .error e
  | .ok full => .ok {
      rules, ignoreCase
      suffixes := (Thunk.pure (.ok full) :: (suffixMatchers ignoreCase rules 0).tail).toArray
      get_of_suffixes := by
        rintro (_ | k) m hm
        · obtain rfl : Thunk.pure (.ok full) = m := by simpa using hm
          exact h.symm
        · have hk : m.get = Matcher.build (rules.drop (k + 1)) (0 + (k + 1)) ignoreCase :=
            get_of_suffixMatchers (by simpa using hm)
          rwa [Nat.zero_add] at hk }

def beginCount (s : RuleSet) : Nat := s.rules.countP Rule.isBegin

/-- The rule that fires first at or after `start`, among those from number `first` on. -/
def exec (s : RuleSet) (text : Source) (start first : Nat) : Except Fault (Option RuleMatch) :=
  match s.suffixes[first]? with
  | none => .ok none
  | some matcher =>
    match matcher.get with
    | .ok m => m.exec text start
    | .error reason => .error (.brokenMatcher reason)

/-- Where to go on after the rule at `index` fired but was rejected: its successor, or the first
rule if it was the last one that begins a mode. -/
def resumeAfter (s : RuleSet) (index : Nat) : Nat :=
  if index + 1 = s.beginCount then 0 else index + 1

end RuleSet
end Highlight.Rules
