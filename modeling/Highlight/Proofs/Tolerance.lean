import Highlight.Proofs.CallsInStep
import Highlight.Proofs.Except

/-!
What letting illegal lexemes through changes. A scan that halts at none of them takes the same steps
either way, so that two calls come out alike, whatever they come to.
-/
namespace Highlight

namespace Scan

variable {env strict tolerant : Env} {settings : Settings} {language code : String}
  {c : Option Continuation}

/-- A scan that lets illegal lexemes through follows one that does not, until the latter halts at one. -/
lemma leads_tolerant (env : Env) : ({ env with tolerant := false } : Env).Leads
    (Halt.Among True False (fun _ => False)) (fun _ => True) { env with tolerant := true } where
  table := rfl
  text := rfl
  illegal := fun _ => .inr trivial
  fault := fun _ => .inr trivial
  tolerant := .inr ⟨rfl,fun _ => trivial⟩
  safeMode := .inl rfl
  embed := fun sub c code => by
    cases env.embed sub c code with
    | none => exact .none
    | some call => exact .some (.refl fun _ _ _ _ => .inr trivial)

/-- A scan that does not report an illegal lexeme has not halted at one, so that one that lets them
through comes to the same. -/
lemma run_eq_of_legal (h : strict.Leads (Halt.Among True False (fun _ => False)) (fun _ => True) tolerant)
    {keys : List String}
    (hlegal : ∀ r keys', (highlight strict settings language code c).run keys = (.ok r,keys') →
      r.illegal = none) :
    (highlight tolerant settings language code c).run keys =
      (highlight strict settings language code c).run keys := by
  have hsafe : tolerant.safeMode = strict.safeMode :=
    h.safeMode.resolve_right (fun hparts => hparts.2 .searchGaveUp)
  rw [run_highlight] at hlegal
  rw [run_highlight,run_highlight,h.table]
  rcases hrun : run strict (.opened strict.table c keys) with ⟨outcome,s⟩
  have hsame : run tolerant (.opened strict.table c keys) = (outcome,s) := by
    rw [hrun] at hlegal
    match outcome with
    | .ok () => exact (follows_run h).ok hrun
    | .error (.illegal lexeme) => cases hlegal _ _ rfl
    | .error (.fault f) => exact ((follows_run h).error hrun |>.resolve_left id).2
    | .error (.error e) => exact ((follows_run h).error hrun |>.resolve_left id).2
  rw [hsame,h.conclude rfl _ _ _ (fun _ _ => by rw [hsafe])]

end Scan

namespace Highlighter

lemma highlightWithin_tolerant (h : Highlighter) (depth : Nat) (q : Request) (keys : List String)
    (hlegal : ∀ r keys', (h.highlightWithin depth { q with tolerant := false }).run keys = (.ok r,keys') →
      r.illegal = none) :
    (h.highlightWithin depth { q with tolerant := true }).run keys =
      (h.highlightWithin depth { q with tolerant := false }).run keys := by
  cases depth with
  | zero => rfl
  | succ depth =>
    cases hfind : h.registry.find? q.name with
    | none =>
      rw [highlightWithin,highlightWithin]
      dsimp only
      rw [hfind]
    | some found =>
      obtain ⟨key,entry⟩ := found
      cases htable : entry.table.get with
      | error e =>
        rw [highlightWithin,highlightWithin]
        dsimp only
        rw [hfind]
        dsimp only
        rw [htable]
      | ok table =>
        have hscan (tolerant : Bool) : (h.highlightWithin (depth + 1) { q with tolerant }).run keys =
            (h.scan (h.highlightWithin depth) table { q with tolerant }).run (keys.insert key) :=
          run_highlightWithin_succ (q := { q with tolerant }) hfind htable keys
        rw [hscan false] at hlegal
        rw [hscan true,hscan false]
        exact Scan.run_eq_of_legal (Scan.leads_tolerant (h.envFor (h.highlightWithin depth) table q)) hlegal

/-- Where a call meets nothing illegal, it comes out the same if illegal lexemes are let through:
with the same result, or with the same error. -/
theorem highlight_tolerant (h : Highlighter) (q : Request) (keys : List String)
    (hlegal : ∀ r keys', (h.highlight { q with tolerant := false }).run keys = (.ok r,keys') →
      r.illegal = none) :
    (h.highlight { q with tolerant := true }).run keys =
      (h.highlight { q with tolerant := false }).run keys :=
  highlightWithin_tolerant h (h.depthFor q.code) q keys hlegal

/-- A grammar with illegal lexemes of two kinds: some are empty, and no scan halts at those. -/
def wary : Grammar where
  name := "wary"
  root := { contains := some [.mode 0], illegal := some "#" }
  modes := #[{ beginPattern := some "<", endPattern := some ">", illegal := some "(?=b)|:" }]

theorem highlight_tolerant_wary :
    let h : Highlighter := { registry := Registry.insert {} "wary" wary }
    ∃ r keys, (h.highlight { name := "wary", code := "a<b>" }).run [] = (.ok r,keys) ∧
      r.illegal = none ∧
      (h.highlight { name := "wary", code := "a<b>", tolerant := true }).run [] = (.ok r,keys) := by
  intro h
  obtain ⟨r,keys,hrun,hlegal⟩ := exists_ok_of_any
    (x := (h.highlight { name := "wary", code := "a<b>" }).run []) (·.illegal.isNone) (by decide +kernel)
  have hlegal : r.illegal = none := Option.isNone_iff_eq_none.mp hlegal
  refine ⟨r,keys,hrun,hlegal,?_⟩
  rw [← hrun]
  refine highlight_tolerant h { name := "wary", code := "a<b>" } [] (fun r' keys' hrun' => ?_)
  cases hrun.symm.trans hrun'
  exact hlegal

end Highlighter
end Highlight
