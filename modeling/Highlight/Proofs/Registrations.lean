import Highlight.Proofs.Except
import Highlight.Proofs.Text.LowerCase
import Highlight.Registry
import Mathlib.Tactic.ByContra
import Mathlib.Tactic.Lemma

/-!
Histories of registrations. A registry is a map in which the last writer wins: a name stands for what was last
stored under its key, and an alias for what is stored under the key that declared it last. An alias always
stands for a grammar that is stored, so that a name is without a grammar only if it is neither a key nor an
alias.
-/
namespace Highlight.Registry

/-- What registering one grammar after the other comes to. -/
inductive Built : Registry → Prop where
  | empty : Built {}
  | insert {r : Registry} (h : Built r) (name : String) (g : Grammar) : Built (r.insert name g)

/-- Whether a name, or an alias of that name, has been registered. -/
def Declares (r : Registry) (name : String) : Prop :=
  key name ∈ r.names ∨ key name ∈ r.aliases.map Prod.fst

variable {r : Registry} {name k : String}

lemma mem_names_store {e : Entry} {entries : List (String × Entry)} {k' : String} :
    k' ∈ (store k e entries).map Prod.fst ↔ k' = k ∨ k' ∈ entries.map Prod.fst := by
  induction entries with
  | nil => simp [store]
  | cons entry rest ih =>
    obtain ⟨k₁,old⟩ := entry
    rw [store]
    split
    · rename_i h
      subst h
      simp
    · rw [List.map_cons,List.mem_cons,ih,List.map_cons,List.mem_cons]
      exact or_left_comm

lemma lookup_eq_none {β : Type} {entries : List (String × β)} :
    entries.lookup k = none ↔ k ∉ entries.map Prod.fst := by
  rw [List.lookup_eq_none_iff]
  simp only [bne_iff_ne,List.mem_map,not_exists,not_and]
  exact ⟨fun h p hp he => h p hp he.symm,fun h p hp he => h p hp he.symm⟩

/-- Every alias stands for the key of an entry. -/
lemma Built.aliases (h : r.Built) : ∀ a ∈ r.aliases, a.2 ∈ r.names := by
  induction h with
  | empty => exact nofun
  | @insert r _ name g ih =>
    intro a ha
    rw [names,Registry.insert,mem_names_store]
    rcases List.mem_append.mp ha with ha | ha
    · obtain ⟨alternative,-,rfl⟩ := List.mem_map.mp (List.mem_reverse.mp ha)
      exact .inl rfl
    · exact .inr (ih a ha)

/-- A name stands for no grammar if it has not been registered, neither by itself nor as an alias. -/
lemma Built.find?_eq_none (h : r.Built) : r.find? name = none ↔ ¬ r.Declares name := by
  rw [Declares,not_or,find?]
  cases hentry : r.entries.lookup (key name) with
  | some e =>
    have hmem : key name ∈ r.names := by
      by_contra hnone
      rw [lookup_eq_none.mpr hnone] at hentry
      cases hentry
    exact ⟨nofun,fun hnone => absurd hmem hnone.1⟩
  | none =>
    have hnone : key name ∉ r.names := lookup_eq_none.mp hentry
    cases halias : r.aliases.lookup (key name) with
    | none => exact ⟨fun _ => ⟨hnone,lookup_eq_none.mp halias⟩,fun _ => rfl⟩
    | some k =>
      obtain ⟨before,after,hsplit,-⟩ := List.lookup_eq_some_iff.mp halias
      have hmem : (key name,k) ∈ r.aliases := by
        rw [hsplit]
        exact List.mem_append_right _ List.mem_cons_self
      refine ⟨fun hfind => ?_,fun hnone => absurd (List.mem_map_of_mem hmem) hnone.2⟩
      cases hk : r.entries.lookup k with
      | none => exact absurd (h.aliases _ hmem) (lookup_eq_none.mp hk)
      | some e => simp [hk] at hfind

end Highlight.Registry

namespace Highlight

/-- A call that registers what a definition comes to. -/
structure Registration where
  safeMode : Bool
  name : String
  define : Registry → Except HighlightError Grammar

namespace Registry

variable {r : Registry} {c : Registration} {name k k' : String} {g : Grammar} {e : Entry}

/-- The registry after a call, which is as before if the call fails. -/
def after (r : Registry) (c : Registration) : Registry :=
  (r.register c.safeMode c.name c.define).toOption.getD r

/-- The registry after several calls. -/
def afterAll (r : Registry) (calls : List Registration) : Registry := calls.foldl after r

/-- What a call stores, with the key for it. -/
def stored? (r : Registry) (c : Registration) : Option (String × Grammar) :=
  match c.define r with
  | .ok g => some (key c.name,g)
  | .error _ => if c.safeMode then some (key c.name,.plaintext c.name) else none

/-- A record of what was stored, oldest first. -/
abbrev Log := List (String × Grammar)

/-- What is stored by one call after the other. -/
def log (r : Registry) : List Registration → Log
  | [] => []
  | c :: calls => (r.stored? c).toList ++ (r.after c).log calls

namespace Log

/-- The last that was stored under a key. -/
def stored? (log : Log) (k : String) : Option (String × Grammar) := log.reverse.find? (·.1 == k)

/-- The last that was stored with an alias of a key. -/
def declared? (log : Log) (k : String) : Option (String × Grammar) :=
  log.reverse.find? (fun (_,g) => g.aliases.any (key · == k))

/-- What a name stands for: what was last stored under its key, or else what was last stored under the key that
last declared it as an alias. -/
def find? (log : Log) (name : String) : Option (String × Grammar) :=
  match log.stored? (key name) with
  | some s => some s
  | none => (log.declared? (key name)).bind (fun s => log.stored? s.1)

end Log

lemma key_key (name : String) : key (key name) = key name := Text.lower_lower name

lemma lookup_cons_eq {β : Type} (k₁ : String) (b : β) (rest : List (String × β)) :
    ((k₁,b) :: rest).lookup k = if k = k₁ then some b else rest.lookup k := by
  rw [List.lookup_cons]
  by_cases h : k = k₁
  · rw [beq_iff_eq.mpr h,if_pos h]
  · rw [beq_eq_false_iff_ne.mpr h,if_neg h]

lemma lookup_store (entries : List (String × Entry)) :
    (store k e entries).lookup k' = if k' = k then some e else entries.lookup k' := by
  induction entries with
  | nil => exact lookup_cons_eq k e []
  | cons entry rest ih =>
    obtain ⟨k₁,old⟩ := entry
    rw [store]
    split
    · rename_i h
      rw [lookup_cons_eq,lookup_cons_eq,h]
      split <;> rfl
    · rename_i h
      rw [lookup_cons_eq,lookup_cons_eq,ih]
      by_cases h' : k' = k₁
      · rw [if_pos h',if_pos h',if_neg (h' ▸ h)]
      · rw [if_neg h',if_neg h']

lemma find?_insert (r : Registry) (name : String) (g : Grammar) :
    (r.insert name g).find? name = some (key name,.ofGrammar g) := by
  rw [find?,insert,lookup_store,if_pos rfl]

lemma names_store (entries : List (String × Entry)) : (store k e entries).map Prod.fst =
    if k ∈ entries.map Prod.fst then entries.map Prod.fst else entries.map Prod.fst ++ [k] := by
  induction entries with
  | nil => rfl
  | cons entry rest ih =>
    obtain ⟨k₁,old⟩ := entry
    rw [store]
    split
    · rename_i h
      simp [h]
    · rename_i h
      rw [List.map_cons,ih]
      by_cases h' : k ∈ rest.map Prod.fst <;> simp [h',Ne.symm h]

/-- The aliases of a grammar stand for its key, before those declared earlier. -/
lemma lookup_aliases (names : List String) (aliases : List (String × String)) :
    ((names.map (fun name => (key name,k))).reverse ++ aliases).lookup k' =
      if names.any (key · == k') then some k else aliases.lookup k' := by
  induction names generalizing aliases with
  | nil => rfl
  | cons name names ih =>
    rw [List.map_cons,List.reverse_cons,List.append_assoc,ih,List.singleton_append,lookup_cons_eq,
      List.any_cons]
    by_cases h : k' = key name
    · simp [h]
    · simp [h,Ne.symm h]

lemma eraseDups_concat (ks : List String) (k : String) :
    (ks ++ [k]).eraseDups = if k ∈ ks then ks.eraseDups else ks.eraseDups ++ [k] := by
  rw [List.eraseDups_append,List.removeAll,List.filter_singleton]
  by_cases h : k ∈ ks <;> simp [h,List.eraseDups_cons]

namespace Log

variable {log : Log}

lemma find?_reverse_concat {p : String × Grammar → Bool} (x : String × Grammar) :
    (log ++ [x]).reverse.find? p = if p x then some x else log.reverse.find? p := by
  rw [List.reverse_concat,List.find?_cons]
  cases p x <;> rfl

lemma key_of_stored? {x : String × Grammar} (h : log.stored? k = some x) : x.1 = k :=
  beq_iff_eq.mp (@List.find?_some _ (fun x : String × Grammar => x.1 == k) _ _ h)

end Log

/-- A registry is what a record of what was stored says. -/
structure Keeps (r : Registry) (log : Log) : Prop where
  entries : ∀ k, (r.entries.lookup k).map Entry.grammar = (log.stored? k).map Prod.snd
  aliases : ∀ k, r.aliases.lookup k = (log.declared? k).map Prod.fst
  names : r.names = (log.map Prod.fst).eraseDups
  keys : ∀ k ∈ log.map Prod.fst, key k = k

namespace Keeps

variable {log : Log}

lemma empty : Keeps {} [] := ⟨fun _ => rfl,fun _ => rfl,rfl,nofun⟩

lemma insert (h : Keeps r log) (name : String) (g : Grammar) :
    Keeps (r.insert name g) (log ++ [(key name,g)]) where
  entries k := by
    rw [Registry.insert,lookup_store,Log.stored?,Log.find?_reverse_concat]
    by_cases hk : k = key name
    · rw [if_pos hk,if_pos (beq_iff_eq.mpr hk.symm)]
      rfl
    · rw [if_neg hk,if_neg (by simpa using Ne.symm hk)]
      exact h.entries k
  aliases k := by
    rw [Registry.insert,lookup_aliases,Log.declared?,Log.find?_reverse_concat]
    dsimp only
    split
    · rfl
    · exact h.aliases k
  names := by
    have hmem : key name ∈ r.entries.map Prod.fst ↔ key name ∈ log.map Prod.fst := by
      rw [← Registry.names,h.names,List.mem_eraseDups]
    rw [Registry.names,Registry.insert,names_store,List.map_append,List.map_singleton,eraseDups_concat,
      ← h.names]
    simp only [hmem]
    rfl
  keys k hk := by
    rw [List.map_append,List.mem_append] at hk
    rcases hk with hk | hk
    · exact h.keys k hk
    · rw [List.map_singleton,List.mem_singleton] at hk
      rw [hk,key_key]

lemma after (h : Keeps r log) (c : Registration) : Keeps (r.after c) (log ++ (r.stored? c).toList) := by
  rw [Registry.after,register,stored?]
  cases c.define r with
  | ok g => exact h.insert c.name g
  | error e =>
    cases c.safeMode with
    | true => exact h.insert c.name (.plaintext c.name)
    | false =>
      change Keeps r (log ++ [])
      rwa [List.append_nil]

lemma afterAll (h : Keeps r log) (calls : List Registration) : Keeps (r.afterAll calls) (log ++ r.log calls) := by
  induction calls generalizing r log with
  | nil =>
    rw [Registry.log,List.append_nil]
    exact h
  | cons c calls ih =>
    rw [Registry.log,← List.append_assoc]
    exact ih (h.after c)

/-- What a name stands for. -/
lemma find?_eq (h : Keeps r log) (name : String) :
    (r.find? name).map (fun (k,e) => (k,e.grammar)) = log.find? name := by
  have hentries := h.entries (key name)
  rw [Registry.find?,Log.find?]
  cases hstored : log.stored? (key name) with
  | some x =>
    rw [hstored] at hentries
    obtain ⟨e,he,hg⟩ := Option.map_eq_some_iff.mp hentries
    rw [he]
    exact congrArg some (Prod.ext (Log.key_of_stored? hstored).symm hg)
  | none =>
    rw [hstored] at hentries
    rw [Option.map_eq_none_iff.mp hentries,h.aliases]
    cases log.declared? (key name) with
    | none => rfl
    | some y =>
      have hentries' := h.entries y.1
      dsimp only [Option.map_some,Option.bind_some,bind]
      cases hstored' : log.stored? y.1 with
      | none =>
        rw [hstored'] at hentries'
        rw [Option.map_eq_none_iff.mp hentries']
        rfl
      | some x =>
        rw [hstored'] at hentries'
        obtain ⟨e,he,hg⟩ := Option.map_eq_some_iff.mp hentries'
        rw [he]
        exact congrArg some (Prod.ext (Log.key_of_stored? hstored').symm hg)

/-- A name that is listed stands for the grammar that is stored under it. -/
lemma exists_find?_eq (h : Keeps r log) {name : String} (hname : name ∈ r.names) :
    ∃ e, r.find? name = some (name,e) := by
  rw [h.names,List.mem_eraseDups] at hname
  have hkey := h.keys name hname
  have hstored : (log.stored? name).isSome = true := by
    obtain ⟨x,hx,rfl⟩ := List.mem_map.mp hname
    rw [Log.stored?,List.find?_isSome]
    exact ⟨x,List.mem_reverse.mpr hx,beq_iff_eq.mpr rfl⟩
  have hentry : (r.entries.lookup name).isSome = true := by
    rw [← Option.isSome_map,h.entries,Option.isSome_map,hstored]
  obtain ⟨e,he⟩ := Option.isSome_iff_exists.mp hentry
  refine ⟨e,?_⟩
  rw [Registry.find?,hkey,he]

end Keeps

/-- What a registry is after any calls, by the record of what they stored: a name stands for what was last
stored under its key, or else for what is stored under the key that last declared it as an alias. The names
are the keys in the order in which they were first stored, and each stands for itself. A definition that
fails changes nothing, or in safe mode stores plain text, which is never detected. -/
theorem afterAll_keeps (calls : List Registration) :
    let r := Registry.afterAll {} calls
    let log := Registry.log {} calls
    (∀ name, (r.find? name).map (fun (k,e) => (k,e.grammar)) = log.find? name) ∧
      r.names = (log.map Prod.fst).eraseDups ∧ (∀ name ∈ r.names, ∃ e, r.find? name = some (name,e)) ∧
      ∀ c e, c.define r = .error e →
        (c.safeMode = false →
          r.register c.safeMode c.name c.define = .error (.definitionFailed (key c.name) e.message) ∧
            r.after c = r) ∧
        (c.safeMode = true → (r.after c).find? c.name = some (key c.name,.ofGrammar (.plaintext c.name)) ∧
          (r.after c).isDetected c.name = false) := by
  have h := Keeps.empty.afterAll calls
  rw [List.nil_append] at h
  refine ⟨h.find?_eq,h.names,fun name => h.exists_find?_eq,fun c e hfails => ⟨fun hmode => ?_,fun hmode => ?_⟩⟩
  · have hregister : (afterAll {} calls).register c.safeMode c.name c.define =
        .error (.definitionFailed (key c.name) e.message) := by
      rw [register,hfails,hmode]
      rfl
    refine ⟨hregister,?_⟩
    rw [after,hregister]
    rfl
  · have hafter : (afterAll {} calls).after c = (afterAll {} calls).insert c.name (.plaintext c.name) := by
      rw [after,register,hfails,hmode]
      rfl
    rw [hafter,isDetected,find?_insert]
    exact ⟨rfl,rfl⟩

/-- Names and aliases in both cases, an alias that is taken over, and a name that is taken again. -/
def someCalls : List Registration := [
  ⟨true,"B",fun _ => .ok { name := "b", aliases := ["x","A"] }⟩,
  ⟨true,"a",fun _ => .ok { name := "first" }⟩,
  ⟨false,"c",fun _ => .ok { name := "c", aliases := ["X"] }⟩,
  ⟨false,"A",fun r => return { ← r.require "b" with name := "second", aliases := [] }⟩]

/-- A definition that needs a grammar that is not there. -/
def needy (safeMode : Bool) : Registration := ⟨safeMode,"D",fun r => r.require "missing"⟩

theorem afterAll_keeps_someCalls :
    let r := afterAll {} someCalls
    (r.find? "X").map (fun (k,e) => (k,e.grammar)) = some ("c",{ name := "c", aliases := ["X"] }) ∧
      (r.find? "a").map (fun (k,e) => (k,e.grammar)) = some ("a",{ name := "second" }) ∧
      r.names = ["b","a","c"] ∧ (∃ e, r.find? "b" = some ("b",e)) ∧ r.after (needy false) = r ∧
      (r.after (needy true)).isDetected "D" = false := by
  obtain ⟨hfind,hnames,hlisted,hfails⟩ := afterAll_keeps someCalls
  have hlog : log {} someCalls = [("b",{ name := "b", aliases := ["x","A"] }),("a",{ name := "first" }),
      ("c",{ name := "c", aliases := ["X"] }),("a",{ name := "second" })] := rfl
  rw [hlog] at hfind hnames
  have hneedy : ∀ safeMode, (needy safeMode).define (afterAll {} someCalls) =
      .error (.missingRequiredGrammar "missing") := fun _ => rfl
  have hb : "b" ∈ (afterAll {} someCalls).names := by
    rw [hnames]
    decide
  exact ⟨hfind "X",hfind "a",hnames,hlisted "b" hb,((hfails _ _ (hneedy false)).1 rfl).2,
    ((hfails _ _ (hneedy true)).2 rfl).2⟩

end Registry
end Highlight
