import Highlight.Proofs.Json.Nodes
import Highlight.Proofs.Rules.Anchored
import Highlight.Proofs.Scan.Scopes
import Highlight.Proofs.Scan.Words

/-!
Steps of a scan by the grammar for JSON. Strings and names get a scope each, and so do numbers. A literal gets
its scope when the text around it is flushed.
-/
namespace Highlight.JsonText

open Rules Regex Assembly Scan

variable {env : Env} {id : NodeId} {o : Outline} {p q stop spare spare' : Nat} {s s₀ : State}
variable {frames : List Frame} {m : RuleMatch}
variable {scopes new : List (Option String × String)} {text : String}

/-- The scope of a token. -/
def scopeOf (token : String × List Char) : Option String × String := (some token.1,String.ofList token.2)

section Ends

/-- Patterns of ends, each for one character. -/
def endChars : List (String × Char) := [("\"",'"'),("\\\x7d",'\x7d'),("\\]",']'),(",",',')]

lemma endsAt_char (ho : Outlined false o (env.node id)) {own : String} {c : Char} (hown : o.endPattern = some own)
    (hmem : (own,c) ∈ endChars) (hq : q ≤ env.text.size) :
    endsAt env { node := id } q = .ok (decide (env.text[q]? = some c)) := by
  have hread : ∀ e ∈ endChars, looksAheadPlainly e.1 false = true ∧
      Rule.positional? ⟨e.1,.ends⟩ false = some (.set (.single e.2)) := by decide +kernel
  obtain ⟨hahead,hpattern⟩ := hread _ hmem
  have hrel := ho.endRegex
  rw [hown] at hrel
  cases hr : (env.node id).endRegex with
  | none =>
    rw [hr] at hrel
    cases hrel
  | some r =>
    rw [hr] at hrel
    cases hrel with
    | some hr' =>
      rw [endsAt,hr]
      dsimp only
      rw [matchesIn_of_looksAheadPlainly hahead hr' hq,Rule.end?_eq_head? hpattern hq,Pattern.ends,
        show Haystack.charAt? { text := env.text } q = env.text[q]? from rfl]
      cases env.text[q]? with
      | none => rfl
      | some d =>
        by_cases hd : d = c
        · simp [CharSet.contains,hd]
        · simp [CharSet.contains,hd,Ne.symm hd]

end Ends

/-- Characters of no word add nothing. -/
lemma flushesAs_wordless (ho : Outlined false o (env.node id)) (hlexemes : o.lexemes = defaultLexemes)
    (hsub : o.subLanguage = none) {cs : List Char} (h : wordless cs = true) :
    env.FlushesAs id (String.ofList cs) [] := by
  have hwords := ho.lexemes
  rw [hlexemes] at hwords
  refine ⟨_,_,flushes_wordless (ho.subLanguage.trans hsub) hwords h,fun b => ⟨?_,?_⟩⟩
  · exact Tree.Builder.enclosing_addText b _
  · rw [Tree.Builder.scopes_addText,List.append_nil]

/-- A literal adds its scope. -/
lemma flushesAs_literal (hcase : env.table.ignoreCase = false) (ho : Outlined false o (env.node id))
    (hlexemes : o.lexemes = defaultLexemes) (hsub : o.subLanguage = none) (hkeywords : o.keywords = some literals)
    {before after : List Char} (l : Literal) (hbefore : wordless before = true) (hafter : wordless after = true) :
    env.FlushesAs id (String.ofList (before ++ l.chars ++ after)) [scopeOf ("literal",l.chars)] := by
  have hfind : ((KeywordTable.ofKeywords literals false).find? (String.ofList l.chars)).map
      KeywordEntry.className = some "literal" := by
    cases l <;> decide +kernel
  obtain ⟨entry,hentry,hclass⟩ := Option.map_eq_some_iff.mp hfind
  have hword : ∀ c ∈ l.chars, Text.isWord c = true := by cases l <;> exact forall_of_all (by decide)
  have hne : l.chars ≠ [] := by cases l <;> decide
  have htable : (env.node id).keywords = some (KeywordTable.ofKeywords literals false) :=
    ho.keywords.trans (by rw [hkeywords]; rfl)
  have hwords := ho.lexemes
  rw [hlexemes] at hwords
  refine ⟨_,_,flushes_keyword (ho.subLanguage.trans hsub) htable hcase hwords hbefore hword hne hafter hentry,
    fun b => ⟨by simp,?_⟩⟩
  have hempty : String.ofList l.chars ≠ "" := by cases l <;> decide
  rw [Tree.Builder.scopes_addText,Tree.Builder.scopes_addKeyword _ hempty,Tree.Builder.scopes_addText,hclass]
  rfl

/-- A scan comes to a position between its scopes, and what it has in the buffer is in no word. -/
def Arrives (env : Env) (s₀ : State) (spare : Nat) (frames : List Frame) (scopes : List (Option String × String))
    (p : Nat) : Prop :=
  ∃ s cs, ComesTo env s₀ spare s ∧ Between frames scopes s ∧ s.buffer = String.ofList cs ∧ wordless cs = true ∧
    s.position = p

section Instant

variable {className : Option String}

lemma plainMode_instant : PlainMode (instantOutline className) := ⟨rfl,rfl,rfl,rfl,rfl⟩

lemma endsAtOnce_instant : EndsAtOnce (instantOutline className) := ⟨rfl,rfl⟩

end Instant

/-- A mode for texts in quotes: its node, that of the escapes in it, and the class of its scope. -/
structure Quoting where
  node : NodeId
  escapeNode : NodeId
  kind : String

lemma isUnescaped_of_isHex {c : Char} (h : isHex c = true) : isUnescaped c = true := by
  simp only [isHex,Char.isDigit,Bool.or_eq_true,Bool.and_eq_true,decide_eq_true_eq,Char.le_def,
    UInt32.le_iff_toNat_le] at h
  have hne : c ≠ '"' ∧ c ≠ '\\' := by
    constructor <;> rintro rfl <;> exact absurd h (by decide)
  simp only [isUnescaped,Bool.and_eq_true,decide_eq_true_eq,bne_iff_ne]
  refine ⟨⟨?_,hne.1⟩,hne.2⟩
  rcases h with (h | h) | h <;> exact Nat.le_trans (by decide) h.1

namespace Quoting

def string : Quoting := ⟨stringNode,JsonText.escapeNode,"string"⟩
def name : Quoting := ⟨nameNode,nameEscapeNode,"attr"⟩
def all : List Quoting := [string,name]

lemma string_mem : string ∈ all := by simp [all]
lemma name_mem : name ∈ all := by simp [all]

variable {x : Quoting}

lemma mem_escapes (hx : x ∈ all) : x.escapeNode ∈ [JsonText.escapeNode,nameEscapeNode] := by
  have h : ∀ x ∈ all, x.escapeNode ∈ [JsonText.escapeNode,nameEscapeNode] := by decide
  exact h x hx

lemma plainMode : PlainMode (quotedOutline x.kind x.escapeNode) := ⟨rfl,rfl,rfl,rfl,rfl⟩

section Steps

variable (ht : Grammar.Bundled.json.assemble = .ok env.table) (hx : x ∈ all)
include ht hx

lemma outlined : Outlined false (quotedOutline x.kind x.escapeNode) (env.node x.node) := by
  have h : ∀ x ∈ all, jsonOutlines[x.node]? = some (quotedOutline x.kind x.escapeNode) := by decide
  exact outlined_of_json ht (h x hx)

lemma outlined_escape : Outlined false (instantOutline none) (env.node x.escapeNode) := by
  have h : ∀ x ∈ all, jsonOutlines[x.escapeNode]? = some (instantOutline none) := by decide
  exact outlined_of_json ht (h x hx)

/-- The scan goes through an escape in two steps. -/
lemma escape (hcomes : ComesTo env s₀ 0 s) (h : Inside ({ node := x.node } :: frames) scopes x.kind text s)
    (hgap : Unescaped env.text s.position q) (hle : s.position ≤ q) {letter : Char}
    (hspells : env.text.Spells q ['\\',letter]) (hlen : frames.length < maxOpenModes) :
    ∃ s', ComesTo env s₀ 0 s' ∧
      Inside ({ node := x.node } :: frames) scopes x.kind (text ++ env.text.slice s.position (q + 2)) s' ∧
      s'.position = q + 2 := by
  have htop : s.top = x.node := by rw [State.top,h.stack]; rfl
  have ho := outlined ht hx
  have hescape := outlined_escape ht hx
  have hexec := hgap.exec_escape (mem_escapes hx) ho.rules hle hspells
  rw [← htop] at ho hexec
  have hsize : q + 2 ≤ env.text.size :=
    hspells.le_size (Nat.le_of_lt (Haystack.lt_size_of_charAt? (t := { text := env.text }) hspells.head))
  obtain ⟨s₁,hcomes₁,hin₁,hposition₁,hlast₁⟩ : ∃ s', ComesTo env s₀ 1 s' ∧ _ :=
    h.opens hcomes hexec rfl ho plainMode hescape plainMode_instant rfl hlen (by dsimp only; omega)
  have htop₁ : s₁.top = x.escapeNode := by rw [State.top,hin₁.stack]; rfl
  obtain ⟨hexec₁,hstalls₁,hends₁⟩ :=
    endsAtOnce_instant.closes hescape htop₁ hlast₁ (by rw [hposition₁]; dsimp only; omega)
      (by rw [hposition₁]; exact hsize)
  obtain ⟨s₂,hcomes₂,hin₂,hposition₂⟩ : ∃ s', ComesTo env s₀ 0 s' ∧ _ :=
    hin₁.closes hcomes₁ hexec₁ rfl hstalls₁ hends₁ hescape plainMode_instant rfl (by dsimp only; omega)
  refine ⟨s₂,hcomes₂,?_,hposition₂.trans hposition₁⟩
  rw [Source.slice_self,String.append_empty] at hin₂
  exact hin₂

/-- The scan comes to the end of a text in quotes. -/
lemma body {pieces : List Piece} (hcomes : ComesTo env s₀ 0 s)
    (h : Inside ({ node := x.node } :: frames) scopes x.kind text s)
    (hgap : Unescaped env.text s.position q) (hle : s.position ≤ q)
    (hspells : env.text.Spells q (pieces.flatMap Piece.chars ++ ['"'])) (hlen : frames.length < maxOpenModes)
    (hstop : stop = q + (pieces.flatMap Piece.chars ++ ['"']).length) :
    Arrives env s₀ 0 frames (scopes ++ [(some x.kind,text ++ env.text.slice s.position stop)]) stop := by
  induction pieces generalizing s text q with
  | nil =>
    have hquote : env.text[q]? = some '"' := hspells.head
    have htop : s.top = x.node := by rw [State.top,h.stack]; rfl
    have ho := outlined ht hx
    have hexec := hgap.exec_quote (mem_escapes hx) ho.rules hle hquote
    rw [← htop] at hexec
    have hends : endsAt env { node := x.node } q = .ok true := by
      rw [endsAt_char ho rfl List.mem_cons_self (Nat.le_of_lt (Array.getElem?_eq_some_iff.mp hquote).1),hquote]
      rfl
    obtain ⟨s',hcomes',hbetween,hbuffer,hposition⟩ : ∃ s', ComesTo env s₀ 0 s' ∧ _ :=
      h.closesScope hcomes hexec rfl (stalls_of_lt _ (Nat.lt_succ_self q)) hends ho plainMode rfl
        (by dsimp only; omega)
    obtain rfl : stop = q + 1 := hstop
    exact ⟨s',[],hcomes',hbetween,hbuffer,rfl,hposition⟩
  | cons piece pieces ih =>
    rw [List.flatMap_cons,List.append_assoc] at hspells hstop
    rw [List.length_append] at hstop
    have hrest := hspells.right
    -- An escape takes the scan to its letter. What comes after that stands for itself, up to a position.
    have hescaped : ∀ letter r, env.text.Spells q ['\\',letter] → Unescaped env.text (q + 2) r → q + 2 ≤ r →
        r = q + piece.chars.length →
          Arrives env s₀ 0 frames (scopes ++ [(some x.kind,text ++ env.text.slice s.position stop)]) stop := by
      intro letter r hspells' hgap' hle' hr
      obtain ⟨s₁,hcomes₁,hin₁,hposition₁⟩ := escape ht hx hcomes h hgap hle hspells' hlen
      rw [← hr] at hrest
      rw [← hposition₁] at hgap' hle'
      have hbetween := ih hcomes₁ hin₁ hgap' hle' hrest (by omega)
      rwa [String.append_assoc,← hposition₁,env.text.slice_append (by omega) (by omega)] at hbetween
    cases piece with
    | unescaped c hc =>
      have hchar : env.text[q]? = some c := hspells.head
      have hgap' : Unescaped env.text s.position (q + 1) := by
        intro k hk hlt
        rcases Nat.eq_or_lt_of_le (Nat.le_of_lt_succ hlt) with rfl | hlt
        · exact ⟨c,hc,hchar⟩
        · exact hgap k hk hlt
      exact ih hcomes h hgap' (Nat.le_succ_of_le hle) hrest (by rw [hstop,Nat.add_assoc]; rfl)
    | escape letter _ =>
      exact hescaped letter (q + 2) hspells.left (fun k hk hlt => by omega) (Nat.le_refl _) rfl
    | codePoint digits hdigits =>
      have hhex : env.text.Spells (q + 2) digits.val := hspells.left.tail.tail
      have hmark : env.text.Spells q (['\\','u'] ++ digits.val) := hspells.left
      refine hescaped 'u' (q + 6) hmark.left (fun k hk hlt => ?_) (by omega)
        (by simp only [Piece.chars,List.length_cons,hdigits])
      obtain ⟨c,hc,hchar⟩ := hhex.exists_getElem? hk (by omega)
      exact ⟨c,isUnescaped_of_isHex (digits.property c hc),hchar⟩

end Steps
end Quoting

lemma wordless_append {cs ds : List Char} (h : wordless cs = true) (h' : wordless ds = true) :
    wordless (cs ++ ds) = true := by
  rw [wordless,List.all_append,Bool.and_eq_true]
  exact ⟨h,h'⟩

lemma Blank.mem_blankChars (blank : Blank) {c : Char} (hc : c ∈ blank.val) : c ∈ blankChars :=
  List.contains_iff_mem.mp (blank.property c hc)

lemma Blank.wordless (blank : Blank) : wordless blank.val = true := by
  have hall : ∀ c ∈ blankChars, (!Text.isWord c) = true := forall_of_all (by decide)
  exact List.all_eq_true.mpr (fun c hc => hall c (blank.mem_blankChars hc))

/-- Where a blank is spelled, there are only blanks. -/
lemma Blank.blanks (blank : Blank) (h : env.text.Spells p blank.val) :
    Blanks env.text p (p + blank.val.length) := by
  intro k hk hlt
  obtain ⟨c,hc,hchar⟩ := h.exists_getElem? hk hlt
  exact ⟨c,blank.mem_blankChars hc,hchar⟩

/-- Modes whose text is not in a scope. -/
def openNodes : List NodeId := [rootNode,objectNode,memberNode,arrayNode,elementNode]

section Open

variable (ht : Grammar.Bundled.json.assemble = .ok env.table)
include ht

lemma flushesAs_open (hid : id ∈ openNodes) {cs : List Char} (h : wordless cs = true) :
    env.FlushesAs id (String.ofList cs) [] := by
  have hall : ∀ id ∈ openNodes, (jsonOutlines[id]?).any
      (fun o => o.lexemes == defaultLexemes && o.subLanguage.isNone) = true := by decide
  obtain ⟨o,ho,hplain⟩ := (Option.any_eq_true _ _).mp (hall id hid)
  obtain ⟨hlexemes,hsub⟩ := Bool.and_eq_true_iff.mp hplain
  exact flushesAs_wordless (outlined_of_json ht ho) (beq_iff_eq.mp hlexemes) (Option.isNone_iff_eq_none.mp hsub) h

/-- A mode without a scope opens after blanks. -/
lemma Arrives.opens (h : Arrives env s₀ spare ({ node := id } :: frames) scopes p) (hid : id ∈ openNodes)
    (blank : Blank) {cs : List Char} (hspells : env.text.Spells p (blank.val ++ cs)) (hcs : wordless cs = true)
    {id' : NodeId} (ho : Outlined false o (env.node id')) (hclass : o.className = none)
    (hguard : o.guarded = false) (hsw : PlainBegin o.switches) (hlen : frames.length < maxOpenModes) {i : Nat}
    (hq : q = p + blank.val.length) (hstop : stop = q + cs.length)
    (hexec : (env.node id).rules.exec env.text p 0 = .ok (some ⟨q,stop,.begins id',i⟩))
    (hspare : spare' + 1 ≤ spare + 2 * cs.length) :
    Arrives env s₀ spare' ({ node := id' } :: { node := id } :: frames) scopes stop := by
  obtain ⟨s,ds,hcomes,hbetween,hbuffer,hds,rfl⟩ := h
  have htop : s.top = id := by rw [State.top,hbetween.stack]; rfl
  have hflush := flushesAs_open ht hid (wordless_append hds blank.wordless)
  rw [String.ofList_append,← hbuffer,← hspells.left.slice,← hq,← htop] at hflush
  rw [← htop] at hexec
  obtain ⟨s',hcomes',hbetween',hbuffer',hposition⟩ : ∃ s', ComesTo env s₀ spare' s' ∧ _ :=
    hbetween.opens hcomes hexec rfl ho hclass hguard hsw hlen hflush (by dsimp only; omega)
  rw [List.append_nil] at hbetween'
  refine ⟨s',cs,hcomes',hbetween',?_,hcs,hposition⟩
  rw [hbuffer',hstop]
  exact (hq ▸ hspells.right).slice

/-- A text in quotes gets a scope. -/
lemma Arrives.quoted (h : Arrives env s₀ spare ({ node := id } :: frames) scopes p) (hid : id ∈ openNodes)
    (blank : Blank) {x : Quoting} (hx : x ∈ Quoting.all) {pieces : List Piece}
    (hspells : env.text.Spells p (blank.val ++ JsonText.quoted pieces)) (hlen : frames.length + 1 < maxOpenModes)
    {i : Nat} (hq : q = p + blank.val.length) (hstop : stop = q + (JsonText.quoted pieces).length)
    (hexec : (env.node id).rules.exec env.text p 0 = .ok (some ⟨q,q + 1,.begins x.node,i⟩)) :
    Arrives env s₀ 0 ({ node := id } :: frames) (scopes ++ [scopeOf (x.kind,JsonText.quoted pieces)]) stop := by
  obtain ⟨s,ds,hcomes,hbetween,hbuffer,hds,rfl⟩ := h
  have htop : s.top = id := by rw [State.top,hbetween.stack]; rfl
  have hflush := flushesAs_open ht hid (wordless_append hds blank.wordless)
  have hquoted : env.text.Spells q (JsonText.quoted pieces) := hq ▸ hspells.right
  have hslice := hquoted.slice
  rw [String.ofList_append,← hbuffer,← hspells.left.slice,← hq,← htop] at hflush
  rw [← htop] at hexec
  obtain ⟨s',hcomes',hinside,(hposition : s'.position = q + 1),-⟩ : ∃ s', ComesTo env s₀ 0 s' ∧ _ :=
    hbetween.opensScope hcomes hexec rfl (Quoting.outlined ht hx) rfl rfl Quoting.plainMode.plainBegin
      (Nat.le_of_lt hlen) hflush (by dsimp only; omega)
  have hlength : stop = q + 1 + (pieces.flatMap Piece.chars ++ ['"']).length := by
    rw [hstop,JsonText.quoted,List.cons_append,List.length_cons]
    omega
  have hbody := Quoting.body ht hx hcomes' hinside (fun k hk hlt => by omega) (Nat.le_refl _)
    (hposition ▸ hquoted.tail) hlen (hposition ▸ hlength)
  have hlexeme : env.lexeme ⟨q,q + 1,.begins x.node,i⟩ ++ env.text.slice (q + 1) stop =
      String.ofList (JsonText.quoted pieces) := by
    rw [← hquoted.slice,← hstop]
    exact env.text.slice_append (Nat.le_succ q) (hlength ▸ Nat.le_add_right _ _)
  rwa [hposition,List.append_nil,hlexeme] at hbody

/-- A number gets a scope. -/
lemma Arrives.number (h : Arrives env s₀ spare ({ node := id } :: frames) scopes p) (hid : id ∈ openNodes)
    (blank : Blank) {n : Number} (hspells : env.text.Spells p (blank.val ++ n.chars)) (hp : p ≤ env.text.size)
    (hlen : frames.length < maxOpenModes) {i : Nat} (hq : q = p + blank.val.length)
    (hstop : stop = q + n.chars.length)
    (hexec : (env.node id).rules.exec env.text p 0 = .ok (some ⟨q,stop,.begins numberNode,i⟩)) :
    Arrives env s₀ 0 ({ node := id } :: frames) (scopes ++ [scopeOf ("number",n.chars)]) stop := by
  obtain ⟨s,ds,hcomes,hbetween,hbuffer,hds,rfl⟩ := h
  have htop : s.top = id := by rw [State.top,hbetween.stack]; rfl
  have ho : Outlined false (instantOutline (some "number")) (env.node numberNode) := outlined_of_json ht rfl
  have hflush := flushesAs_open ht hid (wordless_append hds blank.wordless)
  have hnumber : env.text.Spells q n.chars := hq ▸ hspells.right
  have hpos : 0 < n.chars.length := by
    obtain ⟨c,cs,hchars,-⟩ := n.exists_cons
    rw [hchars]
    exact Nat.succ_pos _
  have hsize : stop ≤ env.text.size := hstop ▸ hnumber.le_size (hq ▸ hspells.left.le_size hp)
  rw [String.ofList_append,← hbuffer,← hspells.left.slice,← hq,← htop] at hflush
  rw [← htop] at hexec
  obtain ⟨s₁,hcomes₁,hinside,hposition,hlast⟩ : ∃ s', ComesTo env s₀ 1 s' ∧ _ :=
    hbetween.opensScope hcomes hexec rfl ho rfl rfl plainMode_instant.plainBegin hlen hflush (by dsimp only; omega)
  have htop₁ : s₁.top = numberNode := by rw [State.top,hinside.stack]; rfl
  obtain ⟨hexec₁,hstalls₁,hends₁⟩ :=
    endsAtOnce_instant.closes ho htop₁ hlast (by rw [hposition]; dsimp only; omega)
      (by rw [hposition]; exact hsize)
  obtain ⟨s₂,hcomes₂,hbetween₂,hbuffer₂,hposition₂⟩ : ∃ s', ComesTo env s₀ 0 s' ∧ _ :=
    hinside.closesScope hcomes₁ hexec₁ rfl hstalls₁ hends₁ ho plainMode_instant rfl (by dsimp only; omega)
  have hlexeme : env.lexeme ⟨q,stop,.begins numberNode,i⟩ = String.ofList n.chars := by
    rw [← hnumber.slice,← hstop]
    rfl
  rw [Source.slice_self,String.append_empty,hlexeme,List.append_nil] at hbetween₂
  exact ⟨s₂,[],hcomes₂,hbetween₂,hbuffer₂,rfl,hposition₂.trans hposition⟩

end Open

end Highlight.JsonText
