import Highlight.Proofs.Html
import Highlight.Proofs.Indentation
import Mathlib.Data.List.Forall2

/-!
Markup fixed for display goes line by line. In markup whose tags do not go over line ends, as that of trees
and of escaped text, each line is fixed on its own: the tabs in its longest beginning of complete tags and
tabs are replaced, and the lines are joined as the settings ask.
-/
namespace Highlight.Markup

open Source

/-- What stands between two lines. -/
def lineEnd (s : Settings) : List Char := if s.breakTags then "<br>".toList else ['\n']

/-- A line with the tabs of its indentation replaced. -/
def FixesLine (tab : Option String) (line fixed : List Char) : Prop :=
  ∃ run rest, Indented line run rest ∧ fixed = replaceTabs tab run ++ rest

/-- Markup that is fixed line by line. -/
def FixesLines (s : Settings) (markup fixed : List Char) : Prop :=
  ∃ lines, List.Forall₂ (FixesLine s.tabReplacement) (markup.splitOn '\n') lines ∧
    fixed = (lineEnd s).intercalate lines

/-- Every opening bracket is followed by a closing one in the same line. -/
def TagsInLine (cs : List Char) : Prop :=
  ∀ before after, cs = before ++ '<' :: after → ∃ body rest, after = body ++ '>' :: rest ∧ '\n' ∉ body

variable {s : Settings} {cs line run rest tail body : List Char}

/-- A line is fixed in one way. -/
lemma FixesLine.unique {tab : Option String} {fixed fixed' : List Char} (h : FixesLine tab line fixed)
    (h' : FixesLine tab line fixed') : fixed = fixed' := by
  obtain ⟨run,rest,hline,rfl⟩ := h
  obtain ⟨run',rest',hline',rfl⟩ := h'
  obtain ⟨rfl,rfl⟩ := hline.unique hline'
  rfl

/-- A text is fixed in one way. -/
theorem FixesLines.unique {fixed fixed' : List Char} (h : FixesLines s cs fixed) (h' : FixesLines s cs fixed') :
    fixed = fixed' := by
  obtain ⟨lines,hlines,rfl⟩ := h
  obtain ⟨lines',hlines',rfl⟩ := h'
  have heq : lines = lines' :=
    List.right_unique_forall₂' (fun _ _ _ hfixed hfixed' => hfixed.unique hfixed') hlines hlines'
  rw [heq]

/-- Settings that ask for nothing keep the text. -/
lemma FixesLines.eq_self {fixed : List Char} (h : FixesLines s cs fixed) (htab : s.tabReplacement = none)
    (hbreak : s.breakTags = false) : fixed = cs := by
  obtain ⟨lines,hlines,rfl⟩ := h
  have hkept : ∀ line fixed, FixesLine s.tabReplacement line fixed → line = fixed := by
    rintro line _ ⟨run,rest,hline,rfl⟩
    rw [htab]
    exact hline.split
  have heq : cs.splitOn '\n' = lines := List.forall₂_eq_eq_eq ▸ hlines.imp hkept
  rw [← heq,lineEnd,hbreak,if_neg Bool.false_ne_true]
  exact List.intercalate_splitOn '\n'

/-- A first line is fixed before the others. -/
lemma FixesLines.cons {fixed fixed' : List Char} (hline : '\n' ∉ line) (h : FixesLine s.tabReplacement line fixed)
    (h' : FixesLines s cs fixed') : FixesLines s (line ++ '\n' :: cs) (fixed ++ lineEnd s ++ fixed') := by
  obtain ⟨lines,hlines,rfl⟩ := h'
  have hne : lines ≠ [] := by
    rintro rfl
    exact List.splitOn_ne_nil _ _ (List.forall₂_nil_right_iff.mp hlines)
  refine ⟨fixed :: lines,?_,?_⟩
  · rw [List.splitOn_append_cons_self_of_not_mem hline]
    exact .cons h hlines
  · rw [List.intercalate_cons_of_ne_nil hne]

lemma FixesLines.single {fixed : List Char} (hline : '\n' ∉ line) (h : FixesLine s.tabReplacement line fixed) :
    FixesLines s line fixed :=
  ⟨[fixed],List.splitOn_eq_singleton hline ▸ .cons h .nil,by rw [List.intercalate_singleton]⟩

lemma replaceTabs_nil (tab : Option String) : replaceTabs tab [] = [] := by cases tab <;> rfl

lemma TagsInLine.of_append (line : List Char) (h : TagsInLine (line ++ tail)) : TagsInLine tail :=
  fun before after heq => h (line ++ before) after (by rw [heq,List.append_assoc])

lemma TagsInLine.of_cons {c : Char} (h : TagsInLine (c :: cs)) : TagsInLine cs := h.of_append [c]

/-- Where tags do not go over line ends, an indentation is in one line. -/
lemma IsIndentation.not_mem (hrun : IsIndentation run) (h : TagsInLine (run ++ tail)) : '\n' ∉ run := by
  induction hrun with
  | nil => exact List.not_mem_nil
  | tab _ ih =>
    have hrest := ih (h.of_append ['\t'])
    simpa using hrest
  | @tag body run _ hopen _ ih =>
    obtain ⟨body',rest,heq,hline⟩ := h [] _ rfl
    have hsplit : '<' :: (body ++ '>' :: run) ++ tail = '<' :: body ++ ['>'] ++ (run ++ tail) := by simp
    have hrest := ih (TagsInLine.of_append ('<' :: body ++ ['>']) (hsplit ▸ h))
    have hbody : '\n' ∉ body := by
      have hbegins : body <+: body' := prefix_of_append_cons hopen (by simpa using heq)
      exact fun hmem => hline (hbegins.subset hmem)
    simp [hbody,hrest]

/-- The indentation of a line is that of the text from there on. -/
lemma Indented.of_line (h : Indented line run rest) (htags : TagsInLine (line ++ tail))
    (htail : tail = [] ∨ ∃ more, tail = '\n' :: more) : Indented (line ++ tail) run (rest ++ tail) where
  split := by rw [h.split,List.append_assoc]
  indentation := h.indentation
  longest run' hbegins hrun' := by
    refine h.longest run' ?_ hrun'
    obtain ⟨rest',heq⟩ := hbegins
    have hline : '\n' ∉ run' := hrun'.not_mem (heq ▸ htags)
    rcases htail with rfl | ⟨more,rfl⟩
    · rw [List.append_nil] at heq
      exact ⟨rest',heq⟩
    · rcases List.append_eq_append_iff.mp heq with ⟨ts,rfl,-⟩ | ⟨ts,rfl,hts⟩
      · exact List.prefix_append _ _
      · cases ts with
        | nil => simp
        | cons c ts =>
          obtain ⟨rfl,-⟩ := List.cons.inj hts
          simp at hline

section Walk

open Regex

variable {text : Source} {n i k lo : Nat} {previous : Option Nat} {fixed : List Char}

/-- From a state of the search on, the text from `lo` on is fixed as given. -/
def FixesFrom (s : Settings) (text : Source) (n start : Nat) (previous : Option Nat) (lo : Nat)
    (fixed : List Char) : Prop :=
  ∃ spans, fixable.matchesFrom text n start previous = .ok spans ∧
    text.substitute (replacement s) lo spans = String.ofList fixed

lemma lt_size_of_drop {c : Char} (h : text.toList.drop i = c :: cs) : i < text.size := by
  by_contra hge
  rw [List.drop_eq_nil_of_le (by simpa using hge)] at h
  cases h

lemma replacement_lineFeed (s : Settings) : replacement s "\n" = String.ofList (lineEnd s) := by
  unfold replacement lineEnd
  cases s.breakTags with
  | true => rfl
  | false => cases s.tabReplacement <;> rfl

lemma replacement_of_ne (h : run ≠ ['\n']) :
    replacement s (String.ofList run) = String.ofList (replaceTabs s.tabReplacement run) := by
  have hne : (String.ofList run == "\n") = false := by
    refine beq_eq_false_iff_ne.mpr (fun heq => h ?_)
    simpa using congrArg String.toList heq
  rw [replacement,hne,Bool.and_false,if_neg Bool.false_ne_true,String.toList_ofList]

/-- A match that is not empty is replaced, and the search goes on behind it. -/
lemma FixesFrom.step {f : Found} {front put : List Char} (hi : i ≤ text.size)
    (hfind : fixable.find text i = .ok (some f)) (hlt : f.start < f.stop)
    (hfront : text.slice lo f.start = String.ofList front)
    (hput : replacement s (text.slice f.start f.stop) = String.ofList put)
    (h : FixesFrom s text n f.stop (some f.stop) f.stop fixed) :
    FixesFrom s text (n + 1) i previous lo (front ++ put ++ fixed) := by
  obtain ⟨spans,hspans,hfixed⟩ := h
  refine ⟨(f.start,f.stop) :: spans,?_,?_⟩
  · rw [matchesFrom,if_neg (Nat.not_lt.mpr hi),hfind]
    dsimp only [bind,Except.bind]
    rw [if_neg (Nat.ne_of_lt hlt),hspans]
    rfl
  · rw [substitute,hfixed,hfront,hput,String.ofList_append,String.ofList_append]

/-- An empty match changes nothing, taken or passed over. -/
lemma FixesFrom.skip {f : Found} (hi : i ≤ text.size) (hfind : fixable.find text i = .ok (some f))
    (hstart : f.start = i) (hstop : f.stop = i) (h : ∀ previous, FixesFrom s text n (i + 1) previous i fixed) :
    FixesFrom s text (n + 1) i previous i fixed := by
  by_cases hprevious : previous = some i
  · obtain ⟨spans,hspans,hfixed⟩ := h previous
    refine ⟨spans,?_,hfixed⟩
    rw [matchesFrom,if_neg (Nat.not_lt.mpr hi),hfind]
    dsimp only [bind,Except.bind]
    rw [hstart,hstop,if_pos rfl,if_pos hprevious,hspans]
  · obtain ⟨spans,hspans,hfixed⟩ := h (some i)
    refine ⟨(i,i) :: spans,?_,?_⟩
    · rw [matchesFrom,if_neg (Nat.not_lt.mpr hi),hfind]
      dsimp only [bind,Except.bind]
      rw [hstart,hstop,if_pos rfl,if_neg hprevious,hspans]
      rfl
    · have hempty : replacement s "" = "" :=
        (replacement_of_ne (List.cons_ne_nil _ _).symm).trans (by rw [replaceTabs_nil])
      rw [substitute,slice_self,hempty,hfixed,String.empty_append,String.empty_append]

/-- Behind the first character of a line, no line starts before its end. -/
lemma startsLine_inLine (h : text.toList.drop i = rest ++ tail) (hrest : '\n' ∉ rest)
    (hstart : startsLine text i = false) (hk : i ≤ k) (hle : k ≤ i + rest.length) : startsLine text k = false := by
  induction rest generalizing i with
  | nil =>
    rw [List.length_nil] at hle
    obtain rfl : i = k := by omega
    exact hstart
  | cons c rest ih =>
    obtain ⟨hc,hmore⟩ := List.ne_and_not_mem_of_not_mem_cons hrest
    rcases Nat.eq_or_lt_of_le hk with rfl | hlt
    · exact hstart
    · have hnext : startsLine text (i + 1) = false := by rw [startsLine_succ h,beq_eq_false_iff_ne]; exact hc.symm
      rw [List.length_cons] at hle
      exact ih (drop_succ h) hmore hnext hlt (by omega)

lemma ne_lineFeed_inLine (h : text.toList.drop i = rest ++ tail) (hrest : '\n' ∉ rest) (hk : i ≤ k)
    (hlt : k < i + rest.length) (cs : List Char) : text.toList.drop k ≠ '\n' :: cs := by
  obtain ⟨d,rfl⟩ := Nat.exists_eq_add_of_le hk
  have hd : d < rest.length := by omega
  rw [← List.drop_drop,h,List.drop_append_of_le_length (Nat.le_of_lt hd),List.drop_eq_getElem_cons hd]
  exact fun heq => hrest ((List.cons.inj heq).1 ▸ List.getElem_mem hd)

/-- The rest of a line is kept up to its line feed, which is replaced. -/
lemma FixesFrom.lineFeed (h : text.toList.drop i = rest ++ '\n' :: tail) (hrest : '\n' ∉ rest)
    (hstart : rest = [] ∨ startsLine text i = false) (hlo : text.slice lo (i + rest.length) = String.ofList line)
    (hfixed : ∀ previous, FixesFrom s text n (i + rest.length + 1) previous (i + rest.length + 1) fixed) :
    FixesFrom s text (n + 1) i previous lo (line ++ lineEnd s ++ fixed) := by
  have hend : text.toList.drop (i + rest.length) = '\n' :: tail := drop_add_length h
  have hlt : i + rest.length < text.size := lt_size_of_drop hend
  have hnone : ∀ k, i ≤ k → k < i + rest.length → fixable.pattern.ends { text } k = [] := by
    intro k hk hlt
    rcases hstart with rfl | hstart
    · exact absurd hlt (Nat.not_lt.mpr hk)
    · exact ends_within (startsLine_inLine h hrest hstart hk (Nat.le_of_lt hlt)) (ne_lineFeed_inLine h hrest hk hlt)
  obtain ⟨f,hfind,hfirst,hstop⟩ := orderly_fixable.exists_find_eq_some (Nat.le_add_right i rest.length)
    (Nat.le_of_lt hlt) hnone (head?_ends_lineFeed hend)
  have hslice : text.slice (i + rest.length) (i + rest.length + 1) = "\n" :=
    slice_of_drop (show text.toList.drop _ = ['\n'] ++ tail from hend)
  refine .step (by omega) hfind (by omega) (hfirst ▸ hlo) ?_ (hstop ▸ hfixed _)
  rw [hfirst,hstop,hslice]
  exact replacement_lineFeed s

/-- The rest of the last line is kept. -/
lemma FixesFrom.last (h : text.toList.drop i = rest) (hrest : '\n' ∉ rest)
    (hstart : text.size < i ∨ startsLine text i = false) (hlo : text.slice lo text.size = String.ofList line) :
    FixesFrom s text (n + 1) i previous lo line := by
  refine ⟨[],?_,hlo⟩
  rw [matchesFrom]
  split
  · rfl
  · rename_i hi
    have hstart : startsLine text i = false := hstart.resolve_left hi
    have hlen : i + rest.length = text.size := by
      rw [← h,List.length_drop,Array.length_toList]
      omega
    have hline : text.toList.drop i = rest ++ [] := by rw [h,List.append_nil]
    have hnone : ∀ k, i ≤ k → k ≤ text.size → fixable.pattern.ends { text } k = [] := by
      intro k hk hle
      refine ends_within (startsLine_inLine hline hrest hstart hk (by omega)) ?_
      rcases Nat.eq_or_lt_of_le hle with rfl | hlt
      · intro cs hcs
        exact Nat.lt_irrefl _ (lt_size_of_drop hcs)
      · exact ne_lineFeed_inLine hline hrest hk (by omega)
    rw [orderly_fixable.find_eq_none hnone]
    rfl

/-- The tabs of an indentation are replaced where a line starts. -/
lemma FixesFrom.indentation (hi : i ≤ text.size) (hstart : startsLine text i = true)
    (h : ∀ cs, text.toList.drop i ≠ '\n' :: cs) (hrun : Indented (text.toList.drop i) run rest)
    (hfixed : ∀ previous, FixesFrom s text n (max (i + 1) (i + run.length)) previous (i + run.length) fixed) :
    FixesFrom s text (n + 1) i previous i (replaceTabs s.tabReplacement run ++ fixed) := by
  obtain ⟨f,hfind,hfirst,hstop⟩ := orderly_fixable.exists_find_eq_some (Nat.le_refl i) hi
    (fun k hk hlt => absurd hlt (Nat.not_lt.mpr hk)) (head?_ends_indented hstart h hrun)
  rcases List.eq_nil_or_concat run with rfl | hne
  · rw [replaceTabs_nil]
    rw [List.length_nil,Nat.add_zero,Nat.max_eq_left (by omega)] at hfixed
    exact .skip hi hfind hfirst hstop hfixed
  · have hpos : 0 < run.length := by
      obtain ⟨_,_,rfl⟩ := hne
      simp
    have hfeed : run ≠ ['\n'] := by
      rintro rfl
      cases hrun.indentation
    have hput : text.slice f.start f.stop = String.ofList run := by
      rw [hfirst,hstop]
      exact slice_of_drop hrun.split
    rw [Nat.max_eq_right (by omega)] at hfixed
    change FixesFrom s text (n + 1) i previous i ([] ++ replaceTabs s.tabReplacement run ++ fixed)
    refine .step hi hfind (by omega) ?_ (hput ▸ replacement_of_ne hfeed) (hstop ▸ hfixed _)
    rw [hfirst,slice_self]

/-- Behind the indentation of a line, or behind its first character, comes the rest of the line. -/
lemma exists_behind_indentation {c : Char} (h : text.toList.drop i = c :: line ++ tail) (hline : '\n' ∉ c :: line)
    (hrun : Indented (c :: line) run rest) (hk : k = max (i + 1) (i + run.length)) :
    ∃ rest', text.toList.drop k = rest' ++ tail ∧ '\n' ∉ rest' ∧ startsLine text k = false ∧
      k + rest'.length = i + run.length + rest.length := by
  obtain ⟨hc,hmore⟩ := List.ne_and_not_mem_of_not_mem_cons hline
  have hlen : run.length + rest.length = line.length + 1 := by
    rw [← List.length_append,← hrun.split,List.length_cons]
  have hnext : text.toList.drop (i + 1) = line ++ tail := drop_succ h
  have hstart : startsLine text (i + 1) = false := by rw [startsLine_succ h,beq_eq_false_iff_ne]; exact hc.symm
  obtain ⟨d,rfl⟩ : ∃ d, k = i + 1 + d := ⟨k - (i + 1),by omega⟩
  have hd : d ≤ line.length := by omega
  refine ⟨line.drop d,?_,fun hmem => hmore (List.mem_of_mem_drop hmem),
    startsLine_inLine hnext hmore hstart (by omega) (by omega),by rw [List.length_drop]; omega⟩
  rw [← List.drop_drop,hnext,List.drop_append_of_le_length hd]

/-- A line is fixed by its indentation, then by what fixes its rest. -/
lemma FixesFrom.firstLine {c : Char} (htags : TagsInLine (c :: line ++ tail))
    (htail : tail = [] ∨ ∃ more, tail = '\n' :: more) (h : text.toList.drop i = c :: line ++ tail)
    (hstart : startsLine text i = true) (hline : '\n' ∉ c :: line) (hrun : Indented (c :: line) run rest)
    (hfixed : ∀ k rest' previous, text.toList.drop k = rest' ++ tail → '\n' ∉ rest' → startsLine text k = false →
      k + rest'.length = i + (line.length + 1) →
      text.slice (i + run.length) (k + rest'.length) = String.ofList rest →
      FixesFrom s text n k previous (i + run.length) fixed) :
    FixesFrom s text (n + 1) i previous i (replaceTabs s.tabReplacement run ++ fixed) := by
  have hwhole : Indented (text.toList.drop i) run (rest ++ tail) := h ▸ hrun.of_line htags htail
  have hlen : run.length + rest.length = line.length + 1 := by
    rw [← List.length_append,← hrun.split,List.length_cons]
  obtain ⟨rest',hbehind,hrest',hstart',hlen'⟩ := exists_behind_indentation h hline hrun rfl
  refine .indentation (Nat.le_of_lt (lt_size_of_drop h)) hstart (fun cs hcs => ?_) hwhole
    (fun previous => hfixed _ rest' previous hbehind hrest' hstart' (by omega) ?_)
  · exact hline ((List.cons.inj (h.symm.trans hcs)).1 ▸ List.mem_cons_self)
  · rw [hlen']
    exact slice_of_drop (drop_add_length hwhole.split)

/-- Where tags do not go over line ends, a text is fixed line by line from where a line starts. -/
theorem exists_fixesFrom (htags : TagsInLine cs) (h : text.toList.drop i = cs) (hi : i ≤ text.size)
    (hstart : startsLine text i = true) (hn : cs.length + 2 ≤ n) :
    ∃ fixed, FixesLines s cs fixed ∧ ∀ previous, FixesFrom s text n i previous i fixed := by
  induction hlen : cs.length using Nat.strongRecOn generalizing cs i n with
  | ind len ih =>
  subst hlen
  obtain ⟨n,rfl⟩ : ∃ k, n = k + 2 := ⟨n - 2,by omega⟩
  by_cases hmem : '\n' ∈ cs
  · obtain ⟨line,more,rfl,hline⟩ := List.eq_append_cons_of_mem hmem
    have hfeed : text.toList.drop (i + line.length) = '\n' :: more := drop_add_length h
    rw [List.length_append,List.length_cons] at hn
    have hrest : ∀ m, more.length + 2 ≤ m → ∃ fixed, FixesLines s more fixed ∧
        ∀ previous, FixesFrom s text m (i + line.length + 1) previous (i + line.length + 1) fixed :=
      fun m hm => ih more.length (by simp; omega) (htags.of_append line).of_cons (drop_succ hfeed)
        (lt_size_of_drop hfeed) (startsLine_succ hfeed) hm rfl
    cases line with
    | nil =>
      obtain ⟨fixed,hmore,hfixed⟩ := hrest (n + 1) (by rw [List.length_nil] at hn; omega)
      have hempty : FixesLine s.tabReplacement [] [] := ⟨[],[],.empty,by rw [replaceTabs_nil]; rfl⟩
      refine ⟨_,.cons hline hempty hmore,fun previous => ?_⟩
      exact .lineFeed h hline (.inl rfl) (slice_self _ _) hfixed
    | cons c line =>
      obtain ⟨fixed,hmore,hfixed⟩ := hrest n (by rw [List.length_cons] at hn; omega)
      obtain ⟨run,rest,hrun,-⟩ := exists_indented (c :: line)
      refine ⟨_,.cons hline ⟨run,rest,hrun,rfl⟩ hmore,fun previous => ?_⟩
      rw [List.append_assoc,List.append_assoc,← List.append_assoc rest]
      refine .firstLine htags (.inr ⟨more,rfl⟩) h hstart hline hrun (fun k rest' previous hk hrest' hstart' hend hslice => ?_)
      rw [List.length_cons] at hfixed
      exact .lineFeed hk hrest' (.inr hstart') hslice (hend ▸ hfixed)
  · cases cs with
    | nil =>
      have hend : text.size ≤ i := by simpa using h
      refine ⟨_,.single hmem ⟨[],[],.empty,rfl⟩,fun previous => ?_⟩
      refine .indentation hi hstart (fun cs hcs => by rw [h] at hcs; cases hcs) (by rw [h]; exact .empty) (fun previous => ?_)
      rw [List.length_nil,Nat.add_zero,Nat.max_eq_left (by omega)]
      have hbehind : text.toList.drop (i + 1) = [] := List.drop_eq_nil_of_le (by simp; omega)
      exact .last hbehind hmem (.inl (by omega)) (slice_of_size_le _ _ hend)
    | cons c line =>
      obtain ⟨run,rest,hrun,-⟩ := exists_indented (c :: line)
      have hline : text.toList.drop i = c :: line ++ [] := by rw [h,List.append_nil]
      have hlen : i + (line.length + 1) = text.size := by
        rw [← List.length_cons (a := c),← h,List.length_drop,Array.length_toList]
        omega
      refine ⟨_,.single hmem ⟨run,rest,hrun,rfl⟩,fun previous => ?_⟩
      refine .firstLine (by rwa [List.append_nil]) (.inl rfl) hline hstart hmem hrun
        (fun k rest' previous hk hrest' hstart' hend hslice => ?_)
      rw [List.append_nil] at hk
      exact .last hk hrest' (.inr hstart') (by rw [← hlen,← hend]; exact hslice)

end Walk

section Trees

lemma TagsInLine.of_not_mem (h : '<' ∉ cs) : TagsInLine cs := by
  rintro before after rfl
  simp at h

/-- A line that ends in a closing bracket. -/
lemma TagsInLine.concat (h : '\n' ∉ body) : TagsInLine (body ++ ['>']) := by
  intro before after heq
  rcases List.append_eq_append_iff.mp heq with ⟨ts,-,hts⟩ | ⟨ts,rfl,hts⟩
  · exact absurd (hts ▸ List.mem_append_right ts List.mem_cons_self : '<' ∈ ['>']) (by decide)
  · cases ts with
    | nil => exact absurd (List.cons.inj hts).1 (by decide)
    | cons c ts =>
      obtain ⟨rfl,rfl⟩ := List.cons.inj hts
      exact ⟨ts,[],rfl,fun hmem => h (by simp [hmem])⟩

lemma TagsInLine.append (h : TagsInLine cs) (h' : TagsInLine tail) : TagsInLine (cs ++ tail) := by
  intro before after heq
  rcases List.append_eq_append_iff.mp heq with ⟨ts,rfl,hts⟩ | ⟨ts,rfl,hts⟩
  · exact h' ts after hts
  · cases ts with
    | nil => exact h' [] after hts.symm
    | cons c ts =>
      obtain ⟨rfl,rfl⟩ := List.cons.inj hts
      obtain ⟨body,rest,rfl,hbody⟩ := h before ts rfl
      exact ⟨body,rest ++ tail,by simp,hbody⟩

open Html (render openTag closeTag escape render_leaf render_scope not_mem_escapeChar)
open Highlight.Tree (scopesOf)

variable {classPrefix : String} {tag : Tag}

lemma tagsInLine_escape (text : String) : TagsInLine (escape text).toList := by
  refine .of_not_mem (fun h => ?_)
  rw [escape,String.toList_ofList,List.mem_flatMap] at h
  obtain ⟨c,-,hc⟩ := h
  exact not_mem_escapeChar c hc

lemma tagsInLine_openTag (hbefore : '\n' ∉ classPrefix.toList) (hkind : ∀ kind ∈ tag.kind, '\n' ∉ kind.toList) :
    TagsInLine (openTag classPrefix tag).toList := by
  cases h : tag.kind with
  | none =>
    rw [openTag,h]
    exact .of_not_mem List.not_mem_nil
  | some kind =>
    have hname : '\n' ∉ ("<span class=\"" ++ (if tag.embedded then "" else classPrefix) ++ kind ++ "\"").toList := by
      have hfree := hkind kind h
      split <;> simp [hfree,hbefore]
    have htag := TagsInLine.concat hname
    have hlist : openTag classPrefix tag =
        "<span class=\"" ++ (if tag.embedded then "" else classPrefix) ++ kind ++ "\"" ++ ">" := by
      rw [openTag,h,String.append_assoc]
      rfl
    rwa [hlist,String.toList_append]

lemma tagsInLine_closeTag : TagsInLine (closeTag tag).toList := by
  unfold closeTag
  split
  · exact TagsInLine.concat (show '\n' ∉ "</span".toList by decide)
  · exact .of_not_mem List.not_mem_nil

mutual

/-- The tags of the markup of a tree do not go over line ends, where no class does. -/
lemma tagsInLine_render (hbefore : '\n' ∉ classPrefix.toList) : ∀ t : Tree,
    (∀ scope ∈ t.scopes, ∀ kind ∈ scope.1, '\n' ∉ kind.toList) → TagsInLine (render classPrefix t).toList
  | .leaf text, _ => by
    rw [render_leaf]
    exact tagsInLine_escape text
  | .scope tag children, h => by
    rw [Tree.scopes] at h
    rw [render_scope,String.toList_append,String.toList_append]
    exact ((tagsInLine_openTag hbefore (h _ List.mem_cons_self)).append
      (tagsInLine_renderAll hbefore children (fun scope hscope => h scope (List.mem_cons_of_mem _ hscope)))).append
      tagsInLine_closeTag

lemma tagsInLine_renderAll (hbefore : '\n' ∉ classPrefix.toList) : ∀ ts : List Tree,
    (∀ scope ∈ scopesOf ts, ∀ kind ∈ scope.1, '\n' ∉ kind.toList) →
      TagsInLine (String.join (ts.map (render classPrefix))).toList
  | [], _ => .of_not_mem List.not_mem_nil
  | t :: ts, h => by
    rw [scopesOf] at h
    rw [List.map_cons,String.join_cons,String.toList_append]
    exact (tagsInLine_render hbefore t (fun scope hscope => h scope (List.mem_append_left _ hscope))).append
      (tagsInLine_renderAll hbefore ts (fun scope hscope => h scope (List.mem_append_right _ hscope)))

end

lemma fixesLines_fix {markup : String} (h : TagsInLine markup.toList) :
    FixesLines s markup.toList (fix s markup).toList := by
  have hlen : markup.toList.length + 2 ≤ (Source.ofString markup).size + 2 := by simp [ofString]
  have hdrop : (Source.ofString markup).toList.drop 0 = markup.toList := by simp [ofString]
  obtain ⟨fixed,hlines,hfixed⟩ := exists_fixesFrom (s := s) h hdrop (Nat.zero_le _) rfl hlen
  rw [fix]
  split
  · rename_i hsettings
    obtain ⟨htab,hbreak⟩ := Bool.and_eq_true_iff.mp hsettings
    have hself := hlines.eq_self (Option.isNone_iff_eq_none.mp htab) (by simpa using hbreak)
    rwa [hself] at hlines
  · obtain ⟨spans,hspans,hput⟩ := hfixed none
    rw [Regex.findAll,hspans]
    dsimp only
    rwa [hput,String.toList_ofList]

/-- The markup of a tree whose classes have no line feed is fixed line by line, whatever the settings, and so
is escaped text. -/
theorem fix_lineByLine {t : Tree} (hbefore : '\n' ∉ classPrefix.toList)
    (hkinds : ∀ scope ∈ t.scopes, ∀ kind ∈ scope.1, '\n' ∉ kind.toList) :
    FixesLines s (render classPrefix t).toList (fix s (render classPrefix t)).toList ∧
      ∀ text, FixesLines s (escape text).toList (fix s (escape text)).toList :=
  ⟨fixesLines_fix (tagsInLine_render hbefore t hkinds),fun text => fixesLines_fix (tagsInLine_escape text)⟩

/-- Tabs behind an opening tag, behind a tag that is closed in the text, and behind a text. -/
theorem fix_lineByLine_twoLines :
    let t : Tree := .root [.leaf "\t<\n",.scope ⟨some "b",false⟩ [.leaf "\tx\t"]]
    FixesLines { tabReplacement := some "--", breakTags := true }
      (render "p-" t).toList "--&lt;<br><span class=\"p-b\">--x\t</span>".toList :=
  (@fix_lineByLine { tabReplacement := some "--", breakTags := true } "p-"
    (.root [.leaf "\t<\n",.scope ⟨some "b",false⟩ [.leaf "\tx\t"]]) (by decide) (by decide)).1

end Trees
end Highlight.Markup
