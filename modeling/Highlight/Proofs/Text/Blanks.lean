import Highlight.Proofs.Text.Points
import Highlight.Text.Property
import Mathlib.Data.List.TakeWhile

/-!
White space is not in words. The runs of the category table are taken from its text one after the other, so
that the category of a code point can be told without those that come later.
-/
namespace Highlight.Text

/-- The search finds the place that parts the breakpoints. -/
lemma rank_eq {points : Array Nat} {c k : Nat} (hsorted : points.toList.Pairwise (· ≤ ·))
    (hsize : points.size < UInt32.size) (hk : k ≤ points.size) (h : Parts points.toList c k) :
    rank points c = k := by
  obtain ⟨hranked,hrank⟩ : rank points c ≤ points.size ∧ Parts points.toList c (rank points c) := by
    refine rankWithin_parts hsorted (fun i m hi => absurd hi (Nat.not_lt_zero i)) (fun i m hi hm => ?_)
      (Nat.zero_le _) (Nat.le_refl _) hsize
    rw [Array.getElem?_toList,Array.getElem?_eq_none hi] at hm
    cases hm
  rw [← hrank.countP_eq hranked,h.countP_eq hk]

/-- An ascending list is parted behind the last number that is no larger than `c`. -/
lemma Parts.of_append {before later : List Nat} {m c : Nat} (hsorted : (before ++ m :: later).Pairwise (· ≤ ·))
    (hm : m ≤ c) (hlater : ∀ n ∈ later, c < n) : Parts (before ++ m :: later) c (before.length + 1) where
  below i n hi hn := by
    refine Nat.le_trans ?_ hm
    rcases Nat.lt_or_eq_of_le (Nat.le_of_lt_succ hi) with hlt | rfl
    · rw [List.getElem?_append_left hlt] at hn
      exact (List.pairwise_append.mp hsorted).2.2 n (List.mem_of_getElem? hn) m List.mem_cons_self
    · rw [List.getElem?_append_right (Nat.le_refl _),Nat.sub_self,List.getElem?_cons_zero] at hn
      exact Nat.le_of_eq (Option.some.inj hn).symm
  above i n hi hn := by
    obtain ⟨j,rfl⟩ := Nat.exists_eq_add_of_le hi
    rw [List.getElem?_append_right (by omega),show before.length + 1 + j - before.length = j + 1 by omega,
      List.getElem?_cons_succ] at hn
    exact hlater n (List.mem_of_getElem? hn)

/-- The runs that characters write from a code point on, each with where it starts. A part of the first run may
have been read before. -/
def runsFrom : List Char → (start : Nat) → (major minor : Char) → (length : Nat) → List (Nat × Category)
  | [], start, major, minor, length => if length = 0 then [] else [(start,.ofLetters major minor)]
  | c :: cs, start, major, minor, length =>
    if c.isDigit then runsFrom cs start major minor (10 * length + (c.toNat - '0'.toNat))
    else if c.isUpper then
      if length = 0 then runsFrom cs start c minor 0
      else (start,.ofLetters major minor) :: runsFrom cs (start + length) c minor 0
    else runsFrom cs start major c length

def runsOf (cs : List Char) : List (Nat × Category) := runsFrom cs 0 ' ' ' ' 0

variable {cs : List Char} {c : Char}

/-- The table holds the runs that its text writes. -/
lemma toList_categoryTable (h : categoryRuns.toList = cs) :
    categoryTable.starts.toList = (runsOf cs).map Prod.fst ∧
      categoryTable.values.toList = (runsOf cs).map Prod.snd := by
  have hfold : ∀ (cs : List Char) (t : CategoryReader),
      (cs.foldl CategoryReader.read t).flush.starts.toList =
          t.starts.toList ++ (runsFrom cs t.start t.major t.minor t.length).map Prod.fst ∧
        (cs.foldl CategoryReader.read t).flush.values.toList =
          t.values.toList ++ (runsFrom cs t.start t.major t.minor t.length).map Prod.snd := by
    intro cs
    induction cs with
    | nil =>
      intro t
      rw [List.foldl_nil,runsFrom,CategoryReader.flush]
      split <;> simp
    | cons c cs ih =>
      intro t
      rw [List.foldl_cons,runsFrom,(ih _).1,(ih _).2,CategoryReader.read]
      split
      · exact ⟨rfl,rfl⟩
      · split
        · rw [CategoryReader.flush]
          split <;> simp_all
        · exact ⟨rfl,rfl⟩
  rw [categoryTable,h]
  exact hfold cs {}

lemma runsFrom_sorted (cs : List Char) (start : Nat) (major minor : Char) (length : Nat) :
    (runsFrom cs start major minor length).Pairwise (fun run later => run.1 ≤ later.1) ∧
      ∀ run ∈ runsFrom cs start major minor length, start ≤ run.1 := by
  induction cs generalizing start major minor length with
  | nil =>
    rw [runsFrom]
    split <;> simp
  | cons c cs ih =>
    rw [runsFrom]
    split
    · exact ih _ _ _ _
    · split
      · split
        · exact ih _ _ _ _
        · obtain ⟨hsorted,hle⟩ := ih (start + length) c minor 0
          have hlater : ∀ run ∈ runsFrom cs (start + length) c minor 0, start ≤ run.1 :=
            fun run hrun => Nat.le_trans (Nat.le_add_right _ _) (hle run hrun)
          refine ⟨.cons hlater hsorted,fun run hrun => ?_⟩
          rcases List.mem_cons.mp hrun with rfl | hrun
          · exact Nat.le_refl _
          · exact hlater run hrun
      · exact ih _ _ _ _

lemma length_runsFrom (cs : List Char) (start : Nat) (major minor : Char) (length : Nat) :
    (runsFrom cs start major minor length).length ≤ cs.length + 1 := by
  induction cs generalizing start major minor length with
  | nil =>
    rw [runsFrom]
    split <;> simp
  | cons c cs ih =>
    rw [runsFrom,List.length_cons]
    split
    · exact Nat.le_succ_of_le (ih _ _ _ _)
    · split
      · split
        · exact Nat.le_succ_of_le (ih _ _ _ _)
        · exact Nat.succ_le_succ (ih _ _ _ _)
      · exact Nat.le_succ_of_le (ih _ _ _ _)

/-- A code point has the category of the last run that does not start behind it. -/
theorem category_of_getLast? (h : categoryRuns.toList = cs) (hsize : cs.length + 1 < UInt32.size)
    {run : Nat × Category} (hrun : ((runsOf cs).takeWhile (·.1 ≤ c.toNat)).getLast? = some run) :
    Category.of c = run.2 := by
  obtain ⟨hstarts,hvalues⟩ := toList_categoryTable h
  obtain ⟨before,hbefore⟩ := List.getLast?_eq_some_iff.mp hrun
  have hruns : runsOf cs = before ++ run :: (runsOf cs).dropWhile (·.1 ≤ c.toNat) := by
    rw [← List.singleton_append,← List.append_assoc,← hbefore,List.takeWhile_append_dropWhile]
  generalize hlater : (runsOf cs).dropWhile (·.1 ≤ c.toNat) = later at hruns
  have hsorted : (runsOf cs).Pairwise (fun run later => run.1 ≤ later.1) := (runsFrom_sorted cs 0 ' ' ' ' 0).1
  have hle : run.1 ≤ c.toNat := by
    have hmem : run ∈ (runsOf cs).takeWhile (·.1 ≤ c.toNat) := by simp [hbefore]
    simpa using List.mem_takeWhile_imp hmem
  have hlt : ∀ n ∈ later.map Prod.fst, c.toNat < n := by
    cases later with
    | nil => exact fun n hn => absurd hn List.not_mem_nil
    | cons next later =>
      have hnext : c.toNat < next.1 := by
        have hfirst := List.head?_dropWhile_not (fun run : Nat × Category => decide (run.1 ≤ c.toNat)) (runsOf cs)
        rw [hlater] at hfirst
        simpa using hfirst
      intro n hn
      obtain ⟨other,hother,rfl⟩ := List.mem_map.mp hn
      rw [hruns] at hsorted
      rcases List.mem_cons.mp hother with rfl | hother
      · exact hnext
      · exact Nat.lt_of_lt_of_le hnext
          ((List.pairwise_cons.mp (List.pairwise_cons.mp (List.pairwise_append.mp hsorted).2.1).2).1 other hother)
  have hstarts' : categoryTable.starts.toList = before.map Prod.fst ++ run.1 :: later.map Prod.fst := by
    rw [hstarts,hruns]
    simp
  have hsize' : categoryTable.starts.size ≤ cs.length + 1 := by
    rw [← Array.length_toList,hstarts,List.length_map]
    exact length_runsFrom cs 0 ' ' ' ' 0
  have hparts : Parts categoryTable.starts.toList c.toNat ((before.map Prod.fst).length + 1) := by
    rw [hstarts']
    refine .of_append ?_ hle hlt
    rw [← hstarts',hstarts,List.pairwise_map]
    exact hsorted
  have hrank : rank categoryTable.starts c.toNat = before.length + 1 := by
    rw [List.length_map] at hparts
    refine rank_eq ?_ (by omega) ?_ hparts
    · rwa [hstarts,List.pairwise_map]
    · rw [← Array.length_toList,hstarts']
      simp
  rw [Category.of,hrank,Nat.add_sub_cancel,Array.getD_eq_getD_getElem?,← Array.getElem?_toList,hvalues,hruns]
  simp

/-- The code points of white space beyond the first 128. -/
def wideBlanks : List Nat :=
  [0x85,0xA0,0x1680,0x2000,0x2001,0x2002,0x2003,0x2004,0x2005,0x2006,0x2007,0x2008,0x2009,0x200A,
    0x2028,0x2029,0x202F,0x205F,0x3000]

/-- Whether a category is one of white space. -/
def Category.isBlank (k : Category) : Bool := k == .Cc || k == .Zs || k == .Zl || k == .Zp

lemma exists_of_spelled {P : List Char → Prop} {parts : List String} {chars : List (List Char)}
    (h : Spelled parts chars) (hP : P chars.flatten) : ∃ cs, (String.join parts).toList = cs ∧ P cs := by
  refine ⟨_,rfl,?_⟩
  rwa [String.toList_join,List.flatMap_def,h]

lemma exists_runs_wideBlanks : ∃ cs, categoryRuns.toList = cs ∧ (cs.length + 1 < UInt32.size ∧
    wideBlanks.all (fun n => (((runsOf cs).takeWhile (·.1 ≤ n)).getLast?).any (fun run => run.2.isBlank)) = true) := by
  rw [categoryRuns]
  apply exists_of_spelled
  · repeat apply Spelled.cons
    exact spelled_nil
  · decide +kernel

lemma isBlank_of_mem_wideBlanks {c : Char} (h : c.toNat ∈ wideBlanks) : (Category.of c).isBlank = true := by
  obtain ⟨cs,hcs,hsize,hall⟩ := exists_runs_wideBlanks
  have hany := List.all_eq_true.mp hall _ h
  cases hrun : ((runsOf cs).takeWhile (·.1 ≤ c.toNat)).getLast? with
  | none =>
    rw [hrun] at hany
    cases hany
  | some run =>
    rw [hrun] at hany
    rw [category_of_getLast? hcs hsize hrun]
    exact hany

/-- White space is not in words. -/
theorem not_isWord_of_isSpace {c : Char} (h : isSpace c = true) : isWord c = false := by
  by_cases hc : c.toNat < 128
  · have hsmall : ∀ n < 128, isSpace (Char.ofNat n) = true → isWord (Char.ofNat n) = false := by decide
    have hword := hsmall c.toNat hc
    rw [Char.ofNat_toNat] at hword
    exact hword h
  · have hwide : c.toNat ∈ wideBlanks := by
      simp only [isSpace,Bool.or_eq_true,Bool.and_eq_true,decide_eq_true_eq,beq_iff_eq] at h
      simp only [wideBlanks,List.mem_cons,List.not_mem_nil,or_false]
      omega
    have hletter : (c.toNat == 0x200C || c.toNat == 0x200D || isEnclosedLetter c) = false := by
      have hnone : ∀ n ∈ wideBlanks, (n == 0x200C || n == 0x200D || ((0x24B6 ≤ n && n ≤ 0x24E9) ||
          (0x1F130 ≤ n && n ≤ 0x1F149) || (0x1F150 ≤ n && n ≤ 0x1F169) || (0x1F170 ≤ n && n ≤ 0x1F189))) = false := by
        decide
      exact hnone _ hwide
    have hcategory : ∀ k : Category, k.isBlank = true →
        (k.isLetter || k.isMark || k == .Nl || k == .Nd || k == .Pc) = false := by
      intro k hk
      cases k <;> first | rfl | cases hk
    have hblank := hcategory _ (isBlank_of_mem_wideBlanks hwide)
    rw [isWord,if_neg hc,isWordWide]
    simp only [Bool.or_assoc] at hblank hletter ⊢
    simp_all

end Highlight.Text
