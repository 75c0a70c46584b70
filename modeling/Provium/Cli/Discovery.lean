import Provium.Cli.RerunFailed

/-! What `discover_test_files` finds under roots that overlap, are repeated or are files themselves,
`bin/provium.rs`. -/
namespace Provium.Cli
open Lib Provium.Fixture

/-- The place of a component in the order of components: the root, `.`, `..`, and the names by their characters. -/
def componentKey (c : List Char) : List ℕ :=
  if c = ['.'] then [1] else if c = ['.','.'] then [2] else 3::c.map Char.toNat

def pathKey (p : String) : List (List ℕ) :=
  (if (components p).1 then [[0]] else [])++(components p).2.map componentKey

/-- The order of `Path`. -/
def comparePaths (p q : String) : Bool := decide (pathKey p ≤ pathKey q)

namespace TestHost
variable {δ : Type} (h : TestHost δ)

/-- The file system with the order of the standard library. -/
def std : TestHost δ := { h with pathLe := comparePaths }

variable (cwd : δ)

/-- A root that is a test file. -/
def IsTest (root : String) : Prop := h.isFile (h.place cwd root) ∧ isTestFile root

instance (root : String) : Decidable (h.IsTest cwd root) := inferInstanceAs (Decidable (_ ∧ _))

/-- The test files that a root leads to, by their names below it. -/
def Reached (root : String) (names : List EntryName) : Prop :=
  root ≠ "" ∧ if h.IsTest cwd root then names = []
    else names ∈ h.below (h.place cwd root) ∧ isTestFile (entryPath root names)

/-- The path of a test file relative to its root; that of a root is its name. -/
def relative (root : String) (names : List EntryName) : List Char :=
  if h.IsTest cwd root then ((fileName root).getD "").toList
  else ['/'].intercalate (names.map fun n => n.name.toList)

end TestHost

/-- The filter occurs in a text. -/
def Occurs (filter : Option String) (text : List Char) : Prop := ∀ f, filter = some f → f.toList <:+: text

namespace TestHost
variable {δ : Type} (h : TestHost δ) (cwd : δ) (roots : List String) (filter : Option String)

/-- A test file under the roots whose path the filter occurs in. -/
def Matching (d : δ) : Prop :=
  ∃ root ∈ roots, ∃ names, h.Reached cwd root names ∧ h.place cwd (entryPath root names) = d ∧
    Occurs filter (h.relative cwd root names)

/-- The matching test files are found, each once, in order. -/
def Discovers : Prop :=
  (h.discoverTestFiles cwd roots filter).Pairwise (fun p q => h.pathLe p q) ∧
    ((h.discoverTestFiles cwd roots filter).map (h.place cwd)).Nodup ∧
    ∀ d, d ∈ (h.discoverTestFiles cwd roots filter).map (h.place cwd) ↔ h.Matching cwd roots filter d

/-- A test file with the filter in its name is found, as a root and below one. -/
def Consistent : Prop :=
  ∀ root ∈ roots, ∀ names, h.Reached cwd root names →
    Occurs filter ((fileName (entryPath root names)).getD "").toList →
    entryPath root names ∈ h.foundUnder cwd filter root

/-- What a root offers: the places of its test files that pass the filter. -/
def Offers (root : String) (d : δ) : Prop :=
  ∃ names, h.Reached cwd root names ∧ filterMatches filter names ∧ h.place cwd (entryPath root names) = d

/-- No two roots offer the same file, and no root is itself a test file with the filter in its name. -/
def Apart : Prop :=
  roots.Pairwise (fun a b => ∀ d, ¬(h.Offers cwd filter a d ∧ h.Offers cwd filter b d)) ∧
    ∀ root ∈ roots, h.IsTest cwd root → ∀ f, filter = some f → f.toList <:+: ((fileName root).getD "").toList → f = ""

end TestHost

/-! ## Paths -/

theorem comparePaths_trans (a b c : String) (hab : comparePaths a b) (hbc : comparePaths b c) : comparePaths a c := by
  simp only [comparePaths,decide_eq_true_eq] at hab hbc ⊢
  exact le_trans hab hbc

theorem comparePaths_total (a b : String) : comparePaths a b || comparePaths b a := by
  simp only [comparePaths,Bool.or_eq_true,decide_eq_true_eq]
  exact le_total _ _

theorem EntryName.ext_toList {a b : EntryName} (h : a.name.toList = b.name.toList) : a = b := by
  obtain ⟨a,_,_,_⟩ := a
  obtain ⟨b,_,_,_⟩ := b
  obtain rfl : a = b := String.toList_inj.mp h
  rfl

theorem entryPath_injective {root : String} (hroot : root ≠ "") {names names' : List EntryName}
    (h : entryPath root names = entryPath root names') : names = names' := by
  have hcomponents := components_entryPath hroot names
  rw [h,components_entryPath hroot names',Prod.mk.injEq] at hcomponents
  have hnames := List.append_cancel_left hcomponents.2
  exact List.map_injective_iff.mpr (fun _ _ => EntryName.ext_toList) hnames.symm

/-- What is before the name of an entry ends in a slash, or is not there. -/
theorem joinPath_toList (a : String) (n : EntryName) :
    ∃ b : List Char, (b = [] ∨ ∃ r, b.reverse = '/'::r) ∧ (joinPath a n.name).toList = b++n.name.toList := by
  unfold joinPath
  split
  · next h =>
    refine ⟨a.toList,?_,String.toList_append⟩
    obtain rfl | hlast := h
    · exact .inl rfl
    · refine .inr ⟨a.toList.dropLast.reverse,?_⟩
      rw [← List.reverse_concat',List.dropLast_append_getLast? _ hlast]
  · exact ⟨a.toList++['/'],.inr ⟨a.toList.reverse,by simp⟩,by simp⟩

theorem trimTail_name (n : EntryName) (r : List Char) :
    trimTail (n.name.toList.reverse++r) = n.name.toList.reverse++r := by
  have hplain : '/' ∉ n.name.toList.reverse := by
    rw [List.mem_reverse]
    exact n.plain
  have hne : n.name.toList.reverse ≠ [] := by simpa using entry_ne_nil n
  have hdot : n.name.toList.reverse ≠ ['.'] := by
    intro h
    refine n.notDot (String.toList_inj.mp ?_)
    simpa using congrArg List.reverse h
  generalize n.name.toList.reverse = name at hplain hne hdot
  rcases name with - | ⟨c,- | ⟨c',name⟩⟩
  · exact absurd rfl hne
  all_goals
    unfold trimTail
    split <;> simp_all

theorem fileName_joinPath {a : String} {n : EntryName} (h : isTestFile (joinPath a n.name)) :
    fileName (joinPath a n.name) = some n.name := by
  obtain ⟨b,hb,hjoin⟩ := joinPath_toList a n
  have htake : (n.name.toList.reverse++b.reverse).takeWhile (· ≠ '/') = n.name.toList.reverse := by
    rw [List.takeWhile_append_of_pos]
    · obtain rfl | ⟨r,hr⟩ := hb
      · simp
      · simp [hr]
    · intro c hc
      have hc' : c ≠ '/' := by
        rintro rfl
        exact n.plain (List.mem_reverse.mp hc)
      simpa using hc'
  unfold isTestFile at h
  unfold fileName at h ⊢
  rw [hjoin,List.reverse_append,trimTail_name,htake] at h ⊢
  split
  · simp_all
  · simp_all
  · simp_all
  · simp

theorem filterMatches_iff (filter : Option String) (names : List EntryName) :
    filterMatches filter names ↔ Occurs filter (['/'].intercalate (names.map fun n => n.name.toList)) := by
  cases filter <;> simp [filterMatches,Occurs]

theorem Occurs.mono {filter : Option String} {text text' : List Char} (h : Occurs filter text)
    (htext : text <:+: text') : Occurs filter text' := fun f hf => (h f hf).trans htext

theorem infix_intercalate {sep x : List Char} {l : List (List Char)} (h : x ∈ l) : x <:+: sep.intercalate l := by
  induction l with
  | nil => cases h
  | cons y l ih =>
    cases l with
    | nil =>
      rw [List.mem_singleton.mp h]
      simp
    | cons z l =>
      rw [List.intercalate_cons_cons]
      obtain rfl | hmem := List.mem_cons.mp h
      · exact (List.prefix_append _ _).isInfix.trans (List.prefix_append _ _).isInfix
      · exact (ih hmem).trans (List.suffix_append _ _).isInfix

namespace TestHost
variable {δ : Type} {h : TestHost δ} {cwd : δ} {root p : String} {filter : Option String} {roots : List String}

/-! ## What one root leads to -/

theorem mem_foundUnder : p ∈ h.foundUnder cwd filter root ↔
    ∃ names, h.Reached cwd root names ∧ filterMatches filter names ∧ p = entryPath root names := by
  unfold foundUnder Reached
  by_cases hroot : root = ""
  · simp [hroot]
  rw [if_neg hroot]
  by_cases htest : h.IsTest cwd root
  · rw [if_pos (by simpa [IsTest] using htest)]
    by_cases hfilter : filterMatches filter [] <;> simp [htest,hroot,hfilter,entryPath]
  · rw [if_neg (by simpa [IsTest] using htest)]
    simp only [List.mem_map,List.mem_filter,Bool.and_eq_true,if_neg htest]
    constructor
    · rintro ⟨names,⟨hnames,hname,hfilter⟩,rfl⟩
      exact ⟨names,⟨hroot,hnames,hname⟩,hfilter,rfl⟩
    · rintro ⟨names,⟨-,hnames,hname⟩,hfilter,rfl⟩
      exact ⟨names,⟨hnames,hname,hfilter⟩,rfl⟩

/-- Below one place different names lead to different files. -/
theorem place_injective (hroot : root ≠ "") {names names' : List EntryName}
    (hnames : names ∈ h.below (h.place cwd root)) (hnames' : names' ∈ h.below (h.place cwd root))
    (heq : h.place cwd (entryPath root names) = h.place cwd (entryPath root names')) : names = names' := by
  obtain ⟨r,hr,hreal⟩ := h.real_below _ _ hnames
  obtain ⟨r',hr',hreal'⟩ := h.real_below _ _ hnames'
  obtain rfl := Option.some.inj (hr.symm.trans hr')
  rw [place_entryPath hroot,place_entryPath hroot] at heq
  rw [heq,hreal'] at hreal
  exact entryPath_injective (real_ne_empty hr) (Option.some.inj hreal).symm

theorem nodup_foundUnder (hbelow : ∀ d, (h.below d).Nodup) :
    ((h.foundUnder cwd filter root).map (h.place cwd)).Nodup := by
  unfold foundUnder
  split
  · exact List.nodup_nil
  next hroot =>
    split
    · split
      · exact List.nodup_singleton _
      · exact List.nodup_nil
    · rw [List.map_map]
      refine List.Nodup.map_on ?_ ((hbelow _).filter _)
      intro names hnames names' hnames' heq
      exact place_injective hroot (List.mem_of_mem_filter hnames) (List.mem_of_mem_filter hnames') heq

theorem mem_map_foundUnder {d : δ} :
    d ∈ (h.foundUnder cwd filter root).map (h.place cwd) ↔ h.Offers cwd filter root d := by
  simp only [List.mem_map,mem_foundUnder,Offers]
  constructor
  · rintro ⟨p,⟨names,hreached,hfilter,rfl⟩,rfl⟩
    exact ⟨names,hreached,hfilter,rfl⟩
  · rintro ⟨names,hreached,hfilter,rfl⟩
    exact ⟨_,⟨names,hreached,hfilter,rfl⟩,rfl⟩

/-- No file is found twice where no two roots offer the same one. -/
theorem nodup_discoverTestFiles (hbelow : ∀ d, (h.below d).Nodup) :
    ((h.discoverTestFiles cwd roots filter).map (h.place cwd)).Nodup ↔
      roots.Pairwise fun a b => ∀ d, ¬(h.Offers cwd filter a d ∧ h.Offers cwd filter b d) := by
  have hperm := (List.mergeSort_perm (roots.flatMap (h.foundUnder cwd filter)) h.pathLe).map (h.place cwd)
  rw [discoverTestFiles,hperm.nodup_iff,List.map_flatMap,List.nodup_flatMap]
  refine ⟨fun hall => ?_,fun hpair => ⟨fun root _ => nodup_foundUnder hbelow,?_⟩⟩
  · refine hall.2.imp ?_
    rintro a b hdisjoint d ⟨ha,hb⟩
    exact hdisjoint (mem_map_foundUnder.mpr ha) (mem_map_foundUnder.mpr hb)
  · refine hpair.imp ?_
    intro a b hnone d ha hb
    exact hnone d ⟨mem_map_foundUnder.mp ha,mem_map_foundUnder.mp hb⟩

theorem mem_map_discoverTestFiles {d : δ} : d ∈ (h.discoverTestFiles cwd roots filter).map (h.place cwd) ↔
    ∃ root ∈ roots, h.Offers cwd filter root d := by
  simp only [List.mem_map,mem_discoverTestFiles]
  constructor
  · rintro ⟨p,⟨root,hroot,hp⟩,rfl⟩
    exact ⟨root,hroot,mem_map_foundUnder.mp (List.mem_map_of_mem hp)⟩
  · rintro ⟨root,hroot,hoffers⟩
    obtain ⟨p,hp,rfl⟩ := List.mem_map.mp (mem_map_foundUnder.mpr hoffers)
    exact ⟨p,⟨root,hroot,hp⟩,rfl⟩

/-! ## The filter -/

/-- A root that is a test file passes any filter that does not occur in its name, and else only the empty one. -/
theorem occurs_relative_iff (hnamed : h.IsTest cwd root → ∀ f, filter = some f →
      f.toList <:+: ((fileName root).getD "").toList → f = "") {names : List EntryName}
    (hreached : h.Reached cwd root names) :
    Occurs filter (h.relative cwd root names) ↔ filterMatches filter names := by
  rw [filterMatches_iff]
  unfold relative
  split
  · next htest =>
    obtain rfl : names = [] := by simpa [htest] using hreached.2
    constructor
    · intro ho f hf
      rw [hnamed htest f hf (ho f hf)]
      exact List.nil_infix
    · intro ho
      exact ho.mono List.nil_infix
  · exact Iff.rfl

/-- Below a directory the path of a test file contains its name. -/
theorem relative_of_name (hself : ∀ d, [] ∈ h.below d → h.isFile d) {names : List EntryName}
    (hreached : h.Reached cwd root names) (htest : ¬h.IsTest cwd root)
    (ho : Occurs filter ((fileName (entryPath root names)).getD "").toList) : filterMatches filter names := by
  have hbelow := hreached.2
  rw [if_neg htest] at hbelow
  obtain ⟨hnames,hname⟩ := hbelow
  obtain rfl | ⟨init,n,rfl⟩ := List.eq_nil_or_concat' names
  · exact absurd ⟨hself _ hnames,hname⟩ htest
  · have hpath : entryPath root (init++[n]) = joinPath (entryPath root init) n.name := by simp [entryPath]
    rw [hpath] at hname ho
    rw [fileName_joinPath hname] at ho
    rw [filterMatches_iff]
    exact ho.mono (infix_intercalate (List.mem_map_of_mem (List.mem_append_right _ (List.mem_singleton_self n))))

theorem isTest_ne_empty (htest : h.IsTest cwd root) : root ≠ "" := by
  rintro rfl
  exact absurd htest.2 (by decide)

theorem consistent_iff (hself : ∀ d, [] ∈ h.below d → h.isFile d) : h.Consistent cwd roots filter ↔
    ∀ root ∈ roots, h.IsTest cwd root → ∀ f, filter = some f →
      f.toList <:+: ((fileName root).getD "").toList → f = "" := by
  constructor
  · rintro hall root hroot htest f rfl hf
    have hreached : h.Reached cwd root [] := ⟨isTest_ne_empty htest,by rw [if_pos htest]⟩
    obtain ⟨names,hnames,hfilter,-⟩ := mem_foundUnder.mp (hall root hroot [] hreached fun g hg => by
      obtain rfl := Option.some.inj hg
      exact hf)
    obtain rfl : names = [] := by simpa [htest] using hnames.2
    simpa [filterMatches] using hfilter
  · intro hnamed root hroot names hreached ho
    refine mem_foundUnder.mpr ⟨names,hreached,?_,rfl⟩
    by_cases htest : h.IsTest cwd root
    · refine (occurs_relative_iff (hnamed root hroot) hreached).mp ?_
      obtain rfl : names = [] := by simpa [htest] using hreached.2
      rw [relative,if_pos htest]
      exact ho
    · exact relative_of_name hself hreached htest ho

end TestHost

/-- The matching test files are found once each, in order, and whichever way they are reached, if and only if the
roots are apart. -/
theorem discovers_iff {δ : Type} (h : TestHost δ) (hbelow : ∀ d, (h.below d).Nodup)
    (hself : ∀ d, [] ∈ h.below d → h.isFile d) (cwd : δ) (roots : List String) (filter : Option String) :
    h.std.Discovers cwd roots filter ∧ h.std.Consistent cwd roots filter ↔ h.Apart cwd roots filter := by
  have hpairs := @TestHost.nodup_discoverTestFiles δ h.std cwd filter roots hbelow
  have hnames := @TestHost.consistent_iff δ h.std cwd filter roots hself
  constructor
  · rintro ⟨⟨-,hnodup,-⟩,hconsistent⟩
    exact ⟨hpairs.mp hnodup,hnames.mp hconsistent⟩
  · rintro ⟨hapart,hnamed⟩
    refine ⟨⟨List.pairwise_mergeSort comparePaths_trans comparePaths_total _,hpairs.mpr hapart,fun d => ?_⟩,
      hnames.mpr hnamed⟩
    rw [TestHost.mem_map_discoverTestFiles]
    refine exists_congr fun root => and_congr_right fun hroot => exists_congr fun names => ?_
    refine and_congr_right fun hreached => ?_
    have hoccurs := TestHost.occurs_relative_iff (h := h.std) (hnamed root hroot) hreached
    rw [hoccurs,and_comm]

theorem projBelow_nodup (d : List (List Char)) : (projBelow d).Nodup := by
  unfold projBelow
  split
  · exact List.nodup_singleton _
  · exact List.nodup_nil

theorem nil_notMem_projBelow (d : List (List Char)) : [] ∉ projBelow d := by
  unfold projBelow
  split <;> simp

/-- A directory alone, with a filter that occurs in the name of its file. -/
theorem discovers_proj : projHost.std.Discovers ["proj".toList] ["/proj"] (some "a.t") ∧
    projHost.std.Consistent ["proj".toList] ["/proj"] (some "a.t") := by
  refine (discovers_iff projHost projBelow_nodup (fun d hd => absurd hd (nil_notMem_projBelow d)) _ _ _).mpr
    ⟨List.pairwise_singleton _ _,?_⟩
  intro root hroot htest
  rw [List.mem_singleton.mp hroot] at htest
  exact absurd htest.1 (by decide +kernel)

/-- A root that is given twice has its file found twice, and a file that is given itself is not found by its name. -/
theorem repeated_root_finds_twice : ¬projHost.std.Discovers ["proj".toList] ["/proj","/proj"] none ∧
    ¬projHost.std.Consistent ["proj".toList] ["/proj/a.test.lua"] (some "a.test") := by
  constructor
  · intro h
    have hoffers : projHost.std.Offers ["proj".toList] none "/proj" ["proj".toList,"a.test.lua".toList] := by
      refine ⟨[testName],⟨by decide,?_⟩,rfl,by decide +kernel⟩
      have hplace : projHost.std.place ["proj".toList] "/proj" = ["proj".toList] := by decide +kernel
      rw [if_neg (by decide +kernel),hplace]
      exact ⟨List.mem_singleton_self [testName],by decide +kernel⟩
    have hpair := (TestHost.nodup_discoverTestFiles projBelow_nodup).mp h.2.1
    exact (List.pairwise_cons.mp hpair).1 "/proj" (List.mem_singleton_self _) _ ⟨hoffers,hoffers⟩
  · intro h
    have htest : projHost.std.IsTest ["proj".toList] "/proj/a.test.lua" := by decide +kernel
    have hself : ∀ d, [] ∈ projHost.std.below d → projHost.std.isFile d :=
      fun d hd => absurd hd (nil_notMem_projBelow d)
    have hempty := (TestHost.consistent_iff hself).mp h _ (List.mem_singleton_self _) htest "a.test" rfl
      (by decide +kernel)
    exact absurd hempty (by decide)

end Provium.Cli
