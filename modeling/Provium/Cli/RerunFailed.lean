import Provium.Fixture.BuildOut
import Provium.Fixture.PushFile

/-! Which files a run discovers, and which of them `--rerun-failed` keeps, `bin/provium.rs`. The failed ones are
saved under their canonical paths; the discovered ones are compared as they are spelled. -/
namespace Provium.Cli
open Lib Provium.Fixture

/-- A file system with test files in it. -/
structure TestHost (δ : Type) extends Places δ where
  isFile : δ → Bool
  /-- The regular files below a place, each by the names that lead to it without following a link. -/
  below : δ → List (List EntryName)
  /-- `canonicalize`, of a place. -/
  real : δ → Option String
  /-- The order of paths. -/
  pathLe : String → String → Bool
  real_walk : ∀ d r, real d = some r → isAbsolute r ∧ ∀ here, toPlaces.walk here r.toList = d
  real_file : ∀ d, isFile d → (real d).isSome
  real_below : ∀ d names, names ∈ below d → ∃ r, real d = some r ∧
    real (names.foldl (fun d n => enter d n.name.toList) d) = some (names.foldl (fun p n => joinPath p n.name) r)

def isTestFile (p : String) : Bool := (fileName p).any fun n => ".test.lua".toList.isSuffixOf n.toList

/-- The path of an entry below a root. -/
def entryPath (root : String) (names : List EntryName) : String := names.foldl (fun p n => joinPath p n.name) root

/-- `filter_matches`, of an entry by its names below the root. -/
def filterMatches (filter : Option String) (names : List EntryName) : Bool :=
  match filter with
  | some f => decide (f.toList <:+: ['/'].intercalate (names.map fun n => n.name.toList))
  | none => true

namespace TestHost
variable {δ : Type} (h : TestHost δ)

/-- Where a path leads from a working directory. -/
def place (cwd : δ) (p : String) : δ := h.walk cwd p.toList

/-- What is found for one root. There is nothing at the empty path. -/
def foundUnder (cwd : δ) (filter : Option String) (root : String) : List String :=
  if root = "" then []
  else if h.isFile (h.place cwd root) && isTestFile root then if filterMatches filter [] then [root] else []
  else ((h.below (h.place cwd root)).filter fun names =>
    isTestFile (entryPath root names) && filterMatches filter names).map (entryPath root)

def discoverTestFiles (cwd : δ) (roots : List String) (filter : Option String) : List String :=
  (roots.flatMap (h.foundUnder cwd filter)).mergeSort h.pathLe

/-- What `save_rerun_failed` writes. -/
def saveRerunFailed (cwd : δ) (paths : List String) : List String :=
  paths.map fun p => (h.real (h.place cwd p)).getD p

/-- The state file after a run. -/
def persist (state : Option (List String)) (cwd : δ) (failed : List String) : Option (List String) :=
  if failed = [] then state else some (h.saveRerunFailed cwd failed)

end TestHost

def loadRerunFailed (state : Option (List String)) : List String := state.getD []

/-- What `--rerun-failed` leaves of the discovered files; without a state there is no run. -/
def rerunFailed (state : Option (List String)) (discovered : List String) : List String :=
  if loadRerunFailed state = [] then []
  else discovered.filter fun p => (loadRerunFailed state).any (samePath p)

namespace TestHost
variable {δ : Type} [DecidableEq δ] (h : TestHost δ)

/-- The discovered files that denote one of the failed files, which were spelled in another directory. -/
def denoting (cwd₁ cwd₂ : δ) (failed discovered : List String) : List String :=
  discovered.filter fun p => failed.any fun q => h.place cwd₂ p = h.place cwd₁ q

/-- A root that is spelled as its canonical path. -/
def Canonical (cwd : δ) (root : String) : Prop := ∃ r, h.real (h.place cwd root) = some r ∧ samePath root r

end TestHost

/-! ## Paths and their components -/

theorem samePath_iff {p q : String} : samePath p q ↔ components p = components q := by simp [samePath]

/-- The pieces of a path that are not empty. -/
def pieces (p : List Char) : List (List Char) := (p.splitOn '/').filter (· ≠ [])

theorem pieces_append_slash (a b : List Char) : pieces (a++ '/' :: b) = pieces a++pieces b := by
  simp [pieces,List.splitOn_append_cons_self]

theorem pieces_name (n : EntryName) : pieces n.name.toList = [n.name.toList] := by
  simp [pieces,List.splitOn_eq_singleton n.plain,entry_ne_nil n]

theorem pieces_ne_nil {p : List Char} (hne : p ≠ []) (hrel : ¬rooted p) : pieces p ≠ [] := by
  cases p with
  | nil => exact absurd rfl hne
  | cons c p =>
    have hc : c ≠ '/' := by
      rintro rfl
      exact hrel rfl
    obtain ⟨piece,rest,hrest⟩ := List.exists_cons_of_ne_nil (List.splitOn_ne_nil '/' p)
    simp [pieces,List.splitOn_cons_eq_if_modifyHead,hc,hrest]

theorem pieces_joinPath (a : String) (n : EntryName) :
    pieces (joinPath a n.name).toList = pieces a.toList++[n.name.toList] := by
  unfold joinPath
  split
  · next h =>
    obtain rfl | hlast := h
    · rw [String.toList_append]
      exact pieces_name n
    · obtain ⟨b,hb⟩ : ∃ b, a.toList = b++['/'] := ⟨_,(List.dropLast_append_getLast? _ hlast).symm⟩
      rw [String.toList_append,hb,List.append_assoc,List.singleton_append,pieces_append_slash,pieces_append_slash,
        pieces_name]
      simp [pieces]
  · rw [String.toList_append,String.toList_append,List.append_assoc]
    change pieces (a.toList++ '/' :: n.name.toList) = _
    rw [pieces_append_slash,pieces_name]

theorem isAbsolute_joinPath {a : String} (ha : a ≠ "") (n : EntryName) :
    isAbsolute (joinPath a n.name) = isAbsolute a := by
  have hne : a.toList ≠ [] := fun h => ha (String.toList_eq_nil_iff.mp h)
  have hroot : ∀ b : String, isAbsolute (a++b) = isAbsolute a := by
    intro b
    rw [isAbsolute_eq_rooted,isAbsolute_eq_rooted,String.toList_append,rooted_append hne]
  unfold joinPath
  split
  · exact hroot _
  · rw [String.append_assoc]
    exact hroot _

theorem components_joinPath {a : String} (ha : a ≠ "") (n : EntryName) :
    components (joinPath a n.name) = ((components a).1,(components a).2++[n.name.toList]) := by
  have hpieces := pieces_joinPath a n
  have hdot : n.name.toList ≠ ['.'] := fun h => n.notDot (String.toList_inj.mp h)
  unfold pieces at hpieces
  simp only [components,isAbsolute_joinPath ha,hpieces]
  split
  · simp [hdot]
  · next hrel =>
    have hne := pieces_ne_nil (fun h => ha (String.toList_eq_nil_iff.mp h)) hrel
    obtain ⟨piece,rest,hrest⟩ := List.exists_cons_of_ne_nil hne
    unfold pieces at hrest
    rw [hrest]
    simp [hdot]

theorem joinPath_ne_empty (a : String) (n : EntryName) : joinPath a n.name ≠ "" := by
  intro h
  have hpieces := pieces_joinPath a n
  rw [h] at hpieces
  simp [pieces] at hpieces

theorem components_entryPath {root : String} (hroot : root ≠ "") (names : List EntryName) :
    components (entryPath root names) = ((components root).1,(components root).2++names.map fun n => n.name.toList) := by
  induction names generalizing root with
  | nil => simp [entryPath]
  | cons n names ih =>
    change components (entryPath (joinPath root n.name) names) = _
    rw [ih (joinPath_ne_empty root n),components_joinPath hroot]
    simp

/-- Entries of the same names are spelled the same if their roots are. -/
theorem samePath_entryPath {a b : String} (ha : a ≠ "") (hb : b ≠ "") (names : List EntryName) :
    samePath (entryPath a names) (entryPath b names) ↔ samePath a b := by
  rw [samePath_iff,samePath_iff,components_entryPath ha,components_entryPath hb]
  constructor
  · intro h
    rw [Prod.ext_iff] at h
    exact Prod.ext h.1 (List.append_cancel_right h.2)
  · intro h
    rw [h]

theorem steps_eq_pieces (p : List Char) : steps p = (pieces p).filter (· ≠ ['.']) := by
  simp [steps,pieces,List.filter_filter,Bool.and_comm]

theorem steps_eq_components (p : String) : steps p.toList = (components p).2.filter (· ≠ ['.']) := by
  rw [steps_eq_pieces]
  change (pieces p.toList).filter (· ≠ ['.']) = (if isAbsolute p then (pieces p.toList).filter (· ≠ ['.']) else
    (pieces p.toList).take 1++((pieces p.toList).drop 1).filter (· ≠ ['.'])).filter (· ≠ ['.'])
  split
  · simp
  · cases pieces p.toList with
    | nil => rfl
    | cons piece rest => simp [List.filter_cons]

namespace TestHost
variable {δ : Type} {h : TestHost δ} {cwd : δ} {p q root : String}

theorem place_congr (hpq : samePath p q) : h.place cwd p = h.place cwd q := by
  have hcomponents := samePath_iff.mp hpq
  refine Places.walk_congr ?_ ?_
  · exact congrArg Prod.fst hcomponents
  · rw [steps_eq_components,steps_eq_components,hcomponents]

theorem place_joinPath (ha : p ≠ "") (n : EntryName) :
    h.place cwd (joinPath p n.name) = h.enter (h.place cwd p) n.name.toList := by
  have hsteps : steps (joinPath p n.name).toList = steps p.toList++[n.name.toList] := by
    have hdot : n.name.toList ≠ ['.'] := fun heq => n.notDot (String.toList_inj.mp heq)
    rw [steps_eq_pieces,pieces_joinPath,List.filter_append,← steps_eq_pieces]
    simp [hdot]
  have hroot : rooted (joinPath p n.name).toList = rooted p.toList := isAbsolute_joinPath ha n
  simp only [place,Places.walk,hsteps,hroot,List.foldl_append,List.foldl_cons,List.foldl_nil]

theorem place_entryPath (hroot : root ≠ "") (names : List EntryName) : h.place cwd (entryPath root names) =
    names.foldl (fun d n => h.enter d n.name.toList) (h.place cwd root) := by
  induction names generalizing root with
  | nil => rfl
  | cons n names ih =>
    change h.place cwd (entryPath (joinPath root n.name) names) = _
    rw [ih (joinPath_ne_empty root n),place_joinPath hroot]
    rfl

theorem real_ne_empty {d : δ} {r : String} (hr : h.real d = some r) : r ≠ "" := by
  rintro rfl
  have habs := (h.real_walk d "" hr).1
  cases habs

theorem place_real {d : δ} {r : String} (hr : h.real d = some r) : h.place cwd r = d := (h.real_walk d r hr).2 cwd

/-- A discovered file has a canonical path, and is spelled so if and only if its root is. -/
theorem foundUnder_real {filter : Option String} (hp : p ∈ h.foundUnder cwd filter root) :
    ∃ r, h.real (h.place cwd p) = some r ∧ (samePath p r ↔ h.Canonical cwd root) := by
  unfold foundUnder at hp
  split at hp
  · cases hp
  next hroot =>
    -- a root and its canonical path have the same entries
    have hcanonical : ∀ r names, h.real (h.place cwd root) = some r →
        (samePath (entryPath root names) (entryPath r names) ↔ h.Canonical cwd root) := by
      intro r names hr
      rw [samePath_entryPath hroot (real_ne_empty hr)]
      refine ⟨fun hs => ⟨r,hr,hs⟩,?_⟩
      rintro ⟨r',hr',hs⟩
      rw [hr] at hr'
      cases hr'
      exact hs
    split at hp
    · next hfile =>
      rw [Bool.and_eq_true] at hfile
      split at hp
      · obtain rfl := List.mem_singleton.mp hp
        obtain ⟨r,hr⟩ := Option.isSome_iff_exists.mp (h.real_file _ hfile.1)
        exact ⟨r,hr,hcanonical r [] hr⟩
      · cases hp
    · obtain ⟨names,hnames,rfl⟩ := List.mem_map.mp hp
      obtain ⟨r,hr,hreal⟩ := h.real_below _ _ (List.mem_of_mem_filter hnames)
      refine ⟨entryPath r names,?_,hcanonical r names hr⟩
      rw [place_entryPath hroot]
      exact hreal

theorem mem_discoverTestFiles {roots : List String} {filter : Option String} :
    p ∈ h.discoverTestFiles cwd roots filter ↔ ∃ root ∈ roots, p ∈ h.foundUnder cwd filter root := by
  rw [discoverTestFiles,List.mem_mergeSort,List.mem_flatMap]

end TestHost

/-! ## What is run again -/

theorem filter_eq_filter_iff {α : Type} {l : List α} {f g : α → Bool} :
    l.filter f = l.filter g ↔ ∀ a ∈ l, (f a ↔ g a) := by
  constructor
  · intro h a ha
    have hmem : a ∈ l.filter f ↔ a ∈ l.filter g := by rw [h]
    simpa [ha] using hmem
  · intro h
    exact List.filter_congr fun a ha => Bool.eq_iff_iff.mpr (h a ha)

section Rerun
variable {δ : Type} [DecidableEq δ] (h : TestHost δ)

/-- A discovered file is kept if it denotes a failed one and is spelled as its canonical path. -/
theorem kept_iff {cwd₁ cwd₂ : δ} {failed : List String} {p r : String}
    (hfailed : ∀ q ∈ failed, (h.real (h.place cwd₁ q)).isSome) (hr : h.real (h.place cwd₂ p) = some r) :
    (h.saveRerunFailed cwd₁ failed).any (samePath p) ↔
      (failed.any fun q => h.place cwd₂ p = h.place cwd₁ q) ∧ samePath p r := by
  simp only [TestHost.saveRerunFailed,List.any_map,List.any_eq_true,Function.comp_apply,decide_eq_true_eq]
  constructor
  · rintro ⟨q,hq,hsame⟩
    obtain ⟨s,hs⟩ := Option.isSome_iff_exists.mp (hfailed q hq)
    rw [hs,Option.getD_some] at hsame
    have hplace : h.place cwd₂ p = h.place cwd₁ q :=
      (TestHost.place_congr hsame).trans (TestHost.place_real hs)
    rw [hplace,hs] at hr
    cases hr
    exact ⟨⟨q,hq,hplace⟩,hsame⟩
  · rintro ⟨⟨q,hq,hplace⟩,hsame⟩
    refine ⟨q,hq,?_⟩
    rw [← hplace,hr]
    exact hsame

/-- The failed files are selected if and only if every root that one of them is found under is spelled as its
canonical path. -/
theorem rerun_selects_iff (state : Option (List String)) (cwd₁ cwd₂ : δ) (roots₁ roots₂ : List String)
    (filter₁ filter₂ : Option String) (failed : List String) (hne : failed ≠ [])
    (hfailed : ∀ q ∈ failed, q ∈ h.discoverTestFiles cwd₁ roots₁ filter₁) :
    rerunFailed (h.persist state cwd₁ failed) (h.discoverTestFiles cwd₂ roots₂ filter₂) =
        h.denoting cwd₁ cwd₂ failed (h.discoverTestFiles cwd₂ roots₂ filter₂) ↔
      ∀ root ∈ roots₂, h.denoting cwd₁ cwd₂ failed (h.foundUnder cwd₂ filter₂ root) ≠ [] →
        h.Canonical cwd₂ root := by
  have hreal : ∀ q ∈ failed, (h.real (h.place cwd₁ q)).isSome := by
    intro q hq
    obtain ⟨root,-,hfound⟩ := TestHost.mem_discoverTestFiles.mp (hfailed q hq)
    obtain ⟨r,hr,-⟩ := TestHost.foundUnder_real hfound
    rw [hr]
    rfl
  have hload : loadRerunFailed (h.persist state cwd₁ failed) = h.saveRerunFailed cwd₁ failed := by
    simp only [TestHost.persist,if_neg hne,loadRerunFailed,Option.getD_some]
  have hsaved : h.saveRerunFailed cwd₁ failed ≠ [] := by simpa [TestHost.saveRerunFailed] using hne
  rw [rerunFailed,hload,if_neg hsaved,TestHost.denoting,filter_eq_filter_iff]
  have hfound : ∀ p root, p ∈ h.foundUnder cwd₂ filter₂ root →
      ((h.saveRerunFailed cwd₁ failed).any (samePath p) ↔
        (failed.any fun q => h.place cwd₂ p = h.place cwd₁ q) ∧ h.Canonical cwd₂ root) := by
    intro p root hp
    obtain ⟨r,hr,hcanonical⟩ := TestHost.foundUnder_real hp
    rw [kept_iff h hreal hr,hcanonical]
  constructor
  · intro hall root hroot hsome
    obtain ⟨p,hp⟩ := List.exists_mem_of_ne_nil _ hsome
    obtain ⟨hp,hdenotes⟩ := List.mem_filter.mp hp
    have hkept := (hall p (TestHost.mem_discoverTestFiles.mpr ⟨root,hroot,hp⟩)).mpr hdenotes
    exact ((hfound p root hp).mp hkept).2
  · intro hall p hp
    obtain ⟨root,hroot,hp⟩ := TestHost.mem_discoverTestFiles.mp hp
    rw [hfound p root hp,and_iff_left_iff_imp]
    intro hdenotes
    exact hall root hroot (List.ne_nil_of_mem (List.mem_filter.mpr ⟨hp,hdenotes⟩))

end Rerun

def testName : EntryName := ⟨"a.test.lua",by decide,by decide,by decide⟩

def projReal (d : List (List Char)) : Option String :=
  if d = ["proj".toList] then some "/proj" else if d = ["proj".toList,"a.test.lua".toList] then some "/proj/a.test.lua"
  else none

def projBelow (d : List (List Char)) : List (List EntryName) := if d = ["proj".toList] then [[testName]] else []

def projPlaces : Places (List (List Char)) := ⟨[],fun d c => d++[c]⟩

theorem projReal_walk (d : List (List Char)) (r : String) (h : projReal d = some r) :
    isAbsolute r ∧ ∀ here, projPlaces.walk here r.toList = d := by
  have hwalk : ∀ p, rooted p → ∀ here, projPlaces.walk here p = projPlaces.walk [] p :=
    fun p hp here => Places.walk_rooted hp
  unfold projReal at h
  split at h
  · next hd =>
    cases h
    refine ⟨by decide,fun here => ?_⟩
    rw [hwalk _ (by decide),hd]
    decide +kernel
  · split at h
    · next hd =>
      cases h
      refine ⟨by decide,fun here => ?_⟩
      rw [hwalk _ (by decide),hd]
      decide +kernel
    · cases h

theorem projReal_below (d : List (List Char)) (names : List EntryName) (h : names ∈ projBelow d) :
    ∃ r, projReal d = some r ∧ projReal (names.foldl (fun d n => d++[n.name.toList]) d) =
      some (names.foldl (fun p n => joinPath p n.name) r) := by
  unfold projBelow at h
  split at h
  · next hd =>
    rw [hd,List.mem_singleton.mp h]
    exact ⟨"/proj",by decide +kernel,by decide +kernel⟩
  · cases h

theorem projReal_file (d : List (List Char))
    (h : decide (d = ["proj".toList,"a.test.lua".toList]) = true) : (projReal d).isSome := by
  rw [of_decide_eq_true h]
  decide +kernel

/-- A file system with one test file, in `/proj`. -/
def projHost : TestHost (List (List Char)) where
  toPlaces := projPlaces
  isFile d := decide (d = ["proj".toList,"a.test.lua".toList])
  below := projBelow
  real := projReal
  pathLe a b := decide (a ≤ b)
  real_walk := projReal_walk
  real_file := projReal_file
  real_below := projReal_below

/-- The test file failed under a relative root, and is selected under the canonical one. -/
theorem rerun_selects_canonical :
    rerunFailed (projHost.persist none ["proj".toList] ["./a.test.lua"])
        (projHost.discoverTestFiles [] ["/proj"] none) =
      projHost.denoting ["proj".toList] [] ["./a.test.lua"] (projHost.discoverTestFiles [] ["/proj"] none) := by
  refine (rerun_selects_iff projHost none ["proj".toList] [] ["."] ["/proj"] none none ["./a.test.lua"]
    (List.cons_ne_nil _ _) ?_).mpr ?_
  · decide +kernel
  · intro root hroot _
    rw [List.mem_singleton.mp hroot]
    exact ⟨"/proj",by decide +kernel,by decide +kernel⟩

/-- The same run from the same directory selects nothing. -/
theorem relative_root_reruns_nothing : ¬∀ (δ : Type) (_ : DecidableEq δ) (h : TestHost δ)
    (state : Option (List String)) (cwd₁ cwd₂ : δ) (roots₁ roots₂ : List String) (filter₁ filter₂ : Option String)
    (failed : List String), failed ≠ [] →
    (∀ q ∈ failed, q ∈ h.discoverTestFiles cwd₁ roots₁ filter₁) →
    rerunFailed (h.persist state cwd₁ failed) (h.discoverTestFiles cwd₂ roots₂ filter₂) =
      h.denoting cwd₁ cwd₂ failed (h.discoverTestFiles cwd₂ roots₂ filter₂) := by
  intro h
  have hselected := h _ inferInstance projHost none ["proj".toList] ["proj".toList] ["."] ["."] none none
    ["./a.test.lua"] (List.cons_ne_nil _ _) (by decide +kernel)
  exact absurd hselected (by decide +kernel)

end Provium.Cli
