import Provium.Fixture.Deps

/-! A key changes with every source that is reached and with every external file that is declared, as far
as the sources on the way are texts. -/
namespace Provium.Fixture
open Lib

/-- The source calls for it, literally. -/
def Cites (source : Bytes) : Reference → Prop
  | .fixture name => ∃ marker before args, (marker = "vm_fixture" ∨ marker = "lab_fixture") ∧
      LiteralCall marker before args name source
  | .module name => ∃ before args, LiteralCall "require" before args name source

/-- The source declares an external file, literally. -/
def Declares (source : Bytes) (raw : String) : Prop :=
  ∃ before args, LiteralCall "depends_on_file" before args raw source ∨ PushSeen before args raw source

def IsText (source : Bytes) : Prop := (ofUtf8 source).isSome

namespace FileSystem
variable {ν : Type} (fs : FileSystem ν) (roots : List String)

/-- What a source leads to by literal calls in it and in what it leads to, where what is called from
satisfies `through`. -/
inductive Cited (through : Bytes → Prop) (source : Bytes) : Reference → Prop
  | root {r} : through source → Cites source r → Cited through source r
  | step {r path src r'} : Cited through source r → fs.load roots r = some (path,src) →
      through src → Cites src r' → Cited through source r'

/-- The fixture's own file, or one that it leads to. -/
def Reachable (through : Bytes → Prop) (fixturePath : String) (source : Bytes) (n : ν) : Prop :=
  fs.node fixturePath = some n ∨
    ∃ r path, fs.Cited roots through source r ∧ fs.locate roots r = some path ∧ fs.node path = some n

/-- An external file that is declared in the fixture or in what it leads to. -/
def Declared (through : Bytes → Prop) (fixturePath : String) (source : Bytes) (n : ν) : Prop :=
  ∃ path src raw, (path = fixturePath ∧ src = source ∨
      ∃ r, fs.Cited roots through source r ∧ fs.load roots r = some (path,src)) ∧
    through src ∧ Declares src raw ∧
      fs.node (if isAbsolute raw then raw else pathJoin (dirOf path) raw) = some n

/-- What the scans reach. -/
def Scanned (source : Bytes) : Reference → Prop := (fs.survey roots dependencyMark).Reach (references source)

/-- No fixture that is reached bears the name under which a module is marked. -/
def MarksApart (source : Bytes) : Prop :=
  ∀ d m, fs.Scanned roots source (.fixture d) → fs.Scanned roots source (.module m) → d ≠ "require::"++m

/-- The path stands for an external file found by the scans. -/
def Folds (fixturePath : String) (source : Bytes) (p : String) : Prop :=
  p ∈ fs.externalsOf (dirOf fixturePath) source ∨
    ∃ r path src, fs.Scanned roots source r ∧ fs.load roots r = some (path,src) ∧
      p ∈ fs.externalsOf (dirOf path) src

/-- No path that is folded in contains a header. -/
def PathsPlain (kernels initrds : List String) (fixturePath : String) (source : Bytes) : Prop :=
  (∀ p ∈ kernels++initrds, HeaderFree (utf8 p)) ∧
    ∀ p, fs.Folds roots fixturePath source p → HeaderFree (utf8 p)

/-- Paths that compare equal lead to one file. -/
def PathsAgree (fixturePath : String) (source : Bytes) : Prop :=
  ∀ p q, fs.Folds roots fixturePath source p → fs.Folds roots fixturePath source q → samePath p q →
    fs.node p = fs.node q

end FileSystem

/-- The key is another one, unless two of the texts that are hashed have one digest. -/
def KeysDiffer {ν : Type} (digest : Bytes → CacheKey) (roots kernels initrds : List String)
    (fixturePath : String) (fs fs' : FileSystem ν) : Prop :=
  ∀ fuel fuel' key key',
    Set.InjOn digest {b | b ∈ hashedForKey digest fs roots kernels initrds fixturePath fuel ∨
      b ∈ hashedForKey digest fs' roots kernels initrds fixturePath fuel'} →
    fixtureKey digest fs roots kernels initrds fixturePath fuel = some key →
    fixtureKey digest fs' roots kernels initrds fixturePath fuel' = some key' → key ≠ key'

theorem textOf_of_isText {source : Bytes} (h : IsText source) : textOf source = source := if_pos h

/-- The scan finds what a text calls for. -/
theorem Cites.mem_references {source : Bytes} {r : Reference} (htext : IsText source) (h : Cites source r) :
    r ∈ references source := by
  rw [references,textOf_of_isText htext]
  cases r with
  | fixture name =>
    obtain ⟨marker,before,args,hmarker,hcall⟩ := h
    exact List.mem_append_left _ (List.mem_map_of_mem (hcall.mem_scanFixtureDeps hmarker))
  | module name =>
    obtain ⟨before,args,hcall⟩ := h
    exact List.mem_append_right _ (List.mem_map_of_mem hcall.mem_scanRequireDeps)

theorem Declares.mem_scan {source : Bytes} {raw : String} (htext : IsText source) (h : Declares source raw) :
    raw ∈ scanExternalFileDeps (textOf source) := by
  rw [textOf_of_isText htext]
  obtain ⟨before,args,h | h⟩ := h
  · exact h.mem_scanExternalFileDeps
  · exact h.mem_scanExternalFileDeps

theorem externalMark_injective : Function.Injective externalMark := by
  intro r r' h
  have h := congrArg String.toList h
  cases r with
  | fixture name =>
    cases r' with
    | fixture name' =>
      simp only [externalMark,String.toList_append] at h
      rw [String.toList_inj.mp (List.append_cancel_left h)]
    | module name' => simp [externalMark] at h
  | module name =>
    cases r' with
    | fixture name' => simp [externalMark] at h
    | module name' =>
      simp only [externalMark,String.toList_append] at h
      rw [String.toList_inj.mp (List.append_cancel_left h)]

namespace FileSystem
variable {ν : Type} {fs : FileSystem ν} {roots : List String} {fixturePath : String} {source : Bytes}

theorem Scanned.of_cited {r : Reference} (h : fs.Cited roots IsText source r) : fs.Scanned roots source r := by
  induction h with
  | root htext hcites => exact .root (hcites.mem_references htext)
  | step _ hload htext hcites ih => exact .step ih hload (hcites.mem_references htext)

/-- Which marks are set makes no difference to what is reached. -/
theorem Scanned.survey {mark : Reference → String} {r : Reference} (h : fs.Scanned roots source r) :
    (fs.survey roots mark).Reach (references source) r := by
  induction h with
  | root hmem => exact .root hmem
  | step _ hload hmem ih => exact .step ih hload hmem

theorem Scanned.of_survey {mark : Reference → String} {r : Reference}
    (h : (fs.survey roots mark).Reach (references source) r) : fs.Scanned roots source r := by
  induction h with
  | root hmem => exact .root hmem
  | step _ hload hmem ih => exact .step ih hload hmem

theorem MarksApart.injOn (h : fs.MarksApart roots source) :
    Set.InjOn dependencyMark {r | (fs.survey roots dependencyMark).Reach (references source) r} := by
  intro r hr r' hr' hmark
  cases r with
  | fixture name =>
    cases r' with
    | fixture name' => exact congrArg Reference.fixture hmark
    | module name' => exact absurd hmark (h _ _ hr hr')
  | module name =>
    cases r' with
    | fixture name' => exact absurd hmark.symm (h _ _ hr' hr)
    | module name' =>
      have h := congrArg String.toList hmark
      simp only [dependencyMark,String.toList_append] at h
      rw [String.toList_inj.mp (List.append_cancel_left h)]

/-- The path that is folded in for a declared file leads to it. -/
theorem Declared.folds {n : ν} (h : fs.Declared roots IsText fixturePath source n) :
    ∃ p, fs.Folds roots fixturePath source p ∧ fs.node p = some n := by
  obtain ⟨path,src,raw,hwhere,htext,hdeclares,hnode⟩ := h
  refine ⟨fs.externalPath (dirOf path) raw,?_,?_⟩
  · have hmem : fs.externalPath (dirOf path) raw ∈ fs.externalsOf (dirOf path) src :=
      List.mem_map_of_mem (hdeclares.mem_scan htext)
    obtain ⟨rfl,rfl⟩ | ⟨r,hr,hload⟩ := hwhere
    · exact .inl hmem
    · exact .inr ⟨r,path,src,.of_cited hr,hload,hmem⟩
  · unfold externalPath
    dsimp only
    cases hreal : fs.real (if isAbsolute raw then raw else pathJoin (dirOf path) raw) with
    | none => exact hnode
    | some q => exact (fs.node_real _ _ hreal).trans hnode

theorem metadata_of_node {path : String} {n : ν} (hnode : fs.node path = some n) :
    fs.metadata path = some (fs.info n) := by
  rw [metadata,hnode,Option.map_some]

theorem isFile_of_locate {r : Reference} {path : String} (h : fs.locate roots r = some path) :
    fs.isFile path := by
  cases r with
  | fixture name => exact List.find?_some h
  | module name => exact List.find?_some h

theorem isFile_of_read {path : String} (h : fs.readFixtureSource path = some source) : fs.isFile path := by
  by_contra hno
  rw [readFixtureSource,if_neg hno] at h
  cases h

theorem readFixtureSource_eq {path : String} {n : ν} (hnode : fs.node path = some n)
    (hfile : fs.isFile path) : fs.readFixtureSource path = fs.contents n := by
  rw [readFixtureSource,if_pos hfile,hnode,Option.bind_some]

/-- Every walk ends: the files are finitely many, and so are the names in them. -/
theorem exists_walks [Finite ν] (fs : FileSystem ν) (roots : List String) (mark : Reference → String)
    (source : Bytes) : ∃ F s, (fs.survey roots mark).Walks (references source) [] F s := by
  let named := {k | ∃ r ∈ references source, mark r = k} ∪
    ⋃ n : ν, {k | ∃ b ∈ fs.contents n, ∃ r ∈ references b, mark r = k}
  have hlist : ∀ b : Bytes, {k | ∃ r ∈ references b, mark r = k}.Finite := by
    intro b
    have hset : {k | ∃ r ∈ references b, mark r = k} = {k | k ∈ (references b).map mark} := by
      ext k
      simp only [Set.mem_ofPred_eq,List.mem_map]
    rw [hset]
    exact List.finite_toSet _
  have hfin : named.Finite := by
    refine (hlist source).union (Set.finite_iUnion ?_)
    intro n
    cases hb : fs.contents n with
    | none => simp
    | some b => simpa using hlist b
  refine Survey.exists_walks hfin ?_ _ [] ?_
  · rintro r ⟨path,src⟩ hload r' hr'
    refine .inr (Set.mem_iUnion.mpr ?_)
    obtain ⟨path',-,hload⟩ := Option.bind_eq_some_iff.mp hload
    obtain ⟨src',hread,heq⟩ := Option.map_eq_some_iff.mp hload
    cases heq
    unfold readFixtureSource at hread
    split at hread
    · obtain ⟨n,-,hn⟩ := Option.bind_eq_some_iff.mp hread
      exact ⟨n,src,hn,r',hr',rfl⟩
    · cases hread
  · exact fun r hr => .inl ⟨r,hr,rfl⟩

end FileSystem

section Parts
variable {ν : Type} {digest : Bytes → CacheKey} {fs : FileSystem ν} {roots kernels initrds : List String}
  {fixturePath : String} {source : Bytes} {fuel : ℕ}

/-- The files whose metadata are folded in. -/
def foldedFiles (fs : FileSystem ν) (kernels initrds externals : List String) : List (FileRole × HostFile) :=
  KeyInput.files ⟨[],[],kernels.map fs.file,initrds.map fs.file,externals.map fs.file⟩

/-- What a key has been computed from. -/
theorem fixtureKey_parts {key : CacheKey}
    (h : fixtureKey digest fs roots kernels initrds fixturePath fuel = some key)
    (hsource : fs.readFixtureSource fixturePath = some source) :
    ∃ F s externals, (fs.survey roots dependencyMark).Walks (references source) [] F s ∧
      resolveExternalDeps fs roots fuel fixturePath source = some externals ∧
      (∃ p ∈ hashedForKey digest fs roots kernels initrds fixturePath fuel, key = digest p ∧
        p = source++(header++(foldDeps (F.fold (emitKey digest))++
          foldFiles (foldedFiles fs kernels initrds externals)))) ∧
      ∀ b ∈ hashedIn digest F, b ∈ hashedForKey digest fs roots kernels initrds fixturePath fuel := by
  obtain ⟨p,hp,rfl⟩ := Option.map_eq_some_iff.mp h
  have hpre := hp
  unfold keyPreimage at hp
  rw [hsource,Option.bind_eq_bind,Option.bind_some] at hp
  obtain ⟨⟨deps,s⟩,hdeps,hp⟩ := Option.bind_eq_some_iff.mp hp
  obtain ⟨externals,hexternals,hp⟩ := Option.bind_eq_some_iff.mp hp
  obtain ⟨F,hF,rfl,htrace⟩ := Survey.walk_walks (emitTrace digest) hdeps
  have htrace : traceDepKeys digest fs roots fuel source [] = some (F.fold (emitTrace digest),s) := htrace
  refine ⟨F,s,externals,hF,hexternals,⟨p,?_,rfl,?_⟩,?_⟩
  · rw [hashedForKey,hpre]
    exact List.mem_cons_self
  · rw [← Option.some.inj hp,KeyInput.preimage_eq]
    rfl
  · intro b hb
    rw [hashedForKey,hsource,Option.bind_some,htrace]
    exact List.mem_append_right _ hb

/-- The paths that are folded in are those the scans find, each up to the same path. -/
theorem resolveExternalDeps_parts {externals : List String}
    (h : resolveExternalDeps fs roots fuel fixturePath source = some externals) :
    (∀ p ∈ externals, fs.Folds roots fixturePath source p) ∧
      ∀ p, fs.Folds roots fixturePath source p → ∃ q ∈ externals, samePath q p := by
  obtain ⟨⟨out,t⟩,hout,rfl⟩ := Option.map_eq_some_iff.mp h
  obtain ⟨⟨below,t'⟩,hbelow,heq⟩ := Option.map_eq_some_iff.mp hout
  cases heq
  obtain ⟨G,hG,rfl,-⟩ := Survey.walk_walks (fun _ l => l : _ → List String → List String) hbelow
  constructor
  · intro p hp
    obtain hp | hp := List.mem_append.mp (mem_of_mem_dedupe hp)
    · exact .inl hp
    · obtain ⟨⟨path,src⟩,ha,hp⟩ := Forest.mem_fold_append.mp hp
      obtain ⟨r,hr,hload⟩ := hG.reach _ ha
      exact .inr ⟨r,path,src,.of_survey hr,hload,hp⟩
  · intro p hp
    apply exists_mem_dedupe
    obtain hp | ⟨r,path,src,hr,hload,hp⟩ := hp
    · exact List.mem_append_left _ hp
    · have hnode := (hG.covers externalMark_injective.injOn hr.survey).2 _ hload
      exact List.mem_append_right _ (Forest.mem_fold_append.mpr ⟨_,hnode,hp⟩)

theorem resolveExternalDeps_unique {fuel' : ℕ} {externals externals' : List String}
    (h : resolveExternalDeps fs roots fuel fixturePath source = some externals)
    (h' : resolveExternalDeps fs roots fuel' fixturePath source = some externals') :
    externals = externals' := by
  obtain ⟨r,hr,rfl⟩ := Option.map_eq_some_iff.mp h
  obtain ⟨r',hr',rfl⟩ := Option.map_eq_some_iff.mp h'
  obtain ⟨w,hw,rfl⟩ := Option.map_eq_some_iff.mp hr
  obtain ⟨w',hw',rfl⟩ := Option.map_eq_some_iff.mp hr'
  rw [Survey.walk_unique hw hw']

theorem foldFiles_foldedFiles (kernels initrds externals : List String) :
    foldFiles (foldedFiles fs kernels initrds externals) =
      (kernels.map (fun p => (FileRole.kernel,p))++initrds.map (fun p => (FileRole.initrd,p))++
        externals.map fun p => (FileRole.external,p)).flatMap
          fun e => HostFile.folded e.1 ⟨e.2,fs.metadata e.2⟩ := by
  simp only [foldFiles,foldedFiles,KeyInput.files,FileSystem.file,List.flatMap_append,List.flatMap_map,
    List.map_map,Function.comp_def]

end Parts

/-- Where no path contains a header, nothing that is folded in does. -/
theorem FileSystem.PathsPlain.headerFree {ν : Type} {fs : FileSystem ν}
    {roots kernels initrds : List String} {fixturePath : String} {source : Bytes}
    (h : fs.PathsPlain roots kernels initrds fixturePath source) (deps : List CacheKey)
    {externals : List String} (hexternals : ∀ p ∈ externals, fs.Folds roots fixturePath source p) :
    HeaderFree (foldDeps deps++foldFiles (foldedFiles fs kernels initrds externals)) := by
  apply headerFree_parts
  intro e he
  simp only [foldedFiles,KeyInput.files,List.mem_append,List.mem_map] at he
  obtain (⟨_,⟨p,hp,rfl⟩,rfl⟩ | ⟨_,⟨p,hp,rfl⟩,rfl⟩) | ⟨_,⟨p,hp,rfl⟩,rfl⟩ := he
  · exact h.1 p (List.mem_append_left _ hp)
  · exact h.1 p (List.mem_append_right _ hp)
  · exact h.2 p (hexternals p hp)

namespace FileSystem
variable {ν : Type} [DecidableEq ν] {fs : FileSystem ν} {roots kernels initrds : List String}
  {digest : Bytes → CacheKey} {fixturePath : String} {source bytes bytes' : Bytes} {n : ν} {m' : HostMeta}

/-- Which files there are and where is left as it is. -/
theorem locate_put (b : Option Bytes) (r : Reference) : (fs.put n b m').locate roots r = fs.locate roots r := by
  cases r <;> rfl

theorem readFixtureSource_put_self {path : String} {b : Option Bytes} (hnode : fs.node path = some n)
    (hfile : fs.isFile path) : (fs.put n b m').readFixtureSource path = b := by
  have hfile' : (fs.put n b m').isFile path := hfile
  rw [readFixtureSource,if_pos hfile']
  change (fs.node path).bind _ = _
  rw [hnode,Option.bind_some]
  exact Function.update_self ..

theorem readFixtureSource_put_of_ne {path : String} {b : Option Bytes} (hnode : fs.node path ≠ some n) :
    (fs.put n b m').readFixtureSource path = fs.readFixtureSource path := by
  unfold readFixtureSource
  change (if fs.isFile path then (fs.node path).bind _ else none) = _
  cases hpath : fs.node path with
  | none => rfl
  | some k =>
    have hne : k ≠ n := by
      rintro rfl
      exact hnode hpath
    simp only [Option.bind_some,put,Function.update_of_ne hne]

theorem metadata_put_self {path : String} {b : Option Bytes} (hnode : fs.node path = some n) :
    (fs.put n b m').metadata path = some m' := by
  change (fs.node path).map _ = _
  rw [hnode,Option.map_some]
  exact congrArg some (Function.update_self ..)

theorem metadata_put_of_ne {path : String} {b : Option Bytes} (hnode : fs.node path ≠ some n) :
    (fs.put n b m').metadata path = fs.metadata path := by
  change (fs.node path).map _ = (fs.node path).map _
  cases hpath : fs.node path with
  | none => rfl
  | some k =>
    have hne : k ≠ n := by
      rintro rfl
      exact hnode hpath
    rw [Option.map_some,Option.map_some]
    exact congrArg some (Function.update_of_ne hne ..)

/-- A source that is changed remains readable, and nothing else becomes so. -/
theorem load_put_none (hbytes : fs.contents n = some bytes) (r : Reference) :
    fs.load roots r = none ↔ (fs.put n (some bytes') m').load roots r = none := by
  unfold load
  rw [locate_put]
  cases hlocate : fs.locate roots r with
  | none => simp
  | some path =>
    have hfile := isFile_of_locate hlocate
    simp only [Option.bind_some,Option.map_eq_none_iff]
    by_cases hnode : fs.node path = some n
    · rw [readFixtureSource_put_self hnode hfile,readFixtureSource_eq hnode hfile,hbytes]
      simp
    · rw [readFixtureSource_put_of_ne hnode]

theorem survey_touch (mark : Reference → String) :
    (fs.put n (fs.contents n) m').survey roots mark = fs.survey roots mark := by
  have hcontents : (fs.put n (fs.contents n) m').contents = fs.contents := Function.update_eq_self ..
  have hread : (fs.put n (fs.contents n) m').readFixtureSource = fs.readFixtureSource := by
    funext path
    unfold readFixtureSource
    rw [hcontents]
    rfl
  have hload : (fs.put n (fs.contents n) m').load roots = fs.load roots := by
    funext r
    unfold load
    rw [hread,locate_put]
  unfold survey
  rw [hload]

theorem resolveExternalDeps_touch (fuel : ℕ) :
    resolveExternalDeps (fs.put n (fs.contents n) m') roots fuel fixturePath source =
      resolveExternalDeps fs roots fuel fixturePath source := by
  unfold resolveExternalDeps collectExternalDeps
  rw [survey_touch]
  rfl

/-- Another source that is reached, another key. -/
theorem keysDiffer_source (hsource : fs.readFixtureSource fixturePath = some source)
    (hbytes : fs.contents n = some bytes) (hne : bytes' ≠ bytes) (hmarks : fs.MarksApart roots source)
    (hreach : fs.Reachable roots IsText fixturePath source n)
    (hplain : fs.node fixturePath = some n →
      fs.PathsPlain roots kernels initrds fixturePath source ∧
        (fs.put n (some bytes') m').PathsPlain roots kernels initrds fixturePath bytes') :
    KeysDiffer digest roots kernels initrds fixturePath fs (fs.put n (some bytes') m') := by
  intro fuel fuel' key key' hinj hkey hkey' hsame
  obtain ⟨F,s,externals,hF,hexternals,⟨p,hp,rfl,hpre⟩,hhashed⟩ := fixtureKey_parts hkey hsource
  have hfile := isFile_of_read hsource
  by_cases hfix : fs.node fixturePath = some n
  · -- the source itself is told from the other
    have hsource' : (fs.put n (some bytes') m').readFixtureSource fixturePath = some bytes' :=
      readFixtureSource_put_self hfix hfile
    obtain ⟨F',s',externals',-,hexternals',⟨p',hp',rfl,hpre'⟩,-⟩ := fixtureKey_parts hkey' hsource'
    have heq := hinj (.inl hp) (.inr hp') hsame
    obtain ⟨hplain,hplain'⟩ := hplain hfix
    rw [hpre,hpre'] at heq
    obtain ⟨hbytes',-⟩ := source_split (hplain.headerFree _ (resolveExternalDeps_parts hexternals).1)
      (hplain'.headerFree _ (resolveExternalDeps_parts hexternals').1) heq
    rw [readFixtureSource_eq hfix hfile,hbytes] at hsource
    exact hne (hbytes'.symm.trans (Option.some.inj hsource).symm)
  · -- the same keys of dependencies, so the same sources under every mark
    have hsource' : (fs.put n (some bytes') m').readFixtureSource fixturePath = some source := by
      rw [readFixtureSource_put_of_ne hfix,hsource]
    obtain ⟨F',s',externals',hF',-,⟨p',hp',rfl,hpre'⟩,hhashed'⟩ := fixtureKey_parts hkey' hsource'
    have heq := hinj (.inl hp) (.inr hp') hsame
    rw [hpre,hpre'] at heq
    obtain ⟨hdeps,-⟩ := foldDeps_inj (List.append_cancel_left (List.append_cancel_left heq))
    have hsources : F.map Prod.snd = F'.map Prod.snd := by
      refine sources_eq (hinj.mono ?_) hdeps
      rintro b (hb | hb)
      · exact .inl (hhashed b hb)
      · exact .inr (hhashed' b hb)
    have hmark : ((fs.put n (some bytes') m').survey roots dependencyMark).mark =
        (fs.survey roots dependencyMark).mark := rfl
    obtain ⟨-,hagree⟩ := hF.agree hmark (load_put_none hbytes)
      (fun a a' h => congrArg references h) hF' hsources
    obtain hnode | ⟨r,path,hr,hlocate,hnode⟩ := hreach
    · exact hfix hnode
    · have hr := Scanned.of_cited hr
      have hmem := (hF.covers hmarks.injOn hr).1
      obtain hnil | ⟨r',hr',hmark,hload⟩ := hagree _ hmem
      · cases hnil
      · obtain rfl : r' = r := hmarks.injOn hr' hr hmark
        have hfile := isFile_of_locate hlocate
        have hold : fs.load roots r' = some (path,bytes) := by
          rw [load,hlocate,Option.bind_some,readFixtureSource_eq hnode hfile,hbytes,Option.map_some]
        have hnew : (fs.put n (some bytes') m').load roots r' = some (path,bytes') := by
          rw [load,locate_put,hlocate,Option.bind_some,readFixtureSource_put_self hnode hfile,
            Option.map_some]
        change ((fs.load roots r').map Prod.snd) = ((fs.put n (some bytes') m').load roots r').map Prod.snd
          at hload
        rw [hold,hnew] at hload
        exact hne (Option.some.inj hload).symm

/-- Another size or time of a declared file, another key. -/
theorem keysDiffer_external (hsource : fs.readFixtureSource fixturePath = some source)
    (hne : m' ≠ fs.info n)
    (htime : m'.size ≠ (fs.info n).size ∨ 0 ≤ (fs.info n).modified ∨ 0 ≤ m'.modified)
    (hpaths : fs.PathsAgree roots fixturePath source)
    (hdeclared : fs.Declared roots IsText fixturePath source n) :
    KeysDiffer digest roots kernels initrds fixturePath fs (fs.put n (fs.contents n) m') := by
  intro fuel fuel' key key' hinj hkey hkey' hsame
  have hsource' : (fs.put n (fs.contents n) m').readFixtureSource fixturePath = some source := by
    by_cases hfix : fs.node fixturePath = some n
    · have hfile := isFile_of_read hsource
      rw [readFixtureSource_put_self hfix hfile,← readFixtureSource_eq hfix hfile,hsource]
    · rw [readFixtureSource_put_of_ne hfix,hsource]
  obtain ⟨F,s,externals,-,hexternals,⟨p,hp,rfl,hpre⟩,-⟩ := fixtureKey_parts hkey hsource
  obtain ⟨F',s',externals',-,hexternals',⟨p',hp',rfl,hpre'⟩,-⟩ := fixtureKey_parts hkey' hsource'
  rw [resolveExternalDeps_touch] at hexternals'
  obtain rfl := resolveExternalDeps_unique hexternals hexternals'
  have heq := hinj (.inl hp) (.inr hp') hsame
  rw [hpre,hpre'] at heq
  obtain ⟨-,hfiles⟩ := foldDeps_inj (List.append_cancel_left (List.append_cancel_left heq))
  rw [foldFiles_foldedFiles,foldFiles_foldedFiles] at hfiles
  obtain ⟨hfolds,hall⟩ := resolveExternalDeps_parts hexternals
  obtain ⟨q,hq,hnode⟩ := hdeclared.folds
  obtain ⟨q',hq',hsamePath⟩ := hall q hq
  have hnode' : fs.node q' = some n := (hpaths q' q (hfolds q' hq') hq hsamePath).trans hnode
  have hmem : (FileRole.external,q') ∈ kernels.map (fun p => (FileRole.kernel,p))++
      initrds.map (fun p => (FileRole.initrd,p))++externals.map fun p => (FileRole.external,p) :=
    List.mem_append_right _ (List.mem_map_of_mem hq')
  refine folded_ne hne htime ((folded_change_iff ?_ hmem (metadata_of_node hnode')
    (metadata_put_self hnode')).mp hfiles)
  intro path
  by_cases hpath : fs.node path = some n
  · exact .inr ⟨metadata_of_node hpath,metadata_put_self hpath⟩
  · exact .inl (metadata_put_of_ne hpath)

end FileSystem

/-- The computation ends. A change of a source that is reached through texts changes the key, where no
fixture is marked as a module and, if it is the fixture's own source, no path contains a header. So does
a change of the size or the time of an external file that is declared in such a source, where not both
times are before the epoch and paths that compare equal lead to one file. -/
theorem fixtureKey_invalidated {ν : Type} [Finite ν] [DecidableEq ν] {fs : FileSystem ν}
    {roots kernels initrds : List String} {digest : Bytes → CacheKey} {fixturePath : String} {source : Bytes}
    (hsource : fs.readFixtureSource fixturePath = some source) :
    (∃ key n, ∀ m, n ≤ m → fixtureKey digest fs roots kernels initrds fixturePath m = some key) ∧
      (∀ n bytes bytes' m', fs.contents n = some bytes → bytes' ≠ bytes →
        fs.Reachable roots IsText fixturePath source n → fs.MarksApart roots source →
        (fs.node fixturePath = some n → fs.PathsPlain roots kernels initrds fixturePath source ∧
          (fs.put n (some bytes') m').PathsPlain roots kernels initrds fixturePath bytes') →
        KeysDiffer digest roots kernels initrds fixturePath fs (fs.put n (some bytes') m')) ∧
      ∀ n m', m' ≠ fs.info n → fs.Declared roots IsText fixturePath source n →
        m'.size ≠ (fs.info n).size ∨ 0 ≤ (fs.info n).modified ∨ 0 ≤ m'.modified →
        fs.PathsAgree roots fixturePath source →
        KeysDiffer digest roots kernels initrds fixturePath fs (fs.put n (fs.contents n) m') := by
  refine ⟨?_,?_,?_⟩
  · obtain ⟨F,s,hF⟩ := FileSystem.exists_walks fs roots dependencyMark source
    obtain ⟨G,t,hG⟩ := FileSystem.exists_walks fs roots externalMark source
    obtain ⟨n,hn⟩ := hF.walk (emitKey digest)
    obtain ⟨n',hn'⟩ := hG.walk fun a nested => fs.externalsOf (dirOf a.1) a.2++nested
    refine ⟨digest (KeyInput.preimage ⟨source,F.fold (emitKey digest),kernels.map fs.file,
      initrds.map fs.file,(dedupe (fs.externalsOf (dirOf fixturePath) source++
        G.fold fun a nested => fs.externalsOf (dirOf a.1) a.2++nested)).map fs.file⟩),n+n',?_⟩
    intro m hm
    rw [fixtureKey,keyPreimage,hsource,Option.bind_eq_bind,Option.bind_some,resolveDepKeys,
      hn m (by omega),Option.bind_eq_bind,Option.bind_some,resolveExternalDeps,collectExternalDeps,
      hn' m (by omega)]
    rfl
  · intro n bytes bytes' m' hbytes hne hreach hmarks hplain
    exact FileSystem.keysDiffer_source hsource hbytes hne hmarks hreach hplain
  · intro n m' hne hdeclared htime hpaths
    exact FileSystem.keysDiffer_external hsource hne htime hpaths hdeclared

theorem one_lt_size : 1 < 2^64 := by decide

theorem epoch_lt : (0 : ℤ) < 2^63*10^9 := by decide

/-- Files in one directory, by name, with what they hold. -/
def oneDir (files : List (String × Bytes)) : FileSystem (Fin files.length) where
  node p := files.findFinIdx? fun e => "t/"++e.1 == p
  regular _ := true
  contents n := some (files.get n).2
  info n := ⟨1,0,one_lt_size,epoch_lt⟩
  real _ := none
  node_real _ _ h := by cases h
  currentDir := none

/-- A fixture with a helper and an external file. -/
def helperAndFile : FileSystem (Fin 3) :=
  oneDir [("r.fixture.lua",utf8 "require('a') depends_on_file('e')"),("a.lua",utf8 "x"),("e",[])]

/-- What SHA-256 gives of what is hashed here. -/
def helperDigest (b : Bytes) : CacheKey :=
  let a₁ : CacheKey := ⟨utf8 "515686aebc95ab99d4f445dfa24f994eca70c0977132943528d35f51c3bf6cd3",
    by decide +kernel,by decide +kernel⟩
  let a₂ : CacheKey := ⟨utf8 "a634b7552d8dd84ef99b721fb93df4a8e469ba88b4389ce205cd9c015509006e",
    by decide +kernel,by decide +kernel⟩
  let root : CacheKey → ℕ → Bytes := fun k size =>
    utf8 "require('a') depends_on_file('e')"++header++depMark++k.text++utf8 "|external=t/e@"++
      toLeBytes 8 size++utf8 ":"++toLeBytes 16 0
  if b = depPreimage (utf8 "x") [] then a₁
  else if b = depPreimage (utf8 "y") [] then a₂
  else if b = root a₁ 1 then
    ⟨utf8 "0b19aa170a0200a6a3e84dab6bdc7993f053751ae1134b50f4ec26a9537211cb",
      by decide +kernel,by decide +kernel⟩
  else if b = root a₂ 1 then
    ⟨utf8 "8b32b4f6fd8634343551f09c4ed45c0400d96cb7d93129e9cc6f0a7f4af80d53",
      by decide +kernel,by decide +kernel⟩
  else
    ⟨utf8 "3f4fae7ae684b6f0bfe8e6623317a5ac0a5927742f0d2c82ffdb7aaa38cc9ee0",
      by decide +kernel,by decide +kernel⟩

theorem helperAndFile_scanned {r : Reference}
    (h : helperAndFile.Scanned ["t"] (utf8 "require('a') depends_on_file('e')") r) : r = .module "a" := by
  have hrefs : references (utf8 "require('a') depends_on_file('e')") = [.module "a"] := by decide +kernel
  have hload : helperAndFile.load ["t"] (.module "a") = some ("t/a.lua",utf8 "x") := by decide +kernel
  have hnone : references (utf8 "x") = [] := by decide +kernel
  induction h with
  | root hmem =>
    rw [hrefs] at hmem
    exact List.mem_singleton.mp hmem
  | @step r a r' _ hload' hmem ih =>
    subst ih
    obtain rfl := Option.some.inj (hload.symm.trans hload')
    change r' ∈ references (utf8 "x") at hmem
    rw [hnone] at hmem
    cases hmem

theorem helperAndFile_folds {p : String}
    (h : helperAndFile.Folds ["t"] "t/r.fixture.lua" (utf8 "require('a') depends_on_file('e')") p) :
    p = "t/e" := by
  have hown : helperAndFile.externalsOf (dirOf "t/r.fixture.lua")
      (utf8 "require('a') depends_on_file('e')") = ["t/e"] := by decide +kernel
  have hload : helperAndFile.load ["t"] (.module "a") = some ("t/a.lua",utf8 "x") := by decide +kernel
  have hnone : helperAndFile.externalsOf (dirOf "t/a.lua") (utf8 "x") = [] := by decide +kernel
  obtain h | ⟨r,path,src,hr,hload',h⟩ := h
  · rw [hown] at h
    exact List.mem_singleton.mp h
  · obtain rfl := helperAndFile_scanned hr
    cases hload.symm.trans hload'
    rw [hnone] at h
    cases h

/-- No two digests are the same among those of such texts. -/
theorem injOn_of_all {l l' : List Bytes} {digest : Bytes → CacheKey}
    (h : ∀ a ∈ l++l', ∀ b ∈ l++l', digest a = digest b → a = b) :
    Set.InjOn digest {b | b ∈ l ∨ b ∈ l'} :=
  fun _ ha _ hb hab => h _ (List.mem_append.mpr ha) _ (List.mem_append.mpr hb) hab

theorem fixtureKey_invalidated_helperAndFile :
    ∃ key key' key'',
      fixtureKey helperDigest helperAndFile ["t"] [] [] "t/r.fixture.lua" 4 = some key ∧
      fixtureKey helperDigest (helperAndFile.put 1 (some (utf8 "y")) ⟨1,0,by decide,by decide⟩)
        ["t"] [] [] "t/r.fixture.lua" 4 = some key' ∧
      fixtureKey helperDigest (helperAndFile.put 2 (helperAndFile.contents 2) ⟨2,0,by decide,by decide⟩)
        ["t"] [] [] "t/r.fixture.lua" 4 = some key'' ∧ key ≠ key' ∧ key ≠ key'' := by
  have hsource : helperAndFile.readFixtureSource "t/r.fixture.lua" =
      some (utf8 "require('a') depends_on_file('e')") := by decide +kernel
  have htext : IsText (utf8 "require('a') depends_on_file('e')") := by
    unfold IsText
    decide +kernel
  have hcites : Cites (utf8 "require('a') depends_on_file('e')") (.module "a") := by
    refine ⟨[],utf8 "'a') depends_on_file('e')",by decide,⟨[],by simp,by decide +kernel⟩,?_⟩
    exact ⟨[],39,utf8 ") depends_on_file('e')",by simp,by decide,by decide +kernel,by decide +kernel⟩
  have hdeclares : Declares (utf8 "require('a') depends_on_file('e')") "e" := by
    refine ⟨utf8 "require('a') ",utf8 "'e')",.inl ⟨by decide +kernel,⟨[],by simp,by decide +kernel⟩,?_⟩⟩
    exact ⟨[],39,utf8 ")",by simp,by decide,by decide +kernel,by decide +kernel⟩
  obtain ⟨-,hsources,hexternals⟩ :=
    @fixtureKey_invalidated _ _ _ helperAndFile ["t"] [] [] helperDigest _ _ hsource
  have hsource' := hsources 1 (utf8 "x") (utf8 "y") ⟨1,0,by decide,by decide⟩ rfl (by decide +kernel)
    (.inr ⟨.module "a","t/a.lua",.root htext hcites,by decide +kernel,by decide +kernel⟩)
    (fun d m hd _ => by cases helperAndFile_scanned hd)
    (fun hnode => absurd hnode (by decide +kernel))
  have hexternal' := hexternals 2 ⟨2,0,by decide,by decide⟩ (by decide)
    ⟨_,_,"e",.inl ⟨rfl,rfl⟩,htext,hdeclares,by decide +kernel⟩ (.inl (by decide))
    (fun p q hp hq _ => by rw [helperAndFile_folds hp,helperAndFile_folds hq])
  have hkey : (fixtureKey helperDigest helperAndFile ["t"] [] [] "t/r.fixture.lua" 4).isSome := by
    decide +kernel
  have hkey' : (fixtureKey helperDigest (helperAndFile.put 1 (some (utf8 "y"))
      ⟨1,0,by decide,by decide⟩) ["t"] [] [] "t/r.fixture.lua" 4).isSome := by decide +kernel
  have hkey'' : (fixtureKey helperDigest (helperAndFile.put 2 (helperAndFile.contents 2)
      ⟨2,0,by decide,by decide⟩) ["t"] [] [] "t/r.fixture.lua" 4).isSome := by decide +kernel
  obtain ⟨key,hkey⟩ := Option.isSome_iff_exists.mp hkey
  obtain ⟨key',hkey'⟩ := Option.isSome_iff_exists.mp hkey'
  obtain ⟨key'',hkey''⟩ := Option.isSome_iff_exists.mp hkey''
  refine ⟨key,key',key'',hkey,hkey',hkey'',?_,?_⟩
  · exact hsource' 4 4 key key' (injOn_of_all (by decide +kernel)) hkey hkey'
  · exact hexternal' 4 4 key key'' (injOn_of_all (by decide +kernel)) hkey hkey''

/-- A fixture that requires a helper with one byte that is not UTF-8, and what the helper requires. -/
def latinHelper : FileSystem (Fin 3) :=
  oneDir [("r.fixture.lua",utf8 "require('a')"),("a.lua",255::utf8 "require('b')"),("b.lua",utf8 "x")]

/-- All that is found of them. -/
theorem latinHelper_key (digest : Bytes → CacheKey) {fs : FileSystem (Fin 3)}
    (hsource : fs.readFixtureSource "t/r.fixture.lua" = some (utf8 "require('a')"))
    (hload : fs.load ["t"] (.module "a") = some ("t/a.lua",255::utf8 "require('b')"))
    (hexternals : resolveExternalDeps fs ["t"] 4 "t/r.fixture.lua" (utf8 "require('a')") = some []) :
    fixtureKey digest fs ["t"] [] [] "t/r.fixture.lua" 4 =
      some (digest (depPreimage (utf8 "require('a')")
        [digest (depPreimage (255::utf8 "require('b')") [])])) := by
  have hrefs : references (utf8 "require('a')") = [.module "a"] := by decide +kernel
  have hnone : references (255::utf8 "require('b')") = [] := by decide +kernel
  have hdeps : resolveDepKeys digest fs ["t"] 4 (utf8 "require('a')") [] =
      some ([digest (depPreimage (255::utf8 "require('b')") [])],["require::a"]) := by
    simp [resolveDepKeys,Survey.walk,FileSystem.survey,hrefs,hload,hnone,emitKey,dependencyMark]
  rw [fixtureKey,keyPreimage,hsource,Option.bind_eq_bind,Option.bind_some,hdeps,Option.bind_eq_bind,
    Option.bind_some,hexternals]
  rfl

/-- The key does not change with what the helper requires, whatever the digest. -/
theorem latinHelper_untracked :
    latinHelper.Reachable ["t"] (fun _ => True) "t/r.fixture.lua" (utf8 "require('a')") 2 ∧
      latinHelper.contents 2 = some (utf8 "x") ∧ utf8 "y" ≠ utf8 "x" ∧
      ∀ digest, ∃ key,
        fixtureKey digest latinHelper ["t"] [] [] "t/r.fixture.lua" 4 = some key ∧
        fixtureKey digest (latinHelper.put 2 (some (utf8 "y")) ⟨1,0,by decide,by decide⟩)
          ["t"] [] [] "t/r.fixture.lua" 4 = some key := by
  have hload : latinHelper.load ["t"] (.module "a") = some ("t/a.lua",255::utf8 "require('b')") := by
    decide +kernel
  refine ⟨.inr ⟨.module "b","t/b.lua",.step (.root trivial ?_) hload trivial ?_,by decide +kernel,
    by decide +kernel⟩,rfl,by decide +kernel,?_⟩
  · refine ⟨[],utf8 "'a')",by decide,⟨[],by simp,by decide +kernel⟩,?_⟩
    exact ⟨[],39,utf8 ")",by simp,by decide,by decide +kernel,by decide +kernel⟩
  · refine ⟨[255],utf8 "'b')",by decide,⟨[],by simp,by decide +kernel⟩,?_⟩
    exact ⟨[],39,utf8 ")",by simp,by decide,by decide +kernel,by decide +kernel⟩
  · intro digest
    exact ⟨_,latinHelper_key digest (by decide +kernel) hload (by decide +kernel),
      latinHelper_key digest (by decide +kernel) (by decide +kernel) (by decide +kernel)⟩

end Provium.Fixture
