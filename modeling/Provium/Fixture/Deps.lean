import Provium.Lib.Survey
import Provium.Fixture.Files
import Provium.Fixture.Split

/-! What the key of a fixture depends on, `lab_ud.rs`: the fixtures and the helpers it refers to, and
those they refer to, and the external files that any of them declares. -/
namespace Provium.Fixture
open Lib

namespace FileSystem
variable {ν : Type} (fs : FileSystem ν) (roots : List String)

/-- The files that sources refer to. Only the marks of what has been seen differ between the walks. -/
def survey (mark : Reference → String) : Survey Reference String (String × Bytes) where
  mark := mark
  load := fs.load roots
  refs a := references a.2

/-- The paths of the external files declared in a source in this directory. -/
def externalsOf (dir : String) (source : Bytes) : List String :=
  (scanExternalFileDeps (textOf source)).map (fs.externalPath dir)

end FileSystem

/-- What `compute_key_with_deps` feeds to SHA-256. -/
def depPreimage (source : Bytes) (deps : List CacheKey) : Bytes :=
  KeyInput.preimage ⟨source,deps,[],[],[]⟩

/-- The marks of `resolve_dep_keys`. -/
def dependencyMark : Reference → String
  | .fixture name => name
  | .module name => "require::"++name

/-- The marks of `collect_external_deps`. -/
def externalMark : Reference → String
  | .fixture name => "ext::fixture::"++name
  | .module name => "ext::require::"++name

/-- Among the paths kept so far none is the same. -/
def dedupe (out : List String) : List String :=
  out.foldl (fun kept p => if kept.any (samePath · p) then kept else kept++[p]) []

/-- The key of a file, from its source and the keys of what it refers to. -/
def emitKey (digest : Bytes → CacheKey) (a : String × Bytes) (nested : List CacheKey) : List CacheKey :=
  [digest (depPreimage a.2 nested)]

/-- The key with all that is hashed on the way to it. -/
def emitTrace (digest : Bytes → CacheKey) (a : String × Bytes) (nested : List (CacheKey × List Bytes)) :
    List (CacheKey × List Bytes) :=
  let p := depPreimage a.2 (nested.map Prod.fst)
  [(digest p,p::nested.flatMap Prod.snd)]

section Resolve
variable {ν : Type} (digest : Bytes → CacheKey) (fs : FileSystem ν) (roots kernels initrds : List String)

def resolveDepKeys (fuel : ℕ) (source : Bytes) (seen : List String) :
    Option (List CacheKey × List String) :=
  (fs.survey roots dependencyMark).walk (emitKey digest) fuel (references source) seen

def collectExternalDeps (fuel : ℕ) (dir : String) (source : Bytes) (seen : List String) :
    Option (List String × List String) :=
  ((fs.survey roots externalMark).walk (fun a nested => fs.externalsOf (dirOf a.1) a.2++nested) fuel
    (references source) seen).map fun r => (fs.externalsOf dir source++r.1,r.2)

def resolveExternalDeps (fuel : ℕ) (fixturePath : String) (source : Bytes) : Option (List String) :=
  (collectExternalDeps fs roots fuel (dirOf fixturePath) source []).map fun r => dedupe r.1

/-- What the key of a fixture is computed from, for the images of the profiles. -/
def keyPreimage (fixturePath : String) (fuel : ℕ) : Option Bytes := do
  let source ← fs.readFixtureSource fixturePath
  let (deps,_) ← resolveDepKeys digest fs roots fuel source []
  let externals ← resolveExternalDeps fs roots fuel fixturePath source
  some (KeyInput.preimage
    ⟨source,deps,kernels.map fs.file,initrds.map fs.file,externals.map fs.file⟩)

def fixtureKey (fixturePath : String) (fuel : ℕ) : Option CacheKey :=
  (keyPreimage digest fs roots kernels initrds fixturePath fuel).map digest

def traceDepKeys (fuel : ℕ) (source : Bytes) (seen : List String) :
    Option (List (CacheKey × List Bytes) × List String) :=
  (fs.survey roots dependencyMark).walk (emitTrace digest) fuel (references source) seen

/-- All that is hashed for the key of a fixture. -/
def hashedForKey (fixturePath : String) (fuel : ℕ) : List Bytes :=
  (keyPreimage digest fs roots kernels initrds fixturePath fuel).toList++
    (((fs.readFixtureSource fixturePath).bind fun source =>
      traceDepKeys digest fs roots fuel source []).elim [] fun r => r.1.flatMap Prod.snd)

end Resolve

/-! The keys of a forest of sources tell the forest. -/

theorem depPreimage_eq (source : Bytes) (deps : List CacheKey) :
    depPreimage source deps = source++(header++foldDeps deps) := by
  rw [depPreimage,KeyInput.preimage_eq]
  change source++(header++(foldDeps deps++foldFiles [])) = _
  rw [show foldFiles [] = [] from rfl,List.append_nil]

theorem foldDeps_injective {ds ds' : List CacheKey} (h : foldDeps ds = foldDeps ds') : ds = ds' := by
  have h : foldDeps ds++foldFiles [] = foldDeps ds'++foldFiles [] := by rw [h]
  exact (foldDeps_inj h).1

theorem depPreimage_inj {source source' : Bytes} {ds ds' : List CacheKey}
    (h : depPreimage source ds = depPreimage source' ds') : source = source' ∧ ds = ds' := by
  rw [depPreimage_eq,depPreimage_eq] at h
  obtain ⟨hs,hd⟩ := source_split (headerFree_foldDeps ds) (headerFree_foldDeps ds') h
  exact ⟨hs,foldDeps_injective hd⟩

section Keys
variable (digest : Bytes → CacheKey)

theorem fold_emitTrace (F : Forest (String × Bytes)) :
    (F.fold (emitTrace digest)).map Prod.fst = F.fold (emitKey digest) := by
  induction F with
  | nil => rfl
  | cons a below rest ihb ihr =>
    rw [Forest.fold,Forest.fold,List.map_append,ihr,emitTrace,emitKey,ihb]
    rfl

/-- All that is hashed in a forest. -/
def hashedIn (F : Forest (String × Bytes)) : List Bytes := (F.fold (emitTrace digest)).flatMap Prod.snd

theorem hashedIn_cons (a : String × Bytes) (below rest : Forest (String × Bytes)) :
    hashedIn digest (.cons a below rest) =
      depPreimage a.2 (below.fold (emitKey digest))::(hashedIn digest below++hashedIn digest rest) := by
  rw [hashedIn,Forest.fold,List.flatMap_append,emitTrace,fold_emitTrace]
  simp [hashedIn]

variable {digest}

/-- Where no two texts that are hashed have one digest, equal keys are keys of equal sources. -/
theorem sources_eq {F F' : Forest (String × Bytes)}
    (hinj : Set.InjOn digest {b | b ∈ hashedIn digest F ∨ b ∈ hashedIn digest F'})
    (h : F.fold (emitKey digest) = F'.fold (emitKey digest)) : F.map Prod.snd = F'.map Prod.snd := by
  induction F generalizing F' with
  | nil =>
    cases F' with
    | nil => rfl
    | cons a' below' rest' => cases h
  | cons a below rest ihb ihr =>
    cases F' with
    | nil => cases h
    | cons a' below' rest' =>
      simp only [hashedIn_cons] at hinj
      obtain ⟨hkey,hrest⟩ := List.cons.inj h
      have hpre := hinj (.inl List.mem_cons_self) (.inr List.mem_cons_self) hkey
      obtain ⟨hsource,hbelow⟩ := depPreimage_inj hpre
      have hb := ihb (hinj.mono ?_) hbelow
      · have hr := ihr (hinj.mono ?_) hrest
        · rw [Forest.map,Forest.map,hsource,hb,hr]
        · rintro b (hb | hb)
          · exact .inl (List.mem_cons_of_mem _ (List.mem_append_right _ hb))
          · exact .inr (List.mem_cons_of_mem _ (List.mem_append_right _ hb))
      · rintro b (hb | hb)
        · exact .inl (List.mem_cons_of_mem _ (List.mem_append_left _ hb))
        · exact .inr (List.mem_cons_of_mem _ (List.mem_append_left _ hb))

end Keys

section Dedupe

theorem dedupe_go (out kept : List String) :
    (∀ p ∈ kept, p ∈ out.foldl (fun kept p => if kept.any (samePath · p) then kept else kept++[p]) kept) ∧
      (∀ p ∈ out, ∃ q ∈ out.foldl (fun kept p => if kept.any (samePath · p) then kept else kept++[p]) kept,
        samePath q p) ∧
      ∀ p ∈ out.foldl (fun kept p => if kept.any (samePath · p) then kept else kept++[p]) kept,
        p ∈ kept ∨ p ∈ out := by
  induction out generalizing kept with
  | nil => exact ⟨fun p hp => hp,by simp,fun p hp => .inl hp⟩
  | cons c out ih =>
    rw [List.foldl_cons]
    split
    · next hany =>
      obtain ⟨hkeep,hall,hsub⟩ := ih kept
      refine ⟨hkeep,List.forall_mem_cons.mpr ⟨?_,hall⟩,?_⟩
      · obtain ⟨q,hq,hsame⟩ := List.any_eq_true.mp hany
        exact ⟨q,hkeep q hq,hsame⟩
      · intro p hp
        obtain hp | hp := hsub p hp
        · exact .inl hp
        · exact .inr (List.mem_cons_of_mem _ hp)
    · obtain ⟨hkeep,hall,hsub⟩ := ih (kept++[c])
      refine ⟨fun p hp => hkeep p (List.mem_append_left _ hp),List.forall_mem_cons.mpr ⟨?_,hall⟩,?_⟩
      · refine ⟨c,hkeep c (List.mem_append_right _ List.mem_cons_self),?_⟩
        simp [samePath]
      · intro p hp
        obtain hp | hp := hsub p hp
        · obtain hp | hp := List.mem_append.mp hp
          · exact .inl hp
          · obtain rfl := List.mem_singleton.mp hp
            exact .inr List.mem_cons_self
        · exact .inr (List.mem_cons_of_mem _ hp)

/-- Of each path one that is the same is kept. -/
theorem exists_mem_dedupe {out : List String} {p : String} (hp : p ∈ out) :
    ∃ q ∈ dedupe out, samePath q p := (dedupe_go out []).2.1 p hp

theorem mem_of_mem_dedupe {out : List String} {p : String} (hp : p ∈ dedupe out) : p ∈ out :=
  ((dedupe_go out []).2.2 p hp).resolve_left List.not_mem_nil

end Dedupe

end Provium.Fixture
