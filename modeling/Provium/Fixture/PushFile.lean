import Provium.Fixture.Invalidation

/-! Where `vm:push_file` reads its file, `resolve_caller_relative` of `vm_ud.rs`, and where the scan of the
source says that it does. The one goes by the functions on the Lua stack, if the state shows them, and the
other by the source that the call is written in. -/
namespace Provium.Fixture
open Lib

/-- `Path::file_name`. -/
def fileName (p : String) : Option String :=
  match (trimTail p.toList.reverse).takeWhile (· ≠ '/') with
  | [] | ['.'] | ['.','.'] => none
  | r => some (String.ofList r.reverse)

/-- `canonicalize`, or the path as it is. -/
def FileSystem.canonical {ν : Type} (fs : FileSystem ν) (p : String) : String := (fs.real p).getD p

/-- What Lua shows to a function that it has called. -/
structure LuaCall where
  /-- Whether there is the `debug` library. `Lua::new` loads the libraries that are safe, and it is none. -/
  debug : Bool
  /-- The `source` of each level of the stack, from level 1. -/
  levels : List String
  /-- `_PROVIUM_SOURCE_PATH` -/
  sourcePath : Option String
  deriving DecidableEq, Repr

/-- The directory of a chunk that is backed by a file. -/
def chunkDir (source : String) : Option String :=
  match source.toList with
  | '@'::file => parent (String.ofList file)
  | _ => none

namespace LuaCall

/-- The walk over the stack, levels 1 to 15. -/
def callerDir (s : LuaCall) : Option String :=
  if s.debug then (s.levels.take 15).findSome? chunkDir else none

def resolveCallerRelative (s : LuaCall) (raw : String) : String :=
  if isAbsolute raw then raw
  else match s.callerDir with
    | some dir => pathJoin dir raw
    | none =>
      match s.sourcePath.bind parent with
      | some dir => pathJoin dir raw
      | none => raw

end LuaCall

/-- The chunk of a function on the stack. -/
inductive Chunk where
  | fixture
  /-- Of a helper, which `require` has loaded from this path. -/
  | helper (path : String)
  /-- Of a C function, or of a text that was loaded. -/
  | other (source : String)
  deriving DecidableEq, Repr

namespace Chunk

/-- The name that the chunk was loaded under. -/
def source (fixturePath : String) : Chunk → String
  | .fixture => (fileName fixturePath).getD "fixture.lua"
  | .helper path => "@"++path
  | .other source => source

def dir (fixturePath : String) (c : Chunk) : Option String := chunkDir (c.source fixturePath)

end Chunk

/-- A chain of helpers from a source. -/
inductive FileSystem.Helper {ν : Type} (fs : FileSystem ν) (roots : List String) (source : Bytes) :
    String → Prop
  | root {m} : .module m ∈ references source → Helper fs roots source m
  | step {m path src m'} : Helper fs roots source m → fs.load roots (.module m) = some (path,src) →
      .module m' ∈ references src → Helper fs roots source m'

/-- A call of `push_file` with a literal, in a fixture or in a helper, where `require` finds the file that
the scan has found. -/
structure CallSite {ν : Type} (fs : FileSystem ν) (roots : List String) (require : String → Option String)
    (fixturePath : String) (source : Bytes) where
  path : String
  src : Bytes
  chunk : Chunk
  /-- What stands between the quotation marks. -/
  raw : String
  /-- And what Lua makes of it. -/
  value : String
  place : (path = fixturePath ∧ src = source ∧ chunk = .fixture) ∨ ∃ m loaded,
    fs.Helper roots source m ∧ fs.load roots (.module m) = some (path,src) ∧ require m = some loaded ∧
      fs.node loaded = fs.node path ∧ chunk = .helper loaded
  literal : raw ∈ inOrder (scanPushFileCalls (textOf src))
  plain : '\\' ∉ raw.toList → value = raw

namespace CallSite
variable {ν : Type} {fs : FileSystem ν} {roots : List String} {require : String → Option String}
  {fixturePath : String} {source : Bytes} (c : CallSite fs roots require fixturePath source)

/-- The call when it is made, below these functions. -/
def lua (debug : Bool) (callers : List Chunk) : LuaCall where
  debug
  levels := "=[C]"::(c.chunk::callers).map (Chunk.source fixturePath)
  sourcePath := some (fs.canonical fixturePath)

/-- The path that `push_file` opens. -/
def opened (debug : Bool) (callers : List Chunk) : String :=
  (c.lua debug callers).resolveCallerRelative c.value

/-- The path that `collect_external_deps` resolves for the call. -/
def tracked : String := fs.externalPath (dirOf c.path) c.raw

/-- The directory is the one of the call's source: it is spelled alike, or `canonicalize` finds the same in
both under every name, and it does find the file. -/
def Beside (dir : String) : Prop :=
  dir = dirOf c.path ∨ (∀ name, fs.real (pathJoin dir name) = fs.real (pathJoin (dirOf c.path) name)) ∧
    (fs.real (pathJoin (dirOf c.path) c.raw)).isSome

/-- What the stack shows first: no other directory than that of the source. By the chunk that holds the
call, and those of the functions above it. -/
inductive Home (debug : Bool) (callers : List Chunk) : Prop
  /-- The call is in a helper, which was loaded from the directory where the scan has read it. -/
  | own {dir} (hdebug : debug = true) (hown : c.chunk.dir fixturePath = some dir) (h : c.Beside dir)
  /-- It is in the fixture, called back from a helper in the fixture's directory. -/
  | above {dir pre f post} (hdebug : debug = true) (hown : c.chunk.dir fixturePath = none)
      (hcallers : callers = pre++f::post) (hpre : ∀ g ∈ pre, g.dir fixturePath = none)
      (hreach : pre.length < 13) (hdir : f.dir fixturePath = some dir) (h : c.Beside dir)
  /-- No chunk that the walk sees is of a file, and the source is beside what the fixture's path stands for. -/
  | top (hstack : debug = true → ∀ f ∈ c.chunk::callers.take 13, f.dir fixturePath = none)
      (h : c.Beside ((parent (fs.canonical fixturePath)).getD ""))

/-- When the paths agree: the literal has no escape, and it is absolute or the directories are one. -/
def Agrees (debug : Bool) (callers : List Chunk) : Prop :=
  c.value = c.raw ∧ (isAbsolute c.raw ∨ c.Home debug callers)

/-- The directories of the chunks on the stack, and the one of the fixture's canonical path. -/
def directories (callers : List Chunk) : List String :=
  (parent (fs.canonical fixturePath)).getD ""::(c.chunk::callers).filterMap (Chunk.dir fixturePath)

/-- The file that the literal leads to from its source is not also to be had from another of the
directories, by a link. -/
def Apart (callers : List Chunk) : Prop :=
  ∀ dir ∈ c.directories callers, fs.externalPath dir c.value = fs.externalPath (dirOf c.path) c.raw →
    c.value = c.raw ∧ (isAbsolute c.raw ∨ c.Beside dir)

end CallSite

theorem pathJoin_empty (raw : String) : pathJoin "" raw = raw := by
  simp [pathJoin,joinPath]

/-- The directory that the path is resolved against. -/
theorem LuaCall.resolveCallerRelative_eq (s : LuaCall) (raw : String) :
    s.resolveCallerRelative raw = pathJoin (s.callerDir.getD ((s.sourcePath.bind parent).getD "")) raw := by
  unfold resolveCallerRelative
  split
  · next habs => rw [pathJoin,if_pos habs]
  · cases s.callerDir with
    | some dir => rfl
    | none =>
      cases s.sourcePath.bind parent with
      | some dir => rfl
      | none => exact (pathJoin_empty raw).symm

theorem FileSystem.canonical_pathJoin {ν : Type} (fs : FileSystem ν) (dir raw : String) :
    fs.canonical (pathJoin dir raw) = fs.externalPath dir raw := by
  unfold externalPath canonical pathJoin
  simp only [ite_self,apply_ite]
  split <;> rfl

namespace FileSystem
variable {ν : Type} {fs : FileSystem ν} {roots : List String} {source : Bytes}

theorem Helper.scanned {m : String} (h : fs.Helper roots source m) : fs.Scanned roots source (.module m) := by
  induction h with
  | root hmem => exact .root hmem
  | step _ hload hmem ih => exact .step ih hload hmem

end FileSystem

theorem mem_scanExternalFileDeps_of_push {text : Bytes} {raw : String}
    (h : raw ∈ inOrder (scanPushFileCalls text)) : raw ∈ scanExternalFileDeps text := by
  obtain ⟨hit,hmem,hraw⟩ := List.mem_filterMap.mp h
  have hmem := (List.mem_insertionSort _).mp hmem
  exact List.mem_filterMap.mpr ⟨hit,(List.mem_insertionSort _).mpr (List.mem_append_left _ hmem),hraw⟩

namespace CallSite
variable {ν : Type} {fs : FileSystem ν} {roots : List String} {require : String → Option String}
  {fixturePath : String} {source : Bytes} (c : CallSite fs roots require fixturePath source)

/-- The scan collects the call's path. -/
theorem tracked_mem {fuel : ℕ} {out seen : List String}
    (h : collectExternalDeps fs roots fuel (dirOf fixturePath) source [] = some (out,seen)) :
    c.tracked ∈ out := by
  obtain ⟨⟨below,t⟩,hbelow,heq⟩ := Option.map_eq_some_iff.mp h
  cases heq
  have hown : c.tracked ∈ fs.externalsOf (dirOf c.path) c.src :=
    List.mem_map_of_mem (mem_scanExternalFileDeps_of_push c.literal)
  obtain ⟨hpath,hsrc,-⟩ | ⟨m,loaded,hm,hload,-⟩ := c.place
  · rw [hpath,hsrc] at hown
    exact List.mem_append_left _ hown
  · obtain ⟨G,hG,rfl,-⟩ := Survey.walk_walks (fun _ l => l : _ → List String → List String) hbelow
    have hnode := (hG.covers externalMark_injective.injOn hm.scanned.survey).2 _ hload
    exact List.mem_append_right _ (Forest.mem_fold_append.mpr ⟨_,hnode,hown⟩)

theorem callerDir_lua (debug : Bool) (callers : List Chunk) : (c.lua debug callers).callerDir =
    if debug then (c.chunk.dir fixturePath).or ((callers.take 13).findSome? (Chunk.dir fixturePath))
    else none := by
  have hnative : chunkDir "=[C]" = none := by decide
  unfold LuaCall.callerDir lua
  simp only [List.map_cons,List.take_succ_cons,List.findSome?_cons,hnative,← List.map_take,
    List.findSome?_map]
  unfold Chunk.dir
  cases chunkDir (c.chunk.source fixturePath) <;> rfl

theorem canonical_opened (debug : Bool) (callers : List Chunk) :
    fs.canonical (c.opened debug callers) = fs.externalPath ((c.lua debug callers).callerDir.getD
      ((parent (fs.canonical fixturePath)).getD "")) c.value := by
  rw [opened,LuaCall.resolveCallerRelative_eq,FileSystem.canonical_pathJoin]
  rfl

theorem externalPath_of_absolute {raw : String} (h : isAbsolute raw) (dir dir' : String) :
    fs.externalPath dir raw = fs.externalPath dir' raw := by
  simp only [FileSystem.externalPath,if_pos h]

/-- From the source's own directory every literal leads to the file that the scan has found. -/
theorem externalPath_of_beside {dir : String} (h : c.Beside dir) : fs.externalPath dir c.raw = c.tracked := by
  rw [tracked,← FileSystem.canonical_pathJoin,← FileSystem.canonical_pathJoin]
  obtain rfl | ⟨hreal,hfile⟩ := h
  · rfl
  · obtain ⟨p,hp⟩ := Option.isSome_iff_exists.mp hfile
    rw [FileSystem.canonical,FileSystem.canonical,hreal,hp,Option.getD_some,Option.getD_some]

/-- The directory that the walk comes to, or the fixture's. -/
def walked (debug : Bool) (callers : List Chunk) : String :=
  (c.lua debug callers).callerDir.getD ((parent (fs.canonical fixturePath)).getD "")

theorem walked_mem (debug : Bool) (callers : List Chunk) :
    c.walked debug callers ∈ c.directories callers := by
  unfold walked directories
  rw [callerDir_lua]
  cases debug with
  | false => exact List.mem_cons_self
  | true =>
    rw [if_pos rfl]
    cases hown : c.chunk.dir fixturePath with
    | some dir =>
      exact List.mem_cons_of_mem _ (List.mem_filterMap.mpr ⟨c.chunk,List.mem_cons_self,hown⟩)
    | none =>
      cases habove : (callers.take 13).findSome? (Chunk.dir fixturePath) with
      | none => exact List.mem_cons_self
      | some dir =>
        obtain ⟨f,hf,hdir⟩ := List.exists_of_findSome?_eq_some habove
        have hmem : f ∈ c.chunk::callers := List.mem_cons_of_mem _ (List.mem_of_mem_take hf)
        exact List.mem_cons_of_mem _ (List.mem_filterMap.mpr ⟨f,hmem,hdir⟩)

/-- The directory of the walk is the source's where the stack is one of the three kinds. -/
theorem beside_walked_iff (debug : Bool) (callers : List Chunk) :
    c.Beside (c.walked debug callers) ↔ c.Home debug callers := by
  have hwalked : c.walked debug callers = (if debug then (c.chunk.dir fixturePath).or
      ((callers.take 13).findSome? (Chunk.dir fixturePath)) else none).getD
        ((parent (fs.canonical fixturePath)).getD "") := by
    rw [walked,callerDir_lua]
  rw [hwalked]
  constructor
  · intro h
    cases debug with
    | false => exact .top (fun hd => by cases hd) h
    | true =>
      cases hown : c.chunk.dir fixturePath with
      | some dir =>
        rw [hown] at h
        exact .own rfl hown h
      | none =>
        rw [hown] at h
        cases habove : (callers.take 13).findSome? (Chunk.dir fixturePath) with
        | none =>
          rw [habove] at h
          refine .top (fun _ => ?_) h
          exact List.forall_mem_cons.mpr ⟨hown,List.findSome?_eq_none_iff.mp habove⟩
        | some dir =>
          rw [habove] at h
          obtain ⟨pre,f,post,htake,hdir,hpre⟩ := List.findSome?_eq_some_iff.mp habove
          have hlen := congrArg List.length htake
          rw [List.length_take,List.length_append,List.length_cons] at hlen
          have hcallers : callers = pre++f::(post++callers.drop 13) := by
            rw [← List.cons_append,← List.append_assoc,← htake,List.take_append_drop]
          exact .above rfl hown hcallers hpre (by omega) hdir h
  · intro h
    cases h with
    | own hdebug hown h =>
      rw [hdebug,hown]
      exact h
    | @above dir pre f post hdebug hown hcallers hpre hreach hdir h =>
      have habove : (callers.take 13).findSome? (Chunk.dir fixturePath) = some dir := by
        obtain ⟨n,hn⟩ := Nat.exists_eq_add_of_lt hreach
        rw [hcallers,List.take_append,List.take_of_length_le hreach.le,List.findSome?_append,
          List.findSome?_eq_none_iff.mpr hpre,hn,Nat.add_assoc,Nat.add_sub_cancel_left,
          List.take_succ_cons,List.findSome?_cons,hdir]
        rfl
      rw [hdebug,hown,habove]
      exact h
    | top hstack h =>
      cases debug with
      | false => exact h
      | true =>
        obtain ⟨hown,habove⟩ := List.forall_mem_cons.mp (hstack rfl)
        rw [hown,List.findSome?_eq_none_iff.mpr habove]
        exact h

/-- The scan collects a path for the call. `push_file` opens that one where the directories agree, and no
other way, unless a link leads to the file from another directory. -/
theorem opens_tracked_iff (debug : Bool) (callers : List Chunk) :
    (∀ fuel out seen, collectExternalDeps fs roots fuel (dirOf fixturePath) source [] = some (out,seen) →
      c.tracked ∈ out) ∧
    (c.Agrees debug callers → fs.canonical (c.opened debug callers) = c.tracked) ∧
    (c.Apart callers →
      (fs.canonical (c.opened debug callers) = c.tracked ↔ c.Agrees debug callers)) := by
  have hagrees : c.Agrees debug callers → fs.canonical (c.opened debug callers) = c.tracked := by
    rintro ⟨hvalue,hdir⟩
    rw [canonical_opened,hvalue]
    obtain habs | hhome := hdir
    · exact externalPath_of_absolute habs _ _
    · exact c.externalPath_of_beside ((c.beside_walked_iff debug callers).mpr hhome)
  refine ⟨fun fuel out seen => c.tracked_mem,hagrees,fun hapart => ⟨?_,hagrees⟩⟩
  intro h
  rw [canonical_opened] at h
  obtain ⟨hvalue,hdir⟩ := hapart _ (c.walked_mem debug callers) h
  exact ⟨hvalue,hdir.imp_right (c.beside_walked_iff debug callers).mp⟩

end CallSite

/-- A fixture and a helper in another directory, each with a call. -/
def pushBoth : FileSystem (Fin 2) :=
  oneDir [("r.fixture.lua",utf8 "require('l.p') push_file('i','/i')"),("l/p.lua",utf8 "push_file('i','/i')")]

/-- The fixture's call, and the helper's. -/
def fixtureCall : CallSite pushBoth ["t"] (fun _ => some "t/l/p.lua") "t/r.fixture.lua"
    (utf8 "require('l.p') push_file('i','/i')") where
  path := "t/r.fixture.lua"
  src := utf8 "require('l.p') push_file('i','/i')"
  chunk := .fixture
  raw := "i"
  value := "i"
  place := .inl ⟨rfl,rfl,rfl⟩
  literal := by decide +kernel
  plain _ := rfl

def helperCall : CallSite pushBoth ["t"] (fun _ => some "t/l/p.lua") "t/r.fixture.lua"
    (utf8 "require('l.p') push_file('i','/i')") where
  path := "t/l/p.lua"
  src := utf8 "push_file('i','/i')"
  chunk := .helper "t/l/p.lua"
  raw := "i"
  value := "i"
  place := .inr ⟨"l.p","t/l/p.lua",.root (by decide +kernel),by decide +kernel,rfl,rfl,rfl⟩
  literal := by decide +kernel
  plain _ := rfl

/-- With the `debug` library the helper's call reads t/l/i, whatever is above it. -/
theorem opens_tracked_beside_helper :
    pushBoth.canonical (helperCall.opened true [.fixture]) = helperCall.tracked := by
  have hown : helperCall.chunk.dir "t/r.fixture.lua" = some "t/l" := by decide +kernel
  have hbeside : helperCall.Beside "t/l" := .inl (by decide +kernel)
  have hdirs : helperCall.directories [.fixture] = ["t","t/l"] := by decide +kernel
  have hlinks : pushBoth.externalPath "t" "i" ≠ pushBoth.externalPath (dirOf "t/l/p.lua") "i" := by
    decide +kernel
  have hapart : helperCall.Apart [.fixture] := by
    intro dir hdir h
    rw [hdirs] at hdir
    obtain rfl | hdir := List.mem_cons.mp hdir
    · exact absurd h hlinks
    · rw [List.mem_singleton.mp hdir]
      exact ⟨rfl,.inr hbeside⟩
  exact ((helperCall.opens_tracked_iff true [.fixture]).2.2 hapart).mpr ⟨rfl,.inr (.own rfl hown hbeside)⟩

/-- Without the `debug` library the helper's call reads t/i, beside the fixture, and with it the fixture's
call reads t/l/i, beside the helper, where it is in a function that the helper calls back. -/
theorem pushes_from_elsewhere :
    pushBoth.canonical (helperCall.opened false [.fixture]) ≠ helperCall.tracked ∧
      pushBoth.canonical (fixtureCall.opened true [.helper "t/l/p.lua",.fixture]) ≠ fixtureCall.tracked := by
  decide +kernel

end Provium.Fixture
