import Provium.Fixture.Images
import Provium.Fixture.Scan

/-! Paths, the files they lead to, and where fixtures and helpers are looked for, `lab_ud.rs`. -/
namespace Provium.Fixture

/-- `Path::is_absolute`. -/
def isAbsolute (p : String) : Bool := p.toList.head? == some '/'

/-- `Path::join`; an absolute path replaces what it is joined to. -/
def pathJoin (a b : String) : String := if isAbsolute b then b else joinPath a b

/-- Without the slashes and the dots at the end, which is the front here. -/
def trimTail : List Char → List Char
  | '/' :: r => trimTail r
  | '.' :: '/' :: r => trimTail ('/' :: r)
  | r => r

/-- `Path::parent`. -/
def parent (p : String) : Option String :=
  match trimTail p.toList.reverse with
  | [] => none
  | r =>
    match trimTail (r.dropWhile (· ≠ '/')) with
    | [] => some (if isAbsolute p then "/" else "")
    | dir => some (String.ofList dir.reverse)

def dirOf (p : String) : String := (parent p).getD "."

/-- The parts of a path that tell it from others: whether it is absolute, and its components. -/
def components (p : String) : Bool × List (List Char) :=
  let parts := (p.toList.splitOn '/').filter (· ≠ [])
  (isAbsolute p,
    if isAbsolute p then parts.filter (· ≠ ['.']) else parts.take 1++(parts.drop 1).filter (· ≠ ['.']))

def samePath (p q : String) : Bool := components p == components q

/-- A file system: the node at the end of a path, symbolic links followed, and what it holds. -/
structure FileSystem (ν : Type) where
  node : String → Option ν
  regular : ν → Bool
  /-- What can be read of it. -/
  contents : ν → Option Bytes
  info : ν → HostMeta
  /-- `canonicalize`. -/
  real : String → Option String
  node_real : ∀ p q, real p = some q → node q = node p
  currentDir : Option String

/-- What a source refers to by name. -/
inductive Reference where
  | fixture (name : String)
  | module (name : String)
  deriving DecidableEq, Repr

/-- The fixtures a source refers to, and then the modules it requires. -/
def references (source : Bytes) : List Reference :=
  (scanFixtureDeps (textOf source)).map .fixture++(scanRequireDeps (textOf source)).map .module

/-- `module.replace('.', "/")`. -/
def modulePath (module : String) : String :=
  String.ofList (module.toList.map fun c => if c = '.' then '/' else c)

namespace FileSystem
variable {ν : Type} (fs : FileSystem ν)

def isFile (p : String) : Bool := (fs.node p).any fs.regular

def readFixtureSource (p : String) : Option Bytes :=
  if fs.isFile p then (fs.node p).bind fs.contents else none

def metadata (p : String) : Option HostMeta := (fs.node p).map fs.info

def file (p : String) : HostFile := ⟨p,fs.metadata p⟩

def locateFixture (roots : List String) (name : String) : Option String :=
  let candidates := if roots = [] then [fs.currentDir.getD "."] else roots
  (candidates.map fun root => pathJoin root (name++".fixture.lua")).find? fs.isFile

/-- Where `require` finds a helper. -/
def locateHelper (roots : List String) (module : String) : Option String :=
  let rel := modulePath module
  (roots.flatMap fun root =>
    [pathJoin root (rel++".lua"),pathJoin (pathJoin root rel) "init.lua"]).find? fs.isFile

def locate (roots : List String) : Reference → Option String
  | .fixture name => fs.locateFixture roots name
  | .module name => fs.locateHelper roots name

/-- The file a reference leads to: where it is and what it holds. -/
def load (roots : List String) (r : Reference) : Option (String × Bytes) :=
  (fs.locate roots r).bind fun path => (fs.readFixtureSource path).map fun source => (path,source)

/-- Another file in place of the one at this node. -/
def put [DecidableEq ν] (n : ν) (bytes : Option Bytes) (m : HostMeta) : FileSystem ν :=
  { fs with
    contents := Function.update fs.contents n bytes
    info := Function.update fs.info n m }

/-- The path of an external file that is declared in a source in this directory. -/
def externalPath (dir raw : String) : String :=
  let path := if isAbsolute raw then raw else pathJoin dir raw
  (fs.real path).getD path

end FileSystem

example : parent "tests/fixtures/base.fixture.lua" = some "tests/fixtures" ∧ parent "base.lua" = some "" ∧
    parent "/base.lua" = some "/" ∧ parent "a//b/./c.lua" = some "a//b" ∧ parent "/" = none := by
  decide +kernel

end Provium.Fixture
