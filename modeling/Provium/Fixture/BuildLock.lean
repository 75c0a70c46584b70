import Provium.Lib.Lockfile
import Provium.Lib.Machine

/-! The fixture cache among processes: `build_or_resume_fixture` and `build_or_resume_lab_fixture` of
`lab_ud.rs`, `fixture build` and `fixture rebuild` of `provium.rs`, and the evictions of `evict_to`. A step is
what one process does to the cache directory; what a restore or a build comes to is up to the run. -/
namespace Provium.Fixture
open Lib

/-- The two layouts of an entry, `<key>.snap` and `<key>.lab`, with a lockfile each. -/
inductive Layout where
  | vm
  | lab
  deriving DecidableEq, Repr

def Layout.other : Layout → Layout
  | .vm => .lab
  | .lab => .vm

inductive Command where
  | vmFixture
  | labFixture
  | build
  | rebuild
  deriving DecidableEq, Repr

/-- The layout whose lockfile the command takes. -/
def Command.layout : Command → Layout
  | .labFixture => .lab
  | _ => .vm

/-- What is removed without the lock. -/
inductive Target where
  | entry (layout : Layout)
  | lockfile (layout : Layout)
  deriving DecidableEq, Repr

/-- How far a process is. `seen` is how many entries had been installed when it last found the entry absent
or unusable. -/
inductive Phase (κ : Type) where
  | idle
  | look (c : Command) (k : κ)
  | restore (c : Command) (k : κ)
  /-- It removes these, and then it opens the lockfile; `suspect` is `corrupt_to_evict`. -/
  | clear (c : Command) (k : κ) (todo : List Target) (seen : Option ℕ) (suspect : Bool)
  | wait (c : Command) (k : κ) (i : ℕ) (suspect : Bool)
  | locked (c : Command) (k : κ) (i : ℕ) (suspect : Bool)
  /-- `lab_fixture` could not restore this under the lock. -/
  | condemned (k : κ) (i : ℕ) (entry : Option ℕ) (seen : ℕ)
  | building (c : Command) (k : κ) (i : ℕ) (seen : Option ℕ)
  /-- `fixture build` has a lab, for which it makes room. -/
  | replacing (k : κ) (i : ℕ) (seen : Option ℕ)
  | placing (c : Command) (k : κ) (i : ℕ)
  /-- The entry is there, and restored under the lock. -/
  | served (c : Command) (k : κ) (i : ℕ)
  /-- An entry has been evicted, and its lockfile is next. -/
  | evicted (slot : Layout × κ)
  deriving DecidableEq, Repr

namespace Phase
variable {κ : Type}

def grip : Phase κ → Grip (Layout × κ)
  | .wait c k i _ => .opened (c.layout,k) i
  | .locked c k i _ | .building c k i _ | .placing c k i | .served c k i => .held (c.layout,k) i
  | .condemned k i _ _ => .held (.lab,k) i
  | .replacing k i _ => .held (.vm,k) i
  | _ => .free

/-- It builds the key's fixture, or installs what it has built. -/
def Builds (k : κ) : Phase κ → Prop
  | .building _ k' _ _ | .replacing k' _ _ | .placing _ k' _ => k' = k
  | _ => False

end Phase

/-- Entries are told apart by when they were installed. -/
structure Cache (κ : Type) where
  files : Lockfiles (Layout × κ)
  entries : Layout × κ → Option ℕ
  installs : ℕ
  procs : ℕ → Phase κ

/-- The removal of an entry, by eviction or by a process that has found an entry unusable, if it holds the
lock of the entry's key. -/
structure Removal where
  entry : ℕ
  evicted : Bool
  unusable : Option ℕ
  seen : Option ℕ
  deriving DecidableEq, Repr

/-- What a fixture builds. -/
inductive Built where
  | vm
  | lab
  deriving DecidableEq, Repr

inductive Move (κ : Type) where
  | start (c : Command) (k : κ)
  /-- `evict_to` removes one of the entries that it has listed. -/
  | evict (slot : Layout × κ)
  | go
  | restored (usable : Bool)
  | built (outcome : Built)
  /-- The process is done, or fails, or dies. -/
  | leave
  deriving DecidableEq, Repr

namespace Cache
variable {κ : Type} [DecidableEq κ]

/-- A directory with these lockfiles and entries, and no process in it. -/
def start (lockfiles entries : List (Layout × κ)) : Cache κ where
  files := ⟨fun slot => if slot ∈ lockfiles then some (lockfiles.idxOf slot) else none,fun _ => none,lockfiles.length⟩
  entries slot := if slot ∈ entries then some (entries.idxOf slot) else none
  installs := entries.length
  procs _ := .idle

def turn (s : Cache κ) (p : ℕ) (phase : Phase κ) : Cache κ :=
  { s with procs := Function.update s.procs p phase }

def remove (s : Cache κ) (slot : Layout × κ) : Cache κ :=
  { s with entries := Function.update s.entries slot none }

def unlink (s : Cache κ) (slot : Layout × κ) : Cache κ := { s with files := s.files.unlink slot }

/-- A rename to the entry's path. -/
def install (s : Cache κ) (slot : Layout × κ) : Cache κ :=
  { s with entries := Function.update s.entries slot (some s.installs), installs := s.installs+1 }

def leave (s : Cache κ) (p : ℕ) : Cache κ :=
  { s.turn p .idle with files := s.files.close (s.procs p).grip }

/-- An entry is removed, if there is one, or replaced, by a process that has found nothing under the lock. -/
def removal (s : Cache κ) (slot : Layout × κ) (seen : Option ℕ) : Option Removal :=
  (s.entries slot).map fun e => ⟨e,false,none,seen⟩

def go (s : Cache κ) (p : ℕ) : Option (Cache κ × Option Removal) :=
  match s.procs p with
  | .look c k =>
    if (s.entries (c.layout,k)).isSome then some (s.turn p (if c = .build then .idle else .restore c k),none)
    else some (s.turn p (.clear c k [] (some s.installs) false),none)
  | .clear c k (.entry layout::todo) seen suspect =>
    some ((s.remove (layout,k)).turn p (.clear c k todo seen suspect),s.removal (layout,k) seen)
  | .clear c k (.lockfile layout::todo) seen suspect =>
    some ((s.unlink (layout,k)).turn p (.clear c k todo seen suspect),none)
  | .clear c k [] _ suspect =>
    let q := s.files.openAt (c.layout,k)
    some (({ s with files := q.1 } : Cache κ).turn p (.wait c k q.2 suspect),none)
  | .wait c k i suspect =>
    (s.files.flock p i).map fun files => (({ s with files } : Cache κ).turn p (.locked c k i suspect),none)
  -- `fixture rebuild` does not look again
  | .locked .rebuild k i _ => some (s.turn p (.building .rebuild k i none),none)
  | .locked c k i false =>
    if (s.entries (c.layout,k)).isSome then some (s.turn p (.served c k i),none)
    else some (s.turn p (.building c k i (some s.installs)),none)
  | .condemned k i entry seen =>
    let held := s.files.inode (.lab,k) = some i ∧ s.files.holder i = some p
    some ((s.remove (.lab,k)).turn p (.locked .labFixture k i false),
      (s.entries (.lab,k)).map fun e => ⟨e,false,if held then entry else none,some seen⟩)
  | .replacing k i seen =>
    some ((s.remove (.lab,k)).turn p (.placing .build k i),s.removal (.lab,k) seen)
  -- a directory is not renamed to one that is there
  | .placing c k i =>
    if (s.entries (.lab,k)).isSome then some (s.leave p,none)
    else some ((s.install (.lab,k)).turn p (.served c k i),none)
  | .evicted slot => some ((s.unlink slot).turn p .idle,none)
  | _ => none

def restored (s : Cache κ) (p : ℕ) (usable : Bool) : Option (Cache κ × Option Removal) :=
  match s.procs p with
  | .restore c k =>
    if usable ∧ (s.entries (c.layout,k)).isSome then some (s.turn p .idle,none)
    -- `lab_fixture` defers the eviction until it holds the lock
    else if c = .labFixture then some (s.turn p (.clear c k [] (some s.installs) true),none)
    else some (s.turn p (.clear c k [.entry .vm,.lockfile .vm] (some s.installs) false),none)
  | .locked .labFixture k i true =>
    if usable ∧ (s.entries (.lab,k)).isSome then some (s.turn p (.served .labFixture k i),none)
    else some (s.turn p (.condemned k i (s.entries (.lab,k)) s.installs),none)
  | _ => none

def built (s : Cache κ) (p : ℕ) (outcome : Built) : Option (Cache κ × Option Removal) :=
  match s.procs p with
  | .building c k i seen =>
    match c,outcome with
    | .vmFixture,.vm | .build,.vm | .rebuild,.vm =>
      some ((s.install (.vm,k)).turn p (.served c k i),s.removal (.vm,k) seen)
    -- `atomic_install_lab_dir`
    | .labFixture,.lab => some ((s.install (.lab,k)).turn p (.served c k i),s.removal (.lab,k) seen)
    | .build,.lab => some (s.turn p (.replacing k i seen),none)
    | .rebuild,.lab => some (s.turn p (.placing .rebuild k i),none)
    | .vmFixture,.lab | .labFixture,.vm => some (s.leave p,none)
  | _ => none

def step (s : Cache κ) (a : ℕ × Move κ) : Option (Cache κ × Option Removal) :=
  let p := a.1
  match a.2 with
  | .start c k =>
    if s.procs p = .idle then
      some (s.turn p (if c = .rebuild then
        .clear c k [.entry .vm,.lockfile .vm,.entry .lab,.lockfile .lab] none false else .look c k),none)
    else none
  | .evict slot =>
    if s.procs p = .idle then
      (s.entries slot).map fun e => ((s.remove slot).turn p (.evicted slot),some ⟨e,true,none,none⟩)
    else none
  | .go => s.go p
  | .restored usable => s.restored p usable
  | .built outcome => s.built p outcome
  | .leave => if s.procs p = .idle then none else some (s.leave p,none)

end Cache

def cacheMachine (κ : Type) [DecidableEq κ] : Machine (Cache κ) (ℕ × Move κ) (Option Removal) := ⟨Cache.step⟩

/-- By eviction, or under the key's lock of that very entry as it was found; and of none that came after
the process had looked. -/
def Removal.Licit (r : Removal) : Prop :=
  (r.evicted = true ∨ r.unusable = some r.entry) ∧ ∀ n, r.seen = some n → r.entry < n

namespace Cache
variable {κ : Type} [DecidableEq κ]

def OneBuilder (s : Cache κ) : Prop :=
  ∀ k p q, (s.procs p).Builds k → (s.procs q).Builds k → p = q

def grips (s : Cache κ) (p : ℕ) : Grip (Layout × κ) := (s.procs p).grip

/-- What the processes have to keep to. -/
def Careful (s : Cache κ) (a : ℕ × Move κ) : Prop :=
  match s.procs a.1,a.2 with
  -- without the lock nothing is removed that is there
  | .clear _ k (.entry layout::_) _ _,.go => s.entries (layout,k) = none
  -- and no lockfile that a process has open
  | .clear _ k (.lockfile layout::_) _ _,.go => Lockfiles.Unused s.grips (layout,k)
  | .evicted slot,.go => Lockfiles.Unused s.grips slot
  -- the key's other lockfile is not in use
  | .clear c k [] _ _,.go => Lockfiles.Unused s.grips (c.layout.other,k)
  -- `fixture build` finds no lab in the place of its own
  | .replacing k _ _,.go => s.entries (.lab,k) = none
  -- and `fixture rebuild` no snapshot
  | .building .rebuild k _ _,.built .vm => s.entries (.vm,k) = none
  | _,_ => True

end Cache
end Provium.Fixture
