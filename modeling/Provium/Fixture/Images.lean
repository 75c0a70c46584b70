import Provium.Fixture.Key

/-! The images a VM is launched with and those its fixtures' keys are computed from. A key folds in
what the profile says; a launch looks for the kernel in a composed root where the profile names none,
and lays the agent over the initrd. -/
namespace Provium.Fixture
open Lib

/-- `Profile`, as far as the images go. -/
structure Profile where
  kernel : String
  initrd : String
  root : Option String
  cmdlineFile : Option String
  injectAgent : Bool
  agentOverlayPath : Option String
  build : Option String
  buildOut : Option String
  deriving DecidableEq, Repr

/-- `Config`: the profiles by name. -/
structure Config where
  profiles : List (String × Profile)
  deriving DecidableEq, Repr

/-- `str::replace` of the token by what it stands for. -/
def replaceOut (out : List Char) : List Char → List Char
  | '\x7b' :: 'o' :: 'u' :: 't' :: '\x7d' :: rest => out++replaceOut out rest
  | c::rest => c::replaceOut out rest
  | [] => []

/-- `Path::join` with a relative path. -/
def joinPath (a b : String) : String :=
  if a = "" ∨ a.toList.getLast? = some '/' then a++b else a++"/"++b

namespace Profile

def outDir (p : Profile) (base name : String) : String := p.buildOut.getD (joinPath base name)

end Profile

namespace Config

/-- `expand_build_outputs`, where builds are kept below `base`. -/
def expandBuildOutputs (c : Config) (base : String) : Config where
  profiles := c.profiles.map fun e =>
    let sub := fun s : String => String.ofList (replaceOut (e.2.outDir base e.1).toList s.toList)
    (e.1,{ e.2 with
      kernel := sub e.2.kernel
      initrd := sub e.2.initrd
      root := e.2.root.map sub
      cmdlineFile := e.2.cmdlineFile.map sub
      agentOverlayPath := e.2.agentOverlayPath.map sub
      build := e.2.build.map sub })

/-- `canonical_profile_paths_all`. -/
def canonicalProfilePathsAll (c : Config) : List String × List String :=
  (c.profiles.map fun e => e.2.kernel,c.profiles.map fun e => e.2.initrd)

end Config

/-- The host as a launch and a key find it. -/
structure ImageHost where
  found : String → Option HostMeta
  read : String → Option Bytes
  /-- The names in a directory that can be read. -/
  list : String → Option (List String)
  /-- `PROVIUM_OVERLAY`. -/
  overlayEnv : Option String
  /-- Where an overlay is looked for beside the binary, in order. -/
  overlayCandidates : List String
  scratchRoot : String
  digest : Bytes → String
  /-- Whether a merged initrd can be written. -/
  writable : Bool

inductive KernelError where
  | noSource
  | read (path : String)
  | notFound (root : String)
  | ambiguous (root : String) (found : List String)
  deriving DecidableEq, Repr

inductive LaunchError where
  | kernelSource (e : KernelError)
  | missingProfilePath (field path : String)
  | rdinitPinned (existing : List Char)
  | overlayNotFound
  | readInitrd (path : String)
  | readOverlay (path : String)
  | publish (path : String)
  deriving DecidableEq, Repr

def ImageHost.file (w : ImageHost) (path : String) : HostFile := ⟨path,w.found path⟩

/-- The kernels in the modules directory of a root, release by release. -/
def ImageHost.kernelsIn (w : ImageHost) (modules : String) (releases : List String) : List String :=
  releases.flatMap fun release =>
    (((w.list (joinPath modules release)).getD []).filter fun name =>
      "vmlinuz-".toList.isPrefixOf name.toList).map (joinPath (joinPath modules release))

namespace Profile

def resolveKernel (p : Profile) (w : ImageHost) : Except KernelError String :=
  if p.kernel ≠ "" then .ok p.kernel
  else match p.root with
    | none => .error .noSource
    | some root =>
      let modules := joinPath root "usr/lib/modules"
      match w.list modules with
      | none => .error (.read modules)
      | some releases =>
        match w.kernelsIn modules releases with
        | [] => .error (.notFound root)
        | [k] => .ok k
        | found => .error (.ambiguous root (found.mergeSort fun a b => a ≤ b))

def validateProfilePaths (p : Profile) (w : ImageHost) (kernel : String) : Except LaunchError Unit :=
  if w.found kernel = none then .error (.missingProfilePath "kernel" kernel)
  else if p.initrd ≠ "" ∧ w.found p.initrd = none then .error (.missingProfilePath "initrd" p.initrd)
  else match p.cmdlineFile with
    | some file => if w.found file = none then .error (.missingProfilePath "cmdline_file" file) else .ok ()
    | none => .ok ()

def locateOverlay (p : Profile) (w : ImageHost) : Option String :=
  match p.agentOverlayPath with
  | some path => some path
  | none =>
    match w.overlayEnv with
    | some path =>
      if path ≠ "" then some path else w.overlayCandidates.find? fun c => (w.found c).isSome
    | none => w.overlayCandidates.find? fun c => (w.found c).isSome

/-- `parse_rdinit`, of the tokens of a command line. -/
def parseRdinit (cmdline : List (List Char)) : Option (List Char) :=
  cmdline.findSome? fun token =>
    if "rdinit=".toList.isPrefixOf token then some (token.drop 7) else none

/-- `OVERLAY_AGENT_PATH`. -/
def overlayAgentPath : String := "/sbin/provium-agent"

/-- The initrd where the agent is laid over it: the overlay alone, or the merged file by its content. -/
def injectedInitrd (p : Profile) (w : ImageHost) : Except LaunchError String :=
  match p.locateOverlay w with
  | none => .error .overlayNotFound
  | some overlay =>
    if p.initrd = "" then .ok overlay
    else match w.read p.initrd with
      | none => .error (.readInitrd p.initrd)
      | some user =>
        match w.read overlay with
        | none => .error (.readOverlay overlay)
        | some agent =>
          let merged := joinPath (joinPath w.scratchRoot "agent-overlay-cache")
            (w.digest (user++agent)++".cpio.gz")
          if w.found merged = none ∧ !w.writable then .error (.publish merged) else .ok merged

/-- `prepare_initrd`; what becomes of the command line is left out. -/
def prepareInitrd (p : Profile) (w : ImageHost) (cmdline : List (List Char)) :
    Except LaunchError String :=
  if p.injectAgent = false then .ok p.initrd
  else match parseRdinit cmdline with
    | some existing =>
      if existing ≠ overlayAgentPath.toList then .error (.rdinitPinned existing) else p.injectedInitrd w
    | none => p.injectedInitrd w

/-- The kernel and the initrd that a launch hands to QEMU. -/
def launchImages (p : Profile) (w : ImageHost) (cmdline : List (List Char)) :
    Except LaunchError (String × String) :=
  match p.resolveKernel w with
  | .error e => .error (.kernelSource e)
  | .ok kernel =>
    match p.validateProfilePaths w kernel with
    | .error e => .error e
    | .ok () => (p.prepareInitrd w cmdline).map fun initrd => (kernel,initrd)

end Profile

/-- What the key of a fixture is computed from under a config. -/
def Config.keyInput (c : Config) (w : ImageHost) (source : Bytes) (deps : List CacheKey)
    (externals : List String) : KeyInput :=
  ⟨source,deps,c.canonicalProfilePathsAll.1.map w.file,c.canonicalProfilePathsAll.2.map w.file,
    externals.map w.file⟩

/-- Another file at the path. -/
def ImageHost.replace (w : ImageHost) (path : String) (m : HostMeta) : ImageHost :=
  { w with found := Function.update w.found path (some m) }

/-- The profile at this place of the config is launched with the files its fixtures' keys are computed
from, and a key tells when another file is put at the path of one. -/
def Tracks (c : Config) (w : ImageHost) (j : ℕ) : Prop :=
  ∀ e, c.profiles[j]? = some e → ∀ cmdline kernel initrd,
    e.2.launchImages w cmdline = .ok (kernel,initrd) →
      c.canonicalProfilePathsAll.1[j]? = some kernel ∧ c.canonicalProfilePathsAll.2[j]? = some initrd ∧
      ∀ path ∈ [kernel,initrd], ∀ m m', w.found path = some m → m' ≠ m →
        ∀ source deps externals, (c.keyInput w source deps externals).preimage ≠
          (c.keyInput (w.replace path m') source deps externals).preimage

/-- A profile that names its kernel and boots its initrd as it is, both modified since the epoch. The
agent may be laid over the initrd only where that makes the same file of it. -/
structure Profile.AsNamed (p : Profile) (w : ImageHost) : Prop where
  kernel : p.kernel ≠ ""
  initrd : p.injectAgent = true → p.injectedInitrd w = .ok p.initrd
  times : ∀ path ∈ [p.kernel,p.initrd], ∀ m ∈ w.found path, 0 ≤ m.modified

theorem flatMap_inj {α : Type} {f g : α → Bytes} {l : List α} (hlen : ∀ a ∈ l, (f a).length = (g a).length)
    (h : l.flatMap f = l.flatMap g) : ∀ a ∈ l, f a = g a := by
  induction l with
  | nil => simp
  | cons a l ih =>
    rw [List.flatMap_cons,List.flatMap_cons] at h
    obtain ⟨ha,hl⟩ := List.append_inj h (hlen a List.mem_cons_self)
    exact List.forall_mem_cons.mpr ⟨ha,ih (fun b hb => hlen b (List.mem_cons_of_mem a hb)) hl⟩

theorem length_flatMap_lt {α : Type} {f g : α → Bytes} {l : List α}
    (hle : ∀ a ∈ l, (f a).length ≤ (g a).length) {a : α} (ha : a ∈ l)
    (hlt : (f a).length < (g a).length) : l.flatMap f ≠ l.flatMap g := by
  intro h
  have hsum := List.sum_lt_sum _ _ hle ⟨a,ha,hlt⟩
  have hlen := congrArg List.length h
  rw [List.length_flatMap,List.length_flatMap] at hlen
  omega

/-- The paths that are folded in, each under its list. -/
def Config.folded (c : Config) (externals : List String) : List (FileRole × String) :=
  c.canonicalProfilePathsAll.1.map (fun p => (.kernel,p))++
    c.canonicalProfilePathsAll.2.map (fun p => (.initrd,p))++externals.map fun p => (.external,p)

theorem Config.preimage_keyInput (c : Config) (w : ImageHost) (source : Bytes) (deps : List CacheKey)
    (externals : List String) : (c.keyInput w source deps externals).preimage =
      source++(header++(foldDeps deps++(c.folded externals).flatMap fun e => (w.file e.2).folded e.1)) := by
  rw [KeyInput.preimage_eq]
  simp only [Config.keyInput,KeyInput.files,Config.folded,foldDeps,foldFiles,List.flatMap_append,
    List.flatMap_map,List.map_map,Function.comp_def]

/-- Where one file is changed under its paths, what is folded in changes exactly with what is folded in
of it. -/
theorem folded_change_iff {entries : List (FileRole × String)} {found found' : String → Option HostMeta}
    {m m' : HostMeta} (hchange : ∀ p, found' p = found p ∨ found p = some m ∧ found' p = some m')
    {role : FileRole} {path : String} (hmem : (role,path) ∈ entries) (hm : found path = some m)
    (hm' : found' path = some m') :
    entries.flatMap (fun e => HostFile.folded e.1 ⟨e.2,found e.2⟩) =
      entries.flatMap (fun e => HostFile.folded e.1 ⟨e.2,found' e.2⟩) ↔ m.folded = m'.folded := by
  have hlength : ∀ f role path, (HostFile.folded role ⟨path,some f⟩).length =
      (role.mark++utf8 path).length+f.folded.length := by
    intro f role path
    simp only [HostFile.folded,HostFile.foundBytes,Option.elim,List.length_append,Nat.add_assoc]
  -- every place where the file is folded in changes its length in the same way
  have hle : ∀ e : FileRole × String, m.folded.length ≤ m'.folded.length →
      (HostFile.folded e.1 ⟨e.2,found e.2⟩).length ≤ (HostFile.folded e.1 ⟨e.2,found' e.2⟩).length := by
    intro e h
    obtain hsame | ⟨hold,hnew⟩ := hchange e.2
    · rw [hsame]
    · rw [hold,hnew,hlength,hlength]
      omega
  have hge : ∀ e : FileRole × String, m'.folded.length ≤ m.folded.length →
      (HostFile.folded e.1 ⟨e.2,found' e.2⟩).length ≤ (HostFile.folded e.1 ⟨e.2,found e.2⟩).length := by
    intro e h
    obtain hsame | ⟨hold,hnew⟩ := hchange e.2
    · rw [hsame]
    · rw [hold,hnew,hlength,hlength]
      omega
  constructor
  · intro h
    obtain hlt | heq | hgt := lt_trichotomy m.folded.length m'.folded.length
    · refine absurd h (length_flatMap_lt (fun e _ => hle e hlt.le) hmem ?_)
      rw [hm,hm',hlength,hlength]
      omega
    · have hsame := flatMap_inj (fun e _ => (hle e heq.le).antisymm (hge e heq.ge)) h (role,path) hmem
      rw [hm,hm'] at hsame
      exact List.append_cancel_left (List.append_cancel_left hsame)
    · refine absurd h.symm (length_flatMap_lt (fun e _ => hge e hgt.le) hmem ?_)
      rw [hm,hm',hlength,hlength]
      omega
  · intro h
    congr 1
    funext e
    obtain hsame | ⟨hold,hnew⟩ := hchange e.2
    · rw [hsame]
    · rw [hold,hnew]
      simp only [HostFile.folded,HostFile.foundBytes,Option.elim,h]

/-- A key changes exactly with what is folded in of the file. -/
theorem preimage_replace {c : Config} {w : ImageHost} {path : String} {m m' : HostMeta}
    (hm : w.found path = some m) (source : Bytes) (deps : List CacheKey) {externals : List String}
    {role : FileRole} (hmem : (role,path) ∈ c.folded externals) :
    (c.keyInput w source deps externals).preimage =
      (c.keyInput (w.replace path m') source deps externals).preimage ↔ m.folded = m'.folded := by
  rw [Config.preimage_keyInput,Config.preimage_keyInput,List.append_cancel_left_eq,
    List.append_cancel_left_eq,List.append_cancel_left_eq]
  refine folded_change_iff ?_ hmem hm ?_
  · intro q
    by_cases hq : q = path
    · subst hq
      exact .inr ⟨hm,Function.update_self ..⟩
    · exact .inl (Function.update_of_ne hq ..)
  · exact Function.update_self ..

/-- A time since the epoch is folded in with the size. -/
theorem folded_injective {m m' : HostMeta} (hm : 0 ≤ m.modified) (h : m.folded = m'.folded) : m = m' := by
  have hm' : 0 ≤ m'.modified := by
    by_contra hno
    have hlen := congrArg List.length h
    simp only [HostMeta.folded,if_pos hm,if_neg hno,List.length_append,length_toLeBytes] at hlen
    simp at hlen
  have hfound := @found_eq ⟨"",some m⟩ ⟨"",some m'⟩ [] [] (by rintro _ ⟨⟩; exact hm)
    (by rintro _ ⟨⟩; exact hm') (by simp only [HostFile.foundBytes,Option.elim,h])
  exact Option.some.inj hfound.1

/-- Before the epoch only the size is folded in. -/
theorem folded_ne {m m' : HostMeta} (hne : m' ≠ m)
    (h : m'.size ≠ m.size ∨ 0 ≤ m.modified ∨ 0 ≤ m'.modified) : m.folded ≠ m'.folded := by
  intro hfolded
  obtain hsize | hm | hm' := h
  · apply hsize
    simp only [HostMeta.folded,List.append_assoc] at hfolded
    obtain ⟨heq,-⟩ := List.append_inj (List.append_cancel_left hfolded) (by simp)
    exact (toLeBytes_inj m.size_lt m'.size_lt heq).symm
  · exact hne (folded_injective hm hfolded).symm
  · exact hne (folded_injective hm' hfolded.symm)

theorem joinPath_ne_empty {a b : String} (hb : b ≠ "") : joinPath a b ≠ "" := by
  have hb' : b.toList ≠ [] := fun h => hb (String.ext h)
  unfold joinPath
  split
  · intro h
    have := congrArg String.toList h
    simp only [String.toList_append,String.toList_empty,List.append_eq_nil_iff] at this
    exact hb' this.2
  · intro h
    have := congrArg String.toList h
    simp only [String.toList_append,String.toList_empty,List.append_eq_nil_iff] at this
    exact hb' this.2

namespace Profile
variable {p : Profile} {w : ImageHost} {k i : String} {cmdline : List (List Char)}

theorem resolveKernel_named (h : p.kernel ≠ "") : p.resolveKernel w = .ok p.kernel := if_pos h

/-- The kernel found in a root is a file in it. -/
theorem resolveKernel_ne_empty (h : p.resolveKernel w = .ok k) : k ≠ "" := by
  unfold resolveKernel at h
  split at h
  · next hk =>
    cases h
    exact hk
  · split at h
    · cases h
    · next root _ =>
      dsimp only at h
      split at h
      · cases h
      · next releases _ =>
        split at h
        · cases h
        · next found hfound =>
          cases h
          have hmem : k ∈ w.kernelsIn (joinPath root "usr/lib/modules") releases := by
            rw [hfound]
            exact List.mem_singleton_self k
          obtain ⟨release,-,hmem⟩ := List.mem_flatMap.mp hmem
          obtain ⟨name,hname,rfl⟩ := List.mem_map.mp hmem
          apply joinPath_ne_empty
          rintro rfl
          exact absurd (List.mem_filter.mp hname).2 (by decide)
        · cases h

theorem launchImages_ok (h : p.launchImages w cmdline = .ok (k,i)) :
    p.resolveKernel w = .ok k ∧ p.prepareInitrd w cmdline = .ok i := by
  unfold launchImages at h
  split at h
  · cases h
  · next kernel hk =>
    split at h
    · cases h
    · cases hi : p.prepareInitrd w cmdline with
      | error e =>
        rw [hi] at h
        cases h
      | ok initrd =>
        rw [hi] at h
        cases h
        exact ⟨hk,rfl⟩

/-- Where the agent is laid over the initrd, the command line does not change which file that makes. -/
theorem prepareInitrd_injected (hinject : p.injectAgent = true) (h : p.prepareInitrd w cmdline = .ok i) :
    p.injectedInitrd w = .ok i := by
  rw [prepareInitrd,if_neg (by simp [hinject])] at h
  split at h
  · split at h
    · cases h
    · exact h
  · exact h

theorem AsNamed.launched (hp : p.AsNamed w) (h : p.launchImages w cmdline = .ok (k,i)) :
    k = p.kernel ∧ i = p.initrd := by
  obtain ⟨hk,hi⟩ := launchImages_ok h
  rw [resolveKernel_named hp.kernel] at hk
  refine ⟨(Except.ok.inj hk).symm,?_⟩
  cases hinject : p.injectAgent with
  | false =>
    rw [prepareInitrd,if_pos hinject] at hi
    exact (Except.ok.inj hi).symm
  | true =>
    have := prepareInitrd_injected hinject hi
    rw [hp.initrd hinject] at this
    exact (Except.ok.inj this).symm

end Profile

/-- Whatever the configuration, a profile that can be launched is tracked by the keys exactly where it
names what it boots. -/
theorem tracks_iff (raw : Config) (base : String) (w : ImageHost) (j : ℕ) :
    Tracks (raw.expandBuildOutputs base) w j ↔
      ∀ e, (raw.expandBuildOutputs base).profiles[j]? = some e →
        (∃ cmdline images, e.2.launchImages w cmdline = .ok images) → e.2.AsNamed w := by
  generalize raw.expandBuildOutputs base = c
  have hplace : ∀ e, c.profiles[j]? = some e → c.canonicalProfilePathsAll.1[j]? = some e.2.kernel ∧
      c.canonicalProfilePathsAll.2[j]? = some e.2.initrd := by
    intro e he
    simp only [Config.canonicalProfilePathsAll,List.getElem?_map,he,Option.map_some,and_self]
  have hmem : ∀ e, c.profiles[j]? = some e → ∀ path ∈ [e.2.kernel,e.2.initrd], ∀ externals,
      ∃ role, (role,path) ∈ c.folded externals := by
    intro e he path hpath externals
    obtain ⟨hk,hi⟩ := hplace e he
    simp only [List.mem_cons,List.not_mem_nil,or_false] at hpath
    obtain rfl | rfl := hpath
    · refine ⟨.kernel,?_⟩
      simp [Config.folded,List.mem_of_getElem? hk]
    · refine ⟨.initrd,?_⟩
      simp [Config.folded,List.mem_of_getElem? hi]
  constructor
  · rintro h e he ⟨cmdline,⟨k,i⟩,hlaunch⟩
    obtain ⟨hk,hi,htells⟩ := h e he cmdline k i hlaunch
    obtain ⟨hplaceK,hplaceI⟩ := hplace e he
    obtain rfl : e.2.kernel = k := Option.some.inj (hplaceK.symm.trans hk)
    obtain rfl : e.2.initrd = i := Option.some.inj (hplaceI.symm.trans hi)
    obtain ⟨hresolve,hprepare⟩ := Profile.launchImages_ok hlaunch
    refine ⟨Profile.resolveKernel_ne_empty hresolve,
      fun hinject => Profile.prepareInitrd_injected hinject hprepare,?_⟩
    intro path hpath m hm
    by_contra hearly
    obtain ⟨role,hrole⟩ := hmem e he path hpath []
    -- the same file, touched one nanosecond earlier
    have hlt := m.modified_lt
    refine htells path hpath m ⟨m.size,m.modified-1,m.size_lt,by omega⟩ hm ?_ [] [] []
      ((preimage_replace hm [] [] hrole).mpr ?_)
    · intro heq
      have := congrArg HostMeta.modified heq
      simp only at this
      omega
    · simp only [HostMeta.folded,hearly,if_false,if_neg (show ¬0 ≤ m.modified-1 by omega)]
  · intro h e he cmdline k i hlaunch
    have hnamed := h e he ⟨cmdline,(k,i),hlaunch⟩
    obtain ⟨rfl,rfl⟩ := hnamed.launched hlaunch
    obtain ⟨hplaceK,hplaceI⟩ := hplace e he
    refine ⟨hplaceK,hplaceI,?_⟩
    intro path hpath m m' hm hne source deps externals heq
    obtain ⟨role,hrole⟩ := hmem e he path hpath externals
    have hfolded := (preimage_replace hm source deps hrole).mp heq
    exact hne (folded_injective (hnamed.times path hpath m hm) hfolded).symm

/-- A profile that names a composed root and no kernel. -/
def rootConfig : Config :=
  ⟨[("peios",⟨"","/i",some "/r",none,false,none,none,none⟩)]⟩

theorem tenBytes_fit : (10 : ℕ) < 2^64 ∧ (0 : ℤ) < 2^63*10^9 := by decide

def rootKernel : String := "/r/usr/lib/modules/6.1/vmlinuz-6.1"

def rootHost : ImageHost where
  found path := if path = rootKernel ∨ path = "/i" then some ⟨10,0,tenBytes_fit.1,tenBytes_fit.2⟩ else none
  read _ := none
  list dir := if dir = "/r/usr/lib/modules" then some ["6.1"]
    else if dir = "/r/usr/lib/modules/6.1" then some ["modules.dep","vmlinuz-6.1"] else none
  overlayEnv := none
  overlayCandidates := []
  scratchRoot := "/s"
  digest _ := ""
  writable := true

/-- It boots the kernel in the root; its keys are computed from the empty path. -/
theorem rootConfig_not_tracked : (rootConfig.expandBuildOutputs "/b").profiles = rootConfig.profiles ∧
    (∀ e ∈ rootConfig.profiles, e.2.launchImages rootHost [] = .ok (rootKernel,"/i")) ∧
    (rootConfig.expandBuildOutputs "/b").canonicalProfilePathsAll = ([""],["/i"]) ∧
    ¬Tracks (rootConfig.expandBuildOutputs "/b") rootHost 0 := by
  have hlaunch : ∀ e ∈ rootConfig.profiles, e.2.launchImages rootHost [] = .ok (rootKernel,"/i") := by
    intro e he
    rw [List.mem_singleton.mp he]
    rfl
  have hpaths : (rootConfig.expandBuildOutputs "/b").canonicalProfilePathsAll = ([""],["/i"]) := rfl
  refine ⟨rfl,hlaunch,hpaths,?_⟩
  intro h
  obtain ⟨hk,-⟩ := h _ rfl [] rootKernel "/i" rfl
  rw [hpaths] at hk
  exact absurd (Option.some.inj hk) (by decide)

end Provium.Fixture
