import Provium.Lib.Splice
import Provium.Lib.Table
import Provium.Host.Lifecycle

/-! The registries behind the snapshot precondition: the open files and streams of each VM
(`ResourceRegistry` of `vm.rs`) and the live captures of each bridge, under the Lua userdata that
open, use and close them. A file is deregistered by `Vm::close`, a stream when the guard that it
holds is dropped. Handles and stream ids only grow, so the ordered maps list their entries as they
were opened. -/
namespace Provium.Host
open Lib

/-- Metadata recorded for an open stream session. -/
structure StreamMeta where
  kind : String
  detail : String
  creationSite : Option (String × ℤ)
  testName : Option String
  deriving DecidableEq, Repr

def formatStreamMeta (info : StreamMeta) : String :=
  info.kind++"("++info.detail++")"++
    (info.creationSite.elim "" fun site => " created at "++site.1++":"++toString site.2)++
    (info.testName.elim "" fun t => " (test \""++t++"\")")

structure ResourceRegistry where
  openFiles : List ℕ
  openStreams : List (ℕ × StreamMeta)
  deriving DecidableEq, Repr

/-- What a userdata stands for. The streams of files, of descriptors and of processes are all
`TailUd`; a process and a worker register nothing (`worker:open_file` is refused). -/
inductive Resource where
  | file (vm handle : ℕ)
  | tail (vm id : ℕ) (info : StreamMeta)
  | console (vm id : ℕ) (info : StreamMeta)
  | capture (bridge : ℕ)
  | process
  | worker
  deriving DecidableEq, Repr

namespace Resource

def handleOn (vm : ℕ) : Resource → Option ℕ
  | .file vm' handle => if vm' = vm then some handle else none
  | _ => none

def streamOn (vm : ℕ) : Resource → Option (ℕ × StreamMeta)
  | .tail vm' id info | .console vm' id info => if vm' = vm then some (id,info) else none
  | _ => none

def captureOn (bridge : ℕ) : Resource → Bool
  | .capture bridge' => bridge' = bridge
  | _ => false

/-- The guard of these is not dropped by `close`, only with the userdata. -/
def guarded : Resource → Bool
  | .console _ _ _ | .capture _ => true
  | _ => false

end Resource

structure Userdata where
  resource : Resource
  closeCalled : Bool
  /-- It has its handle, its session or its guard. -/
  holds : Bool
  deriving DecidableEq, Repr

structure Resources where
  registries : ℕ → ResourceRegistry
  /-- `active_captures` of each bridge. -/
  captures : ℕ → ℕ
  /-- The agent's next handle, for each VM. -/
  nextHandle : ℕ → ℕ
  /-- `STREAM_ID_COUNTER`. -/
  nextStream : ℕ
  userdata : List Userdata

inductive ResourceAction where
  /-- The agent's answer: how many handles it has given to others since the last file. -/
  | openFile (vm : ℕ) (answer : Except String ℕ)
  | openTail (vm : ℕ) (info : StreamMeta) (answer : Except String Unit)
  | consoleRead (vm : ℕ) (info : StreamMeta) (connected : Except String Unit)
  | capture (bridge : ℕ) (spawned : Except String Unit)
  | runAsync (answer : Except String Unit)
  | spawnWorker (answer : Except String Unit)
  /-- Any other method. -/
  | use (i : ℕ) (answer : Except String Unit)
  | close (i : ℕ) (answer : Except String Unit)
  /-- The collector drops a userdata, once the scope that holds it has closed it. -/
  | collect (i : ℕ)

namespace Resources

def start : Resources := ⟨fun _ => ⟨[],[]⟩,fun _ => 0,fun _ => 1,0,[]⟩

def setRegistry (s : Resources) (vm : ℕ) (f : ResourceRegistry → ResourceRegistry) : Resources :=
  { s with registries := Function.update s.registries vm (f (s.registries vm)) }

def insertFile (s : Resources) (vm handle : ℕ) : Resources :=
  s.setRegistry vm fun r => { r with openFiles := r.openFiles++[handle] }

def removeFile (s : Resources) (vm handle : ℕ) : Resources :=
  s.setRegistry vm fun r => { r with openFiles := r.openFiles.filter (· ≠ handle) }

def insertStream (s : Resources) (vm id : ℕ) (info : StreamMeta) : Resources :=
  s.setRegistry vm fun r => { r with openStreams := r.openStreams++[(id,info)] }

/-- The drop of a `StreamGuard`. -/
def removeStream (s : Resources) (vm id : ℕ) : Resources :=
  s.setRegistry vm fun r => { r with openStreams := r.openStreams.filter (·.1 ≠ id) }

def registerCapture (s : Resources) (bridge : ℕ) : Resources :=
  { s with captures := Function.update s.captures bridge (s.captures bridge+1) }

/-- The drop of a `CaptureGuard`. -/
def dropCapture (s : Resources) (bridge : ℕ) : Resources :=
  { s with captures := Function.update s.captures bridge (s.captures bridge-1) }

/-- `register_resource`: the scope holds the new userdata. -/
def registerResource (s : Resources) (resource : Resource) : Resources :=
  { s with userdata := s.userdata++[⟨resource,false,true⟩] }

def setUserdata (s : Resources) (i : ℕ) (u : Userdata) : Resources :=
  { s with userdata := s.userdata.set i u }

/-- `close` of each kind of userdata. A file is deregistered whatever the agent answers; the session
of a tail goes, with its guard; a console stream and a capture keep theirs. -/
def close (s : Resources) (i : ℕ) (u : Userdata) (answer : Except String Unit) :
    Resources × Except String Unit :=
  match u.resource with
  | .file vm handle =>
    if u.holds then
      ((s.removeFile vm handle).setUserdata i { u with closeCalled := true, holds := false },answer)
    else (s.setUserdata i { u with closeCalled := true },.ok ())
  | .tail vm id _ =>
    if u.holds then
      ((s.removeStream vm id).setUserdata i { u with closeCalled := true, holds := false },.ok ())
    else (s.setUserdata i { u with closeCalled := true },.ok ())
  | .console _ _ _ | .capture _ => (s.setUserdata i { u with closeCalled := true },.ok ())
  | .process | .worker =>
    (s.setUserdata i { u with closeCalled := true, holds := false },.ok ())

/-- The drop of a userdata. A file has no drop of its own. -/
def drop (s : Resources) (i : ℕ) (u : Userdata) : Resources :=
  if u.holds then
    let s := s.setUserdata i { u with holds := false }
    match u.resource with
    | .tail vm id _ | .console vm id _ => s.removeStream vm id
    | .capture bridge => s.dropCapture bridge
    | .file _ _ | .process | .worker => s
  else s

def step (s : Resources) : ResourceAction → Option (Resources × Except String Unit)
  | .openFile vm answer =>
    match answer with
    | .error e => some (s,.error e)
    | .ok skipped =>
      let handle := s.nextHandle vm+skipped
      let s := { s with nextHandle := Function.update s.nextHandle vm (handle+1) }
      some ((s.insertFile vm handle).registerResource (.file vm handle),.ok ())
  | .openTail vm info answer =>
    match answer with
    | .error e => some (s,.error e)
    | .ok () =>
      let id := s.nextStream
      let s := { s with nextStream := id+1 }
      some ((s.insertStream vm id info).registerResource (.tail vm id info),.ok ())
  | .consoleRead vm info connected =>
    -- the guard comes first, and goes again where the connection fails
    let id := s.nextStream
    let s := { s with nextStream := id+1 }.insertStream vm id info
    match connected with
    | .error e => some (s.removeStream vm id,.error e)
    | .ok () => some (s.registerResource (.console vm id info),.ok ())
  | .capture bridge spawned =>
    let s := s.registerCapture bridge
    match spawned with
    | .error e => some (s.dropCapture bridge,.error e)
    | .ok () => some (s.registerResource (.capture bridge),.ok ())
  | .runAsync answer => some (if answer.isOk then s.registerResource .process else s,answer)
  | .spawnWorker answer => some (if answer.isOk then s.registerResource .worker else s,answer)
  | .use i answer => (s.userdata[i]?).map fun _ => (s,answer)
  | .close i answer => (s.userdata[i]?).map fun u => s.close i u answer
  | .collect i =>
    (s.userdata[i]?).bind fun u => if u.closeCalled then some (s.drop i u,.ok ()) else none

/-- What was opened and not closed. -/
def opened (us : List Userdata) : List Resource :=
  (us.filter fun u => !u.closeCalled).map Userdata.resource

def openFiles (s : Resources) (vm : ℕ) : List ℕ :=
  (opened s.userdata).filterMap (Resource.handleOn vm)

def openStreams (s : Resources) (vm : ℕ) : List (ℕ × StreamMeta) :=
  (opened s.userdata).filterMap (Resource.streamOn vm)

def openCaptures (s : Resources) (bridge : ℕ) : ℕ :=
  (opened s.userdata).countP (Resource.captureOn bridge)

/-- `Vm::snapshot` with the registry's own counts and texts. -/
def snapshot {I C H : Type} (s : Resources) (vm : ℕ) (v : VmInner I C H) (name : String)
    (answer : Except VmmError Unit) : VmInner I C H × Ended :=
  v.snapshot name (s.registries vm).openFiles.length
    ((s.registries vm).openStreams.map fun e => formatStreamMeta e.2) answer

/-- `open_stream_total` of a lab with these VMs and bridges, those of its sub-labs included. -/
def openStreamTotal (s : Resources) (vms bridges : List ℕ) : ℕ :=
  (vms.map fun vm => (s.registries vm).openStreams.length).sum+(bridges.map s.captures).sum

end Resources

def resourceMachine : Machine Resources ResourceAction (Except String Unit) := ⟨Resources.step⟩

/-- The registries hold exactly what was opened and not closed, and so do the snapshot checks: a
refusal names these streams, and where there is none the snapshot runs with nothing open. -/
structure Resources.Exact (s : Resources) : Prop where
  files : ∀ vm, (s.registries vm).openFiles = s.openFiles vm
  streams : ∀ vm, (s.registries vm).openStreams = s.openStreams vm
  captures : ∀ bridge, s.captures bridge = s.openCaptures bridge
  refused : ∀ {I C H : Type} (vm : ℕ) (v v' : VmInner I C H) (name : String)
    (answer : Except VmmError Unit) (openFiles openStreams : ℕ) (streamDetails : List String),
    s.snapshot vm v name answer =
      (v',.done (.error (.openResources name openFiles openStreams streamDetails))) →
    openFiles = (s.openFiles vm).length ∧
      streamDetails = (s.openStreams vm).map fun e => formatStreamMeta e.2
  allowed : ∀ {I C H : Type} (vm : ℕ) (v : VmInner I C H) (name : String)
    (answer : Except VmmError Unit), s.openFiles vm ≠ [] ∨ s.openStreams vm ≠ [] →
    ∃ openFiles openStreams streamDetails, s.snapshot vm v name answer =
      (v,.done (.error (.openResources name openFiles openStreams streamDetails)))
  lab : ∀ vms bridges : List ℕ, s.openStreamTotal vms bridges =
    (vms.map fun vm => (s.openStreams vm).length).sum+(bridges.map s.openCaptures).sum

/-- No open console stream or capture is closed. -/
def Resources.KeepsGuarded (s : Resources) : ResourceAction → Prop
  | .close i _ => ∀ u, s.userdata[i]? = some u → u.resource.guarded = true → u.closeCalled = true
  | _ => True

/-- The checks follow the registries. -/
theorem Resources.exact_of_registries {s : Resources}
    (hf : ∀ vm, (s.registries vm).openFiles = s.openFiles vm)
    (hs : ∀ vm, (s.registries vm).openStreams = s.openStreams vm)
    (hc : ∀ bridge, s.captures bridge = s.openCaptures bridge) : s.Exact := by
  refine ⟨hf,hs,hc,?_,?_,?_⟩
  · intro I C H vm v v' name answer openFiles openStreams streamDetails h
    rw [Resources.snapshot,hf,hs,VmInner.snapshot] at h
    split at h
    · exfalso
      unfold VmInner.backendOp at h
      split at h
      · split at h
        · cases h
        · cases answer with
          | ok u => cases h
          | error e =>
            simp only [VmInner.afterBackend] at h
            split at h
            · cases h
            · cases h
      · cases h
    · cases h
      exact ⟨rfl,rfl⟩
  · intro I C H vm v name answer hopen
    rw [Resources.snapshot,hf,hs,VmInner.snapshot]
    have hbusy : ¬((s.openFiles vm).length = 0 ∧
        (s.openStreams vm).map (fun e => formatStreamMeta e.2) = []) := by
      rw [List.length_eq_zero_iff,List.map_eq_nil_iff]
      intro hnone
      exact hopen.elim (absurd hnone.1) (absurd hnone.2)
    exact ⟨_,_,_,if_neg hbusy⟩
  · intro vms bridges
    have hcaptures : s.captures = s.openCaptures := funext hc
    simp only [Resources.openStreamTotal,hs,hcaptures]

/-- Two resources that no registry confuses. -/
def Resource.Apart (a b : Resource) : Prop :=
  (∀ vm vm' e e', a.streamOn vm = some e → b.streamOn vm' = some e' → e.1 ≠ e'.1) ∧
    ∀ vm h h', a.handleOn vm = some h → b.handleOn vm = some h' → h ≠ h'

structure ResourcesInv (s : Resources) : Prop where
  files : ∀ vm, (s.registries vm).openFiles = s.openFiles vm
  streams : ∀ vm, (s.registries vm).openStreams = s.openStreams vm
  captures : ∀ bridge, s.captures bridge = s.openCaptures bridge
  held : ∀ u ∈ s.userdata, u.holds = !u.closeCalled
  /-- The guarded ones are still open. -/
  kept : ∀ u ∈ s.userdata, u.resource.guarded = true → u.closeCalled = false
  apart : (s.userdata.map Userdata.resource).Pairwise Resource.Apart
  streams_lt : ∀ r ∈ s.userdata.map Userdata.resource, ∀ vm e, r.streamOn vm = some e →
    e.1 < s.nextStream
  handles_lt : ∀ r ∈ s.userdata.map Userdata.resource, ∀ vm h, r.handleOn vm = some h →
    h < s.nextHandle vm

theorem resourcesInv_start : ResourcesInv .start :=
  ⟨fun _ => rfl,fun _ => rfl,fun _ => rfl,by simp [Resources.start],by simp [Resources.start],
    .nil,by simp [Resources.start],by simp [Resources.start]⟩

theorem opened_append (us vs : List Userdata) :
    Resources.opened (us++vs) = Resources.opened us++Resources.opened vs := by
  simp [Resources.opened]

theorem mem_of_mem_opened {us : List Userdata} {r : Resource} (h : r ∈ Resources.opened us) :
    r ∈ us.map Userdata.resource := by
  obtain ⟨w,hw,rfl⟩ := List.mem_map.mp h
  exact List.mem_map_of_mem (List.mem_of_mem_filter hw)

/-- The first `close` of a userdata takes its resource out of what is open, and nothing else. -/
theorem opened_close {us : List Userdata} {i : ℕ} {u u' : Userdata} (hu : us[i]? = some u)
    (hopen : u.closeCalled = false) (hclosed : u'.closeCalled = true) :
    ∃ pre post, us = pre++u::post ∧
      Resources.opened us = Resources.opened pre++u.resource::Resources.opened post ∧
      Resources.opened (us.set i u') = Resources.opened pre++Resources.opened post := by
  obtain ⟨hlt,hget⟩ := List.getElem?_eq_some_iff.mp hu
  obtain ⟨pre,post,hsplit,-,hset⟩ : ∃ pre post, us = pre++us[i]::post ∧ pre.length = i ∧
      us.set i u' = pre++u'::post := List.exists_of_set hlt
  rw [hget] at hsplit
  refine ⟨pre,post,hsplit,?_,?_⟩
  · rw [hsplit,opened_append]
    simp [Resources.opened,hopen]
  · rw [hset,opened_append]
    simp [Resources.opened,hclosed]

theorem captureOn_of_not_guarded {r : Resource} (h : r.guarded = false) (bridge : ℕ) :
    r.captureOn bridge = false := by
  cases r with
  | capture b => cases h
  | file vm k => rfl
  | tail vm id info => rfl
  | console vm id info => rfl
  | process => rfl
  | worker => rfl

section Steps
variable {s s' : Resources} {i : ℕ} {u : Userdata}

/-- What is open on either side of a userdata is apart from it. -/
theorem ResourcesInv.apart_of_split (h : ResourcesInv s) {pre post : List Userdata}
    (hsplit : s.userdata = pre++u::post) {r : Resource}
    (hr : r ∈ Resources.opened pre++Resources.opened post) :
    r.Apart u.resource ∨ u.resource.Apart r := by
  have hp := h.apart
  rw [hsplit,List.map_append,List.map_cons] at hp
  obtain ⟨-,hpost,hcross⟩ := List.pairwise_append.mp hp
  obtain hr | hr := List.mem_append.mp hr
  · exact .inl (hcross r (mem_of_mem_opened hr) _ List.mem_cons_self)
  · exact .inr ((List.pairwise_cons.mp hpost).1 r (mem_of_mem_opened hr))

theorem Resources.apply_setRegistry (s : Resources) (vm vm' : ℕ)
    (f : ResourceRegistry → ResourceRegistry) : (s.setRegistry vm f).registries vm' =
      if vm' = vm then f (s.registries vm') else s.registries vm' := by
  simp only [setRegistry,Function.update_apply]
  split
  · next h => rw [h]
  · rfl

/-- A new userdata, and what the registries note of it. -/
theorem ResourcesInv.register (h : ResourcesInv s) {r : Resource}
    (hu : s'.userdata = s.userdata++[⟨r,false,true⟩])
    (hf : ∀ vm, (s'.registries vm).openFiles =
      (s.registries vm).openFiles++(r.handleOn vm).toList)
    (hs : ∀ vm, (s'.registries vm).openStreams =
      (s.registries vm).openStreams++(r.streamOn vm).toList)
    (hc : ∀ b, s'.captures b = s.captures b+if r.captureOn b then 1 else 0)
    (hsl : s.nextStream ≤ s'.nextStream ∧
      ∀ vm e, r.streamOn vm = some e → s.nextStream ≤ e.1 ∧ e.1 < s'.nextStream)
    (hhl : ∀ vm, s.nextHandle vm ≤ s'.nextHandle vm ∧
      ∀ k, r.handleOn vm = some k → s.nextHandle vm ≤ k ∧ k < s'.nextHandle vm) :
    ResourcesInv s' := by
  have hopen : Resources.opened s'.userdata = Resources.opened s.userdata++[r] := by
    rw [hu,opened_append]
    rfl
  have hres : s'.userdata.map Userdata.resource = s.userdata.map Userdata.resource++[r] := by
    rw [hu,List.map_append]
    rfl
  refine ⟨?_,?_,?_,?_,?_,?_,?_,?_⟩
  · intro vm
    rw [hf,h.files,Resources.openFiles,Resources.openFiles,hopen,List.filterMap_append]
    cases hr : r.handleOn vm with
    | none => simp [hr]
    | some k => simp [hr]
  · intro vm
    rw [hs,h.streams,Resources.openStreams,Resources.openStreams,hopen,List.filterMap_append]
    cases hr : r.streamOn vm with
    | none => simp [hr]
    | some e => simp [hr]
  · intro b
    rw [hc,h.captures,Resources.openCaptures,Resources.openCaptures,hopen,List.countP_append,
      List.countP_singleton]
  · intro w hw
    rw [hu] at hw
    obtain hw | hw := List.mem_append.mp hw
    · exact h.held w hw
    · rw [List.mem_singleton.mp hw]
      rfl
  · intro w hw hg
    rw [hu] at hw
    obtain hw | hw := List.mem_append.mp hw
    · exact h.kept w hw hg
    · rw [List.mem_singleton.mp hw]
  · rw [hres]
    apply List.pairwise_append.mpr
    refine ⟨h.apart,List.pairwise_singleton _ _,?_⟩
    intro a ha b hb
    rw [List.mem_singleton.mp hb]
    constructor
    · intro vm vm' e e' he he'
      exact Nat.ne_of_lt ((h.streams_lt a ha vm e he).trans_le (hsl.2 vm' e' he').1)
    · intro vm k k' hk hk'
      exact Nat.ne_of_lt ((h.handles_lt a ha vm k hk).trans_le ((hhl vm).2 k' hk').1)
  · intro a ha vm e he
    rw [hres] at ha
    obtain ha | ha := List.mem_append.mp ha
    · exact (h.streams_lt a ha vm e he).trans_le hsl.1
    · rw [List.mem_singleton.mp ha] at he
      exact (hsl.2 vm e he).2
  · intro a ha vm k hk
    rw [hres] at ha
    obtain ha | ha := List.mem_append.mp ha
    · exact (h.handles_lt a ha vm k hk).trans_le (hhl vm).1
    · rw [List.mem_singleton.mp ha] at hk
      exact ((hhl vm).2 k hk).2

/-- The first `close` of a userdata that does not keep its guard. -/
theorem ResourcesInv.unregister (h : ResourcesInv s) (hu : s.userdata[i]? = some u)
    (hopen : u.closeCalled = false) (hg : u.resource.guarded = false)
    (hu' : s'.userdata = s.userdata.set i ⟨u.resource,true,false⟩)
    (hf : ∀ vm, (s'.registries vm).openFiles =
      (s.registries vm).openFiles.filter fun k => u.resource.handleOn vm ≠ some k)
    (hs : ∀ vm, (s'.registries vm).openStreams =
      (s.registries vm).openStreams.filter fun e => (u.resource.streamOn vm).map Prod.fst ≠ some e.1)
    (hc : s'.captures = s.captures) (hsl : s'.nextStream = s.nextStream)
    (hhl : s'.nextHandle = s.nextHandle) : ResourcesInv s' := by
  obtain ⟨pre,post,hsplit,hopened,hopened'⟩ :=
    opened_close hu hopen (rfl : Userdata.closeCalled ⟨u.resource,true,false⟩ = true)
  rw [← hu'] at hopened'
  have hres : s'.userdata.map Userdata.resource = s.userdata.map Userdata.resource := by
    rw [hu',List.map_set]
    apply set_of_getElem?
    rw [List.getElem?_map,hu,Option.map_some]
  refine ⟨?_,?_,?_,?_,?_,?_,?_,?_⟩
  · intro vm
    rw [hf,h.files,Resources.openFiles,Resources.openFiles,hopened,hopened']
    apply filter_filterMap_of_apart
    · intro k hk
      simp [hk]
    · intro x hx k hk
      simp only [decide_eq_true_eq]
      intro hk'
      obtain ha | ha := h.apart_of_split hsplit hx
      · exact ha.2 vm k k hk hk' rfl
      · exact ha.2 vm k k hk' hk rfl
  · intro vm
    rw [hs,h.streams,Resources.openStreams,Resources.openStreams,hopened,hopened']
    apply filter_filterMap_of_apart
    · intro e he
      simp [he]
    · intro x hx e he
      simp only [decide_eq_true_eq]
      intro he'
      obtain ⟨e',he',heq⟩ := Option.map_eq_some_iff.mp he'
      obtain ha | ha := h.apart_of_split hsplit hx
      · exact ha.1 vm vm e e' he he' heq.symm
      · exact ha.1 vm vm e' e he' he heq
  · intro b
    rw [hc,h.captures,Resources.openCaptures,Resources.openCaptures,hopened,hopened',
      List.countP_append,List.countP_append,
      List.countP_cons_of_neg (by simp [captureOn_of_not_guarded hg])]
  · intro w hw
    rw [hu'] at hw
    obtain hw | rfl := List.mem_or_eq_of_mem_set hw
    · exact h.held w hw
    · rfl
  · intro w hw hgw
    rw [hu'] at hw
    obtain hw | rfl := List.mem_or_eq_of_mem_set hw
    · exact h.kept w hw hgw
    · rw [hg] at hgw
      cases hgw
  · rw [hres]
    exact h.apart
  · rw [hres,hsl]
    exact h.streams_lt
  · rw [hres,hhl]
    exact h.handles_lt

theorem ResourcesInv.nextStream (h : ResourcesInv s) {n : ℕ} (hn : s.nextStream ≤ n) :
    ResourcesInv { s with nextStream := n } := by
  refine ⟨h.files,h.streams,h.captures,h.held,h.kept,h.apart,?_,h.handles_lt⟩
  intro r hr vm e he
  exact (h.streams_lt r hr vm e he).trans_le hn

/-- A stream that is registered and dropped at once leaves no trace. -/
theorem ResourcesInv.insertStream_removeStream (h : ResourcesInv s) (vm : ℕ) (info : StreamMeta) :
    (s.insertStream vm s.nextStream info).removeStream vm s.nextStream = s := by
  have hkeep : (s.registries vm).openStreams.filter (fun e => e.1 ≠ s.nextStream) =
      (s.registries vm).openStreams := by
    apply List.filter_eq_self.mpr
    intro e he
    rw [h.streams] at he
    obtain ⟨r,hr,hre⟩ := List.mem_filterMap.mp he
    have hlt := h.streams_lt r (mem_of_mem_opened hr) vm e hre
    simp [Nat.ne_of_lt hlt]
  simp only [Resources.insertStream,Resources.removeStream,Resources.setRegistry,
    Function.update_self,Function.update_idem,List.filter_append,hkeep]
  simp

theorem registerCapture_dropCapture (s : Resources) (bridge : ℕ) :
    (s.registerCapture bridge).dropCapture bridge = s := by
  simp [Resources.registerCapture,Resources.dropCapture]

theorem registries_registerResource (s : Resources) (r : Resource) :
    (s.registerResource r).registries = s.registries := rfl

theorem ResourcesInv.openFile (h : ResourcesInv s) (vm skipped : ℕ) :
    ResourcesInv ((Resources.insertFile
      { s with nextHandle := Function.update s.nextHandle vm (s.nextHandle vm+skipped+1) } vm
        (s.nextHandle vm+skipped)).registerResource (.file vm (s.nextHandle vm+skipped))) := by
  refine h.register (r := .file vm (s.nextHandle vm+skipped)) rfl ?_ ?_ ?_ ?_ ?_
  · intro vm'
    rw [registries_registerResource,Resources.insertFile,Resources.apply_setRegistry]
    by_cases hv : vm' = vm
    · simp [hv,Resource.handleOn]
    · simp [hv,Ne.symm hv,Resource.handleOn]
  · intro vm'
    rw [registries_registerResource,Resources.insertFile,Resources.apply_setRegistry]
    by_cases hv : vm' = vm
    · simp [hv,Resource.streamOn]
    · simp [hv,Resource.streamOn]
  · intro b
    rfl
  · exact ⟨Nat.le_refl _,fun vm' e he => by cases he⟩
  · intro vm'
    simp only [Resources.registerResource,Resources.insertFile,Resources.setRegistry,
      Resource.handleOn,Function.update_apply]
    by_cases hv : vm' = vm
    · subst hv
      refine ⟨by simp only [if_true]; omega,?_⟩
      intro k hk
      simp only [if_true,Option.some.injEq] at hk ⊢
      omega
    · simp [hv,Ne.symm hv]

/-- A stream of either kind. -/
theorem ResourcesInv.openStream (h : ResourcesInv s) (vm : ℕ) (info : StreamMeta) {r : Resource}
    (hr : r = .tail vm s.nextStream info ∨ r = .console vm s.nextStream info) :
    ResourcesInv ((Resources.insertStream { s with nextStream := s.nextStream+1 } vm s.nextStream
      info).registerResource r) := by
  have hstream : ∀ vm', r.streamOn vm' = if vm = vm' then some (s.nextStream,info) else none := by
    obtain rfl | rfl := hr
    · exact fun _ => rfl
    · exact fun _ => rfl
  have hhandle : ∀ vm', r.handleOn vm' = none := by
    obtain rfl | rfl := hr
    · exact fun _ => rfl
    · exact fun _ => rfl
  have hcapture : ∀ b, r.captureOn b = false := by
    obtain rfl | rfl := hr
    · exact fun _ => rfl
    · exact fun _ => rfl
  refine h.register (r := r) rfl ?_ ?_ ?_ ?_ ?_
  · intro vm'
    rw [registries_registerResource,Resources.insertStream,Resources.apply_setRegistry,hhandle]
    by_cases hv : vm' = vm
    · simp [hv]
    · simp [hv]
  · intro vm'
    rw [registries_registerResource,Resources.insertStream,Resources.apply_setRegistry,hstream]
    by_cases hv : vm' = vm
    · simp [hv]
    · simp [hv,Ne.symm hv]
  · intro b
    rw [hcapture]
    rfl
  · refine ⟨Nat.le_succ _,?_⟩
    intro vm' e he
    rw [hstream] at he
    split at he
    · cases he
      exact ⟨Nat.le_refl _,Nat.lt_succ_self _⟩
    · cases he
  · intro vm'
    refine ⟨Nat.le_refl _,?_⟩
    intro k hk
    rw [hhandle] at hk
    cases hk

theorem ResourcesInv.openCapture (h : ResourcesInv s) (bridge : ℕ) :
    ResourcesInv ((s.registerCapture bridge).registerResource (.capture bridge)) := by
  refine h.register (r := .capture bridge) rfl (fun vm => by simp [Resource.handleOn]; rfl)
    (fun vm => by simp [Resource.streamOn]; rfl) ?_ ⟨Nat.le_refl _,fun _ _ he => by cases he⟩
    (fun _ => ⟨Nat.le_refl _,fun _ hk => by cases hk⟩)
  intro b
  simp only [Resources.registerResource,Resources.registerCapture,Function.update_apply,
    Resource.captureOn,decide_eq_true_eq]
  by_cases hb : b = bridge
  · simp [hb]
  · simp [hb,Ne.symm hb]

/-- A process or a worker, which no registry notes. -/
theorem ResourcesInv.openOther (h : ResourcesInv s) {r : Resource}
    (hr : r = .process ∨ r = .worker) : ResourcesInv (s.registerResource r) := by
  obtain rfl | rfl := hr
  · exact h.register (r := .process) rfl (fun vm => (List.append_nil _).symm)
      (fun vm => (List.append_nil _).symm) (fun _ => rfl) ⟨Nat.le_refl _,fun _ _ he => by cases he⟩
      (fun _ => ⟨Nat.le_refl _,fun _ hk => by cases hk⟩)
  · exact h.register (r := .worker) rfl (fun vm => (List.append_nil _).symm)
      (fun vm => (List.append_nil _).symm) (fun _ => rfl) ⟨Nat.le_refl _,fun _ _ he => by cases he⟩
      (fun _ => ⟨Nat.le_refl _,fun _ hk => by cases hk⟩)

theorem Resources.setUserdata_self (hu : s.userdata[i]? = some u) : s.setUserdata i u = s := by
  rw [setUserdata,set_of_getElem? hu]

/-- A `close` after the first changes nothing. -/
theorem ResourcesInv.close_again (h : ResourcesInv s) (hu : s.userdata[i]? = some u)
    (hclosed : u.closeCalled = true) (answer : Except String Unit) : (s.close i u answer).1 = s := by
  obtain ⟨r,closeCalled,holds⟩ := u
  have hmem := List.mem_of_getElem? hu
  have hheld : holds = !closeCalled := h.held _ hmem
  have hc : closeCalled = true := hclosed
  subst hc
  subst hheld
  cases r with
  | file vm k => exact Resources.setUserdata_self hu
  | tail vm id info => exact Resources.setUserdata_self hu
  | console vm id info => exact Resources.setUserdata_self hu
  | capture b => exact Resources.setUserdata_self hu
  | process => exact Resources.setUserdata_self hu
  | worker => exact Resources.setUserdata_self hu

theorem registries_setUserdata (s : Resources) (i : ℕ) (u : Userdata) :
    (s.setUserdata i u).registries = s.registries := rfl

theorem ResourcesInv.close (h : ResourcesInv s) (hu : s.userdata[i]? = some u)
    (hok : u.resource.guarded = true → u.closeCalled = true) (answer : Except String Unit) :
    ResourcesInv (s.close i u answer).1 := by
  cases hclosed : u.closeCalled with
  | true =>
    rw [h.close_again hu hclosed]
    exact h
  | false =>
    have hholds : u.holds = true := by
      rw [h.held u (List.mem_of_getElem? hu),hclosed]
      rfl
    have hg : u.resource.guarded = false := by
      cases hg : u.resource.guarded with
      | false => rfl
      | true =>
        rw [hok hg] at hclosed
        cases hclosed
    unfold Resources.close
    split
    · next vm k hr =>
      rw [if_pos hholds]
      refine h.unregister hu hclosed hg rfl ?_ ?_ rfl rfl rfl
      · intro vm'
        rw [registries_setUserdata,Resources.removeFile,Resources.apply_setRegistry,hr]
        by_cases hv : vm' = vm
        · simp [hv,Resource.handleOn,eq_comm]
        · simp [hv,Ne.symm hv,Resource.handleOn]
      · intro vm'
        rw [registries_setUserdata,Resources.removeFile,Resources.apply_setRegistry,hr]
        by_cases hv : vm' = vm
        · simp [hv,Resource.streamOn]
        · simp [hv,Resource.streamOn]
    · next vm id info hr =>
      rw [if_pos hholds]
      refine h.unregister hu hclosed hg rfl ?_ ?_ rfl rfl rfl
      · intro vm'
        rw [registries_setUserdata,Resources.removeStream,Resources.apply_setRegistry,hr]
        by_cases hv : vm' = vm
        · simp [hv,Resource.handleOn]
        · simp [hv,Resource.handleOn]
      · intro vm'
        rw [registries_setUserdata,Resources.removeStream,Resources.apply_setRegistry,hr]
        by_cases hv : vm' = vm
        · simp [hv,Resource.streamOn,eq_comm]
        · simp [hv,Ne.symm hv,Resource.streamOn]
    · next vm id info hr =>
      rw [hr] at hg
      cases hg
    · next b hr =>
      rw [hr] at hg
      cases hg
    · next hr =>
      refine h.unregister hu hclosed hg rfl ?_ ?_ rfl rfl rfl
      · intro vm'
        simp [registries_setUserdata,hr,Resource.handleOn]
      · intro vm'
        simp [registries_setUserdata,hr,Resource.streamOn]
    · next hr =>
      refine h.unregister hu hclosed hg rfl ?_ ?_ rfl rfl rfl
      · intro vm'
        simp [registries_setUserdata,hr,Resource.handleOn]
      · intro vm'
        simp [registries_setUserdata,hr,Resource.streamOn]

theorem ResourcesInv.step (h : ResourcesInv s) {a : ResourceAction} {o : Except String Unit}
    (hok : s.KeepsGuarded a) (hs : s.step a = some (s',o)) : ResourcesInv s' := by
  cases a with
  | openFile vm answer =>
    cases answer with
    | error e =>
      cases hs
      exact h
    | ok skipped =>
      cases hs
      exact h.openFile vm skipped
  | openTail vm info answer =>
    cases answer with
    | error e =>
      cases hs
      exact h
    | ok u =>
      cases hs
      exact h.openStream vm info (.inl rfl)
  | consoleRead vm info connected =>
    cases connected with
    | error e =>
      cases hs
      have hgone := h.insertStream_removeStream vm info
      have hnext := h.nextStream (Nat.le_succ s.nextStream)
      rw [← hgone] at hnext
      exact hnext
    | ok u =>
      cases hs
      exact h.openStream vm info (.inr rfl)
  | capture bridge spawned =>
    cases spawned with
    | error e =>
      cases hs
      rw [registerCapture_dropCapture]
      exact h
    | ok u =>
      cases hs
      exact h.openCapture bridge
  | runAsync answer =>
    cases hs
    split
    · exact h.openOther (.inl rfl)
    · exact h
  | spawnWorker answer =>
    cases hs
    split
    · exact h.openOther (.inr rfl)
    · exact h
  | use i answer =>
    obtain ⟨u,-,he⟩ := Option.map_eq_some_iff.mp hs
    cases he
    exact h
  | close i answer =>
    obtain ⟨u,hu,he⟩ := Option.map_eq_some_iff.mp hs
    have hinv := h.close hu (hok u hu) answer
    rw [he] at hinv
    exact hinv
  | collect i =>
    -- a userdata that was closed holds nothing any more
    obtain ⟨u,hu,hs⟩ := Option.bind_eq_some_iff.mp hs
    split at hs
    · next hclosed =>
      cases hs
      have hheld := h.held u (List.mem_of_getElem? hu)
      rw [hclosed] at hheld
      simp only [Resources.drop,hheld]
      exact h
    · cases hs

/-- The first `close` of a console stream or a capture takes it out of what is open and leaves the
registry as it was. -/
theorem ResourcesInv.not_exact (h : ResourcesInv s) {a : ResourceAction} {o : Except String Unit}
    (hbad : ¬s.KeepsGuarded a) (hs : s.step a = some (s',o)) : ¬s'.Exact := by
  cases a with
  | close i answer =>
    simp only [Resources.KeepsGuarded,not_forall] at hbad
    obtain ⟨u,hu,hg,hopen⟩ := hbad
    rw [Bool.not_eq_true] at hopen
    obtain ⟨w,hw,he⟩ := Option.map_eq_some_iff.mp hs
    rw [hu] at hw
    cases hw
    obtain ⟨pre,post,-,hopened,hopened'⟩ :=
      opened_close hu hopen (rfl : { u with closeCalled := true }.closeCalled = true)
    intro hexact
    unfold Resources.close at he
    split at he
    · next hr =>
      rw [hr] at hg
      cases hg
    · next hr =>
      rw [hr] at hg
      cases hg
    · next vm id info hr =>
      cases he
      have hlen := congrArg List.length ((h.streams vm).symm.trans (hexact.streams vm))
      simp only [Resources.openStreams,Resources.setUserdata,hopened,hopened'] at hlen
      simp only [hr,List.filterMap_append,List.length_append,List.filterMap_cons,Resource.streamOn,
        if_true,List.length_cons] at hlen
      omega
    · next b hr =>
      cases he
      have hcount := (h.captures b).symm.trans (hexact.captures b)
      simp only [Resources.openCaptures,Resources.setUserdata,hopened,hopened'] at hcount
      simp only [hr,List.countP_append,List.countP_cons,Resource.captureOn,decide_true,
        if_true] at hcount
      omega
    · next hr =>
      rw [hr] at hg
      cases hg
    · next hr =>
      rw [hr] at hg
      cases hg
  | openFile vm answer => exact absurd trivial hbad
  | openTail vm info answer => exact absurd trivial hbad
  | consoleRead vm info connected => exact absurd trivial hbad
  | capture bridge spawned => exact absurd trivial hbad
  | runAsync answer => exact absurd trivial hbad
  | spawnWorker answer => exact absurd trivial hbad
  | use i answer => exact absurd trivial hbad
  | collect i => exact absurd trivial hbad

end Steps

/-- Along any sequence of operations the registries and the snapshot checks are exact all the way
exactly when no open console stream and no open capture is closed in it. -/
theorem registries_exact_iff (as : List ResourceAction) :
    resourceMachine.Along Resources.Exact .start as ↔
      resourceMachine.Obeys Resources.KeepsGuarded .start as :=
  Machine.along_iff_obeys resourceMachine (I := ResourcesInv)
    (fun _ h => Resources.exact_of_registries h.files h.streams h.captures)
    (fun _ _ _ _ h hok hs => h.step hok hs) (fun _ _ _ _ h hbad hs => h.not_exact hbad hs)
    resourcesInv_start as

/-- `console:read():close()`. -/
def consoleClosed : List ResourceAction :=
  [.consoleRead 0 ⟨"console_read","\"/run/a.sock\"",some ("a.test.lua",3),some "boots"⟩ (.ok ()),
    .close 0 (.ok ())]

/-- The stream is closed, and a snapshot is refused for it. -/
theorem closed_console_blocks_snapshot : ∃ s os, resourceMachine.run .start consoleClosed =
    some (s,os) ∧ s.openFiles 0 = [] ∧ s.openStreams 0 = [] ∧
    s.snapshot 0 (⟨.booted,some ⟨3,some (),(),none,none⟩,none⟩ : VmInner Unit Unit Unit) "a"
      (.ok ()) = (⟨.booted,some ⟨3,some (),(),none,none⟩,none⟩,.done (.error (.openResources "a" 0 1
        ["console_read(\"/run/a.sock\") created at a.test.lua:3 (test \"boots\")"]))) ∧
    ¬s.Exact := by
  refine ⟨_,_,rfl,rfl,rfl,rfl,?_⟩
  intro hexact
  cases hexact.streams 0

end Provium.Host
