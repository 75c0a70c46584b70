import Provium.Agent.Process
import Provium.Agent.Handles

/-! A worker's channel, `serve_worker_child`: one request at a time, with syscalls on threads of their own.
Threads end when they will, and an await of one that has not ended holds up all that comes after it. The
replies to other operations are whatever `dispatch_short` makes of them. A reply that cannot be written ends
the loop and the worker with it, as a panic does. -/
namespace Provium.Agent.WorkerChannel
open Lib

inductive HostMessage (Q O : Type) where
  | workerSyscallBegin (args : Q)
  | workerSyscallAwait (asyncId : ℕ)
  | other (op : O)
  deriving DecidableEq, Repr

inductive AgentMessage (R E : Type) where
  | syscallResult (p : R)
  | workerSyscallAwaitResult (p : R)
  | workerSyscallBeginResult (id : ℕ)
  | agentError (kind : AgentErrorKind) (message : Message)
  | other (e : E)
  deriving DecidableEq, Repr

variable {Q O R E : Type}

/-- What a thread returns of what the syscall has. -/
def AgentMessage.awaited : AgentMessage R E → AgentMessage R E
  | .syscallResult p => .workerSyscallAwaitResult p
  | m => m

/-- What the loop makes of a thread's end; nothing is left of one that has panicked. -/
def collect : Option (AgentMessage R E) → AgentMessage R E
  | some m => m
  | none => .agentError .badRequest ⟨"worker async syscall thread panicked",none,""⟩

def unknownHandle (asyncId : ℕ) : AgentMessage R E :=
  .agentError .unknownHandle ⟨"worker_syscall_await: unknown async handle ",some asyncId,""⟩

/-- What the loop is at. -/
inductive Serving where
  | reading
  | joining (asyncId thread : ℕ)
  | gone
  deriving DecidableEq, Repr

/-- The loop with its counter and its table, and the threads in the order of their start, with what the
syscall of each was asked and, once it is through, what has come of it. -/
structure Channel (Q R E : Type) where
  nextAsync : ℕ
  pending : Table ℕ ℕ
  threads : List (Q × Option (Option (AgentMessage R E)))
  serving : Serving

def Channel.new : Channel Q R E := ⟨1,∅,[],.reading⟩

/-- What the world makes of a request. -/
structure Served (R E : Type) where
  /-- What `dispatch_short` makes of another operation, unless it panics. -/
  dispatched : Option (AgentMessage R E)
  /-- Whether `thread::spawn` gets a thread; it panics where it does not. -/
  spawned : Bool
  /-- Whether the parent still has its end when the reply is written. -/
  heard : Bool
  deriving DecidableEq, Repr

inductive Move (Q O R E : Type) where
  | request (op : HostMessage Q O) (served : Served R E)
  /-- The syscall of a thread returns, or the thread panics. -/
  | finish (thread : ℕ) (result : Option (AgentMessage R E))
  | join (heard : Bool)
  | hangUp

/-- A request and its reply. -/
abbrev Exchange (Q O R E : Type) := HostMessage Q O × AgentMessage R E

namespace Channel
variable (fits : AgentMessage R E → Bool) (c : Channel Q R E)

/-- `write_agent_message(&mut writer, &response)?`; the error of a reply over the frame cap, or of a parent
that has gone, ends the loop. -/
def respond (heard : Bool) (x : Exchange Q O R E) : Channel Q R E × Option (Exchange Q O R E) :=
  if fits x.2 && heard then (c,some x) else ({ c with serving := .gone },none)

def serve (op : HostMessage Q O) (served : Served R E) : Channel Q R E × Option (Exchange Q O R E) :=
  match op with
  | .workerSyscallBegin args =>
    if served.spawned then
      respond fits ⟨(c.nextAsync+1)%2^64,c.pending.insert c.nextAsync c.threads.length,c.threads++[(args,none)],
        .reading⟩ served.heard (op,.workerSyscallBeginResult c.nextAsync)
    else ({ c with nextAsync := (c.nextAsync+1)%2^64, serving := .gone },none)
  | .workerSyscallAwait asyncId =>
    match c.pending.lookup asyncId with
    | some thread => ({ c with pending := c.pending.erase asyncId, serving := .joining asyncId thread },none)
    | none => c.respond fits served.heard (op,unknownHandle asyncId)
  | .other _ =>
    match served.dispatched with
    | some reply => c.respond fits served.heard (op,reply)
    | none => ({ c with serving := .gone },none)

/-- A thread that runs comes to its end. -/
def finish (thread : ℕ) (result : Option (AgentMessage R E)) : Option (Channel Q R E) :=
  match c.threads[thread]? with
  | some (args,none) => some { c with threads := c.threads.set thread (args,some (result.map .awaited)) }
  | _ => none

def join (heard : Bool) : Option (Channel Q R E × Option (Exchange Q O R E)) :=
  match c.serving with
  | .joining asyncId thread =>
    match c.threads[thread]? with
    | some (_,some result) =>
      some (respond fits { c with serving := .reading } heard (.workerSyscallAwait asyncId,collect result))
    | _ => none
  | _ => none

end Channel

/-- `serve_worker_child` among its threads. A step is seen by its reply. -/
def machine (Q O : Type) (fits : AgentMessage R E → Bool) :
    Machine (Channel Q R E) (Move Q O R E) (Option (Exchange Q O R E)) where
  step c
    | .request op served => if c.serving = .reading then some (c.serve fits op served) else none
    | .finish thread result => (c.finish thread result).map (·,none)
    | .join heard => c.join fits heard
    | .hangUp => if c.serving = .reading then some ({ c with serving := .gone },none) else none

def Move.requested : Move Q O R E → Option (HostMessage Q O)
  | .request op _ => some op
  | _ => none

/-- The codec's frames of the replies that the loop makes by itself are within the cap. -/
structure Frames (fits : AgentMessage R E → Bool) : Prop where
  begun : ∀ id, fits (.workerSyscallBeginResult id)
  unknown : ∀ id, fits (unknownHandle id)
  panicked : fits (collect none)

/-- Nothing panics but a syscall's thread, what `dispatch_short` and the syscalls return is within the cap, and
the parent waits for its replies. -/
def Move.Sound (fits : AgentMessage R E → Bool) : Move Q O R E → Prop
  | .request (.workerSyscallBegin _) served => served.spawned ∧ served.heard
  | .request (.workerSyscallAwait _) served => served.heard
  | .request (.other _) served => (∃ reply, served.dispatched = some reply ∧ fits reply) ∧ served.heard
  | .finish _ result => ∀ reply, result = some reply → fits reply.awaited
  | .join heard => heard
  | .hangUp => True

/-- The requests of a run. -/
def requests (as : List (Move Q O R E)) : List (HostMessage Q O) := as.filterMap Move.requested

/-- The requests that have been answered, each with its reply, in the order of the replies. -/
def exchanges (os : List (Option (Exchange Q O R E))) : List (Exchange Q O R E) := os.reduceOption

/-- The request that waits for its thread. -/
def Channel.inProgress (c : Channel Q R E) : List (HostMessage Q O) :=
  match c.serving with
  | .joining asyncId _ => [.workerSyscallAwait asyncId]
  | _ => []

def begun : Exchange Q O R E → Option Q
  | (.workerSyscallBegin args,_) => some args
  | _ => none

def issued : Exchange Q O R E → Option ℕ
  | (_,.workerSyscallBeginResult id) => some id
  | _ => none

/-- How many syscalls have been begun. -/
def begins (log : List (Exchange Q O R E)) : ℕ := (log.filterMap begun).length

/-- The ids that `WorkerSyscallBegin` has returned. -/
def ids (log : List (Exchange Q O R E)) : List ℕ := log.filterMap fun x => if (begun x).isSome then issued x else none

/-- The id has been issued for a syscall with these arguments, which this thread has, and not been awaited
since. -/
def Outstanding (log : List (Exchange Q O R E)) (id thread : ℕ) (args : Q) : Prop :=
  ∃ before after, log = before++(.workerSyscallBegin args,.workerSyscallBeginResult id)::after ∧
    thread = begins before ∧ ∀ x ∈ after, x.1 ≠ .workerSyscallAwait id

/-- A request is answered as it has to be after these exchanges. -/
def Right (threads : List (Q × Option (Option (AgentMessage R E)))) (before : List (Exchange Q O R E)) :
    Exchange Q O R E → Prop
  | (.workerSyscallBegin _,reply) => ∃ id, reply = .workerSyscallBeginResult id
  | (.workerSyscallAwait id,reply) =>
    (∀ thread args, Outstanding before id thread args →
      ∃ result, threads[thread]? = some (args,some result) ∧ reply = collect result) ∧
    ((∀ thread args, ¬Outstanding before id thread args) → reply = unknownHandle id)
  | (.other _,_) => True

section Log
variable {log before after : List (Exchange Q O R E)} {x : Exchange Q O R E} {id thread thread' : ℕ}
  {args args' : Q} {threads threads' : List (Q × Option (Option (AgentMessage R E)))}

/-- An element of a list with one more at its end is that one, or stands in the list. -/
theorem split_append {α : Type*} {log before after : List α} {x y : α} (h : log++[x] = before++y::after) :
    (log = before ∧ x = y ∧ after = []) ∨ ∃ rest, log = before++y::rest ∧ after = rest++[x] := by
  obtain rfl | ⟨rest,z,rfl⟩ := List.eq_nil_or_concat' after
  · obtain ⟨rfl,hx⟩ := List.append_inj' h rfl
    exact .inl ⟨rfl,List.head_eq_of_cons_eq hx,rfl⟩
  · rw [← List.cons_append,← List.append_assoc] at h
    obtain ⟨rfl,hx⟩ := List.append_inj' h rfl
    obtain rfl := List.head_eq_of_cons_eq hx
    exact .inr ⟨rest,rfl,rfl⟩

theorem not_outstanding_nil : ¬Outstanding ([] : List (Exchange Q O R E)) id thread args := by
  rintro ⟨before,after,hlog,-⟩
  simp at hlog

theorem outstanding_append : Outstanding (log++[x]) id thread args ↔
    (x = (.workerSyscallBegin args,.workerSyscallBeginResult id) ∧ thread = begins log) ∨
      Outstanding log id thread args ∧ x.1 ≠ .workerSyscallAwait id := by
  constructor
  · rintro ⟨before,after,hlog,hthread,hafter⟩
    obtain ⟨rfl,hx,-⟩ | ⟨after,rfl,rfl⟩ := split_append hlog
    · exact .inl ⟨hx,hthread⟩
    · exact .inr ⟨⟨before,after,rfl,hthread,fun y hy => hafter y (List.mem_append_left _ hy)⟩,
        hafter x (List.mem_append_right _ List.mem_cons_self)⟩
  · rintro (⟨rfl,hthread⟩ | ⟨⟨before,after,rfl,hthread,hafter⟩,hx⟩)
    · exact ⟨log,[],rfl,hthread,by simp⟩
    · refine ⟨before,after++[x],by simp,hthread,fun y hy => ?_⟩
      obtain hy | hy := List.mem_append.mp hy
      · exact hafter y hy
      · obtain rfl := List.mem_singleton.mp hy
        exact hx

theorem ids_append : ids (log++[x]) = ids log++ids [x] := List.filterMap_append

theorem Outstanding.mem_ids (h : Outstanding log id thread args) : id ∈ ids log := by
  obtain ⟨before,after,rfl,-,-⟩ := h
  simp [ids,begun,issued]

/-- An id that is issued once is outstanding once. -/
theorem Outstanding.unique (hids : (ids log).Nodup) (h : Outstanding log id thread args)
    (h' : Outstanding log id thread' args') : thread = thread' ∧ args = args' := by
  induction log using List.reverseRecOn with
  | nil => exact absurd h not_outstanding_nil
  | append_singleton log x ih =>
    rw [ids_append] at hids
    have hnew : ∀ {thread args args'}, Outstanding log id thread args' →
        x ≠ (.workerSyscallBegin args,.workerSyscallBeginResult id) := by
      rintro thread args args' hold rfl
      exact List.disjoint_of_nodup_append hids hold.mem_ids (by simp [ids,begun,issued])
    obtain ⟨hx,ht⟩ | ⟨hold,-⟩ := outstanding_append.mp h
    · obtain ⟨hx',ht'⟩ | ⟨hold',-⟩ := outstanding_append.mp h'
      · rw [hx] at hx'
        simp only [Prod.mk.injEq,HostMessage.workerSyscallBegin.injEq,and_true] at hx'
        exact ⟨ht.trans ht'.symm,hx'⟩
      · exact absurd hx (hnew hold')
    · obtain ⟨hx',ht'⟩ | ⟨hold',-⟩ := outstanding_append.mp h'
      · exact absurd hx' (hnew hold)
      · exact ih (List.nodup_append.mp hids).1 hold hold'

/-- The thread has been asked what was begun. -/
theorem Outstanding.asked (h : Outstanding log id thread args) : (log.filterMap begun)[thread]? = some args := by
  obtain ⟨before,after,rfl,rfl,-⟩ := h
  rw [List.filterMap_append,begins,List.getElem?_append_right le_rfl,Nat.sub_self]
  rfl

/-- A thread that has ended is as it was. -/
def Later (threads threads' : List (Q × Option (Option (AgentMessage R E)))) : Prop :=
  ∀ (t : ℕ) args result, threads[t]? = some (args,some result) → threads'[t]? = some (args,some result)

theorem Right.later (h : Right threads before x) (hlater : Later threads threads') : Right threads' before x := by
  obtain ⟨op,reply⟩ := x
  cases op with
  | workerSyscallBegin args => exact h
  | other op => exact h
  | workerSyscallAwait id =>
    refine ⟨fun thread args hout => ?_,h.2⟩
    obtain ⟨result,hthread,hreply⟩ := h.1 thread args hout
    exact ⟨result,hlater _ _ _ hthread,hreply⟩

/-- Every exchange is right. -/
def AllRight (threads : List (Q × Option (Option (AgentMessage R E)))) (log : List (Exchange Q O R E)) : Prop :=
  ∀ before x after, log = before++x::after → Right threads before x

theorem AllRight.later (h : AllRight threads log) (hlater : Later threads threads') : AllRight threads' log :=
  fun before x after hlog => (h before x after hlog).later hlater

theorem AllRight.append (h : AllRight threads log) (hx : Right threads log x) : AllRight threads (log++[x]) := by
  intro before y after hlog
  obtain ⟨rfl,rfl,-⟩ | ⟨after,rfl,-⟩ := split_append hlog
  · exact hx
  · exact h before y after rfl

end Log

/-- What holds of the loop after these requests and these exchanges. The ids are new as long as there are no
more than the counter can count. -/
structure Inv (rs : List (HostMessage Q O)) (log : List (Exchange Q O R E)) (c : Channel Q R E) : Prop where
  order : rs = log.map Prod.fst++c.inProgress
  threads : c.threads.map Prod.fst = log.filterMap begun
  next : c.nextAsync = (begins log+1)%2^64
  ids : ids log = (List.range (begins log)).map fun i => (i+1)%2^64
  right : begins log ≤ 2^64 → AllRight c.threads log
  pending : begins log ≤ 2^64 → ∀ id thread, c.pending.lookup id = some thread ↔
    (∃ args, Outstanding log id thread args) ∧ .workerSyscallAwait id ∉ (c.inProgress : List (HostMessage Q O))
  joining : begins log ≤ 2^64 → ∀ id thread, c.serving = .joining id thread →
    ∃ args, Outstanding log id thread args

section Steps
variable {rs : List (HostMessage Q O)} {log : List (Exchange Q O R E)} {c c' : Channel Q R E}
  {o : Option (Exchange Q O R E)}

theorem Inv.nodup (h : Inv rs log c) (hfew : begins log ≤ 2^64) : (WorkerChannel.ids log).Nodup := by
  rw [h.ids]
  exact ids_nodup hfew

theorem inv_new : Inv [] ([] : List (Exchange Q O R E)) (Channel.new : Channel Q R E) where
  order := rfl
  threads := rfl
  next := rfl
  ids := rfl
  right := fun _ before x after hlog => by simp at hlog
  pending := fun _ id thread => by simp [Channel.new,not_outstanding_nil]
  joining := fun _ id thread hs => by cases hs

theorem begins_append (after : List (Exchange Q O R E)) : begins (log++after) = begins log+begins after := by
  simp [begins]

/-- A begin takes the next id, which is new. -/
theorem Inv.serve_begin (h : Inv rs log c) (hs : c.serving = .reading) (args : Q) :
    Inv (rs++[.workerSyscallBegin args])
      (log++[(.workerSyscallBegin args,.workerSyscallBeginResult c.nextAsync)])
      ⟨(c.nextAsync+1)%2^64,c.pending.insert c.nextAsync c.threads.length,c.threads++[(args,none)],.reading⟩ := by
  have hnone : (c.inProgress : List (HostMessage Q O)) = [] := by rw [Channel.inProgress,hs]
  have hone : begins [((.workerSyscallBegin args,.workerSyscallBeginResult c.nextAsync) : Exchange Q O R E)] = 1 := rfl
  have hlen : c.threads.length = begins log := by
    have := congrArg List.length h.threads
    rwa [List.length_map] at this
  have hids : WorkerChannel.ids (log++[(.workerSyscallBegin args,.workerSyscallBeginResult c.nextAsync)]) =
      (List.range (begins log+1)).map fun i => (i+1)%2^64 := by
    rw [ids_append,List.range_succ,List.map_append,← h.ids]
    exact congrArg (WorkerChannel.ids log++[·]) h.next
  constructor
  · rw [h.order,hnone,List.map_append]
    simp [Channel.inProgress]
  · rw [List.map_append,h.threads,List.filterMap_append]
    rfl
  · change (c.nextAsync+1)%2^64 = _
    rw [begins_append,hone,h.next]
    omega
  · rw [begins_append,hone,hids]
  · intro hfew
    rw [begins_append,hone] at hfew
    have hlater : Later c.threads (c.threads++[(args,none)]) := fun t a r ht => by
      rw [List.getElem?_append_left (List.getElem?_eq_some_iff.mp ht).1]
      exact ht
    exact ((h.right (by omega)).later hlater).append ⟨_,rfl⟩
  · intro hfew id thread
    rw [begins_append,hone] at hfew
    have hnodup : (WorkerChannel.ids
        (log++[(.workerSyscallBegin args,.workerSyscallBeginResult c.nextAsync)])).Nodup := by
      rw [hids]
      exact ids_nodup hfew
    have hnew : ∀ {thread args}, ¬Outstanding log c.nextAsync thread args := fun hout => by
      rw [ids_append] at hnodup
      exact List.disjoint_of_nodup_append hnodup hout.mem_ids (List.mem_singleton.mpr rfl)
    have hpending := h.pending (by omega) id thread
    rw [hnone] at hpending
    simp only [Channel.inProgress,List.not_mem_nil,not_false_eq_true,and_true] at hpending ⊢
    simp only [outstanding_append,exists_or]
    by_cases hid : id = c.nextAsync
    · subst hid
      rw [AList.lookup_insert,Option.some.injEq,hlen]
      constructor
      · rintro rfl
        exact .inl ⟨args,rfl,rfl⟩
      · rintro (⟨_,-,rfl⟩ | ⟨_,hout,-⟩)
        · rfl
        · exact absurd hout hnew
    · rw [AList.lookup_insert_ne hid,hpending]
      constructor
      · rintro ⟨a,hout⟩
        exact .inr ⟨a,hout,by simp⟩
      · rintro (⟨_,heq,-⟩ | ⟨a,hout,-⟩)
        · simp only [Prod.mk.injEq,AgentMessage.workerSyscallBeginResult.injEq] at heq
          exact absurd heq.2.symm hid
        · exact ⟨a,hout⟩
  · intro _ id thread hjoin
    cases hjoin

theorem Inv.unknown (h : Inv rs log c) (hs : c.serving = .reading) {id : ℕ} (hnone : c.pending.lookup id = none) :
    Inv (rs++[.workerSyscallAwait id]) (log++[(.workerSyscallAwait id,unknownHandle id)]) c := by
  have hprogress : (c.inProgress : List (HostMessage Q O)) = [] := by rw [Channel.inProgress,hs]
  have hzero : begins (log++[((.workerSyscallAwait id,unknownHandle id) : Exchange Q O R E)]) = begins log := by
    rw [begins_append]
    rfl
  have hnot : begins log ≤ 2^64 → ∀ thread args, ¬Outstanding log id thread args := by
    intro hfew thread args hout
    have hpending := (h.pending hfew id thread).mpr ⟨⟨args,hout⟩,by rw [hprogress]; exact List.not_mem_nil⟩
    rw [hnone] at hpending
    cases hpending
  constructor
  · rw [h.order,hprogress,List.map_append]
    simp
  · rw [h.threads,List.filterMap_append]
    exact (List.append_nil _).symm
  · rw [hzero]
    exact h.next
  · rw [hzero,ids_append,h.ids]
    exact List.append_nil _
  · intro hfew
    rw [hzero] at hfew
    exact (h.right hfew).append ⟨fun thread args hout => absurd hout (hnot hfew thread args),fun _ => rfl⟩
  · intro hfew id' thread
    rw [hzero] at hfew
    rw [h.pending hfew,and_congr_left_iff]
    intro _
    refine exists_congr fun args => ?_
    rw [outstanding_append]
    constructor
    · intro hout
      refine .inr ⟨hout,fun heq => ?_⟩
      obtain rfl := HostMessage.workerSyscallAwait.inj heq
      exact hnot hfew thread args hout
    · rintro (⟨heq,-⟩ | ⟨hout,-⟩)
      · cases heq
      · exact hout
  · intro _ id' thread hjoin
    rw [hs] at hjoin
    cases hjoin

/-- The entry goes from the table when its thread is joined, so that it can be had once. -/
theorem Inv.take (h : Inv rs log c) (hs : c.serving = .reading) {id thread : ℕ}
    (hsome : c.pending.lookup id = some thread) : Inv (rs++[.workerSyscallAwait id]) log
      { c with pending := c.pending.erase id, serving := .joining id thread } := by
  have hprogress : (c.inProgress : List (HostMessage Q O)) = [] := by rw [Channel.inProgress,hs]
  refine ⟨?_,h.threads,h.next,h.ids,h.right,?_,?_⟩
  · rw [h.order,hprogress,List.append_nil]
    rfl
  · intro hfew id' thread'
    have hpending := h.pending hfew id' thread'
    rw [hprogress] at hpending
    simp only [List.not_mem_nil,not_false_eq_true,and_true] at hpending
    simp only [Channel.inProgress,List.mem_singleton,HostMessage.workerSyscallAwait.injEq]
    by_cases hid : id' = id
    · subst hid
      simp
    · rw [AList.lookup_erase_ne hid,hpending]
      exact ⟨fun hout => ⟨hout,hid⟩,And.left⟩
  · intro hfew id' thread' hjoin
    obtain ⟨rfl,rfl⟩ := Serving.joining.inj hjoin
    exact ((h.pending hfew id thread).mp hsome).1

theorem Inv.other (h : Inv rs log c) (hs : c.serving = .reading) (op : O) (reply : AgentMessage R E) :
    Inv (rs++[.other op]) (log++[(.other op,reply)]) c := by
  have hprogress : (c.inProgress : List (HostMessage Q O)) = [] := by rw [Channel.inProgress,hs]
  have hzero : begins (log++[((.other op,reply) : Exchange Q O R E)]) = begins log := by
    rw [begins_append]
    rfl
  constructor
  · rw [h.order,hprogress,List.map_append]
    simp
  · rw [h.threads,List.filterMap_append]
    exact (List.append_nil _).symm
  · rw [hzero]
    exact h.next
  · rw [hzero,ids_append,h.ids]
    exact List.append_nil _
  · intro hfew
    rw [hzero] at hfew
    exact (h.right hfew).append trivial
  · intro hfew id thread
    rw [hzero] at hfew
    rw [h.pending hfew]
    simp [outstanding_append]
  · intro _ id thread hjoin
    rw [hs] at hjoin
    cases hjoin

theorem Inv.finish (h : Inv rs log c) {thread : ℕ} {result : Option (AgentMessage R E)}
    (hf : c.finish thread result = some c') : Inv rs log c' := by
  unfold Channel.finish at hf
  split at hf
  · next args hthread =>
    obtain rfl := Option.some.inj hf
    have hlater : Later c.threads (c.threads.set thread (args,some (result.map .awaited))) := by
      intro t a r ht
      rw [List.getElem?_set_ne ?_]
      · exact ht
      · rintro rfl
        rw [hthread] at ht
        cases ht
    refine ⟨h.order,?_,h.next,h.ids,fun hfew => (h.right hfew).later hlater,h.pending,h.joining⟩
    rw [← h.threads,List.map_set]
    refine List.ext_getElem? fun t => ?_
    by_cases ht : thread = t
    · subst ht
      rw [List.getElem?_set_self',List.getElem?_map,hthread]
      rfl
    · rw [List.getElem?_set_ne ht]
  · cases hf

theorem respond_of_fits {fits : AgentMessage R E → Bool} {heard : Bool} {x : Exchange Q O R E} (hfit : fits x.2)
    (hheard : heard) : c.respond fits heard x = (c,some x) := by
  simp [Channel.respond,hfit,hheard]

/-- What the threads have returned is within the cap. -/
def Fitting (fits : AgentMessage R E → Bool) (c : Channel Q R E) : Prop :=
  ∀ (thread : ℕ) args result, c.threads[thread]? = some (args,some result) → fits (collect result)

theorem fitting_append {fits : AgentMessage R E → Bool} (h : Fitting fits c) (args : Q)
    (hthreads : c'.threads = c.threads++[(args,none)]) : Fitting fits c' := by
  intro thread args' result hthread
  rw [hthreads] at hthread
  obtain hlt | hle := Nat.lt_or_ge thread c.threads.length
  · rw [List.getElem?_append_left hlt] at hthread
    exact h thread args' result hthread
  · rw [List.getElem?_append_right hle,List.getElem?_singleton] at hthread
    split at hthread <;> cases hthread

theorem Fitting.finish {fits : AgentMessage R E → Bool} (h : Fitting fits c) (hframes : Frames fits) {thread : ℕ}
    {result : Option (AgentMessage R E)} (hf : c.finish thread result = some c')
    (hresult : ∀ reply, result = some reply → fits reply.awaited) : Fitting fits c' := by
  unfold Channel.finish at hf
  split at hf
  · obtain rfl := Option.some.inj hf
    intro t args r ht
    rw [List.getElem?_set] at ht
    split at ht
    · split at ht
      · simp only [Option.some.injEq,Prod.mk.injEq] at ht
        obtain ⟨-,rfl⟩ := ht
        cases result with
        | none => exact hframes.panicked
        | some reply => exact hresult reply rfl
      · cases ht
    · exact h t args r ht
  · cases hf

/-- The thread that is joined is the one that the id was issued for. -/
theorem Inv.join (h : Inv rs log c) {fits : AgentMessage R E → Bool} (hfitting : Fitting fits c) {heard : Bool}
    (hheard : heard) (hj : c.join fits heard = some (c',o)) : Inv rs (log++o.toList) c' ∧ Fitting fits c' := by
  unfold Channel.join at hj
  split at hj
  · next id thread hs =>
    split at hj
    · next args' result hthread =>
      rw [respond_of_fits (hfitting thread args' result hthread) hheard] at hj
      obtain ⟨rfl,rfl⟩ := Prod.mk.inj (Option.some.inj hj)
      refine ⟨?_,hfitting⟩
      rw [Option.toList_some]
      have hprogress : (c.inProgress : List (HostMessage Q O)) = [.workerSyscallAwait id] := by
        rw [Channel.inProgress,hs]
      have hzero : begins (log++[((.workerSyscallAwait id,collect result) : Exchange Q O R E)]) = begins log := by
        rw [begins_append]
        rfl
      constructor
      · rw [h.order,hprogress,List.map_append]
        simp [Channel.inProgress]
      · rw [h.threads,List.filterMap_append]
        exact (List.append_nil _).symm
      · rw [hzero]
        exact h.next
      · rw [hzero,ids_append,h.ids]
        exact List.append_nil _
      · intro hfew
        rw [hzero] at hfew
        obtain ⟨args,hout⟩ := h.joining hfew id thread hs
        refine (h.right hfew).append ⟨fun t a hout' => ?_,fun hnone => absurd hout (hnone thread args)⟩
        obtain ⟨rfl,rfl⟩ := hout.unique (h.nodup hfew) hout'
        have hasked := hout.asked
        rw [← h.threads,List.getElem?_map,hthread] at hasked
        obtain rfl : args' = args := Option.some.inj hasked
        exact ⟨result,hthread,rfl⟩
      · intro hfew id' t
        rw [hzero] at hfew
        have hpending := h.pending hfew id' t
        rw [hprogress,List.mem_singleton,HostMessage.workerSyscallAwait.injEq] at hpending
        simp only [hpending,Channel.inProgress,List.not_mem_nil,not_false_eq_true,and_true]
        rw [← exists_and_right]
        refine exists_congr fun a => ?_
        rw [outstanding_append]
        constructor
        · rintro ⟨hout,hne⟩
          exact .inr ⟨hout,fun heq => hne (HostMessage.workerSyscallAwait.inj heq).symm⟩
        · rintro (⟨heq,-⟩ | ⟨hout,hne⟩)
          · cases heq
          · exact ⟨hout,fun heq => hne (congrArg _ heq.symm)⟩
      · intro _ id' t hjoin
        cases hjoin
    · cases hj
  · cases hj

theorem Inv.serve (h : Inv rs log c) (hs : c.serving = .reading) {fits : AgentMessage R E → Bool}
    (hframes : Frames fits) (hfitting : Fitting fits c) {op : HostMessage Q O} {served : Served R E}
    (hsound : (Move.request op served).Sound fits) (hserve : c.serve fits op served = (c',o)) :
    Inv (rs++[op]) (log++o.toList) c' ∧ Fitting fits c' := by
  cases op with
  | workerSyscallBegin args =>
    rw [Channel.serve,if_pos hsound.1,respond_of_fits (hframes.begun _) hsound.2] at hserve
    obtain ⟨rfl,rfl⟩ := Prod.mk.inj hserve
    exact ⟨h.serve_begin hs args,fitting_append hfitting args rfl⟩
  | workerSyscallAwait id =>
    cases hlookup : c.pending.lookup id with
    | some thread =>
      simp only [Channel.serve,hlookup,Prod.mk.injEq] at hserve
      obtain ⟨rfl,rfl⟩ := hserve
      rw [Option.toList_none,List.append_nil]
      exact ⟨h.take hs hlookup,hfitting⟩
    | none =>
      simp only [Channel.serve,hlookup] at hserve
      rw [respond_of_fits (hframes.unknown id) hsound] at hserve
      obtain ⟨rfl,rfl⟩ := Prod.mk.inj hserve
      exact ⟨h.unknown hs hlookup,hfitting⟩
  | other op =>
    obtain ⟨⟨reply,hreply,hfit⟩,hheard⟩ := hsound
    simp only [Channel.serve,hreply] at hserve
    rw [respond_of_fits hfit hheard] at hserve
    obtain ⟨rfl,rfl⟩ := Prod.mk.inj hserve
    exact ⟨h.other hs op reply,hfitting⟩

theorem Inv.step (h : Inv rs log c) {fits : AgentMessage R E → Bool} (hframes : Frames fits)
    (hfitting : Fitting fits c) {a : Move Q O R E} (hsound : a.Sound fits)
    (hstep : (machine Q O fits).step c a = some (c',o)) :
    Inv (rs++a.requested.toList) (log++o.toList) c' ∧ Fitting fits c' := by
  cases a with
  | request op served =>
    change (if c.serving = .reading then some (c.serve fits op served) else none) = _ at hstep
    split at hstep
    · next hs => exact h.serve hs hframes hfitting hsound (Option.some.inj hstep)
    · cases hstep
  | finish thread result =>
    obtain ⟨c₁,hf,heq⟩ := Option.map_eq_some_iff.mp hstep
    obtain ⟨rfl,rfl⟩ := Prod.mk.inj heq
    exact ⟨by simpa [Move.requested] using h.finish hf,hfitting.finish hframes hf hsound⟩
  | join heard =>
    have hjoin := h.join hfitting hsound hstep
    exact ⟨by simpa [Move.requested] using hjoin.1,hjoin.2⟩
  | hangUp =>
    change (if c.serving = .reading then some _ else none) = _ at hstep
    split at hstep
    · next hs =>
      obtain ⟨rfl,rfl⟩ := Prod.mk.inj (Option.some.inj hstep)
      have hprogress : (c.inProgress : List (HostMessage Q O)) = [] := by rw [Channel.inProgress,hs]
      have hnone : (Move.hangUp : Move Q O R E).requested = none := rfl
      rw [hnone,Option.toList_none,List.append_nil,Option.toList_none,List.append_nil]
      refine ⟨⟨?_,h.threads,h.next,h.ids,h.right,?_,nofun⟩,hfitting⟩
      · rw [h.order,hprogress]
        rfl
      · intro hfew id thread
        have hpending := h.pending hfew id thread
        rwa [hprogress] at hpending
    · cases hstep

end Steps

section Runs
variable {fits : AgentMessage R E → Bool} {as : List (Move Q O R E)} {os : List (Option (Exchange Q O R E))}
  {c : Channel Q R E}

theorem run_inv (hframes : Frames fits) (hsound : ∀ move ∈ as, move.Sound fits)
    (hrun : (machine Q O fits).run .new as = some (c,os)) :
    Inv (requests as) (exchanges os) c ∧ Fitting fits c :=
  @Machine.run_history_obeys _ _ _ (machine Q O fits)
    (fun as os c => Inv (requests as) (exchanges os) c ∧ Fitting fits c) (fun _ move => move.Sound fits) (by
    intro as os c a c' o h hok hstep
    have hnext := h.1.step hframes h.2 hok hstep
    have hrequests : requests (as++[a]) = requests as++a.requested.toList := by
      rw [requests,List.filterMap_append]
      cases a <;> rfl
    have hexchanges : exchanges (os++[o]) = exchanges os++o.toList := by
      rw [exchanges,List.reduceOption_append]
      cases o <;> rfl
    rwa [hrequests,hexchanges]) [] as [] os .new c
    ⟨inv_new,fun _ _ _ hthread => by simp [Channel.new] at hthread⟩
    ((machine Q O fits).obeys_of_forall (fun move hmove _ => hsound move hmove) _) hrun

/-- Whatever is asked, and whenever the threads end, as long as every thread can be had, nothing else panics and
every reply can be written: there is one reply to each request, in the order of the requests, but for an await
that still waits for the thread that its id was issued for, and is answered as soon as that has ended. Of 2^64
syscalls or fewer the ids are distinct, and each is awaited once. -/
theorem worker_syscalls_delivered_once (hframes : Frames fits) (hsound : ∀ move ∈ as, move.Sound fits)
    (hrun : (machine Q O fits).run .new as = some (c,os)) :
    requests as = (exchanges os).map Prod.fst++c.inProgress ∧
      (begins (exchanges os) ≤ 2^64 → (ids (exchanges os)).Nodup ∧ AllRight c.threads (exchanges os) ∧
        ∀ id thread, c.serving = .joining id thread → ∃ args ended, Outstanding (exchanges os) id thread args ∧
          c.threads[thread]? = some (args,ended) ∧ ∀ result, ended = some result →
            ∃ c', (machine Q O fits).step c (.join true) =
              some (c',some (.workerSyscallAwait id,collect result))) := by
  obtain ⟨h,hfitting⟩ := run_inv hframes hsound hrun
  refine ⟨h.order,fun hfew => ⟨h.nodup hfew,h.right hfew,fun id thread hs => ?_⟩⟩
  obtain ⟨args,hout⟩ := h.joining hfew id thread hs
  have hasked := hout.asked
  rw [← h.threads,List.getElem?_map] at hasked
  obtain ⟨⟨args',ended⟩,hthread,rfl⟩ := Option.map_eq_some_iff.mp hasked
  refine ⟨args',ended,hout,hthread,fun result hended => ?_⟩
  subst hended
  refine ⟨{ c with serving := .reading },?_⟩
  change c.join fits true = _
  simp only [Channel.join,hs,hthread]
  rw [respond_of_fits (hfitting thread args' result hthread) rfl]

end Runs

/-- The reply to another operation is some octets, and the frame of any other is short. -/
def withinCap : AgentMessage ℕ ℕ → Bool
  | .other octets => octets ≤ 128*2^20
  | _ => true

theorem frames_withinCap : Frames withinCap := ⟨fun _ => rfl,fun _ => rfl,rfl⟩

def asked (reply : ℕ) : Served ℕ ℕ := ⟨some (.other reply),true,true⟩

/-- Two syscalls, of which the second ends first and is awaited first, and then again. -/
def crossedAwaits : List (Move ℕ Unit ℕ ℕ) :=
  [.request (.workerSyscallBegin 10) (asked 0),.request (.workerSyscallBegin 20) (asked 0),
    .finish 1 (some (.syscallResult 200)),.request (.workerSyscallAwait 2) (asked 0),.join true,
    .request (.workerSyscallAwait 2) (asked 0),.request (.other ()) (asked 1000),
    .request (.workerSyscallAwait 1) (asked 0),.finish 0 none,.join true]

theorem sound_crossedAwaits : ∀ move ∈ crossedAwaits, move.Sound withinCap := by
  simp [crossedAwaits,Move.Sound,asked,withinCap,AgentMessage.awaited]

theorem worker_syscalls_delivered_once_crossed : ∃ c os,
    (machine ℕ Unit withinCap).run .new crossedAwaits = some (c,os) ∧
      (exchanges os).map Prod.snd = [.workerSyscallBeginResult 1,.workerSyscallBeginResult 2,
        .workerSyscallAwaitResult 200,unknownHandle 2,.other 1000,collect none] ∧
      requests crossedAwaits = (exchanges os).map Prod.fst++c.inProgress ∧
      (ids (exchanges os)).Nodup ∧ AllRight c.threads (exchanges os) :=
  have hrun : (machine ℕ Unit withinCap).run .new crossedAwaits = some (_,_) := rfl
  have h := worker_syscalls_delivered_once frames_withinCap sound_crossedAwaits hrun
  have hfew := h.2 (by decide)
  ⟨_,_,hrun,rfl,h.1,hfew.1,hfew.2.1⟩

/-- An output over the cap: the request has no reply, the loop is gone, and the syscall that was begun before it
can be awaited no more. -/
theorem large_reply_ends_worker : ∃ c os, (machine ℕ Unit withinCap).run .new
    [.request (.workerSyscallBegin 10) (asked 0),.request (.other ()) (asked (128*2^20+1)),
      .finish 0 (some (.syscallResult 100))] = some (c,os) ∧
    exchanges os = [(.workerSyscallBegin 10,.workerSyscallBeginResult 1)] ∧ c.serving = .gone ∧
    (∀ served, (machine ℕ Unit withinCap).step c (.request (.workerSyscallAwait 1) served) = none) ∧
    requests [.request (.workerSyscallBegin 10) (asked 0),.request (.other ()) (asked (128*2^20+1)),
      .finish 0 (some (.syscallResult 100))] ≠ (exchanges os).map Prod.fst++c.inProgress :=
  ⟨_,_,rfl,rfl,rfl,fun _ => rfl,by decide⟩

end Provium.Agent.WorkerChannel
