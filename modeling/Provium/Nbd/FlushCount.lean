import Provium.Nbd.FlushFailure
import Provium.Nbd.Transmission

/-! What `flushes` counts. The counter is bumped inside `flush`, which serves the guest's `FLUSH`, a
write with `FUA` and the commit of an overlay over its cap alike. -/
namespace Provium.Nbd
open Lib

namespace DiskState

/-- The host answers every file operation that a flush of this state asks for. -/
def HostAllows (d : DiskState) : Prop :=
  ∀ x ∈ d.file.fates.take (d.overlay.size+1), x = .ok

instance (d : DiskState) : Decidable d.HostAllows := inferInstanceAs (Decidable (∀ _ ∈ _,_))

end DiskState

section Commit
open DiskState

theorem commitSectors_iff (es : List (ℕ × List UInt8)) (f : File) :
    ((commitSectors es f).1 = .ok () ↔ ∀ x ∈ f.fates.take es.length, x = .ok) ∧
      ((commitSectors es f).1 = .ok () → (commitSectors es f).2.fates = f.fates.drop es.length) := by
  induction es generalizing f with
  | nil => simp [commitSectors]
  | cons e es ih =>
    obtain ⟨sector,data⟩ := e
    obtain ⟨bytes,fates⟩ := f
    cases fates with
    | nil =>
      have hrest := ih ⟨File.overwrite bytes (sector*sectorSize) data,[]⟩
      simpa [commitSectors,File.writeAllAt,File.fate] using hrest
    | cons x fates =>
      cases x with
      | ok =>
        have hrest := ih ⟨File.overwrite bytes (sector*sectorSize) data,fates⟩
        simpa [commitSectors,File.writeAllAt,File.fate] using hrest
      | fail n => simp [commitSectors,File.writeAllAt,File.fate]

theorem syncData_iff (f : File) : f.syncData.1 = .ok () ↔ ∀ x ∈ f.fates.take 1, x = .ok := by
  obtain ⟨bytes,fates⟩ := f
  cases fates with
  | nil => simp [File.syncData,File.fate]
  | cons x fates => cases x <;> simp [File.syncData,File.fate]

/-- A flush succeeds exactly if the host lets it. -/
theorem flush_ok_iff (d : DiskState) : d.flush.1 = .ok () ↔ d.HostAllows := by
  obtain ⟨hiff,hfates⟩ := commitSectors_iff d.overlay.toList d.file
  have hlen : d.overlay.toList.length = d.overlay.size := Std.TreeMap.length_toList
  rw [HostAllows,List.take_add,← hlen]
  simp only [List.mem_append,or_imp,forall_and]
  rw [← hiff]
  have hsync := syncData_iff (commitSectors d.overlay.toList d.file).2
  unfold DiskState.flush
  generalize commitSectors d.overlay.toList d.file = q at hfates hsync ⊢
  obtain ⟨result,file⟩ := q
  cases result with
  | error e => simp
  | ok u =>
    rw [hfates rfl] at hsync
    rw [← hsync]
    simp only [true_and]
    generalize file.syncData = q
    obtain ⟨_ | _,file'⟩ := q
    · simp
    · simp

theorem flush_counts (d : DiskState) : (d.flush.1 = .ok () ∧ d.flush.2.flushes = d.flushes+1) ∨
    (d.flush.1 ≠ .ok () ∧ d.flush.2.flushes = d.flushes) := by
  unfold DiskState.flush
  generalize commitSectors d.overlay.toList d.file = q
  obtain ⟨_ | _,file⟩ := q
  · exact .inr ⟨by simp,rfl⟩
  · simp only
    generalize file.syncData = q
    obtain ⟨_ | _,file'⟩ := q
    · exact .inr ⟨by simp,rfl⟩
    · exact .inl ⟨rfl,rfl⟩

/-- Only a flush that succeeds is counted. -/
theorem flush_flushes (d : DiskState) :
    d.flush.2.flushes = d.flushes+if d.HostAllows then 1 else 0 := by
  obtain ⟨hok,hcount⟩ | ⟨hfail,hcount⟩ := flush_counts d
  · rw [hcount,if_pos ((flush_ok_iff d).mp hok)]
  · rw [hcount,if_neg (mt (flush_ok_iff d).mpr hfail)]
    rfl

theorem hold_flushes (d : DiskState) (sector : ℕ) : (d.hold sector).2.flushes = d.flushes := by
  unfold DiskState.hold
  split
  · rfl
  · split <;> rfl

theorem writeSectors_flushes (offset stop : ℕ) (data : List UInt8) (todo : List ℕ) (d : DiskState) :
    (writeSectors offset stop data todo d).2.flushes = d.flushes := by
  induction todo generalizing d with
  | nil => rfl
  | cons sector todo ih =>
    have hhold := hold_flushes d sector
    unfold writeSectors
    split
    · next e d' hd =>
      rw [hd] at hhold
      exact hhold
    · next held d' hd =>
      rw [hd] at hhold
      exact (ih _).trans hhold

/-- The flushes of a step that the host allows. -/
def allowed (points : List DiskState) : ℕ := points.countP fun m => decide m.HostAllows

/-- The overlay's cap makes `write` flush, and nothing else in it does. -/
theorem write_flushes (d : DiskState) (offset : ℕ) (data : List UInt8) :
    (d.write offset data).2.flushes = d.flushes+allowed (capPoints d offset data) := by
  unfold DiskState.write capPoints taken
  by_cases hpos : data = []
  · simp [hpos,allowed]
  · by_cases h₁ : 2^64 ≤ offset+data.length
    · rw [if_neg hpos,if_pos h₁,if_pos (.inr (.inl h₁))]
      rfl
    · by_cases h₂ : d.size < offset+data.length
      · rw [if_neg hpos,if_neg h₁,if_pos h₂,if_pos (.inr (.inr h₂))]
        rfl
      · have hok : ¬ (data = [] ∨ 2^64 ≤ offset+data.length ∨ d.size < offset+data.length) := by
          rintro (hc | hc | hc)
          · exact hpos hc
          · exact h₁ hc
          · exact h₂ hc
        rw [if_neg hpos,if_neg h₁,if_neg h₂,if_neg hok]
        dsimp only
        have hsame := writeSectors_flushes offset (offset+data.length) data
          (sectors offset (offset+data.length)) d
        generalize writeSectors offset (offset+data.length) data
          (sectors offset (offset+data.length)) d = q at hsame ⊢
        obtain ⟨_ | _,m⟩ := q
        · exact hsame
        · by_cases hcap : overlayCapBytes < m.overlay.size*sectorSize
          · have hflush := flush_flushes m
            rw [show m.flushes = d.flushes from hsame] at hflush
            simp only [hcap,if_true,Option.filter_some,decide_true,Option.toList_some,allowed,
              List.countP_singleton,decide_eq_true_eq]
            exact hflush
          · simp only [hcap,if_false,Option.filter_some,decide_false,Bool.false_eq_true,
              Option.toList_none,allowed,List.countP_nil]
            exact hsame

/-- Serving a request bumps the counter once for each flush in it that the host allows. -/
theorem serve_flushes (d : DiskState) (r : Request) :
    (d.serve r).2.flushes = d.flushes+allowed (d.flushPoints r) := by
  cases hr : r.command with
  | read length =>
    have hread : (d.read r.offset length).2.flushes = d.flushes := by
      unfold DiskState.read
      split_ifs
      · rfl
      · rfl
      · rfl
      · split <;> rfl
    simp only [DiskState.serve,flushPoints,hr]
    generalize d.read r.offset length = q at hread ⊢
    obtain ⟨_ | _,d'⟩ := q
    · exact hread
    · exact hread
  | write payload =>
    have hw := write_flushes d r.offset payload
    generalize hq : d.write r.offset payload = q at hw
    obtain ⟨_ | _,m⟩ := q
    · rw [serve_write_of_error hr hq,flushPoints_of_error hr hq]
      exact hw
    · rw [serve_write_of_ok hr hq,flushPoints_of_ok hr hq]
      by_cases hf : r.fua
      · have hflush := flush_flushes m
        simp only at hw
        simp only [if_pos hf,allowed,List.countP_append,List.countP_singleton,decide_eq_true_eq]
        rw [hflush,hw]
        exact Nat.add_assoc _ _ _
      · simp only [if_neg hf,List.append_nil]
        exact hw
  | flush =>
    simp only [DiskState.serve,flushPoints,hr,allowed,List.countP_singleton,decide_eq_true_eq]
    exact flush_flushes d
  | disc =>
    simp only [DiskState.serve,flushPoints,hr]
    rfl
  | other code =>
    simp only [DiskState.serve,flushPoints,hr]
    rfl

end Commit

/-- A disk with the number of `FLUSH` commands that have been answered with success. -/
structure Served where
  disk : DiskState
  succeeded : ℕ

/-- A command with the policy in force and its number under that policy, or a power cut. -/
inductive GuestAction where
  | command (q : Packet) (m : Moment)
  | powerCut

namespace Served

/-- What a command is answered, and the disk after it. -/
def answer (s : Served) (q : Packet) (m : Moment) : Option Reply × DiskState :=
  if q.Consulted ∧ m.consult q.probe then (some ⟨nbdEio,q.cookie.toNat,[]⟩,s.disk)
  else s.disk.serve q.request

def step (s : Served) : GuestAction → Served × Option Reply
  | .command q m =>
    let (reply,disk) := s.answer q m
    (⟨disk,s.succeeded+if q.command.toNat = cmdFlush ∧
      reply.any (fun r => decide (r.error = 0)) then 1 else 0⟩,reply)
  | .powerCut => (⟨s.disk.powerCut,s.succeeded⟩,none)

/-- No `WRITE` that the policy lets through makes the disk flush on a host that allows it. -/
def OnlyFlushes (s : Served) : GuestAction → Prop
  | .command q m => q.command.toNat = cmdWrite → m.consult q.probe = false →
    ∀ x ∈ s.disk.flushPoints q.request, ¬ x.HostAllows
  | .powerCut => True

end Served

def servedMachine : Machine Served GuestAction (Option Reply) := ⟨fun s a => some (s.step a)⟩
theorem Packet.request_flush {q : Packet} : q.request.command = .flush ↔ q.command.toNat = cmdFlush := by
  simp only [Packet.request]
  split_ifs <;> simp_all [cmdRead,cmdWrite,cmdDisc,cmdFlush]

/-- Requests that are neither a `WRITE` nor a `FLUSH` flush nothing. -/
theorem flushPoints_nil {d : DiskState} {r : Request} (hw : ∀ payload, r.command ≠ .write payload)
    (hf : r.command ≠ .flush) : d.flushPoints r = [] := by
  unfold DiskState.flushPoints
  split
  · next payload hc => exact absurd hc (hw payload)
  · next hc => exact absurd hc hf
  · rfl

/-- What a step adds to the counter and to the number it should be. -/
theorem Served.step_counts (s : Served) (q : Packet) (m : Moment) :
    ∃ n, (s.step (.command q m)).1.disk.flushes = s.disk.flushes+n ∧
      ((q.command.toNat = cmdWrite ∧ (s.step (.command q m)).1.succeeded = s.succeeded ∧
        (n = 0 ↔ s.OnlyFlushes (.command q m))) ∨
      (q.command.toNat ≠ cmdWrite ∧ (s.step (.command q m)).1.succeeded = s.succeeded+n)) := by
  by_cases hv : q.Consulted ∧ m.consult q.probe
  · -- The policy fails the command: nothing is counted.
    refine ⟨0,?_,?_⟩
    · simp only [Served.step,Served.answer,if_pos hv]
      rfl
    · have hsucceeded : (s.step (.command q m)).1.succeeded = s.succeeded := by
        simp [Served.step,Served.answer,if_pos hv,nbdEio]
      by_cases hw : q.command.toNat = cmdWrite
      · refine .inl ⟨hw,hsucceeded,iff_of_true rfl fun _ hc => ?_⟩
        rw [hv.2] at hc
        cases hc
      · exact .inr ⟨hw,hsucceeded⟩
  · have hserve : s.answer q m = s.disk.serve q.request := if_neg hv
    have hdisk : (s.step (.command q m)).1.disk = (s.disk.serve q.request).2 := by
      simp only [Served.step,hserve]
    refine ⟨_,by rw [hdisk,serve_flushes],?_⟩
    have hsucceeded : (s.step (.command q m)).1.succeeded = s.succeeded+
        if q.command.toNat = cmdFlush ∧
          (s.disk.serve q.request).1.any (fun r => decide (r.error = 0)) then 1 else 0 := by
      simp only [Served.step,hserve]
    rw [hsucceeded]
    by_cases hw : q.command.toNat = cmdWrite
    · have hn : ¬ (q.command.toNat = cmdFlush ∧
          (s.disk.serve q.request).1.any (fun r => decide (r.error = 0)) = true) := by
        rintro ⟨hc,-⟩
        rw [hw] at hc
        cases hc
      refine .inl ⟨hw,by rw [if_neg hn]; rfl,?_⟩
      have hpass : m.consult q.probe = false := by
        cases hc : m.consult q.probe with
        | false => rfl
        | true => exact absurd ⟨.inr (.inl hw),hc⟩ hv
      simp only [allowed,List.countP_eq_zero,decide_eq_true_eq,Served.OnlyFlushes]
      exact ⟨fun h _ _ => h,fun h => h hw hpass⟩
    · refine .inr ⟨hw,?_⟩
      congr 1
      by_cases hf : q.command.toNat = cmdFlush
      · have hcommand := Packet.request_flush.mpr hf
        simp only [hf,true_and,DiskState.serve,DiskState.flushPoints,hcommand,allowed,
          List.countP_singleton,decide_eq_true_eq,reply_acknowledges,flush_ok_iff]
      · have hnil : s.disk.flushPoints q.request = [] := by
          refine flushPoints_nil (fun payload hc => hw ?_) fun hc => hf (Packet.request_flush.mp hc)
          simp only [Packet.request] at hc
          split_ifs at hc
        rw [hnil,if_neg fun hc => hf hc.1]
        rfl

/-- The counter counts the flushes answered with success all along a run exactly if no `WRITE` of it
makes the disk flush: none with `FUA`, none over the cap, unless the policy or the host fails it. -/
theorem flushes_counted_iff (image : List UInt8) (fates : List Fate) (as : List GuestAction) :
    servedMachine.Along (fun s => s.disk.flushes = s.succeeded) ⟨DiskState.start image fates,0⟩ as ↔
      servedMachine.Obeys Served.OnlyFlushes ⟨DiskState.start image fates,0⟩ as := by
  refine servedMachine.along_iff_obeys (I := fun s => s.disk.flushes = s.succeeded) (fun _ h => h)
    (fun s a s' o h hok hs => ?_) (fun s a s' o h hok hs => ?_) rfl as
  · cases a with
    | powerCut =>
      cases hs
      exact h
    | command q m =>
      obtain rfl : (s.step (.command q m)).1 = s' := congrArg Prod.fst (Option.some.inj hs)
      obtain ⟨n,hdisk,⟨hw,hsucceeded,hzero⟩ | ⟨hw,hsucceeded⟩⟩ := s.step_counts q m
      · rw [hdisk,hsucceeded,hzero.mpr hok]
        exact h
      · rw [hdisk,hsucceeded,h]
  · cases a with
    | powerCut => exact absurd trivial hok
    | command q m =>
      obtain rfl : (s.step (.command q m)).1 = s' := congrArg Prod.fst (Option.some.inj hs)
      obtain ⟨n,hdisk,⟨hw,hsucceeded,hzero⟩ | ⟨hw,hsucceeded⟩⟩ := s.step_counts q m
      · rw [hdisk,hsucceeded,h]
        have hn : n ≠ 0 := mt hzero.mp hok
        omega
      · exact absurd (fun hc => absurd hc hw) hok

/-- One write with `FUA`: the counter says that the guest has flushed once. -/
theorem fua_counted : ∃ s os,
    servedMachine.run ⟨DiskState.start (List.replicate 512 0) [],0⟩
      [.command ⟨1,1,7,0,1,[9],by decide⟩ ⟨false,false,{},0⟩] = some (s,os) ∧
    s.disk.flushes = 1 ∧ s.succeeded = 0 ∧
    ¬ servedMachine.Along (fun s => s.disk.flushes = s.succeeded)
      ⟨DiskState.start (List.replicate 512 0) [],0⟩
      [.command ⟨1,1,7,0,1,[9],by decide⟩ ⟨false,false,{},0⟩] := by
  refine ⟨_,_,rfl,by decide +kernel,by decide +kernel,fun h => ?_⟩
  have hend := (h.2 _ rfl).head
  revert hend
  decide +kernel

end Provium.Nbd
