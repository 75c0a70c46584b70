import Provium.Nbd.Ragged

/-! Flushes on a host whose writes and syncs may fail at any point. `flush` empties the overlay
before it writes, so what a failed `write_all_at` and those after it would have written is gone. A
run is compared with the bytes that are owed to the guest: those of its acknowledged writes that
nothing has overwritten and no power cut has dropped. -/
namespace Provium.Nbd
open Lib

namespace DiskState

/-- The same disk on a host that has stopped failing. -/
def calm (d : DiskState) : DiskState := { d with file := { d.file with fates := [] } }

/-- The state after the loop of `write`, when it gets that far. -/
def taken (d : DiskState) (offset : ℕ) (data : List UInt8) : Option DiskState :=
  if data = [] ∨ 2^64 ≤ offset+data.length ∨ d.size < offset+data.length then none
  else
    match writeSectors offset (offset+data.length) data (sectors offset (offset+data.length)) d with
    | (.error _,_) => none
    | (.ok (),m) => some m

/-- The states in which serving a request calls `flush`: for the cap, for `FUA` and for `FLUSH`. -/
def flushPoints (d : DiskState) (r : Request) : List DiskState :=
  match r.command with
  | .write payload =>
    ((d.taken r.offset payload).filter fun m =>
      decide (overlayCapBytes < m.overlay.size*sectorSize)).toList++
    match d.write r.offset payload with
    | (.ok (),m) => if r.fua then [m] else []
    | (.error _,_) => []
  | .flush => [d]
  | _ => []

/-- The bytes of these sectors that are not written if the host meets the writes like this. -/
def lostBytes : List (ℕ × List UInt8) → List Fate → ℕ → Prop
  | [],_,_ => False
  | _::_,[],_ => False
  | _::rest,.ok::fates,i => lostBytes rest fates i
  | (sector,_)::rest,.fail n::_,i =>
    (i/sectorSize = sector ∧ n ≤ i%sectorSize) ∨ ∃ e ∈ rest, e.1 = i/sectorSize

/-- Whatever a flush of this state will not write the file has already. -/
def Spared (d : DiskState) : Prop :=
  ∀ i, lostBytes d.overlay.toList d.file.fates i → d.at i = d.file.bytes[i]?

section Calm
variable (d : DiskState)

@[simp] theorem calm_overlay : d.calm.overlay = d.overlay := rfl
@[simp] theorem calm_bytes : d.calm.file.bytes = d.file.bytes := rfl
@[simp] theorem calm_size : d.calm.size = d.size := rfl
@[simp] theorem calm_at (i : ℕ) : d.calm.at i = d.at i := rfl
@[simp] theorem calm_current : d.calm.current = d.current := rfl

end Calm
end DiskState

/-- Two disks of one size return the same on every read exactly if they show the same bytes. -/
theorem reads_eq_iff {d d' : DiskState} (h : DiskSound d) (h' : DiskSound d')
    (hsize : d'.size = d.size) :
    (∀ off len, (d'.read off len).1 = (d.read off len).1) ↔ ∀ i, d'.at i = d.at i := by
  constructor
  · intro hread i
    by_cases hi : i < d.size
    · have hone := hread i 1
      rw [h'.read_eq (by omega),h.read_eq (by omega)] at hone
      have hbyte := congrArg (fun l : List UInt8 => l[0]?) (Except.ok.inj hone)
      simpa [getElem?_slice,h.getElem?_current,h'.getElem?_current] using hbyte
    · have hnone : d.at i = none := by
        rw [← Option.not_isSome_iff_eq_none,h.at_isSome]
        exact hi
      have hnone' : d'.at i = none := by
        rw [← Option.not_isSome_iff_eq_none,h'.at_isSome,hsize]
        exact hi
      rw [hnone,hnone']
  · intro hat off len
    by_cases hle : off+len ≤ d.size
    · have hcurrent : d'.current = d.current := by
        apply List.ext_getElem?
        intro i
        rw [h.getElem?_current,h'.getElem?_current,hat]
      rw [h'.read_eq (hsize ▸ hle),h.read_eq hle,hcurrent]
    · by_cases hpos : len = 0
      · simp [DiskState.read,hpos]
      · simp only [DiskState.read,hpos,if_false,hsize,not_le.mp hle,if_true]
        split <;> rfl

section Flush
open DiskState

theorem writeAllAt_fates (f : File) (offset : ℕ) (data : List UInt8)
    (h : offset+data.length ≤ f.bytes.length) :
    ((f.fates = [] ∨ ∃ fates, f.fates = .ok::fates) ∧
      f.writeAllAt offset data = (.ok (),⟨splice f.bytes offset data,f.fates.tail⟩)) ∨
    ∃ n fates, f.fates = .fail n::fates ∧ f.writeAllAt offset data =
      (.error File.hostError,⟨splice f.bytes offset (data.take n),fates⟩) := by
  have h0 : offset-f.bytes.length = 0 := by omega
  obtain ⟨bytes,fates⟩ := f
  cases fates with
  | nil => exact .inl ⟨.inl rfl,by simp [File.writeAllAt,File.fate,File.overwrite,h0]⟩
  | cons x fates =>
    cases x with
    | ok => exact .inl ⟨.inr ⟨fates,rfl⟩,by simp [File.writeAllAt,File.fate,File.overwrite,h0]⟩
    | fail n =>
      exact .inr ⟨n,fates,rfl,by simp [File.writeAllAt,File.fate,File.overwrite,h0]⟩

/-- The bytes of a file after the first `n` bytes of a sector have been written. -/
theorem getElem?_splice_sector {bytes data : List UInt8} {sector : ℕ} (n : ℕ)
    (hl : data.length = sectorSize) (hle : sector*sectorSize+sectorSize ≤ bytes.length) (i : ℕ) :
    (splice bytes (sector*sectorSize) (data.take n))[i]? =
      if i/sectorSize = sector ∧ i%sectorSize < n then data[i%sectorSize]? else bytes[i]? := by
  have hlen : (data.take n).length = min n sectorSize := by rw [List.length_take,hl]
  have hmod := Nat.div_add_mod' i sectorSize
  have hlt := Nat.mod_lt i (show sectorSize > 0 by decide)
  rw [getElem?_splice (by omega),hlen]
  by_cases he : i/sectorSize = sector
  · rw [he] at hmod
    rw [if_neg (by omega)]
    by_cases hn : i%sectorSize < n
    · rw [if_pos (by omega),if_pos ⟨he,hn⟩,List.getElem?_take,if_pos (by omega)]
      congr 1
      omega
    · rw [if_neg (by omega),if_neg fun hc => hn hc.2]
  · have hcond : ¬ (i/sectorSize = sector ∧ i%sectorSize < n) := fun hc => he hc.1
    rw [if_neg hcond]
    have hout : ¬ (sector*sectorSize ≤ i ∧ i < sector*sectorSize+sectorSize) := by
      simp only [sectorSize] at he ⊢
      omega
    split
    · rfl
    · rw [if_neg (by omega)]

/-- Only bytes of the sectors can be lost. -/
theorem exists_of_lost {es : List (ℕ × List UInt8)} {fates : List Fate} {i : ℕ}
    (h : lostBytes es fates i) : ∃ e ∈ es, e.1 = i/sectorSize := by
  induction es generalizing fates with
  | nil => exact h.elim
  | cons e es ih =>
    cases fates with
    | nil => exact h.elim
    | cons x fates =>
      cases x with
      | ok =>
        obtain ⟨e',he',heq⟩ := ih h
        exact ⟨e',List.mem_cons_of_mem _ he',heq⟩
      | fail n =>
        obtain ⟨heq,-⟩ | ⟨e',he',heq⟩ := h
        · exact ⟨e,List.mem_cons_self,heq.symm⟩
        · exact ⟨e',List.mem_cons_of_mem _ he',heq⟩

/-- Committing sectors: a byte of one of them is written, or lost and left as it was. -/
theorem commitSectors_fates {f : File} {es : List (ℕ × List UInt8)}
    (hes : ∀ e ∈ es, e.2.length = sectorSize ∧ e.1*sectorSize+sectorSize ≤ f.bytes.length)
    (hd : es.Pairwise fun a b => a.1 ≠ b.1) :
    ∃ result bytes fates, commitSectors es f = (result,⟨bytes,fates⟩) ∧
      bytes.length = f.bytes.length ∧
      (∀ k v, (k,v) ∈ es → ∀ i, i/sectorSize = k → ¬ lostBytes es f.fates i →
        bytes[i]? = v[i%sectorSize]?) ∧
      (∀ i, lostBytes es f.fates i ∨ (∀ e ∈ es, e.1 ≠ i/sectorSize) → bytes[i]? = f.bytes[i]?) ∧
      (result = .ok () → ∀ i, ¬ lostBytes es f.fates i) := by
  induction es generalizing f with
  | nil =>
    exact ⟨.ok (),f.bytes,f.fates,rfl,rfl,fun k v hm => (by cases hm),fun _ _ => rfl,fun _ _ h => h⟩
  | cons e es ih =>
    obtain ⟨sector,data⟩ := e
    obtain ⟨⟨hl,hle⟩,hes⟩ := List.forall_mem_cons.mp hes
    obtain ⟨hne,hd⟩ := List.pairwise_cons.mp hd
    simp only at hl hle hne
    have hwhole := fun n i => getElem?_splice_sector n hl hle i
    obtain ⟨hfates,hwrite⟩ | ⟨n,fates,hfates,hwrite⟩ := writeAllAt_fates f
      (sector*sectorSize) data (by omega)
    · have hlen : (splice f.bytes (sector*sectorSize) data).length = f.bytes.length :=
        length_splice (by omega)
      have hat (i : ℕ) : (splice f.bytes (sector*sectorSize) data)[i]? =
          if i/sectorSize = sector then data[i%sectorSize]? else f.bytes[i]? := by
        have hi := hwhole sectorSize i
        have hlt := Nat.mod_lt i (show sectorSize > 0 by decide)
        rw [← hl,List.take_length,hl] at hi
        simpa [hlt] using hi
      obtain ⟨result,bytes,fates,hrun,hlen',hin,hout,hok⟩ := ih
        (f := ⟨splice f.bytes (sector*sectorSize) data,f.fates.tail⟩)
        (fun e he => by rw [hlen]; exact hes e he) hd
      have hlost (i : ℕ) : lostBytes ((sector,data)::es) f.fates i ↔
          lostBytes es f.fates.tail i := by
        obtain hnil | ⟨fates,hcons⟩ := hfates
        · rw [hnil]
          cases es <;> simp [lostBytes]
        · rw [hcons]
          rfl
      have hapart {i : ℕ} (hi : lostBytes es f.fates.tail i) : i/sectorSize ≠ sector := by
        obtain ⟨e,he,heq⟩ := exists_of_lost hi
        exact fun hc => hne e he (hc.symm.trans heq.symm)
      refine ⟨result,bytes,fates,?_,hlen'.trans hlen,fun k v hm i hi hkept => ?_,fun i hi => ?_,
        fun hr i hc => hok hr i ((hlost i).mp hc)⟩
      · simp only [commitSectors,hwrite]
        exact hrun
      · rw [hlost] at hkept
        rcases List.mem_cons.mp hm with he | hm
        · cases he
          rw [hout i (.inr fun e he hc => hne e he (hi.symm.trans hc.symm)),hat,if_pos hi]
        · exact hin k v hm i hi hkept
      · rw [hlost] at hi
        obtain hi | hi := hi
        · rw [hout i (.inl hi),hat,if_neg (hapart hi)]
        · obtain ⟨hi₁,hi₂⟩ := List.forall_mem_cons.mp hi
          rw [hout i (.inr hi₂),hat,if_neg fun hc => hi₁ hc.symm]
    · have hlen : (splice f.bytes (sector*sectorSize) (data.take n)).length = f.bytes.length := by
        apply length_splice
        have := List.length_take_le n data
        rw [List.length_take]
        omega
      refine ⟨.error File.hostError,_,fates,?_,hlen,fun k v hm i hi hkept => ?_,fun i hi => ?_,
        fun hr => by cases hr⟩
      · simp only [commitSectors,hwrite]
      · rw [hfates] at hkept
        simp only [lostBytes,not_or,not_and,not_le,not_exists] at hkept
        rcases List.mem_cons.mp hm with he | hm
        · cases he
          rw [hwhole,if_pos ⟨hi,hkept.1 hi⟩]
        · exact absurd hi.symm (hkept.2 (k,v) hm)
      · rw [hfates] at hi
        simp only [lostBytes] at hi
        rw [hwhole,if_neg]
        rintro ⟨hsector,hlt⟩
        obtain (⟨-,hge⟩ | ⟨e,he,heq⟩) | hi := hi
        · omega
        · exact hne e he (hsector.symm.trans heq.symm)
        · exact hi (sector,data) List.mem_cons_self hsector.symm

end Flush

namespace DiskSound
open DiskState
variable {d : DiskState}

/-- A disk without an overlay is sound if its file has the right length. -/
theorem of_file {bytes : List UInt8} {fates : List Fate} {size flushes : ℕ} (hl : size = bytes.length)
    (hs : size < 2^64) : DiskSound (DiskState.calm ⟨⟨bytes,fates⟩,size,∅,flushes⟩) := by
  refine ⟨rfl,hl,hs,fun k g hk => ?_⟩
  simp only [calm,Std.TreeMap.getElem?_emptyc] at hk
  cases hk

/-- Whatever the host does, a flush leaves an empty overlay, and in the file what the guest sees, but
for the lost bytes. -/
theorem flush_fates (h : DiskSound d.calm) :
    ∃ result bytes fates flushes, d.flush = (result,⟨⟨bytes,fates⟩,d.size,∅,flushes⟩) ∧
      d.size = bytes.length ∧
      (∀ i, ¬ lostBytes d.overlay.toList d.file.fates i → bytes[i]? = d.at i) ∧
      (∀ i, lostBytes d.overlay.toList d.file.fates i → bytes[i]? = d.file.bytes[i]?) ∧
      (result = .ok () → ∀ i, ¬ lostBytes d.overlay.toList d.file.fates i) := by
  have hsize : d.size = d.file.bytes.length := h.size
  have hes : ∀ e ∈ d.overlay.toList, e.2.length = sectorSize ∧
      e.1*sectorSize+sectorSize ≤ d.file.bytes.length := by
    intro e he
    rw [← hsize]
    exact h.held e.1 e.2 (Std.TreeMap.mem_toList_iff_getElem?_eq_some.mp he)
  have hd : d.overlay.toList.Pairwise fun a b => a.1 ≠ b.1 :=
    Std.TreeMap.distinct_keys_toList.imp fun hab => by rwa [Nat.compare_eq_eq] at hab
  obtain ⟨result,bytes,fates,hrun,hlen,hin,hout,hok⟩ := commitSectors_fates hes hd
  have hseen : ∀ i, ¬ lostBytes d.overlay.toList d.file.fates i → bytes[i]? = d.at i := by
    intro i hi
    rw [DiskState.at]
    cases ho : d.overlay[i/sectorSize]? with
    | some held => exact hin _ _ (Std.TreeMap.mem_toList_iff_getElem?_eq_some.mpr ho) i rfl hi
    | none =>
      refine hout i (.inr fun e he hc => ?_)
      rw [← hc,Std.TreeMap.mem_toList_iff_getElem?_eq_some.mp he] at ho
      cases ho
  have hflush (result' : Except IoError Unit) (fates' : List Fate) (flushes : ℕ)
      (hrun' : d.flush = (result',⟨⟨bytes,fates'⟩,d.size,∅,flushes⟩))
      (hok' : result' = .ok () → result = .ok ()) :
      ∃ result bytes fates flushes, d.flush = (result,⟨⟨bytes,fates⟩,d.size,∅,flushes⟩) ∧
        d.size = bytes.length ∧
        (∀ i, ¬ lostBytes d.overlay.toList d.file.fates i → bytes[i]? = d.at i) ∧
        (∀ i, lostBytes d.overlay.toList d.file.fates i → bytes[i]? = d.file.bytes[i]?) ∧
        (result = .ok () → ∀ i, ¬ lostBytes d.overlay.toList d.file.fates i) :=
    ⟨result',bytes,fates',flushes,hrun',hsize.trans hlen.symm,hseen,fun i hi => hout i (.inl hi),
      fun hr => hok (hok' hr)⟩
  cases result with
  | error e =>
    refine hflush (.error e) fates d.flushes ?_ id
    simp only [DiskState.flush,hrun]
  | ok u =>
    cases fates with
    | nil =>
      refine hflush (.ok ()) [] (d.flushes+1) ?_ id
      simp only [DiskState.flush,hrun,File.syncData,File.fate]
    | cons x fates =>
      cases x with
      | ok =>
        refine hflush (.ok ()) fates (d.flushes+1) ?_ id
        simp only [DiskState.flush,hrun,File.syncData,File.fate]
      | fail n =>
        refine hflush (.error File.hostError) fates d.flushes ?_ fun hr => by cases hr
        simp only [DiskState.flush,hrun,File.syncData,File.fate]

theorem flush_calm (h : DiskSound d.calm) :
    DiskSound d.flush.2.calm ∧ d.flush.2.size = d.size ∧ d.flush.2.overlay = ∅ := by
  obtain ⟨result,bytes,fates,flushes,hrun,hlen,-⟩ := h.flush_fates
  rw [hrun]
  exact ⟨of_file hlen h.small,rfl,rfl⟩

/-- After a flush the guest sees the file. -/
theorem flush_at (h : DiskSound d.calm) (i : ℕ) : d.flush.2.at i = d.flush.2.file.bytes[i]? := by
  apply DiskSound.at_file
  rw [h.flush_calm.2.2,Std.TreeMap.getElem?_emptyc]

/-- A flush keeps what reads return exactly if the file has every lost byte already. -/
theorem flush_reads_iff (h : DiskSound d.calm) :
    (∀ off len, (d.flush.2.calm.read off len).1 = (d.calm.read off len).1) ↔ Spared d := by
  have hcalm := h.flush_calm
  rw [reads_eq_iff h hcalm.1 hcalm.2.1]
  simp only [calm_at]
  obtain ⟨result,bytes,fates,flushes,hrun,-,hseen,hlost,-⟩ := h.flush_fates
  have hat (i : ℕ) : d.flush.2.at i = bytes[i]? := by
    rw [h.flush_at,hrun]
  constructor
  · intro heq i hi
    rw [← heq i,hat,hlost i hi]
  · intro hspared i
    rw [hat]
    by_cases hi : lostBytes d.overlay.toList d.file.fates i
    · rw [hlost i hi,hspared i hi]
    · exact hseen i hi

/-- A flush that succeeds has put all that the guest sees into the file. -/
theorem flush_durable (h : DiskSound d.calm) (hok : d.flush.1 = .ok ()) (i : ℕ) :
    d.flush.2.file.bytes[i]? = d.at i := by
  obtain ⟨result,bytes,fates,flushes,hrun,-,hseen,-,hnone⟩ := h.flush_fates
  rw [hrun] at hok ⊢
  exact hseen i (hnone hok i)

/-- Taking a sector on a host that may fail. -/
theorem hold_fates (h : DiskSound d.calm) (sector : ℕ) :
    (∃ held overlay fates, d.hold sector =
      (.ok held,⟨⟨d.file.bytes,fates⟩,d.size,overlay,d.flushes⟩) ∧
      d.calm.hold sector = (.ok held,{ d.calm with overlay })) ∨
    ∃ e fates, d.hold sector = (.error e,⟨⟨d.file.bytes,fates⟩,d.size,d.overlay,d.flushes⟩) := by
  obtain ⟨⟨bytes,fates⟩,size,overlay,flushes⟩ := d
  cases ho : overlay[sector]? with
  | some held =>
    refine .inl ⟨held,overlay,fates,?_,?_⟩
    · simp only [DiskState.hold,ho]
    · simp only [DiskState.hold,calm,ho]
  | none =>
    have hread (rest : List Fate) (hrest : (fates = [] ∧ rest = []) ∨ fates = .ok::rest)
        (hle : sector*sectorSize+sectorSize ≤ bytes.length) :
        File.readExactAt ⟨bytes,fates⟩ (sector*sectorSize) sectorSize =
          (.ok (slice bytes (sector*sectorSize) sectorSize),⟨bytes,rest⟩) := by
      obtain ⟨rfl,rfl⟩ | rfl := hrest
      · simp only [File.readExactAt,File.fate,if_pos hle]
      · simp only [File.readExactAt,File.fate,if_pos hle]
    have hshort (rest : List Fate) (hrest : (fates = [] ∧ rest = []) ∨ fates = .ok::rest)
        (hle : ¬ sector*sectorSize+sectorSize ≤ bytes.length) :
        File.readExactAt ⟨bytes,fates⟩ (sector*sectorSize) sectorSize =
          (.error ⟨.unexpectedEof,"failed to fill whole buffer"⟩,⟨bytes,rest⟩) := by
      obtain ⟨rfl,rfl⟩ | rfl := hrest
      · simp only [File.readExactAt,File.fate,if_neg hle]
      · simp only [File.readExactAt,File.fate,if_neg hle]
    have hcases : (∃ rest, (fates = [] ∧ rest = []) ∨ fates = .ok::rest) ∨
        ∃ n rest, fates = .fail n::rest := by
      cases fates with
      | nil => exact .inl ⟨[],.inl ⟨rfl,rfl⟩⟩
      | cons x rest =>
        cases x with
        | ok => exact .inl ⟨rest,.inr rfl⟩
        | fail n => exact .inr ⟨n,rest,rfl⟩
    obtain ⟨rest,hrest⟩ | ⟨n,rest,rfl⟩ := hcases
    · by_cases hle : sector*sectorSize+sectorSize ≤ bytes.length
      · refine .inl ⟨slice bytes (sector*sectorSize) sectorSize,
          overlay.insert sector (slice bytes (sector*sectorSize) sectorSize),rest,?_,?_⟩
        · simp only [DiskState.hold,ho,hread rest hrest hle]
        · simp only [DiskState.hold,calm,ho,File.readExactAt,File.fate,if_pos hle]
      · refine .inr ⟨⟨.unexpectedEof,"failed to fill whole buffer"⟩,rest,?_⟩
        simp only [DiskState.hold,ho,hshort rest hrest hle]
    · refine .inr ⟨File.hostError,rest,?_⟩
      simp only [DiskState.hold,ho,File.readExactAt,File.fate]

/-- The loop of `write` on a host that may fail: some of the sectors are done, all of them if it
succeeds. -/
theorem writeSectors_fates (h : DiskSound d.calm) {offset stop : ℕ} {data : List UInt8}
    (hdata : offset+data.length = stop) (hlt : offset < stop) {todo : List ℕ}
    (htodo : ∀ k ∈ todo, k*sectorSize < stop ∧ offset < k*sectorSize+sectorSize) :
    ∃ result overlay fates done, DiskState.writeSectors offset stop data todo d =
        (result,⟨⟨d.file.bytes,fates⟩,d.size,overlay,d.flushes⟩) ∧
      Written d.calm offset stop data done overlay ∧ (result = .ok () → done = todo) := by
  induction todo generalizing d with
  | nil => exact ⟨.ok (),d.overlay,d.file.fates,[],rfl,.nil h offset stop data,fun _ => rfl⟩
  | cons sector todo ih =>
    obtain ⟨hk,htodo⟩ := List.forall_mem_cons.mp htodo
    obtain ⟨held,overlay,fates,hhold,hcalm⟩ | ⟨e,fates,hhold⟩ := h.hold_fates sector
    · have hle : sector*sectorSize+sectorSize ≤ d.size := by
        by_contra hc
        obtain ⟨e,he⟩ := h.hold_ragged (not_le.mp hc)
        rw [hcalm] at he
        cases he
      obtain ⟨held',overlay',hhold',hw⟩ := h.patch hdata hle hlt hk.1 hk.2
      rw [hcalm] at hhold'
      cases hhold'
      obtain ⟨result,overlay'',fates'',done,hrun,hw',hdone⟩ := ih
        (d := ⟨⟨d.file.bytes,fates⟩,d.size,_,d.flushes⟩) hw.inv htodo
      refine ⟨result,overlay'',fates'',sector::done,?_,hw.cons hw',fun hr => by rw [hdone hr]⟩
      simp only [DiskState.writeSectors,hhold]
      exact hrun
    · refine ⟨.error e,d.overlay,fates,[],?_,.nil h offset stop data,fun hr => by cases hr⟩
      simp only [DiskState.writeSectors,hhold]

end DiskSound

namespace DiskSound
open DiskState
variable {d : DiskState}

/-- A flush that spares what the guest sees changes none of it. -/
theorem at_flush (h : DiskSound d.calm) (hs : Spared d) (i : ℕ) : d.flush.2.at i = d.at i :=
  (reads_eq_iff h h.flush_calm.1 h.flush_calm.2.1).mp (h.flush_reads_iff.mpr hs) i

/-- Everything `write` can do on a host that may fail. -/
theorem write_cases (h : DiskSound d.calm) (offset : ℕ) (data : List UInt8) :
    (data = [] ∧ d.write offset data = (.ok (),d) ∧ d.taken offset data = none) ∨
    (d.size < offset+data.length ∧ ∃ e, d.write offset data = (.error e,d) ∧
      d.taken offset data = none) ∨
    (offset+data.length ≤ d.size ∧ ∃ m, DiskSound m.calm ∧
      (∀ i, ¬ (offset ≤ i ∧ i < offset+data.length) → m.at i = d.at i) ∧
      ((∃ e, d.write offset data = (.error e,m) ∧ d.taken offset data = none) ∨
        (d.taken offset data = some m ∧
          (∀ i, offset ≤ i → i < offset+data.length → m.at i = data[i-offset]?) ∧
          d.write offset data =
            if overlayCapBytes < m.overlay.size*sectorSize then m.flush else (.ok (),m)))) := by
  by_cases hpos : data = []
  · exact .inl ⟨hpos,by simp [DiskState.write,hpos],by simp [taken,hpos]⟩
  · by_cases hin : offset+data.length ≤ d.size
    · have hlen := List.length_pos_of_ne_nil hpos
      have hsmall : d.size < 2^64 := h.small
      have hlt : offset < offset+data.length := by omega
      have hwindow : ∀ k ∈ sectors offset (offset+data.length),
          k*sectorSize < offset+data.length ∧ offset < k*sectorSize+sectorSize :=
        fun k hk => (mem_sectors hlt).mp hk
      obtain ⟨result,overlay,fates,done,hrun,hw,hdone⟩ := h.writeSectors_fates rfl hlt hwindow
      have hok : ¬ (data = [] ∨ 2^64 ≤ offset+data.length ∨ d.size < offset+data.length) := by
        rintro (hc | hc | hc)
        · exact hpos hc
        · omega
        · omega
      have h₁ : ¬ 2^64 ≤ offset+data.length := by omega
      have h₂ : ¬ d.size < offset+data.length := by omega
      refine .inr (.inr ⟨hin,⟨⟨d.file.bytes,fates⟩,d.size,overlay,d.flushes⟩,hw.inv,?_,?_⟩)
      · intro i hi
        exact (hw.at_eq i).trans (if_neg fun hc => hi hc.2)
      · cases result with
        | error e =>
          refine .inl ⟨e,?_,?_⟩
          · simp only [DiskState.write,if_neg hpos,if_neg h₁,if_neg h₂,hrun]
          · simp only [taken,if_neg hok,hrun]
        | ok u =>
          refine .inr ⟨?_,fun i hlo hhi => ?_,?_⟩
          · simp only [taken,if_neg hok,hrun]
          · have hmem : i/sectorSize ∈ done := by
              rw [hdone rfl,mem_sectors hlt]
              simp only [sectorSize]
              omega
            exact (hw.at_eq i).trans (if_pos ⟨hmem,hlo,hhi⟩)
          · simp only [DiskState.write,if_neg hpos,if_neg h₁,if_neg h₂,hrun]
    · obtain ⟨e,he⟩ := write_refused hpos (not_le.mp hin)
      refine .inr (.inl ⟨not_le.mp hin,e,he,if_pos (.inr (.inr (not_le.mp hin)))⟩)

end DiskSound

/-- A disk with the bytes that are owed to the guest: at a position, the byte of an acknowledged
write that no later write has covered and no power cut has dropped. -/
structure Tracked where
  disk : DiskState
  owed : ℕ → Option UInt8

/-- The bytes of a write over what was owed. -/
def overlaid (owed : ℕ → Option UInt8) (offset : ℕ) (data : List UInt8) : ℕ → Option UInt8 :=
  fun i => if offset ≤ i ∧ i < offset+data.length then data[i-offset]? else owed i

/-- What is owed after a write in range that failed: it may have been carried out in part. -/
def unsettled (owed : ℕ → Option UInt8) (offset len : ℕ) : ℕ → Option UInt8 :=
  fun i => if offset ≤ i ∧ i < offset+len then none else owed i

namespace Tracked

/-- What is owed once the data of a request has been taken. -/
def owedDuring (t : Tracked) (r : Request) : ℕ → Option UInt8 :=
  match r.command with
  | .write payload => overlaid t.owed r.offset payload
  | _ => t.owed

/-- What is owed once a request has been answered. -/
def owedAfter (t : Tracked) (r : Request) : ℕ → Option UInt8 :=
  match r.command with
  | .write payload =>
    if t.disk.size < r.offset+payload.length then t.owed
    else if (t.disk.serve r).1.any fun reply => decide (reply.error = 0) then
      overlaid t.owed r.offset payload
    else unsettled t.owed r.offset payload.length
  | _ => t.owed

/-- A power cut drops the sectors that are in the overlay. -/
def powerCut (t : Tracked) : Tracked :=
  ⟨t.disk.powerCut,fun i => if i/sectorSize ∈ t.disk.overlay then none else t.owed i⟩

/-- The flushes of a step lose nothing: reads return after each what they did before, and one that
succeeds makes every byte durable that is owed. -/
def Lossless (t : Tracked) : DiskAction → Prop
  | .request r => ∀ m ∈ t.disk.flushPoints r,
    (∀ off len, (m.flush.2.calm.read off len).1 = (m.calm.read off len).1) ∧
    (m.flush.1 = .ok () → ∀ i b, t.owedDuring r i = some b → m.flush.2.file.bytes[i]? = some b)
  | .powerCut => True

/-- At no flush of a step does the host fail to write a byte that the file does not have already. -/
def HostSpares (t : Tracked) : DiskAction → Prop
  | .request r => ∀ m ∈ t.disk.flushPoints r, m.Spared
  | .powerCut => True

end Tracked

def trackedMachine : Machine Tracked DiskAction (Option Reply) where
  step t
    | .request r => some (⟨(t.disk.serve r).2,t.owedAfter r⟩,(t.disk.serve r).1)
    | .powerCut => some (t.powerCut,none)

/-- What is owed is what the guest sees. -/
structure TrackedInv (t : Tracked) : Prop where
  sound : DiskSound t.disk.calm
  seen : ∀ i b, t.owed i = some b → t.disk.at i = some b

/-- Bytes owed that a disk shows. -/
def Shows (d : DiskState) (owed : ℕ → Option UInt8) : Prop := ∀ i b, owed i = some b → d.at i = some b

theorem Shows.congr {d d' : DiskState} {owed : ℕ → Option UInt8} (h : Shows d owed)
    (hat : ∀ i, d'.at i = d.at i) : Shows d' owed :=
  fun i b hi => (hat i).trans (h i b hi)

theorem overlaid_nil (owed : ℕ → Option UInt8) (offset : ℕ) : overlaid owed offset [] = owed := by
  funext i
  rw [overlaid,List.length_nil,if_neg (by omega)]

/-- A write's data is shown, with what was shown elsewhere. -/
theorem shows_overlaid {d m : DiskState} {owed : ℕ → Option UInt8} {offset : ℕ} {data : List UInt8}
    (h : Shows d owed) (hout : ∀ i, ¬ (offset ≤ i ∧ i < offset+data.length) → m.at i = d.at i)
    (hin : ∀ i, offset ≤ i → i < offset+data.length → m.at i = data[i-offset]?) :
    Shows m (overlaid owed offset data) := by
  intro i b hi
  unfold overlaid at hi
  split at hi
  · next hc => rw [hin i hc.1 hc.2,hi]
  · next hc => rw [hout i hc,h i b hi]

theorem shows_unsettled {d m : DiskState} {owed : ℕ → Option UInt8} {offset len : ℕ}
    (h : Shows d owed) (hout : ∀ i, ¬ (offset ≤ i ∧ i < offset+len) → m.at i = d.at i) :
    Shows m (unsettled owed offset len) := by
  intro i b hi
  unfold unsettled at hi
  split at hi
  · cases hi
  · next hc => rw [hout i hc,h i b hi]

/-- Leaving out the bytes of a write leaves less to show. -/
theorem shows_unsettled_of_overlaid {d : DiskState} {owed : ℕ → Option UInt8} {offset : ℕ}
    {data : List UInt8} (h : Shows d (overlaid owed offset data)) :
    Shows d (unsettled owed offset data.length) := by
  intro i b hi
  refine h i b ?_
  unfold unsettled at hi
  unfold overlaid
  split at hi
  · cases hi
  · next hc => rw [if_neg hc,hi]

section Step
open DiskState
variable {t : Tracked} {r : Request} {payload : List UInt8}

theorem serve_write_of_ok {d m : DiskState} (hr : r.command = .write payload)
    (hw : d.write r.offset payload = (.ok (),m)) :
    d.serve r = if r.fua then (r.reply m.flush.1,m.flush.2) else (r.reply (.ok ()),m) := by
  simp only [DiskState.serve,hr,hw]

theorem serve_write_of_error {d m : DiskState} {e : IoError} (hr : r.command = .write payload)
    (hw : d.write r.offset payload = (.error e,m)) : d.serve r = (r.reply (.error e),m) := by
  simp only [DiskState.serve,hr,hw]

/-- The state that a write commits because of the cap. -/
def capPoints (d : DiskState) (offset : ℕ) (data : List UInt8) : List DiskState :=
  ((d.taken offset data).filter fun m =>
    decide (overlayCapBytes < m.overlay.size*sectorSize)).toList

theorem flushPoints_of_ok {d m : DiskState} (hr : r.command = .write payload)
    (hw : d.write r.offset payload = (.ok (),m)) :
    d.flushPoints r = capPoints d r.offset payload++if r.fua then [m] else [] := by
  simp only [flushPoints,hr,hw,capPoints]

theorem flushPoints_of_error {d m : DiskState} {e : IoError} (hr : r.command = .write payload)
    (hw : d.write r.offset payload = (.error e,m)) :
    d.flushPoints r = capPoints d r.offset payload := by
  simp only [flushPoints,hr,hw,capPoints,List.append_nil]

/-- What is known at the flushes of a step and after it. -/
structure Accounted (points : List DiskState) (d' : DiskState) (during after : ℕ → Option UInt8) :
    Prop where
  sound : ∀ m ∈ points, DiskSound m.calm
  shows : (∀ m ∈ points, m.Spared) → ∀ m ∈ points, Shows m during
  sound_after : DiskSound d'.calm
  shows_after : (∀ m ∈ points, m.Spared) → Shows d' after

/-- A write that has been taken in, and is flushed if it is to be durable at once. -/
theorem accounted_fua {m : DiskState} {owed : ℕ → Option UInt8} (hm : DiskSound m.calm)
    (hs : Shows m owed) (r : Request) :
    Accounted (if r.fua then [m] else [])
      (if r.fua then (r.reply m.flush.1,m.flush.2) else (r.reply (.ok ()),m)).2 owed owed := by
  by_cases hf : r.fua
  · simp only [if_pos hf]
    refine ⟨by simpa using hm,fun _ => by simpa using hs,hm.flush_calm.1,fun hspared => ?_⟩
    exact hs.congr (hm.at_flush (hspared m List.mem_cons_self))
  · simp only [if_neg hf]
    exact ⟨by simp,fun _ => by simp,hm,fun _ => hs⟩

theorem reply_acknowledges (r : Request) (result : Except IoError Unit) :
    (r.reply result).any (fun reply => decide (reply.error = 0)) = true ↔ result = .ok () := by
  cases result <;> simp [Request.reply,nbdEio]

/-- What a write in range leaves owed is shown where its data is, and where only what lies beside
it is, unless it was acknowledged. -/
theorem shows_owedAfter {d' : DiskState} (hr : r.command = .write payload)
    (hin : r.offset+payload.length ≤ t.disk.size)
    (h : Shows d' (overlaid t.owed r.offset payload) ∨
      ((t.disk.serve r).1.any (fun reply => decide (reply.error = 0)) = false ∧
        Shows d' (unsettled t.owed r.offset payload.length))) : Shows d' (t.owedAfter r) := by
  simp only [Tracked.owedAfter,hr,if_neg (not_lt.mpr hin)]
  obtain h | ⟨hack,h⟩ := h
  · split
    · exact h
    · exact shows_unsettled_of_overlaid h
  · rw [hack]
    exact h

theorem write_accounted (h : TrackedInv t) (hr : r.command = .write payload) :
    Accounted (t.disk.flushPoints r) (t.disk.serve r).2 (t.owedDuring r) (t.owedAfter r) := by
  have hduring : t.owedDuring r = overlaid t.owed r.offset payload := by
    simp only [Tracked.owedDuring,hr]
  rw [hduring]
  obtain ⟨rfl,hw,htaken⟩ | ⟨hout,e,hw,htaken⟩ | ⟨hin,m,hm,hbeside,hm'⟩ :=
    h.sound.write_cases r.offset payload
  · have hafter : t.owedAfter r = t.owed := by
      simp only [Tracked.owedAfter,hr,List.length_nil]
      have hnil : unsettled t.owed r.offset 0 = t.owed := by
        funext i
        rw [unsettled,if_neg (by omega)]
      rw [overlaid_nil,hnil]
      split
      · rfl
      · split <;> rfl
    rw [flushPoints_of_ok hr hw,serve_write_of_ok hr hw,hafter,overlaid_nil,capPoints,htaken]
    exact accounted_fua h.sound h.seen r
  · have hafter : t.owedAfter r = t.owed := by
      simp only [Tracked.owedAfter,hr,if_pos hout]
    rw [flushPoints_of_error hr hw,serve_write_of_error hr hw,hafter,capPoints,htaken]
    exact ⟨by simp,fun _ => by simp,h.sound,fun _ => h.seen⟩
  · obtain ⟨e,hw,htaken⟩ | ⟨htaken,hdata,hw⟩ := hm'
    · have hserve := serve_write_of_error hr hw
      rw [flushPoints_of_error hr hw,capPoints,htaken]
      refine ⟨by simp,fun _ => by simp,?_,fun _ => ?_⟩
      · rw [hserve]
        exact hm
      · refine shows_owedAfter hr hin (.inr ⟨?_,?_⟩)
        · rw [hserve]
          rfl
        · rw [hserve]
          exact shows_unsettled h.seen hbeside
    · have hshows : Shows m (overlaid t.owed r.offset payload) :=
        shows_overlaid h.seen hbeside hdata
      by_cases hcap : overlayCapBytes < m.overlay.size*sectorSize
      · rw [if_pos hcap] at hw
        have hpoints : capPoints t.disk r.offset payload = [m] := by
          simp [capPoints,htaken,hcap]
        have hflushed (hs : m.Spared) : Shows m.flush.2 (overlaid t.owed r.offset payload) :=
          hshows.congr (hm.at_flush hs)
        have hmflush := hm.flush_calm.1
        generalize hflush : m.flush = q at hw hflushed hmflush
        obtain ⟨result,d'⟩ := q
        cases result with
        | error e =>
          rw [flushPoints_of_error hr hw,hpoints]
          refine ⟨by simpa using hm,fun _ => by simpa using hshows,?_,fun hs => ?_⟩
          · rw [serve_write_of_error hr hw]
            exact hmflush
          · rw [serve_write_of_error hr hw]
            exact shows_owedAfter hr hin (.inl (hflushed (hs m List.mem_cons_self)))
        | ok u =>
          rw [flushPoints_of_ok hr hw,hpoints]
          by_cases hs : m.Spared
          · obtain ⟨hsound,hseen,hsound',hseen'⟩ := accounted_fua hmflush (hflushed hs) r
            refine ⟨?_,fun hall => ?_,?_,fun hall => ?_⟩
            · exact List.forall_mem_cons.mpr ⟨hm,hsound⟩
            · have hall' := hseen fun x hx => hall x (List.mem_append_right _ hx)
              exact List.forall_mem_cons.mpr ⟨hshows,hall'⟩
            · rw [serve_write_of_ok hr hw]
              exact hsound'
            · have hlast := hseen' fun x hx => hall x (List.mem_append_right _ hx)
              refine shows_owedAfter hr hin (.inl ?_)
              rw [serve_write_of_ok hr hw]
              exact hlast
          · have hsound := accounted_fua hmflush
              (fun i b (hi : (none : Option UInt8) = some b) => by cases hi) r
            refine ⟨?_,fun hall => absurd (hall m List.mem_cons_self) hs,?_,
              fun hall => absurd (hall m List.mem_cons_self) hs⟩
            · exact List.forall_mem_cons.mpr ⟨hm,hsound.sound⟩
            · rw [serve_write_of_ok hr hw]
              exact hsound.sound_after
      · rw [if_neg hcap] at hw
        have hpoints : capPoints t.disk r.offset payload = [] := by
          simp [capPoints,htaken,not_lt.mp hcap]
        obtain ⟨hsound,hseen,hsound',hseen'⟩ := accounted_fua hm hshows r
        rw [flushPoints_of_ok hr hw,hpoints,List.nil_append]
        refine ⟨hsound,hseen,?_,fun hall => shows_owedAfter hr hin (.inl ?_)⟩
        · rw [serve_write_of_ok hr hw]
          exact hsound'
        · rw [serve_write_of_ok hr hw]
          exact hseen' hall

end Step

/-- A read changes the disk at most in what the host answers next. -/
theorem read_calm (d : DiskState) (offset len : ℕ) : (d.read offset len).2.calm = d.calm := by
  have hfile : (d.file.readExactAt offset len).2.bytes = d.file.bytes := by
    obtain ⟨bytes,fates⟩ := d.file
    cases fates with
    | nil =>
      simp only [File.readExactAt,File.fate]
      split <;> rfl
    | cons x fates =>
      cases x with
      | ok =>
        simp only [File.readExactAt,File.fate]
        split <;> rfl
      | fail n => rfl
  unfold DiskState.read
  split
  · rfl
  · split
    · rfl
    · split
      · rfl
      · split
        · next e file hf =>
          rw [hf] at hfile
          simp only [DiskState.calm]
          rw [show file.bytes = d.file.bytes from hfile]
        · next buf file hf =>
          rw [hf] at hfile
          simp only [DiskState.calm]
          rw [show file.bytes = d.file.bytes from hfile]

theorem request_accounted {t : Tracked} (h : TrackedInv t) (r : Request) :
    Accounted (t.disk.flushPoints r) (t.disk.serve r).2 (t.owedDuring r) (t.owedAfter r) := by
  cases hr : r.command with
  | read length =>
    have hcalm : (t.disk.serve r).2.calm = t.disk.calm := by
      have hread := read_calm t.disk r.offset length
      simp only [DiskState.serve,hr]
      generalize t.disk.read r.offset length = q at hread ⊢
      obtain ⟨_ | _,d'⟩ := q
      · exact hread
      · exact hread
    simp only [DiskState.flushPoints,Tracked.owedDuring,Tracked.owedAfter,hr]
    refine ⟨by simp,fun _ => by simp,?_,fun _ => Shows.congr h.seen fun i => ?_⟩
    · rw [hcalm]
      exact h.sound
    · rw [← DiskState.calm_at,hcalm,DiskState.calm_at]
  | write payload => exact write_accounted h hr
  | flush =>
    simp only [DiskState.flushPoints,DiskState.serve,Tracked.owedDuring,Tracked.owedAfter,hr]
    refine ⟨List.forall_mem_singleton.mpr h.sound,fun _ => List.forall_mem_singleton.mpr h.seen,
      h.sound.flush_calm.1,fun hs => ?_⟩
    exact Shows.congr h.seen (h.sound.at_flush (hs _ List.mem_cons_self))
  | disc =>
    simp only [DiskState.flushPoints,DiskState.serve,Tracked.owedDuring,Tracked.owedAfter,hr]
    exact ⟨by simp,fun _ => by simp,h.sound,fun _ => h.seen⟩
  | other code =>
    simp only [DiskState.flushPoints,DiskState.serve,Tracked.owedDuring,Tracked.owedAfter,hr]
    exact ⟨by simp,fun _ => by simp,h.sound,fun _ => h.seen⟩

/-- A step loses nothing exactly if the host spares it. -/
theorem lossless_iff {t : Tracked} (h : TrackedInv t) (a : DiskAction) :
    t.Lossless a ↔ t.HostSpares a := by
  cases a with
  | powerCut => exact iff_of_true trivial trivial
  | request r =>
    obtain ⟨hsound,hshows,-,-⟩ := request_accounted h r
    constructor
    · intro hl m hm
      exact (hsound m hm).flush_reads_iff.mp (hl m hm).1
    · intro hs m hm
      refine ⟨(hsound m hm).flush_reads_iff.mpr (hs m hm),fun hok i b hi => ?_⟩
      rw [(hsound m hm).flush_durable hok i]
      exact hshows hs m hm i b hi

/-- A step that the host spares keeps what is owed in sight. -/
theorem TrackedInv.step {t t' : Tracked} {a : DiskAction} {o : Option Reply} (h : TrackedInv t)
    (hs : t.HostSpares a) (hstep : trackedMachine.step t a = some (t',o)) : TrackedInv t' := by
  cases a with
  | request r =>
    obtain ⟨-,-,hsound,hshows⟩ := request_accounted h r
    cases hstep
    exact ⟨hsound,hshows hs⟩
  | powerCut =>
    cases hstep
    refine ⟨h.sound.powerCut,fun i b hi => ?_⟩
    simp only [Tracked.powerCut] at hi ⊢
    split at hi
    · cases hi
    · next hout =>
      have hat := h.seen i b hi
      rw [Std.TreeMap.mem_iff_isSome_getElem?,Option.not_isSome_iff_eq_none] at hout
      rw [DiskSound.at_file hout] at hat
      rw [DiskSound.at_file (d := t.disk.powerCut) Std.TreeMap.getElem?_emptyc]
      exact hat

theorem trackedInv_start {image : List UInt8} (hs : image.length < 2^64) (fates : List Fate) :
    TrackedInv ⟨DiskState.start image fates,fun _ => none⟩ :=
  ⟨DiskSound.start hs,fun i b hi => by cases hi⟩

/-- No flush of a run loses anything exactly if, at each, the bytes that a failing host does not get
to write are in the file already: reads return after it what they did before, and a flush that
succeeds makes every byte durable that is owed. -/
theorem flushes_lossless_iff {image : List UInt8} (hs : image.length < 2^64) (fates : List Fate)
    (as : List DiskAction) :
    trackedMachine.Obeys Tracked.Lossless ⟨DiskState.start image fates,fun _ => none⟩ as ↔
      trackedMachine.Obeys Tracked.HostSpares ⟨DiskState.start image fates,fun _ => none⟩ as :=
  trackedMachine.obeys_congr (fun _ a h => lossless_iff h a)
    (fun _ _ _ _ h hok hstep => h.step hok hstep) (trackedInv_start hs fates) as

/-- A host that does not fail again spares every flush. -/
theorem spared_of_fates {d : DiskState} (h : d.file.fates = []) : d.Spared := by
  intro i hi
  rw [h] at hi
  cases hl : d.overlay.toList with
  | nil =>
    rw [hl] at hi
    exact hi.elim
  | cons e es =>
    rw [hl] at hi
    exact hi.elim

/-- A flush whose sync fails, with nothing to write, and then a write and a flush that succeed. -/
theorem flushes_lossless_iff_failed_sync :
    trackedMachine.Obeys Tracked.Lossless
      ⟨DiskState.start (List.replicate 512 0) [.fail 0],fun _ => none⟩
      [.request ⟨0,.flush,1,0⟩,.request ⟨0,.write [7],2,0⟩,.request ⟨0,.flush,3,0⟩] := by
  refine (flushes_lossless_iff (by rw [List.length_replicate]; decide) [.fail 0] _).mpr ?_
  refine .cons _ rfl ?_ (.cons _ rfl ?_ (.cons _ rfl ?_ trivial))
  · intro m hm i hi
    rw [List.mem_singleton.mp hm] at hi
    exact hi.elim
  · intro m hm
    have hnone : (DiskState.flushPoints
        (DiskState.serve (DiskState.start (List.replicate 512 0) [.fail 0]) ⟨0,.flush,1,0⟩).2
        ⟨0,.write [7],2,0⟩).length = 0 := by decide +kernel
    rw [List.length_eq_zero_iff.mp hnone] at hm
    cases hm
  · intro m hm
    rw [List.mem_singleton.mp hm]
    exact spared_of_fates (by decide +kernel)

/-- The host fails to write the one sector: the acknowledged byte is gone, from the reads at once and
for good after the next flush. -/
theorem failed_flush_loses_write :
    (diskMachine.run (DiskState.start (List.replicate 512 0) [.ok,.fail 0])
      [.request ⟨0,.write [7],1,0⟩,.request ⟨0,.flush,2,0⟩,.request ⟨0,.read 1,3,0⟩,
        .request ⟨0,.flush,4,0⟩,.request ⟨0,.read 1,5,0⟩]).map Prod.snd =
      some [some ⟨0,1,[]⟩,some ⟨nbdEio,2,[]⟩,some ⟨0,3,[0]⟩,some ⟨0,4,[]⟩,some ⟨0,5,[0]⟩] ∧
    ¬ trackedMachine.Obeys Tracked.Lossless
      ⟨DiskState.start (List.replicate 512 0) [.ok,.fail 0],fun _ => none⟩
      [.request ⟨0,.write [7],1,0⟩,.request ⟨0,.flush,2,0⟩] := by
  refine ⟨by decide +kernel,fun h => ?_⟩
  obtain ⟨-,h⟩ := h _ rfl
  obtain ⟨hl,-⟩ := h _ rfl
  have hread := congrArg Except.toOption ((hl _ (List.mem_singleton.mpr rfl)).1 0 1)
  revert hread
  decide +kernel

end Provium.Nbd
