import Provium.Nbd.Platter

/-! Writes on an image that does not end on a sector boundary. `write` takes whole sectors from the
file, so it fails at the ragged end, after the sectors before it have been taken into the overlay.
Everywhere else a write is atomic and, in range, total. -/
namespace Provium.Nbd
open Lib

/-- A write in range succeeds and is seen by the reads that follow; a refused one leaves what reads
return, and what a later flush would commit, as it was. -/
structure WriteAtomic (d : DiskState) (offset : ℕ) (data : List UInt8) : Prop where
  succeeds : offset+data.length ≤ d.size → (d.write offset data).1 = .ok ()
  shows : offset+data.length ≤ d.size → ∃ seen, seen.length = d.size ∧
    (∀ off len, off+len ≤ d.size → (d.read off len).1 = .ok (slice seen off len)) ∧
    ∀ off len, off+len ≤ d.size →
      ((d.write offset data).2.read off len).1 = .ok (slice (splice seen offset data) off len)
  refused : ∀ e, (d.write offset data).1 = .error e →
    (∀ off len, ((d.write offset data).2.read off len).1 = (d.read off len).1) ∧
    (d.write offset data).2.overlay.keys = d.overlay.keys

namespace DiskSound
variable {d : DiskState}

/-- Every read in range returns what the guest sees, the empty one as well. -/
theorem read_eq (h : DiskSound d) {off len : ℕ} (hle : off+len ≤ d.size) :
    (d.read off len).1 = .ok (slice d.current off len) := by
  by_cases hpos : len = 0
  · subst hpos
    simp [DiskState.read,slice_zero]
  · rw [h.read_ok hpos hle]

theorem read_disk (h : DiskSound d) (off len : ℕ) : (d.read off len).2 = d := by
  by_cases hpos : len = 0
  · simp [DiskState.read,hpos]
  · by_cases hle : off+len ≤ d.size
    · rw [h.read_ok hpos hle]
    · obtain ⟨e,he⟩ := read_refused hpos (not_le.mp hle)
      rw [he]

/-- A sector that the file does not hold whole can be held by no overlay, and not be read. -/
theorem hold_ragged (h : DiskSound d) {sector : ℕ} (hlt : d.size < sector*sectorSize+sectorSize) :
    ∃ e, d.hold sector = (.error e,d) := by
  cases ho : d.overlay[sector]? with
  | some held =>
    have := (h.held _ _ ho).2
    omega
  | none =>
    have hsize := h.size
    have hread : d.file.readExactAt (sector*sectorSize) sectorSize =
        (.error ⟨.unexpectedEof,"failed to fill whole buffer"⟩,d.file) := by
      simp only [File.readExactAt,File.fate,h.fates]
      rw [if_neg (by omega)]
    refine ⟨⟨.unexpectedEof,"failed to fill whole buffer"⟩,?_⟩
    simp only [DiskState.hold,ho,hread]

/-- The loop of `write` succeeds exactly if every sector it comes to is a whole one, and the disk
is sound whether it does or not. -/
theorem writeSectors_cases (h : DiskSound d) {offset stop : ℕ} {data : List UInt8}
    (hdata : offset+data.length = stop) (hlt : offset < stop) {todo : List ℕ}
    (htodo : ∀ k ∈ todo, k*sectorSize < stop ∧ offset < k*sectorSize+sectorSize) :
    ∃ result overlay, DiskState.writeSectors offset stop data todo d = (result,{ d with overlay }) ∧
      DiskSound { d with overlay } ∧
      (result = .ok () ↔ ∀ k ∈ todo, k*sectorSize+sectorSize ≤ d.size) := by
  induction todo generalizing d with
  | nil => exact ⟨.ok (),d.overlay,rfl,h,by simp⟩
  | cons sector todo ih =>
    obtain ⟨hk,htodo⟩ := List.forall_mem_cons.mp htodo
    by_cases hle : sector*sectorSize+sectorSize ≤ d.size
    · obtain ⟨held,overlay,hhold,hw⟩ := h.patch hdata hle hlt hk.1 hk.2
      obtain ⟨result,overlay',hrun,hsound,hiff⟩ := ih hw.inv htodo
      refine ⟨result,overlay',?_,hsound,?_⟩
      · simp only [DiskState.writeSectors,hhold]
        exact hrun
      · rw [hiff,List.forall_mem_cons]
        exact (and_iff_right hle).symm
    · obtain ⟨e,hhold⟩ := h.hold_ragged (not_le.mp hle)
      refine ⟨.error e,d.overlay,?_,h,?_⟩
      · simp only [DiskState.writeSectors,hhold]
      · rw [List.forall_mem_cons]
        exact iff_of_false (by simp) fun hc => hle hc.1

/-- Where a write in range comes to the ragged end, it fails. -/
theorem write_ragged (h : DiskSound d) {offset : ℕ} {data : List UInt8} (hpos : data ≠ [])
    (hin : offset+data.length ≤ d.size)
    (hragged : d.size/sectorSize*sectorSize < offset+data.length) :
    ∃ e overlay, d.write offset data = (.error e,{ d with overlay }) ∧
      DiskSound { d with overlay } := by
  have hlen := List.length_pos_of_ne_nil hpos
  have hsmall := h.small
  have hwindow : ∀ k ∈ sectors offset (offset+data.length),
      k*sectorSize < offset+data.length ∧ offset < k*sectorSize+sectorSize :=
    fun k hk => (mem_sectors (by omega)).mp hk
  obtain ⟨result,overlay,hrun,hsound,hiff⟩ := h.writeSectors_cases rfl (by omega) hwindow
  have hlast : d.size/sectorSize ∈ sectors offset (offset+data.length) := by
    rw [mem_sectors (by omega)]
    refine ⟨hragged,?_⟩
    simp only [sectorSize] at hragged ⊢
    omega
  cases result with
  | ok u =>
    have hwhole := hiff.mp rfl _ hlast
    simp only [sectorSize] at hwhole
    omega
  | error e =>
    refine ⟨e,overlay,?_,hsound⟩
    simp only [DiskState.write,hpos,if_false,hrun,
      if_neg (show ¬ 2^64 ≤ offset+data.length by omega),
      if_neg (show ¬ d.size < offset+data.length by omega)]

/-- A write leaves the disk sound and of its size, whatever becomes of it. -/
theorem write (h : DiskSound d) (offset : ℕ) (data : List UInt8) :
    DiskSound (d.write offset data).2 ∧ (d.write offset data).2.size = d.size := by
  by_cases hpos : data = []
  · simp [DiskState.write,hpos,h]
  · by_cases hin : offset+data.length ≤ d.size
    · by_cases hwhole : offset+data.length ≤ d.size/sectorSize*sectorSize
      · obtain ⟨d',hrun,hsound,hsize,-⟩ := h.write_ok hpos hwhole
        rw [hrun]
        exact ⟨hsound,hsize⟩
      · obtain ⟨e,overlay,hrun,hsound⟩ := h.write_ragged hpos hin (not_le.mp hwhole)
        rw [hrun]
        exact ⟨hsound,rfl⟩
    · obtain ⟨e,hrun⟩ := write_refused hpos (not_le.mp hin)
      rw [hrun]
      exact ⟨h,rfl⟩

theorem flush (h : DiskSound d) : DiskSound d.flush.2 ∧ d.flush.2.size = d.size := by
  rw [h.flush_ok]
  exact ⟨h.flushed _,rfl⟩

theorem serve (h : DiskSound d) (r : Request) :
    DiskSound (d.serve r).2 ∧ (d.serve r).2.size = d.size := by
  cases hr : r.command with
  | read length =>
    have hdisk := h.read_disk r.offset length
    simp only [DiskState.serve,hr]
    split
    · next data d' hd =>
      rw [hd] at hdisk
      obtain rfl : d' = d := hdisk
      exact ⟨h,rfl⟩
    · next e d' hd =>
      rw [hd] at hdisk
      obtain rfl : d' = d := hdisk
      exact ⟨h,rfl⟩
  | write payload =>
    have hw := h.write r.offset payload
    simp only [DiskState.serve,hr]
    generalize d.write r.offset payload = w at hw ⊢
    obtain ⟨result,d'⟩ := w
    cases result with
    | ok u =>
      dsimp only
      split
      · exact ⟨hw.1.flush.1,hw.1.flush.2.trans hw.2⟩
      · exact hw
    | error e => exact hw
  | flush =>
    simp only [DiskState.serve,hr]
    exact h.flush
  | disc =>
    simp only [DiskState.serve,hr]
    exact ⟨h,trivial⟩
  | other code =>
    simp only [DiskState.serve,hr]
    exact ⟨h,trivial⟩

theorem powerCut (h : DiskSound d) : DiskSound d.powerCut := by
  refine ⟨h.fates,h.size,h.small,fun k g hk => ?_⟩
  simp only [DiskState.powerCut,Std.TreeMap.getElem?_emptyc] at hk
  cases hk

theorem start {image : List UInt8} (hs : image.length < 2^64) :
    DiskSound (DiskState.start image []) := by
  refine ⟨rfl,rfl,hs,fun k g hk => ?_⟩
  simp only [DiskState.start,Std.TreeMap.getElem?_emptyc] at hk
  cases hk

/-- What any run makes of a disk is sound and has the size of the image. -/
theorem run {image : List UInt8} (hs : image.length < 2^64) {as : List DiskAction} {d : DiskState}
    {rs : List (Option Reply)} (h : diskMachine.run (DiskState.start image []) as = some (d,rs)) :
    DiskSound d ∧ d.size = image.length := by
  refine diskMachine.run_invariant (I := fun d => DiskSound d ∧ d.size = image.length)
    (fun d a d' o hd hstep => ?_) ⟨DiskSound.start hs,rfl⟩ h
  cases a with
  | request r =>
    cases hstep
    exact ⟨(hd.1.serve r).1,(hd.1.serve r).2.trans hd.2⟩
  | powerCut =>
    cases hstep
    exact ⟨hd.1.powerCut,hd.2⟩

end DiskSound

/-- A write is atomic exactly if it has nothing to write, reaches past the end of the disk, or stays
clear of a last sector that the image does not fill. -/
theorem write_atomic_iff {image : List UInt8} (hs : image.length < 2^64) {as : List DiskAction}
    {d : DiskState} {rs : List (Option Reply)}
    (h : diskMachine.run (DiskState.start image []) as = some (d,rs)) (offset : ℕ)
    (data : List UInt8) :
    WriteAtomic d offset data ↔ data = [] ∨ image.length < offset+data.length ∨
      offset+data.length ≤ image.length/sectorSize*sectorSize := by
  obtain ⟨hsound,hsize⟩ := DiskSound.run hs h
  rw [← hsize]
  constructor
  · intro hatomic
    by_contra hc
    rw [not_or,not_or,not_lt,not_le] at hc
    obtain ⟨hpos,hin,hragged⟩ := hc
    obtain ⟨e,overlay,hrun,-⟩ := hsound.write_ragged hpos hin hragged
    have hok := hatomic.succeeds hin
    rw [hrun] at hok
    cases hok
  · intro hcase
    have hlength : d.current.length = d.size := DiskSound.current_length
    by_cases hpos : data = []
    · subst hpos
      have hrun : d.write offset [] = (.ok (),d) := by simp [DiskState.write]
      rw [← hlength] at hsize
      refine ⟨fun _ => by rw [hrun],fun _ => ⟨d.current,hlength,fun off len => hsound.read_eq,?_⟩,
        fun e he => ?_⟩
      · intro off len hle
        rw [hrun,splice_nil]
        exact hsound.read_eq hle
      · rw [hrun] at he
        cases he
    · obtain hpast | hwhole := hcase.resolve_left hpos
      · obtain ⟨e,hrun⟩ := write_refused hpos hpast
        refine ⟨fun hin => absurd hin (not_le.mpr hpast),fun hin => absurd hin (not_le.mpr hpast),
          fun e' _ => ?_⟩
        rw [hrun]
        exact ⟨fun _ _ => rfl,rfl⟩
      · obtain ⟨d',hrun,hsound',hsize',hplatter⟩ := hsound.write_ok hpos hwhole
        have hin : offset+data.length ≤ d.size := hwhole.trans (Nat.div_mul_le_self _ _)
        have hcurrent : d'.current = splice d.current offset data := by
          have hp := congrArg Platter.current hplatter
          refine hp.trans ?_
          simp only [Platter.write,Platter.commit]
          split <;> rfl
        refine ⟨fun _ => by rw [hrun],fun _ => ⟨d.current,hlength,fun off len => hsound.read_eq,?_⟩,
          fun e he => ?_⟩
        · intro off len hle
          rw [hrun,← hcurrent]
          exact hsound'.read_eq (hsize' ▸ hle)
        · rw [hrun] at he
          cases he

/-- On an image of one sector and a part of the next, a write into the first is atomic. -/
theorem write_atomic_iff_first_sector : ∃ d rs,
    diskMachine.run (DiskState.start (List.replicate 700 0) []) [.request ⟨0,.write [7],1,3⟩] =
      some (d,rs) ∧ WriteAtomic d 510 [1,2] := by
  have hrun : (diskMachine.run (DiskState.start (List.replicate 700 0) [])
      [.request ⟨0,.write [7],1,3⟩]).isSome := rfl
  obtain ⟨⟨d,rs⟩,hrun⟩ := Option.isSome_iff_exists.mp hrun
  refine ⟨d,rs,hrun,(write_atomic_iff (by rw [List.length_replicate]; decide) hrun 510 [1,2]).mpr ?_⟩
  right
  right
  rw [List.length_replicate]
  decide

/-- Four bytes on each side of the boundary: the write is in range and is refused, and yet the
bytes before the boundary have changed, and their sector would be committed. -/
theorem ragged_write_torn :
    ((DiskState.start (List.replicate 700 0) []).write 508 [1,2,3,4,5,6,7,8]).1.toOption = none ∧
    (((DiskState.start (List.replicate 700 0) []).read 508 4).1.toOption = some [0,0,0,0] ∧
      (((DiskState.start (List.replicate 700 0) []).write 508 [1,2,3,4,5,6,7,8]).2.read
        508 4).1.toOption = some [1,2,3,4]) ∧
    ((DiskState.start (List.replicate 700 0) []).write 508 [1,2,3,4,5,6,7,8]).2.overlay.keys = [0] ∧
    ¬ WriteAtomic (DiskState.start (List.replicate 700 0) []) 508 [1,2,3,4,5,6,7,8] := by
  have herror : ((DiskState.start (List.replicate 700 0) []).write 508
      [1,2,3,4,5,6,7,8]).1.toOption = none := by decide +kernel
  refine ⟨herror,⟨by decide +kernel,by decide +kernel⟩,by decide +kernel,fun h => ?_⟩
  rw [h.succeeds (by decide +kernel)] at herror
  cases herror

end Provium.Nbd
