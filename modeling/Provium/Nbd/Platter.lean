import Provium.Nbd.Disk

/-! The mediated disk refines a pair of byte arrays, what is durable and what the guest sees. Reads
and writes of the overlay are followed byte by byte: `DiskState.at` is the byte the guest sees at a
position, each operation gets one lemma about it, and lists are compared through it. -/
namespace Provium.Nbd
open Lib

/-- What the disk is for: the durable bytes, the bytes the guest sees, and the sectors it has
written since the two were last equal. -/
structure Platter where
  durable : List UInt8
  current : List UInt8
  dirty : Finset ℕ

namespace Platter

def start (image : List UInt8) : Platter := ⟨image,image,∅⟩

def commit (p : Platter) : Platter := ⟨p.current,p.current,∅⟩

def powerCut (p : Platter) : Platter := ⟨p.durable,p.durable,∅⟩

/-- A write in range changes exactly its bytes, and commits when too much is dirty. -/
def write (p : Platter) (offset : ℕ) (data : List UInt8) : Platter :=
  let dirty := p.dirty ∪ (sectors offset (offset+data.length)).toFinset
  let p := ⟨p.durable,splice p.current offset data,dirty⟩
  if overlayCapBytes < dirty.card*sectorSize then p.commit else p

def serve (p : Platter) (r : Request) : Option Reply × Platter :=
  match r.command with
  | .read length =>
    if length = 0 ∨ r.offset+length ≤ p.current.length then
      (some ⟨0,r.cookie,slice p.current r.offset length⟩,p)
    else (some ⟨nbdEio,r.cookie,[]⟩,p)
  | .write payload =>
    if payload ≠ [] ∧ p.current.length < r.offset+payload.length then
      (some ⟨nbdEio,r.cookie,[]⟩,p)
    else
      let p := if payload = [] then p else p.write r.offset payload
      (some ⟨0,r.cookie,[]⟩,if r.fua then p.commit else p)
  | .flush => (some ⟨0,r.cookie,[]⟩,p.commit)
  | .disc => (none,p)
  | .other _ => (some ⟨nbdEinval,r.cookie,[]⟩,p)

end Platter

def platterMachine : Machine Platter DiskAction (Option Reply) where
  step p
    | .request r => some ((p.serve r).2,(p.serve r).1)
    | .powerCut => some (p.powerCut,none)

/-- The byte the guest sees at a position. -/
def DiskState.at (d : DiskState) (i : ℕ) : Option UInt8 :=
  match d.overlay[i/sectorSize]? with
  | some held => held[i%sectorSize]?
  | none => d.file.bytes[i]?

def DiskState.current (d : DiskState) : List UInt8 :=
  (List.range d.size).map fun i => (d.at i).getD 0

/-- The pair a state of the disk stands for. -/
def DiskState.platter (d : DiskState) : Platter :=
  ⟨d.file.bytes,d.current,d.overlay.keys.toFinset⟩

/-- A disk of any size on a host without faults: what is held are whole sectors of the disk. -/
structure DiskSound (d : DiskState) : Prop where
  fates : d.file.fates = []
  size : d.size = d.file.bytes.length
  small : d.size < 2^64
  held : ∀ k h, d.overlay[k]? = some h → h.length = sectorSize ∧ k*sectorSize+sectorSize ≤ d.size

/-- A disk of whole sectors on a host without faults. -/
structure DiskInv (d : DiskState) : Prop where
  fates : d.file.fates = []
  size : d.size = d.file.bytes.length
  whole : sectorSize ∣ d.size
  small : d.size < 2^64
  held : ∀ k h, d.overlay[k]? = some h → h.length = sectorSize ∧ k*sectorSize+sectorSize ≤ d.size

theorem DiskInv.sound {d : DiskState} (h : DiskInv d) : DiskSound d := ⟨h.fates,h.size,h.small,h.held⟩

theorem DiskSound.inv {d : DiskState} (h : DiskSound d) (hw : sectorSize ∣ d.size) : DiskInv d :=
  ⟨h.fates,h.size,hw,h.small,h.held⟩

section File
variable {f : File}

theorem readExactAt_ok (hf : f.fates = []) {offset len : ℕ} (h : offset+len ≤ f.bytes.length) :
    f.readExactAt offset len = (.ok (slice f.bytes offset len),f) := by
  simp only [File.readExactAt,File.fate,hf,if_pos h]

theorem writeAllAt_ok (hf : f.fates = []) {offset : ℕ} {data : List UInt8}
    (h : offset+data.length ≤ f.bytes.length) :
    f.writeAllAt offset data = (.ok (),⟨splice f.bytes offset data,[]⟩) := by
  have h0 : offset-f.bytes.length = 0 := by omega
  simp only [File.writeAllAt,File.fate,File.overwrite,hf,h0,List.replicate_zero,List.append_nil]

theorem syncData_ok (hf : f.fates = []) : f.syncData = (.ok (),f) := by
  simp only [File.syncData,File.fate,hf]

end File

theorem mem_sectors {offset stop k : ℕ} (h : offset < stop) :
    k ∈ sectors offset stop ↔ k*sectorSize < stop ∧ offset < k*sectorSize+sectorSize := by
  simp only [sectors,sectorSize,List.mem_range'_1]
  omega

namespace DiskSound
variable {d : DiskState}

theorem at_isSome (h : DiskSound d) {i : ℕ} : (d.at i).isSome ↔ i < d.size := by
  have hs := h.size
  unfold DiskState.at
  cases ho : d.overlay[i/sectorSize]? with
  | none => simp [hs]
  | some held =>
    obtain ⟨hl,hle⟩ := h.held _ _ ho
    simp only [sectorSize,isSome_getElem?,hl] at hle ⊢
    omega

theorem current_length : d.current.length = d.size := by simp [DiskState.current]

theorem getElem?_current (h : DiskSound d) (i : ℕ) : d.current[i]? = d.at i := by
  rw [DiskState.current,List.getElem?_map]
  by_cases hi : i < d.size
  · obtain ⟨b,hb⟩ := Option.isSome_iff_exists.mp (h.at_isSome.mpr hi)
    rw [List.getElem?_range hi,hb]
    simp [hb]
  · have hn : d.at i = none := by
      rw [← Option.not_isSome_iff_eq_none,h.at_isSome]
      exact hi
    rw [hn,List.getElem?_eq_none (by simpa using hi)]
    rfl

/-- The bytes of a sector that the overlay does not hold are the file's. -/
theorem at_file {i : ℕ} (h : d.overlay[i/sectorSize]? = none) : d.at i = d.file.bytes[i]? := by
  rw [DiskState.at,h]

end DiskSound

/-- A read's buffer, with the held sectors of a list laid over what the file has. -/
def Stitched (d : DiskState) (offset : ℕ) (ss : List ℕ) (buf : List UInt8) : Prop :=
  ∀ j < buf.length, buf[j]? =
    if (offset+j)/sectorSize ∈ ss then d.at (offset+j) else d.file.bytes[offset+j]?

/-- The part of a sector that a range of bytes overlaps. -/
structure Window (offset stop sector lo hi : ℕ) : Prop where
  offset_le : offset ≤ lo
  start_le : sector*sectorSize ≤ lo
  le : lo ≤ hi
  le_stop : hi ≤ stop
  le_end : hi ≤ sector*sectorSize+sectorSize
  mem : ∀ i, lo ≤ i ∧ i < hi ↔ i/sectorSize = sector ∧ offset ≤ i ∧ i < stop

theorem window {offset stop sector : ℕ} (h : offset < stop) (hlo : sector*sectorSize < stop)
    (hhi : offset < sector*sectorSize+sectorSize) :
    Window offset stop sector (max offset (sector*sectorSize))
      (min stop (sector*sectorSize+sectorSize)) := by
  refine ⟨by omega,by omega,by omega,by omega,by omega,fun i => ?_⟩
  simp only [sectorSize] at hlo hhi ⊢
  omega

theorem stitch_some {d : DiskState} {sector : ℕ} {held : List UInt8}
    (h : d.overlay[sector]? = some held) (offset stop : ℕ) (buf : List UInt8) :
    d.stitch offset stop buf sector = splice buf (max offset (sector*sectorSize)-offset)
      (slice held (max offset (sector*sectorSize)-sector*sectorSize)
        (min stop (sector*sectorSize+sectorSize)-max offset (sector*sectorSize))) := by
  simp only [DiskState.stitch,h]

theorem stitch_spec {d : DiskState} {offset stop sector : ℕ} {ss : List ℕ} {buf : List UInt8}
    (h : DiskSound d) (hlt : offset < stop) (hlen : offset+buf.length = stop)
    (hs : Stitched d offset ss buf) (hlo : sector*sectorSize < stop)
    (hhi : offset < sector*sectorSize+sectorSize) :
    (d.stitch offset stop buf sector).length = buf.length ∧
      Stitched d offset (sector::ss) (d.stitch offset stop buf sector) := by
  cases ho : d.overlay[sector]? with
  | none =>
    have hstitch : d.stitch offset stop buf sector = buf := by simp only [DiskState.stitch,ho]
    rw [hstitch]
    refine ⟨rfl,fun j hj => ?_⟩
    rw [hs j hj]
    by_cases he : (offset+j)/sectorSize = sector
    · have hat : d.at (offset+j) = d.file.bytes[offset+j]? := DiskSound.at_file (by rw [he,ho])
      simp [hat]
    · simp [he]
  | some held =>
    obtain ⟨hl,-⟩ := h.held _ _ ho
    have hw := window hlt hlo hhi
    rw [stitch_some ho]
    generalize max offset (sector*sectorSize) = lo at hw ⊢
    generalize min stop (sector*sectorSize+sectorSize) = hi at hw ⊢
    obtain ⟨h₁,h₂,h₃,h₄,h₅,hmem⟩ := hw
    have hdata : (slice held (lo-sector*sectorSize) (hi-lo)).length = hi-lo := by
      apply length_slice
      omega
    have hsplice : (splice buf (lo-offset)
        (slice held (lo-sector*sectorSize) (hi-lo))).length = buf.length := by
      apply length_splice
      omega
    refine ⟨hsplice,fun j hj => ?_⟩
    rw [hsplice] at hj
    have hj' := hmem (offset+j)
    rw [getElem?_splice (by omega),hdata]
    by_cases he : (offset+j)/sectorSize = sector
    · -- Inside the sector the buffer gets the held byte.
      have hat : d.at (offset+j) = held[(offset+j)%sectorSize]? := by rw [DiskState.at,he,ho]
      have hmod := Nat.div_add_mod' (offset+j) sectorSize
      rw [he] at hmod
      rw [if_neg (by omega),if_pos (by omega),getElem?_slice,if_pos (by omega),
        if_pos (List.mem_cons.mpr (.inl he)),hat]
      congr 1
      omega
    · simp only [List.mem_cons,he,false_or]
      rw [← hs j hj]
      split
      · rfl
      · rw [if_neg (by omega)]

/-- The loop of `read`. -/
theorem foldl_stitch {d : DiskState} {offset stop : ℕ} {todo ss : List ℕ} {buf : List UInt8}
    (h : DiskSound d) (hlt : offset < stop) (hlen : offset+buf.length = stop)
    (hs : Stitched d offset ss buf)
    (htodo : ∀ k ∈ todo, k*sectorSize < stop ∧ offset < k*sectorSize+sectorSize) :
    (todo.foldl (d.stitch offset stop) buf).length = buf.length ∧
      Stitched d offset (todo.reverse++ss) (todo.foldl (d.stitch offset stop) buf) := by
  induction todo generalizing ss buf with
  | nil => exact ⟨rfl,hs⟩
  | cons k todo ih =>
    obtain ⟨hk,htodo⟩ := List.forall_mem_cons.mp htodo
    obtain ⟨hlen',hs'⟩ := stitch_spec h hlt hlen hs hk.1 hk.2
    obtain ⟨hl,hst⟩ := ih (by rw [hlen']; exact hlen) hs' htodo
    refine ⟨hl.trans hlen',?_⟩
    simpa using hst

/-- A read in range returns what the guest sees. -/
theorem DiskSound.read_ok {d : DiskState} (h : DiskSound d) {offset len : ℕ} (hpos : len ≠ 0)
    (hle : offset+len ≤ d.size) : d.read offset len = (.ok (slice d.current offset len),d) := by
  have hsmall := h.small
  have hsize := h.size
  have hfile : d.file.readExactAt offset len = _ := readExactAt_ok h.fates (by omega)
  have hlen : (slice d.file.bytes offset len).length = len := length_slice (by omega)
  simp only [DiskState.read,hpos,if_false,if_neg (show ¬ 2^64 ≤ offset+len by omega),
    if_neg (show ¬ d.size < offset+len by omega),hfile]
  have hs : Stitched d offset [] (slice d.file.bytes offset len) := by
    intro j hj
    rw [hlen] at hj
    rw [getElem?_slice,if_pos hj]
    simp
  obtain ⟨hl,hst⟩ := foldl_stitch h (show offset < offset+len by omega) (by rw [hlen]) hs
    fun k hk => (mem_sectors (by omega)).mp hk
  have hbuf : (sectors offset (offset+len)).foldl (d.stitch offset (offset+len))
      (slice d.file.bytes offset len) = slice d.current offset len := by
    apply List.ext_getElem?
    intro j
    rw [getElem?_slice,h.getElem?_current]
    by_cases hj : j < len
    · have hmem : (offset+j)/sectorSize ∈ sectors offset (offset+len) := by
        rw [mem_sectors (by omega)]
        simp only [sectorSize]
        omega
      rw [hst j (by omega),if_pos hj,if_pos (by simpa using hmem)]
    · rw [List.getElem?_eq_none (by omega),if_neg hj]
  rw [hbuf]

theorem read_refused {d : DiskState} {offset len : ℕ} (hpos : len ≠ 0)
    (hlt : d.size < offset+len) : ∃ e, d.read offset len = (.error e,d) := by
  simp only [DiskState.read,hpos,if_false,hlt,if_true]
  split
  · exact ⟨_,rfl⟩
  · exact ⟨_,rfl⟩

/-- Holding a sector shows the guest nothing new. -/
theorem DiskSound.hold_ok {d : DiskState} (h : DiskSound d) {sector : ℕ}
    (hle : sector*sectorSize+sectorSize ≤ d.size) :
    ∃ held overlay, d.hold sector = (.ok held,{ d with overlay }) ∧ held.length = sectorSize ∧
      (∀ i, i/sectorSize = sector → held[i%sectorSize]? = d.at i) ∧
      ∀ k, k ≠ sector → overlay[k]? = d.overlay[k]? := by
  cases ho : d.overlay[sector]? with
  | some held =>
    refine ⟨held,d.overlay,by simp only [DiskState.hold,ho],(h.held _ _ ho).1,fun i hi => ?_,
      fun _ _ => rfl⟩
    rw [DiskState.at,hi,ho]
  | none =>
    have hsize := h.size
    have hfile : d.file.readExactAt (sector*sectorSize) sectorSize = _ :=
      readExactAt_ok h.fates (by omega)
    refine ⟨slice d.file.bytes (sector*sectorSize) sectorSize,
      d.overlay.insert sector (slice d.file.bytes (sector*sectorSize) sectorSize),
      by simp only [DiskState.hold,ho,hfile],length_slice (by omega),fun i hi => ?_,
      fun k hk => ?_⟩
    · have hmod := Nat.div_add_mod' i sectorSize
      have hlt := Nat.mod_lt i (show sectorSize > 0 by decide)
      rw [hi] at hmod
      rw [DiskSound.at_file (by rw [hi,ho]),getElem?_slice,if_pos hlt,hmod]
    · rw [Std.TreeMap.getElem?_insert,if_neg]
      rw [Nat.compare_eq_eq]
      exact fun hc => hk hc.symm

/-- What a write has done to the overlay after some of its sectors. -/
structure Written (d : DiskState) (offset stop : ℕ) (data : List UInt8) (ss : List ℕ)
    (overlay : Std.TreeMap ℕ (List UInt8)) : Prop where
  inv : DiskSound { d with overlay }
  at_eq : ∀ i, ({ d with overlay } : DiskState).at i =
    if i/sectorSize ∈ ss ∧ offset ≤ i ∧ i < stop then data[i-offset]? else d.at i
  mem : ∀ k, k ∈ overlay ↔ k ∈ ss ∨ k ∈ d.overlay

/-- One pass of the loop of `write`. -/
theorem DiskSound.patch {d : DiskState} (h : DiskSound d) {offset stop sector : ℕ}
    {data : List UInt8} (hdata : offset+data.length = stop)
    (hle : sector*sectorSize+sectorSize ≤ d.size) (hlt : offset < stop)
    (hlo : sector*sectorSize < stop) (hhi : offset < sector*sectorSize+sectorSize) :
    ∃ held overlay, d.hold sector = (.ok held,{ d with overlay }) ∧
      Written d offset stop data [sector] (overlay.insert sector
        (splice held (max offset (sector*sectorSize)-sector*sectorSize)
          (slice data (max offset (sector*sectorSize)-offset)
            (min stop (sector*sectorSize+sectorSize)-max offset (sector*sectorSize))))) := by
  obtain ⟨held,overlay,hhold,hl,hheld,hother⟩ := h.hold_ok hle
  refine ⟨held,overlay,hhold,?_⟩
  have hw := window hlt hlo hhi
  generalize max offset (sector*sectorSize) = lo at hw ⊢
  generalize min stop (sector*sectorSize+sectorSize) = hi at hw ⊢
  obtain ⟨h₁,h₂,h₃,h₄,h₅,hmem⟩ := hw
  have hslice : (slice data (lo-offset) (hi-lo)).length = hi-lo := length_slice (by omega)
  have hlen : (splice held (lo-sector*sectorSize) (slice data (lo-offset) (hi-lo))).length =
      sectorSize := by
    rw [length_splice (by omega)]
    exact hl
  refine ⟨⟨h.fates,h.size,h.small,fun k g hk => ?_⟩,fun i => ?_,fun k => ?_⟩
  · simp only [Std.TreeMap.getElem?_insert,Nat.compare_eq_eq] at hk
    by_cases he : sector = k
    · rw [if_pos he] at hk
      cases hk
      exact ⟨hlen,he ▸ hle⟩
    · rw [if_neg he,hother k (fun hc => he hc.symm)] at hk
      exact h.held k g hk
  · simp only [List.mem_singleton]
    by_cases he : i/sectorSize = sector
    · have hmod := Nat.div_add_mod' i sectorSize
      have hi' := hmem i
      rw [he] at hmod
      simp only [DiskState.at,he,Std.TreeMap.getElem?_insert_self]
      rw [getElem?_splice (by omega),hslice]
      by_cases hin : offset ≤ i ∧ i < stop
      · rw [if_neg (by omega),if_pos (by omega),getElem?_slice,if_pos (by omega),
          if_pos ⟨trivial,hin⟩]
        congr 1
        omega
      · have hheld' := hheld i he
        simp only [DiskState.at,he] at hheld'
        rw [← hheld',if_neg (fun hc : True ∧ offset ≤ i ∧ i < stop => hin hc.2)]
        split
        · rfl
        · rw [if_neg (by omega)]
    · rw [if_neg (fun hc => he hc.1)]
      simp only [DiskState.at,Std.TreeMap.getElem?_insert,Nat.compare_eq_eq]
      rw [if_neg (fun hc => he hc.symm),hother _ he]
  · rw [Std.TreeMap.mem_insert,Nat.compare_eq_eq,List.mem_singleton]
    by_cases he : k = sector
    · simp [he]
    · have hk := hother k he
      simp only [Std.TreeMap.mem_iff_isSome_getElem?,hk,he]
      rw [or_iff_right (fun hc => he hc.symm),false_or]

/-- One sector more. -/
theorem Written.cons {d : DiskState} {offset stop sector : ℕ} {data : List UInt8} {ss : List ℕ}
    {overlay overlay' : Std.TreeMap ℕ (List UInt8)}
    (hw : Written d offset stop data [sector] overlay)
    (hw' : Written { d with overlay } offset stop data ss overlay') :
    Written d offset stop data (sector::ss) overlay' := by
  refine ⟨hw'.inv,fun i => ?_,fun k => ?_⟩
  · refine (hw'.at_eq i).trans ?_
    rw [hw.at_eq i]
    simp only [List.mem_cons]
    by_cases hin : offset ≤ i ∧ i < stop
    · by_cases hm : i/sectorSize ∈ ss
      · simp [hm,hin]
      · simp [hm,hin]
    · simp [hin]
  · rw [hw'.mem]
    change k ∈ ss ∨ k ∈ overlay ↔ _
    rw [hw.mem,List.mem_singleton,List.mem_cons]
    tauto

theorem Written.nil {d : DiskState} (h : DiskSound d) (offset stop : ℕ) (data : List UInt8) :
    Written d offset stop data [] d.overlay :=
  ⟨h,fun i => by simp,fun k => by simp⟩

/-- The loop of `write`. -/
theorem writeSectors_ok {d : DiskState} (h : DiskSound d) {offset stop : ℕ} {data : List UInt8}
    (hdata : offset+data.length = stop) (hstop : stop ≤ d.size/sectorSize*sectorSize)
    (hlt : offset < stop) {todo : List ℕ} (htodo : ∀ k ∈ todo, k*sectorSize < stop ∧ offset < k*sectorSize+sectorSize) :
    ∃ overlay, DiskState.writeSectors offset stop data todo d = (.ok (),{ d with overlay }) ∧
      Written d offset stop data todo overlay := by
  induction todo generalizing d with
  | nil => exact ⟨d.overlay,rfl,.nil h offset stop data⟩
  | cons sector todo ih =>
    obtain ⟨hk,htodo⟩ := List.forall_mem_cons.mp htodo
    have hle : sector*sectorSize+sectorSize ≤ d.size := by
      have hk := hk.1
      simp only [sectorSize] at hstop hk ⊢
      omega
    obtain ⟨held,overlay,hhold,hw⟩ := h.patch hdata hle hlt hk.1 hk.2
    obtain ⟨overlay',hrun,hw'⟩ := ih hw.inv hstop htodo
    refine ⟨overlay',?_,hw.cons hw'⟩
    simp only [DiskState.writeSectors,hhold]
    exact hrun

/-- Committing sectors writes each over its place in the file. -/
theorem commitSectors_ok {f : File} (hf : f.fates = []) {es : List (ℕ × List UInt8)}
    (hes : ∀ e ∈ es, e.2.length = sectorSize ∧ e.1*sectorSize+sectorSize ≤ f.bytes.length)
    (hd : es.Pairwise fun a b => a.1 ≠ b.1) :
    ∃ bytes, DiskState.commitSectors es f = (.ok (),⟨bytes,[]⟩) ∧
      bytes.length = f.bytes.length ∧
      (∀ k v, (k,v) ∈ es → ∀ i, i/sectorSize = k → bytes[i]? = v[i%sectorSize]?) ∧
      ∀ i, (∀ e ∈ es, e.1 ≠ i/sectorSize) → bytes[i]? = f.bytes[i]? := by
  induction es generalizing f with
  | nil =>
    refine ⟨f.bytes,?_,rfl,fun k v hm => (by cases hm),fun _ _ => rfl⟩
    rw [DiskState.commitSectors,← hf]
  | cons e es ih =>
    obtain ⟨sector,data⟩ := e
    obtain ⟨⟨hl,hle⟩,hes⟩ := List.forall_mem_cons.mp hes
    obtain ⟨hne,hd⟩ := List.pairwise_cons.mp hd
    simp only at hl hle hne
    have hoff : sector*sectorSize ≤ f.bytes.length := (Nat.le_add_right _ _).trans hle
    have hwrite := writeAllAt_ok hf (show sector*sectorSize+data.length ≤ f.bytes.length by omega)
    have hlen : (splice f.bytes (sector*sectorSize) data).length = f.bytes.length :=
      length_splice (by omega)
    obtain ⟨bytes,hrun,hlen',hin,hout⟩ := ih (f := ⟨splice f.bytes (sector*sectorSize) data,[]⟩)
      rfl (fun e he => by rw [hlen]; exact hes e he) hd
    have hat (i : ℕ) : (splice f.bytes (sector*sectorSize) data)[i]? =
        if i/sectorSize = sector then data[i%sectorSize]? else f.bytes[i]? := by
      have hwin : sector*sectorSize ≤ i ∧ i < sector*sectorSize+sectorSize ↔
          i/sectorSize = sector := by
        simp only [sectorSize]
        omega
      rw [getElem?_splice hoff,hl]
      by_cases he : i/sectorSize = sector
      · have hmod := Nat.div_add_mod' i sectorSize
        rw [he] at hmod
        obtain ⟨ha,hb⟩ := hwin.mpr he
        rw [if_neg (not_lt.mpr ha),if_pos hb,if_pos he]
        congr 1
        omega
      · rw [if_neg he]
        split
        · rfl
        · next hge => rw [if_neg (fun hlt => he (hwin.mp ⟨not_lt.mp hge,hlt⟩))]
    refine ⟨bytes,?_,hlen'.trans hlen,fun k v hm i hi => ?_,fun i hi => ?_⟩
    · simp only [DiskState.commitSectors,hwrite]
      exact hrun
    · rcases List.mem_cons.mp hm with he | hm
      · cases he
        rw [hout i (fun e he hc => hne e he (hi.symm.trans hc.symm)),hat i,if_pos hi]
      · exact hin k v hm i hi
    · obtain ⟨hi₁,hi₂⟩ := List.forall_mem_cons.mp hi
      rw [hout i hi₂,hat i,if_neg (fun hc => hi₁ hc.symm)]

/-- Without an overlay the guest sees the file. -/
theorem DiskSound.current_clean {d : DiskState} (h : DiskSound d) (ho : d.overlay = ∅) :
    d.current = d.file.bytes := by
  apply List.ext_getElem?
  intro i
  rw [h.getElem?_current]
  apply DiskSound.at_file
  rw [ho,Std.TreeMap.getElem?_emptyc]

theorem DiskSound.flush_ok {d : DiskState} (h : DiskSound d) :
    d.flush = (.ok (),⟨⟨d.current,[]⟩,d.size,∅,d.flushes+1⟩) := by
  have hes : ∀ e ∈ d.overlay.toList, e.2.length = sectorSize ∧
      e.1*sectorSize+sectorSize ≤ d.file.bytes.length := by
    intro e he
    rw [← h.size]
    exact h.held e.1 e.2 (Std.TreeMap.mem_toList_iff_getElem?_eq_some.mp he)
  have hd : d.overlay.toList.Pairwise fun a b => a.1 ≠ b.1 :=
    Std.TreeMap.distinct_keys_toList.imp fun hab => by rwa [Nat.compare_eq_eq] at hab
  obtain ⟨bytes,hrun,hlen,hin,hout⟩ := commitSectors_ok h.fates hes hd
  have hbytes : bytes = d.current := by
    apply List.ext_getElem?
    intro i
    rw [h.getElem?_current,DiskState.at]
    cases ho : d.overlay[i/sectorSize]? with
    | some held => exact hin _ _ (Std.TreeMap.mem_toList_iff_getElem?_eq_some.mpr ho) i rfl
    | none =>
      apply hout
      intro e he hc
      rw [← hc,Std.TreeMap.mem_toList_iff_getElem?_eq_some.mp he] at ho
      cases ho
  subst hbytes
  simp only [DiskState.flush,hrun]
  rw [syncData_ok rfl]

theorem DiskSound.flushed {d : DiskState} (h : DiskSound d) (flushes : ℕ) :
    DiskSound ⟨⟨d.current,[]⟩,d.size,∅,flushes⟩ := by
  refine ⟨rfl,(DiskSound.current_length (d := d)).symm,h.small,fun k g hk => ?_⟩
  rw [Std.TreeMap.getElem?_emptyc] at hk
  cases hk

theorem platter_clean {d : DiskState} (h : DiskSound d) (ho : d.overlay = ∅) :
    d.platter = ⟨d.file.bytes,d.file.bytes,∅⟩ := by
  rw [DiskState.platter,h.current_clean ho,ho]
  rfl

theorem platter_flushed {d : DiskState} (h : DiskSound d) (flushes : ℕ) :
    DiskState.platter ⟨⟨d.current,[]⟩,d.size,∅,flushes⟩ = d.platter.commit :=
  platter_clean (h.flushed flushes) rfl

theorem overlay_size (d : DiskState) : d.overlay.size = d.platter.dirty.card := by
  rw [DiskState.platter,List.toFinset_card_of_nodup Std.TreeMap.nodup_keys,
    Std.TreeMap.length_keys]

/-- A write in range, before the cap is looked at. -/
theorem Written.platter {d : DiskState} (h : DiskSound d) {offset : ℕ} {data : List UInt8}
    {overlay : Std.TreeMap ℕ (List UInt8)} (hpos : data ≠ []) (hle : offset+data.length ≤ d.size)
    (hw : Written d offset (offset+data.length) data (sectors offset (offset+data.length))
      overlay) :
    ({ d with overlay } : DiskState).platter = ⟨d.platter.durable,
      splice d.platter.current offset data,
      d.platter.dirty ∪ (sectors offset (offset+data.length)).toFinset⟩ := by
  have hlen := List.length_pos_of_ne_nil hpos
  have hcur := DiskSound.current_length (d := d)
  have hcurrent : ({ d with overlay } : DiskState).current = splice d.current offset data := by
    apply List.ext_getElem?
    intro i
    rw [hw.inv.getElem?_current,hw.at_eq,getElem?_splice (by omega),h.getElem?_current]
    by_cases hin : offset ≤ i ∧ i < offset+data.length
    · have hmem : i/sectorSize ∈ sectors offset (offset+data.length) := by
        rw [mem_sectors (by omega)]
        simp only [sectorSize]
        omega
      rw [if_pos ⟨hmem,hin⟩,if_neg (by omega),if_pos hin.2]
    · rw [if_neg (fun hc => hin hc.2)]
      split
      · rfl
      · rw [if_neg (by omega)]
  have hdirty : overlay.keys.toFinset =
      d.overlay.keys.toFinset ∪ (sectors offset (offset+data.length)).toFinset := by
    ext k
    simp only [List.mem_toFinset,Finset.mem_union,Std.TreeMap.mem_keys]
    rw [hw.mem,or_comm]
  simp only [DiskState.platter]
  rw [hcurrent,hdirty]

theorem DiskSound.write_ok {d : DiskState} (h : DiskSound d) {offset : ℕ} {data : List UInt8}
    (hpos : data ≠ []) (hle : offset+data.length ≤ d.size/sectorSize*sectorSize) :
    ∃ d', d.write offset data = (.ok (),d') ∧ DiskSound d' ∧ d'.size = d.size ∧
      d'.platter = d.platter.write offset data := by
  have hlen := List.length_pos_of_ne_nil hpos
  have hsmall := h.small
  have hin : offset+data.length ≤ d.size := hle.trans (Nat.div_mul_le_self _ _)
  obtain ⟨overlay,hrun,hw⟩ := writeSectors_ok h rfl hle (by omega)
    fun k hk => (mem_sectors (show offset < offset+data.length by omega)).mp hk
  have hplatter := hw.platter h hpos hin
  have hsize := overlay_size { d with overlay }
  rw [hplatter] at hsize
  have hwrite : d.write offset data = if overlayCapBytes < overlay.size*sectorSize then
      DiskState.flush { d with overlay } else (.ok (),{ d with overlay }) := by
    simp only [DiskState.write,hpos,if_false,hrun,
      if_neg (show ¬ 2^64 ≤ offset+data.length by omega),
      if_neg (show ¬ d.size < offset+data.length by omega)]
  rw [hwrite,Platter.write,← hsize,← hplatter]
  by_cases hcap : overlayCapBytes < overlay.size*sectorSize
  · simp only [if_pos hcap]
    exact ⟨_,hw.inv.flush_ok,hw.inv.flushed _,rfl,platter_flushed hw.inv _⟩
  · simp only [if_neg hcap]
    exact ⟨_,rfl,hw.inv,rfl,rfl⟩

theorem write_refused {d : DiskState} {offset : ℕ} {data : List UInt8} (hpos : data ≠ [])
    (hlt : d.size < offset+data.length) : ∃ e, d.write offset data = (.error e,d) := by
  simp only [DiskState.write,hpos,if_false,hlt,if_true]
  split
  · exact ⟨_,rfl⟩
  · exact ⟨_,rfl⟩

theorem serve_read {d : DiskState} (h : DiskInv d) {r : Request} {length : ℕ}
    (hr : r.command = .read length) : d.serve r = ((d.platter.serve r).1,d) ∧
      (d.platter.serve r).2 = d.platter := by
  have hcur := DiskSound.current_length (d := d)
  simp only [DiskState.serve,Platter.serve,hr,DiskState.platter,hcur]
  by_cases hpos : length = 0
  · subst hpos
    simp [DiskState.read,slice_zero]
  · by_cases hle : r.offset+length ≤ d.size
    · simp [h.sound.read_ok hpos hle,hle]
    · obtain ⟨e,he⟩ := read_refused hpos (not_le.mp hle)
      simp [he,hle,hpos]

theorem serve_write {d : DiskState} (h : DiskInv d) {r : Request} {payload : List UInt8}
    (hr : r.command = .write payload) : ∃ d', d.serve r = ((d.platter.serve r).1,d') ∧
      DiskInv d' ∧ d'.platter = (d.platter.serve r).2 := by
  have hcur : d.platter.current.length = d.size := DiskSound.current_length
  by_cases href : payload ≠ [] ∧ d.size < r.offset+payload.length
  · obtain ⟨e,he⟩ := write_refused href.1 href.2
    refine ⟨d,?_,h,?_⟩
    · simp only [DiskState.serve,Platter.serve,hr,hcur,if_pos href,he,Request.reply]
    · simp only [Platter.serve,hr,hcur,if_pos href]
  · -- The write succeeds, whether there is anything to write or not.
    have hok : ∃ d', d.write r.offset payload = (.ok (),d') ∧ DiskInv d' ∧ d'.platter =
        if payload = [] then d.platter else d.platter.write r.offset payload := by
      by_cases hpos : payload = []
      · exact ⟨d,by simp [DiskState.write,hpos],h,by rw [if_pos hpos]⟩
      · rw [if_neg hpos]
        have hle : r.offset+payload.length ≤ d.size := not_lt.mp fun hc => href ⟨hpos,hc⟩
        obtain ⟨d',hrun,hsound,hsize,hp⟩ := h.sound.write_ok hpos
          (by rw [Nat.div_mul_cancel h.whole]; exact hle)
        exact ⟨d',hrun,hsound.inv (hsize ▸ h.whole),hp⟩
    obtain ⟨d',hwrite,hinv,hplatter⟩ := hok
    by_cases hfua : r.fua
    · refine ⟨⟨⟨d'.current,[]⟩,d'.size,∅,d'.flushes+1⟩,?_,
        (hinv.sound.flushed _).inv hinv.whole,?_⟩
      · simp only [DiskState.serve,Platter.serve,hr,hcur,if_neg href,hwrite,if_pos hfua,
          hinv.sound.flush_ok,Request.reply]
      · simp only [Platter.serve,hr,hcur,if_neg href,if_pos hfua,← hplatter]
        exact platter_flushed hinv.sound _
    · refine ⟨d',?_,hinv,?_⟩
      · simp only [DiskState.serve,Platter.serve,hr,hcur,if_neg href,hwrite,if_neg hfua,
          Request.reply]
      · simp only [Platter.serve,hr,hcur,if_neg href,if_neg hfua,hplatter]

/-- Each request is served as the pair of arrays serves it. -/
theorem serve_refines {d : DiskState} (h : DiskInv d) (r : Request) :
    ∃ d', d.serve r = ((d.platter.serve r).1,d') ∧ DiskInv d' ∧
      d'.platter = (d.platter.serve r).2 := by
  cases hr : r.command with
  | read length =>
    obtain ⟨hs,hp⟩ := serve_read h hr
    exact ⟨d,hs,h,hp.symm⟩
  | write payload => exact serve_write h hr
  | flush =>
    refine ⟨⟨⟨d.current,[]⟩,d.size,∅,d.flushes+1⟩,?_,(h.sound.flushed _).inv h.whole,?_⟩
    · simp only [DiskState.serve,Platter.serve,hr,h.sound.flush_ok,Request.reply]
    · simp only [Platter.serve,hr]
      exact platter_flushed h.sound _
  | disc =>
    refine ⟨d,?_,h,?_⟩
    · simp only [DiskState.serve,Platter.serve,hr]
    · simp only [Platter.serve,hr]
  | other code =>
    refine ⟨d,?_,h,?_⟩
    · simp only [DiskState.serve,Platter.serve,hr]
    · simp only [Platter.serve,hr]

theorem powerCut_refines {d : DiskState} (h : DiskInv d) :
    DiskInv d.powerCut ∧ d.powerCut.platter = d.platter.powerCut := by
  have hinv : DiskInv d.powerCut := by
    refine ⟨h.fates,h.size,h.whole,h.small,fun k g hk => ?_⟩
    simp only [DiskState.powerCut,Std.TreeMap.getElem?_emptyc] at hk
    cases hk
  exact ⟨hinv,platter_clean hinv.sound rfl⟩

theorem diskInv_start {image : List UInt8} (hw : sectorSize ∣ image.length)
    (hs : image.length < 2^64) : DiskInv (DiskState.start image []) := by
  refine ⟨rfl,rfl,hw,hs,fun k g hk => ?_⟩
  simp only [DiskState.start,Std.TreeMap.getElem?_emptyc] at hk
  cases hk

/-- Both arrays have the length of the disk. -/
def Platter.Sized (n : ℕ) (p : Platter) : Prop := p.durable.length = n ∧ p.current.length = n

theorem Platter.Sized.serve {n : ℕ} {p : Platter} (h : p.Sized n) (r : Request) :
    (p.serve r).2.Sized n := by
  have hcommit {q : Platter} (hq : q.Sized n) : q.commit.Sized n := ⟨hq.2,hq.2⟩
  simp only [Platter.serve]
  split
  · split <;> exact h
  · next payload _ =>
    split
    · exact h
    · next hok =>
      have hq : (if payload = [] then p else p.write r.offset payload).Sized n := by
        split
        · exact h
        · next hpos =>
          have hle : r.offset+payload.length ≤ p.current.length :=
            not_lt.mp fun hc => hok ⟨hpos,hc⟩
          have hwrite : (splice p.current r.offset payload).length = n :=
            (length_splice hle).trans h.2
          simp only [Platter.write]
          split
          · exact ⟨hwrite,hwrite⟩
          · exact ⟨h.1,hwrite⟩
      simp only
      split
      · exact hcommit hq
      · exact hq
  · exact hcommit h
  · exact h
  · exact h

/-- The mediated disk refines a durable/current pair. On an image of whole sectors and a host whose
file operations succeed, every sequence of requests and power cuts is served as the pair of arrays
serves it; what is durable is what the backing file holds. -/
theorem mediated_disk_refines (image : List UInt8) (hw : sectorSize ∣ image.length)
    (hs : image.length < 2^64) (as : List DiskAction) :
    ∃ d rs, diskMachine.run (DiskState.start image []) as = some (d,rs) ∧
      platterMachine.run (Platter.start image) as = some (d.platter,rs) ∧
      d.platter.durable = d.file.bytes ∧ d.platter.Sized image.length := by
  have hstart := diskInv_start hw hs
  have hplatter : (DiskState.start image []).platter = Platter.start image :=
    platter_clean hstart.sound rfl
  have hstep : ∀ d a, DiskInv d ∧ d.platter.Sized image.length → ∃ d' o,
      diskMachine.step d a = some (d',o) ∧ (DiskInv d' ∧ d'.platter.Sized image.length) ∧
      platterMachine.step d.platter a = some (d'.platter,id o) := by
    rintro d a ⟨h,hsize⟩
    cases a with
    | request r =>
      obtain ⟨d',hd,hi,hp⟩ := serve_refines h r
      refine ⟨d',(d.platter.serve r).1,?_,⟨hi,hp ▸ hsize.serve r⟩,?_⟩
      · simp only [diskMachine,hd]
      · simp only [platterMachine,hp,id]
    | powerCut =>
      obtain ⟨hi,hp⟩ := powerCut_refines h
      refine ⟨d.powerCut,none,rfl,⟨hi,?_⟩,?_⟩
      · rw [hp]
        exact ⟨hsize.1,hsize.1⟩
      · simp only [platterMachine,hp,id]
  obtain ⟨d,rs,hr,⟨-,hsized⟩,hn⟩ := diskMachine.run_refines platterMachine DiskState.platter id
    hstep ⟨hstart,by rw [hplatter]; exact ⟨rfl,rfl⟩⟩ as
  rw [List.map_id,hplatter] at hn
  exact ⟨d,rs,hr,hn,rfl,hsized⟩

/-- A write across a sector boundary is lost in a power cut, one with `FUA` is not. -/
theorem mediated_disk_refines_two_sectors : ∃ d,
    diskMachine.run (DiskState.start (List.replicate 1024 0) [])
      [.request ⟨0,.write [1,2,3,4],1,510⟩,.powerCut,.request ⟨0,.read 4,2,510⟩,
        .request ⟨1,.write [5,6,7,8],3,510⟩,.powerCut,.request ⟨0,.read 4,4,510⟩] =
      some (d,[some ⟨0,1,[]⟩,none,some ⟨0,2,[0,0,0,0]⟩,some ⟨0,3,[]⟩,none,
        some ⟨0,4,[5,6,7,8]⟩]) := by
  obtain ⟨d,rs,hr,hn,-⟩ := mediated_disk_refines (List.replicate 1024 0)
    ⟨2,by rw [List.length_replicate]; rfl⟩ (by rw [List.length_replicate]; decide)
    [.request ⟨0,.write [1,2,3,4],1,510⟩,.powerCut,.request ⟨0,.read 4,2,510⟩,
      .request ⟨1,.write [5,6,7,8],3,510⟩,.powerCut,.request ⟨0,.read 4,4,510⟩]
  have hrs := congrArg (Option.map Prod.snd) hn
  rw [show (platterMachine.run _ _).map Prod.snd = some [some ⟨0,1,[]⟩,none,
    some ⟨0,2,[0,0,0,0]⟩,some ⟨0,3,[]⟩,none,some ⟨0,4,[5,6,7,8]⟩] by decide +kernel] at hrs
  cases hrs
  exact ⟨d,hr⟩

end Provium.Nbd
