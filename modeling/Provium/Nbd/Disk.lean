import Provium.Lib.Machine
import Provium.Lib.Splice

/-! The mediated disk of `nbd.rs`: a backing file, an overlay of the sectors written since the last
flush, and the arms of `transmission` that serve a request from them. The host's answers to file
operations are part of the state, so that any of them can fail. -/
namespace Provium.Nbd
open Lib

/-- `SECTOR`. -/
def sectorSize : ℕ := 512

/-- Ceiling on unflushed data held in memory. -/
def overlayCapBytes : ℕ := 64*1024*1024

inductive ErrorKind where
  | invalidInput
  | unexpectedEof
  | other
  deriving DecidableEq, Repr

structure IoError where
  kind : ErrorKind
  message : String
  deriving DecidableEq, Repr

/-- How the host answers one file operation. A write may fail with part of it done. -/
inductive Fate where
  | ok
  | fail (written : ℕ)
  deriving DecidableEq, Repr

/-- The backing image. Once no fate is left, every operation succeeds. -/
structure File where
  bytes : List UInt8
  fates : List Fate := []

namespace File

def fate (f : File) : Fate × File :=
  match f.fates with
  | [] => (.ok,f)
  | x::xs => (x,{ f with fates := xs })

def hostError : IoError := ⟨.other,"input/output error"⟩

def readExactAt (f : File) (offset len : ℕ) : Except IoError (List UInt8) × File :=
  match f.fate with
  | (.fail _,f) => (.error hostError,f)
  | (.ok,f) =>
    if offset+len ≤ f.bytes.length then (.ok (slice f.bytes offset len),f)
    else (.error ⟨.unexpectedEof,"failed to fill whole buffer"⟩,f)

/-- The file's bytes after a write, which extends it where it reaches past the end. -/
def overwrite (bytes : List UInt8) (offset : ℕ) (data : List UInt8) : List UInt8 :=
  splice (bytes++List.replicate (offset-bytes.length) 0) offset data

def writeAllAt (f : File) (offset : ℕ) (data : List UInt8) : Except IoError Unit × File :=
  match f.fate with
  | (.fail n,f) => (.error hostError,{ f with bytes := overwrite f.bytes offset (data.take n) })
  | (.ok,f) => (.ok (),{ f with bytes := overwrite f.bytes offset data })

def syncData (f : File) : Except IoError Unit × File :=
  match f.fate with
  | (.fail _,f) => (.error hostError,f)
  | (.ok,f) => (.ok (),f)

end File

/-- The backing image plus whatever the guest has written but not yet flushed. -/
structure DiskState where
  file : File
  size : ℕ
  /-- The contents of the sectors written since the last flush. -/
  overlay : Std.TreeMap ℕ (List UInt8)
  /-- Count of flushes served. -/
  flushes : ℕ

/-- The sectors that the bytes from `offset` to `stop` lie in. -/
def sectors (offset stop : ℕ) : List ℕ :=
  List.range' (offset/sectorSize) ((stop-1)/sectorSize+1-offset/sectorSize)

namespace DiskState

/-- The disk as `MediatedDisk::start` opens it. -/
def start (image : List UInt8) (fates : List Fate) : DiskState :=
  ⟨⟨image,fates⟩,image.length,∅,0⟩

/-- Lay one held sector over the buffer of a read. -/
def stitch (d : DiskState) (offset stop : ℕ) (buf : List UInt8) (sector : ℕ) : List UInt8 :=
  match d.overlay[sector]? with
  | none => buf
  | some held =>
    let sectorStart := sector*sectorSize
    let lo := max offset sectorStart
    let hi := min stop (sectorStart+sectorSize)
    splice buf (lo-offset) (slice held (lo-sectorStart) (hi-lo))

def read (d : DiskState) (offset len : ℕ) : Except IoError (List UInt8) × DiskState :=
  if len = 0 then (.ok [],d)
  else if 2^64 ≤ offset+len then (.error ⟨.invalidInput,"read overflows"⟩,d)
  else if d.size < offset+len then (.error ⟨.invalidInput,"read past end of disk"⟩,d)
  else
    match d.file.readExactAt offset len with
    | (.error e,file) => (.error e,{ d with file })
    | (.ok buf,file) =>
      let stop := offset+len
      (.ok ((sectors offset stop).foldl (d.stitch offset stop) buf),{ d with file })

/-- What a sector holds now, taken into the overlay where it was not yet. -/
def hold (d : DiskState) (sector : ℕ) : Except IoError (List UInt8) × DiskState :=
  match d.overlay[sector]? with
  | some held => (.ok held,d)
  | none =>
    match d.file.readExactAt (sector*sectorSize) sectorSize with
    | (.error e,file) => (.error e,{ d with file })
    | (.ok base,file) => (.ok base,{ d with file, overlay := d.overlay.insert sector base })

/-- The loop of `write`. -/
def writeSectors (offset stop : ℕ) (data : List UInt8) :
    List ℕ → DiskState → Except IoError Unit × DiskState
  | [],d => (.ok (),d)
  | sector::rest,d =>
    match d.hold sector with
    | (.error e,d) => (.error e,d)
    | (.ok held,d) =>
      let sectorStart := sector*sectorSize
      let lo := max offset sectorStart
      let hi := min stop (sectorStart+sectorSize)
      let held := splice held (lo-sectorStart) (slice data (lo-offset) (hi-lo))
      writeSectors offset stop data rest { d with overlay := d.overlay.insert sector held }

/-- The loop of `flush`. The overlay has been taken: what is not written here is gone. -/
def commitSectors : List (ℕ × List UInt8) → File → Except IoError Unit × File
  | [],f => (.ok (),f)
  | (sector,data)::rest,f =>
    match f.writeAllAt (sector*sectorSize) data with
    | (.error e,f) => (.error e,f)
    | (.ok (),f) => commitSectors rest f

def flush (d : DiskState) : Except IoError Unit × DiskState :=
  match commitSectors d.overlay.toList d.file with
  | (.error e,file) => (.error e,{ d with file, overlay := ∅ })
  | (.ok (),file) =>
    match file.syncData with
    | (.error e,file) => (.error e,{ d with file, overlay := ∅ })
    | (.ok (),file) => (.ok (),⟨file,d.size,∅,d.flushes+1⟩)

def write (d : DiskState) (offset : ℕ) (data : List UInt8) : Except IoError Unit × DiskState :=
  if data = [] then (.ok (),d)
  else if 2^64 ≤ offset+data.length then (.error ⟨.invalidInput,"write overflows"⟩,d)
  else if d.size < offset+data.length then (.error ⟨.invalidInput,"write past end of disk"⟩,d)
  else
    let stop := offset+data.length
    match writeSectors offset stop data (sectors offset stop) d with
    | (.error e,d) => (.error e,d)
    | (.ok (),d) => if overlayCapBytes < d.overlay.size*sectorSize then d.flush else (.ok (),d)

/-- Discard every write the guest has not flushed. -/
def powerCut (d : DiskState) : DiskState := { d with overlay := ∅ }

end DiskState

inductive Command where
  | read (length : ℕ)
  | write (payload : List UInt8)
  | disc
  | flush
  | other (code : ℕ)
  deriving DecidableEq, Repr

structure Request where
  flags : ℕ
  command : Command
  cookie : ℕ
  offset : ℕ
  deriving DecidableEq, Repr

structure Reply where
  error : ℕ
  cookie : ℕ
  data : List UInt8
  deriving DecidableEq, Repr

def nbdEio : ℕ := 5
def nbdEinval : ℕ := 22

/-- `NBD_CMD_FLAG_FUA`: this write must be durable before it is acknowledged. -/
def Request.fua (r : Request) : Prop := r.flags &&& 1 ≠ 0

instance (r : Request) : Decidable r.fua := inferInstanceAs (Decidable (_ ≠ _))

/-- The reply to a command that only succeeds or fails. -/
def Request.reply (r : Request) : Except IoError Unit → Option Reply
  | .ok () => some ⟨0,r.cookie,[]⟩
  | .error _ => some ⟨nbdEio,r.cookie,[]⟩

/-- The arms of `transmission`, for a request that no fault policy fails. A `DISC` gets no
reply. -/
def DiskState.serve (d : DiskState) (r : Request) : Option Reply × DiskState :=
  match r.command with
  | .read length =>
    match d.read r.offset length with
    | (.ok data,d) => (some ⟨0,r.cookie,data⟩,d)
    | (.error _,d) => (some ⟨nbdEio,r.cookie,[]⟩,d)
  | .write payload =>
    match d.write r.offset payload with
    | (.ok (),d) =>
      if r.fua then
        let (result,d) := d.flush
        (r.reply result,d)
      else (r.reply (.ok ()),d)
    | (result,d) => (r.reply result,d)
  | .flush =>
    let (result,d) := d.flush
    (r.reply result,d)
  | .disc => (none,d)
  | .other _ => (some ⟨nbdEinval,r.cookie,[]⟩,d)

inductive DiskAction where
  | request (r : Request)
  | powerCut
  deriving DecidableEq, Repr

/-- Requests and power cuts in any order. -/
def diskMachine : Machine DiskState DiskAction (Option Reply) where
  step d
    | .request r => some ((d.serve r).2,(d.serve r).1)
    | .powerCut => some (d.powerCut,none)

end Provium.Nbd
