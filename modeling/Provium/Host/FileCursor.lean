import Provium.Lib.OpenFile

/-! The position of a guest's file as the host follows it, `file_ud.rs`, beside the position that the agent's open
file has, `ops/file.rs`. -/
namespace Provium.Host
open Lib

structure OpenMode where
  read : Bool
  write : Bool
  create : Bool
  truncate : Bool
  append : Bool
  exclusive : Bool
  deriving DecidableEq, Repr

inductive SeekWhence where
  | set
  | cur
  | fromEnd
  deriving DecidableEq, Repr

/-- How far a file goes at most: a position is an `i64`. -/
def maxOffset : ℕ := 2^63-1

def u64Max : ℕ := 2^64-1

/-- A position and what is read or written at one go do not overflow. -/
theorem maxOffset_add_le : maxOffset+maxOffset ≤ u64Max := by
  unfold maxOffset u64Max
  norm_num

/-- The check of `open_mode_from_table`. -/
def OpenMode.accepted (m : OpenMode) : Bool := m.read || m.write || m.append

/-- What `apply_open_mode` makes of the options, opened where there are these bytes or none. -/
def OpenMode.openFile (m : OpenMode) (existing : Option (List UInt8)) : Option OpenFile :=
  let createNew := m.create && m.exclusive
  if !m.accepted then none
  else if !m.write && !m.append && (m.truncate || m.create) then none
  else if m.append && m.truncate && !createNew then none
  else match existing with
    | none => if m.create then some ⟨[],0⟩ else none
    | some bytes => if createNew then none else some ⟨if m.truncate then [] else bytes,0⟩

namespace OpenMode
variable (m : OpenMode)

/-- `read(2)` of at most so many bytes. -/
def readFile (f : OpenFile) (n : ℕ) : Option (List UInt8 × OpenFile) :=
  if m.read then some (f.read n) else none

/-- Where bytes are written: what is appended goes to the end. -/
def start (f : OpenFile) : ℕ := if m.append then f.bytes.length else f.pos

/-- What the kernel takes of them. -/
def part (f : OpenFile) (data : List UInt8) (taken : ℕ) : List UInt8 := data.take (min taken (maxOffset-m.start f))

/-- `write(2)` -/
def writeFile (f : OpenFile) (data : List UInt8) (taken : ℕ) : Option (ℕ × OpenFile) :=
  if !m.write && !m.append then none
  else if m.part f data taken = [] then if data = [] then some (0,f) else none
  else some ((m.part f data taken).length,(⟨f.bytes,m.start f⟩ : OpenFile).write (m.part f data taken))

end OpenMode

/-- `lseek(2)` as `seek` calls it. -/
def seekFile (f : OpenFile) (offset : ℤ) : SeekWhence → Option (ℕ × OpenFile)
  | .set => if offset.toNat ≤ maxOffset then some (offset.toNat,{ f with pos := offset.toNat }) else none
  | .cur =>
    if 0 ≤ f.pos+offset ∧ f.pos+offset ≤ maxOffset then
      some ((f.pos+offset).toNat,{ f with pos := (f.pos+offset).toNat })
    else none
  | .fromEnd =>
    if 0 ≤ f.bytes.length+offset ∧ f.bytes.length+offset ≤ maxOffset then
      some ((f.bytes.length+offset).toNat,{ f with pos := (f.bytes.length+offset).toNat })
    else none

/-- How a request goes: it is answered, it fails before anything is done, or it is done and its answer is lost.
`taken` is how much the kernel reads or writes at most. -/
inductive Reply where
  | answered (taken : ℕ)
  | refused
  | lost (taken : ℕ)
  deriving DecidableEq, Repr

namespace Reply

def isLost : Reply → Bool
  | .lost _ => true
  | _ => false

/-- What an open file is after a request, and what comes back of it. -/
def run {α : Type} (r : Reply) (op : ℕ → Option (α × OpenFile)) (f : OpenFile) : Option α × OpenFile :=
  match r with
  | .refused => (none,f)
  | .answered taken => match op taken with
    | some (a,f) => (some a,f)
    | none => (none,f)
  | .lost taken => match op taken with
    | some (_,f) => (none,f)
    | none => (none,f)

end Reply

/-- A file opened on the host and in the guest. -/
structure FileUd where
  cursor : ℕ
  file : OpenFile
  deriving DecidableEq, Repr

/-- The requests that are made of it, the reads of its `fd_stream`, and what others make of the file's bytes. -/
inductive FileCall where
  | read (n : ℕ) (r : Reply)
  | write (data : List UInt8) (r : Reply)
  | seek (offset : ℤ) (whence : SeekWhence) (r : Reply)
  | tell (r : Reply)
  | fdStream (n : ℕ)
  | others (bytes : List UInt8)
  deriving DecidableEq, Repr

namespace FileUd
variable (m : OpenMode)

/-- `PER_CALL_CAP` -/
def perCallCap : ℕ := 4*1024*1024

/-- `CHUNK` -/
def chunk : ℕ := 64*1024

/-- `READ_CHUNK` of the agent's streams -/
def readChunk : ℕ := 64*1024

/-- The cursor is moved by what has come back. -/
def advance (u : FileUd) (n : ℕ) : FileUd := { u with cursor := min (u.cursor+n) u64Max }

def read (u : FileUd) (n : ℕ) (r : Reply) : Option (List UInt8) × FileUd :=
  match r.run (fun taken => m.readFile u.file (min (min n perCallCap) taken)) u.file with
  | (some data,f) => (some data,({ u with file := f } : FileUd).advance data.length)
  | (none,f) => (none,{ u with file := f })

/-- The loop of `read_all` ends with an empty chunk or with an error. -/
def readAll (u : FileUd) : List Reply → FileUd
  | [] => u
  | r::rs => match read m u chunk r with
    | (some data,u) => if data = [] then u else u.readAll rs
    | (none,u) => u

def write (u : FileUd) (data : List UInt8) (r : Reply) : FileUd :=
  match r.run (fun taken => m.writeFile u.file data taken) u.file with
  | (some written,f) => ({ u with file := f } : FileUd).advance written
  | (none,f) => { u with file := f }

def seek (u : FileUd) (offset : ℤ) (whence : SeekWhence) (r : Reply) : FileUd :=
  match r.run (fun _ => seekFile u.file offset whence) u.file with
  | (some new,f) => ⟨new,f⟩
  | (none,f) => { u with file := f }

def apply (u : FileUd) : FileCall → FileUd
  | .read n r => (read m u n r).2
  | .write data r => u.write m data r
  | .seek offset whence r => u.seek offset whence r
  | .tell r => u.seek 0 .cur r
  | .fdStream n => { u with file := ((m.readFile u.file (min n readChunk)).map Prod.snd).getD u.file }
  | .others bytes => { u with file := { u.file with bytes := bytes.take maxOffset } }

def run (u : FileUd) (calls : List FileCall) : FileUd := calls.foldl (apply m) u

/-- Where `tail_stream` would start is where the file is. -/
def Agrees (u : FileUd) : Prop := u.cursor = u.file.pos

instance (u : FileUd) : Decidable u.Agrees := inferInstanceAs (Decidable (_ = _))

/-- The calls that bring the cursor to the position wherever it was. -/
def settles (u : FileUd) : FileCall → Bool
  | .seek offset whence (.answered _) => (seekFile u.file offset whence).isSome
  | .tell (.answered _) => true
  | _ => false

/-- There is nothing to read for so many bytes. -/
def NoneRead (u : FileUd) (n : ℕ) : Prop := m.read = false ∨ slice u.file.bytes u.file.pos n = []

/-- The calls that move the cursor as they move the position: what is appended is appended at the position, no
answer is lost of a request that moves it, and the stream reads nothing. -/
def Keeps (u : FileUd) : FileCall → Prop
  | .read n (.lost taken) => u.NoneRead m (min (min n perCallCap) taken)
  | .write _ .refused => True
  | .write data (.answered taken) => m.append = false ∨ u.file.pos = u.file.bytes.length ∨
    m.part u.file data taken = []
  | .write data (.lost taken) => ∀ e ∈ m.writeFile u.file data taken, e.2.pos = u.file.pos
  | .seek offset whence (.lost _) => ∀ e ∈ seekFile u.file offset whence, e.2.pos = u.file.pos
  | .fdStream n => u.NoneRead m (min n readChunk)
  | _ => True

/-- Every call keeps or settles. -/
def KeepsAlong (u : FileUd) : List FileCall → Prop
  | [] => True
  | call::calls => (u.settles call ∨ u.Keeps m call) ∧ (u.apply m call).KeepsAlong calls

end FileUd

namespace FileCall

/-- Its answer may be lost, or it is the stream's. -/
def strays : FileCall → Bool
  | .read _ r | .write _ r | .seek _ _ r | .tell r => r.isLost
  | .fdStream _ => true
  | .others _ => false

end FileCall

/-! ## Positions stay within the bounds of a file -/

structure Bounded (f : OpenFile) : Prop where
  pos : f.pos ≤ maxOffset
  bytes : f.bytes.length ≤ maxOffset

section Bounds
variable {m : OpenMode} {f g : OpenFile}

theorem length_slice_le_end {l : List UInt8} {off n : ℕ} : (slice l off n).length ≤ l.length-off := by
  rw [slice,List.length_take,List.length_drop]
  omega

theorem Bounded.read (h : Bounded f) (n : ℕ) : Bounded (f.read n).2 ∧
    (f.read n).2.pos = f.pos+(f.read n).1.length := by
  have hle := @length_slice_le_end f.bytes f.pos n
  have hpos := h.pos
  have hbytes := h.bytes
  refine ⟨⟨?_,hbytes⟩,rfl⟩
  change f.pos+(slice f.bytes f.pos n).length ≤ maxOffset
  omega

theorem Bounded.start (h : Bounded f) : m.start f ≤ maxOffset := by
  unfold OpenMode.start
  split
  · exact h.bytes
  · exact h.pos

/-- Nothing is written, or a part that begins where writing starts. -/
theorem writeFile_cases (m : OpenMode) (f : OpenFile) (data : List UInt8) (taken : ℕ) :
    m.writeFile f data taken = none ∧ (m.append = false ∨ m.part f data taken = []) ∨
    m.writeFile f data taken = some (0,f) ∧ m.part f data taken = [] ∨
    m.part f data taken ≠ [] ∧ m.writeFile f data taken = some ((m.part f data taken).length,
      ⟨splice (padTo (m.start f) f.bytes) (m.start f) (m.part f data taken),
        m.start f+(m.part f data taken).length⟩) := by
  unfold OpenMode.writeFile
  split_ifs with hmode hpart hdata
  · simp only [Bool.and_eq_true,Bool.not_eq_true'] at hmode
    exact .inl ⟨rfl,.inl hmode.2⟩
  · exact .inr (.inl ⟨rfl,hpart⟩)
  · exact .inl ⟨rfl,.inr hpart⟩
  · exact .inr (.inr ⟨hpart,by rw [OpenFile.write,if_neg hpart]⟩)

theorem Bounded.write (h : Bounded f) {data : List UInt8} {taken written : ℕ}
    (hw : m.writeFile f data taken = some (written,g)) : Bounded g := by
  obtain ⟨hnone,-⟩ | ⟨hsome,-⟩ | ⟨-,hsome⟩ := writeFile_cases m f data taken
  · rw [hnone] at hw
    cases hw
  · rw [hsome] at hw
    cases hw
    exact h
  · rw [hsome] at hw
    cases hw
    have hstart := @Bounded.start m f h
    have hbytes := h.bytes
    have hlength : (m.part f data taken).length ≤ maxOffset-m.start f := by
      rw [OpenMode.part,List.length_take]
      omega
    refine ⟨by dsimp only; omega,?_⟩
    simp only [splice,List.length_append,List.length_take,List.length_drop,length_padTo]
    omega

theorem Bounded.seek (h : Bounded f) {offset : ℤ} {whence : SeekWhence} {new : ℕ}
    (hs : seekFile f offset whence = some (new,g)) : Bounded g ∧ g.pos = new := by
  unfold seekFile at hs
  split at hs <;> split_ifs at hs with hle <;> obtain ⟨rfl,rfl⟩ := Prod.mk.inj (Option.some.inj hs)
  · exact ⟨⟨hle,h.bytes⟩,rfl⟩
  · exact ⟨⟨by dsimp only; omega,h.bytes⟩,rfl⟩
  · exact ⟨⟨by dsimp only; omega,h.bytes⟩,rfl⟩

theorem bounded_openFile {existing : Option (List UInt8)} (hopen : m.openFile existing = some f)
    (hexisting : ∀ bytes ∈ existing, bytes.length ≤ maxOffset) : Bounded f ∧ f.pos = 0 := by
  unfold OpenMode.openFile at hopen
  dsimp only at hopen
  cases existing with
  | none =>
    dsimp only at hopen
    split_ifs at hopen
    cases hopen
    exact ⟨⟨Nat.zero_le _,Nat.zero_le _⟩,rfl⟩
  | some bytes =>
    dsimp only at hopen
    split_ifs at hopen <;> cases hopen
    · exact ⟨⟨Nat.zero_le _,Nat.zero_le _⟩,rfl⟩
    · exact ⟨⟨Nat.zero_le _,hexisting _ rfl⟩,rfl⟩

end Bounds

/-- What every state that the request may leave has is left. -/
theorem Reply.run_file {α : Type} {P : OpenFile → Prop} {op : ℕ → Option (α × OpenFile)} {f : OpenFile} (r : Reply)
    (hf : P f) (hop : ∀ taken a g, op taken = some (a,g) → P g) : P (r.run op f).2 := by
  cases r with
  | refused => exact hf
  | answered taken | lost taken =>
    unfold Reply.run
    dsimp only
    split
    · exact hop taken _ _ ‹_›
    · exact hf

theorem Reply.run_lost {α : Type} (op : ℕ → Option (α × OpenFile)) (f : OpenFile) (taken : ℕ) :
    (Reply.lost taken).run op f = (none,((op taken).map Prod.snd).getD f) := by
  unfold Reply.run
  dsimp only
  cases op taken <;> rfl

namespace FileUd
variable {m : OpenMode} {u : FileUd} {n : ℕ}

theorem agrees_advance {cursor : ℕ} {f : OpenFile} (h : cursor ≤ maxOffset) (hn : n ≤ maxOffset) :
    ((⟨cursor,f⟩ : FileUd).advance n).Agrees ↔ cursor+n = f.pos := by
  change min (cursor+n) u64Max = f.pos ↔ _
  rw [min_eq_left ((Nat.add_le_add h hn).trans maxOffset_add_le)]

theorem readFile_eq_some {f g : OpenFile} {data : List UInt8} (h : m.readFile f n = some (data,g)) :
    m.read = true ∧ (data,g) = f.read n := by
  unfold OpenMode.readFile at h
  split_ifs at h with hread
  exact ⟨hread,(Option.some.inj h).symm⟩

theorem file_read (r : Reply) : (read m u n r).2.file =
    (r.run (fun taken => m.readFile u.file (min (min n perCallCap) taken)) u.file).2 := by
  unfold read
  split <;> simp_all [advance]

theorem file_write (data : List UInt8) (r : Reply) : (u.write m data r).file =
    (r.run (fun taken => m.writeFile u.file data taken) u.file).2 := by
  unfold write
  split <;> simp_all [advance]

theorem file_seek (offset : ℤ) (whence : SeekWhence) (r : Reply) : (u.seek offset whence r).file =
    (r.run (fun _ => seekFile u.file offset whence) u.file).2 := by
  unfold seek
  split <;> simp_all

theorem bounded_apply (h : Bounded u.file) (call : FileCall) : Bounded (u.apply m call).file := by
  have hread : ∀ k a g, m.readFile u.file k = some (a,g) → Bounded g := by
    intro k a g hg
    have := (readFile_eq_some hg).2
    rw [(Prod.mk.inj this).2]
    exact (h.read k).1
  cases call with
  | read n r =>
    rw [apply,file_read]
    exact r.run_file h fun taken => hread _
  | write data r =>
    rw [apply,file_write]
    exact r.run_file h fun taken written g => h.write
  | seek offset whence r =>
    rw [apply,file_seek]
    exact r.run_file h fun _ new g hs => (h.seek hs).1
  | tell r =>
    rw [apply,file_seek]
    exact r.run_file h fun _ new g hs => (h.seek hs).1
  | fdStream n =>
    unfold apply
    dsimp only
    cases hg : m.readFile u.file (min n readChunk) with
    | none => exact h
    | some e => exact hread _ e.1 e.2 hg
  | others bytes =>
    refine ⟨h.pos,?_⟩
    change (bytes.take maxOffset).length ≤ maxOffset
    rw [List.length_take]
    exact min_le_left _ _

/-- A seek that is answered leaves both at the place that it names. -/
theorem agrees_seek {offset : ℤ} {whence : SeekWhence} {taken : ℕ} (h : Bounded u.file)
    (hs : (seekFile u.file offset whence).isSome) : (u.seek offset whence (.answered taken)).Agrees := by
  obtain ⟨⟨new,g⟩,hs⟩ := Option.isSome_iff_exists.1 hs
  have hpos := (h.seek hs).2
  unfold seek Reply.run
  dsimp only
  rw [hs]
  exact hpos.symm

theorem isSome_tell (h : Bounded u.file) : (seekFile u.file 0 .cur).isSome := by
  have hpos := h.pos
  unfold seekFile
  dsimp only
  rw [if_pos (by omega)]
  rfl

theorem agrees_of_settles {call : FileCall} (h : Bounded u.file) (hs : u.settles call) :
    (u.apply m call).Agrees := by
  cases call with
  | seek offset whence r =>
    cases r with
    | answered taken => exact agrees_seek h hs
    | refused | lost taken => cases hs
  | tell r =>
    cases r with
    | answered taken => exact agrees_seek h (isSome_tell h)
    | refused | lost taken => cases hs
  | read n r | write data r | fdStream n | others bytes => cases hs

theorem pos_read (f : OpenFile) (n : ℕ) : (f.read n).2.pos = f.pos ↔ slice f.bytes f.pos n = [] := by
  rw [← List.length_eq_zero_iff]
  exact Nat.add_eq_left

theorem noneRead_iff : u.NoneRead m n ↔ ∀ e ∈ m.readFile u.file n, e.2.pos = u.file.pos := by
  unfold NoneRead OpenMode.readFile
  split_ifs with hread
  · rw [← pos_read,hread]
    simp
  · exact iff_of_true (.inl (by simpa using hread)) (by simp)

/-- Where the cursor stays, the position has to. -/
theorem agrees_stays {α : Type} (ha : u.Agrees) (moved : Option (α × OpenFile)) :
    ({ u with file := (moved.map Prod.snd).getD u.file } : FileUd).Agrees ↔ ∀ e ∈ moved, e.2.pos = u.file.pos := by
  cases moved with
  | none => exact iff_of_true ha (by simp)
  | some e =>
    change u.cursor = e.2.pos ↔ _
    rw [ha,eq_comm]
    simp

theorem agrees_read (h : Bounded u.file) (ha : u.Agrees) (r : Reply) :
    (read m u n r).2.Agrees ↔ u.Keeps m (.read n r) := by
  cases r with
  | refused => exact iff_of_true ha trivial
  | answered taken =>
    refine iff_of_true ?_ trivial
    obtain ⟨hb,hpos⟩ := h.read (min (min n perCallCap) taken)
    unfold read Reply.run OpenMode.readFile
    split_ifs with hread
    · dsimp only
      refine (agrees_advance (ha.trans_le h.pos) ?_).2 ?_
      · exact (Nat.le_add_left _ _).trans (hpos.symm.trans_le hb.pos)
      · rw [ha,hpos]
    · exact ha
  | lost taken =>
    unfold read
    rw [Reply.run_lost]
    exact (agrees_stays ha _).trans noneRead_iff.symm

/-- A part that is appended elsewhere than at the position takes the position away from the cursor. -/
theorem agrees_write (h : Bounded u.file) (ha : u.Agrees) (data : List UInt8) (r : Reply) :
    (u.write m data r).Agrees ↔ u.Keeps m (.write data r) := by
  cases r with
  | refused => exact iff_of_true ha trivial
  | answered taken =>
    unfold write Reply.run Keeps
    dsimp only
    obtain ⟨hw,hpart⟩ | ⟨hw,hpart⟩ | ⟨hpart,hw⟩ := writeFile_cases m u.file data taken
    · rw [hw]
      exact iff_of_true ha (hpart.imp_right .inr)
    · rw [hw]
      exact iff_of_true ((agrees_advance (ha.trans_le h.pos) (Nat.zero_le _)).2 ha) (.inr (.inr hpart))
    · have hlength : (m.part u.file data taken).length ≤ maxOffset := by
        rw [OpenMode.part,List.length_take]
        omega
      rw [hw]
      dsimp only
      rw [agrees_advance (ha.trans_le h.pos) hlength,ha,Nat.add_right_cancel_iff]
      cases happ : m.append <;> simp [OpenMode.start,happ,hpart]
  | lost taken =>
    unfold write
    rw [Reply.run_lost]
    exact agrees_stays ha _

theorem agrees_apply (h : Bounded u.file) (ha : u.Agrees) (call : FileCall) :
    (u.apply m call).Agrees ↔ u.settles call ∨ u.Keeps m call := by
  cases call with
  | read n r => exact (agrees_read h ha r).trans ⟨.inr,fun hk => hk.resolve_left Bool.false_ne_true⟩
  | write data r => exact (agrees_write h ha data r).trans ⟨.inr,fun hk => hk.resolve_left Bool.false_ne_true⟩
  | seek offset whence r =>
    cases r with
    | refused => exact iff_of_true ha (.inr trivial)
    | answered taken =>
      refine iff_of_true ?_ (.inr trivial)
      by_cases hs : (seekFile u.file offset whence).isSome
      · exact agrees_seek h hs
      · rw [Option.not_isSome_iff_eq_none] at hs
        unfold apply seek Reply.run
        dsimp only
        rw [hs]
        exact ha
    | lost taken =>
      refine Iff.trans ?_ ⟨.inr,fun hk => hk.resolve_left Bool.false_ne_true⟩
      unfold apply seek
      dsimp only
      rw [Reply.run_lost]
      exact agrees_stays ha _
  | tell r =>
    refine iff_of_true ?_ (.inr trivial)
    cases r with
    | refused => exact ha
    | answered taken => exact agrees_seek h (isSome_tell h)
    | lost taken =>
      unfold apply seek Reply.run seekFile
      dsimp only
      split_ifs
      · change u.cursor = ((u.file.pos : ℤ)+0).toNat
        rw [ha,Int.add_zero,Int.toNat_natCast]
      · exact ha
  | fdStream n =>
    refine Iff.trans ?_ ⟨.inr,fun hk => hk.resolve_left Bool.false_ne_true⟩
    exact (agrees_stays ha _).trans noneRead_iff.symm
  | others bytes => exact iff_of_true ha (.inr trivial)

/-- A request whose answer comes moves both, unless it appends. -/
theorem keeps_of_not_strays (happ : m.append = false) {call : FileCall} (h : call.strays = false) : u.Keeps m call := by
  cases call with
  | read n r | write data r | seek offset whence r | tell r =>
    cases r with
    | refused => trivial
    | answered taken => first | trivial | exact .inl happ
    | lost taken => cases h
  | fdStream n => cases h
  | others bytes => trivial

/-! ## What a run does -/

theorem bounded_run (h : Bounded u.file) (calls : List FileCall) : Bounded (u.run m calls).file := by
  induction calls generalizing u with
  | nil => exact h
  | cons call calls ih => exact ih (bounded_apply h call)

theorem agrees_run (h : Bounded u.file) (ha : u.Agrees) {calls : List FileCall} (hk : u.KeepsAlong m calls) :
    (u.run m calls).Agrees := by
  induction calls generalizing u with
  | nil => exact ha
  | cons call calls ih => exact ih (bounded_apply h call) ((agrees_apply h ha call).2 hk.1) hk.2

theorem keepsAlong_of_forall {calls : List FileCall} (h : ∀ call ∈ calls, ∀ v : FileUd, v.Keeps m call) :
    u.KeepsAlong m calls := by
  induction calls generalizing u with
  | nil => trivial
  | cons call calls ih =>
    exact ⟨.inr (h call List.mem_cons_self u),ih fun c hc => h c (List.mem_cons_of_mem _ hc)⟩

/-- The loop is a run of reads, as many as it comes to. -/
theorem readAll_eq_run (rs : List Reply) : ∃ k, u.readAll m rs = u.run m ((rs.take k).map (FileCall.read chunk)) := by
  induction rs generalizing u with
  | nil => exact ⟨0,rfl⟩
  | cons r rs ih =>
    have hone : (read m u chunk r).2 = u.run m (((r::rs).take 1).map (FileCall.read chunk)) := rfl
    unfold readAll
    split
    · next data v hread =>
      rw [hread] at hone
      split_ifs with hdata
      · exact ⟨1,hone⟩
      · obtain ⟨k,hk⟩ := @ih v
        refine ⟨k+1,hk.trans ?_⟩
        change run m v _ = run m (read m u chunk r).2 _
        rw [hread]
    · next v hread =>
      rw [hread] at hone
      exact ⟨1,hone⟩

theorem agrees_readAll (h : Bounded u.file) (ha : u.Agrees) {rs : List Reply} (hrs : ∀ r ∈ rs, r.isLost = false) :
    (u.readAll m rs).Agrees := by
  obtain ⟨k,hk⟩ := @readAll_eq_run m u rs
  rw [hk]
  refine agrees_run h ha (keepsAlong_of_forall fun call hcall v => ?_)
  obtain ⟨r,hr,rfl⟩ := List.mem_map.1 hcall
  have hlost := hrs r (List.mem_of_mem_take hr)
  cases r with
  | refused | answered taken => trivial
  | lost taken => cases hlost

end FileUd

/-- The cursor is where the file is for as long as every request keeps it there. A request whose answer is lost after
it has moved the position, the stream of the file, and a write that is appended behind the position do not; a seek
and a `tell` that are answered bring the cursor back. -/
theorem file_cursor_follows (m : OpenMode) (existing : Option (List UInt8)) (f : OpenFile)
    (hopen : m.openFile existing = some f) (hexisting : ∀ bytes ∈ existing, bytes.length ≤ maxOffset)
    (calls : List FileCall) :
    (FileUd.KeepsAlong m ⟨0,f⟩ calls → (FileUd.run m ⟨0,f⟩ calls).Agrees) ∧
    (∀ call, (FileUd.run m ⟨0,f⟩ calls).settles call → ((FileUd.run m ⟨0,f⟩ calls).apply m call).Agrees) ∧
    ((FileUd.run m ⟨0,f⟩ calls).Agrees →
      (∀ call, ((FileUd.run m ⟨0,f⟩ calls).apply m call).Agrees ↔
        (FileUd.run m ⟨0,f⟩ calls).settles call ∨ (FileUd.run m ⟨0,f⟩ calls).Keeps m call) ∧
      ∀ rs : List Reply, (∀ r ∈ rs, r.isLost = false) → ((FileUd.run m ⟨0,f⟩ calls).readAll m rs).Agrees) ∧
    (m.append = false → (∀ call ∈ calls, call.strays = false) → (FileUd.run m ⟨0,f⟩ calls).Agrees) := by
  obtain ⟨hb,hpos⟩ := bounded_openFile hopen hexisting
  have ha : FileUd.Agrees ⟨0,f⟩ := hpos.symm
  have hrun := FileUd.bounded_run (m := m) (u := ⟨0,f⟩) hb calls
  refine ⟨FileUd.agrees_run hb ha,fun call => FileUd.agrees_of_settles hrun,
    fun hagrees => ⟨fun call => FileUd.agrees_apply hrun hagrees call,fun rs => FileUd.agrees_readAll hrun hagrees⟩,
    fun happ hs => FileUd.agrees_run hb ha (FileUd.keepsAlong_of_forall fun call hcall v => ?_)⟩
  exact FileUd.keeps_of_not_strays happ (hs call hcall)

/-- Two bytes are appended to a file of three, and the cursor is behind them until a `tell`. -/
theorem file_cursor_follows_appended :
    ¬ (FileUd.run ⟨false,false,true,false,true,false⟩ ⟨0,⟨[1,2,3],0⟩⟩ [.write [4,5] (.answered 2)]).Agrees ∧
    (FileUd.run ⟨false,false,true,false,true,false⟩ ⟨0,⟨[1,2,3],0⟩⟩
      [.write [4,5] (.answered 2),.tell (.answered 0)]).Agrees := by
  have hlength : ∀ bytes ∈ some ([1,2,3] : List UInt8), bytes.length ≤ maxOffset := by
    rintro _ ⟨⟩
    simp [maxOffset]
  have hopen := file_cursor_follows ⟨false,false,true,false,true,false⟩ (some [1,2,3]) ⟨[1,2,3],0⟩ rfl hlength
  refine ⟨fun h => ?_,(hopen [.write [4,5] (.answered 2)]).2.1 (.tell (.answered 0)) rfl⟩
  obtain hs | hk := (((hopen []).2.2.1 rfl).1 (.write [4,5] (.answered 2))).1 h
  · cases hs
  · obtain hk | hk | hk := hk
    · cases hk
    · cases hk
    · have htwo : min 2 (maxOffset-3) = 2 := by
        unfold maxOffset
        norm_num
      change ([4,5] : List UInt8).take (min 2 (maxOffset-3)) = [] at hk
      rw [htwo] at hk
      cases hk

end Provium.Host
