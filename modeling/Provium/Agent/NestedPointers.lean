import Mathlib

/-! Nested pointers of a syscall: how `vm:syscall` and `worker:syscall` take the entries from Lua, and what
the agent writes into the buffers for them before it makes the call. -/
namespace Provium.Agent.NestedPointers

abbrev Bytes := List UInt8

/-- An `i64`. -/
abbrev I64 := { n : ℤ // -2^63 ≤ n ∧ n < 2^63 }

def i64 (n : ℤ) (h : -2^63 ≤ n ∧ n < 2^63 := by decide) : I64 := ⟨n,h⟩

/-- An entry of `nested`, with indices that count from 1. -/
structure NestedEntry where
  parent : I64
  child : I64
  offset : I64

/-- The table of a call, with the numbers and texts that it has. -/
structure SyscallTable where
  args : List (Option I64)
  bufs : List Bytes
  ptrs : List I64
  nested : List NestedEntry

structure NestedPtr where
  parent : ℕ
  child : ℕ
  offset : ℕ
  deriving DecidableEq, Repr

structure SyscallArgs where
  nr : ℤ
  args : List ℤ
  bufs : List Bytes
  ptrs : List ℕ
  nested : List NestedPtr
  deriving DecidableEq, Repr

/-- `(index - 1).max(0) as u8`; the difference is taken modulo 2^64. -/
def index (n : I64) : ℕ := (max (Int.bmod (n-1) (2^64)) 0).toNat%256

/-- A number as an unsigned one of so many bits, where it is one. -/
def unsigned (bits : ℕ) (n : I64) : Except String ℕ :=
  if 0 ≤ n.1 ∧ n.1 < 2^bits then .ok n.1.toNat else .error "out of range"

def NestedEntry.ptr (e : NestedEntry) : Except String NestedPtr :=
  (unsigned 32 e.offset).map fun offset => ⟨index e.parent,index e.child,offset⟩

/-- `parse_syscall_args` of a table, and its double in `worker:syscall`. -/
def parseSyscallArgs (nr : I64) (t : SyscallTable) : Except String SyscallArgs := do
  let ptrs ← t.ptrs.mapM (unsigned 8)
  let nested ← t.nested.mapM NestedEntry.ptr
  return ⟨nr,(List.range 6).map fun i => ((t.args[i]?.getD none).map Subtype.val).getD 0,t.bufs,ptrs,nested⟩

/-- Eight bytes that are written into a buffer. -/
structure Write where
  buf : ℕ
  offset : ℕ
  address : UInt64
  deriving DecidableEq, Repr

/-- `to_ne_bytes`, with the lowest byte first. -/
def neBytes (a : UInt64) : Bytes := (List.range 8).map fun i => (a>>>UInt64.ofNat (8*i)).toUInt8

def Write.apply (w : Write) (bufs : List Bytes) : List Bytes :=
  bufs.modify w.buf fun b => b.take w.offset++neBytes w.address++b.drop (w.offset+8)

/-- What the agent writes for an entry. Of a child that is not there it takes 0 for the address. -/
def NestedPtr.write (n : NestedPtr) (addrs : List UInt64) (bufs : List Bytes) : Option Write :=
  match bufs[n.parent]? with
  | some parent => if n.offset+8 ≤ parent.length then some ⟨n.parent,n.offset,addrs.getD n.child 0⟩ else none
  | none => none

/-- The splices, in the order of the list, each with what it writes. -/
def splice (addrs : List UInt64) : List NestedPtr → List Bytes → List (Option Write) × List Bytes
  | [],bufs => ([],bufs)
  | n::ns,bufs =>
    let w := n.write addrs bufs
    let (ws,bufs) := splice addrs ns (w.elim bufs fun w => w.apply bufs)
    (w::ws,bufs)

/-- The arguments with the buffers' addresses in their slots. -/
def slotted (addrs : List UInt64) (ptrs : List ℕ) (args : List ℤ) : List ℤ :=
  (ptrs.zip addrs).foldl (fun args p => args.set p.1 (Int.bmod p.2.toNat (2^64))) args

/-- What `syscall` makes the system call with: the arguments, the buffers, and what it has written into
them. -/
def prepare (a : SyscallArgs) (addr : ℕ → UInt64) : List ℤ × List Bytes × List (Option Write) :=
  let addrs := (List.range a.bufs.length).map addr
  let spliced := splice addrs a.nested a.bufs
  (slotted addrs a.ptrs a.args,spliced.2,spliced.1)

/-- The entry names a parent and a child that are there, and a place with room for an address. -/
structure NestedEntry.Names (e : NestedEntry) (bufs : List Bytes) : Prop where
  parent : 1 ≤ e.parent.1 ∧ e.parent.1 ≤ bufs.length
  child : 1 ≤ e.child.1 ∧ e.child.1 ≤ bufs.length
  room : 0 ≤ e.offset.1 ∧ e.offset.1+8 ≤ ((bufs[(e.parent.1-1).toNat]?).getD []).length

instance (e : NestedEntry) (bufs : List Bytes) : Decidable (e.Names bufs) :=
  decidable_of_iff (_ ∧ _ ∧ _) ⟨fun h => ⟨h.1,h.2.1,h.2.2⟩,fun h => ⟨h.parent,h.child,h.room⟩⟩

/-- What an entry asks for. -/
def NestedEntry.named (e : NestedEntry) (addr : ℕ → UInt64) (bufs : List Bytes) : Option Write :=
  if e.Names bufs then some ⟨(e.parent.1-1).toNat,e.offset.1.toNat,addr (e.child.1-1).toNat⟩ else none

/-- What the entries of a table ask for, one after the other. -/
def SyscallTable.asked (t : SyscallTable) (addr : ℕ → UInt64) : List (Option Write) :=
  t.nested.map fun e => e.named addr t.bufs

/-- The call is refused, or what is written is what the entries ask for, and nothing else has become of the
buffers when the system call is made. -/
def Hits (nr : I64) (t : SyscallTable) (addr : ℕ → UInt64) : Prop :=
  ∀ a, parseSyscallArgs nr t = .ok a → (prepare a addr).2.2 = t.asked addr ∧
    (prepare a addr).2.1 = (t.asked addr).reduceOption.foldl (fun bufs w => w.apply bufs) t.bufs

/-- Lua's numbers do not fit the types of the wire. -/
def SyscallTable.Refused (t : SyscallTable) : Prop :=
  (∃ p ∈ t.ptrs, ¬(0 ≤ p.1 ∧ p.1 < 2^8)) ∨ ∃ e ∈ t.nested, ¬(0 ≤ e.offset.1 ∧ e.offset.1 < 2^32)

/-- The buffer that stands at a parent's index as it is converted has room. -/
def NestedEntry.Lands (e : NestedEntry) (bufs : List Bytes) : Prop :=
  ∃ b, bufs[index e.parent]? = some b ∧ e.offset.1+8 ≤ b.length

/-- An entry that names buffers names them by 256 at most, or a child at the address of the one that stands
at its index as it is converted; and one that does not, names none that has room as it is converted. -/
structure NestedEntry.Sound (e : NestedEntry) (addr : ℕ → UInt64) (bufs : List Bytes) : Prop where
  named : e.Names bufs → e.parent.1 ≤ 256 ∧ (e.child.1 ≤ 256 ∨ addr (index e.child) = addr (e.child.1-1).toNat)
  unnamed : ¬e.Names bufs → ¬e.Lands bufs

section Lengths
variable {bufs : List Bytes} {addrs : List UInt64}

theorem neBytes_length (a : UInt64) : (neBytes a).length = 8 := rfl

/-- A write that has room changes no buffer's length. -/
theorem NestedPtr.write_lengths {n : NestedPtr} {w : Write} (h : n.write addrs bufs = some w) :
    (w.apply bufs).map List.length = bufs.map List.length := by
  unfold NestedPtr.write at h
  split at h
  · next parent hparent =>
    split at h
    · next hroom =>
      obtain rfl := Option.some.inj h
      refine List.ext_getElem? fun i => ?_
      rw [Write.apply,List.getElem?_map,List.getElem?_map,List.getElem?_modify]
      by_cases hi : n.parent = i
      · subst hi
        simp only [hparent,Option.map_eq_map,Option.map_some,if_true,List.length_append,List.length_take,
          neBytes_length,List.length_drop,Option.some.injEq]
        omega
      · simp only [hi,if_false,Option.map_eq_map,Option.map_id']
    · cases h
  · cases h

/-- What is written depends on the buffers only by their lengths. -/
theorem NestedPtr.write_congr {bufs' : List Bytes} (n : NestedPtr)
    (h : bufs'.map List.length = bufs.map List.length) : n.write addrs bufs' = n.write addrs bufs := by
  have hat := congrArg (·[n.parent]?) h
  simp only [List.getElem?_map] at hat
  unfold NestedPtr.write
  cases hb : bufs[n.parent]? with
  | none =>
    rw [hb] at hat
    rw [Option.map_eq_none_iff.mp hat]
  | some b =>
    rw [hb] at hat
    obtain ⟨b',hb',hlen⟩ := Option.map_eq_some_iff.mp hat
    rw [hb']
    simp only [hlen]

theorem splice_writes (ns : List NestedPtr) {bufs' : List Bytes} (h : bufs'.map List.length = bufs.map List.length) :
    (splice addrs ns bufs').1 = ns.map fun n => n.write addrs bufs := by
  induction ns generalizing bufs' with
  | nil => rfl
  | cons n ns ih =>
    rw [splice,List.map_cons,← n.write_congr h]
    refine congrArg _ (ih ?_)
    cases hw : n.write addrs bufs' with
    | none => exact h
    | some w => exact (NestedPtr.write_lengths hw).trans h

/-- The buffers change by what is written, and by nothing else. -/
theorem splice_bufs (addrs : List UInt64) (ns : List NestedPtr) (bufs : List Bytes) : (splice addrs ns bufs).2 =
    (splice addrs ns bufs).1.reduceOption.foldl (fun bufs w => w.apply bufs) bufs := by
  induction ns generalizing bufs with
  | nil => rfl
  | cons n ns ih =>
    rw [splice]
    cases hw : n.write addrs bufs with
    | none => exact ih bufs
    | some w => exact ih (w.apply bufs)

end Lengths

section Entries
variable {e : NestedEntry} {n : NestedPtr} {addr : ℕ → UInt64} {bufs : List Bytes}

theorem index_pos {k : I64} (h : 1 ≤ k.1) : index k = (k.1-1).toNat%256 := by
  obtain ⟨k,hlo,hhi⟩ := k
  change 1 ≤ k at h
  have hmod : Int.bmod (k-1) (2^64) = k-1 := Int.bmod_eq_of_le_mul_two (by omega) (by omega)
  change (max (Int.bmod (k-1) (2^64)) 0).toNat%256 = (k-1).toNat%256
  rw [hmod,max_eq_left (by omega)]

theorem ptr_ok (h : e.ptr = .ok n) :
    n = ⟨index e.parent,index e.child,e.offset.1.toNat⟩ ∧ 0 ≤ e.offset.1 ∧ e.offset.1 < 2^32 := by
  unfold NestedEntry.ptr unsigned at h
  split at h
  · next hrange =>
    obtain rfl := Except.ok.inj h
    exact ⟨rfl,hrange⟩
  · cases h

theorem getD_addrs (addr : ℕ → UInt64) {len i : ℕ} (h : i < len) :
    ((List.range len).map addr).getD i 0 = addr i := by
  rw [List.getD_eq_getElem?_getD,List.getElem?_map,List.getElem?_range h]
  rfl

/-- An entry that names buffers is written as it asks exactly if the conversion hits them. -/
theorem write_eq_named (h : e.ptr = .ok n) (hnames : e.Names bufs) :
    n.write ((List.range bufs.length).map addr) bufs = e.named addr bufs ↔
      e.parent.1 ≤ 256 ∧ (e.child.1 ≤ 256 ∨ addr (index e.child) = addr (e.child.1-1).toNat) := by
  obtain ⟨rfl,-,-⟩ := ptr_ok h
  obtain ⟨⟨hparent,hparent'⟩,⟨hchild,hchild'⟩,hoffset,hroom⟩ := hnames
  have hp := index_pos hparent
  have hc := index_pos hchild
  have haddr : ((List.range bufs.length).map addr).getD (index e.child) 0 = addr (index e.child) :=
    getD_addrs addr (by omega)
  rw [NestedEntry.named,if_pos ⟨⟨hparent,hparent'⟩,⟨hchild,hchild'⟩,hoffset,hroom⟩,NestedPtr.write]
  simp only [haddr]
  constructor
  · intro heq
    split at heq
    · split at heq
      · simp only [Option.some.injEq,Write.mk.injEq,true_and] at heq
        exact ⟨by omega,.inr heq.2⟩
      · cases heq
    · cases heq
  · rintro ⟨hle,haddr'⟩
    have hindex : index e.parent = (e.parent.1-1).toNat := by omega
    have hlt : (e.parent.1-1).toNat < bufs.length := by omega
    rw [List.getElem?_eq_getElem hlt,Option.getD_some] at hroom
    have haddress : addr (index e.child) = addr (e.child.1-1).toNat := by
      obtain hle' | heq := haddr'
      · exact congrArg addr (by omega)
      · exact heq
    rw [hindex,List.getElem?_eq_getElem hlt]
    simp only [haddress]
    rw [if_pos (by omega)]

/-- One that does not is ignored exactly if there is no room where it lands. -/
theorem write_eq_none (h : e.ptr = .ok n) (addrs : List UInt64) : n.write addrs bufs = none ↔ ¬e.Lands bufs := by
  obtain ⟨rfl,hoffset,-⟩ := ptr_ok h
  unfold NestedPtr.write NestedEntry.Lands
  cases hb : bufs[index e.parent]? with
  | none => simp
  | some b =>
    simp only [Option.some.injEq,exists_eq_left']
    split
    · next hroom =>
      refine ⟨fun hnone => (nomatch hnone),fun hno => absurd ?_ hno⟩
      omega
    · next hroom =>
      refine ⟨fun _ hland => hroom ?_,fun _ => rfl⟩
      omega

theorem write_eq_named_iff (h : e.ptr = .ok n) :
    n.write ((List.range bufs.length).map addr) bufs = e.named addr bufs ↔ e.Sound addr bufs := by
  by_cases hnames : e.Names bufs
  · rw [write_eq_named h hnames]
    exact ⟨fun hs => ⟨fun _ => hs,fun hnot => absurd hnames hnot⟩,fun hs => hs.named hnames⟩
  · rw [NestedEntry.named,if_neg hnames,write_eq_none h]
    exact ⟨fun hs => ⟨fun hyes => absurd hyes hnames,fun _ => hs⟩,fun hs => hs.unnamed hnames⟩

end Entries

section Parsing
variable {nr : I64} {t : SyscallTable} {α β ε : Type}

theorem mapM_ok_iff {f : α → Except ε β} {xs : List α} {ys : List β} :
    xs.mapM f = .ok ys ↔ List.Forall₂ (fun x y => f x = .ok y) xs ys := by
  induction xs generalizing ys with
  | nil => cases ys <;> simp [List.mapM_nil,pure,Except.pure]
  | cons x xs ih =>
    rw [List.mapM_cons]
    cases hx : f x with
    | error e =>
      refine ⟨fun h => (nomatch h),fun h => ?_⟩
      cases h with
      | cons hy _ => rw [hx] at hy; cases hy
    | ok y =>
      cases hxs : xs.mapM f with
      | error e =>
        refine ⟨fun h => (nomatch h),fun h => ?_⟩
        cases h with
        | cons _ htail => rw [ih.mpr htail] at hxs; cases hxs
      | ok ys' =>
        constructor
        · intro h
          obtain rfl := Except.ok.inj h
          exact .cons hx (ih.mp hxs)
        · intro h
          cases h with
          | cons hy htail =>
            rw [hx] at hy
            obtain rfl := Except.ok.inj hy
            rw [ih.mpr htail] at hxs
            obtain rfl := Except.ok.inj hxs
            rfl

/-- A list is taken where all of its elements are. -/
theorem exists_mapM_ok_iff {f : α → Except ε β} {xs : List α} :
    (∃ ys, xs.mapM f = .ok ys) ↔ ∀ x ∈ xs, ∃ y, f x = .ok y := by
  simp only [mapM_ok_iff]
  constructor
  · rintro ⟨ys,h⟩
    induction h with
    | nil => exact fun x hx => absurd hx List.not_mem_nil
    | cons hx _ ih => exact List.forall_mem_cons.mpr ⟨⟨_,hx⟩,ih⟩
  · intro h
    induction xs with
    | nil => exact ⟨[],.nil⟩
    | cons x xs ih =>
      obtain ⟨⟨y,hy⟩,hrest⟩ := List.forall_mem_cons.mp h
      obtain ⟨ys,hys⟩ := ih hrest
      exact ⟨y::ys,.cons hy hys⟩

theorem unsigned_ok_iff {bits : ℕ} {k : I64} : (∃ u, unsigned bits k = .ok u) ↔ 0 ≤ k.1 ∧ k.1 < 2^bits := by
  unfold unsigned
  split
  · next h => exact ⟨fun _ => h,fun _ => ⟨_,rfl⟩⟩
  · next h => exact ⟨fun ⟨_,hu⟩ => (nomatch hu),fun hrange => absurd hrange h⟩

theorem ptr_ok_iff {e : NestedEntry} : (∃ n, e.ptr = .ok n) ↔ 0 ≤ e.offset.1 ∧ e.offset.1 < 2^32 := by
  rw [← unsigned_ok_iff]
  unfold NestedEntry.ptr
  cases unsigned 32 e.offset with
  | ok u => exact ⟨fun _ => ⟨u,rfl⟩,fun _ => ⟨_,rfl⟩⟩
  | error e => exact ⟨fun ⟨_,h⟩ => (nomatch h),fun ⟨_,h⟩ => (nomatch h)⟩

theorem refused_iff : t.Refused ↔ ∀ a, parseSyscallArgs nr t ≠ .ok a := by
  rw [← not_iff_not]
  push Not
  have hparse : (∃ a, parseSyscallArgs nr t = .ok a) ↔
      (∃ ptrs, t.ptrs.mapM (unsigned 8) = .ok ptrs) ∧ ∃ nested, t.nested.mapM NestedEntry.ptr = .ok nested := by
    unfold parseSyscallArgs
    cases t.ptrs.mapM (unsigned 8) with
    | error e => exact ⟨fun ⟨_,h⟩ => (nomatch h),fun ⟨⟨_,h⟩,_⟩ => (nomatch h)⟩
    | ok ptrs =>
      cases t.nested.mapM NestedEntry.ptr with
      | error e => exact ⟨fun ⟨_,h⟩ => (nomatch h),fun ⟨_,_,h⟩ => (nomatch h)⟩
      | ok nested => exact ⟨fun _ => ⟨⟨ptrs,rfl⟩,nested,rfl⟩,fun _ => ⟨_,rfl⟩⟩
  rw [hparse,exists_mapM_ok_iff,exists_mapM_ok_iff]
  simp only [unsigned_ok_iff,ptr_ok_iff,SyscallTable.Refused,not_or,not_exists,not_and,Classical.not_imp,not_not]

theorem parse_ok {a : SyscallArgs} (h : parseSyscallArgs nr t = .ok a) :
    a.bufs = t.bufs ∧ List.Forall₂ (fun e n => NestedEntry.ptr e = .ok n) t.nested a.nested := by
  unfold parseSyscallArgs at h
  cases hptrs : t.ptrs.mapM (unsigned 8) with
  | error e => rw [hptrs] at h; cases h
  | ok ptrs =>
    cases hnested : t.nested.mapM NestedEntry.ptr with
    | error e => rw [hptrs,hnested] at h; cases h
    | ok nested =>
      rw [hptrs,hnested] at h
      obtain rfl := Except.ok.inj h
      exact ⟨rfl,mapM_ok_iff.mp hnested⟩

theorem map_eq_map_iff {α β γ : Type*} {R : α → β → Prop} {xs : List α} {ys : List β} {f : β → γ} {g : α → γ}
    {P : α → Prop} (h : List.Forall₂ R xs ys) (hP : ∀ x y, R x y → (f y = g x ↔ P x)) :
    ys.map f = xs.map g ↔ ∀ x ∈ xs, P x := by
  induction h with
  | nil => simp
  | cons hxy _ ih => rw [List.map_cons,List.map_cons,List.cons.injEq,hP _ _ hxy,ih,List.forall_mem_cons]

end Parsing

/-- The splices hit what their entries name exactly if the call is refused, or the narrowing of each entry's
indices neither misses a buffer that it names nor finds one for an entry that names none. -/
theorem nested_splices_hit_iff (nr : I64) (t : SyscallTable) (addr : ℕ → UInt64) :
    Hits nr t addr ↔ t.Refused ∨ ∀ e ∈ t.nested, e.Sound addr t.bufs := by
  cases hparse : parseSyscallArgs nr t with
  | error m =>
    have hrefused : t.Refused := refused_iff.mpr fun a h => by rw [hparse] at h; cases h
    exact ⟨fun _ => .inl hrefused,fun _ a h => by rw [hparse] at h; cases h⟩
  | ok a =>
    have hnot : ¬t.Refused := fun h => refused_iff.mp h a hparse
    obtain ⟨hbufs,hnested⟩ := parse_ok hparse
    have hwrites : (prepare a addr).2.2 = t.asked addr ↔ ∀ e ∈ t.nested, e.Sound addr t.bufs := by
      change (splice _ a.nested a.bufs).1 = _ ↔ _
      rw [hbufs,splice_writes a.nested rfl]
      exact map_eq_map_iff hnested fun e n h => write_eq_named_iff h
    rw [← hwrites,or_iff_right hnot]
    constructor
    · exact fun h => (h a hparse).1
    · intro h a' hparse'
      obtain rfl : a = a' := Except.ok.inj (hparse.symm.trans hparse')
      refine ⟨h,?_⟩
      rw [← h,← hbufs]
      exact splice_bufs _ a.nested a.bufs

/-- Two buffers, a struct with room for an address and the buffer it is to point at. -/
def structAndBuffer (parent child : I64) : SyscallTable :=
  ⟨[],[List.replicate 8 0,[1]],[],[⟨parent,child,i64 0⟩]⟩

/-- Parent 0 is taken for 1, and so is parent 257; and of child 3 a null pointer is written. -/
theorem nested_splices_miss :
    (∀ a, parseSyscallArgs (i64 16) (structAndBuffer (i64 0) (i64 2)) = .ok a →
      (prepare a fun i => .ofNat (4096+i)).2.2 = [some ⟨0,0,4097⟩]) ∧
    ¬Hits (i64 16) (structAndBuffer (i64 0) (i64 2)) (fun i => .ofNat (4096+i)) ∧
    ¬Hits (i64 16) (structAndBuffer (i64 257) (i64 2)) (fun i => .ofNat (4096+i)) ∧
    ¬Hits (i64 16) (structAndBuffer (i64 1) (i64 3)) (fun i => .ofNat (4096+i)) := by
  refine ⟨?_,?_,?_,?_⟩
  · rintro a h
    obtain rfl := Except.ok.inj h
    rfl
  · intro h
    exact absurd (h _ rfl).1 (by decide)
  · intro h
    exact absurd (h _ rfl).1 (by decide)
  · intro h
    exact absurd (h _ rfl).1 (by decide)

end Provium.Agent.NestedPointers
