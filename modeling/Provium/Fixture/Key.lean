import Provium.Lib.BigEndian

/-! The cache key of a fixture, `fixture.rs`. SHA-256 is left out: what is said here is said of the
bytes it is fed with. Text and numbers follow one another in them, and only some numbers have a
length of their own, so a path or a source that contains the marks between the parts can be read in
two ways. -/
namespace Provium.Fixture
open Lib

abbrev Bytes := List UInt8

def utf8 (s : String) : Bytes := s.toByteArray.data.toList

theorem utf8_injective : Function.Injective utf8 := by
  intro a b h
  exact String.toByteArray_inj.mp (ByteArray.ext (Array.toList_inj.mp h))

def toLeBytes (k n : ℕ) : Bytes := (toBeBytes k n).reverse

@[simp] theorem length_toLeBytes (k n : ℕ) : (toLeBytes k n).length = k := by
  rw [toLeBytes,List.length_reverse,length_toBeBytes]

theorem toLeBytes_inj {k n m : ℕ} (hn : n < 256^k) (hm : m < 256^k) (h : toLeBytes k n = toLeBytes k m) :
    n = m := by
  have h := List.reverse_injective h
  rw [← fromBeBytes_toBeBytes hn,h,fromBeBytes_toBeBytes hm]

/-- `CacheKey`: the digest in lower-case hex digits. -/
structure CacheKey where
  text : Bytes
  length_text : text.length = 64
  digits : ∀ c ∈ text, c ∈ utf8 "0123456789abcdef"
  deriving DecidableEq

/-- What `metadata` tells of a file: its size in bytes and, in nanoseconds from the epoch, when it was
modified. -/
structure HostMeta where
  size : ℕ
  modified : ℤ
  size_lt : size < 2^64
  modified_lt : modified < 2^63*10^9
  deriving DecidableEq

/-- A path, with what is there. -/
structure HostFile where
  path : String
  found : Option HostMeta
  deriving DecidableEq

inductive FileRole where
  | kernel
  | initrd
  | external
  deriving DecidableEq, Repr

namespace FileRole

def label : FileRole → String
  | kernel => "kernel"
  | initrd => "initrd"
  | external => "external"

/-- The order in which the lists are folded in. -/
def rank : FileRole → ℕ
  | kernel => 0
  | initrd => 1
  | external => 2

/-- What stands before a path. -/
def mark (role : FileRole) : Bytes := utf8 "|"++utf8 role.label++utf8 "="

end FileRole

/-- A time before the epoch is left out. -/
def HostMeta.folded (m : HostMeta) : Bytes :=
  utf8 "@"++toLeBytes 8 m.size++
    if 0 ≤ m.modified then utf8 ":"++toLeBytes 16 m.modified.toNat else []

def HostFile.foundBytes (f : HostFile) : Bytes := f.found.elim [] HostMeta.folded

/-- `fold`. -/
def HostFile.folded (role : FileRole) (f : HostFile) : Bytes := role.mark++(utf8 f.path++f.foundBytes)

/-- What a key is computed from. -/
structure KeyInput where
  source : Bytes
  deps : List CacheKey
  kernels : List HostFile
  initrds : List HostFile
  externals : List HostFile
  deriving DecidableEq

/-- `PROTOCOL_VERSION` and `SNAPSHOT_LAYOUT_VERSION`. -/
def header : Bytes := utf8 "|protocol="++toLeBytes 4 1++utf8 "|qemu-layout="++toLeBytes 4 1

def depMark : Bytes := utf8 "|dep="

namespace KeyInput

/-- The files in the order in which they are folded in. -/
def files (x : KeyInput) : List (FileRole × HostFile) :=
  x.kernels.map (fun f => (.kernel,f))++x.initrds.map (fun f => (.initrd,f))++
    x.externals.map (fun f => (.external,f))

/-- What `compute_key_with_deps_kernels_and_externals` feeds to SHA-256. -/
def preimage (x : KeyInput) : Bytes :=
  x.source++header++x.deps.flatMap (fun d => depMark++d.text)++
    x.kernels.flatMap (HostFile.folded .kernel)++x.initrds.flatMap (HostFile.folded .initrd)++
    x.externals.flatMap (HostFile.folded .external)

end KeyInput

def foldFiles (files : List (FileRole × HostFile)) : Bytes := files.flatMap fun e => e.2.folded e.1

theorem KeyInput.preimage_eq (x : KeyInput) : x.preimage =
    x.source++(header++(x.deps.flatMap (fun d => depMark++d.text)++foldFiles x.files)) := by
  simp only [KeyInput.preimage,KeyInput.files,foldFiles,List.flatMap_append,List.flatMap_map,
    List.append_assoc]

/-- The files are folded in list by list. -/
theorem KeyInput.files_sorted (x : KeyInput) : x.files.Pairwise fun a b => a.1.rank ≤ b.1.rank := by
  simp only [KeyInput.files,List.pairwise_append,List.pairwise_map,List.mem_append,List.mem_map]
  refine ⟨⟨?_,?_,?_⟩,?_,?_⟩
  · exact List.pairwise_of_forall fun _ _ => le_refl _
  · exact List.pairwise_of_forall fun _ _ => le_refl _
  · rintro a ⟨f,-,rfl⟩ b ⟨g,-,rfl⟩
    exact Nat.zero_le _
  · exact List.pairwise_of_forall fun _ _ => le_refl _
  · rintro a (⟨f,-,rfl⟩ | ⟨f,-,rfl⟩) b ⟨g,-,rfl⟩
    · exact Nat.zero_le _
    · exact Nat.le_succ _

def KeyInput.ofRole (x : KeyInput) : FileRole → List HostFile
  | .kernel => x.kernels
  | .initrd => x.initrds
  | .external => x.externals

theorem KeyInput.files_ofRole (x : KeyInput) (role : FileRole) :
    (x.files.filter fun e => e.1 = role).map Prod.snd = x.ofRole role := by
  simp only [KeyInput.files,List.filter_append,List.filter_map,List.map_append,List.map_map]
  cases role <;> simp [Function.comp_def,KeyInput.ofRole]

theorem KeyInput.eq_of_files {x y : KeyInput} (h : x.files = y.files) (role : FileRole) :
    x.ofRole role = y.ofRole role := by
  rw [← x.files_ofRole,h,y.files_ofRole]

/-- The marks that a part of the key begins with, the source and its header apart. -/
def partMarks : List Bytes := [depMark,FileRole.kernel.mark,FileRole.initrd.mark,FileRole.external.mark]

/-- The text reads as what is folded in of an existing file, up to the end or to the mark of a list
that does not come earlier. -/
def ReadsAsFound (role : FileRole) (text : Bytes) : Prop :=
  ∃ size time tail, size.length = 8 ∧ time.length = 16 ∧ text = size++(utf8 ":"++(time++tail)) ∧
    (tail = [] ∨ ∃ later : FileRole, role.rank ≤ later.rank ∧ later.mark <+: tail)

/-- Files that are read back from what is folded in of them: no path contains the mark of its own list
or of a later one, nor an "@" that reads as that of an existing file together with what follows; and
what exists was not modified before the epoch. -/
def Readable : List (FileRole × HostFile) → Prop
  | [] => True
  | (role,f)::rest =>
    (∀ later : FileRole, role.rank ≤ later.rank → ¬later.mark <:+: utf8 f.path) ∧
      (∀ u w, utf8 f.path = u++(utf8 "@"++w) →
        ¬ReadsAsFound role (w++(f.foundBytes++foldFiles rest))) ∧
      (∀ m ∈ f.found, 0 ≤ m.modified) ∧ Readable rest

/-- Inputs whose key says what they are: the files are read back, and the source does not go on
behind a header as a key does. -/
structure KeyInput.Plain (x : KeyInput) : Prop where
  source : ∀ a b, x.source = a++(header++b) → ∀ mark ∈ partMarks, ¬mark <+: b
  files : Readable x.files

theorem kernel_mark : FileRole.kernel.mark = [124,107,101,114,110,101,108,61] := by decide

theorem initrd_mark : FileRole.initrd.mark = [124,105,110,105,116,114,100,61] := by decide

theorem external_mark : FileRole.external.mark = [124,101,120,116,101,114,110,97,108,61] := by decide

theorem depMark_eq : depMark = [124,100,101,112,61] := by decide

/-- Behind its first bar a mark has neither a bar nor an "@". -/
theorem mark_eq (role : FileRole) : ∃ letters, role.mark = 124::letters ∧ letters ≠ [] ∧
    ∀ b ∈ letters, b ≠ 64 ∧ b ≠ 124 := by
  cases role with
  | kernel =>
    rw [kernel_mark]
    exact ⟨_,rfl,by simp,by simp⟩
  | initrd =>
    rw [initrd_mark]
    exact ⟨_,rfl,by simp,by simp⟩
  | external =>
    rw [external_mark]
    exact ⟨_,rfl,by simp,by simp⟩

theorem mark_cancel {role role' : FileRole} {a b : Bytes} (h : role.mark++a = role'.mark++b) :
    role = role' ∧ a = b := by
  have hrole : role = role' := by
    cases role <;> cases role' <;>
      simp [kernel_mark,initrd_mark,external_mark] at h <;> rfl
  subst hrole
  exact ⟨rfl,List.append_cancel_left h⟩

theorem foldFiles_cons (e : FileRole × HostFile) (rest : List (FileRole × HostFile)) :
    foldFiles (e::rest) = e.1.mark++(utf8 e.2.path++(e.2.foundBytes++foldFiles rest)) := by
  simp only [foldFiles,List.flatMap_cons,HostFile.folded,List.append_assoc]

/-- What follows a path begins with an "@" or a bar, or is nothing. -/
theorem head_foundBytes (f : HostFile) (rest : List (FileRole × HostFile)) {b : UInt8} {t : Bytes}
    (h : f.foundBytes++foldFiles rest = b::t) : b = 64 ∨ b = 124 := by
  unfold HostFile.foundBytes at h
  cases hf : f.found with
  | some m =>
    rw [hf] at h
    exact .inl (List.cons.inj h).1.symm
  | none =>
    rw [hf] at h
    cases rest with
    | nil => cases h
    | cons e rest =>
      obtain ⟨letters,hmark,-⟩ := mark_eq e.1
      rw [foldFiles_cons,hmark] at h
      exact .inr (List.cons.inj h).1.symm

theorem foundBytes_some {f : HostFile} {m : HostMeta} (hf : f.found = some m) (hm : 0 ≤ m.modified) :
    f.foundBytes = utf8 "@"++(toLeBytes 8 m.size++(utf8 ":"++toLeBytes 16 m.modified.toNat)) := by
  rw [HostFile.foundBytes,hf]
  change m.folded = _
  rw [HostMeta.folded,if_pos hm,List.append_assoc]

section Parse
variable {role : FileRole} {f g : HostFile} {rest rest' : List (FileRole × HostFile)}

/-- A readable path does not go on into what follows the other. -/
theorem path_not_longer (hf : Readable ((role,f)::rest)) (hg : Readable ((role,g)::rest'))
    (hrest : ∀ e ∈ rest, role.rank ≤ e.1.rank) {z : Bytes} (hz : z ≠ [])
    (hpath : utf8 g.path = utf8 f.path++z)
    (htail : f.foundBytes++foldFiles rest = z++(g.foundBytes++foldFiles rest')) : False := by
  obtain ⟨hmarks,hfound,-,-⟩ := hg
  obtain ⟨-,-,htime,-⟩ := hf
  cases hm : f.found with
  | some m =>
    -- `z` begins with the "@" of the file that exists
    rw [foundBytes_some hm (htime m hm)] at htail
    cases z with
    | nil => exact hz rfl
    | cons b w =>
      obtain ⟨rfl,hw⟩ := List.cons.inj htail
      refine hfound (utf8 f.path) w hpath ⟨toLeBytes 8 m.size,toLeBytes 16 m.modified.toNat,
        foldFiles rest,length_toLeBytes _ _,length_toLeBytes _ _,?_,?_⟩
      · simp only [List.append_eq,List.nil_append,List.append_assoc] at hw
        exact hw.symm
      · cases rest with
        | nil => exact .inl rfl
        | cons e rest =>
          refine .inr ⟨e.1,hrest e List.mem_cons_self,?_⟩
          rw [foldFiles_cons]
          exact List.prefix_append _ _
  | none =>
    rw [HostFile.foundBytes,hm] at htail
    cases rest with
    | nil =>
      obtain ⟨hz',-⟩ := List.append_eq_nil_iff.mp htail.symm
      exact hz hz'
    | cons e rest =>
      change foldFiles (e::rest) = _ at htail
      rw [foldFiles_cons] at htail
      obtain ⟨y,hy,-⟩ | ⟨y,hy,hy'⟩ := List.append_eq_append_iff.mp htail
      · apply hmarks e.1 (hrest e List.mem_cons_self)
        rw [hpath,hy]
        exact ⟨utf8 f.path,y,by simp⟩
      · cases y with
        | nil =>
          apply hmarks e.1 (hrest e List.mem_cons_self)
          rw [hpath,hy,List.append_nil]
          exact ⟨utf8 f.path,[],by simp⟩
        | cons b y =>
          -- the mark would have to end behind the path
          obtain ⟨letters,hmark,-,hletters⟩ := mark_eq e.1
          cases z with
          | nil => exact hz rfl
          | cons c z =>
            rw [hmark] at hy
            obtain ⟨-,hy⟩ := List.cons.inj hy
            have hb := hletters b (by rw [hy]; simp)
            obtain h | h := head_foundBytes g rest' hy'
            · exact hb.1 h
            · exact hb.2 h

theorem path_eq (hf : Readable ((role,f)::rest)) (hg : Readable ((role,g)::rest'))
    (hrest : ∀ e ∈ rest, role.rank ≤ e.1.rank) (hrest' : ∀ e ∈ rest', role.rank ≤ e.1.rank)
    (h : utf8 f.path++(f.foundBytes++foldFiles rest) = utf8 g.path++(g.foundBytes++foldFiles rest')) :
    f.path = g.path ∧ f.foundBytes++foldFiles rest = g.foundBytes++foldFiles rest' := by
  obtain ⟨z,hz,htail⟩ | ⟨z,hz,htail⟩ := List.append_eq_append_iff.mp h
  · by_cases hnil : z = []
    · subst hnil
      rw [List.append_nil] at hz
      exact ⟨(utf8_injective hz).symm,htail⟩
    · exact (path_not_longer hf hg hrest hnil hz htail).elim
  · by_cases hnil : z = []
    · subst hnil
      rw [List.append_nil] at hz
      exact ⟨utf8_injective hz,htail.symm⟩
    · exact (path_not_longer hg hf hrest' hnil hz htail).elim

theorem found_eq (hf : ∀ m ∈ f.found, 0 ≤ m.modified) (hg : ∀ m ∈ g.found, 0 ≤ m.modified)
    (h : f.foundBytes++foldFiles rest = g.foundBytes++foldFiles rest') :
    f.found = g.found ∧ foldFiles rest = foldFiles rest' := by
  have hno : ∀ (rest : List (FileRole × HostFile)) (t : Bytes), foldFiles rest ≠ 64::t := by
    intro rest t
    cases rest with
    | nil => exact (List.cons_ne_nil _ _).symm
    | cons e rest =>
      obtain ⟨letters,hmark,-⟩ := mark_eq e.1
      rw [foldFiles_cons,hmark]
      intro h
      exact absurd (List.cons.inj h).1 (by decide)
  cases hm : f.found with
  | none =>
    rw [HostFile.foundBytes,hm] at h
    cases hm' : g.found with
    | none =>
      rw [HostFile.foundBytes,hm'] at h
      exact ⟨rfl,h⟩
    | some m' =>
      rw [foundBytes_some hm' (hg m' hm')] at h
      exact absurd h (hno _ _)
  | some m =>
    rw [foundBytes_some hm (hf m hm)] at h
    cases hm' : g.found with
    | none =>
      rw [HostFile.foundBytes,hm'] at h
      exact absurd h.symm (hno _ _)
    | some m' =>
      rw [foundBytes_some hm' (hg m' hm')] at h
      simp only [List.append_assoc] at h
      obtain ⟨hsize,h⟩ := List.append_inj (List.append_cancel_left h) (by simp)
      obtain ⟨htime,h⟩ := List.append_inj (List.append_cancel_left h) (by simp)
      have hbound : ∀ m : HostMeta, m.modified.toNat < 256^16 := by
        intro m
        have := m.modified_lt
        omega
      have hs := toLeBytes_inj (by have := m.size_lt; omega) (by have := m'.size_lt; omega) hsize
      have ht := toLeBytes_inj (hbound m) (hbound m') htime
      have h₁ := hf m hm
      have h₂ := hg m' hm'
      refine ⟨?_,h⟩
      obtain ⟨size,modified,_,_⟩ := m
      obtain ⟨size',modified',_,_⟩ := m'
      simp only at hs ht h₁ h₂
      obtain rfl : modified = modified' := by omega
      subst hs
      rfl

end Parse

/-- Readable files are read back. -/
theorem foldFiles_inj {xs ys : List (FileRole × HostFile)}
    (hxs : xs.Pairwise fun a b => a.1.rank ≤ b.1.rank) (hys : ys.Pairwise fun a b => a.1.rank ≤ b.1.rank)
    (hrx : Readable xs) (hry : Readable ys) (h : foldFiles xs = foldFiles ys) : xs = ys := by
  have hcons : ∀ (e : FileRole × HostFile) (rest : List (FileRole × HostFile)), foldFiles (e::rest) ≠ [] := by
    intro e rest heq
    obtain ⟨letters,hmark,-⟩ := mark_eq e.1
    rw [foldFiles_cons,hmark] at heq
    cases heq
  induction xs generalizing ys with
  | nil =>
    cases ys with
    | nil => rfl
    | cons e ys => exact absurd h.symm (hcons e ys)
  | cons e xs ih =>
    cases ys with
    | nil => exact absurd h (hcons e xs)
    | cons e' ys =>
      obtain ⟨role,f⟩ := e
      obtain ⟨role',g⟩ := e'
      rw [foldFiles_cons,foldFiles_cons] at h
      obtain ⟨hrole,h⟩ := mark_cancel h
      change role = role' at hrole
      subst hrole
      obtain ⟨hx,hxs⟩ := List.pairwise_cons.mp hxs
      obtain ⟨hy,hys⟩ := List.pairwise_cons.mp hys
      obtain ⟨hpath,h⟩ := path_eq hrx hry hx hy h
      obtain ⟨hfound,h⟩ := found_eq hrx.2.2.1 hry.2.2.1 h
      have hfg : f = g := by
        obtain ⟨path,found⟩ := f
        obtain ⟨path',found'⟩ := g
        cases hpath
        cases hfound
        rfl
      rw [hfg,ih hxs hys hrx.2.2.2 hry.2.2.2 h]

def foldDeps (deps : List CacheKey) : Bytes := deps.flatMap fun d => depMark++d.text

theorem foldDeps_cons (d : CacheKey) (deps : List CacheKey) (rest : Bytes) :
    foldDeps (d::deps)++rest = depMark++(d.text++(foldDeps deps++rest)) := by
  simp only [foldDeps,List.flatMap_cons,List.append_assoc]

/-- No file is folded in as a dependency is. -/
theorem depMark_ne_files (a : Bytes) (files : List (FileRole × HostFile)) : depMark++a ≠ foldFiles files := by
  intro h
  cases files with
  | nil =>
    rw [depMark_eq] at h
    cases h
  | cons e rest =>
    rw [foldFiles_cons,depMark_eq] at h
    obtain ⟨role,f⟩ := e
    cases role <;> simp [kernel_mark,initrd_mark,external_mark] at h

/-- The dependencies are told from the files, and from one another. -/
theorem foldDeps_inj {ds ds' : List CacheKey} {files files' : List (FileRole × HostFile)}
    (h : foldDeps ds++foldFiles files = foldDeps ds'++foldFiles files') :
    ds = ds' ∧ foldFiles files = foldFiles files' := by
  induction ds generalizing ds' with
  | nil =>
    cases ds' with
    | nil => exact ⟨rfl,h⟩
    | cons d' ds' =>
      rw [foldDeps_cons] at h
      exact absurd h.symm (depMark_ne_files _ files)
  | cons d ds ih =>
    cases ds' with
    | nil =>
      rw [foldDeps_cons] at h
      exact absurd h (depMark_ne_files _ files')
    | cons d' ds' =>
      rw [foldDeps_cons,foldDeps_cons] at h
      obtain ⟨htext,h⟩ := List.append_inj (List.append_cancel_left h)
        (d.length_text.trans d'.length_text.symm)
      obtain ⟨hds,hfiles⟩ := ih h
      refine ⟨?_,hfiles⟩
      rw [hds]
      congr 1
      obtain ⟨text,_,_⟩ := d
      obtain ⟨text',_,_⟩ := d'
      cases htext
      rfl

theorem header_eq : header = [124,112,114,111,116,111,99,111,108,61,1,0,0,0,
    124,113,101,109,117,45,108,97,121,111,117,116,61,1,0,0,0] := by decide

/-- A header does not begin within another. -/
theorem header_unbordered {y z a b : Bytes} (hy : y ≠ []) (hz : z ≠ []) (h : header = y++z) :
    header++a ≠ z++b := by
  intro hover
  have hlen : z.length < header.length := by
    rw [h,List.length_append]
    have := List.length_pos_iff.mpr hy
    omega
  have hbefore : z <+: header :=
    List.prefix_of_prefix_length_le ⟨b,rfl⟩ ⟨a,hover⟩ hlen.le
  have hdrop : header.drop y.length = z := by
    rw [h,List.drop_left]
  have hno : ∀ k < 31, 0 < k → ¬(header.drop k) <+: header := by
    rw [header_eq]
    decide +kernel
  have htotal : header.length = y.length+z.length := by rw [h,List.length_append]
  rw [header_eq] at htotal
  simp only [List.length_cons,List.length_nil] at htotal
  have hypos := List.length_pos_iff.mpr hy
  have hzpos := List.length_pos_iff.mpr hz
  apply hno y.length (by omega) hypos
  rw [hdrop]
  exact hbefore

/-- What follows the header is nothing or begins with a mark. -/
theorem parts_head (deps : List CacheKey) (files : List (FileRole × HostFile)) :
    foldDeps deps++foldFiles files = [] ∨
      ∃ mark ∈ partMarks, mark <+: foldDeps deps++foldFiles files := by
  cases deps with
  | cons d deps =>
    right
    refine ⟨depMark,by simp [partMarks],?_⟩
    rw [foldDeps_cons]
    exact List.prefix_append _ _
  | nil =>
    cases files with
    | nil => exact .inl rfl
    | cons e rest =>
      right
      refine ⟨e.1.mark,?_,?_⟩
      · obtain ⟨role,f⟩ := e
        cases role <;> simp [partMarks]
      · change _ <+: foldFiles (e::rest)
        rw [foldFiles_cons]
        exact List.prefix_append _ _

theorem partMark_eq {mark : Bytes} (h : mark ∈ partMarks) : ∃ c letters, mark = 124::c::letters ∧
    c ≠ 112 ∧ ∀ b ∈ c::letters, b ≠ 124 := by
  simp only [partMarks,List.mem_cons,List.not_mem_nil,or_false] at h
  obtain rfl | rfl | rfl | rfl := h
  · rw [depMark_eq]
    exact ⟨_,_,rfl,by simp,by simp⟩
  · rw [kernel_mark]
    exact ⟨_,_,rfl,by simp,by simp⟩
  · rw [initrd_mark]
    exact ⟨_,_,rfl,by simp,by simp⟩
  · rw [external_mark]
    exact ⟨_,_,rfl,by simp,by simp⟩

/-- A plain source does not go on into the header of the other. -/
theorem source_not_longer {x y : KeyInput} (hy : y.Plain) {z : Bytes} (hz : z ≠ [])
    (hsource : y.source = x.source++z)
    (htail : header++(foldDeps x.deps++foldFiles x.files) =
      z++(header++(foldDeps y.deps++foldFiles y.files))) : False := by
  obtain ⟨b,hb,hb'⟩ | ⟨b,hb,hb'⟩ := List.append_eq_append_iff.mp htail
  · -- the header of `x` lies in the source of `y`
    obtain hnil | ⟨mark,hmark,t,ht⟩ := parts_head x.deps x.files
    · rw [hnil,header_eq] at hb'
      have := congrArg List.length hb'
      simp at this
    · rw [← ht] at hb'
      obtain ⟨c,letters,hletters,hc,hbars⟩ := partMark_eq hmark
      obtain ⟨d,hd,-⟩ | ⟨d,hd,hd'⟩ := List.append_eq_append_iff.mp hb'
      · apply hy.source x.source b (by rw [hsource,hb]) mark hmark
        rw [hd]
        exact List.prefix_append _ _
      · -- the mark would have to end with the bar of a header
        rw [hletters] at hd
        rw [header_eq] at hd'
        cases d with
        | nil =>
          apply hy.source x.source b (by rw [hsource,hb]) mark hmark
          rw [hletters,hd,List.append_nil]
        | cons e d =>
          obtain ⟨rfl,-⟩ := List.cons.inj hd'
          cases b with
          | nil =>
            obtain ⟨-,rfl⟩ := List.cons.inj hd
            obtain ⟨-,hd'⟩ := List.cons.inj hd'
            exact hc (List.cons.inj hd').1.symm
          | cons f b =>
            obtain ⟨-,hd⟩ := List.cons.inj hd
            exact hbars 124 (by rw [hd]; simp) rfl
  · -- the source of `y` ends within the header of `x`
    by_cases hnil : b = []
    · subst hnil
      rw [List.append_nil] at hb
      obtain hnil | ⟨mark,hmark,t,ht⟩ := parts_head x.deps x.files
      · rw [hnil,header_eq] at hb'
        cases hb'
      · obtain ⟨c,letters,hletters,hc,-⟩ := partMark_eq hmark
        rw [List.nil_append,← ht,hletters,header_eq] at hb'
        obtain ⟨-,hb'⟩ := List.cons.inj hb'
        exact hc (List.cons.inj hb').1.symm
    · exact header_unbordered hz hnil hb hb'

/-- Of plain inputs no two have the same key. -/
theorem preimage_plain {x y : KeyInput} (hx : x.Plain) (hy : y.Plain) (hne : x ≠ y) :
    x.preimage ≠ y.preimage := by
  intro h
  apply hne
  rw [KeyInput.preimage_eq,KeyInput.preimage_eq] at h
  have hsource : x.source = y.source := by
    obtain ⟨z,hz,htail⟩ | ⟨z,hz,htail⟩ := List.append_eq_append_iff.mp h
    · by_cases hnil : z = []
      · rw [hz,hnil,List.append_nil]
      · exact (source_not_longer hy hnil hz htail).elim
    · by_cases hnil : z = []
      · rw [hz,hnil,List.append_nil]
      · exact (source_not_longer hx hnil hz htail).elim
  rw [hsource] at h
  obtain ⟨hdeps,hfiles⟩ := foldDeps_inj (List.append_cancel_left (List.append_cancel_left h))
  have hall := foldFiles_inj x.files_sorted y.files_sorted hx.files hy.files hfiles
  have hroles := KeyInput.eq_of_files hall
  obtain ⟨source,deps,kernels,initrds,externals⟩ := x
  obtain ⟨source',deps',kernels',initrds',externals'⟩ := y
  have hk := hroles .kernel
  have hi := hroles .initrd
  have he := hroles .external
  simp only [KeyInput.ofRole] at hk hi he hsource hdeps
  subst hsource hdeps hk hi he
  rfl

/-! What is not plain is folded in as something else is. -/

theorem foldFiles_append (xs ys : List (FileRole × HostFile)) :
    foldFiles (xs++ys) = foldFiles xs++foldFiles ys := List.flatMap_append

theorem utf8_append (a b : String) : utf8 (a++b) = utf8 a++utf8 b := by
  simp [utf8,String.toByteArray_append]

/-- A path with a mark in it, and two files. -/
theorem mark_collision (xs ys : List (FileRole × HostFile)) (role : FileRole) (u v : String)
    (found : Option HostMeta) :
    foldFiles (xs++(role,⟨u++("|"++(role.label++("="++v))),found⟩)::ys) =
      foldFiles (xs++(role,⟨u,none⟩)::(role,⟨v,found⟩)::ys) := by
  rw [foldFiles_append,foldFiles_append,foldFiles_cons,foldFiles_cons,foldFiles_cons]
  simp only [utf8_append,HostFile.foundBytes,FileRole.mark,Option.elim,List.append_assoc,
    List.nil_append]

/-- A file that is missing, and one that exists under a shorter path. -/
theorem found_collision (xs ys : List (FileRole × HostFile)) (role : FileRole) {p u : String}
    {m : HostMeta} (hp : utf8 p = utf8 u++m.folded) :
    foldFiles (xs++(role,⟨p,none⟩)::ys) = foldFiles (xs++(role,⟨u,some m⟩)::ys) := by
  rw [foldFiles_append,foldFiles_append,foldFiles_cons,foldFiles_cons]
  simp only [hp,HostFile.foundBytes,Option.elim,List.append_assoc,List.nil_append]

/-- Two times before the epoch. -/
theorem early_collision (xs ys : List (FileRole × HostFile)) (role : FileRole) (p : String)
    {m m' : HostMeta} (hsize : m.size = m'.size) (hm : m.modified < 0) (hm' : m'.modified < 0) :
    foldFiles (xs++(role,⟨p,some m⟩)::ys) = foldFiles (xs++(role,⟨p,some m'⟩)::ys) := by
  rw [foldFiles_append,foldFiles_append,foldFiles_cons,foldFiles_cons]
  simp only [HostFile.foundBytes,Option.elim,HostMeta.folded,hsize,not_le.mpr hm,not_le.mpr hm',
    if_false]

/-- A key input with one kernel, which is missing. -/
def oneKernel (source : Bytes) (path : String) : KeyInput := ⟨source,[],[⟨path,none⟩],[],[]⟩

theorem oneKernel_plain {c : UInt8} : (oneKernel [c] "k").Plain := by
  constructor
  · intro a b h
    have := congrArg List.length h
    rw [header_eq] at this
    simp [oneKernel] at this
    omega
  · refine ⟨?_,?_,?_,trivial⟩
    · intro later _ h
      have hlen := h.length_le
      obtain ⟨letters,hmark,hne,-⟩ := mark_eq later
      rw [hmark,List.length_cons] at hlen
      have := List.length_pos_iff.mpr hne
      rw [show (utf8 "k").length = 1 by decide] at hlen
      omega
    · intro u w h
      have hmem : (64 : UInt8) ∈ utf8 "k" := by
        rw [h,show utf8 "@" = [64] by decide]
        simp
      exact absurd hmem (by decide)
    · rintro m ⟨⟩

theorem preimage_plain_oneKernel : (oneKernel [1] "k").preimage ≠ (oneKernel [2] "k").preimage :=
  preimage_plain oneKernel_plain oneKernel_plain (by decide)

/-- Two kernels "a" and "b" that are missing, and one by the name of both. -/
theorem preimage_two_kernels : ∃ x y : KeyInput, x.kernels = [⟨"a",none⟩,⟨"b",none⟩] ∧
    y.kernels = [⟨"a|kernel=b",none⟩] ∧ x ≠ y ∧ x.preimage = y.preimage :=
  ⟨⟨[],[],[⟨"a",none⟩,⟨"b",none⟩],[],[]⟩,oneKernel [] "a|kernel=b",rfl,rfl,by decide,by decide⟩

end Provium.Fixture
