import Provium.Fixture.Scan

/-! The eviction of cache entries, `evict_to`. What the operating system says of each directory entry, and
which removals it refuses, is part of the input; sums are of 64 bits, as the release build takes them. -/
namespace Provium.Fixture

/-- `SystemTime` in nanoseconds after the epoch. -/
abbrev SystemTime := ℤ

structure Metadata where
  isDir : Bool
  len : UInt64
  accessed : Option SystemTime
  deriving DecidableEq, Repr

/-- An entry of the cache directory. Where it is a directory that can be read it has the lengths of its
files, none where one cannot be had. -/
structure Dirent where
  name : Bytes
  metadata : Option Metadata
  inner : Option (List (Option UInt64))
  deriving DecidableEq, Repr

structure EvictionEntry where
  name : Bytes
  size : UInt64
  atime : SystemTime
  deriving DecidableEq, Repr

structure EvictionReport where
  evictedCount : UInt64
  evictedBytes : UInt64
  keptBytes : UInt64
  deriving DecidableEq, Repr

def saturatingAdd (a b : UInt64) : UInt64 := if a.toNat+b.toNat < 2^64 then a+b else .ofNat (2^64-1)

def saturatingSub (a b : UInt64) : UInt64 := if b ≤ a then a-b else 0

/-- A name in front of its last dot and behind it, where there is one that is not at its beginning. -/
def splitAtDot (name : Bytes) : Option (Bytes × Bytes) :=
  let after := (name.reverse.takeWhile (· ≠ 46)).reverse
  let before := ((name.reverse.dropWhile (· ≠ 46)).drop 1).reverse
  if 46 ∈ name ∧ before ≠ [] then some (before,after) else none

/-- `Path::extension`. -/
def pathExtension (name : Bytes) : Option Bytes := (splitAtDot name).map Prod.snd

/-- `Path::with_extension`. -/
def withExtension (name ext : Bytes) : Bytes := ((splitAtDot name).elim name Prod.fst)++46::ext

def Dirent.isLab (d : Dirent) (m : Metadata) : Bool :=
  m.isDir && (ofUtf8 d.name).isSome && (utf8 ".lab").isSuffixOf d.name

def Dirent.isSnap (d : Dirent) : Bool := pathExtension d.name == some (utf8 "snap")

def Dirent.size (d : Dirent) (m : Metadata) : UInt64 :=
  if d.isLab m then
    (d.inner.getD []).foldl (fun s len => len.elim s (saturatingAdd s)) 0
  else m.len

def Dirent.entry (d : Dirent) : Option EvictionEntry :=
  match d.metadata with
  | none => none
  | some m => if d.isLab m || d.isSnap then some ⟨d.name,d.size m,m.accessed.getD 0⟩ else none

/-- The entry's lock file. -/
def lockName (isDir : Bool) (name : Bytes) : Bytes :=
  if isDir then name++utf8 ".lock" else withExtension name (utf8 "lock")

/-- What there is at a path when its turn has come, and whether it can be removed, with its lock file. -/
structure EvictionHost where
  isDir : Bytes → Bool
  removes : Bytes → Bool
  unlocks : Bytes → Bool

/-- The report, the entries whose removal has been tried, and the names that are left. -/
structure EvictionRun where
  report : EvictionReport
  attempted : List EvictionEntry
  names : List Bytes
  deriving DecidableEq, Repr

namespace EvictionRun

def remove (run : EvictionRun) (host : EvictionHost) (e : EvictionEntry) : EvictionRun :=
  let lock := lockName (host.isDir e.name) e.name
  ⟨⟨run.report.evictedCount+1,run.report.evictedBytes+e.size,saturatingSub run.report.keptBytes e.size⟩,
    run.attempted++[e],run.names.filter fun n => n ≠ e.name ∧ ¬(n = lock ∧ host.unlocks lock)⟩

/-- A turn of the loop. -/
def attempt (run : EvictionRun) (host : EvictionHost) (e : EvictionEntry) : EvictionRun :=
  if host.removes e.name then run.remove host e else { run with attempted := run.attempted++[e] }

def evict (maxBytes : UInt64) (host : EvictionHost) : EvictionRun → List EvictionEntry → EvictionRun
  | run,[] => run
  | run,e::es => if run.report.keptBytes ≤ maxBytes then run else evict maxBytes host (run.attempt host e) es

end EvictionRun

/-- The cache directory: missing, not to be read, or with its entries in the order of the listing. -/
inductive CacheListing where
  | missing
  | unreadable (e : String)
  | read (dirents : List (Except String Dirent))

def evictTo (listing : CacheListing) (maxBytes : UInt64) (host : EvictionHost) : Except String EvictionRun :=
  match listing with
  | .missing => .ok ⟨⟨0,0,0⟩,[],[]⟩
  | .unreadable e => .error e
  | .read dirents => (dirents.mapM id).map fun dirents =>
    let entries := dirents.filterMap Dirent.entry
    let total := entries.foldl (fun total e => total+e.size) 0
    let run : EvictionRun := ⟨⟨0,0,total⟩,[],dirents.map Dirent.name⟩
    if total ≤ maxBytes then run
    else run.evict maxBytes host (entries.insertionSort fun a b => a.atime ≤ b.atime)

/-- A directory that can be read. -/
structure CacheDir where
  dirents : List Dirent
  distinct : (dirents.map Dirent.name).Nodup

def CacheDir.entries (dir : CacheDir) : List EvictionEntry := dir.dirents.filterMap Dirent.entry

def bytes (entries : List EvictionEntry) : ℕ := (entries.map fun e => e.size.toNat).sum

/-- Those of the entries that can be removed. -/
def removed (host : EvictionHost) (entries : List EvictionEntry) : List EvictionEntry :=
  entries.filter fun e => host.removes e.name

/-- What an eviction is for. -/
structure Evicts (dir : CacheDir) (maxBytes : UInt64) (host : EvictionHost) (run : EvictionRun) : Prop where
  /-- The oldest first, up to where the bytes kept are few enough. -/
  oldest : ∃ order : List EvictionEntry, order.Perm dir.entries ∧ order.Pairwise (fun a b => a.atime ≤ b.atime) ∧
    run.attempted <+: order ∧ (run.attempted ≠ order → run.report.keptBytes ≤ maxBytes)
  /-- Before each removal they were too many. -/
  needed : ∀ before e after, run.attempted = before++e::after →
    maxBytes.toNat+bytes (removed host before) < bytes dir.entries
  gone : ∀ e ∈ dir.entries, e.name ∉ run.names ↔ e ∈ removed host run.attempted
  /-- Besides the entries only their lock files go. -/
  others : ∀ d ∈ dir.dirents, d.name ∉ run.names → ∃ e ∈ removed host run.attempted,
    d.name = e.name ∨ d.name = lockName (host.isDir e.name) e.name
  evicted : run.report.evictedBytes.toNat = bytes (removed host run.attempted)
  conserved : run.report.evictedBytes.toNat+run.report.keptBytes.toNat = bytes dir.entries
  /-- Where no removal fails it is enough, and no removal is too much. -/
  exact : (∀ e ∈ run.attempted, host.removes e.name = true) → run.report.keptBytes ≤ maxBytes ∧
    ∀ before last, run.attempted = before++[last] → maxBytes.toNat < run.report.keptBytes.toNat+last.size.toNat

section Sums
variable {host : EvictionHost} {es es' : List EvictionEntry} {e : EvictionEntry}

@[simp] theorem bytes_nil : bytes [] = 0 := rfl

@[simp] theorem bytes_cons (e : EvictionEntry) (es : List EvictionEntry) :
    bytes (e::es) = e.size.toNat+bytes es := by simp [bytes]

@[simp] theorem bytes_append (es es' : List EvictionEntry) : bytes (es++es') = bytes es+bytes es' := by
  simp [bytes]

theorem bytes_perm (h : es.Perm es') : bytes es = bytes es' := (h.map _).sum_eq

/-- A sum that is within the type is taken as it is. -/
theorem foldl_size (es : List EvictionEntry) (n : UInt64) (h : n.toNat+bytes es < 2^64) :
    (es.foldl (fun total e => total+e.size) n).toNat = n.toNat+bytes es := by
  induction es generalizing n with
  | nil => rfl
  | cons e es ih =>
    rw [bytes_cons] at h
    have hadd : (n+e.size).toNat = n.toNat+e.size.toNat := by
      rw [UInt64.toNat_add]
      exact Nat.mod_eq_of_lt (by omega)
    rw [List.foldl_cons,ih,hadd,bytes_cons,Nat.add_assoc]
    omega

end Sums

theorem toNat_saturatingSub {a b : UInt64} (h : b.toNat ≤ a.toNat) :
    (saturatingSub a b).toNat = a.toNat-b.toNat := by
  have hle : b ≤ a := UInt64.le_iff_toNat_le.mpr h
  rw [saturatingSub,if_pos hle,UInt64.toNat_sub_of_le _ _ hle]

/-- The name is that of a removed entry, or of a lock file that went with one. -/
def TakenAway (host : EvictionHost) (tried : List EvictionEntry) (n : Bytes) : Prop :=
  ∃ e ∈ removed host tried, n = e.name ∨
    n = lockName (host.isDir e.name) e.name ∧ host.unlocks (lockName (host.isDir e.name) e.name) = true

/-- What the loop does from one of its states on. -/
structure Turns (maxBytes : UInt64) (host : EvictionHost) (run : EvictionRun) (es tried : List EvictionEntry)
    (run' : EvictionRun) : Prop where
  attempted : run'.attempted = run.attempted++tried
  inOrder : tried <+: es
  stops : tried ≠ es → run'.report.keptBytes ≤ maxBytes
  needed : ∀ before e after, tried = before++e::after →
    maxBytes.toNat+bytes (removed host before) < run.report.keptBytes.toNat
  evicted : run'.report.evictedBytes.toNat = run.report.evictedBytes.toNat+bytes (removed host tried)
  kept : run'.report.keptBytes.toNat+bytes (removed host tried) = run.report.keptBytes.toNat
  names : ∀ n, n ∈ run'.names ↔ n ∈ run.names ∧ ¬TakenAway host tried n

namespace EvictionRun
variable {maxBytes : UInt64} {host : EvictionHost} {run : EvictionRun} {e : EvictionEntry}
  {es : List EvictionEntry}

variable (host) in
theorem remove_kept (hle : e.size.toNat ≤ run.report.keptBytes.toNat) :
    (run.remove host e).report.keptBytes.toNat = run.report.keptBytes.toNat-e.size.toNat :=
  toNat_saturatingSub hle

variable (host) in
theorem remove_evicted (hlt : run.report.evictedBytes.toNat+e.size.toNat < 2^64) :
    (run.remove host e).report.evictedBytes.toNat = run.report.evictedBytes.toNat+e.size.toNat := by
  rw [remove,UInt64.toNat_add]
  exact Nat.mod_eq_of_lt hlt

theorem mem_remove_names (n : Bytes) : n ∈ (run.remove host e).names ↔ n ∈ run.names ∧ n ≠ e.name ∧
    ¬(n = lockName (host.isDir e.name) e.name ∧ host.unlocks (lockName (host.isDir e.name) e.name) = true) := by
  rw [remove,List.mem_filter,decide_eq_true_eq]

/-- The loop, from any of its states: what is kept covers what is still to be looked at. -/
theorem evict_turns (run : EvictionRun) (hle : bytes es ≤ run.report.keptBytes.toNat)
    (hlt : run.report.evictedBytes.toNat+run.report.keptBytes.toNat < 2^64) :
    ∃ tried, Turns maxBytes host run es tried (run.evict maxBytes host es) := by
  induction es generalizing run with
  | nil =>
    refine ⟨[],by rw [evict,List.append_nil],List.nil_prefix,fun h => absurd rfl h,?_,rfl,rfl,?_⟩
    · intro before e after h
      simp at h
    · intro n
      simp [evict,TakenAway,removed]
  | cons e es ih =>
    rw [bytes_cons] at hle
    by_cases hmax : run.report.keptBytes ≤ maxBytes
    · refine ⟨[],?_⟩
      rw [evict,if_pos hmax]
      refine ⟨(List.append_nil _).symm,List.nil_prefix,fun _ => hmax,?_,rfl,rfl,?_⟩
      · intro before e after h
        simp at h
      · intro n
        simp [TakenAway,removed]
    · rw [evict,if_neg hmax]
      have hover : maxBytes.toNat < run.report.keptBytes.toNat := by
        rw [← UInt64.lt_iff_toNat_lt]
        exact UInt64.not_le.mp hmax
      cases hr : host.removes e.name with
      | true =>
        have hrun : run.attempt host e = run.remove host e := if_pos hr
        rw [hrun]
        have hkept := remove_kept host (show e.size.toNat ≤ run.report.keptBytes.toNat by omega)
        have hevicted := remove_evicted host
          (show run.report.evictedBytes.toNat+e.size.toNat < 2^64 by omega)
        obtain ⟨tried,ht⟩ := ih (run.remove host e) (by omega) (by omega)
        have hone : removed host (e::tried) = e::removed host tried := by simp [removed,hr]
        refine ⟨e::tried,?_,(List.prefix_cons_inj e).mpr ht.inOrder,?_,?_,?_,?_,?_⟩
        · rw [ht.attempted]
          simp [remove]
        · intro hne
          exact ht.stops fun h => hne (congrArg (e::·) h)
        · rintro (_ | ⟨b,before⟩) x after heq
          · simpa [removed] using hover
          · obtain ⟨rfl,htail⟩ := List.cons.inj heq
            have := ht.needed before x after htail
            have hbefore : removed host (e::before) = e::removed host before := by simp [removed,hr]
            rw [hbefore,bytes_cons]
            omega
        · rw [ht.evicted,hone,bytes_cons]
          omega
        · have := ht.kept
          rw [hone,bytes_cons]
          omega
        · intro n
          rw [ht.names,mem_remove_names,and_assoc,and_congr_right_iff]
          intro _
          simp only [TakenAway,hone,List.exists_mem_cons_iff,not_or,and_assoc]
      | false =>
        have hrun : run.attempt host e = { run with attempted := run.attempted++[e] } :=
          if_neg (by rw [hr]; decide)
        rw [hrun]
        obtain ⟨tried,ht⟩ := ih { run with attempted := run.attempted++[e] } (by dsimp only; omega)
          hlt
        have hnone : removed host (e::tried) = removed host tried := by simp [removed,hr]
        refine ⟨e::tried,?_,(List.prefix_cons_inj e).mpr ht.inOrder,?_,?_,?_,?_,?_⟩
        · rw [ht.attempted]
          simp
        · intro hne
          exact ht.stops fun h => hne (congrArg (e::·) h)
        · rintro (_ | ⟨b,before⟩) x after heq
          · simpa [removed] using hover
          · obtain ⟨rfl,htail⟩ := List.cons.inj heq
            have hbefore : removed host (e::before) = removed host before := by simp [removed,hr]
            rw [hbefore]
            exact ht.needed before x after htail
        · rw [hnone]
          exact ht.evicted
        · rw [hnone]
          exact ht.kept
        · intro n
          rw [ht.names]
          simp only [TakenAway,hnone]

end EvictionRun

section Names
variable {d : Dirent} {e : EvictionEntry} {es : List EvictionEntry}

theorem lockName_getLast (isDir : Bool) (name : Bytes) : (lockName isDir name).getLast? = some 107 := by
  cases isDir with
  | true => rw [lockName,if_pos rfl,List.getLast?_append]; rfl
  | false => rw [lockName,if_neg (by decide),withExtension,List.getLast?_append]; rfl

theorem getLast_of_isSuffixOf {suffix name : Bytes} (hs : suffix ≠ []) (h : suffix.isSuffixOf name = true) :
    name.getLast? = suffix.getLast? := by
  obtain ⟨front,rfl⟩ := List.isSuffixOf_iff_suffix.mp h
  rw [List.getLast?_append,List.getLast?_eq_some_getLast hs]
  rfl

/-- What stands behind the last dot ends the name. -/
theorem getLast_of_splitAtDot {name before after : Bytes} (h : splitAtDot name = some (before,after))
    (hne : after ≠ []) : name.getLast? = after.getLast? := by
  simp only [splitAtDot] at h
  split at h
  · obtain ⟨-,rfl⟩ := Prod.mk.inj (Option.some.inj h)
    have hsplit := List.takeWhile_append_dropWhile (p := (· ≠ (46 : UInt8))) (l := name.reverse)
    have hname : name = (name.reverse.dropWhile (· ≠ 46)).reverse++(name.reverse.takeWhile (· ≠ 46)).reverse := by
      rw [← List.reverse_append,hsplit,List.reverse_reverse]
    conv_lhs => rw [hname]
    rw [List.getLast?_append,List.getLast?_eq_some_getLast hne]
    rfl
  · cases h

theorem name_of_entry (h : d.entry = some e) : e.name = d.name := by
  simp only [Dirent.entry] at h
  split at h
  · cases h
  · split at h
    · obtain rfl := Option.some.inj h
      rfl
    · cases h

/-- An entry's name ends in its kind, which is not that of a lock file. -/
theorem entry_name_ne_lockName (h : d.entry = some e) (isDir : Bool) (name : Bytes) :
    e.name ≠ lockName isDir name := by
  intro heq
  have hlast : d.name.getLast? = some 107 := by rw [← name_of_entry h,heq,lockName_getLast]
  simp only [Dirent.entry] at h
  split at h
  · cases h
  · split at h
    · rename_i m _ hkind
      obtain hlab | hsnap := Bool.or_eq_true_iff.mp hkind
      · simp only [Dirent.isLab,Bool.and_eq_true] at hlab
        rw [getLast_of_isSuffixOf (by decide) hlab.2] at hlast
        revert hlast
        decide
      · rw [Dirent.isSnap,beq_iff_eq,pathExtension,Option.map_eq_some_iff] at hsnap
        obtain ⟨⟨before,after⟩,hsplit,rfl : after = utf8 "snap"⟩ := hsnap
        rw [getLast_of_splitAtDot hsplit (by decide)] at hlast
        revert hlast
        decide
    · cases h

namespace CacheDir
variable (dir : CacheDir)

theorem mem_entries_iff : e ∈ dir.entries ↔ ∃ d ∈ dir.dirents, d.entry = some e := List.mem_filterMap

theorem eq_of_name_eq {e e' : EvictionEntry} (h : e ∈ dir.entries) (h' : e' ∈ dir.entries)
    (hname : e.name = e'.name) : e = e' := by
  obtain ⟨d,hd,he⟩ := dir.mem_entries_iff.mp h
  obtain ⟨d',hd',he'⟩ := dir.mem_entries_iff.mp h'
  have hdd : d = d' := List.inj_on_of_nodup_map dir.distinct hd hd' (by
    rw [← name_of_entry he,← name_of_entry he',hname])
  subst hdd
  exact Option.some.inj (he.symm.trans he')

theorem takenAway_entry_iff {host : EvictionHost} {tried : List EvictionEntry} (htried : ∀ x ∈ tried, x ∈ dir.entries)
    (he : e ∈ dir.entries) : TakenAway host tried e.name ↔ e ∈ removed host tried := by
  constructor
  · rintro ⟨x,hx,hname | ⟨hlock,-⟩⟩
    · rw [dir.eq_of_name_eq he (htried x (List.mem_of_mem_filter hx)) hname]
      exact hx
    · obtain ⟨d,-,hd⟩ := dir.mem_entries_iff.mp he
      exact absurd hlock (entry_name_ne_lockName hd _ _)
  · exact fun h => ⟨e,h,.inl rfl⟩

end CacheDir
end Names

/-- The oldest first, those of one time in the order of the listing. -/
def oldestFirst (es : List EvictionEntry) : List EvictionEntry := es.insertionSort fun a b => a.atime ≤ b.atime

theorem oldestFirst_perm (es : List EvictionEntry) : (oldestFirst es).Perm es := List.perm_insertionSort _ _

theorem oldestFirst_pairwise (es : List EvictionEntry) : (oldestFirst es).Pairwise fun a b => a.atime ≤ b.atime :=
  haveI : Std.Total fun a b : EvictionEntry => a.atime ≤ b.atime := ⟨fun a b => le_total a.atime b.atime⟩
  haveI : IsTrans EvictionEntry fun a b => a.atime ≤ b.atime := ⟨fun _ _ _ => le_trans⟩
  List.pairwise_insertionSort _ _

theorem mapM_ok {α ε : Type*} (xs : List α) : (xs.map (Except.ok : α → Except ε α)).mapM id = .ok xs := by
  induction xs with
  | nil => rfl
  | cons x xs ih => rw [List.map_cons,List.mapM_cons,ih]; rfl

section Pass
variable {dir : CacheDir} {maxBytes : UInt64} {host : EvictionHost} {run : EvictionRun} {n : ℕ}

/-- The sum the listing ends with. -/
def CacheDir.total (dir : CacheDir) : UInt64 := dir.entries.foldl (fun total e => total+e.size) 0

/-- The state of the loop before its first turn. -/
def CacheDir.start (dir : CacheDir) (total : UInt64) : EvictionRun :=
  ⟨⟨0,0,total⟩,[],dir.dirents.map Dirent.name⟩

/-- A pass over the entries in order of age is an eviction. -/
theorem evicts_of_turns {total : UInt64} {order tried : List EvictionEntry} (hperm : order.Perm dir.entries)
    (hsorted : order.Pairwise fun a b => a.atime ≤ b.atime) (htotal : total.toNat = bytes dir.entries)
    (h : Turns maxBytes host (dir.start total) order tried run) : Evicts dir maxBytes host run := by
  have hatt : run.attempted = tried := h.attempted
  have hin : ∀ x ∈ tried, x ∈ dir.entries := fun x hx => hperm.mem_iff.mp (h.inOrder.subset hx)
  have hev : run.report.evictedBytes.toNat = bytes (removed host tried) := h.evicted.trans (Nat.zero_add _)
  have hkept : run.report.keptBytes.toNat+bytes (removed host tried) = bytes dir.entries := h.kept.trans htotal
  have hneeded : ∀ before e after, tried = before++e::after →
      maxBytes.toNat+bytes (removed host before) < bytes dir.entries := fun before e after heq =>
    (h.needed before e after heq).trans_eq htotal
  constructor
  · refine ⟨order,hperm,hsorted,?_,?_⟩
    · rw [hatt]
      exact h.inOrder
    · rw [hatt]
      exact h.stops
  · rw [hatt]
    exact hneeded
  · intro e he
    have hname : e.name ∈ (dir.start total).names := by
      obtain ⟨d,hd,hde⟩ := dir.mem_entries_iff.mp he
      rw [name_of_entry hde]
      exact List.mem_map_of_mem hd
    rw [h.names,hatt,not_and_not_right,← dir.takenAway_entry_iff hin he]
    exact ⟨fun hn => hn hname,fun ht _ => ht⟩
  · intro d hd hgone
    rw [h.names,not_and_not_right] at hgone
    obtain ⟨e,he,hname⟩ := hgone (List.mem_map_of_mem hd)
    rw [hatt]
    exact ⟨e,he,hname.imp_right And.left⟩
  · rw [hatt]
    exact hev
  · rw [hev,Nat.add_comm]
    exact hkept
  · intro hall
    rw [hatt] at hall ⊢
    have hremoved : ∀ es : List EvictionEntry, (∀ e ∈ es, host.removes e.name = true) → removed host es = es :=
      fun es hes => List.filter_eq_self.mpr hes
    constructor
    · by_cases hne : tried = order
      · -- All is removed, and nothing is kept.
        rw [hremoved tried hall,hne,bytes_perm hperm] at hkept
        rw [UInt64.le_iff_toNat_le]
        omega
      · exact h.stops hne
    · intro before last heq
      have hlt := hneeded before last [] heq
      have hbefore : removed host before = before := hremoved before fun e he =>
        hall e (heq ▸ List.mem_append_left _ he)
      rw [hremoved tried hall,heq,bytes_append,bytes_cons,bytes_nil] at hkept
      rw [hbefore] at hlt
      omega

end Pass

theorem evictTo_dir (dir : CacheDir) (maxBytes : UInt64) (host : EvictionHost) :
    evictTo (.read (dir.dirents.map .ok)) maxBytes host = .ok (if dir.total ≤ maxBytes then dir.start dir.total
      else (dir.start dir.total).evict maxBytes host (oldestFirst dir.entries)) := by
  rw [evictTo,mapM_ok]
  rfl

/-- Whatever is in the cache, and whichever removals fail, the oldest entries go until few enough bytes
are kept. -/
theorem evict_to_evicts (dir : CacheDir) (maxBytes : UInt64) (host : EvictionHost)
    (h : bytes dir.entries < 2^64) :
    ∃ run, evictTo (.read (dir.dirents.map .ok)) maxBytes host = .ok run ∧ Evicts dir maxBytes host run := by
  have htotal : dir.total.toNat = bytes dir.entries :=
    (foldl_size dir.entries 0 ((Nat.zero_add _).trans_lt h)).trans (Nat.zero_add _)
  refine ⟨_,evictTo_dir dir maxBytes host,?_⟩
  obtain ⟨tried,ht⟩ := EvictionRun.evict_turns (dir.start dir.total)
    ((bytes_perm (oldestFirst_perm _)).trans htotal.symm).le
    (((Nat.zero_add _).trans htotal).trans_lt h)
  have hevicts := evicts_of_turns (oldestFirst_perm _) (oldestFirst_pairwise _) htotal ht
  -- With few enough bytes the loop would end at once.
  split
  · rename_i hle
    have hstart : ∀ order, (dir.start dir.total).evict maxBytes host order =
        dir.start dir.total := by
      rintro (_ | ⟨e,es⟩)
      · rfl
      · exact if_pos hle
    rw [hstart] at hevicts
    exact hevicts
  · exact hevicts

/-- Two snapshots and a lab of one time, and the lock file of the older of them. -/
def threeEntries : CacheDir where
  dirents := [
    ⟨utf8 "b.snap",some ⟨false,5,some 2⟩,none⟩,
    ⟨utf8 "a.lock",some ⟨false,0,some 0⟩,none⟩,
    ⟨utf8 "c.lab",some ⟨true,4096,some 2⟩,some [some 3,none]⟩,
    ⟨utf8 "a.snap",some ⟨false,4,none⟩,none⟩]
  distinct := by decide

theorem evict_to_evicts_three : bytes threeEntries.entries < 2^64 ∧
    ∃ run, evictTo (.read (threeEntries.dirents.map .ok)) 6
        ⟨fun n => n = utf8 "c.lab",fun n => n ≠ utf8 "b.snap",fun _ => true⟩ = .ok run ∧
      Evicts threeEntries 6 ⟨fun n => n = utf8 "c.lab",fun n => n ≠ utf8 "b.snap",fun _ => true⟩ run :=
  ⟨by decide +kernel,evict_to_evicts threeEntries 6
    ⟨fun n => n = utf8 "c.lab",fun n => n ≠ utf8 "b.snap",fun _ => true⟩ (by decide +kernel)⟩

end Provium.Fixture
