import Provium.Lib.Machine

/-! The guest CIDs of the VMs that provium processes run side by side: each process counts by itself, `cid.rs`, and a
launch reserves what it was given by the directory that it makes, `qemu.rs`. -/
namespace Provium.Vmm
open Lib

structure CidAllocator where
  next : ℕ
  deriving DecidableEq, Repr

def firstCid : ℕ := 100

/-- The first CID of a process: 4096 lanes of 1024 each. -/
def laneStart (pid : ℕ) : ℕ := firstCid+pid%4096*1024

def CidAllocator.forThisProcess (pid : ℕ) : CidAllocator := ⟨laneStart pid⟩

def u32Size : ℕ := 2^32

def u64Size : ℕ := 2^64

/-- The counter goes on also when there is no CID left and `allocate` panics. -/
def CidAllocator.allocate (a : CidAllocator) : Option ℕ × CidAllocator :=
  (if a.next < u32Size then some a.next else none,⟨(a.next+1)%u64Size⟩)

/-- A process from its start on. -/
structure Session where
  pid : ℕ
  scratchRoot : ℕ
  cids : CidAllocator
  deriving DecidableEq, Repr

/-- Before `create_dir`, then while the directory is there, and between the two removals of a shutdown: the one of
`VmInstance::shutdown`, and the one of the same instance when it is dropped at the end of it. -/
inductive LaunchStage where
  | trying
  | held
  | leaving
  deriving DecidableEq, Repr

structure CidLaunch where
  session : ℕ
  scratchRoot : ℕ
  cid : ℕ
  stage : LaunchStage
  deriving DecidableEq, Repr

/-- The directory `vm-<cid>`. -/
def CidLaunch.scratch (l : CidLaunch) : ℕ × ℕ := (l.scratchRoot,l.cid)

structure CidHost where
  sessions : ℕ → Option Session
  exited : Finset ℕ
  launches : ℕ → Option CidLaunch
  dirs : Finset (ℕ × ℕ)

inductive CidStep where
  | start (n pid scratchRoot : ℕ)
  /-- Thread `t` comes to the top of its loop. -/
  | allocate (n t : ℕ)
  | createDir (t : ℕ)
  /-- `create_dir` fails and the directory was not there. -/
  | refuse (t : ℕ)
  /-- An error on the way leaves the directory. -/
  | abandon (t : ℕ)
  /-- The launch failed, or nobody wants the instance any more. -/
  | discard (t : ℕ) (removed : Bool)
  | shutdown (t : ℕ) (removed : Bool)
  | drop (t : ℕ) (removed : Bool)
  | exit (n : ℕ)
  deriving DecidableEq, Repr

namespace CidHost

/-- What earlier runs left behind are directories. -/
def start (dirs : Finset (ℕ × ℕ)) : CidHost := ⟨fun _ => none,∅,fun _ => none,dirs⟩

def put (s : CidHost) (t : ℕ) (l : Option CidLaunch) : CidHost :=
  { s with launches := Function.update s.launches t l }

/-- `remove_dir_all`, if it succeeds. -/
def remove (s : CidHost) (l : CidLaunch) (removed : Bool) : CidHost :=
  if removed then { s with dirs := s.dirs.erase l.scratch } else s

def count (s : CidHost) (n : ℕ) (p : Session) : CidHost :=
  { s with sessions := Function.update s.sessions n (some { p with cids := p.cids.allocate.2 }) }

/-- A launch at a stage goes on. -/
def goOn (s : CidHost) (t : ℕ) (stage : LaunchStage) (f : CidLaunch → CidHost) :
    Option (CidHost × Option (ℕ × ℕ)) :=
  match s.launches t with
  | some l => if l.stage = stage then some (f l,none) else none
  | none => none

/-- A step, and the CID that it gives to a session. -/
def step (s : CidHost) : CidStep → Option (CidHost × Option (ℕ × ℕ))
  | .start n pid scratchRoot =>
    if s.sessions n = none then
      some ({ s with sessions := Function.update s.sessions n (some ⟨pid,scratchRoot,.forThisProcess pid⟩) },none)
    else none
  | .allocate n t => match s.sessions n with
    | some p =>
      if s.launches t = none ∧ n ∉ s.exited then match p.cids.allocate.1 with
        | some cid => some ((s.count n p).put t (some ⟨n,p.scratchRoot,cid,.trying⟩),some (n,cid))
        | none => some (s.count n p,none)
      else none
    | none => none
  | .createDir t => s.goOn t .trying fun l =>
    if l.scratch ∈ s.dirs then s.put t none
    else { s.put t (some { l with stage := .held }) with dirs := insert l.scratch s.dirs }
  | .refuse t => s.goOn t .trying fun _ => s.put t none
  | .abandon t => s.goOn t .held fun _ => s.put t none
  | .discard t removed => s.goOn t .held fun l => (s.put t none).remove l removed
  | .shutdown t removed => s.goOn t .held fun l => (s.put t (some { l with stage := .leaving })).remove l removed
  | .drop t removed => s.goOn t .leaving fun l => (s.put t none).remove l removed
  | .exit n => some ({ s with
      exited := insert n s.exited, launches := fun t => (s.launches t).filter fun l => l.session ≠ n },none)

/-- A launch whose VM may be running. -/
def Holds (s : CidHost) (t : ℕ) (l : CidLaunch) : Prop := s.launches t = some l ∧ l.stage = .held

/-- No two VMs have one CID, as far as their processes have one scratch root. -/
def Exclusive (s : CidHost) : Prop := ∀ t u l k, s.Holds t l → s.Holds u k → l.scratch = k.scratch → t = u

/-- What a step removes is not the directory of another launch. -/
def Calm (s : CidHost) : CidStep → Prop
  | .drop t removed => removed = true → ∀ u l k, s.launches t = some l → s.Holds u k → l.scratch ≠ k.scratch
  | _ => True

/-- The sessions count in lanes of their own. -/
def LanesApart (s : CidHost) : Prop :=
  (∀ m n p q, s.sessions m = some p → s.sessions n = some q → m ≠ n → p.pid%4096 ≠ q.pid%4096) ∧
  ∀ n p, s.sessions n = some p → p.cids.next ≤ laneStart p.pid+1024

end CidHost

def cidMachine : Machine CidHost CidStep (Option (ℕ × ℕ)) := ⟨CidHost.step⟩

/-- The CIDs that a session was given, in their order. -/
def handed (n : ℕ) (os : List (Option (ℕ × ℕ))) : List ℕ :=
  ((os.filterMap id).filter (·.1 = n)).map Prod.snd

namespace CidHost
variable {s s' : CidHost} {a : CidStep} {o : Option (ℕ × ℕ)}

/-! ## What a step can do -/

/-- The steps that begin nothing: a launch is as it was, or further on, or gone. A directory that is removed is that
of a launch that does not hold it any more, or of one that is dropped behind its shutdown. -/
structure Shrinks (s : CidHost) (a : CidStep) (s' : CidHost) : Prop where
  sessions : s'.sessions = s.sessions
  launches : ∀ t l', s'.launches t = some l' → ∃ l, s.launches t = some l ∧ l.session = l'.session ∧
    l.scratch = l'.scratch ∧ (l'.stage = .held → l.stage = .held)
  dirs : ∀ d ∈ s.dirs, d ∉ s'.dirs → ∃ t l, s.launches t = some l ∧ l.scratch = d ∧
    (∀ l', s'.launches t = some l' → l'.stage ≠ .held) ∧ (l.stage = .held ∨ a = .drop t true)

theorem goOn_cases {t : ℕ} {stage : LaunchStage} {f : CidLaunch → CidHost} (h : s.goOn t stage f = some (s',o)) :
    ∃ l, s.launches t = some l ∧ l.stage = stage ∧ s' = f l ∧ o = none := by
  unfold goOn at h
  split at h
  · next l hl =>
    split_ifs at h with hstage
    cases h
    exact ⟨l,hl,hstage,rfl,rfl⟩
  · cases h

theorem launches_put (s : CidHost) (t : ℕ) (l : Option CidLaunch) (u : ℕ) :
    (s.put t l).launches u = if u = t then l else s.launches u := Function.update_apply _ _ _ _

theorem launches_put_cases {t u : ℕ} {l : Option CidLaunch} {k : CidLaunch}
    (h : (s.put t l).launches u = some k) : u = t ∧ l = some k ∨ s.launches u = some k := by
  rw [launches_put] at h
  split_ifs at h with hut
  · exact .inl ⟨hut,h⟩
  · exact .inr h

/-- A launch ends, or comes behind its shutdown, and its directory may be removed. -/
theorem shrinks_put {t : ℕ} {l : CidLaunch} {next : Option CidLaunch} (hl : s.launches t = some l)
    (hnext : ∀ l', next = some l' → l' = { l with stage := .leaving }) (removed : Bool)
    (hremoved : removed = true → l.stage = .held ∨ a = .drop t true) :
    Shrinks s a ((s.put t next).remove l removed) := by
  have hlaunches : ((s.put t next).remove l removed).launches = (s.put t next).launches := by
    unfold remove
    split <;> rfl
  refine ⟨?_,?_,?_⟩
  · unfold remove
    split <;> rfl
  · intro u l' hu
    rw [hlaunches] at hu
    obtain ⟨rfl,hl'⟩ | hu := launches_put_cases hu
    · obtain rfl := hnext l' hl'
      exact ⟨l,hl,rfl,rfl,fun h => by cases h⟩
    · exact ⟨l',hu,rfl,rfl,id⟩
  · intro d hd hgone
    cases removed with
    | false => exact absurd hd hgone
    | true =>
      refine ⟨t,l,hl,?_,?_,hremoved rfl⟩
      · by_contra hne
        exact hgone (Finset.mem_erase.2 ⟨Ne.symm hne,hd⟩)
      · intro l' hl'
        rw [hlaunches,launches_put,if_pos rfl] at hl'
        obtain rfl := hnext l' hl'
        exact fun h => by cases h

theorem step_cases (h : s.step a = some (s',o)) :
    (∃ n pid root, a = .start n pid root ∧ s.sessions n = none ∧ o = none ∧
      s' = { s with sessions := Function.update s.sessions n (some ⟨pid,root,.forThisProcess pid⟩) }) ∨
    (∃ n t p, a = .allocate n t ∧ s.sessions n = some p ∧ s.launches t = none ∧
      (p.cids.next < u32Size ∧ o = some (n,p.cids.next) ∧
        s' = (s.count n p).put t (some ⟨n,p.scratchRoot,p.cids.next,.trying⟩) ∨
      o = none ∧ s' = s.count n p)) ∨
    (∃ t l, a = .createDir t ∧ s.launches t = some l ∧ l.stage = .trying ∧ l.scratch ∉ s.dirs ∧ o = none ∧
      s' = { s.put t (some { l with stage := .held }) with dirs := insert l.scratch s.dirs }) ∨
    Shrinks s a s' ∧ o = none := by
  have hsame : ∀ t l, s.put t none = (s.put t none).remove l false := fun _ _ => rfl
  cases a with
  | start n pid root =>
    unfold step at h
    dsimp only at h
    split_ifs at h with hn
    cases h
    exact .inl ⟨n,pid,root,rfl,hn,rfl,rfl⟩
  | allocate n t =>
    right
    left
    unfold step at h
    dsimp only at h
    split at h
    · next p hp =>
      split_ifs at h with hfree
      split at h
      · next cid hcid =>
        cases h
        unfold CidAllocator.allocate at hcid
        split_ifs at hcid with hlt
        cases hcid
        exact ⟨n,t,p,rfl,hp,hfree.1,.inl ⟨hlt,rfl,rfl⟩⟩
      · cases h
        exact ⟨n,t,p,rfl,hp,hfree.1,.inr ⟨rfl,rfl⟩⟩
    · cases h
  | createDir t =>
    right
    right
    obtain ⟨l,hl,hstage,rfl,rfl⟩ := goOn_cases h
    split_ifs with hdir
    · rw [hsame t l]
      exact .inr ⟨shrinks_put hl (fun _ h => by cases h) false (fun h => by cases h),rfl⟩
    · exact .inl ⟨t,l,rfl,hl,hstage,hdir,rfl,rfl⟩
  | refuse t =>
    obtain ⟨l,hl,hstage,rfl,rfl⟩ := goOn_cases h
    rw [hsame t l]
    exact .inr (.inr (.inr ⟨shrinks_put hl (fun _ h => by cases h) false (fun h => by cases h),rfl⟩))
  | abandon t =>
    obtain ⟨l,hl,hstage,rfl,rfl⟩ := goOn_cases h
    rw [hsame t l]
    exact .inr (.inr (.inr ⟨shrinks_put hl (fun _ h => by cases h) false (fun h => by cases h),rfl⟩))
  | discard t removed =>
    obtain ⟨l,hl,hstage,rfl,rfl⟩ := goOn_cases h
    exact .inr (.inr (.inr ⟨shrinks_put hl (fun _ h => by cases h) removed fun _ => .inl hstage,rfl⟩))
  | shutdown t removed =>
    obtain ⟨l,hl,hstage,rfl,rfl⟩ := goOn_cases h
    exact .inr (.inr (.inr ⟨shrinks_put hl (fun _ h => (Option.some.inj h).symm) removed fun _ => .inl hstage,rfl⟩))
  | drop t removed =>
    obtain ⟨l,hl,hstage,rfl,rfl⟩ := goOn_cases h
    refine .inr (.inr (.inr ⟨shrinks_put hl (fun _ h => by cases h) removed fun hremoved => .inr ?_,rfl⟩))
    rw [hremoved]
  | exit n =>
    cases h
    refine .inr (.inr (.inr ⟨⟨rfl,?_,fun d hd hgone => absurd hd hgone⟩,rfl⟩))
    intro t l' hl'
    obtain ⟨hl,-⟩ := Option.filter_eq_some_iff.1 hl'
    exact ⟨l',hl,rfl,rfl,id⟩

/-! ## CIDs are given once to a session -/

/-- So many CIDs were given to a session at most. -/
structure CidInv (k : ℕ) (s : CidHost) : Prop where
  next : ∀ n p, s.sessions n = some p → laneStart p.pid ≤ p.cids.next ∧ p.cids.next ≤ laneStart p.pid+k
  cid : ∀ t l, s.launches t = some l → ∃ p, s.sessions l.session = some p ∧
    laneStart p.pid ≤ l.cid ∧ l.cid < p.cids.next ∧ l.cid < u32Size
  apart : ∀ t u l k, s.launches t = some l → s.launches u = some k → l.session = k.session → l.cid = k.cid → t = u
  bound : ∃ N, ∀ n, N ≤ n → s.sessions n = none ∧ s.launches n = none

/-- As many steps as leave the counters of `u64` room. -/
def longestRun : ℕ := 2^63

theorem laneStart_add_lt (pid : ℕ) {k : ℕ} (hk : k < longestRun) : laneStart pid+k+1 < u64Size := by
  have hmod : pid%4096 < 4096 := Nat.mod_lt _ (by norm_num)
  unfold longestRun at hk
  unfold laneStart firstCid u64Size
  norm_num at hk ⊢
  omega

theorem cidInv_start (dirs : Finset (ℕ × ℕ)) : CidInv 0 (start dirs) :=
  ⟨fun _ _ h => (nomatch h),fun _ _ h => (nomatch h),fun _ _ _ _ h => (nomatch h),0,fun _ _ => ⟨rfl,rfl⟩⟩

theorem CidInv.next_count {k n : ℕ} {p : Session} (h : CidInv k s) (hk : k < longestRun)
    (hp : s.sessions n = some p) : p.cids.allocate.2.next = p.cids.next+1 := by
  have hroom := laneStart_add_lt p.pid hk
  have hnext := (h.next n p hp).2
  exact Nat.mod_eq_of_lt (by omega)

/-- Sessions stay, and their counters do not go back. -/
theorem sessions_grow {k : ℕ} (h : CidInv k s) (hk : k < longestRun) (hs : s.step a = some (s',o)) {n : ℕ}
    {p : Session} (hp : s.sessions n = some p) : ∃ p', s'.sessions n = some p' ∧ p'.pid = p.pid ∧
      p.cids.next ≤ p'.cids.next := by
  obtain ⟨m,pid,root,-,hm,-,rfl⟩ | ⟨m,t,q,-,hq,-,hs'⟩ | ⟨t,l,-,-,-,-,-,rfl⟩ | ⟨hs',-⟩ := step_cases hs
  · refine ⟨p,?_,rfl,le_rfl⟩
    have hne : n ≠ m := by
      rintro rfl
      rw [hm] at hp
      cases hp
    exact (Function.update_of_ne hne _ _).trans hp
  · have hsessions : s'.sessions = (s.count m q).sessions := by
      obtain ⟨-,-,rfl⟩ | ⟨-,rfl⟩ := hs' <;> rfl
    rw [hsessions]
    by_cases hne : n = m
    · subst hne
      obtain rfl : p = q := Option.some.inj (hp.symm.trans hq)
      exact ⟨_,Function.update_self _ _ _,rfl,(h.next_count hk hp).symm ▸ Nat.le_succ _⟩
    · exact ⟨p,(Function.update_of_ne hne _ _).trans hp,rfl,le_rfl⟩
  · exact ⟨p,hp,rfl,le_rfl⟩
  · exact ⟨p,hs'.sessions ▸ hp,rfl,le_rfl⟩

/-- Where no CID is given, launches keep theirs. -/
theorem CidInv.of_launches {k : ℕ} (h : CidInv k s) (hsessions : s'.sessions = s.sessions)
    (hlaunches : ∀ t l', s'.launches t = some l' → ∃ l, s.launches t = some l ∧ l.session = l'.session ∧
      l.scratch = l'.scratch) : CidInv (k+1) s' := by
  refine ⟨fun n p hp => ?_,fun t l' hl' => ?_,fun t u l' k' hl' hk' hsession hcid => ?_,?_⟩
  · rw [hsessions] at hp
    exact (h.next n p hp).imp_right (Nat.le_succ_of_le)
  · obtain ⟨l,hl,hsession,hscratch⟩ := hlaunches t l' hl'
    obtain ⟨p,hp,hrest⟩ := h.cid t l hl
    have hcid : l.cid = l'.cid := congrArg Prod.snd hscratch
    rw [hsessions,← hsession,← hcid]
    exact ⟨p,hp,hrest⟩
  · obtain ⟨l,hl,hsession₁,hscratch₁⟩ := hlaunches t l' hl'
    obtain ⟨k,hk,hsession₂,hscratch₂⟩ := hlaunches u k' hk'
    refine h.apart t u l k hl hk (by rw [hsession₁,hsession₂,hsession]) ?_
    exact (congrArg Prod.snd hscratch₁).trans (hcid.trans (congrArg Prod.snd hscratch₂).symm)
  · obtain ⟨N,hN⟩ := h.bound
    refine ⟨N,fun n hn => ⟨hsessions ▸ (hN n hn).1,?_⟩⟩
    by_contra hne
    obtain ⟨l',hl'⟩ := Option.ne_none_iff_exists'.1 hne
    obtain ⟨l,hl,-⟩ := hlaunches n l' hl'
    rw [(hN n hn).2] at hl
    cases hl

theorem CidInv.step {k : ℕ} (h : CidInv k s) (hk : k < longestRun) (hs : s.step a = some (s',o)) :
    CidInv (k+1) s' := by
  have hcid : ∀ t l, s.launches t = some l → ∃ p, s'.sessions l.session = some p ∧ laneStart p.pid ≤ l.cid ∧
      l.cid < p.cids.next ∧ l.cid < u32Size := by
    intro t l hl
    obtain ⟨p,hp,hlow,hhigh,hlt⟩ := h.cid t l hl
    obtain ⟨p',hp',hpid,hle⟩ := sessions_grow h hk hs hp
    exact ⟨p',hp',hpid ▸ hlow,hhigh.trans_le hle,hlt⟩
  obtain ⟨N,hN⟩ := h.bound
  obtain ⟨n,pid,root,-,hn,-,rfl⟩ | ⟨n,t,p,-,hp,ht,hs'⟩ | ⟨t,l,-,hl,-,-,-,rfl⟩ | ⟨hs',-⟩ := step_cases hs
  · refine ⟨fun m q hq => ?_,hcid,h.apart,max N (n+1),fun m hm => ⟨?_,(hN m (le_of_max_le_left hm)).2⟩⟩
    · by_cases hne : m = n
      · subst hne
        cases (Function.update_self m _ s.sessions).symm.trans hq
        exact ⟨le_rfl,Nat.le_add_right _ _⟩
      · obtain ⟨hlow,hhigh⟩ := h.next m q ((Function.update_of_ne hne _ _).symm.trans hq)
        exact ⟨hlow,hhigh.trans (Nat.le_succ _)⟩
    · have hne : m ≠ n := Nat.ne_of_gt (le_of_max_le_right hm)
      exact (Function.update_of_ne hne _ _).trans (hN m (le_of_max_le_left hm)).1
  · have hsessions : s'.sessions = (s.count n p).sessions := by
      obtain ⟨-,-,rfl⟩ | ⟨-,rfl⟩ := hs' <;> rfl
    have hcount := h.next_count hk hp
    have hnext : ∀ m q, s'.sessions m = some q → laneStart q.pid ≤ q.cids.next ∧
        q.cids.next ≤ laneStart q.pid+(k+1) := by
      intro m q hq
      rw [hsessions] at hq
      by_cases hne : m = n
      · subst hne
        cases (Function.update_self m _ s.sessions).symm.trans hq
        obtain ⟨hlow,hhigh⟩ := h.next m p hp
        dsimp only
        rw [hcount]
        exact ⟨Nat.le_succ_of_le hlow,Nat.succ_le_succ hhigh⟩
      · obtain ⟨hlow,hhigh⟩ := h.next m q ((Function.update_of_ne hne _ _).symm.trans hq)
        exact ⟨hlow,Nat.le_succ_of_le hhigh⟩
    have hfresh : ∀ m, N ≤ m → s'.sessions m = none := by
      intro m hm
      have hne : m ≠ n := by
        rintro rfl
        rw [(hN m hm).1] at hp
        cases hp
      rw [hsessions]
      exact (Function.update_of_ne hne _ _).trans (hN m hm).1
    obtain ⟨hlt,-,rfl⟩ | ⟨-,rfl⟩ := hs'
    · -- What is given is above all that the session was given before.
      have hold : ∀ u l, s.launches u = some l → l.session = n → l.cid ≠ p.cids.next := by
        rintro u l hu rfl hl
        obtain ⟨q,hq,-,hhigh,-⟩ := h.cid u l hu
        obtain rfl : p = q := Option.some.inj (hp.symm.trans hq)
        omega
      refine ⟨hnext,fun u l hu => ?_,fun u v l l' hu hv hsession hcids => ?_,max N (t+1),fun m hm => ?_⟩
      · obtain ⟨-,hl⟩ | hu := launches_put_cases hu
        · cases hl
          refine ⟨_,Function.update_self _ _ _,(h.next n p hp).1,?_,hlt⟩
          dsimp only
          rw [hcount]
          exact Nat.lt_succ_self _
        · exact hcid u l hu
      · obtain ⟨hut,hl⟩ | hu := launches_put_cases hu <;> obtain ⟨hvt,hl'⟩ | hv := launches_put_cases hv
        · exact hut.trans hvt.symm
        · cases hl
          exact absurd hcids.symm (hold v l' hv hsession.symm)
        · cases hl'
          exact absurd hcids (hold u l hu hsession)
        · exact h.apart u v l l' hu hv hsession hcids
      · refine ⟨hfresh m (le_of_max_le_left hm),?_⟩
        rw [launches_put,if_neg (Nat.ne_of_gt (le_of_max_le_right hm))]
        exact (hN m (le_of_max_le_left hm)).2
    · exact ⟨hnext,hcid,h.apart,N,fun m hm => ⟨hfresh m hm,(hN m hm).2⟩⟩
  · refine h.of_launches rfl fun u l' hu => ?_
    obtain ⟨rfl,hl'⟩ | hu := launches_put_cases hu
    · cases hl'
      exact ⟨l,hl,rfl,rfl⟩
    · exact ⟨l',hu,rfl,rfl⟩
  · refine h.of_launches hs'.sessions fun u l' hu => ?_
    obtain ⟨l,hl,hsession,hscratch,-⟩ := hs'.launches u l' hu
    exact ⟨l,hl,hsession,hscratch⟩

/-! ## A directory is one launch's -/

/-- Each CID in use is one launch's, and the directory is there. -/
structure Reserved (s : CidHost) : Prop where
  exclusive : s.Exclusive
  dirs : ∀ t l, s.Holds t l → l.scratch ∈ s.dirs

theorem reserved_start (dirs : Finset (ℕ × ℕ)) : Reserved (start dirs) :=
  ⟨fun _ _ _ _ h => (nomatch h.1),fun _ _ h => (nomatch h.1)⟩

theorem Reserved.step (h : Reserved s) (hcalm : s.Calm a) (hs : s.step a = some (s',o)) : Reserved s' := by
  obtain ⟨n,pid,root,-,-,-,rfl⟩ | ⟨n,t,p,-,-,ht,hs'⟩ | ⟨t,l,-,-,-,hdir,-,rfl⟩ | ⟨hs',-⟩ := step_cases hs
  · exact ⟨h.exclusive,h.dirs⟩
  · have hholds : ∀ u l, s'.Holds u l → s.Holds u l := by
      rintro u l ⟨hu,hstage⟩
      obtain ⟨-,-,rfl⟩ | ⟨-,rfl⟩ := hs'
      · obtain ⟨-,hl⟩ | hu := launches_put_cases hu
        · cases hl
          cases hstage
        · exact ⟨hu,hstage⟩
      · exact ⟨hu,hstage⟩
    have hdirs : s'.dirs = s.dirs := by
      obtain ⟨-,-,rfl⟩ | ⟨-,rfl⟩ := hs' <;> rfl
    refine ⟨fun u v l k hu hv => h.exclusive u v l k (hholds u l hu) (hholds v k hv),fun u l hu => ?_⟩
    rw [hdirs]
    exact h.dirs u l (hholds u l hu)
  · -- The directory was not there, so nobody else has it.
    have hholds : ∀ u k, Holds { s.put t (some { l with stage := .held }) with dirs := insert l.scratch s.dirs } u k →
        u = t ∧ k.scratch = l.scratch ∨ s.Holds u k := by
      rintro u k ⟨hu,hstage⟩
      obtain ⟨hut,hk⟩ | hu := launches_put_cases hu
      · cases hk
        exact .inl ⟨hut,rfl⟩
      · exact .inr ⟨hu,hstage⟩
    constructor
    · intro u v k k' hu hv hscratch
      obtain ⟨hut,hk⟩ | hold := hholds u k hu <;> obtain ⟨hvt,hk'⟩ | hold' := hholds v k' hv
      · exact hut.trans hvt.symm
      · exact absurd (hk ▸ hscratch ▸ h.dirs v k' hold') hdir
      · exact absurd (hk' ▸ hscratch ▸ h.dirs u k hold) hdir
      · exact h.exclusive u v k k' hold hold' hscratch
    · intro u k hu
      obtain ⟨-,hk⟩ | hu := hholds u k hu
      · exact Finset.mem_insert.2 (.inl hk)
      · exact Finset.mem_insert_of_mem (h.dirs u k hu)
  · have hholds : ∀ u l', s'.Holds u l' → ∃ l, s.Holds u l ∧ l.scratch = l'.scratch := by
      rintro u l' ⟨hu,hstage⟩
      obtain ⟨l,hl,-,hscratch,hheld⟩ := hs'.launches u l' hu
      exact ⟨l,⟨hl,hheld hstage⟩,hscratch⟩
    constructor
    · intro u v l' k' hu hv hscratch
      obtain ⟨l,hl,hl'⟩ := hholds u l' hu
      obtain ⟨k,hk,hk'⟩ := hholds v k' hv
      exact h.exclusive u v l k hl hk (by rw [hl',hk',hscratch])
    · intro u l' hu
      obtain ⟨l,hl,hl'⟩ := hholds u l' hu
      rw [← hl']
      by_contra hgone
      obtain ⟨t,k,hk,hscratch,hleft,hstage | rfl⟩ := hs'.dirs l.scratch (h.dirs u l hl) hgone
      · obtain rfl := h.exclusive t u k l ⟨hk,hstage⟩ hl hscratch
        exact hleft l' hu.1 hu.2
      · exact hcalm rfl u k l hk hl hscratch

/-- In lanes of their own the sessions leave each other's directories alone. -/
theorem calm_of_lanesApart {k : ℕ} (h : CidInv k s) (hlanes : s.LanesApart) (hs : s.step a = some (s',o)) :
    s.Calm a := by
  cases a with
  | drop t removed =>
    rintro - u l l' ht hu hscratch
    obtain ⟨m,hm,hstage,-⟩ := goOn_cases hs
    obtain rfl : m = l := Option.some.inj (hm.symm.trans ht)
    have hcid : m.cid = l'.cid := congrArg Prod.snd hscratch
    obtain ⟨p,hp,hlow,hhigh,-⟩ := h.cid t m ht
    obtain ⟨q,hq,hlow',hhigh',-⟩ := h.cid u l' hu.1
    by_cases hsession : m.session = l'.session
    · obtain rfl := h.apart t u m l' ht hu.1 hsession hcid
      obtain rfl : m = l' := Option.some.inj (ht.symm.trans hu.1)
      cases hstage.symm.trans hu.2
    · have hne := hlanes.1 _ _ p q hp hq hsession
      have hp' := hlanes.2 _ p hp
      have hq' := hlanes.2 _ q hq
      unfold laneStart at hlow hlow' hp' hq'
      omega
  | _ => trivial

theorem LanesApart.before {k : ℕ} (h : CidInv k s) (hk : k < longestRun) (hs : s.step a = some (s',o))
    (hlanes : s'.LanesApart) : s.LanesApart := by
  constructor
  · intro m n p q hp hq hne
    obtain ⟨p',hp',hpid,-⟩ := sessions_grow h hk hs hp
    obtain ⟨q',hq',hqid,-⟩ := sessions_grow h hk hs hq
    rw [← hpid,← hqid]
    exact hlanes.1 m n p' q' hp' hq' hne
  · intro n p hp
    obtain ⟨p',hp',hpid,hle⟩ := sessions_grow h hk hs hp
    rw [← hpid]
    exact hle.trans (hlanes.2 n p' hp')

/-! ## A directory that is removed for another -/

/-- A thread of a session counts on and makes no directory. -/
def skipping (n v j : ℕ) : List CidStep := (List.replicate j [CidStep.allocate n v,CidStep.refuse v]).flatten

theorem put_put_none {v : ℕ} (hv : s.launches v = none) (l : Option CidLaunch) : (s.put v l).put v none = s := by
  have hlaunches : Function.update (Function.update s.launches v l) v none = s.launches := by
    rw [Function.update_idem,← hv]
    exact Function.update_eq_self v s.launches
  unfold put
  dsimp only
  rw [hlaunches]

theorem step_allocate {n v : ℕ} {p : Session} (hp : s.sessions n = some p) (hv : s.launches v = none)
    (hn : n ∉ s.exited) (hlt : p.cids.next < u32Size) : cidMachine.step s (.allocate n v) =
      some ((s.count n p).put v (some ⟨n,p.scratchRoot,p.cids.next,.trying⟩),some (n,p.cids.next)) := by
  have hcid : p.cids.allocate.1 = some p.cids.next := if_pos hlt
  unfold cidMachine step
  dsimp only
  rw [hp]
  dsimp only
  rw [if_pos ⟨hv,hn⟩,hcid]

theorem run_skipping {n v : ℕ} (j : ℕ) {p : Session} (hp : s.sessions n = some p) (hv : s.launches v = none)
    (hn : n ∉ s.exited) (hlt : p.cids.next+j < u32Size) : ∃ s' os,
      cidMachine.run s (skipping n v j) = some (s',os) ∧
      s'.sessions n = some { p with cids := ⟨p.cids.next+j⟩ } ∧ s'.launches = s.launches ∧ s'.dirs = s.dirs ∧
      s'.exited = s.exited := by
  induction j generalizing s p with
  | zero => exact ⟨s,[],rfl,hp,rfl,rfl,rfl⟩
  | succ j ih =>
    have hnext : p.cids.allocate.2 = ⟨p.cids.next+1⟩ := by
      have hroom : p.cids.next+1 < u64Size := by
        unfold u32Size at hlt
        unfold u64Size
        omega
      exact congrArg CidAllocator.mk (Nat.mod_eq_of_lt hroom)
    have hcount : (s.count n p).sessions n = some { p with cids := ⟨p.cids.next+1⟩ } := by
      rw [← hnext]
      exact Function.update_self _ _ _
    obtain ⟨s',os,hrun,hsession,hlaunches,hdirs,hexited⟩ :=
      @ih (s.count n p) { p with cids := ⟨p.cids.next+1⟩ } hcount hv hn (by dsimp only; omega)
    have hrefuse : cidMachine.step ((s.count n p).put v (some ⟨n,p.scratchRoot,p.cids.next,.trying⟩)) (.refuse v) =
        some (s.count n p,none) := by
      change goOn _ v .trying _ = _
      unfold goOn
      rw [launches_put,if_pos rfl]
      dsimp only
      rw [if_pos rfl,@put_put_none (s.count n p) v hv]
    refine ⟨s',_,cidMachine.run_of_step (step_allocate hp hv hn (by omega)) (cidMachine.run_of_step hrefuse hrun),?_,
      hlaunches,hdirs,hexited⟩
    rw [hsession]
    dsimp only
    rw [Nat.add_assoc,Nat.add_comm 1 j]

/-- A process of the first lane comes to every CID whose directory is not there. -/
theorem run_claim {n v c root pid : ℕ} (hn : s.sessions n = none) (hexit : n ∉ s.exited) (hv : s.launches v = none)
    (hpid : pid%4096 = 0) (hc : firstCid ≤ c) (hlt : c < u32Size) (hdir : (root,c) ∉ s.dirs) : ∃ bs s' os,
      cidMachine.run s (.start n pid root::bs) = some (s',os) ∧
      s'.launches = Function.update s.launches v (some ⟨n,root,c,.held⟩) := by
  have hnext : (CidAllocator.forThisProcess pid).next = firstCid := by
    change firstCid+pid%4096*1024 = firstCid
    rw [hpid,Nat.zero_mul,Nat.add_zero]
  have hstart : cidMachine.step s (.start n pid root) = some ({ s with
      sessions := Function.update s.sessions n (some ⟨pid,root,.forThisProcess pid⟩) },none) := if_pos hn
  obtain ⟨s₁,os₁,hrun₁,hsession,hlaunches,hdirs,hexited⟩ := @run_skipping
    { s with sessions := Function.update s.sessions n (some ⟨pid,root,.forThisProcess pid⟩) } n v (c-firstCid)
    ⟨pid,root,.forThisProcess pid⟩ (Function.update_self _ _ _) hv hexit (by rw [hnext]; omega)
  have hcid : firstCid+(c-firstCid) = c := Nat.add_sub_cancel' hc
  rw [hnext,hcid] at hsession
  have hallocate := step_allocate hsession ((congrFun hlaunches v).trans hv) (hexited ▸ hexit) hlt
  have hcreate : cidMachine.step ((s₁.count n ⟨pid,root,⟨c⟩⟩).put v (some ⟨n,root,c,.trying⟩)) (.createDir v) =
      some ({ ((s₁.count n ⟨pid,root,⟨c⟩⟩).put v (some ⟨n,root,c,.trying⟩)).put v (some ⟨n,root,c,.held⟩) with
        dirs := insert (root,c) s₁.dirs },none) := by
    change goOn _ v .trying _ = _
    unfold goOn
    rw [launches_put,if_pos rfl]
    dsimp only
    rw [if_pos rfl,if_neg]
    · rfl
    · change (root,c) ∉ s₁.dirs
      rw [hdirs]
      exact hdir
  refine ⟨skipping n v (c-firstCid)++[.allocate n v,.createDir v],_,_,cidMachine.run_of_step hstart
    ((cidMachine.run_append).2 ⟨s₁,os₁,_,hrun₁,cidMachine.run_of_step hallocate
      (cidMachine.run_of_step hcreate rfl),rfl⟩),?_⟩
  change Function.update (Function.update s₁.launches v _) v _ = _
  rw [Function.update_idem,hlaunches]

/-- Once a directory is removed that another launch holds, a process that comes to its CID launches a second VM with
it. -/
theorem collides {k t : ℕ} (h : CidInv k s) (hs : cidMachine.step s (.drop t true) = some (s',o))
    (hcalm : ¬ s.Calm (.drop t true)) {pid : ℕ} (hpid : pid%4096 = 0) : ∃ n root bs s'' os,
      cidMachine.run s (.drop t true::.start n pid root::bs) = some (s'',os) ∧ ¬ s''.Exclusive := by
  unfold Calm at hcalm
  push Not at hcalm
  obtain ⟨-,u,l,l',ht,hu,hscratch⟩ := hcalm
  obtain ⟨m,hm,hstage,rfl,rfl⟩ := goOn_cases hs
  obtain rfl : m = l := Option.some.inj (hm.symm.trans ht)
  obtain ⟨N,hN⟩ := h.bound
  obtain ⟨n,hn⟩ := Infinite.exists_notMem_finset (s.exited∪Finset.range N)
  rw [Finset.mem_union,Finset.mem_range,not_or,Nat.not_lt] at hn
  obtain ⟨p,hp,hlow,-,hlt⟩ := h.cid t m ht
  have hne : u ≠ t := by
    rintro rfl
    obtain rfl : l' = m := Option.some.inj (hu.1.symm.trans ht)
    cases hstage.symm.trans hu.2
  have huN : u ≠ N := by
    rintro rfl
    cases (hN u le_rfl).2.symm.trans hu.1
  have hNt : N ≠ t := by
    rintro rfl
    cases (hN N le_rfl).2.symm.trans ht
  have hfree : ((s.put t none).remove m true).launches N = none := by
    change (s.put t none).launches N = none
    rw [launches_put,if_neg hNt]
    exact (hN N le_rfl).2
  obtain ⟨bs,s'',os,hrun,hlaunches⟩ := @run_claim ((s.put t none).remove m true) n N m.cid m.scratchRoot pid
    (hN n hn.2).1 hn.1 hfree hpid ((Nat.le_add_right _ _).trans hlow) hlt (Finset.notMem_erase _ _)
  refine ⟨n,m.scratchRoot,bs,s'',_,cidMachine.run_of_step hs hrun,fun hexclusive => huN ?_⟩
  refine hexclusive u N l' ⟨n,m.scratchRoot,m.cid,.held⟩ ⟨?_,hu.2⟩ ⟨?_,rfl⟩ hscratch.symm
  · rw [hlaunches,Function.update_of_ne huN]
    change (s.put t none).launches u = some l'
    rw [launches_put,if_neg hne]
    exact hu.1
  · rw [hlaunches,Function.update_self]

/-! ## Runs -/

theorem handed_append (n : ℕ) (os : List (Option (ℕ × ℕ))) (o : Option (ℕ × ℕ)) :
    handed n (os++[o]) = handed n os++handed n [o] := by
  simp [handed,List.filterMap_append,List.filter_append]

/-- What was given to a session, in rising order, and its counter behind it. -/
def Counted (os : List (Option (ℕ × ℕ))) (s : CidHost) : Prop :=
  ∀ n, (handed n os).Pairwise (·<·) ∧ ∀ c ∈ handed n os, firstCid ≤ c ∧ c < u32Size ∧
    ∃ p, s.sessions n = some p ∧ c < p.cids.next

theorem Counted.step {k : ℕ} {os : List (Option (ℕ × ℕ))} (h : Counted os s) (hinv : CidInv k s)
    (hk : k < longestRun) (hs : s.step a = some (s',o)) : Counted (os++[o]) s' := by
  intro n
  have hold : ∀ c ∈ handed n os, firstCid ≤ c ∧ c < u32Size ∧ ∃ p, s'.sessions n = some p ∧ c < p.cids.next := by
    intro c hc
    obtain ⟨hlow,hlt,p,hp,hnext⟩ := (h n).2 c hc
    obtain ⟨p',hp',-,hle⟩ := sessions_grow hinv hk hs hp
    exact ⟨hlow,hlt,p',hp',hnext.trans_le hle⟩
  have hnone : o = none → handed n (os++[o]) = handed n os := by
    rintro rfl
    rw [handed_append]
    exact List.append_nil _
  obtain ⟨m,pid,root,-,-,ho,-⟩ | ⟨m,t,p,-,hp,-,⟨hlt,ho,hs'⟩ | ⟨ho,-⟩⟩ | ⟨t,l,-,-,-,-,ho,-⟩ | ⟨-,ho⟩ := step_cases hs
  · exact (hnone ho).symm ▸ ⟨(h n).1,hold⟩
  · by_cases hmn : m = n
    · subst hmn
      have hone : handed m (os++[o]) = handed m os++[p.cids.next] := by
        rw [handed_append,ho]
        simp [handed]
      rw [hone]
      constructor
      · refine List.pairwise_append.2 ⟨(h m).1,List.pairwise_singleton _ _,fun c hc d hd => ?_⟩
        obtain ⟨-,-,q,hq,hnext⟩ := (h m).2 c hc
        obtain rfl : p = q := Option.some.inj (hp.symm.trans hq)
        obtain rfl := List.mem_singleton.1 hd
        exact hnext
      · intro c hc
        obtain hc | hc := List.mem_append.1 hc
        · exact hold c hc
        · obtain rfl := List.mem_singleton.1 hc
          refine ⟨(Nat.le_add_right _ _).trans (hinv.next m p hp).1,hlt,{ p with cids := p.cids.allocate.2 },?_,?_⟩
          · rw [hs']
            exact Function.update_self _ _ _
          · dsimp only
            rw [hinv.next_count hk hp]
            exact Nat.lt_succ_self _
    · have hother : handed n (os++[o]) = handed n os := by
        rw [handed_append,ho]
        simp [handed,hmn]
      exact hother.symm ▸ ⟨(h n).1,hold⟩
  · exact (hnone ho).symm ▸ ⟨(h n).1,hold⟩
  · exact (hnone ho).symm ▸ ⟨(h n).1,hold⟩
  · exact (hnone ho).symm ▸ ⟨(h n).1,hold⟩

theorem run_counted {dirs : Finset (ℕ × ℕ)} {as : List CidStep} {os : List (Option (ℕ × ℕ))}
    (hrun : cidMachine.run (start dirs) as = some (s,os)) (hlen : as.length ≤ longestRun) :
    CidInv as.length s ∧ Counted os s := by
  refine @Machine.run_history _ _ _ cidMachine (fun past seen s => past.length ≤ longestRun →
    CidInv past.length s ∧ Counted seen s) ?_ [] as [] os _ s ?_ hrun hlen
  · intro past seen s a s' o hJ hs hle
    rw [List.length_append,List.length_singleton] at hle ⊢
    obtain ⟨hinv,hcounted⟩ := hJ (by omega)
    exact ⟨hinv.step (by omega) hs,hcounted.step hinv (by omega) hs⟩
  · exact fun _ => ⟨cidInv_start dirs,fun n => ⟨List.Pairwise.nil,fun _ hc => (nomatch hc)⟩⟩

theorem run_lanesApart {dirs : Finset (ℕ × ℕ)} {as : List CidStep} {os : List (Option (ℕ × ℕ))}
    (hrun : cidMachine.run (start dirs) as = some (s,os)) (hlen : as.length ≤ longestRun)
    (hlanes : s.LanesApart) : s.Reserved := by
  refine (@Machine.run_past _ _ _ cidMachine (fun past s => past.length ≤ longestRun → CidInv past.length s ∧
    (s.LanesApart → s.Reserved)) ?_ [] as os _ s ?_ hrun hlen).2 hlanes
  · intro past s a s' o hJ hs hle
    rw [List.length_append,List.length_singleton] at hle ⊢
    obtain ⟨hinv,hreserved⟩ := hJ (by omega)
    refine ⟨hinv.step (by omega) hs,fun hlanes => ?_⟩
    have hbefore := LanesApart.before hinv (by omega) hs hlanes
    exact (hreserved hbefore).step (calm_of_lanesApart hinv hbefore hs) hs
  · exact fun _ => ⟨cidInv_start dirs,fun _ => reserved_start dirs⟩

end CidHost

/-- Each session is given rising CIDs, none twice. No two VMs have one CID if no shutdown removes its directory a
second time when another launch has made it anew, and so it is where sessions count in lanes of their own. Where a
shutdown does, a process that starts can launch a VM with the CID of another. -/
theorem cids_reserved (dirs : Finset (ℕ × ℕ)) (as : List CidStep) (s : CidHost) (os : List (Option (ℕ × ℕ)))
    (hrun : cidMachine.run (.start dirs) as = some (s,os)) (hlen : as.length ≤ CidHost.longestRun) :
    (∀ n, (handed n os).Pairwise (·<·) ∧ ∀ c ∈ handed n os, firstCid ≤ c ∧ c < u32Size) ∧
    (cidMachine.Obeys CidHost.Calm (.start dirs) as → s.Reserved) ∧
    (s.LanesApart → s.Reserved) ∧
    (∀ t q pid, cidMachine.step s (.drop t true) = some q → ¬ s.Calm (.drop t true) → pid%4096 = 0 →
      ∃ n root bs s' os', cidMachine.run s (.drop t true::.start n pid root::bs) = some (s',os') ∧
        ¬ s'.Exclusive) := by
  obtain ⟨hinv,hcounted⟩ := CidHost.run_counted hrun hlen
  refine ⟨fun n => ⟨(hcounted n).1,fun c hc => ?_⟩,fun hcalm => ?_,CidHost.run_lanesApart hrun hlen,
    fun t q pid hs hcalm hpid => CidHost.collides hinv hs hcalm hpid⟩
  · obtain ⟨hlow,hlt,-⟩ := (hcounted n).2 c hc
    exact ⟨hlow,hlt⟩
  · exact cidMachine.run_obeys (fun s a s' o h hok hs => h.step hok hs) (CidHost.reserved_start dirs) hcalm hrun

/-- Two processes of one lane, where the second launches between the two removals of the first. -/
def crossed : List CidStep := [.start 0 4096 0,.start 1 8192 0,.allocate 0 0,.createDir 0,.shutdown 0 true,
  .allocate 1 1,.createDir 1]

theorem cids_reserved_crossed : ∃ s os, cidMachine.run (.start ∅) crossed = some (s,os) ∧
    ∃ n root bs s' os', cidMachine.run s (.drop 0 true::.start n 12288 root::bs) = some (s',os') ∧
      ¬ s'.Exclusive := by
  have hleaving : (cidMachine.run (.start ∅) crossed).map (fun q => q.1.launches 0) =
    some (some ⟨0,0,100,.leaving⟩) := rfl
  have hheld : (cidMachine.run (.start ∅) crossed).map (fun q => q.1.launches 1) =
    some (some ⟨1,0,100,.held⟩) := rfl
  cases hrun : cidMachine.run (.start ∅) crossed with
  | none =>
    rw [hrun] at hheld
    cases hheld
  | some q =>
    obtain ⟨s,os⟩ := q
    rw [hrun] at hleaving hheld
    replace hleaving : s.launches 0 = some ⟨0,0,100,.leaving⟩ := Option.some.inj hleaving
    replace hheld : s.launches 1 = some ⟨1,0,100,.held⟩ := Option.some.inj hheld
    have hdrop : cidMachine.step s (.drop 0 true) = some ((s.put 0 none).remove ⟨0,0,100,.leaving⟩ true,none) := by
      change CidHost.goOn s 0 .leaving _ = _
      unfold CidHost.goOn
      rw [hleaving]
      rfl
    have hlen : crossed.length ≤ CidHost.longestRun := by
      unfold CidHost.longestRun
      norm_num [crossed]
    refine ⟨s,os,rfl,(cids_reserved ∅ crossed s os hrun hlen).2.2.2 0 _ 12288 hdrop ?_ rfl⟩
    exact fun h => h rfl 1 ⟨0,0,100,.leaving⟩ ⟨1,0,100,.held⟩ hleaving ⟨hheld,rfl⟩ rfl

end Provium.Vmm
