import Provium.Protocol.Frame
import Provium.Protocol.MetaValue

/-! The report of `provium-coverage`: how `aggregate` counts the tests of an event stream by what their metadata has
under a key, `main.rs`. -/
namespace Provium.Coverage
open Lib Provium.Protocol

inductive Outcome where
  | passed
  | failed
  | skipped
  deriving DecidableEq, Repr

structure BucketStats where
  passed : ℕ
  failed : ℕ
  skipped : ℕ
  deriving DecidableEq, Repr

namespace BucketStats

def empty : BucketStats := ⟨0,0,0⟩

def record (s : BucketStats) : Outcome → BucketStats
  | .passed => { s with passed := s.passed+1 }
  | .failed => { s with failed := s.failed+1 }
  | .skipped => { s with skipped := s.skipped+1 }

/-- The number of an outcome. -/
def on (s : BucketStats) : Outcome → ℕ
  | .passed => s.passed
  | .failed => s.failed
  | .skipped => s.skipped

theorem on_empty (o : Outcome) : empty.on o = 0 := by cases o <;> rfl

theorem on_record (s : BucketStats) (o o' : Outcome) : (s.record o').on o = s.on o+if o' = o then 1 else 0 := by
  cases o <;> cases o' <;> rfl

@[ext] theorem ext_on {s s' : BucketStats} (h : ∀ o, s.on o = s'.on o) : s = s' := by
  have hpassed : s.passed = s'.passed := h .passed
  have hfailed : s.failed = s'.failed := h .failed
  have hskipped : s.skipped = s'.skipped := h .skipped
  obtain ⟨p,f,k⟩ := s
  obtain ⟨p',f',k'⟩ := s'
  subst hpassed hfailed hskipped
  rfl

end BucketStats

structure CoverageReport where
  uncategorised : BucketStats
  /-- In the order of the names. -/
  buckets : List (String × BucketStats)
  deriving DecidableEq, Repr

/-- The fields of a test's metadata. -/
abbrev MetaMap := List (String × MetaValue)

/-- The events that are counted; the others are not told apart. -/
inductive Event where
  | testPassed (metadata : MetaMap)
  | testFailed (metadata : MetaMap)
  | testSkipped (metadata : MetaMap)
  | other

def bucketNames (metadata : MetaMap) (key : String) : List String :=
  match metadata.lookup key with
  | some (.str s) => [s]
  | some (.array items) => items.filterMap fun
    | .str s => some s
    | _ => none
  | _ => []

namespace CoverageReport

def empty : CoverageReport := ⟨.empty,[]⟩

/-- The counts of a bucket, which are zero where there is none. -/
def bucket (r : CoverageReport) (b : String) : BucketStats := (r.buckets.lookup b).getD .empty

/-- `buckets.entry(name).or_default().record(outcome)` -/
def record (o : Outcome) (r : CoverageReport) (name : String) : CoverageReport :=
  { r with buckets := Entries.insert name ((r.bucket name).record o) r.buckets }

def bump (r : CoverageReport) (key : String) (metadata : MetaMap) (o : Outcome) : CoverageReport :=
  if bucketNames metadata key = [] then { r with uncategorised := r.uncategorised.record o }
  else (bucketNames metadata key).foldl (record o) r

def addEvent (key : String) (r : CoverageReport) : Event → CoverageReport
  | .testPassed metadata => r.bump key metadata .passed
  | .testFailed metadata => r.bump key metadata .failed
  | .testSkipped metadata => r.bump key metadata .skipped
  | .other => r

/-- The loop of `aggregate`, on what `read_frame` gives. -/
def addFrames (key : String) (r : CoverageReport) : List (Except FrameError Event) → Except FrameError CoverageReport
  | [] => .ok r
  | .ok e::frames => addFrames key (r.addEvent key e) frames
  | .error .eof::_ => .ok r
  | .error e::_ => .error e

end CoverageReport

def aggregate (frames : List (Except FrameError Event)) (key : String) : Except FrameError CoverageReport :=
  CoverageReport.empty.addFrames key frames

/-- What `read_frame` gives of a stream of events. -/
def framesOf (events : List Event) : List (Except FrameError Event) := events.map .ok++[.error .eof]

/-! ## What is to be counted -/

namespace Event

/-- The outcome of a test and its metadata. -/
def test? : Event → Option (Outcome × MetaMap)
  | .testPassed metadata => some (.passed,metadata)
  | .testFailed metadata => some (.failed,metadata)
  | .testSkipped metadata => some (.skipped,metadata)
  | .other => none

/-- The value for the key is the string, or an array with the string in it. -/
def Names (key b : String) (metadata : MetaMap) : Prop :=
  (∃ s, metadata.lookup key = some (.str s) ∧ s = b) ∨
    ∃ items, metadata.lookup key = some (.array items) ∧ .str b ∈ items

/-- A test of an outcome in a bucket. -/
def InBucket (key b : String) (o : Outcome) (e : Event) : Prop :=
  ∃ metadata, e.test? = some (o,metadata) ∧ Names key b metadata

/-- A test of an outcome in no bucket. -/
def InNone (key : String) (o : Outcome) (e : Event) : Prop :=
  ∃ metadata, e.test? = some (o,metadata) ∧ ∀ b, ¬Names key b metadata

end Event

open Classical in
/-- Each bucket has the number of its tests, and there is one for each name; what is in none is counted apart; and
the order of the events does not matter. -/
structure CountsTests (key : String) (events : List Event) : Prop where
  bucket : ∃ r, aggregate (framesOf events) key = .ok r ∧
    (∀ b o, (r.bucket b).on o = events.countP fun e => decide (e.InBucket key b o)) ∧
    (∀ b, b ∈ r.buckets.map Prod.fst ↔ ∃ e ∈ events, ∃ o, e.InBucket key b o) ∧
    ∀ o, r.uncategorised.on o = events.countP fun e => decide (e.InNone key o)
  order : ∀ events', events.Perm events' → aggregate (framesOf events') key = aggregate (framesOf events) key

/-- No two elements are the same string. -/
def Distinct (items : List MetaValue) : Prop := items.Pairwise fun v w => ∀ s, v = .str s → w ≠ .str s

/-- No array of a test's metadata has a string twice under the key. -/
def NoRepeats (key : String) (events : List Event) : Prop :=
  ∀ e ∈ events, ∀ o metadata items, e.test? = some (o,metadata) → metadata.lookup key = some (.array items) →
    Distinct items

/-! ## What is counted -/

theorem mem_bucketNames {metadata : MetaMap} {key b : String} :
    b ∈ bucketNames metadata key ↔ Event.Names key b metadata := by
  unfold bucketNames Event.Names
  split
  · next s h => simp [h,eq_comm]
  · next items h =>
    simp only [h,List.mem_filterMap,reduceCtorEq,Option.some.injEq,false_and,exists_false,false_or,
      MetaValue.array.injEq,exists_eq_left']
    constructor
    · rintro ⟨v,hv,hb⟩
      split at hb
      · obtain rfl := Option.some.inj hb
        exact hv
      · cases hb
    · exact fun hb => ⟨_,hb,rfl⟩
  · next hstr harray =>
    refine iff_of_false List.not_mem_nil ?_
    rintro (⟨s,hs,-⟩ | ⟨items,hitems,-⟩)
    · exact hstr s hs
    · exact harray items hitems

/-- How often an event is counted in a bucket. -/
def tally (key b : String) (o : Outcome) (e : Event) : ℕ :=
  (e.test?).elim 0 fun t => if t.1 = o then (bucketNames t.2 key).count b else 0

/-- How often an event is counted as in no bucket. -/
def tallyNone (key : String) (o : Outcome) (e : Event) : ℕ :=
  (e.test?).elim 0 fun t => if t.1 = o ∧ bucketNames t.2 key = [] then 1 else 0

/-- A report with more in its buckets, more buckets, and more in none. -/
structure Adds (r r' : CoverageReport) (counts : String → Outcome → ℕ) (named : String → Prop)
    (none : Outcome → ℕ) : Prop where
  ordered : Entries.Ordered r'.buckets
  bucket : ∀ b o, (r'.bucket b).on o = (r.bucket b).on o+counts b o
  present : ∀ b, r'.buckets.lookup b ≠ Option.none ↔ r.buckets.lookup b ≠ Option.none ∨ named b
  uncategorised : ∀ o, r'.uncategorised.on o = r.uncategorised.on o+none o

namespace Adds
variable {r r' r'' : CoverageReport} {counts counts' : String → Outcome → ℕ} {named named' : String → Prop}
  {none none' : Outcome → ℕ}

theorem refl (h : Entries.Ordered r.buckets) : Adds r r (fun _ _ => 0) (fun _ => False) fun _ => 0 :=
  ⟨h,fun _ _ => rfl,fun _ => (or_false _).to_iff.symm,fun _ => rfl⟩

theorem congr (h : Adds r r' counts named none) (hcounts : ∀ b o, counts' b o = counts b o)
    (hnamed : ∀ b, named' b ↔ named b) (hnone : ∀ o, none' o = none o) : Adds r r' counts' named' none' where
  ordered := h.ordered
  bucket b o := by rw [h.bucket,hcounts]
  present b := by rw [h.present,hnamed]
  uncategorised o := by rw [h.uncategorised,hnone]

theorem trans (h : Adds r r' counts named none) (h' : Adds r' r'' counts' named' none') :
    Adds r r'' (fun b o => counts b o+counts' b o) (fun b => named b ∨ named' b) fun o => none o+none' o where
  ordered := h'.ordered
  bucket b o := by rw [h'.bucket,h.bucket,Nat.add_assoc]
  present b := by rw [h'.present,h.present,or_assoc]
  uncategorised o := by rw [h'.uncategorised,h.uncategorised,Nat.add_assoc]

/-- A report is known by what is in its buckets. -/
theorem eq_of_same (h : Adds r r' counts named none) (h' : Adds r r'' counts named none) : r' = r'' := by
  have hbuckets : r'.buckets = r''.buckets := by
    refine h.ordered.eq_of_lookup h'.ordered fun b => ?_
    have hstats : r'.bucket b = r''.bucket b := by
      ext o
      rw [h.bucket,h'.bucket]
    have hpresent := (h.present b).trans (h'.present b).symm
    unfold CoverageReport.bucket at hstats
    cases hl : r'.buckets.lookup b <;> cases hl' : r''.buckets.lookup b <;> simp_all
  have hnone : r'.uncategorised = r''.uncategorised := by
    ext o
    rw [h.uncategorised,h'.uncategorised]
  obtain ⟨_,_⟩ := r'
  obtain ⟨_,_⟩ := r''
  simp_all

end Adds

namespace CoverageReport
variable {r : CoverageReport}

theorem record_adds (h : Entries.Ordered r.buckets) (o : Outcome) (name : String) :
    Adds r (r.record o name) (fun b o' => if o = o' then [name].count b else 0) (fun b => b ∈ [name])
      fun _ => 0 where
  ordered := h.insert _ _
  bucket b o' := by
    have hbucket : (r.record o name).bucket b = if b = name then (r.bucket name).record o else r.bucket b := by
      rw [bucket,record,h.lookup_insert]
      split <;> rfl
    rw [hbucket]
    split_ifs with hb ho ho
    · rw [BucketStats.on_record,if_pos ho,hb,List.count_singleton_self]
    · rw [BucketStats.on_record,if_neg ho,hb]
    · rw [List.count_singleton,if_neg (by simpa using Ne.symm hb),Nat.add_zero]
    · rfl
  present b := by
    rw [record,h.lookup_insert,List.mem_singleton]
    split_ifs with hb <;> simp [hb]
  uncategorised _ := rfl

theorem foldl_record_adds (h : Entries.Ordered r.buckets) (o : Outcome) (names : List String) :
    Adds r (names.foldl (record o) r) (fun b o' => if o = o' then names.count b else 0) (fun b => b ∈ names)
      fun _ => 0 := by
  induction names generalizing r with
  | nil =>
    exact (Adds.refl h).congr (fun b o' => by simp) (fun b => by simp) fun _ => rfl
  | cons name names ih =>
    have hstep := record_adds h o name
    refine (hstep.trans (ih hstep.ordered)).congr (fun b o' => ?_) (fun b => by simp) fun _ => rfl
    split_ifs
    · rw [← List.count_append,List.singleton_append]
    · rfl

theorem bump_adds (h : Entries.Ordered r.buckets) (key : String) (metadata : MetaMap) (o : Outcome) :
    Adds r (r.bump key metadata o) (fun b o' => if o = o' then (bucketNames metadata key).count b else 0)
      (fun b => b ∈ bucketNames metadata key) fun o' => if o = o' ∧ bucketNames metadata key = [] then 1 else 0 := by
  unfold bump
  split_ifs with hnone
  · refine ⟨h,fun b o' => ?_,fun b => ?_,fun o' => ?_⟩
    · simp [hnone,bucket]
    · simp [hnone]
    · simp [BucketStats.on_record,hnone]
  · refine (foldl_record_adds h o (bucketNames metadata key)).congr (fun _ _ => rfl) (fun _ => Iff.rfl) fun o' => ?_
    rw [if_neg fun hand => hnone hand.2]

theorem addEvent_adds (h : Entries.Ordered r.buckets) (key : String) (e : Event) :
    Adds r (r.addEvent key e) (fun b o => tally key b o e) (fun b => ∃ o, e.InBucket key b o)
      fun o => tallyNone key o e := by
  have hnamed : ∀ o metadata, e.test? = some (o,metadata) →
      (fun b => ∃ o, e.InBucket key b o) = fun b => b ∈ bucketNames metadata key := by
    intro o metadata he
    ext b
    rw [mem_bucketNames]
    constructor
    · rintro ⟨o',metadata',he',hb⟩
      obtain ⟨-,rfl⟩ := Prod.mk.inj (Option.some.inj (he.symm.trans he'))
      exact hb
    · exact fun hb => ⟨o,metadata,he,hb⟩
  cases e with
  | testPassed metadata =>
    rw [hnamed .passed metadata rfl]
    exact bump_adds h key metadata .passed
  | testFailed metadata =>
    rw [hnamed .failed metadata rfl]
    exact bump_adds h key metadata .failed
  | testSkipped metadata =>
    rw [hnamed .skipped metadata rfl]
    exact bump_adds h key metadata .skipped
  | other =>
    refine (Adds.refl h).congr (fun _ _ => rfl) (fun b => ?_) fun _ => rfl
    simp [Event.InBucket,Event.test?]

theorem foldl_adds (h : Entries.Ordered r.buckets) (key : String) (events : List Event) :
    Adds r (events.foldl (addEvent key) r) (fun b o => (events.map (tally key b o)).sum)
      (fun b => ∃ e ∈ events, ∃ o, e.InBucket key b o) fun o => (events.map (tallyNone key o)).sum := by
  induction events generalizing r with
  | nil =>
    exact (Adds.refl h).congr (fun _ _ => rfl) (fun b => by simp) fun _ => rfl
  | cons e events ih =>
    have hstep := addEvent_adds h key e
    refine (hstep.trans (ih hstep.ordered)).congr (fun b o => ?_) (fun b => ?_) fun o => ?_
    · rw [List.map_cons,List.sum_cons]
    · simp
    · rw [List.map_cons,List.sum_cons]

end CoverageReport

theorem aggregate_framesOf (events : List Event) (key : String) :
    aggregate (framesOf events) key = .ok (events.foldl (CoverageReport.addEvent key) .empty) := by
  unfold aggregate framesOf
  generalize CoverageReport.empty = r
  induction events generalizing r with
  | nil => rfl
  | cons e events ih => exact ih _

/-! ## The counts -/

theorem nodup_strings_iff (items : List MetaValue) : (items.filterMap fun
    | .str s => some s
    | _ => none).Nodup ↔ Distinct items := by
  refine List.pairwise_filterMap.trans (List.Pairwise.iff fun v w => ?_)
  cases v <;> cases w <;> simp [eq_comm]

/-- The bucket's names are those of the array, or one. -/
theorem nodup_bucketNames_iff {metadata : MetaMap} {key : String} : (bucketNames metadata key).Nodup ↔
    ∀ items, metadata.lookup key = some (.array items) → Distinct items := by
  unfold bucketNames
  split
  · next h => simp [h]
  · next items h =>
    rw [h,nodup_strings_iff]
    simp
  · next harray => exact iff_of_true .nil fun items h => (harray items h).elim

theorem sum_indicator {α : Type} (p : α → Prop) [DecidablePred p] (l : List α) :
    (l.map fun a => if p a then 1 else 0).sum = l.countP fun a => decide (p a) := by
  induction l with
  | nil => rfl
  | cons a l ih =>
    rw [List.map_cons,List.sum_cons,ih,List.countP_cons,Nat.add_comm]
    simp

theorem inBucket_iff {key b : String} {o : Outcome} {e : Event} : e.InBucket key b o ↔
    ∃ metadata, e.test? = some (o,metadata) ∧ b ∈ bucketNames metadata key := by
  unfold Event.InBucket
  simp only [mem_bucketNames]

theorem inNone_iff {key : String} {o : Outcome} {e : Event} : e.InNone key o ↔
    ∃ metadata, e.test? = some (o,metadata) ∧ bucketNames metadata key = [] := by
  unfold Event.InNone
  simp only [← mem_bucketNames,List.eq_nil_iff_forall_not_mem]

open Classical in
theorem tallyNone_eq (key : String) (o : Outcome) (e : Event) :
    tallyNone key o e = if e.InNone key o then 1 else 0 := by
  rw [tallyNone,inNone_iff]
  cases h : e.test? with
  | none => simp
  | some t =>
    obtain ⟨o',metadata⟩ := t
    simp only [Option.elim_some,Option.some.injEq,Prod.mk.injEq]
    congr 1
    simp

open Classical in
/-- A test is in a bucket at most as often as it is counted there. -/
theorem indicator_le_tally (key b : String) (o : Outcome) (e : Event) :
    (if e.InBucket key b o then 1 else 0) ≤ tally key b o e := by
  split_ifs with h
  · obtain ⟨metadata,he,hb⟩ := inBucket_iff.mp h
    rw [tally,he,Option.elim_some,if_pos rfl]
    exact List.count_pos_iff.mpr hb
  · exact Nat.zero_le _

open Classical in
/-- A test is counted once in each of its buckets if no name is repeated. -/
theorem tally_eq_indicator {key : String} {e : Event}
    (h : ∀ o metadata, e.test? = some (o,metadata) → (bucketNames metadata key).Nodup) (b : String) (o : Outcome) :
    tally key b o e = if e.InBucket key b o then 1 else 0 := by
  rw [tally,inBucket_iff]
  cases he : e.test? with
  | none => simp
  | some t =>
    obtain ⟨o',metadata⟩ := t
    have hnodup := h o' metadata he
    simp only [Option.elim_some,Option.some.injEq,Prod.mk.injEq]
    by_cases ho : o' = o
    · rw [if_pos ho,hnodup.count]
      simp [ho]
    · simp [ho]

variable {key : String} {events : List Event}

theorem run_adds (key : String) (events : List Event) :
    Adds .empty (events.foldl (CoverageReport.addEvent key) .empty) (fun b o => (events.map (tally key b o)).sum)
      (fun b => ∃ e ∈ events, ∃ o, e.InBucket key b o) fun o => (events.map (tallyNone key o)).sum :=
  @CoverageReport.foldl_adds .empty List.Pairwise.nil key events

theorem aggregate_perm {events' : List Event} (h : events.Perm events') :
    aggregate (framesOf events') key = aggregate (framesOf events) key := by
  rw [aggregate_framesOf,aggregate_framesOf]
  refine congrArg Except.ok (Adds.eq_of_same (run_adds key events') ?_)
  refine (run_adds key events).congr (fun b o => ?_) (fun b => ?_) fun o => ?_
  · exact ((h.map _).sum_eq).symm
  · simp only [h.mem_iff]
  · exact ((h.map _).sum_eq).symm

theorem mem_keys_iff (r : CoverageReport) (b : String) :
    b ∈ r.buckets.map Prod.fst ↔ r.buckets.lookup b ≠ none := by
  rw [ne_eq,List.lookup_eq_none_iff,List.mem_map]
  push Not
  refine exists_congr fun e => and_congr_right fun _ => ?_
  rw [ne_eq (b != e.1),bne_iff_ne,ne_eq,not_not,eq_comm]

open Classical in
theorem count_eq (hcounts : ∀ b o, ∀ e ∈ events, tally key b o e = if e.InBucket key b o then 1 else 0) (b : String)
    (o : Outcome) : (events.map (tally key b o)).sum = events.countP fun e => decide (e.InBucket key b o) := by
  rw [← sum_indicator]
  exact congrArg List.sum (List.map_congr_left (hcounts b o))

/-- The tests are counted right if and only if no array has a string twice. -/
theorem counts_tests_iff (key : String) (events : List Event) : CountsTests key events ↔ NoRepeats key events := by
  classical
  have hadds := run_adds key events
  constructor
  · intro h e he o metadata items htest hitems
    obtain ⟨r,hr,hcounts,-,-⟩ := h.bucket
    rw [aggregate_framesOf] at hr
    obtain rfl := Except.ok.inj hr
    refine nodup_bucketNames_iff.mp ?_ items hitems
    rw [List.nodup_iff_count_le_one]
    intro b
    by_contra hmany
    -- a name that is there twice makes the bucket's count too large
    have hsum := hadds.bucket b o
    rw [hcounts b o] at hsum
    have hlt : (events.map fun e => if e.InBucket key b o then 1 else 0).sum < (events.map (tally key b o)).sum := by
      refine List.sum_lt_sum _ _ (fun e _ => indicator_le_tally key b o e) ⟨e,he,?_⟩
      have htally : tally key b o e = (bucketNames metadata key).count b := by
        rw [tally,htest,Option.elim_some,if_pos rfl]
      rw [htally]
      split_ifs <;> omega
    rw [sum_indicator] at hlt
    have hempty : (CoverageReport.empty.bucket b).on o = 0 := BucketStats.on_empty o
    omega
  · intro h
    have hnodup : ∀ e ∈ events, ∀ o metadata, e.test? = some (o,metadata) → (bucketNames metadata key).Nodup := by
      intro e he o metadata htest
      exact nodup_bucketNames_iff.mpr fun items hitems => h e he o metadata items htest hitems
    refine ⟨⟨_,aggregate_framesOf events key,fun b o => ?_,fun b => ?_,fun o => ?_⟩,fun events' => aggregate_perm⟩
    · rw [hadds.bucket,count_eq (fun b o e he => tally_eq_indicator (hnodup e he) b o)]
      exact (congrArg (· + _) (BucketStats.on_empty o)).trans (Nat.zero_add _)
    · rw [mem_keys_iff,hadds.present]
      exact or_iff_right fun hne => hne rfl
    · rw [hadds.uncategorised,← sum_indicator]
      simp only [← tallyNone_eq]
      exact (congrArg (· + _) (BucketStats.on_empty o)).trans (Nat.zero_add _)

/-- A test that passes with the row A twice is counted as two tests. -/
theorem repeated_row_counts_twice : ¬CountsTests "rows" [.testPassed [("rows",.array [.str "A",.str "A"])]] := by
  intro h
  obtain ⟨r,hr,hcounts,-⟩ := h.bucket
  rw [aggregate_framesOf] at hr
  obtain rfl := Except.ok.inj hr
  have htwo := hcounts "A" .passed
  have hle := htwo.trans_le List.countP_le_length
  exact absurd hle (by decide +kernel)

end Provium.Coverage
