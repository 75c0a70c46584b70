import Provium.Lab.Tree

/-! The flat names of `collect_all_vms`, the tree rebuilt from them, and what is kept by them. The slash
between the parts is only a convention: a name may contain it, and an empty name at the root leaves no
trace. -/
namespace Provium.Lab
open Lib LabTree

/-- The parts joined by slashes. -/
def joined (parts : List String) : List Char := ['/'].intercalate (parts.map String.toList)

theorem joined_cons_cons (p q : String) (rest : List String) :
    joined (p::q::rest) = p.toList++ '/' :: joined (q::rest) := by
  simp [joined,List.intercalate_cons_cons]

theorem joined_nameParts (flat : String) : joined (nameParts flat) = flat.toList := by
  have hid : String.toList ∘ String.ofList = id := by
    funext l
    simp
  rw [joined,nameParts,List.map_map,hid,List.map_id,List.intercalate_splitOn]

theorem nameParts_ne_nil (flat : String) : nameParts flat ≠ [] := by
  simp [nameParts,List.splitOn_ne_nil]

theorem nameParts_of_joined {flat : String} {parts : List String} (h : flat.toList = joined parts)
    (hne : parts ≠ []) (hplain : ∀ p ∈ parts, '/' ∉ p.toList) : nameParts flat = parts := by
  have hid : String.ofList ∘ String.toList = id := by
    funext p
    simp
  rw [nameParts,h,joined,List.splitOn_intercalate,List.map_map,hid,List.map_id]
  · intro l hl
    obtain ⟨p,hp,rfl⟩ := List.mem_map.mp hl
    exact hplain p hp
  · simpa using hne

/-- No part contains a slash. -/
theorem notMem_splitOn {α : Type*} [DecidableEq α] (a : α) (xs : List α) :
    ∀ l ∈ xs.splitOn a, a ∉ l := by
  induction xs with
  | nil => simp
  | cons x xs ih =>
    rw [List.splitOn_cons_eq_if_modifyHead]
    split
    · intro l hl
      obtain rfl | hl := List.mem_cons.mp hl
      · exact List.not_mem_nil
      · exact ih l hl
    · next hx =>
      intro l hl
      cases hs : xs.splitOn a with
      | nil => exact absurd hs (List.splitOn_ne_nil a xs)
      | cons m rest =>
        rw [hs,List.modifyHead_cons] at hl
        rw [hs] at ih
        obtain rfl | hl := List.mem_cons.mp hl
        · intro ha
          obtain rfl | ha := List.mem_cons.mp ha
          · exact hx (beq_self_eq_true _)
          · exact ih m List.mem_cons_self ha
        · exact ih l (List.mem_cons_of_mem m hl)

theorem slash_notMem_nameParts {flat p : String} (h : p ∈ nameParts flat) : '/' ∉ p.toList := by
  obtain ⟨l,hl,rfl⟩ := List.mem_map.mp h
  simpa using notMem_splitOn '/' flat.toList l hl

/-- The path and the leaf are the parts. -/
theorem splitSubLabPath_parts (flat : String) :
    (splitSubLabPath flat).1++[(splitSubLabPath flat).2] = nameParts flat := by
  have hne := nameParts_ne_nil flat
  rw [splitSubLabPath,List.getLastD_eq_getLast?,List.getLast?_eq_some_getLast hne,Option.getD_some]
  exact List.dropLast_append_getLast hne

theorem splitSubLabPath_injective : Function.Injective splitSubLabPath := by
  intro a b h
  have hparts : nameParts a = nameParts b := by
    rw [← splitSubLabPath_parts a,h,splitSubLabPath_parts b]
  apply String.ext
  rw [← joined_nameParts a,hparts,joined_nameParts b]

/-- The parts without the empty ones that `gather_into` drops in front. -/
def strip : List String → List String
  | [] => [""]
  | p::ps => if p = "" then strip ps else p::ps

theorem foldl_joinName {above : String} (h : above ≠ "") (parts : List String) :
    (parts.foldl joinName above).toList = joined (above::parts) := by
  induction parts generalizing above with
  | nil => simp [joined]
  | cons p ps ih =>
    have hne : above++"/"++p ≠ "" := by
      intro he
      have := congrArg String.toList he
      simp at this
    rw [List.foldl_cons,joinName,if_neg h,ih hne,joined_cons_cons]
    cases ps with
    | nil => simp [joined]
    | cons q qs =>
      rw [joined_cons_cons,joined_cons_cons]
      simp

theorem foldl_joinName_empty (parts : List String) :
    (parts.foldl joinName "").toList = joined (strip parts) := by
  induction parts with
  | nil => rfl
  | cons p ps ih =>
    rw [List.foldl_cons,joinName,if_pos rfl,strip]
    split
    · next h =>
      rw [h]
      exact ih
    · next h => exact foldl_joinName h ps

theorem flatName_toList (k : List String × String) :
    (flatName "" k).toList = joined (strip (k.1++[k.2])) := foldl_joinName_empty _

theorem strip_ne_nil (parts : List String) : strip parts ≠ [] := by
  induction parts with
  | nil => simp [strip]
  | cons p ps ih =>
    rw [strip]
    split
    · exact ih
    · exact List.cons_ne_nil p ps

theorem length_strip {parts : List String} (h : parts ≠ []) :
    (strip parts).length ≤ parts.length := by
  induction parts with
  | nil => exact absurd rfl h
  | cons p ps ih =>
    rw [strip]
    split
    · cases ps with
      | nil => simp [strip]
      | cons q qs =>
        have := ih (List.cons_ne_nil q qs)
        rw [List.length_cons]
        omega
    · exact le_refl _

theorem mem_strip {parts : List String} {p : String} (h : p ∈ strip parts) : p = "" ∨ p ∈ parts := by
  induction parts with
  | nil => exact .inl (List.mem_singleton.mp h)
  | cons q qs ih =>
    rw [strip] at h
    split at h
    · exact (ih h).imp_right (List.mem_cons_of_mem q)
    · exact .inr h

/-- Dropping empty parts in front makes the name shorter, or leaves it. -/
theorem joined_strip (parts : List String) : joined (strip parts) = joined parts ∨
    (joined (strip parts)).length < (joined parts).length := by
  induction parts with
  | nil => exact .inl rfl
  | cons p ps ih =>
    rw [strip]
    split
    · next h =>
      subst h
      cases ps with
      | nil => exact .inl rfl
      | cons q qs =>
        right
        rw [joined_cons_cons]
        simp only [String.toList_empty,List.nil_append,List.length_cons]
        obtain h | h := ih
        · rw [h]
          omega
        · omega
    · exact .inl rfl

section Rebuild
variable {B V : Type}

theorem place_cases (t : LabTree B V) (flat : String) (vm : V) :
    (t.vmAt (splitSubLabPath flat).1 (splitSubLabPath flat).2 = none ∧ ∃ t', t.place flat vm = .ok t' ∧
      ∀ path name, t'.vmAt path name =
        if (path,name) = splitSubLabPath flat then some vm else t.vmAt path name) ∨
    (t.vmAt (splitSubLabPath flat).1 (splitSubLabPath flat).2).isSome ∧
      ∃ e, t.place flat vm = .error e := by
  simp only [place,vmAt_descendOrCreate]
  cases h : t.vmAt (splitSubLabPath flat).1 (splitSubLabPath flat).2 with
  | none =>
    left
    refine ⟨rfl,_,rfl,?_⟩
    intro path name
    rw [vmAt_putVm_atPath,vmAt_descendOrCreate]
    simp only [Prod.ext_iff]
  | some v => exact .inr ⟨rfl,_,rfl⟩

/-- The VMs placed are found where their names say, and nothing else has changed. -/
theorem placeAll_of_nodup {l : List (String × V)} (hl : (l.map Prod.fst).Nodup) {t : LabTree B V}
    (ht : ∀ e ∈ l, t.vmAt (splitSubLabPath e.1).1 (splitSubLabPath e.1).2 = none) :
    ∃ t', t.placeAll l = .ok t' ∧ ∀ path name v, t'.vmAt path name = some v ↔
      t.vmAt path name = some v ∨ ∃ e ∈ l, splitSubLabPath e.1 = (path,name) ∧ e.2 = v := by
  induction l generalizing t with
  | nil => exact ⟨t,rfl,by simp⟩
  | cons e l ih =>
    rw [List.map_cons,List.nodup_cons] at hl
    obtain ⟨hno,t₁,ht₁,hat⟩ | ⟨hsome,-⟩ := place_cases t e.1 e.2
    · have hrest : ∀ e' ∈ l, t₁.vmAt (splitSubLabPath e'.1).1 (splitSubLabPath e'.1).2 = none := by
        intro e' he'
        rw [hat,if_neg]
        · exact ht e' (List.mem_cons_of_mem e he')
        · intro heq
          exact hl.1 (List.mem_map.mpr ⟨e',he',splitSubLabPath_injective heq⟩)
      obtain ⟨t',ht',hall⟩ := ih hl.2 hrest
      refine ⟨t',by rw [placeAll,ht₁]; exact ht',?_⟩
      intro path name v
      rw [hall,hat]
      by_cases heq : (path,name) = splitSubLabPath e.1
      · obtain ⟨rfl,rfl⟩ := Prod.ext_iff.mp heq
        simp [hno]
      · simp [heq,Ne.symm heq]
    · rw [ht e List.mem_cons_self] at hsome
      cases hsome

end Rebuild

/-- What has become of the thread of a member in a batch. -/
inductive ThreadEnd where
  | ok
  | failed (message : String)
  | panicked

/-- One thread that is joined. One that has panicked no longer has the name of its VM. -/
def noteFailure (ends : List String × String → ThreadEnd) (failures : Table String String)
    (k : List String × String) : Table String String :=
  match ends k with
  | .ok => failures
  | .failed message => failures.insert (flatName "" k) message
  | .panicked => failures.insert "<panicked>" "thread panicked"

/-- `BatchFailed.failures`: the threads are joined in the order of the walk. -/
def batchFailures (ends : List String × String → ThreadEnd) (places : List (List String × String)) :
    Table String String := places.foldl (noteFailure ends) ∅

/-- The flat names tell the VMs apart, and so do the results that are kept by them and the files named for
them; the tree rebuilt from them has each VM where it was. -/
structure FlatNamesIdentify {B V : Type} (t : LabTree B V) : Prop where
  distinct : (t.collectAllVms.map Prod.fst).Nodup
  rebuilt : ∃ t', (empty : LabTree B V).placeAll t.collectAllVms = .ok t' ∧
    ∀ path name, t'.vmAt path name = t.vmAt path name
  failures : ∀ ends, ∀ k ∈ t.entries.map Prod.fst, ∀ message, ends k = .failed message →
    (batchFailures ends (t.entries.map Prod.fst)).lookup (flatName "" k) = some message
  files : ∀ dir, (t.collectAllVms.map fun e => snapshotPath dir e.1).Nodup

/-- A place whose names are without slashes and whose first sub-lab has a name. -/
def Plain (k : List String × String) : Prop :=
  k.1.head? ≠ some "" ∧ ∀ p ∈ k.1++[k.2], '/' ∉ p.toList

/-- A plain place is read back from its flat name. -/
theorem Plain.split {k : List String × String} (h : Plain k) :
    splitSubLabPath (flatName "" k) = k := by
  have hstrip : strip (k.1++[k.2]) = k.1++[k.2] := by
    obtain ⟨path,name⟩ := k
    cases path with
    | nil =>
      simp only [List.nil_append,strip]
      split
      · next hn => rw [hn]
      · rfl
    | cons p ps =>
      have hp : p ≠ "" := by
        rintro rfl
        exact h.1 rfl
      rw [List.cons_append,strip,if_neg hp]
  have hparts : nameParts (flatName "" k) = k.1++[k.2] := by
    apply nameParts_of_joined _ (by simp) h.2
    rw [flatName_toList,hstrip]
  rw [splitSubLabPath,hparts]
  simp

/-- Only a plain place is read back from its flat name. -/
theorem plain_of_split {k : List String × String} (h : splitSubLabPath (flatName "" k) = k) :
    Plain k := by
  have hparts : nameParts (flatName "" k) = k.1++[k.2] := by
    rw [← splitSubLabPath_parts,h]
  have hslash : ∀ p ∈ k.1++[k.2], '/' ∉ p.toList := by
    intro p hp
    rw [← hparts] at hp
    exact slash_notMem_nameParts hp
  refine ⟨?_,hslash⟩
  intro hhead
  obtain ⟨path,name⟩ := k
  cases path with
  | nil => cases hhead
  | cons p ps =>
    -- the empty name is not among the parts of the flat one
    obtain rfl : p = "" := Option.some.inj hhead
    have hflat : (flatName "" (""::ps,name)).toList = joined (strip (ps++[name])) := flatName_toList _
    have hshort : nameParts (flatName "" (""::ps,name)) = strip (ps++[name]) := by
      apply nameParts_of_joined hflat (strip_ne_nil _)
      intro q hq
      obtain rfl | hq := mem_strip hq
      · simp
      · exact hslash q (List.mem_cons_of_mem _ hq)
    have hlen : (strip (ps++[name])).length ≤ (ps++[name]).length := length_strip (by simp)
    rw [← hshort,hparts] at hlen
    simp at hlen

section Failures
variable {ends : List String × String → ThreadEnd} {failures : Table String String}
  {places : List (List String × String)}

/-- Nobody else writes under the name of a VM that has not that of the panicked ones. -/
theorem foldl_noteFailure_other {flat : String} (hother : ∀ k ∈ places, flatName "" k ≠ flat)
    (hpanicked : flat ≠ "<panicked>" ∨ places = []) :
    (places.foldl (noteFailure ends) failures).lookup flat = failures.lookup flat := by
  induction places generalizing failures with
  | nil => rfl
  | cons k places ih =>
    have hne : flat ≠ "<panicked>" := hpanicked.resolve_right (List.cons_ne_nil k places)
    rw [List.foldl_cons,ih (fun k' hk' => hother k' (List.mem_cons_of_mem k hk')) (.inl hne)]
    unfold noteFailure
    split
    · rfl
    · exact AList.lookup_insert_ne (hother k List.mem_cons_self).symm
    · exact AList.lookup_insert_ne hne

theorem foldl_noteFailure_panicked (hne : places ≠ []) (hall : ∀ k ∈ places, ends k = .panicked) :
    (places.foldl (noteFailure ends) failures).lookup "<panicked>" = some "thread panicked" := by
  obtain ⟨places,k,rfl⟩ := (List.eq_nil_or_concat places).resolve_left hne
  rw [List.concat_eq_append,List.foldl_append,List.foldl_cons,List.foldl_nil,noteFailure,
    hall k (by simp)]
  exact AList.lookup_insert _

end Failures

/-- The names of a place joined by underscores. -/
def underscored (k : List String × String) : List Char := ['_'].intercalate ((k.1++[k.2]).map String.toList)

/-- The file of a VM at a plain place. -/
theorem Plain.underscored {k : List String × String} (h : Plain k) :
    (flatName "" k).toList.map (fun c => if c = '/' then '_' else c) = underscored k := by
  have hkeep : ∀ p ∈ k.1++[k.2], p.toList.map (fun c => if c = '/' then '_' else c) = p.toList := by
    intro p hp
    rw [List.map_congr_left (g := id),List.map_id]
    intro c hc
    refine if_neg ?_
    rintro rfl
    exact h.2 p hp hc
  have hparts : nameParts (flatName "" k) = k.1++[k.2] := by
    rw [← splitSubLabPath_parts,h.split]
  rw [← joined_nameParts,hparts,joined,Lab.underscored]
  generalize k.1++[k.2] = parts at hkeep
  induction parts with
  | nil => rfl
  | cons p parts ih =>
    have hp := hkeep p List.mem_cons_self
    have hrest := ih fun q hq => hkeep q (List.mem_cons_of_mem p hq)
    cases parts with
    | nil => simpa using hp
    | cons q parts =>
      simp only [List.map_cons,List.intercalate_cons_cons,List.map_append] at hrest ⊢
      rw [hp,hrest]
      simp

theorem snapshotPath_inj {dir a b : String} : snapshotPath dir a = snapshotPath dir b ↔
    a.toList.map (fun c => if c = '/' then '_' else c) =
      b.toList.map fun c => if c = '/' then '_' else c := by
  constructor
  · intro h
    have h := congrArg String.toList h
    simpa [snapshotPath] using h
  · intro h
    rw [snapshotPath,h,snapshotPath]

/-- Every VM stands at a plain place, none but the last of the walk has the name that a panicked thread is
noted under, and no two places are one when their names are joined by underscores. -/
structure PlacesApart {B V : Type} (t : LabTree B V) : Prop where
  plain : ∀ path name, (t.vmAt path name).isSome → Plain (path,name)
  panicked : ∀ before after, t.entries.map Prod.fst = before++([],"<panicked>")::after → after = []
  files : ∀ k ∈ t.entries.map Prod.fst, ∀ k' ∈ t.entries.map Prod.fst, underscored k = underscored k' → k = k'

/-- Where a function permutes a list and makes no measure larger, it makes none smaller. -/
theorem eq_of_perm_map {α : Type*} {f : α → α} (size : α → ℕ) {l : List α}
    (hle : ∀ a ∈ l, size (f a) ≤ size a) (hperm : (l.map f).Perm l) :
    ∀ a ∈ l, size (f a) = size a := by
  intro a ha
  have hsum := (hperm.map size).sum_eq
  rw [List.map_map] at hsum
  by_contra hne
  have hlt := List.sum_lt_sum (size ∘ f) size hle ⟨a,ha,lt_of_le_of_ne (hle a ha) hne⟩
  omega

/-- What reading back a flat name does to its length. -/
theorem flatName_split (k : List String × String) :
    flatName "" (splitSubLabPath (flatName "" k)) = flatName "" k ∨
      (flatName "" (splitSubLabPath (flatName "" k))).length < (flatName "" k).length := by
  have h := joined_strip (nameParts (flatName "" k))
  rw [joined_nameParts,← splitSubLabPath_parts,← flatName_toList] at h
  exact h.imp_left fun h => String.ext h

theorem flatNames_eq {B V : Type} (t : LabTree B V) :
    t.collectAllVms.map Prod.fst = (t.entries.map Prod.fst).map (flatName "") := by
  rw [collectAllVms_eq,List.map_map,List.map_map]
  rfl

/-- The flat names tell the VMs apart and lead back to them exactly where every VM stands at a plain
place. -/
theorem distinct_rebuilt_iff {B V : Type} (t : LabTree B V) : (t.collectAllVms.map Prod.fst).Nodup ∧
    (∃ t', (empty : LabTree B V).placeAll t.collectAllVms = .ok t' ∧
      ∀ path name, t'.vmAt path name = t.vmAt path name) ↔
    ∀ path name, (t.vmAt path name).isSome → Plain (path,name) := by
  have hkeys := flatNames_eq t
  have hplaced := fun hnodup => placeAll_of_nodup (t := (empty : LabTree B V)) (l := t.collectAllVms)
    hnodup fun e _ => vmAt_empty _ _
  constructor
  · rintro ⟨hnodup,t',ht',hsame⟩
    obtain ⟨t'',ht'',hall⟩ := hplaced hnodup
    rw [ht'] at ht''
    cases ht''
    have hsplit : ((t.entries.map Prod.fst).map fun k => splitSubLabPath (flatName "" k)).Nodup := by
      rw [hkeys] at hnodup
      have := hnodup.map splitSubLabPath_injective
      rwa [List.map_map] at this
    have hperm : ((t.entries.map Prod.fst).map fun k => splitSubLabPath (flatName "" k)).Perm
        (t.entries.map Prod.fst) := by
      apply (List.perm_ext_iff_of_nodup hsplit t.places_nodup).mpr
      rintro ⟨path,name⟩
      constructor
      · intro hmem
        obtain ⟨k,hk,hkey⟩ := List.mem_map.mp hmem
        obtain ⟨e,he,rfl⟩ := List.mem_map.mp hk
        have hat : t'.vmAt path name = some e.2 := by
          refine (hall path name e.2).mpr (.inr ⟨(flatName "" e.1,e.2),?_,hkey,rfl⟩)
          rw [collectAllVms_eq]
          exact List.mem_map_of_mem he
        rw [hsame] at hat
        exact List.mem_map.mpr ⟨((path,name),e.2),mem_entries.mpr hat,rfl⟩
      · intro hmem
        obtain ⟨⟨k,v⟩,he,rfl⟩ := List.mem_map.mp hmem
        have hat := mem_entries.mp he
        rw [← hsame,hall,vmAt_empty] at hat
        obtain hat | ⟨e,hmem,hkey,-⟩ := hat
        · cases hat
        · rw [collectAllVms_eq] at hmem
          obtain ⟨e',he',rfl⟩ := List.mem_map.mp hmem
          exact List.mem_map.mpr ⟨e'.1,List.mem_map_of_mem he',hkey⟩
    have hlen := eq_of_perm_map (fun k => (flatName "" k).length) (fun k _ => by
      obtain h | h := flatName_split k
      · rw [h]
      · exact h.le) hperm
    have hinj : ∀ k ∈ t.entries.map Prod.fst, ∀ k' ∈ t.entries.map Prod.fst,
        flatName "" k = flatName "" k' → k = k' := by
      rw [hkeys] at hnodup
      exact fun k hk k' hk' => List.inj_on_of_nodup_map hnodup hk hk'
    intro path name hsome
    obtain ⟨v,hv⟩ := Option.isSome_iff_exists.mp hsome
    have hmem : (path,name) ∈ t.entries.map Prod.fst :=
      List.mem_map.mpr ⟨_,mem_entries.mpr hv,rfl⟩
    apply plain_of_split
    apply hinj _ (hperm.subset (List.mem_map.mpr ⟨_,hmem,rfl⟩)) _ hmem
    obtain h | h := flatName_split (path,name)
    · exact h
    · exact absurd (hlen _ hmem) h.ne
  · intro hplain
    have hback : ∀ e ∈ t.entries, splitSubLabPath (flatName "" e.1) = e.1 := by
      rintro ⟨⟨path,name⟩,v⟩ he
      apply Plain.split
      apply hplain path name
      rw [mem_entries.mp he]
      rfl
    have hnodup : (t.collectAllVms.map Prod.fst).Nodup := by
      rw [hkeys]
      refine t.places_nodup.map_on ?_
      intro k hk k' hk' heq
      obtain ⟨e,he,rfl⟩ := List.mem_map.mp hk
      obtain ⟨e',he',rfl⟩ := List.mem_map.mp hk'
      rw [← hback e he,heq,hback e' he']
    obtain ⟨t',ht',hall⟩ := hplaced hnodup
    refine ⟨hnodup,t',ht',?_⟩
    intro path name
    apply Option.ext
    intro v
    rw [hall,vmAt_empty,collectAllVms_eq]
    constructor
    · rintro (h | ⟨e,he,hkey,rfl⟩)
      · cases h
      · obtain ⟨e',he',rfl⟩ := List.mem_map.mp he
        rw [hback e' he'] at hkey
        apply mem_entries.mp
        rw [← hkey]
        exact he'
    · intro hv
      have he : ((path,name),v) ∈ t.entries := mem_entries.mpr hv
      have hkey := hback ((path,name),v) he
      exact .inr ⟨(flatName "" (path,name),v),List.mem_map.mpr ⟨((path,name),v),he,rfl⟩,hkey,rfl⟩

section PlacesApart
variable {B V : Type} {t : LabTree B V}

theorem plain_of_mem (h : ∀ path name, (t.vmAt path name).isSome → Plain (path,name))
    {k : List String × String} (hk : k ∈ t.entries.map Prod.fst) : Plain k := by
  obtain ⟨⟨⟨path,name⟩,v⟩,he,rfl⟩ := List.mem_map.mp hk
  apply h
  rw [mem_entries.mp he]
  rfl

theorem files_nodup_iff (h : ∀ path name, (t.vmAt path name).isSome → Plain (path,name)) (dir : String) :
    (t.collectAllVms.map fun e => snapshotPath dir e.1).Nodup ↔
      ∀ k ∈ t.entries.map Prod.fst, ∀ k' ∈ t.entries.map Prod.fst, underscored k = underscored k' → k = k' := by
  have hpaths : (t.collectAllVms.map fun e => snapshotPath dir e.1) =
      (t.entries.map Prod.fst).map fun k => snapshotPath dir (flatName "" k) := by
    rw [collectAllVms_eq,List.map_map,List.map_map]
    rfl
  have hsame : ∀ k ∈ t.entries.map Prod.fst, ∀ k' ∈ t.entries.map Prod.fst,
      (snapshotPath dir (flatName "" k) = snapshotPath dir (flatName "" k') ↔ underscored k = underscored k') := by
    intro k hk k' hk'
    rw [snapshotPath_inj,(plain_of_mem h hk).underscored,(plain_of_mem h hk').underscored]
  rw [hpaths]
  constructor
  · intro hnodup k hk k' hk' heq
    exact List.inj_on_of_nodup_map hnodup hk hk' ((hsame k hk k' hk').mpr heq)
  · intro hinj
    refine t.places_nodup.map_on ?_
    intro k hk k' hk' heq
    exact hinj k hk k' hk' ((hsame k hk k' hk').mp heq)

/-- Of the VMs only one at the root has the flat name of the panicked ones. -/
theorem Plain.eq_panicked {k : List String × String} (h : Plain k) (hk : flatName "" k = "<panicked>") :
    k = ([],"<panicked>") := by
  have hsplit := h.split
  rw [hk] at hsplit
  rw [← hsplit]
  decide

/-- Each failure is found under the name of its VM, as no later thread writes there. -/
theorem failures_found (hnodup : (t.collectAllVms.map Prod.fst).Nodup) (h : PlacesApart t)
    (ends : List String × String → ThreadEnd) {k : List String × String} (hk : k ∈ t.entries.map Prod.fst)
    {message : String} (hend : ends k = .failed message) :
    (batchFailures ends (t.entries.map Prod.fst)).lookup (flatName "" k) = some message := by
  obtain ⟨before,after,heq⟩ := List.append_of_mem hk
  rw [flatNames_eq,heq,List.map_append,List.map_cons] at hnodup
  have hother : flatName "" k ∉ after.map (flatName "") :=
    (List.nodup_cons.mp (List.nodup_append.mp hnodup).2.1).1
  rw [batchFailures,heq,List.foldl_append,List.foldl_cons,foldl_noteFailure_other]
  · rw [noteFailure,hend]
    exact AList.lookup_insert _
  · intro k' hk' hsame
    exact hother (List.mem_map.mpr ⟨k',hk',hsame⟩)
  · by_cases hname : flatName "" k = "<panicked>"
    · right
      rw [(plain_of_mem h.plain hk).eq_panicked hname] at heq
      exact h.panicked before after heq
    · exact .inl hname

/-- A later thread that panics takes the place of a failure. -/
theorem last_of_failures (hfound : ∀ ends, ∀ k ∈ t.entries.map Prod.fst, ∀ message, ends k = .failed message →
      (batchFailures ends (t.entries.map Prod.fst)).lookup (flatName "" k) = some message)
    {before after : List (List String × String)}
    (heq : t.entries.map Prod.fst = before++([],"<panicked>")::after) : after = [] := by
  by_contra hne
  have hlast : ∀ k ∈ after, k ≠ ([],"<panicked>") := by
    have hnodup := t.places_nodup
    rw [heq] at hnodup
    intro k hk hsame
    exact (List.nodup_cons.mp (List.nodup_append.mp hnodup).2.1).1 (hsame ▸ hk)
  have hlookup := hfound (fun k => if k = ([],"<panicked>") then .failed "refused" else .panicked)
    ([],"<panicked>") (by rw [heq]; simp) "refused" (if_pos rfl)
  rw [batchFailures,heq,List.foldl_append,List.foldl_cons] at hlookup
  have hname : flatName "" ([],"<panicked>") = "<panicked>" := by decide
  rw [hname,foldl_noteFailure_panicked hne fun k hk => if_neg (hlast k hk)] at hlookup
  exact absurd (Option.some.inj hlookup) (by decide)

/-- The flat names do their work exactly where the names of the VMs are apart. -/
theorem flatNamesIdentify_iff (t : LabTree B V) : FlatNamesIdentify t ↔ PlacesApart t := by
  constructor
  · intro h
    have hplain := (distinct_rebuilt_iff t).mp ⟨h.distinct,h.rebuilt⟩
    exact ⟨hplain,fun _ _ => last_of_failures h.failures,(files_nodup_iff hplain "").mp (h.files "")⟩
  · intro h
    obtain ⟨hdistinct,hrebuilt⟩ := (distinct_rebuilt_iff t).mpr h.plain
    exact ⟨hdistinct,hrebuilt,fun ends k hk message => failures_found hdistinct h ends hk,
      fun dir => (files_nodup_iff h.plain dir).mpr h.files⟩

end PlacesApart

/-- A VM "a/b" beside a sub-lab "a" with a VM "b": both are gathered as "a/b". -/
def slashLab : LabTree Unit ℕ :=
  .node ((∅ : Table String ℕ).insert "a/b" 0) ∅ ["a"] (List.nodup_singleton "a") fun _ =>
    .node ((∅ : Table String ℕ).insert "b" 1) ∅ [] List.nodup_nil fun p => (List.not_mem_nil p.2).elim

/-- A VM "a_b" beside the sub-lab "a" with the VM "b": both are written to one file. -/
def underscoreLab : LabTree Unit ℕ :=
  .node ((∅ : Table String ℕ).insert "a_b" 0) ∅ ["a"] (List.nodup_singleton "a") fun _ =>
    .node ((∅ : Table String ℕ).insert "b" 1) ∅ [] List.nodup_nil fun p => (List.not_mem_nil p.2).elim

theorem slashLab_not_identified :
    (∀ name ∈ ["a/b","a_b","a","b"], checkReservedName name = .ok ()) ∧
      (slashLab.collectAllVms = [("a/b",0),("a/b",1)] ∧ ¬FlatNamesIdentify slashLab) ∧
      underscoreLab.collectAllVms = [("a_b",0),("a/b",1)] ∧ ¬FlatNamesIdentify underscoreLab := by
  have hslash : slashLab.collectAllVms = [("a/b",0),("a/b",1)] := by decide
  have hunderscore : underscoreLab.collectAllVms = [("a_b",0),("a/b",1)] := by decide
  refine ⟨by decide,⟨hslash,?_⟩,hunderscore,?_⟩
  · intro h
    have hdistinct := h.distinct
    rw [hslash] at hdistinct
    exact absurd hdistinct (by decide)
  · intro h
    have hfiles := h.files ""
    rw [hunderscore] at hfiles
    exact absurd hfiles (by decide)

end Provium.Lab
