import Provium.Fixture.Key

/-! The source is told from the rest of what a key is computed from, whatever bytes it consists of, where
no path contains a header: then the last header is the one behind the source. -/
namespace Provium.Fixture
open Lib

/-- No header is contained. -/
def HeaderFree (s : Bytes) : Prop := ¬header <:+: s

theorem headerFree_of_length {s : Bytes} (h : s.length < 31) : HeaderFree s := by
  intro hin
  have := hin.length_le
  rw [header_eq] at this
  simp only [List.length_cons,List.length_nil] at this
  omega

theorem headerFree_of_zero {s : Bytes} (h : (0 : UInt8) ∉ s) : HeaderFree s := by
  intro hin
  apply h
  apply hin.subset
  rw [header_eq]
  decide +kernel

/-- A header would have to lie across the border. -/
theorem HeaderFree.append {a b : Bytes} (ha : HeaderFree a) (hb : HeaderFree b)
    (hborder : ∀ y z, header = y++z → y ≠ [] → z ≠ [] → y <:+ a → z <+: b → False) :
    HeaderFree (a++b) := by
  rintro ⟨p,q,h⟩
  rw [List.append_assoc] at h
  obtain ⟨d,hd,hd'⟩ | ⟨d,hd,hd'⟩ := List.append_eq_append_iff.mp h
  · obtain ⟨e,he,he'⟩ | ⟨e,he,he'⟩ := List.append_eq_append_iff.mp hd'
    · exact ha ⟨p,e,by rw [hd,he,List.append_assoc]⟩
    · by_cases hd₀ : d = []
      · subst hd₀
        exact hb ⟨[],q,by rw [he',he]; rfl⟩
      · by_cases he₀ : e = []
        · subst he₀
          rw [List.append_nil] at he
          exact ha ⟨p,[],by rw [hd,he,List.append_nil]⟩
        · exact hborder d e he hd₀ he₀ ⟨p,hd.symm⟩ ⟨q,he'.symm⟩
  · exact hb ⟨d,q,by rw [hd',List.append_assoc]⟩

/-- No header begins in a mark. -/
theorem header_not_from_mark {mark y : Bytes} (hmark : mark ∈ partMarks) (hne : y ≠ [])
    (hy : y <:+ mark) (hheader : y <+: header) : False := by
  have hall : ∀ mark ∈ partMarks, ∀ k < mark.length, ¬mark.drop k <+: header := by
    rw [header_eq,partMarks,depMark_eq,kernel_mark,initrd_mark,external_mark]
    decide +kernel
  obtain ⟨t,rfl⟩ := hy
  apply hall _ hmark t.length
  · rw [List.length_append]
    have := List.length_pos_iff.mpr hne
    omega
  · rw [List.drop_left]
    exact hheader

theorem role_mark_mem (role : FileRole) : role.mark ∈ partMarks := by
  cases role <;> simp [partMarks]

theorem length_mark (role : FileRole) : role.mark.length < 31 := by
  cases role <;> decide +kernel

theorem mark_second (role : FileRole) : ∃ c t, role.mark = 124::c::t ∧ c ≠ 113 := by
  cases role with
  | kernel =>
    rw [kernel_mark]
    exact ⟨_,_,rfl,by decide⟩
  | initrd =>
    rw [initrd_mark]
    exact ⟨_,_,rfl,by decide⟩
  | external =>
    rw [external_mark]
    exact ⟨_,_,rfl,by decide⟩

/-- No header ends in what follows a path. -/
theorem header_not_into_files {y z : Bytes} (h : header = y++z) (hy : y ≠ []) (hz : z ≠ [])
    (f : HostFile) (rest : List (FileRole × HostFile)) : ¬z <+: f.foundBytes++foldFiles rest := by
  have hall : ∀ k < 31, 0 < k → (header.drop k)[0]? ≠ some 64 ∧
      ((header.drop k)[0]? = some 124 → (header.drop k)[1]? = some 113) := by
    rw [header_eq]
    decide +kernel
  have hlen : y.length+z.length = 31 := by
    rw [← List.length_append,← h,header_eq]
    rfl
  have hpos := List.length_pos_iff.mpr hy
  have hpos' := List.length_pos_iff.mpr hz
  obtain ⟨hat,hbar⟩ := hall y.length (by omega) hpos
  rw [h,List.drop_left] at hat hbar
  rintro ⟨t,ht⟩
  cases z with
  | nil => exact hz rfl
  | cons b z =>
    rw [List.getElem?_cons_zero] at hat hbar
    obtain rfl | rfl := head_foundBytes f rest ht.symm
    · exact hat rfl
    · cases z with
      | nil => cases hbar rfl
      | cons c z =>
        obtain rfl : c = 113 := Option.some.inj (hbar rfl)
        cases hf : f.found with
        | some m =>
          rw [HostFile.foundBytes,hf] at ht
          cases (List.cons.inj ht).1
        | none =>
          rw [HostFile.foundBytes,hf] at ht
          cases rest with
          | nil => cases ht
          | cons e rest =>
            obtain ⟨c,t',hmark,hc⟩ := mark_second e.1
            change _ = foldFiles (e::rest) at ht
            rw [foldFiles_cons,hmark] at ht
            obtain ⟨-,ht⟩ := List.cons.inj ht
            exact hc (List.cons.inj ht).1.symm

theorem header_not_into_fold {y z : Bytes} (h : header = y++z) (hy : y ≠ []) (hz : z ≠ [])
    (files : List (FileRole × HostFile)) : ¬z <+: foldFiles files :=
  header_not_into_files h hy hz ⟨"",none⟩ files

theorem length_foundBytes (f : HostFile) : f.foundBytes.length < 31 := by
  unfold HostFile.foundBytes
  cases f.found with
  | none => decide
  | some m =>
    change m.folded.length < 31
    have h₁ : (utf8 "@").length = 1 := by decide
    have h₂ : (utf8 ":").length = 1 := by decide
    unfold HostMeta.folded
    split
    · simp only [List.length_append,length_toLeBytes,h₁,h₂]
      omega
    · simp only [List.length_append,length_toLeBytes,h₁,List.length_nil]
      omega

theorem headerFree_foldFiles {files : List (FileRole × HostFile)}
    (h : ∀ e ∈ files, HeaderFree (utf8 e.2.path)) : HeaderFree (foldFiles files) := by
  induction files with
  | nil => exact headerFree_of_length (by decide)
  | cons e rest ih =>
    obtain ⟨he,hrest⟩ := List.forall_mem_cons.mp h
    rw [foldFiles_cons]
    have hfound : HeaderFree (e.2.foundBytes++foldFiles rest) :=
      (headerFree_of_length (length_foundBytes e.2)).append (ih hrest)
        fun y z h hy hz _ hz' => header_not_into_fold h hy hz rest hz'
    have hpath := he.append hfound fun y z h hy hz _ hz' => header_not_into_files h hy hz e.2 rest hz'
    refine HeaderFree.append ?_ hpath ?_
    · exact headerFree_of_length (length_mark e.1)
    · intro y z hyz hy _ hsuffix _
      exact header_not_from_mark (role_mark_mem e.1) hy hsuffix ⟨z,hyz.symm⟩

theorem zero_not_mem_foldDeps (deps : List CacheKey) : (0 : UInt8) ∉ foldDeps deps := by
  intro h
  obtain ⟨d,-,hd⟩ := List.mem_flatMap.mp h
  obtain hd | hd := List.mem_append.mp hd
  · rw [depMark_eq] at hd
    exact absurd hd (by decide)
  · exact absurd (d.digits 0 hd) (by decide +kernel)

theorem headerFree_foldDeps (deps : List CacheKey) : HeaderFree (foldDeps deps) :=
  headerFree_of_zero (zero_not_mem_foldDeps deps)

theorem headerFree_parts (deps : List CacheKey) {files : List (FileRole × HostFile)}
    (h : ∀ e ∈ files, HeaderFree (utf8 e.2.path)) : HeaderFree (foldDeps deps++foldFiles files) :=
  (headerFree_foldDeps deps).append (headerFree_foldFiles h)
    fun _ _ hyz hy hz _ hz' => header_not_into_fold hyz hy hz files hz'

/-- No source goes on into the header of the other. -/
theorem no_longer_source {s z parts parts' : Bytes} (hparts : HeaderFree parts) (hz : z ≠ [])
    (h : s++(header++parts) = (s++z)++(header++parts')) : False := by
  rw [List.append_assoc] at h
  have h := List.append_cancel_left h
  obtain ⟨d,hd,hd'⟩ | ⟨d,hd,hd'⟩ := List.append_eq_append_iff.mp h
  · exact hparts ⟨d,parts',by rw [hd',List.append_assoc]⟩
  · by_cases hd₀ : d = []
    · subst hd₀
      exact hparts ⟨[],parts',by rw [List.nil_append,hd',List.nil_append]⟩
    · exact header_unbordered hz hd₀ hd hd'

theorem source_split {s s' parts parts' : Bytes} (hparts : HeaderFree parts) (hparts' : HeaderFree parts')
    (h : s++(header++parts) = s'++(header++parts')) : s = s' ∧ parts = parts' := by
  have hs : s = s' := by
    obtain ⟨z,hz,-⟩ | ⟨z,hz,-⟩ := List.append_eq_append_iff.mp h
    · by_cases hnil : z = []
      · rw [hz,hnil,List.append_nil]
      · rw [hz] at h
        exact (no_longer_source hparts hnil h).elim
    · by_cases hnil : z = []
      · rw [hz,hnil,List.append_nil]
      · rw [hz] at h
        exact (no_longer_source hparts' hnil h.symm).elim
  subst hs
  exact ⟨rfl,List.append_cancel_left (List.append_cancel_left h)⟩

end Provium.Fixture
