import Mathlib

/-! Fields joined by a separator, which a field holds by having it twice. -/
namespace Lib.Doubled
variable {α : Type} [DecidableEq α] (sep : α)

/-- A field as it is written. -/
def double (field : List α) : List α := field.flatMap fun a => if a = sep then [sep,sep] else [a]

def join : List (List α) → List α
  | [] => []
  | [field] => field
  | field::fields => field++sep::join fields

/-- The fields of a text, of the first of which there is something already. -/
def split (acc : List α) : List α → List (List α)
  | [] => [acc]
  | [a] => if a = sep then [acc,[]] else [acc++[a]]
  | a::b::text =>
    if a ≠ sep then split (acc++[a]) (b::text)
    else if b = sep then split (acc++[sep]) text
    else acc::split [] (b::text)

/-- How long a field is when it is written. -/
def weight (field : List α) : ℕ := field.length+field.count sep

variable {sep}

theorem split_cons_ne {a : α} (ha : a ≠ sep) (acc text : List α) :
    split sep acc (a::text) = split sep (acc++[a]) text := by
  cases text with
  | nil => simp [split,ha]
  | cons b text => rw [split,if_pos ha]

theorem split_sep_sep (acc text : List α) : split sep acc (sep::sep::text) = split sep (acc++[sep]) text := by
  rw [split,if_neg (not_not.mpr rfl),if_pos rfl]

theorem split_sep {text : List α} (h : text.head? ≠ some sep) (acc : List α) :
    split sep acc (sep::text) = acc::split sep [] text := by
  cases text with
  | nil => simp [split]
  | cons b text =>
    have hb : b ≠ sep := fun heq => h (by rw [heq]; rfl)
    rw [split,if_neg (not_not.mpr rfl),if_neg hb]

theorem split_double (acc field text : List α) :
    split sep acc (double sep field++text) = split sep (acc++field) text := by
  induction field generalizing acc with
  | nil => simp [double]
  | cons a field ih =>
    have hstep : split sep acc (double sep (a::field)++text) = split sep (acc++[a]) (double sep field++text) := by
      rw [double,List.flatMap_cons]
      by_cases ha : a = sep
      · subst ha
        rw [if_pos rfl]
        exact split_sep_sep acc _
      · rw [if_neg ha]
        exact split_cons_ne ha acc _
    rw [hstep,ih,List.append_assoc,List.singleton_append]

theorem double_of_notMem {field : List α} (h : sep ∉ field) : double sep field = field := by
  induction field with
  | nil => rfl
  | cons a field ih =>
    have ha : a ≠ sep := fun heq => h (heq ▸ List.mem_cons_self)
    have hrest := ih fun hmem => h (List.mem_cons_of_mem a hmem)
    rw [double,List.flatMap_cons,if_neg ha]
    exact congrArg (a::·) hrest

theorem length_double (field : List α) : (double sep field).length = weight sep field := by
  induction field with
  | nil => rfl
  | cons a field ih =>
    rw [double,List.flatMap_cons,List.length_append]
    have hrest : (field.flatMap fun a => if a = sep then [sep,sep] else [a]).length = weight sep field := ih
    rw [hrest,weight,weight,List.length_cons,List.count_cons]
    by_cases ha : a = sep
    · simp [ha]
      omega
    · simp [ha]
      omega

/-- A field begins with something else than the separator. -/
def Begins (sep : α) (field : List α) : Prop := ∃ a rest, field = a::rest ∧ a ≠ sep

omit [DecidableEq α] in
@[simp] theorem begins_cons {a : α} {field : List α} : Begins sep (a::field) ↔ a ≠ sep := by
  constructor
  · rintro ⟨b,rest,heq,hb⟩
    rwa [(List.cons.inj heq).1]
  · exact fun ha => ⟨a,field,rfl,ha⟩

theorem head_join {field : List α} (h : Begins sep field) (fields : List (List α)) :
    (join sep (double sep field::fields)).head? ≠ some sep := by
  obtain ⟨a,rest,rfl,ha⟩ := h
  have hwritten : double sep (a::rest) = a::double sep rest := by
    rw [double,List.flatMap_cons,if_neg ha]
    rfl
  rw [hwritten]
  cases fields with
  | nil => simpa [join] using ha
  | cons f fields => simpa [join] using ha

theorem split_join_double {fields : List (List α)} (hne : fields ≠ []) (h : ∀ f ∈ fields.tail, Begins sep f) :
    split sep [] (join sep (fields.map (double sep))) = fields := by
  induction fields with
  | nil => exact absurd rfl hne
  | cons f fields ih =>
    cases fields with
    | nil =>
      have hdouble := @split_double α _ sep [] f []
      rwa [List.append_nil] at hdouble
    | cons g fields =>
      have hrest := ih (List.cons_ne_nil g fields) fun f' hf' => h f' (List.mem_cons_of_mem g hf')
      have hhead := head_join (h g List.mem_cons_self) (fields.map (double sep))
      rw [List.map_cons,List.map_cons,join]
      · rw [split_double,List.nil_append,split_sep hhead]
        exact congrArg (f::·) hrest
      · exact List.cons_ne_nil _ _

/-- Nothing of a text goes by in splitting but the separators. -/
theorem weight_split (acc text : List α) :
    ((split sep acc text).map (weight sep)).sum+(split sep acc text).length = weight sep acc+text.length+1 := by
  have hpush : ∀ (field : List α) (a : α),
      weight sep (field++[a]) = weight sep field+if a = sep then 2 else 1 := by
    intro field a
    rw [weight,weight,List.length_append,List.count_append,List.length_singleton,List.count_singleton]
    by_cases ha : a = sep
    · simp [ha]
      omega
    · simp [ha]
      omega
  induction acc, text using split.induct sep with
  | case1 acc => simp [split]
  | case2 acc => simp [split,weight]
  | case3 acc a ha => simp [split,ha,hpush]
  | case4 acc a b text ha ih =>
    rw [split_cons_ne ha,ih,hpush,if_neg ha]
    simp only [List.length_cons]
    omega
  | case5 acc a text ha ih =>
    obtain rfl := not_not.mp ha
    rw [split_sep_sep,ih,hpush,if_pos rfl]
    simp only [List.length_cons]
    omega
  | case6 acc a b text ha hb ih =>
    obtain rfl := not_not.mp ha
    have hhead : (b::text).head? ≠ some a := fun heq => hb (Option.some.inj heq)
    rw [split_sep hhead,List.map_cons,List.sum_cons,List.length_cons]
    have hnil : weight a ([] : List α) = 0 := rfl
    rw [hnil] at ih
    simp only [List.length_cons] at ih ⊢
    omega

omit [DecidableEq α] in
theorem length_join {fields : List (List α)} (hne : fields ≠ []) :
    (join sep fields).length+1 = (fields.map List.length).sum+fields.length := by
  induction fields with
  | nil => exact absurd rfl hne
  | cons f fields ih =>
    cases fields with
    | nil => simp [join]
    | cons g fields =>
      have hrest := ih (List.cons_ne_nil g fields)
      rw [join]
      · simp only [List.length_append,List.length_cons,List.map_cons,List.sum_cons] at hrest ⊢
        omega
      · exact List.cons_ne_nil g fields

/-- A field that is doubled, or one that is written as it stands. -/
def write (sep : α) (field : List α × Bool) : List α := if field.2 then double sep field.1 else field.1

theorem length_write_le (field : List α × Bool) : (write sep field).length ≤ weight sep field.1 := by
  unfold write
  split
  · exact (length_double field.1).le
  · exact Nat.le_add_right _ _

/-- Fields come back exactly if those that are written as they stand have no separator. -/
theorem split_join_iff {fields : List (List α × Bool)} (hne : fields ≠ [])
    (h : ∀ f ∈ fields.tail, Begins sep f.1) :
    split sep [] (join sep (fields.map (write sep))) = fields.map Prod.fst ↔
      ∀ f ∈ fields, f.2 = false → sep ∉ f.1 := by
  constructor
  · intro heq f hf hraw hmem
    have hweight := @weight_split α _ sep [] (join sep (fields.map (write sep)))
    have hlength := @length_join α sep (fields.map (write sep)) (by simpa using hne)
    have hless : (fields.map fun f => (write sep f).length).sum < (fields.map fun f => weight sep f.1).sum := by
      refine List.sum_lt_sum _ _ (fun f _ => length_write_le f) ⟨f,hf,?_⟩
      have hcount := List.count_pos_iff.mpr hmem
      rw [write,hraw,if_neg Bool.false_ne_true,weight]
      omega
    rw [heq] at hweight
    simp only [List.map_map,List.length_map] at hweight hlength
    have hnil : weight sep ([] : List α) = 0 := rfl
    change (fields.map fun f => weight sep f.1).sum+fields.length = _ at hweight
    change _ = (fields.map fun f => (write sep f).length).sum+fields.length at hlength
    omega
  · intro hraw
    have hwrite : fields.map (write sep) = (fields.map Prod.fst).map (double sep) := by
      rw [List.map_map]
      refine List.map_congr_left fun f hf => ?_
      unfold write
      split
      · rfl
      · next hf2 => exact (double_of_notMem (hraw f hf (by simpa using hf2))).symm
    rw [hwrite]
    refine split_join_double (by simpa using hne) ?_
    rw [← List.map_tail]
    exact List.forall_mem_map.mpr h

end Lib.Doubled
