import Provium.Lua.Json

/-! What `json.encode` keeps of a table: `table_to_json` with the vector that it allocates for an array, which
is as long as the largest key. -/
namespace Provium.Lua
open Lib Provium.Fixture

/-- What becomes of an encoding; `none` where an allocation ends the program. -/
abbrev Encoding (α : Type) := ExceptT JsonError Option α

namespace Encoding
variable {α β : Type}

def done (a : α) : Encoding α := (some (.ok a) : Option (Except JsonError α))

def fails (e : JsonError) : Encoding α := (some (.error e) : Option (Except JsonError α))

def aborts : Encoding α := (none : Option (Except JsonError α))

@[simp] theorem done_bind (a : α) (f : α → Encoding β) : done a >>= f = f a := rfl

@[simp] theorem fails_bind (e : JsonError) (f : α → Encoding β) : fails e >>= f = fails e := rfl

def lift : Except JsonError α → Encoding α
  | .ok a => done a
  | .error e => fails e

end Encoding
open Encoding

variable {φ : Type} (F : Floats φ) (room : ℕ → Bool)

section Allocation
variable [DecidableEq φ]

/-- `arrayItems`, of values that may not be had. -/
def allocatedItems (t : List (LuaKey φ × Encoding (JsonValue φ))) : List ℕ → Encoding (List (JsonValue φ))
  | [] => done []
  | i::is => do
    let v ← (t.lookup (.integer (i+1))).getD (done .null)
    let items ← allocatedItems t is
    done (v::items)

/-- `objectFields`, of values that may not be had. -/
def allocatedFields (obj : List (String × JsonValue φ)) :
    List (LuaKey φ × Encoding (JsonValue φ)) → Encoding (List (String × JsonValue φ))
  | [] => done obj
  | (k,v)::t => do
    let text ← Encoding.lift (keyText F k)
    let v ← v
    allocatedFields (Entries.insert text v obj) t

/-- `table_to_json` with `Vec::with_capacity`, for which there is room or not. -/
def allocateTable (t : List (LuaKey φ × Encoding (JsonValue φ))) : Encoding (JsonValue φ) :=
  let shape := (t.map Prod.fst).foldl (keyShape F) (0,false)
  if !shape.2 && 0 < shape.1 then
    if room shape.1.toNat then do
      let items ← allocatedItems t (List.range shape.1.toNat)
      done (.array items)
    else aborts
  else if t.isEmpty then done (.object [])
  else do
    let fields ← allocatedFields F [] t
    done (.object fields)

mutual

/-- `lua_to_json` -/
def allocateJson : LuaValue φ → Encoding (JsonValue φ)
  | .nil => done .null
  | .boolean b => done (.bool b)
  | .integer i => done (.number (.int i))
  | .number f => done (if F.finite f then .number (.float f) else .null)
  | .string s => do
    let s ← Encoding.lift (toStr s)
    done (.string s)
  | .table t => allocateTable F room (allocateEntries t)
  | .other typeName => fails (.external ("json.encode: unsupported value type `"++typeName++"`"))

def allocateEntries : List (LuaKey φ × LuaValue φ) → List (LuaKey φ × Encoding (JsonValue φ))
  | [] => []
  | (k,v)::t => (k,allocateJson v)::allocateEntries t

end

end Allocation

/-! ## Where there is always room -/

section Room
variable [DecidableEq φ] {F}

theorem lookup_lift (t : List (LuaKey φ × Except JsonError (JsonValue φ))) (k : LuaKey φ) :
    (t.map fun e => (e.1,Encoding.lift e.2)).lookup k = (t.lookup k).map Encoding.lift :=
  Entries.lookup_map_snd Encoding.lift t k

theorem allocatedItems_lift (t : List (LuaKey φ × Except JsonError (JsonValue φ))) (is : List ℕ) :
    allocatedItems (t.map fun e => (e.1,Encoding.lift e.2)) is = Encoding.lift (arrayItems t is) := by
  induction is with
  | nil => rfl
  | cons i is ih =>
    rw [allocatedItems,arrayItems,lookup_lift,ih]
    cases t.lookup (.integer (i+1)) with
    | none =>
      cases arrayItems t is with
      | ok items => rfl
      | error e => rfl
    | some v =>
      cases v with
      | error e => rfl
      | ok v =>
        cases arrayItems t is with
        | ok items => rfl
        | error e => rfl

omit [DecidableEq φ] in
theorem allocatedFields_lift (obj : List (String × JsonValue φ))
    (t : List (LuaKey φ × Except JsonError (JsonValue φ))) :
    allocatedFields F obj (t.map fun e => (e.1,Encoding.lift e.2)) = Encoding.lift (objectFields F obj t) := by
  induction t generalizing obj with
  | nil => rfl
  | cons e t ih =>
    obtain ⟨k,v⟩ := e
    rw [List.map_cons,allocatedFields,objectFields]
    cases keyText F k with
    | error e => rfl
    | ok text =>
      cases v with
      | error e => rfl
      | ok v => exact ih _

theorem allocateTable_lift (t : List (LuaKey φ × Except JsonError (JsonValue φ))) :
    allocateTable F (fun _ => true) (t.map fun e => (e.1,Encoding.lift e.2)) = Encoding.lift (tableToJson F t) := by
  have hkeys : (t.map fun e => (e.1,Encoding.lift e.2)).map Prod.fst = t.map Prod.fst := by
    rw [List.map_map]
    rfl
  unfold allocateTable tableToJson
  simp only [hkeys,allocatedItems_lift,allocatedFields_lift,if_true,List.isEmpty_map]
  split_ifs
  · cases arrayItems t (List.range ((t.map Prod.fst).foldl (keyShape F) (0,false)).1.toNat) with
    | ok items => rfl
    | error e => rfl
  · rfl
  · cases objectFields F [] t with
    | ok fields => rfl
    | error e => rfl

mutual

/-- Where there is always room the encoding is that of `luaToJson`. -/
theorem allocateJson_eq : ∀ v : LuaValue φ, allocateJson F (fun _ => true) v = Encoding.lift (luaToJson F v)
  | .nil => by rw [allocateJson,luaToJson]; rfl
  | .boolean b => by rw [allocateJson,luaToJson]; rfl
  | .integer i => by rw [allocateJson,luaToJson]; rfl
  | .number f => by rw [allocateJson,luaToJson]; rfl
  | .string s => by
    rw [allocateJson,luaToJson]
    cases toStr s with
    | ok s => rfl
    | error e => rfl
  | .table t => by rw [allocateJson,luaToJson,allocateEntries_eq t,allocateTable_lift]
  | .other typeName => by rw [allocateJson,luaToJson]; rfl

theorem allocateEntries_eq : ∀ t : List (LuaKey φ × LuaValue φ),
    allocateEntries F (fun _ => true) t = (entriesToJson F t).map fun e => (e.1,Encoding.lift e.2)
  | [] => by rw [allocateEntries,entriesToJson,List.map_nil]
  | (k,v)::t => by rw [allocateEntries,entriesToJson,List.map_cons,allocateJson_eq v,allocateEntries_eq t]

end

end Room

/-! ## Tables of strings, integers and booleans -/

section Keys

/-- A string, an integer or a boolean. -/
def LuaKey.Simple : LuaKey φ → Prop
  | .string _ => True
  | .integer _ => True
  | .boolean _ => True
  | _ => False

/-- A positive integer. -/
def LuaKey.index : LuaKey φ → Option ℕ
  | .integer i => if 1 ≤ i then some i.toNat else none
  | _ => none

def largestIndex (keys : List (LuaKey φ)) : ℕ := keys.foldr (fun k n => max (k.index.getD 0) n) 0

/-- A key that is no string, and a string that is as the key is written. -/
def Alike : LuaKey φ → LuaKey φ → Prop
  | .integer i,.string s => s = utf8 (toString i)
  | .boolean b,.string s => s = utf8 (toString b)
  | _,_ => False

variable {F}

theorem foldl_keyShape {keys : List (LuaKey φ)} (h : ∀ k ∈ keys, k.Simple) {shape : ℤ × Bool} (hs : 0 ≤ shape.1) :
    keys.foldl (keyShape F) shape =
      (max shape.1 (largestIndex keys),shape.2 || keys.any fun k => k.index.isNone) := by
  induction keys generalizing shape with
  | nil => simp [largestIndex,hs]
  | cons k keys ih =>
    have hrest := fun k hk => h k (List.mem_cons_of_mem _ hk)
    have hk := h k List.mem_cons_self
    rw [List.foldl_cons]
    cases k with
    | integer i =>
      by_cases hi : 1 ≤ i
      · rw [ih hrest (by simp [keyShape,hi,hs])]
        have hcast : ((i.toNat : ℕ) : ℤ) = i := Int.toNat_of_nonneg (by omega)
        simp [keyShape,hi,LuaKey.index,largestIndex,hcast]
      · rw [ih hrest (by simp [keyShape,hi,hs])]
        simp [keyShape,hi,LuaKey.index,largestIndex]
    | number f => exact hk.elim
    | other n i => exact hk.elim
    | string s =>
      rw [ih hrest (by simpa [keyShape] using hs)]
      simp [keyShape,LuaKey.index,largestIndex]
    | boolean b =>
      rw [ih hrest (by simpa [keyShape] using hs)]
      simp [keyShape,LuaKey.index,largestIndex]

theorem index_eq_some {k : LuaKey φ} {n : ℕ} : k.index = some n ↔ 1 ≤ n ∧ k = .integer n := by
  cases k with
  | integer i =>
    simp only [LuaKey.index]
    split_ifs with hi
    · simp only [Option.some.injEq,LuaKey.integer.injEq]
      omega
    · refine iff_of_false (by simp) ?_
      rintro ⟨hn,heq⟩
      have := LuaKey.integer.inj heq
      omega
  | _ => simp [LuaKey.index]

theorem le_largestIndex {keys : List (LuaKey φ)} {k : LuaKey φ} {n : ℕ} (hk : k ∈ keys) (hn : k.index = some n) :
    n ≤ largestIndex keys := by
  induction keys with
  | nil => cases hk
  | cons k' keys ih =>
    rw [largestIndex,List.foldr_cons]
    obtain rfl | hk := List.mem_cons.mp hk
    · rw [hn]
      exact le_max_left _ _
    · exact (ih hk).trans (le_max_right _ _)

theorem exists_largestIndex {keys : List (LuaKey φ)} (h : 0 < largestIndex keys) :
    ∃ k ∈ keys, k.index = some (largestIndex keys) := by
  induction keys with
  | nil => exact absurd h (lt_irrefl 0)
  | cons k keys ih =>
    have hcons : largestIndex (k::keys) = max (k.index.getD 0) (largestIndex keys) := rfl
    rw [hcons] at h ⊢
    by_cases hle : k.index.getD 0 ≤ largestIndex keys
    · rw [max_eq_right hle] at h ⊢
      obtain ⟨k',hk',hindex⟩ := ih h
      exact ⟨k',List.mem_cons_of_mem _ hk',hindex⟩
    · rw [max_eq_left (le_of_not_ge hle)] at h ⊢
      cases hk : k.index with
      | none =>
        rw [hk] at h
        exact absurd h (lt_irrefl 0)
      | some n => exact ⟨k,List.mem_cons_self,hk⟩

theorem intText_injective {i j : ℤ} (h : toString i = toString j) : i = j := by
  have hminus : ∀ n m : ℕ, n.repr ≠ "-"++m.repr := by
    intro n m heq
    have hmem : '-' ∈ n.repr.toList := by
      rw [heq,String.toList_append]
      exact List.mem_append_left _ List.mem_cons_self
    rw [Nat.repr,String.toList_ofList] at hmem
    exact absurd (Nat.isDigit_of_mem_toDigits (by decide) (by decide) hmem) (by decide)
  rw [Int.toString_eq_repr,Int.toString_eq_repr,Int.repr_eq_if,Int.repr_eq_if] at h
  split_ifs at h with hi hj hj
  · have := Nat.repr_injective h
    omega
  · exact absurd h (hminus _ _)
  · exact absurd h.symm (hminus _ _)
  · have := Nat.repr_injective ((String.append_right_inj _).mp h)
    omega

theorem boolText_ne_intText (b : Bool) (i : ℤ) : toString b ≠ toString i := by
  rw [Int.toString_eq_repr,Int.repr_eq_if]
  intro h
  have hdigit : ∀ n : ℕ, ∀ c ∈ n.repr.toList, c.isDigit := by
    intro n c hc
    rw [Nat.repr,String.toList_ofList] at hc
    exact Nat.isDigit_of_mem_toDigits (by decide) (by decide) hc
  have he : 'e' ∈ (toString b).toList := by cases b <;> decide
  rw [h] at he
  split_ifs at he
  · exact absurd (hdigit _ _ he) (by decide)
  · rw [String.toList_append,List.mem_append] at he
    obtain he | he := he
    · exact absurd he (by decide)
    · exact absurd (hdigit _ _ he) (by decide)

theorem boolText_injective {a b : Bool} (h : toString a = toString b) : a = b := by
  cases a <;> cases b <;> first | rfl | exact absurd h (by decide)

theorem toStr_eq_ok {s : Bytes} {text : String} : toStr s = .ok text ↔ s = utf8 text := by
  unfold toStr
  rw [@eq_comm _ s,← ofUtf8_eq_some]
  cases ofUtf8 s with
  | none => simp
  | some t => simp

/-- Two keys with one text are a string and a key that is written as it. -/
theorem keyText_eq {a b : LuaKey φ} (ha : a.Simple) (hb : b.Simple) {text : String}
    (hat : keyText F a = .ok text) (hbt : keyText F b = .ok text) : a = b ∨ Alike a b ∨ Alike b a := by
  cases a with
  | number f => exact ha.elim
  | other n i => exact ha.elim
  | string s =>
    have hs := toStr_eq_ok.mp hat
    cases b with
    | number f => exact hb.elim
    | other n i => exact hb.elim
    | string s' => exact .inl (congrArg _ (hs.trans (toStr_eq_ok.mp hbt).symm))
    | integer i =>
      obtain rfl := Except.ok.inj hbt
      exact .inr (.inr hs)
    | boolean v =>
      obtain rfl := Except.ok.inj hbt
      exact .inr (.inr hs)
  | integer i =>
    obtain rfl := Except.ok.inj hat
    cases b with
    | number f => exact hb.elim
    | other n i => exact hb.elim
    | string s' => exact .inr (.inl (toStr_eq_ok.mp hbt))
    | integer j => exact .inl (congrArg _ (intText_injective (Except.ok.inj hbt).symm))
    | boolean v => exact absurd (Except.ok.inj hbt) (boolText_ne_intText v i)
  | boolean v =>
    obtain rfl := Except.ok.inj hat
    cases b with
    | number f => exact hb.elim
    | other n i => exact hb.elim
    | string s' => exact .inr (.inl (toStr_eq_ok.mp hbt))
    | integer j => exact absurd (Except.ok.inj hbt).symm (boolText_ne_intText v j)
    | boolean w => exact .inl (congrArg _ (boolText_injective (Except.ok.inj hbt).symm))

theorem Alike.ne {a b : LuaKey φ} (h : Alike a b) : a ≠ b := by
  rintro rfl
  cases a <;> exact h

theorem Alike.keyText_eq {a b : LuaKey φ} (h : Alike a b) {text : String} (hb : keyText F b = .ok text) :
    keyText F a = .ok text := by
  cases b with
  | string s =>
    have hs := toStr_eq_ok.mp hb
    cases a with
    | integer i =>
      rw [keyText,utf8_injective (h.symm.trans hs)]
    | boolean v =>
      rw [keyText,utf8_injective (h.symm.trans hs)]
    | _ => exact h.elim
  | _ => cases a <;> exact h.elim

/-- A key without a text is a string that is not UTF-8. -/
theorem keyText_eq_error {k : LuaKey φ} (hk : k.Simple) {e : JsonError} (h : keyText F k = .error e) :
    ∃ s, k = .string s ∧ ofUtf8 s = none := by
  cases k with
  | string s =>
    refine ⟨s,rfl,?_⟩
    rw [keyText,toStr] at h
    cases hs : ofUtf8 s with
    | none => rfl
    | some t =>
      rw [hs] at h
      cases h
  | number f => exact hk.elim
  | other n i => exact hk.elim
  | integer i => cases h
  | boolean b => cases h

end Keys

/-! ## What is kept -/

section Kept
variable [DecidableEq φ]

/-- One element or member for each entry, with what its value is encoded as. An element that is not of an entry is
null and stands before one that is. -/
inductive EachOnce (t : List (LuaKey φ × LuaValue φ)) : JsonValue φ → Prop
  | array {items : List (JsonValue φ)}
    (hentries : ∀ e ∈ t, ∃ i j, e.1 = .integer (i+1 : ℕ) ∧ items[i]? = some j ∧ allocateJson F room e.2 = done j)
    (hholes : ∀ i j, items[i]? = some j → .integer (i+1 : ℕ) ∉ t.map Prod.fst → j = .null)
    (hlast : ∀ i < items.length, ∃ n : ℕ, i ≤ n ∧ .integer (n+1 : ℕ) ∈ t.map Prod.fst) :
    EachOnce t (.array items)
  | object {fields : List (String × JsonValue φ)} {t' : List (LuaKey φ × LuaValue φ)} (hperm : t'.Perm t)
    (hfields : List.Forall₂ (fun e f => keyText F e.1 = .ok f.1 ∧ allocateJson F room e.2 = done f.2) t' fields) :
    EachOnce t (.object fields)

/-- An error, or all that is in the table. -/
def Faithful (t : List (LuaKey φ × LuaValue φ)) : Prop :=
  (∃ e, allocateJson F room (.table t) = fails e) ∨
    ∃ j, allocateJson F room (.table t) = done j ∧ EachOnce F room t j

/-- The table of an array can be allocated. In another one no two keys are written alike, or a key is no text. -/
def Writable (t : List (LuaKey φ × LuaValue φ)) : Prop :=
  if t ≠ [] ∧ ∀ e ∈ t, e.1.index.isSome then room (largestIndex (t.map Prod.fst)) = true
  else (∃ e ∈ t, ∃ s, e.1 = .string s ∧ ofUtf8 s = none) ∨ ∀ e ∈ t, ∀ e' ∈ t, ¬Alike e.1 e'.1

variable {F room} {t : List (LuaKey φ × LuaValue φ)}

theorem allocateEntries_map (t : List (LuaKey φ × LuaValue φ)) :
    allocateEntries F room t = t.map fun e => (e.1,allocateJson F room e.2) := by
  induction t with
  | nil => rw [allocateEntries,List.map_nil]
  | cons e t ih => rw [allocateEntries,List.map_cons,ih]

theorem allocatedItems_forall₂ {u : List (LuaKey φ × Encoding (JsonValue φ))} {is : List ℕ}
    (h : ∀ i ∈ is, ∃ j, (u.lookup (.integer (i+1))).getD (done .null) = done j) :
    ∃ items, allocatedItems u is = done items ∧
      List.Forall₂ (fun (i : ℕ) j => (u.lookup (.integer (i+1))).getD (done .null) = done j) is items := by
  induction is with
  | nil => exact ⟨[],rfl,.nil⟩
  | cons i is ih =>
    obtain ⟨j,hj⟩ := h i List.mem_cons_self
    obtain ⟨items,hitems,hall⟩ := ih fun i hi => h i (List.mem_cons_of_mem _ hi)
    refine ⟨j::items,?_,.cons hj hall⟩
    rw [allocatedItems,hj,hitems]
    rfl

/-- The fields of a table whose keys are texts, as they are listed and inserted. -/
theorem allocatedFields_done (obj : List (String × JsonValue φ))
    (hkeys : ∀ e ∈ t, ∃ text, keyText F e.1 = .ok text) (hvalues : ∀ e ∈ t, ∃ j, allocateJson F room e.2 = done j) :
    ∃ listed : List (String × JsonValue φ),
      List.Forall₂ (fun e f => keyText F e.1 = .ok f.1 ∧ allocateJson F room e.2 = done f.2) t listed ∧
      allocatedFields F obj (allocateEntries F room t) =
        done (listed.foldl (fun o e => Entries.insert e.1 e.2 o) obj) := by
  induction t generalizing obj with
  | nil =>
    refine ⟨[],.nil,?_⟩
    rw [allocateEntries]
    rfl
  | cons e t ih =>
    obtain ⟨text,htext⟩ := hkeys e List.mem_cons_self
    obtain ⟨j,hj⟩ := hvalues e List.mem_cons_self
    obtain ⟨listed,hlisted,hfields⟩ := ih (Entries.insert text j obj)
      (fun e he => hkeys e (List.mem_cons_of_mem _ he)) fun e he => hvalues e (List.mem_cons_of_mem _ he)
    refine ⟨(text,j)::listed,.cons ⟨htext,hj⟩ hlisted,?_⟩
    rw [allocateEntries,allocatedFields,htext,hj,Encoding.lift,done_bind,done_bind,hfields]
    rfl

theorem allocatedFields_fails (obj : List (String × JsonValue φ))
    (hkeys : ∃ e ∈ t, ∃ err, keyText F e.1 = .error err) (hvalues : ∀ e ∈ t, ∃ j, allocateJson F room e.2 = done j) :
    ∃ err, allocatedFields F obj (allocateEntries F room t) = fails err := by
  induction t generalizing obj with
  | nil =>
    obtain ⟨e,he,-⟩ := hkeys
    cases he
  | cons e t ih =>
    rw [allocateEntries,allocatedFields]
    cases htext : keyText F e.1 with
    | error err => exact ⟨err,rfl⟩
    | ok text =>
      obtain ⟨j,hj⟩ := hvalues e List.mem_cons_self
      rw [hj,Encoding.lift,done_bind,done_bind]
      refine ih _ ?_ fun e he => hvalues e (List.mem_cons_of_mem _ he)
      obtain ⟨e',he',err,herr⟩ := hkeys
      obtain rfl | he' := List.mem_cons.mp he'
      · rw [htext] at herr
        cases herr
      · exact ⟨e',he',err,herr⟩

theorem done_injective {α : Type} {a b : α} (h : done a = done b) : a = b := Except.ok.inj (Option.some.inj h)

theorem done_ne_fails {α : Type} {a : α} {e : JsonError} : done a ≠ fails e := by
  intro h
  cases Option.some.inj h

theorem tableShape (hsimple : ∀ e ∈ t, e.1.Simple) :
    ((allocateEntries F room t).map Prod.fst).foldl (keyShape F) (0,false) =
      ((largestIndex (t.map Prod.fst) : ℤ),!decide (∀ e ∈ t, e.1.index.isSome)) := by
  have hkeys : (allocateEntries F room t).map Prod.fst = t.map Prod.fst := by
    rw [allocateEntries_map,List.map_map]
    rfl
  rw [hkeys,foldl_keyShape (List.forall_mem_map.mpr hsimple) le_rfl]
  have hmax : max 0 ((largestIndex (t.map Prod.fst) : ℕ) : ℤ) = largestIndex (t.map Prod.fst) := by omega
  rw [hmax,Bool.false_or,List.any_map]
  congr 1
  rw [Bool.eq_iff_iff]
  simp

theorem allocateJson_array (hsimple : ∀ e ∈ t, e.1.Simple) (h : t ≠ [] ∧ ∀ e ∈ t, e.1.index.isSome) :
    allocateJson F room (.table t) = if room (largestIndex (t.map Prod.fst)) then
      allocatedItems (allocateEntries F room t) (List.range (largestIndex (t.map Prod.fst))) >>= fun items =>
        done (.array items)
      else aborts := by
  have hpos : 0 < largestIndex (t.map Prod.fst) := by
    obtain ⟨e,he⟩ := List.exists_mem_of_ne_nil t h.1
    obtain ⟨n,hn⟩ := Option.isSome_iff_exists.mp (h.2 e he)
    have hle := le_largestIndex (List.mem_map_of_mem he) hn
    have hone := (index_eq_some.mp hn).1
    omega
  have hall : decide (∀ e ∈ t, e.1.index.isSome) = true := decide_eq_true h.2
  have hpos' : (0 : ℤ) < largestIndex (t.map Prod.fst) := by omega
  rw [allocateJson,allocateTable,tableShape hsimple]
  simp only [hall,hpos',Bool.not_true,Bool.not_false,decide_true,Bool.and_self,if_true,Int.toNat_natCast]

theorem allocateJson_object (hsimple : ∀ e ∈ t, e.1.Simple) (h : ¬(t ≠ [] ∧ ∀ e ∈ t, e.1.index.isSome)) :
    allocateJson F room (.table t) =
      allocatedFields F [] (allocateEntries F room t) >>= fun fields => done (.object fields) := by
  rw [allocateJson,allocateTable,tableShape hsimple]
  cases t with
  | nil =>
    rw [allocateEntries]
    rfl
  | cons e t =>
    have hall : decide (∀ e' ∈ e::t, e'.1.index.isSome) = false :=
      decide_eq_false fun hall => h ⟨List.cons_ne_nil _ _,hall⟩
    rw [allocateEntries_map,List.map_cons]
    simp only [hall,Bool.not_false,Bool.not_true,Bool.false_and,Bool.false_eq_true,if_false]
    rfl

/-- A table of an array is kept where there is room for it. -/
theorem faithful_array_iff (hnodup : (t.map Prod.fst).Nodup) (hsimple : ∀ e ∈ t, e.1.Simple)
    (hvalues : ∀ e ∈ t, ∃ j, allocateJson F room e.2 = done j) (h : t ≠ [] ∧ ∀ e ∈ t, e.1.index.isSome) :
    Faithful F room t ↔ room (largestIndex (t.map Prod.fst)) = true := by
  rw [Faithful,allocateJson_array hsimple h]
  cases hroom : room (largestIndex (t.map Prod.fst)) with
  | false =>
    refine iff_of_false ?_ Bool.false_ne_true
    rintro (⟨e,he⟩ | ⟨j,hj,-⟩)
    · cases he
    · cases hj
  | true =>
    refine iff_of_true (.inr ?_) rfl
    have hlookup : ∀ k, (allocateEntries F room t).lookup k = (t.lookup k).map (allocateJson F room) := by
      intro k
      rw [allocateEntries_map]
      exact Entries.lookup_map_snd _ t k
    have hfound : ∀ i ∈ List.range (largestIndex (t.map Prod.fst)),
        ∃ j, ((allocateEntries F room t).lookup (.integer (i+1))).getD (done .null) = done j := by
      intro i _
      rw [hlookup]
      cases hv : t.lookup (.integer (i+1)) with
      | none => exact ⟨.null,rfl⟩
      | some v => exact hvalues _ (Entries.mem_of_lookup hv)
    obtain ⟨items,hitems,hall⟩ := allocatedItems_forall₂ hfound
    have hat : ∀ i j, items[i]? = some j →
        ((t.lookup (.integer (i+1 : ℕ))).map (allocateJson F room)).getD (done .null) = done j := by
      intro i j hj
      obtain ⟨hi,rfl⟩ := List.getElem?_eq_some_iff.mp hj
      have hi' := (List.forall₂_iff_get.mp hall).2 i (hall.length_eq ▸ hi) hi
      rw [hlookup] at hi'
      simpa using hi'
    refine ⟨.array items,by rw [if_pos rfl,hitems,done_bind],.array ?_ ?_ ?_⟩
    · intro e he
      obtain ⟨n,hn⟩ := Option.isSome_iff_exists.mp (h.2 e he)
      have hle := le_largestIndex (List.mem_map_of_mem he) hn
      obtain ⟨hone,hkey⟩ := index_eq_some.mp hn
      obtain ⟨i,rfl⟩ := Nat.exists_eq_add_of_le' hone
      have hi : i < items.length := by
        rw [← hall.length_eq,List.length_range]
        omega
      refine ⟨i,items[i],hkey,List.getElem?_eq_getElem hi,?_⟩
      have hi' := hat i _ (List.getElem?_eq_getElem hi)
      have hv : t.lookup (.integer (i+1 : ℕ)) = some e.2 :=
        (Entries.lookup_eq_some_iff_mem hnodup).mpr (hkey ▸ he)
      rw [hv] at hi'
      exact hi'
    · intro i j hj hnot
      have hi' := hat i j hj
      have hv : t.lookup (.integer (i+1 : ℕ)) = none := by
        rw [List.lookup_eq_none_iff]
        intro e he
        rw [bne_iff_ne]
        intro heq
        exact hnot (heq ▸ List.mem_map_of_mem he)
      rw [hv] at hi'
      exact (done_injective hi').symm
    · intro i hi
      rw [← hall.length_eq,List.length_range] at hi
      obtain ⟨k,hk,hindex⟩ := exists_largestIndex (Nat.zero_lt_of_lt hi)
      obtain ⟨hone,hkey⟩ := index_eq_some.mp hindex
      obtain ⟨n,hn⟩ := Nat.exists_eq_add_of_le' hone
      rw [hn] at hi hkey
      exact ⟨n,Nat.le_of_lt_succ hi,hkey ▸ hk⟩

theorem map_keyText {fields : List (String × JsonValue φ)}
    (h : List.Forall₂ (fun e f => keyText F e.1 = .ok f.1 ∧ allocateJson F room e.2 = done f.2) t fields) :
    t.map (fun e => keyText F e.1) = (fields.map Prod.fst).map .ok := by
  induction h with
  | nil => rfl
  | cons he _ ih => rw [List.map_cons,List.map_cons,List.map_cons,he.1,ih]

omit [DecidableEq φ] in
/-- The texts of keys that are not written alike differ. -/
theorem nodup_keyText (hnodup : (t.map Prod.fst).Nodup) (hsimple : ∀ e ∈ t, e.1.Simple)
    (hkeys : ∀ e ∈ t, ∃ text, keyText F e.1 = .ok text) (h : ∀ e ∈ t, ∀ e' ∈ t, ¬Alike e.1 e'.1) :
    (t.map fun e => keyText F e.1).Nodup := by
  refine List.Nodup.map_on (fun e he e' he' heq => ?_) (List.Nodup.of_map _ hnodup)
  obtain ⟨text,htext⟩ := hkeys e he
  obtain hsame | halike | halike := keyText_eq (hsimple e he) (hsimple e' he') htext (heq ▸ htext)
  · exact List.inj_on_of_nodup_map hnodup he he' hsame
  · exact absurd halike (h e he e' he')
  · exact absurd halike (h e' he' e he)

/-- Another table is kept where no two keys are written alike, or a key is no text and so an error. -/
theorem faithful_object_iff (hnodup : (t.map Prod.fst).Nodup) (hsimple : ∀ e ∈ t, e.1.Simple)
    (hvalues : ∀ e ∈ t, ∃ j, allocateJson F room e.2 = done j) (h : ¬(t ≠ [] ∧ ∀ e ∈ t, e.1.index.isSome)) :
    Faithful F room t ↔
      (∃ e ∈ t, ∃ s, e.1 = .string s ∧ ofUtf8 s = none) ∨ ∀ e ∈ t, ∀ e' ∈ t, ¬Alike e.1 e'.1 := by
  rw [Faithful,allocateJson_object hsimple h]
  by_cases hkeys : ∀ e ∈ t, ∃ text, keyText F e.1 = .ok text
  · obtain ⟨listed,hlisted,hfields⟩ := allocatedFields_done [] hkeys hvalues
    have hutf8 : ¬∃ e ∈ t, ∃ s, e.1 = .string s ∧ ofUtf8 s = none := by
      rintro ⟨e,he,s,hs,hnone⟩
      obtain ⟨text,htext⟩ := hkeys e he
      rw [hs,keyText,toStr,hnone] at htext
      cases htext
    have hnil : Entries.Ordered ([] : List (String × JsonValue φ)) := List.Pairwise.nil
    rw [hfields,done_bind,or_iff_right hutf8]
    constructor
    · rintro (⟨err,herr⟩ | ⟨j,hj,heach⟩)
      · exact absurd herr done_ne_fails
      · obtain rfl := done_injective hj
        cases heach with
        | @object _ t' hperm hall =>
          intro e he e' he' halike
          have hordered : Entries.Ordered (listed.foldl (fun o e => Entries.insert e.1 e.2 o) []) :=
            hnil.foldl
          have htexts : (t.map fun e => keyText F e.1).Nodup := by
            rw [← (hperm.map _).nodup_iff,map_keyText hall]
            exact hordered.nodup.map fun a b => Except.ok.inj
          obtain ⟨text,htext⟩ := hkeys e' he'
          have heq : keyText F e.1 = keyText F e'.1 := (halike.keyText_eq htext).trans htext.symm
          exact halike.ne (congrArg Prod.fst (List.inj_on_of_nodup_map htexts he he' heq))
    · intro hno
      have hnames : ((listed++[]).map Prod.fst).Nodup := by
        have htexts := nodup_keyText hnodup hsimple hkeys hno
        rw [map_keyText hlisted] at htexts
        rw [List.append_nil]
        exact List.Nodup.of_map _ htexts
      obtain ⟨-,hperm⟩ := Entries.Ordered.foldl_insert hnil hnames
      rw [List.append_nil] at hperm
      obtain ⟨t',ht',hall⟩ : Relation.Comp List.Perm (List.Forall₂ _) t _ := by
        rw [← List.forall₂_comp_perm_eq_perm_comp_forall₂]
        exact ⟨_,hlisted,hperm.symm⟩
      exact .inr ⟨_,rfl,.object ht'.symm hall⟩
  · push Not at hkeys
    obtain ⟨e,he,hno⟩ := hkeys
    obtain ⟨err,herr⟩ : ∃ err, keyText F e.1 = .error err := by
      cases htext : keyText F e.1 with
      | ok text => exact absurd htext (hno text)
      | error err => exact ⟨err,rfl⟩
    obtain ⟨err',herr'⟩ := allocatedFields_fails [] ⟨e,he,err,herr⟩ hvalues
    rw [herr',fails_bind]
    exact iff_of_true (.inl ⟨err',rfl⟩) (.inl ⟨e,he,keyText_eq_error (hsimple e he) herr⟩)

/-- What `json.encode` makes of a table has all of it, or is an error, if and only if the table is writable. -/
theorem encode_faithful_iff (F : Floats φ) (room : ℕ → Bool) (t : List (LuaKey φ × LuaValue φ))
    (hnodup : (t.map Prod.fst).Nodup) (hsimple : ∀ e ∈ t, e.1.Simple)
    (hvalues : ∀ e ∈ t, ∃ j, allocateJson F room e.2 = done j) : Faithful F room t ↔ Writable room t := by
  unfold Writable
  split_ifs with h
  · exact faithful_array_iff hnodup hsimple hvalues h
  · exact faithful_object_iff hnodup hsimple hvalues h

end Kept

/-- A vector of values of 32 bytes has a capacity of less than 2^63 bytes. -/
def vecRoom (n : ℕ) : Bool := n*32 < 2^63

/-- Two entries with a hole between them. -/
theorem encode_faithful_one : Faithful wholeFloats vecRoom [(.integer 3,.boolean true),(.integer 1,.boolean false)] ↔
    Writable vecRoom [((.integer 3 : LuaKey ℤ),.boolean true),(.integer 1,.boolean false)] := by
  refine encode_faithful_iff _ _ _ (by simp) ?_ ?_
  · simp [LuaKey.Simple]
  · have hvalue : ∀ b, ∃ j, allocateJson wholeFloats vecRoom (.boolean b) = done j :=
      fun b => ⟨.bool b,by rw [allocateJson]⟩
    simpa using ⟨hvalue true,hvalue false⟩

/-- The keys `1` and `"1"` of a table that is no array are one member, and a key of 2^62 alone is not allocated. -/
theorem encode_loses_entries :
    ¬Faithful wholeFloats vecRoom [(.integer 1,.boolean true),(.string (utf8 "1"),.boolean false)] ∧
      ¬Faithful wholeFloats vecRoom [(.integer (2^62),.boolean true)] := by
  have hvalues : ∀ b, ∃ j, allocateJson wholeFloats vecRoom (.boolean b) = done j := by
    intro b
    exact ⟨.bool b,by rw [allocateJson]⟩
  constructor
  · rw [faithful_object_iff (by simp) (by simp [LuaKey.Simple]) (by simpa using ⟨hvalues true,hvalues false⟩)
      (by simp [LuaKey.index])]
    rintro (⟨e,he,s,hs,hnone⟩ | hno)
    · rw [List.mem_cons,List.mem_singleton] at he
      obtain rfl | rfl := he
      · cases hs
      · obtain rfl := LuaKey.string.inj hs
        rw [ofUtf8_utf8] at hnone
        cases hnone
    · exact hno _ List.mem_cons_self _ (List.mem_cons_of_mem _ List.mem_cons_self) rfl
  · rw [faithful_array_iff (by simp) (by simp [LuaKey.Simple]) (by simpa using hvalues true)
      (by simp [LuaKey.index])]
    decide +kernel

end Provium.Lua
