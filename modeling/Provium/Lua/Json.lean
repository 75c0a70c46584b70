import Provium.Fixture.Scan
import Provium.Lib.Entries

/-! The `json` global of Lua, `json_ud.rs`: what `decode` makes of a JSON value, and how `encode` guesses from
the keys of a table whether it is an array or an object. -/
namespace Provium.Lua
open Lib Provium.Fixture

/-- What is used of `f64`. -/
structure Floats (φ : Type) where
  finite : φ → Bool
  /-- `fract() == 0.0` -/
  whole : φ → Bool
  atLeastOne : φ → Bool
  /-- `as i64` -/
  toI64 : φ → ℤ
  text : φ → String
  ofInt : ℤ → φ

/-- `serde_json::Number`: an `i64`, a `u64` or an `f64`. -/
inductive JsonNumber (φ : Type) where
  | int (i : ℤ)
  | float (f : φ)
  deriving DecidableEq

namespace JsonNumber
variable {φ : Type}

def asI64 : JsonNumber φ → Option ℤ
  | .int i => if -2^63 ≤ i ∧ i < 2^63 then some i else none
  | .float _ => none

def asU64 : JsonNumber φ → Option ℤ
  | .int i => if 0 ≤ i ∧ i < 2^64 then some i else none
  | .float _ => none

def asF64 (F : Floats φ) : JsonNumber φ → φ
  | .int i => F.ofInt i
  | .float f => f

end JsonNumber

/-- `serde_json::Value`. The fields of an object are kept in the order of their keys. -/
inductive JsonValue (φ : Type) where
  | null
  | bool (b : Bool)
  | number (n : JsonNumber φ)
  | string (s : String)
  | array (items : List (JsonValue φ))
  | object (fields : List (String × JsonValue φ))

/-- A key of a table. What is neither a boolean, a number nor a string is a key by its identity. -/
inductive LuaKey (φ : Type) where
  | boolean (b : Bool)
  | integer (i : ℤ)
  | number (f : φ)
  | string (s : Bytes)
  | other (typeName : String) (identity : ℕ)
  deriving DecidableEq

/-- A Lua value without cycles. The entries of a table are listed as `pairs` finds them. -/
inductive LuaValue (φ : Type) where
  | nil
  | boolean (b : Bool)
  | integer (i : ℤ)
  | number (f : φ)
  | string (s : Bytes)
  | table (entries : List (LuaKey φ × LuaValue φ))
  | other (typeName : String)

/-- The order in which `pairs` finds what was put into a table. -/
structure Arrangement (φ : Type) where
  arrange : List (LuaKey φ × LuaValue φ) → List (LuaKey φ × LuaValue φ)
  perm : ∀ entries, (arrange entries).Perm entries

/-- `serde_json::to_string` and `from_str`. -/
structure Serde (φ : Type) where
  toText : JsonValue φ → String
  fromText : String → Except String (JsonValue φ)

inductive JsonError where
  | external (message : String)
  | notUtf8 (s : Bytes)
  deriving DecidableEq

variable {φ : Type}

namespace LuaValue

def isNil : LuaValue φ → Bool
  | .nil => true
  | _ => false

end LuaValue

namespace JsonValue

def isNull : JsonValue φ → Bool
  | .null => true
  | _ => false

end JsonValue

section Decode
variable [DecidableEq φ] (F : Floats φ) (A : Arrangement φ)

/-- `raw_set` -/
def rawSet (t : List (LuaKey φ × LuaValue φ)) (k : LuaKey φ) (v : LuaValue φ) : List (LuaKey φ × LuaValue φ) :=
  t.filter (·.1 ≠ k)++if v.isNil then [] else [(k,v)]

def numberToLua (n : JsonNumber φ) : LuaValue φ :=
  match n.asI64 with
  | some i => .integer i
  | none => match n.asU64 with
    | some u => .integer (u-2^64)
    | none => .number (n.asF64 F)

mutual

def jsonToLua : JsonValue φ → LuaValue φ
  | .null => .nil
  | .bool b => .boolean b
  | .number n => numberToLua F n
  | .string s => .string (utf8 s)
  | .array items => .table (A.arrange (setItems [] 0 items))
  | .object fields => .table (A.arrange (setFields [] fields))

/-- The loop over the elements of an array, from a number on. -/
def setItems (t : List (LuaKey φ × LuaValue φ)) : ℕ → List (JsonValue φ) → List (LuaKey φ × LuaValue φ)
  | _,[] => t
  | i,v::items => setItems (rawSet t (.integer (i+1)) (jsonToLua v)) (i+1) items

/-- The loop over the fields of an object. -/
def setFields (t : List (LuaKey φ × LuaValue φ)) : List (String × JsonValue φ) → List (LuaKey φ × LuaValue φ)
  | [] => t
  | (k,v)::fields => if v.isNull then setFields t fields else
      setFields (rawSet t (.string (utf8 k)) (jsonToLua v)) fields

end

/-- `json.decode` -/
def jsonDecode (serde : Serde φ) (s : String) : Except JsonError (LuaValue φ) :=
  match serde.fromText s with
  | .ok v => .ok (jsonToLua F A v)
  | .error e => .error (.external e)

end Decode

section Encode
variable [DecidableEq φ] (F : Floats φ)

/-- `to_str` -/
def toStr (s : Bytes) : Except JsonError String :=
  match ofUtf8 s with
  | some s => .ok s
  | none => .error (.notUtf8 s)

/-- The first pass over a table: the largest positive integer among the keys, and whether there are others. -/
def keyShape (shape : ℤ × Bool) (k : LuaKey φ) : ℤ × Bool :=
  match k with
  | .integer i => if 1 ≤ i then (max shape.1 i,shape.2) else (shape.1,true)
  | .number f => if F.whole f ∧ F.atLeastOne f ∧ F.finite f then (max shape.1 (F.toI64 f),shape.2) else (shape.1,true)
  | _ => (shape.1,true)

def keyText : LuaKey φ → Except JsonError String
  | .string s => toStr s
  | .integer i => .ok (toString i)
  | .number f => .ok (if F.whole f ∧ F.finite f then toString (F.toI64 f) else F.text f)
  | .boolean b => .ok (toString b)
  | .other typeName _ => .error (.external
      ("json.encode: table key must be string, number, or boolean (got `"++typeName++"`)"))

/-- The values of the keys from one on, `nil` where there is none. -/
def arrayItems (t : List (LuaKey φ × Except JsonError (JsonValue φ))) :
    List ℕ → Except JsonError (List (JsonValue φ))
  | [] => .ok []
  | i::is => do
    let v ← (t.lookup (.integer (i+1))).getD (.ok .null)
    let items ← arrayItems t is
    return v::items

/-- The second pass over a table that is no array. -/
def objectFields (obj : List (String × JsonValue φ)) :
    List (LuaKey φ × Except JsonError (JsonValue φ)) → Except JsonError (List (String × JsonValue φ))
  | [] => .ok obj
  | (k,v)::t => do
    let text ← keyText F k
    let v ← v
    objectFields (Entries.insert text v obj) t

/-- `table_to_json`, of a table whose values are given by what `lua_to_json` makes of them. -/
def tableToJson (t : List (LuaKey φ × Except JsonError (JsonValue φ))) : Except JsonError (JsonValue φ) :=
  let shape := (t.map Prod.fst).foldl (keyShape F) (0,false)
  if !shape.2 && 0 < shape.1 then (arrayItems t (List.range shape.1.toNat)).map .array
  else if t.isEmpty then .ok (.object [])
  else (objectFields F [] t).map .object

mutual

def luaToJson : LuaValue φ → Except JsonError (JsonValue φ)
  | .nil => .ok .null
  | .boolean b => .ok (.bool b)
  | .integer i => .ok (.number (.int i))
  | .number f => .ok (if F.finite f then .number (.float f) else .null)
  | .string s => (toStr s).map .string
  | .table t => tableToJson F (entriesToJson t)
  | .other typeName => .error (.external ("json.encode: unsupported value type `"++typeName++"`"))

def entriesToJson : List (LuaKey φ × LuaValue φ) → List (LuaKey φ × Except JsonError (JsonValue φ))
  | [] => []
  | (k,v)::t => (k,luaToJson v)::entriesToJson t

end

/-- `json.encode` -/
def jsonEncode (serde : Serde φ) (v : LuaValue φ) : Except JsonError String :=
  (luaToJson F v).map serde.toText

end Encode

/-! ## The values that round trips are about -/

/-- Equality of values, tables by what is found in them. -/
inductive LuaValue.Same [DecidableEq φ] : LuaValue φ → LuaValue φ → Prop
  | nil : Same .nil .nil
  | boolean (b : Bool) : Same (.boolean b) (.boolean b)
  | integer (i : ℤ) : Same (.integer i) (.integer i)
  | number (f : φ) : Same (.number f) (.number f)
  | string (s : Bytes) : Same (.string s) (.string s)
  | table {t t' : List (LuaKey φ × LuaValue φ)} (hkeys : ∀ k, (t.lookup k).isSome = (t'.lookup k).isSome)
    (hvalues : ∀ k v v', t.lookup k = some v → t'.lookup k = some v' → Same v v') : Same (.table t) (.table t')

/-- Booleans, 64-bit integers, texts, arrays and objects. -/
inductive LuaValue.Plain : LuaValue φ → Prop
  | boolean (b : Bool) : Plain (.boolean b)
  | integer {i : ℤ} (h : -2^63 ≤ i ∧ i < 2^63) : Plain (.integer i)
  | string (s : String) : Plain (.string (utf8 s))
  | array {t : List (LuaKey φ × LuaValue φ)} (n : ℕ) (hn : 0 < n)
    (hkeys : (t.map Prod.fst).Perm ((List.range n).map fun i : ℕ => .integer (i+1)))
    (hvalues : ∀ e ∈ t, Plain e.2) : Plain (.table t)
  | object {t : List (LuaKey φ × LuaValue φ)} (hkeys : ∀ e ∈ t, ∃ s, e.1 = .string (utf8 s))
    (hnodup : (t.map Prod.fst).Nodup) (hvalues : ∀ e ∈ t, Plain e.2) : Plain (.table t)

/-- No null, no empty array, and no number but 64-bit integers. -/
inductive JsonValue.Plain : JsonValue φ → Prop
  | bool (b : Bool) : Plain (.bool b)
  | number {i : ℤ} (h : -2^63 ≤ i ∧ i < 2^63) : Plain (.number (.int i))
  | string (s : String) : Plain (.string s)
  | array {items : List (JsonValue φ)} (hne : items ≠ []) (hitems : ∀ v ∈ items, Plain v) : Plain (.array items)
  | object {fields : List (String × JsonValue φ)} (hkeys : Entries.Ordered fields)
    (hfields : ∀ e ∈ fields, Plain e.2) : Plain (.object fields)

/-! ## Tables -/

section Tables

/-- The table of an array, in its order. -/
def numbered {α : Type} (vs : List α) : List (LuaKey φ × α) := vs.mapIdx fun i v => (.integer (i+1),v)

/-- The table of an object. -/
def named {α : Type} (fields : List (String × α)) : List (LuaKey φ × α) :=
  fields.map fun e => (.string (utf8 e.1),e.2)

variable {α : Type} {vs : List α} {fields : List (String × α)}

theorem numbered_keys (vs : List α) : (numbered vs : List (LuaKey φ × α)).map Prod.fst =
    (List.range vs.length).map fun i : ℕ => .integer (i+1) := by
  apply List.ext_getElem
  · simp [numbered]
  · intro i _ _
    simp [numbered]

theorem numbered_nodup (vs : List α) : ((numbered vs : List (LuaKey φ × α)).map Prod.fst).Nodup := by
  rw [numbered_keys]
  refine List.nodup_range.map fun i j h => ?_
  simpa using h

theorem lookup_numbered [DecidableEq φ] (vs : List α) (i : ℕ) :
    (numbered vs : List (LuaKey φ × α)).lookup (.integer (i+1)) = vs[i]? := by
  apply Option.ext
  intro v
  rw [Entries.lookup_eq_some_iff_mem (numbered_nodup vs)]
  simp only [numbered,List.mem_mapIdx,Prod.mk.injEq,LuaKey.integer.injEq,List.getElem?_eq_some_iff]
  constructor
  · rintro ⟨j,hj,hkey,rfl⟩
    obtain rfl : j = i := by omega
    exact ⟨hj,rfl⟩
  · rintro ⟨hi,rfl⟩
    exact ⟨i,hi,rfl,rfl⟩

theorem named_nodup (h : (fields.map Prod.fst).Nodup) :
    ((named fields : List (LuaKey φ × α)).map Prod.fst).Nodup := by
  have hkeys : (named fields : List (LuaKey φ × α)).map Prod.fst =
      (fields.map Prod.fst).map fun s => .string (utf8 s) := by simp [named]
  rw [hkeys]
  refine h.map fun a b hab => utf8_injective ?_
  simpa using hab

theorem rawSet_fresh [DecidableEq φ] {t : List (LuaKey φ × LuaValue φ)} {k : LuaKey φ} {v : LuaValue φ}
    (hk : k ∉ t.map Prod.fst) (hv : ¬v.isNil) : rawSet t k v = t++[(k,v)] := by
  have hfilter : t.filter (·.1 ≠ k) = t := by
    refine List.filter_eq_self.mpr fun e he => ?_
    rw [decide_eq_true_eq]
    rintro rfl
    exact hk (List.mem_map_of_mem he)
  simp only [rawSet,hfilter,hv]
  rfl

end Tables

/-! ## Decoding -/

section Decoding
variable [DecidableEq φ] {F : Floats φ} {A : Arrangement φ}

theorem setItems_eq (t : List (LuaKey φ × LuaValue φ)) (i : ℕ) (items : List (JsonValue φ))
    (ht : ∀ j, i ≤ j → .integer (j+1) ∉ t.map Prod.fst) (hitems : ∀ v ∈ items, ¬(jsonToLua F A v).isNil) :
    setItems F A t i items = t++items.mapIdx fun j v => (.integer ((i+j : ℕ)+1),jsonToLua F A v) := by
  induction items generalizing t i with
  | nil => simp [setItems]
  | cons v items ih =>
    have hnil := hitems v List.mem_cons_self
    rw [setItems,rawSet_fresh (ht i le_rfl) hnil,ih]
    · rw [List.mapIdx_cons,List.append_assoc,List.singleton_append]
      have hshift : ∀ j : ℕ, i+1+j = i+(j+1) := by omega
      simp only [hshift,Nat.add_zero]
    · intro j hj hin
      rw [List.map_append,List.mem_append] at hin
      obtain hin | hin := hin
      · exact ht j (by omega) hin
      · simp only [List.map_cons,List.map_nil,List.mem_singleton,LuaKey.integer.injEq] at hin
        omega
    · exact fun v hv => hitems v (List.mem_cons_of_mem _ hv)

theorem jsonToLua_array {items : List (JsonValue φ)} (hitems : ∀ v ∈ items, ¬(jsonToLua F A v).isNil) :
    jsonToLua F A (.array items) = .table (A.arrange (numbered (items.map (jsonToLua F A)))) := by
  rw [jsonToLua,setItems_eq [] 0 items (fun _ _ h => by cases h) hitems]
  have hsame : (items.mapIdx fun j v => ((.integer ((0+j : ℕ)+1) : LuaKey φ),jsonToLua F A v)) =
      numbered (items.map (jsonToLua F A)) := by
    apply List.ext_getElem
    · simp [numbered]
    · intro i _ _
      simp [numbered]
  rw [hsame,List.nil_append]

theorem isNil_of_isNull {v : JsonValue φ} (h : v.isNull) : (jsonToLua F A v).isNil := by
  cases v with
  | null =>
    rw [jsonToLua]
    rfl
  | _ => cases h

theorem setFields_eq (t : List (LuaKey φ × LuaValue φ)) (fields : List (String × JsonValue φ))
    (hkeys : (t.map Prod.fst++fields.map fun e => (.string (utf8 e.1) : LuaKey φ)).Nodup)
    (hfields : ∀ e ∈ fields, ¬(jsonToLua F A e.2).isNil) :
    setFields F A t fields = t++fields.map fun e => (.string (utf8 e.1),jsonToLua F A e.2) := by
  induction fields generalizing t with
  | nil => simp [setFields]
  | cons e fields ih =>
    obtain ⟨k,v⟩ := e
    have hnil := hfields (k,v) List.mem_cons_self
    have hnew : LuaKey.string (utf8 k) ∉ t.map Prod.fst := by
      intro hin
      rw [List.map_cons,List.nodup_middle,List.nodup_cons] at hkeys
      exact hkeys.1 (List.mem_append_left _ hin)
    rw [setFields,if_neg fun hnull => hnil (isNil_of_isNull hnull),rawSet_fresh hnew hnil,ih]
    · rw [List.map_cons,List.append_assoc,List.singleton_append]
    · rw [List.map_append,List.append_assoc]
      exact hkeys
    · exact fun e he => hfields e (List.mem_cons_of_mem _ he)

theorem jsonToLua_object {fields : List (String × JsonValue φ)} (hkeys : (fields.map Prod.fst).Nodup)
    (hfields : ∀ e ∈ fields, ¬(jsonToLua F A e.2).isNil) : jsonToLua F A (.object fields) =
      .table (A.arrange (named (fields.map fun e => (e.1,jsonToLua F A e.2)))) := by
  have hnodup : (fields.map fun e => (.string (utf8 e.1) : LuaKey φ)).Nodup := by
    have h : ((named fields : List (LuaKey φ × JsonValue φ)).map Prod.fst).Nodup := named_nodup hkeys
    rw [named,List.map_map] at h
    exact h
  rw [jsonToLua,setFields_eq [] fields hnodup hfields,List.nil_append,named,List.map_map]
  rfl

end Decoding

/-! ## Encoding -/

section Encoding
variable {F : Floats φ}

/-- The keys may come in any order. -/
theorem keyShape_comm (shape : ℤ × Bool) (a b : LuaKey φ) :
    keyShape F (keyShape F shape a) b = keyShape F (keyShape F shape b) a := by
  have hmax : ∀ x y z : ℤ, max (max x y) z = max (max x z) y := fun x y z => max_right_comm x y z
  cases a <;> cases b <;> simp only [keyShape] <;> split_ifs <;> simp only [hmax]

theorem foldl_keyShape_range (n : ℕ) :
    ((List.range n).map fun i : ℕ => (.integer (i+1) : LuaKey φ)).foldl (keyShape F) (0,false) = ((n : ℤ),false) := by
  induction n with
  | zero => rfl
  | succ n ih =>
    rw [List.range_succ,List.map_append,List.foldl_append,ih]
    have hone : (1 : ℤ) ≤ n+1 := by omega
    simp [keyShape,hone]

/-- A key that is a string tells that the table is no array. -/
theorem foldl_keyShape_string {keys : List (LuaKey φ)} (h : ∀ k ∈ keys, ∃ s, k = .string s) (shape : ℤ × Bool) :
    keys.foldl (keyShape F) shape = (shape.1,shape.2 || !keys.isEmpty) := by
  induction keys generalizing shape with
  | nil => simp
  | cons k keys ih =>
    obtain ⟨s,rfl⟩ := h k List.mem_cons_self
    rw [List.foldl_cons,ih fun k hk => h k (List.mem_cons_of_mem _ hk)]
    simp [keyShape]

theorem toStr_utf8 (s : String) : toStr (utf8 s) = .ok s := by
  unfold toStr
  rw [ofUtf8_utf8]

theorem objectFields_eq (obj fields : List (String × JsonValue φ)) :
    objectFields F obj (fields.map fun e => (.string (utf8 e.1),.ok e.2)) =
      .ok (fields.foldl (fun o e => Entries.insert e.1 e.2 o) obj) := by
  induction fields generalizing obj with
  | nil => rfl
  | cons e fields ih =>
    rw [List.map_cons,objectFields,keyText,toStr_utf8,List.foldl_cons,← ih]
    rfl

variable [DecidableEq φ]

theorem entriesToJson_eq (t : List (LuaKey φ × LuaValue φ)) :
    entriesToJson F t = t.map fun e => (e.1,luaToJson F e.2) := by
  induction t with
  | nil => rw [entriesToJson,List.map_nil]
  | cons e t ih => rw [entriesToJson,List.map_cons,ih]

theorem arrayItems_eq {t : List (LuaKey φ × Except JsonError (JsonValue φ))} {f : ℕ → JsonValue φ} {is : List ℕ}
    (h : ∀ i ∈ is, t.lookup (.integer (i+1)) = some (.ok (f i))) : arrayItems t is = .ok (is.map f) := by
  induction is with
  | nil => rfl
  | cons i is ih =>
    rw [arrayItems,h i List.mem_cons_self,ih fun i hi => h i (List.mem_cons_of_mem _ hi)]
    rfl

/-- A table with the keys of an array is encoded as one. -/
theorem luaToJson_numbered {t : List (LuaKey φ × LuaValue φ)} {vs : List (LuaValue φ)} {items : List (JsonValue φ)}
    (ht : t.Perm (numbered vs)) (hne : vs ≠ [])
    (hitems : List.Forall₂ (fun v j => luaToJson F v = .ok j) vs items) :
    luaToJson F (.table t) = .ok (.array items) := by
  have hlength := hitems.length_eq
  have hshape : (t.map Prod.fst).foldl (keyShape F) (0,false) = ((vs.length : ℤ),false) := by
    rw [(ht.map Prod.fst).foldl_eq' fun a _ b _ shape => keyShape_comm shape a b,numbered_keys,
      foldl_keyShape_range]
  have hkeys : (entriesToJson F t).map Prod.fst = t.map Prod.fst := by
    rw [entriesToJson_eq,List.map_map]
    rfl
  have hfound : ∀ i ∈ List.range vs.length,
      (entriesToJson F t).lookup (.integer (i+1)) = some (.ok (items.getD i .null)) := by
    intro i hi
    have hi := List.mem_range.mp hi
    rw [entriesToJson_eq,Entries.lookup_map_snd,Entries.lookup_perm (numbered_nodup vs) ht.symm,lookup_numbered,
      List.getElem?_eq_getElem hi,List.getD_eq_getElem _ _ (hlength ▸ hi)]
    exact congrArg some (List.forall₂_iff_get.mp hitems |>.2 i hi (hlength ▸ hi))
  have hall : (List.range vs.length).map (fun i => items.getD i .null) = items := by
    apply List.ext_getElem
    · simp [hlength]
    · intro i _ hi
      simp [hi]
  have hpos : (0 : ℤ) < vs.length := by
    have := List.length_pos_iff.mpr hne
    omega
  rw [luaToJson,tableToJson,hkeys,hshape]
  simp only [Bool.not_false,Bool.true_and,hpos,decide_true,if_true,Int.toNat_natCast]
  rw [arrayItems_eq hfound,hall]
  rfl

theorem named_toJson {vs : List (String × LuaValue φ)} {fields : List (String × JsonValue φ)}
    (h : List.Forall₂ (fun v e => v.1 = e.1 ∧ luaToJson F v.2 = .ok e.2) vs fields) :
    (named vs : List (LuaKey φ × LuaValue φ)).map (fun e => (e.1,luaToJson F e.2)) =
      fields.map fun e => (.string (utf8 e.1),.ok e.2) := by
  rw [named,List.map_map]
  induction h with
  | nil => rfl
  | cons hv _ ih => rw [List.map_cons,List.map_cons,ih,Function.comp_apply,hv.1,hv.2]

/-- A table with strings for keys is encoded as an object, whose fields are in order. -/
theorem luaToJson_named {t : List (LuaKey φ × LuaValue φ)} {vs : List (String × LuaValue φ)}
    {fields : List (String × JsonValue φ)} (ht : t.Perm (named vs)) (hnodup : (vs.map Prod.fst).Nodup)
    (hfields : List.Forall₂ (fun v e => v.1 = e.1 ∧ luaToJson F v.2 = .ok e.2) vs fields) :
    ∃ ordered, luaToJson F (.table t) = .ok (.object ordered) ∧ Entries.Ordered ordered ∧ ordered.Perm fields := by
  have hvalues := named_toJson hfields
  have hkeys := Entries.map_fst_eq (hfields.imp fun _ _ h => h.1)
  -- the fields as the table lists them
  obtain ⟨listed,hlisted,hperm⟩ : ∃ listed : List (String × JsonValue φ),
      entriesToJson F t = listed.map (fun e => (.string (utf8 e.1),.ok e.2)) ∧ listed.Perm fields := by
    have h := ht.map fun e => (e.1,luaToJson F e.2)
    rw [hvalues,← entriesToJson_eq] at h
    have hcomp := List.eq_map_comp_perm fun e : String × JsonValue φ =>
      ((.string (utf8 e.1),.ok e.2) : LuaKey φ × Except JsonError (JsonValue φ))
    exact (congrFun₂ hcomp (entriesToJson F t) fields).mpr h
  have hstrings : ∀ k ∈ (entriesToJson F t).map Prod.fst, ∃ s, k = .string s := by
    intro k hk
    rw [hlisted,List.map_map] at hk
    obtain ⟨e,-,rfl⟩ := List.mem_map.mp hk
    exact ⟨_,rfl⟩
  obtain ⟨hordered,hsorted⟩ := Entries.Ordered.foldl_insert (show Entries.Ordered [] from List.Pairwise.nil)
    (show ((listed++[]).map Prod.fst).Nodup by
      rw [List.append_nil,(hperm.map Prod.fst).nodup_iff,← hkeys]
      exact hnodup)
  rw [List.append_nil] at hsorted
  refine ⟨_,?_,hordered,hsorted.trans hperm⟩
  rw [luaToJson,tableToJson,foldl_keyShape_string hstrings,hlisted]
  cases listed with
  | nil => rfl
  | cons e listed =>
    rw [objectFields_eq]
    rfl

end Encoding

/-! ## Round trips -/

section Same
variable [DecidableEq φ]

/-- Tables of the same keys and values, found in whatever order. -/
theorem LuaValue.Same.of_perm {t t' u u' : List (LuaKey φ × LuaValue φ)} (ht : t.Perm u) (ht' : t'.Perm u')
    (hu : (u.map Prod.fst).Nodup) (h : List.Forall₂ (fun e e' => e.1 = e'.1 ∧ Same e.2 e'.2) u u') :
    Same (.table t) (.table t') := by
  have hu' : (u'.map Prod.fst).Nodup := by
    rw [← Entries.map_fst_eq (h.imp fun _ _ he => he.1)]
    exact hu
  have hrel : ∀ k, Option.Rel Same (t.lookup k) (t'.lookup k) := by
    intro k
    rw [Entries.lookup_perm hu ht.symm,Entries.lookup_perm hu' ht'.symm]
    exact Entries.lookup_rel h k
  refine .table (fun k => ?_) fun k v v' hv hv' => ?_
  · have hk := hrel k
    generalize t.lookup k = a at hk ⊢
    generalize t'.lookup k = b at hk ⊢
    cases hk with
    | none => rfl
    | some => rfl
  · have hk := hrel k
    rw [hv,hv'] at hk
    cases hk with
    | some h => exact h

theorem LuaValue.Same.isNil {v w : LuaValue φ} (h : Same w v) : w.isNil = v.isNil := by
  cases h with
  | _ => rfl

end Same

theorem exists_forall₂ {α β : Type} {R : α → β → Prop} {as : List α} (h : ∀ a ∈ as, ∃ b, R a b) :
    ∃ bs, List.Forall₂ R as bs := by
  induction as with
  | nil => exact ⟨[],.nil⟩
  | cons a as ih =>
    obtain ⟨b,hb⟩ := h a List.mem_cons_self
    obtain ⟨bs,hbs⟩ := ih fun a ha => h a (List.mem_cons_of_mem _ ha)
    exact ⟨b::bs,.cons hb hbs⟩

theorem LuaValue.Plain.not_isNil {v : LuaValue φ} (h : v.Plain) : ¬v.isNil := by
  cases h with
  | _ => exact Bool.false_ne_true

/-- A table whose keys are those of an array. -/
theorem exists_numbered {t : List (LuaKey φ × LuaValue φ)} {n : ℕ}
    (h : (t.map Prod.fst).Perm ((List.range n).map fun i : ℕ => .integer (i+1))) :
    ∃ vs, t.Perm (numbered vs) ∧ vs.length = n := by
  have hkeys : List.Forall₂ (fun e k => e.1 = k) t (t.map Prod.fst) :=
    List.forall₂_map_right_iff.mpr (List.forall₂_same.mpr fun _ _ => rfl)
  obtain ⟨u,hu,huk⟩ : Relation.Comp List.Perm (List.Forall₂ fun e k => e.1 = k) t _ := by
    rw [← List.forall₂_comp_perm_eq_perm_comp_forall₂]
    exact ⟨_,hkeys,h⟩
  refine ⟨u.map Prod.snd,hu.trans (List.Perm.of_eq ?_),?_⟩
  · apply List.ext_getElem
    · simp [numbered]
    · intro i hi _
      have hkey := List.forall₂_iff_get.mp huk |>.2 i hi (huk.length_eq ▸ hi)
      refine Prod.ext ?_ ?_
      · simpa [numbered] using hkey
      · simp [numbered]
  · have hlength := huk.length_eq
    simpa using hlength

/-- A table whose keys are texts. -/
theorem exists_named {t : List (LuaKey φ × LuaValue φ)} (hkeys : ∀ e ∈ t, ∃ s, e.1 = .string (utf8 s))
    (hnodup : (t.map Prod.fst).Nodup) : ∃ vs, t = named vs ∧ (vs.map Prod.fst).Nodup := by
  have hnames : ∀ e ∈ t, ∃ v : String × LuaValue φ, e = (.string (utf8 v.1),v.2) := by
    intro e he
    obtain ⟨s,hs⟩ := hkeys e he
    exact ⟨(s,e.2),Prod.ext hs rfl⟩
  obtain ⟨vs,hvs⟩ := exists_forall₂ hnames
  have heq : t = named vs := by
    rw [named,← List.forall₂_eq_eq_eq,List.forall₂_map_right_iff]
    exact hvs
  refine ⟨vs,heq,?_⟩
  rw [heq,named,List.map_map] at hnodup
  refine List.Nodup.of_map (fun s => (.string (utf8 s) : LuaKey φ)) ?_
  rw [List.map_map]
  exact hnodup

theorem forall₂_numbered {α β : Type} {R : α → β → Prop} {us : List α} {vs : List β} (h : List.Forall₂ R us vs) :
    List.Forall₂ (fun e e' => e.1 = e'.1 ∧ R e.2 e'.2) (numbered us : List (LuaKey φ × α)) (numbered vs) := by
  rw [List.forall₂_iff_get] at h ⊢
  refine ⟨by simp [numbered,h.1],fun i hi hi' => ?_⟩
  have hR := h.2 i (by simpa [numbered] using hi) (by simpa [numbered] using hi')
  simpa [numbered] using hR

theorem forall₂_named {α β : Type} {R : α → β → Prop} {us : List (String × α)} {vs : List (String × β)}
    (h : List.Forall₂ (fun e e' => e.1 = e'.1 ∧ R e.2 e'.2) us vs) :
    List.Forall₂ (fun e e' => e.1 = e'.1 ∧ R e.2 e'.2) (named us : List (LuaKey φ × α)) (named vs) := by
  rw [named,named,List.forall₂_map_left_iff,List.forall₂_map_right_iff]
  refine h.imp fun e e' he => ⟨?_,he.2⟩
  rw [he.1]

theorem forall₂_mem_right {α β : Type} {R : α → β → Prop} {as : List α} {bs : List β} (h : List.Forall₂ R as bs)
    {b : β} (hb : b ∈ bs) : ∃ a, R a b := by
  induction h with
  | nil => cases hb
  | cons hR _ ih =>
    obtain rfl | hb := List.mem_cons.mp hb
    · exact ⟨_,hR⟩
    · exact ih hb

theorem numberToLua_int {F : Floats φ} {i : ℤ} (h : -2^63 ≤ i ∧ i < 2^63) :
    numberToLua F (.int i) = .integer i := by
  simp only [numberToLua,JsonNumber.asI64,if_pos h]

section RoundTrips
variable [DecidableEq φ] {F : Floats φ} (A : Arrangement φ)

/-- What is encoded is decoded to the same value. -/
theorem LuaValue.Plain.decoded {v : LuaValue φ} (h : v.Plain) :
    ∃ j, luaToJson F v = .ok j ∧ (jsonToLua F A j).Same v := by
  induction h with
  | boolean b => exact ⟨.bool b,by rw [luaToJson],by rw [jsonToLua]; exact .boolean b⟩
  | @integer i h =>
    refine ⟨.number (.int i),by rw [luaToJson],?_⟩
    rw [jsonToLua,numberToLua_int h]
    exact .integer i
  | string s =>
    refine ⟨.string s,?_,by rw [jsonToLua]; exact .string _⟩
    rw [luaToJson,toStr_utf8]
    rfl
  | @array t n hn hkeys hvalues ih =>
    obtain ⟨vs,ht,rfl⟩ := exists_numbered hkeys
    have hvs : ∀ v ∈ vs, ∃ j, luaToJson F v = .ok j ∧ (jsonToLua F A j).Same v ∧ v.Plain := by
      intro v hv
      obtain ⟨i,hi,rfl⟩ := List.mem_iff_getElem.mp hv
      have he := ht.mem_iff.mpr (List.mem_mapIdx.mpr ⟨i,hi,rfl⟩)
      obtain ⟨j,hj,hsame⟩ := ih _ he
      exact ⟨j,hj,hsame,hvalues _ he⟩
    obtain ⟨items,hitems⟩ := exists_forall₂ hvs
    refine ⟨.array items,luaToJson_numbered ht (List.length_pos_iff.mp hn) (hitems.imp fun _ _ h => h.1),?_⟩
    rw [jsonToLua_array fun j hj => ?_]
    · refine .of_perm (A.perm _) ht (numbered_nodup _) (forall₂_numbered ?_)
      rw [List.forall₂_map_left_iff]
      exact (hitems.imp fun _ _ h => h.2.1).flip
    · obtain ⟨v,-,hsame,hv⟩ := forall₂_mem_right hitems hj
      rw [hsame.isNil]
      exact hv.not_isNil
  | @object t hkeys hnodup hvalues ih =>
    obtain ⟨vs,rfl,hvs⟩ := exists_named hkeys hnodup
    have hfield : ∀ v ∈ vs, ∃ e : String × JsonValue φ, v.1 = e.1 ∧
        luaToJson F v.2 = .ok e.2 ∧ (jsonToLua F A e.2).Same v.2 ∧ v.2.Plain := by
      intro v hv
      have he := List.mem_map_of_mem (f := fun e : String × LuaValue φ =>
        ((.string (utf8 e.1),e.2) : LuaKey φ × LuaValue φ)) hv
      obtain ⟨j,hj,hsame⟩ := ih _ he
      exact ⟨(v.1,j),rfl,hj,hsame,hvalues _ he⟩
    obtain ⟨fields,hfields⟩ := exists_forall₂ hfield
    obtain ⟨ordered,hj,hordered,hperm⟩ := luaToJson_named (List.Perm.refl _) hvs
      (hfields.imp fun _ _ h => ⟨h.1,h.2.1⟩)
    refine ⟨.object ordered,hj,?_⟩
    have hnodup' : (fields.map Prod.fst).Nodup := by
      rw [← Entries.map_fst_eq (hfields.imp fun _ _ h => h.1)]
      exact hvs
    rw [jsonToLua_object hordered.nodup fun e he => ?_]
    · refine .of_perm ((A.perm _).trans ((hperm.map _).map _)) (List.Perm.refl _) (named_nodup ?_) (forall₂_named ?_)
      · rw [List.map_map]
        exact hnodup'
      · rw [List.forall₂_map_left_iff]
        exact (hfields.imp fun _ _ h => ⟨h.1.symm,h.2.2.1⟩).flip
    · obtain ⟨v,-,-,hsame,hv⟩ := forall₂_mem_right hfields (hperm.mem_iff.mp he)
      rw [hsame.isNil]
      exact hv.not_isNil

theorem JsonValue.Plain.not_isNil {j : JsonValue φ} (h : j.Plain) : ¬(jsonToLua F A j).isNil := by
  cases h with
  | number h =>
    rw [jsonToLua,numberToLua_int h]
    exact Bool.false_ne_true
  | _ =>
    rw [jsonToLua]
    exact Bool.false_ne_true

/-- What is decoded is encoded to the same value. -/
theorem JsonValue.Plain.encoded {j : JsonValue φ} (h : j.Plain) : luaToJson F (jsonToLua F A j) = .ok j := by
  induction h with
  | bool b => rw [jsonToLua,luaToJson]
  | number h => rw [jsonToLua,numberToLua_int h,luaToJson]
  | string s =>
    rw [jsonToLua,luaToJson,toStr_utf8]
    rfl
  | @array items hne hitems ih =>
    rw [jsonToLua_array fun v hv => (hitems v hv).not_isNil A]
    refine luaToJson_numbered (A.perm _) (by simpa using hne) ?_
    rw [List.forall₂_map_left_iff,List.forall₂_same]
    exact ih
  | @object fields hkeys hfields ih =>
    rw [jsonToLua_object hkeys.nodup fun e he => (hfields e he).not_isNil A]
    have hnodup : ((fields.map fun e => (e.1,jsonToLua F A e.2)).map Prod.fst).Nodup := by
      rw [List.map_map]
      exact hkeys.nodup
    have hback : List.Forall₂ (fun v e => v.1 = e.1 ∧ luaToJson F v.2 = .ok e.2)
        (fields.map fun e => (e.1,jsonToLua F A e.2)) fields := by
      rw [List.forall₂_map_left_iff,List.forall₂_same]
      exact fun e he => ⟨rfl,ih e he⟩
    obtain ⟨ordered,hj,hordered,hperm⟩ := luaToJson_named (A.perm _) hnodup hback
    rw [hj,hordered.eq_of_perm hkeys hperm]

end RoundTrips

/-- What `json.encode` writes of a plain value, and serde reads back, `json.decode` makes the same value; and
of a plain document it makes a value that `json.encode` writes as a document of the same JSON value. -/
theorem json_round_trips [DecidableEq φ] (F : Floats φ) (A : Arrangement φ) (serde : Serde φ) :
    (∀ v : LuaValue φ, v.Plain → (∀ j, luaToJson F v = .ok j → serde.fromText (serde.toText j) = .ok j) →
      ∃ text w, jsonEncode F serde v = .ok text ∧ jsonDecode F A serde text = .ok w ∧ w.Same v) ∧
    ∀ text j, serde.fromText text = .ok j → j.Plain → serde.fromText (serde.toText j) = .ok j →
      ∃ v text', jsonDecode F A serde text = .ok v ∧ jsonEncode F serde v = .ok text' ∧
        serde.fromText text' = .ok j := by
  constructor
  · intro v hv hserde
    obtain ⟨j,hj,hsame⟩ := hv.decoded (F := F) A
    refine ⟨serde.toText j,jsonToLua F A j,?_,?_,hsame⟩
    · unfold jsonEncode
      rw [hj]
      rfl
    · unfold jsonDecode
      rw [hserde j hj]
  · intro text j htext hj hserde
    refine ⟨jsonToLua F A j,serde.toText j,?_,?_,hserde⟩
    · unfold jsonDecode
      rw [htext]
    · unfold jsonEncode
      rw [hj.encoded A]
      rfl

/-- The integers in place of `f64`. -/
def wholeFloats : Floats ℤ := ⟨fun _ => true,fun _ => true,fun f => decide (1 ≤ f),id,toString,id⟩

/-- `pairs` from the end. -/
def reversed : Arrangement ℤ := ⟨List.reverse,fun entries => List.reverse_perm entries⟩

/-- An array with an object in it. -/
def nestedJson : JsonValue ℤ :=
  .array [.number (.int (-9223372036854775808)),.object [("k",.string "é"),("l",.bool true)],.string "x"]

def nestedText : String := "[-9223372036854775808,\x7b\"k\":\"é\",\"l\":true\x7d,\"x\"]"

/-- A serde for this document. -/
def nestedSerde : Serde ℤ where
  toText
    | .array [.number (.int i),.object [(k,.string s),(l,.bool true)],.string t] =>
      if i = -9223372036854775808 ∧ [k,s,l,t] = ["k","é","l","x"] then nestedText else "null"
    | _ => "null"
  fromText s := if s = nestedText then .ok nestedJson else .error "expected value at line 1 column 1"

/-- The table that comes of it, each with its last entry first. -/
def nestedTable : LuaValue ℤ :=
  .table [(.integer 3,.string (utf8 "x")),
    (.integer 2,.table [(.string (utf8 "l"),.boolean true),(.string (utf8 "k"),.string (utf8 "é"))]),
    (.integer 1,.integer (-9223372036854775808))]

theorem plain_nestedTable : nestedTable.Plain := by
  have hobject : (LuaValue.table [(.string (utf8 "l"),.boolean true),
      (.string (utf8 "k"),.string (utf8 "é"))] : LuaValue ℤ).Plain := by
    refine .object ?_ (by decide +kernel) ?_
    · exact List.forall_mem_cons.mpr ⟨⟨"l",rfl⟩,List.forall_mem_cons.mpr ⟨⟨"k",rfl⟩,fun _ h => (nomatch h)⟩⟩
    · exact List.forall_mem_cons.mpr ⟨.boolean true,List.forall_mem_cons.mpr ⟨.string "é",fun _ h => (nomatch h)⟩⟩
  have hkeys : ([.integer 1,.integer 2,.integer 3] : List (LuaKey ℤ)).reverse.Perm
      [.integer 1,.integer 2,.integer 3] := List.reverse_perm _
  refine .array 3 (by decide) hkeys ?_
  exact List.forall_mem_cons.mpr ⟨.string "x",List.forall_mem_cons.mpr ⟨hobject,
    List.forall_mem_cons.mpr ⟨.integer (by decide),fun _ h => (nomatch h)⟩⟩⟩

theorem plain_nestedJson : nestedJson.Plain := by
  have hobject : (JsonValue.object [("k",.string "é"),("l",.bool true)] : JsonValue ℤ).Plain := by
    refine .object ?_ ?_
    · change ["k","l"].Pairwise (· < ·)
      decide +kernel
    · exact List.forall_mem_cons.mpr ⟨.string "é",List.forall_mem_cons.mpr ⟨.bool true,fun _ h => (nomatch h)⟩⟩
  refine .array (List.cons_ne_nil _ _) ?_
  exact List.forall_mem_cons.mpr ⟨.number (by decide),List.forall_mem_cons.mpr ⟨hobject,
    List.forall_mem_cons.mpr ⟨.string "x",fun _ h => (nomatch h)⟩⟩⟩

theorem json_round_trips_list :
    (∃ text w, jsonEncode wholeFloats nestedSerde nestedTable = .ok text ∧
      jsonDecode wholeFloats reversed nestedSerde text = .ok w ∧ w.Same nestedTable) ∧
    ∃ v text', jsonDecode wholeFloats reversed nestedSerde nestedText = .ok v ∧
      jsonEncode wholeFloats nestedSerde v = .ok text' ∧ nestedSerde.fromText text' = .ok nestedJson := by
  obtain ⟨hlua,hjson⟩ := json_round_trips wholeFloats reversed nestedSerde
  have hserde : nestedSerde.fromText (nestedSerde.toText nestedJson) = .ok nestedJson := rfl
  constructor
  · refine hlua _ plain_nestedTable fun j hj => ?_
    have htable : jsonToLua wholeFloats reversed nestedJson = nestedTable := rfl
    have hencoded := plain_nestedJson.encoded (F := wholeFloats) reversed
    rw [htable,hj] at hencoded
    rw [Except.ok.inj hencoded]
    exact hserde
  · exact hjson nestedText nestedJson rfl plain_nestedJson hserde

end Provium.Lua
