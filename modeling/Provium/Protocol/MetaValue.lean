import Provium.Lib.Entries

/-! A test's metadata on the event stream: `MetaValue` of `events.rs`, as it is written and read. `rmp_serde`
writes for each serializer method the type that its name says, an integer in its smallest form, and calls for
each type that it reads the visitor's method for it, at whatever depth; the methods that msgpack has no type
for are left out. -/
namespace Provium.Protocol
open Lib

/-- A float is its bits. -/
inductive MetaValue where
  | null
  | bool (b : Bool)
  | int (i : Int64)
  | float (bits : UInt64)
  | str (t : String)
  | bytes (b : List UInt8)
  | array (items : List MetaValue)
  | map (entries : List (String × MetaValue))

/-- The forms of an integer in msgpack. -/
inductive IntForm where
  | fixPos
  | fixNeg
  | u8
  | u16
  | u32
  | u64
  | i8
  | i16
  | i32
  | i64
  deriving DecidableEq, Repr

/-- A msgpack value. -/
inductive Msg where
  | nil
  | bool (b : Bool)
  | integer (form : IntForm) (n : ℤ)
  | f64 (bits : UInt64)
  | str (t : String)
  | bin (b : List UInt8)
  | array (items : List Msg)
  | map (entries : List (Msg × Msg))

/-! ## Writing -/

/-- The smallest form of an integer, as `write_sint` finds it. -/
def smallestForm (n : ℤ) : IntForm :=
  if -32 ≤ n ∧ n < 0 then .fixNeg
  else if -128 ≤ n ∧ n < -32 then .i8
  else if -32768 ≤ n ∧ n < -128 then .i16
  else if -2147483648 ≤ n ∧ n < -32768 then .i32
  else if n < -2147483648 then .i64
  else if 0 ≤ n ∧ n < 128 then .fixPos
  else if n < 256 then .u8
  else if n < 65536 then .u16
  else if n < 4294967296 then .u32
  else .u64

namespace MetaValue

mutual

def serialize : MetaValue → Msg
  | .null => .nil
  | .bool b => .bool b
  | .int i => .integer (smallestForm i.toInt) i.toInt
  | .float bits => .f64 bits
  | .str t => .str t
  | .bytes b => .bin b
  | .array items => .array (serializeItems items)
  | .map entries => .map (serializeEntries entries)

def serializeItems : List MetaValue → List Msg
  | [] => []
  | v::items => serialize v::serializeItems items

def serializeEntries : List (String × MetaValue) → List (Msg × Msg)
  | [] => []
  | (k,v)::entries => (.str k,serialize v)::serializeEntries entries

end

/-! ## Reading -/

def visitU64 (n : ℕ) : Except String MetaValue :=
  if n < 2^63 then .ok (.int (.ofNat n)) else .error "u64 out of range for MetaValue::Int"

/-- The smaller forms come to the method of their sign. -/
def visitInteger (form : IntForm) (n : ℤ) : Except String MetaValue :=
  match form with
  | .fixPos | .u8 | .u16 | .u32 | .u64 => visitU64 n.toNat
  | .fixNeg | .i8 | .i16 | .i32 | .i64 => .ok (.int (.ofInt n))

/-- A key of a map, which is read as a `String`. -/
def readKey : Msg → Except String String
  | .str t => .ok t
  | .bin b => match String.fromUTF8? ⟨b.toArray⟩ with
    | some t => .ok t
    | none => .error "invalid value: byte array, expected a string"
  | _ => .error "invalid type: expected a string"

mutual

def deserialize : Msg → Except String MetaValue
  | .nil => .ok .null
  | .bool b => .ok (.bool b)
  | .integer form n => visitInteger form n
  | .f64 bits => .ok (.float bits)
  | .str t => .ok (.str t)
  | .bin b => .ok (.bytes b)
  | .array items => (visitSeq items).map .array
  | .map entries => (visitMap [] entries).map .map

def visitSeq : List Msg → Except String (List MetaValue)
  | [] => .ok []
  | m::items => do
    let v ← deserialize m
    let items ← visitSeq items
    return v::items

def visitMap (out : List (String × MetaValue)) : List (Msg × Msg) → Except String (List (String × MetaValue))
  | [] => .ok out
  | (k,m)::entries => do
    let k ← readKey k
    let v ← deserialize m
    visitMap (Entries.insert k v out) entries

end

/-! ## The maps of a value -/

mutual

/-- Every map in the value has its keys in their order, each once, as a `BTreeMap` has. -/
def Ordered : MetaValue → Prop
  | .array items => OrderedItems items
  | .map entries => Entries.Ordered entries ∧ OrderedEntries entries
  | _ => True

def OrderedItems : List MetaValue → Prop
  | [] => True
  | v::items => Ordered v ∧ OrderedItems items

def OrderedEntries : List (String × MetaValue) → Prop
  | [] => True
  | (_,v)::entries => Ordered v ∧ OrderedEntries entries

end

/-! ## The round trip -/

/-- Of the smallest forms the negative numbers have the signed ones, and only they. -/
theorem visitInteger_smallestForm (n : ℤ) :
    visitInteger (smallestForm n) n = if n < 0 then .ok (.int (.ofInt n)) else visitU64 n.toNat := by
  unfold smallestForm
  split_ifs <;> first | rfl | omega

theorem visitInteger_int (i : Int64) : visitInteger (smallestForm i.toInt) i.toInt = .ok (.int i) := by
  rw [visitInteger_smallestForm]
  split
  · rw [Int64.ofInt_toInt]
  · next hneg =>
    have hlt := i.toInt_lt
    have hnat : Int64.ofNat i.toInt.toNat = i := by
      rw [← Int64.ofInt_eq_ofNat,Int.toNat_of_nonneg (by omega),Int64.ofInt_toInt]
    rw [visitU64,if_pos (by omega),hnat]

/-- The entries of a map are inserted in their order. -/
theorem foldl_insert {entries : List (String × MetaValue)} (h : Entries.Ordered entries) :
    entries.foldl (fun o e => Entries.insert e.1 e.2 o) [] = entries := by
  have hnodup : ((entries++[]).map Prod.fst).Nodup := by
    rw [List.append_nil]
    exact h.nodup
  have hnil : Entries.Ordered ([] : List (String × MetaValue)) := List.Pairwise.nil
  obtain ⟨hordered,hperm⟩ := Entries.Ordered.foldl_insert hnil hnodup
  rw [List.append_nil] at hperm
  exact hordered.eq_of_perm h hperm

mutual

theorem deserialize_serialize : ∀ v : MetaValue, v.Ordered → deserialize v.serialize = .ok v
  | .null,_ => rfl
  | .bool _,_ => rfl
  | .int i,_ => by rw [serialize,deserialize,visitInteger_int]
  | .float _,_ => rfl
  | .str _,_ => rfl
  | .bytes _,_ => rfl
  | .array items,h => by
    rw [serialize,deserialize,visitSeq_serialize items h]
    rfl
  | .map entries,h => by
    rw [serialize,deserialize,visitMap_serialize entries h.2,foldl_insert h.1]
    rfl

theorem visitSeq_serialize : ∀ items : List MetaValue, OrderedItems items →
    visitSeq (serializeItems items) = .ok items
  | [],_ => rfl
  | v::items,h => by
    rw [serializeItems,visitSeq,deserialize_serialize v h.1,visitSeq_serialize items h.2]
    rfl

theorem visitMap_serialize : ∀ (entries : List (String × MetaValue)), OrderedEntries entries →
    ∀ out, visitMap out (serializeEntries entries) =
      .ok (entries.foldl (fun o e => Entries.insert e.1 e.2 o) out)
  | [],_,_ => rfl
  | (k,v)::entries,h,out => by
    have hrest := visitMap_serialize entries h.2 (Entries.insert k v out)
    rw [serializeEntries,visitMap,deserialize_serialize v h.1]
    exact hrest

end

/-! ## What is read -/

theorem visitInteger_ok {form : IntForm} {n : ℤ} {v : MetaValue} (h : visitInteger form n = .ok v) :
    ∃ i, v = .int i := by
  cases form with
  | fixPos | u8 | u16 | u32 | u64 =>
    simp only [visitInteger,visitU64] at h
    split_ifs at h
    exact ⟨_,(Except.ok.inj h).symm⟩
  | fixNeg | i8 | i16 | i32 | i64 => exact ⟨_,(Except.ok.inj h).symm⟩

theorem OrderedEntries.insert {k : String} {v : MetaValue} (hv : v.Ordered) :
    ∀ {out : List (String × MetaValue)}, OrderedEntries out → OrderedEntries (Entries.insert k v out)
  | [],_ => ⟨hv,trivial⟩
  | (k',v')::out,h => by
    unfold Entries.insert
    split_ifs
    · exact ⟨hv,h⟩
    · exact ⟨hv,h.2⟩
    · exact ⟨h.1,OrderedEntries.insert hv h.2⟩

mutual

/-- The maps of what is read are in order. -/
theorem ordered_deserialize : ∀ {m : Msg} {v : MetaValue}, deserialize m = .ok v → v.Ordered
  | .nil,_,h | .bool _,_,h | .f64 _,_,h | .str _,_,h | .bin _,_,h => by
    cases h
    trivial
  | .integer form n,v,h => by
    rw [deserialize] at h
    obtain ⟨i,rfl⟩ := visitInteger_ok h
    trivial
  | .array items,_,h => by
    rw [deserialize] at h
    cases hseq : visitSeq items with
    | error e =>
      rw [hseq] at h
      cases h
    | ok vs =>
      rw [hseq] at h
      cases h
      exact ordered_visitSeq hseq
  | .map entries,_,h => by
    rw [deserialize] at h
    cases hmap : visitMap [] entries with
    | error e =>
      rw [hmap] at h
      cases h
    | ok out =>
      rw [hmap] at h
      cases h
      have hempty : Entries.Ordered ([] : List (String × MetaValue)) := List.Pairwise.nil
      exact ordered_visitMap ⟨hempty,trivial⟩ hmap

theorem ordered_visitSeq : ∀ {items : List Msg} {vs : List MetaValue}, visitSeq items = .ok vs → OrderedItems vs
  | [],_,h => by
    cases h
    trivial
  | m::items,vs,h => by
    rw [visitSeq] at h
    cases hv : deserialize m with
    | error e =>
      rw [hv] at h
      cases h
    | ok v =>
      cases hvs : visitSeq items with
      | error e =>
        rw [hv,hvs] at h
        cases h
      | ok vs =>
        rw [hv,hvs] at h
        cases h
        exact ⟨ordered_deserialize hv,ordered_visitSeq hvs⟩

theorem ordered_visitMap : ∀ {entries : List (Msg × Msg)} {out out' : List (String × MetaValue)},
    Entries.Ordered out ∧ OrderedEntries out → visitMap out entries = .ok out' →
      Entries.Ordered out' ∧ OrderedEntries out'
  | [],_,_,hout,h => by
    cases h
    exact hout
  | (k,m)::entries,out,out',hout,h => by
    rw [visitMap] at h
    cases hk : readKey k with
    | error e =>
      rw [hk] at h
      cases h
    | ok key =>
      cases hv : deserialize m with
      | error e =>
        rw [hk,hv] at h
        cases h
      | ok v =>
        rw [hk,hv] at h
        exact ordered_visitMap ⟨hout.1.insert key v,hout.2.insert (ordered_deserialize hv)⟩ h

end

end MetaValue

/-- A value as the program can hold it. -/
structure Metadata where
  value : MetaValue
  ordered : value.Ordered

/-- What is read is such a value. -/
theorem exists_metadata_of_deserialize {msg : Msg} {v : MetaValue} (h : MetaValue.deserialize msg = .ok v) :
    ∃ m : Metadata, m.value = v := ⟨⟨v,MetaValue.ordered_deserialize h⟩,rfl⟩

/-- Metadata is read as it was written. -/
theorem metadata_round_trips (m : Metadata) : MetaValue.deserialize m.value.serialize = .ok m.value :=
  MetaValue.deserialize_serialize m.value m.ordered

/-- A map in a map, bytes that are a text, both ends of the integers, a NaN, and an empty array and map. -/
def nestedMetadata : Metadata where
  value := .map [("a",.array [.int (-9223372036854775808),.int 9223372036854775807,.bytes [0x41],.str "A"]),
    ("b",.map [("",.float 0x7FF8000000000001),("c",.array []),("d",.map [])]),("e",.null)]
  ordered := by
    refine ⟨?_,⟨trivial,trivial,trivial,trivial,trivial⟩,⟨?_,trivial,trivial,⟨?_,trivial⟩,trivial⟩,trivial,trivial⟩
    · change ["a","b","e"].Pairwise (· < ·)
      decide +kernel
    · change ["","c","d"].Pairwise (· < ·)
      decide +kernel
    · exact List.Pairwise.nil

theorem metadata_round_trips_nested :
    MetaValue.deserialize nestedMetadata.value.serialize = .ok nestedMetadata.value :=
  metadata_round_trips nestedMetadata

end Provium.Protocol
