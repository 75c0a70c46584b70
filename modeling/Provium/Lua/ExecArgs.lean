import Provium.Lua.Json
import Provium.Lua.Sizes

/-! `build_exec_args`: what `vm:run` makes of a command and a table, which is a list of arguments or has them under
`args`. The conversions of `mlua` are a parameter. -/
namespace Provium.Lua
open Lib Provium.Fixture

abbrev Value := LuaValue Binary64

abbrev Table := List (LuaKey Binary64 × Value)

def LuaKey.toValue : LuaKey Binary64 → Value
  | .boolean b => .boolean b
  | .integer i => .integer i
  | .number f => .number f
  | .string s => .string s
  | .other typeName _ => .other typeName

def LuaValue.typeName {φ : Type} : LuaValue φ → String
  | .nil => "nil"
  | .boolean _ => "boolean"
  | .integer _ => "integer"
  | .number _ => "number"
  | .string _ => "string"
  | .table _ => "table"
  | .other typeName => typeName

/-- `FromLua` of the types that are asked for. -/
structure FromLua where
  i64 : Value → Except String ℤ
  u64 : Value → Option ℕ
  f64 : Value → Option Binary64
  string : Value → Except String Bytes
  /-- The error of `to_str`. -/
  notUtf8 : Bytes → String
  showF64 : Binary64 → String
  i64_integer : ∀ i, i64 (.integer i) = .ok i
  string_string : ∀ s, string (.string s) = .ok s

/-- The fields that `build_exec_args` sets. -/
structure ExecArgs where
  cmd : String
  args : List String
  env : List (String × String)
  envClear : Bool
  stdin : Bytes
  cwd : Option String
  timeoutMs : Option ℕ

/-- A field of a table, which is `nil` where there is none. -/
def field (t : Table) (name : String) : Value := (t.lookup (.string (utf8 name))).getD .nil

namespace FromLua
variable (M : FromLua)

def toStr (s : Bytes) : Except String String :=
  match ofUtf8 s with
  | some text => .ok text
  | none => .error (M.notUtf8 s)

/-- `String::from_lua` -/
def text (v : Value) : Except String String := M.string v >>= M.toStr

/-- The loop over `pairs::<i64, mlua::String>`. -/
def argList : Table → Except String (List String)
  | [] => .ok []
  | (k,v)::t => do
    let _ ← M.i64 k.toValue
    let s ← M.string v
    let arg ← M.toStr s
    let rest ← argList t
    .ok (arg::rest)

/-- The loop over `pairs::<String, String>`. -/
def envPairs : List (String × String) → Table → Except String (List (String × String))
  | env,[] => .ok env
  | env,(k,v)::t => do
    let key ← M.text k.toValue
    let value ← M.text v
    envPairs (Entries.insert key value env) t

def envOf : Value → Except String (List (String × String))
  | .table t => M.envPairs [] t
  | _ => .ok []

/-- The milliseconds of a number of seconds. -/
def millis (secs : Binary64) : Except String ℕ :=
  match secs with
  | .finite negative u fits =>
    if negative && u != 0 then
      .error ("vm:run timeout: must be a finite, non-negative number (got "++M.showF64 (.finite negative u fits)++")")
    else .ok (castUnsigned 64 ((Binary64.finite negative u fits).mul (.ofRat false 1000)))
  | other => .error ("vm:run timeout: must be a finite, non-negative number (got "++M.showF64 other++")")

def timeoutOf (o : Table) : Except String (Option ℕ) :=
  match M.u64 (field o "timeout_ms") with
  | some n => .ok (some n)
  | none => match M.text (field o "timeout") with
    | .ok s => match parseDurationStr s.toList with
      | some secs => (M.millis secs).map some
      | none => .ok none
    | .error _ => match M.f64 (field o "timeout") with
      | some n => (M.millis n).map some
      | none => .ok none

/-- Whether a value counts as true. -/
def truth : Value → Bool
  | .nil => false
  | .boolean b => b
  | _ => true

def optionKeys : List String := ["env","env_clear","cwd","stdin","timeout_ms","timeout","args"]

/-- The arguments under `args`, if there is a table. -/
def argsOf : Value → Except String (Option (List String))
  | .table t => (M.argList t).map some
  | _ => .ok none

/-- What is run: the command itself with its arguments, or a shell. -/
def direct (cmd : String) : Option (List String) → String × List String
  | none => ("sh",["-c",cmd])
  | some args => (cmd,args)

def ofOptions (cmd : String) (o : Table) : Except String ExecArgs := do
  let args ← M.argsOf (field o "args")
  let env ← M.envOf (field o "env")
  let timeoutMs ← M.timeoutOf o
  .ok {
    cmd := (direct cmd args).1
    args := (direct cmd args).2
    env
    envClear := truth (field o "env_clear")
    stdin := (M.string (field o "stdin")).toOption.getD []
    cwd := (M.text (field o "cwd")).toOption
    timeoutMs }

def ofList (cmd : String) (t : Table) : Except String ExecArgs := do
  let args ← M.argList t
  .ok ⟨cmd,args,[],false,[],none,none⟩

def shell (cmd : String) : ExecArgs := ⟨(direct cmd none).1,(direct cmd none).2,[],false,[],none,none⟩

/-- What the second argument makes of a command. -/
def ofSecond (cmd : String) : Option Value → Except String ExecArgs
  | some (.table t) => if optionKeys.any fun k => !(field t k).isNil then M.ofOptions cmd t else M.ofList cmd t
  | some .nil => .ok (shell cmd)
  | none => .ok (shell cmd)
  | some other => .error ("vm:run: second argument must be a table, got "++other.typeName)

def buildExecArgs : List Value → Except String ExecArgs
  | [] => .error "vm:run expects at least a command string"
  | .string s::rest => M.toStr s >>= fun cmd => M.ofSecond cmd rest.head?
  | _::_ => .error "vm:run: first argument must be a string"

end FromLua

/-! ## The order of the arguments -/

/-- What a list holds at an index, which is one less than its key. -/
def listEntry (i : ℕ) (s : Bytes) : LuaKey Binary64 × Value := (.integer (i+1),.string s)

/-- The entries of a table with values at 1 and up, in the order of the indices. -/
def listEntries (values : List Bytes) : Table := values.zipIdx.map fun e => listEntry e.2 e.1

/-- The program is run with the values as its arguments, in the order of their indices. -/
def KeepsOrder (result : Except String ExecArgs) (values : List Bytes) : Prop :=
  ∃ e, result = .ok e ∧ e.args.map utf8 = values

def IsText (s : Bytes) : Prop := ∃ text, ofUtf8 s = some text

/-- Where the enumeration comes to a key out of turn, it finds there what is due. -/
def InTurn (t : Table) (values : List Bytes) : Prop :=
  ∀ i k : ℕ, (t[i]?).map Prod.fst = some (.integer (k+1)) → values[k]? = values[i]?

/-- The other options raise no error. -/
def FromLua.Accepts (M : FromLua) (o : Table) : Prop :=
  (∃ env, M.envOf (field o "env") = .ok env) ∧ ∃ timeoutMs, M.timeoutOf o = .ok timeoutMs

theorem mem_listEntries {values : List Bytes} {e : LuaKey Binary64 × Value} :
    e ∈ listEntries values ↔ ∃ i s, values[i]? = some s ∧ e = listEntry i s := by
  simp only [listEntries,List.mem_map,Prod.exists,List.mem_zipIdx_iff_getElem?]
  constructor
  · rintro ⟨s,i,hs,rfl⟩
    exact ⟨i,s,hs,rfl⟩
  · rintro ⟨i,s,hs,rfl⟩
    exact ⟨s,i,hs,rfl⟩

@[simp] theorem length_listEntries (values : List Bytes) : (listEntries values).length = values.length := by
  simp [listEntries]

/-- The values come in turn if and only if every key out of turn holds what is due. -/
theorem inTurn_iff {t : Table} {values : List Bytes} (ht : t.Perm (listEntries values)) :
    InTurn t values ↔ t.map Prod.snd = values.map .string := by
  have hentry : ∀ (i : ℕ) e, t[i]? = some e → ∃ k s, values[k]? = some s ∧ e = listEntry k s := by
    intro i e he
    exact mem_listEntries.mp (ht.mem_iff.mp (List.mem_of_getElem? he))
  have hlength : t.length = values.length := ht.length_eq.trans (length_listEntries values)
  constructor
  · intro hturn
    refine List.ext_getElem? fun i => ?_
    rw [List.getElem?_map,List.getElem?_map]
    cases he : t[i]? with
    | none =>
      rw [List.getElem?_eq_none_iff] at he
      rw [List.getElem?_eq_none (by omega)]
      rfl
    | some e =>
      obtain ⟨k,s,hs,rfl⟩ := hentry i e he
      rw [← hturn i k (by rw [he]; rfl),hs]
      rfl
  · intro hvalues i k hk
    obtain ⟨e,he,hfst⟩ := Option.map_eq_some_iff.mp hk
    obtain ⟨k',s,hs,rfl⟩ := hentry i e he
    have hkk : (k' : ℤ)+1 = k+1 := LuaKey.integer.inj hfst
    obtain rfl : k' = k := by omega
    have hi := congrArg (fun l => l[i]?) hvalues
    simp only [List.getElem?_map,he,Option.map_some] at hi
    obtain ⟨s',hs',heq⟩ := Option.map_eq_some_iff.mp hi.symm
    rw [hs,hs',LuaValue.string.inj heq]

/-! ## What is run -/

theorem except_bind_eq_ok {ε α β : Type} {x : Except ε α} {f : α → Except ε β} {b : β} :
    x >>= f = .ok b ↔ ∃ a, x = .ok a ∧ f a = .ok b := by
  cases x with
  | error e => exact iff_of_false (fun h => by cases h) fun ⟨a,h,_⟩ => by cases h
  | ok a =>
    constructor
    · exact fun h => ⟨a,rfl,h⟩
    · rintro ⟨a',ha,h⟩
      cases ha
      exact h

namespace FromLua
variable {M : FromLua}

theorem toStr_eq_ok {s : Bytes} {text : String} : M.toStr s = .ok text ↔ s = utf8 text := by
  unfold toStr
  cases h : ofUtf8 s with
  | none =>
    refine iff_of_false (fun h => by cases h) ?_
    rintro rfl
    rw [ofUtf8_utf8] at h
    cases h
  | some text' =>
    rw [Except.ok.injEq,← Option.some_inj,← h,ofUtf8_eq_some,eq_comm]

theorem argList_cons (i : ℕ) (s : Bytes) (t : Table) :
    M.argList (listEntry i s::t) = M.toStr s >>= fun arg => M.argList t >>= fun rest => .ok (arg::rest) := by
  rw [listEntry,argList,LuaKey.toValue,M.i64_integer,M.string_string]
  rfl

/-- The list is what the enumeration finds, if all of it is text. -/
theorem argList_eq_ok {t : Table} {args : List String} (h : ∀ e ∈ t, ∃ i s, e = listEntry i s) :
    M.argList t = .ok args ↔ t.map Prod.snd = args.map fun arg => .string (utf8 arg) := by
  induction t generalizing args with
  | nil => rw [argList,Except.ok.injEq,List.map_nil,eq_comm,eq_comm (a := []),List.map_eq_nil_iff]
  | cons e t ih =>
    obtain ⟨i,s,rfl⟩ := h e List.mem_cons_self
    have ht := fun e' he' => h e' (List.mem_cons_of_mem _ he')
    rw [argList_cons,except_bind_eq_ok]
    simp only [except_bind_eq_ok,toStr_eq_ok,ih ht,Except.ok.injEq,List.map_cons]
    constructor
    · rintro ⟨arg,rfl,rest,hrest,rfl⟩
      rw [List.map_cons,hrest]
      rfl
    · intro hargs
      cases args with
      | nil => cases hargs
      | cons arg rest =>
        rw [List.map_cons] at hargs
        obtain ⟨harg,hrest⟩ := List.cons.inj hargs
        exact ⟨arg,LuaValue.string.inj harg,rest,hrest,rfl⟩

variable {t o : Table} {values : List Bytes}

theorem exists_listEntry (ht : t.Perm (listEntries values)) : ∀ e ∈ t, ∃ i s, e = listEntry i s := by
  intro e he
  obtain ⟨i,s,-,rfl⟩ := mem_listEntries.mp (ht.mem_iff.mp he)
  exact ⟨i,s,rfl⟩

/-- The loop gives the values in order if and only if they are text and come in turn. -/
theorem argList_iff (ht : t.Perm (listEntries values)) :
    (∃ args, M.argList t = .ok args ∧ args.map utf8 = values) ↔ (∀ s ∈ values, IsText s) ∧ InTurn t values := by
  rw [inTurn_iff ht]
  simp only [argList_eq_ok (exists_listEntry ht)]
  constructor
  · rintro ⟨args,hargs,rfl⟩
    refine ⟨?_,?_⟩
    · intro s hs
      obtain ⟨arg,-,rfl⟩ := List.mem_map.mp hs
      exact ⟨arg,ofUtf8_utf8 arg⟩
    · rw [hargs,List.map_map]
      rfl
  · rintro ⟨htext,hvalues⟩
    obtain ⟨args,rfl⟩ : ∃ args : List String, args.map utf8 = values := by
      have hrange : ∀ s ∈ values, s ∈ Set.range utf8 := by
        intro s hs
        obtain ⟨text,h⟩ := htext s hs
        exact ⟨text,ofUtf8_eq_some.mp h⟩
      have hvalues : values ∈ Set.range (List.map utf8) := by rwa [Set.range_list_map]
      exact hvalues
    refine ⟨args,?_,rfl⟩
    rw [hvalues,List.map_map]
    rfl

/-- A list has no option. -/
theorem field_eq_nil (ht : t.Perm (listEntries values)) (name : String) : field t name = .nil := by
  have hnone : t.lookup (.string (utf8 name)) = none := by
    rw [List.lookup_eq_none_iff]
    intro e he
    obtain ⟨i,s,rfl⟩ := exists_listEntry ht e he
    rfl
  rw [field,hnone]
  rfl

theorem ofSecond_list (cmd : String) (ht : t.Perm (listEntries values)) :
    M.ofSecond cmd (some (.table t)) = M.ofList cmd t := by
  rw [ofSecond,if_neg]
  simp [field_eq_nil ht,LuaValue.isNil]

theorem ofSecond_options (cmd : String) (ho : field o "args" = .table t) :
    M.ofSecond cmd (some (.table o)) = M.ofOptions cmd o := by
  rw [ofSecond,if_pos]
  refine List.any_eq_true.mpr ⟨"args",by decide,?_⟩
  rw [ho]
  rfl

theorem ofList_keepsOrder (cmd : String) : KeepsOrder (M.ofList cmd t) values ↔
    ∃ args, M.argList t = .ok args ∧ args.map utf8 = values := by
  unfold KeepsOrder ofList
  simp only [except_bind_eq_ok,Except.ok.injEq]
  constructor
  · rintro ⟨e,⟨args,hargs,rfl⟩,hvalues⟩
    exact ⟨args,hargs,hvalues⟩
  · rintro ⟨args,hargs,hvalues⟩
    exact ⟨_,⟨args,hargs,rfl⟩,hvalues⟩

theorem ofOptions_keepsOrder (cmd : String) (ho : field o "args" = .table t) :
    KeepsOrder (M.ofOptions cmd o) values ↔
      M.Accepts o ∧ ∃ args, M.argList t = .ok args ∧ args.map utf8 = values := by
  unfold KeepsOrder ofOptions Accepts
  rw [ho]
  simp only [argsOf,except_bind_eq_ok,Except.ok.injEq]
  constructor
  · rintro ⟨e,⟨args,hargs,env,henv,timeoutMs,htimeout,rfl⟩,hvalues⟩
    cases h : M.argList t with
    | error e =>
      rw [h] at hargs
      cases hargs
    | ok list =>
      rw [h] at hargs
      cases hargs
      exact ⟨⟨⟨env,henv⟩,timeoutMs,htimeout⟩,list,rfl,hvalues⟩
  · rintro ⟨⟨⟨env,henv⟩,timeoutMs,htimeout⟩,args,hargs,hvalues⟩
    exact ⟨_,⟨some args,by rw [hargs]; rfl,env,henv,timeoutMs,htimeout,rfl⟩,hvalues⟩

theorem buildExecArgs_keepsOrder (cmd : Bytes) (second : Value) : KeepsOrder (M.buildExecArgs [.string cmd,second]) values ↔
    ∃ text, cmd = utf8 text ∧ KeepsOrder (M.ofSecond text (some second)) values := by
  unfold KeepsOrder
  simp only [buildExecArgs,List.head?_cons,except_bind_eq_ok,toStr_eq_ok]
  constructor
  · rintro ⟨e,⟨text,htext,he⟩,hvalues⟩
    exact ⟨text,htext,e,he,hvalues⟩
  · rintro ⟨text,htext,e,he,hvalues⟩
    exact ⟨e,⟨text,htext,he⟩,hvalues⟩

end FromLua

theorem isText_iff {s : Bytes} : IsText s ↔ ∃ text, s = utf8 text :=
  exists_congr fun _ => ofUtf8_eq_some.trans eq_comm

/-- In either form the program gets its arguments in order if and only if they are text and the enumeration comes
to them in turn; in the options form the other options must raise no error. -/
theorem exec_args_keep_order_iff (M : FromLua) (cmd : Bytes) (t o : Table) (values : List Bytes)
    (ht : t.Perm (listEntries values)) (ho : field o "args" = .table t) :
    (KeepsOrder (M.buildExecArgs [.string cmd,.table t]) values ↔
      IsText cmd ∧ (∀ s ∈ values, IsText s) ∧ InTurn t values) ∧
    (KeepsOrder (M.buildExecArgs [.string cmd,.table o]) values ↔
      M.Accepts o ∧ IsText cmd ∧ (∀ s ∈ values, IsText s) ∧ InTurn t values) := by
  rw [FromLua.buildExecArgs_keepsOrder,FromLua.buildExecArgs_keepsOrder,isText_iff]
  simp only [FromLua.ofSecond_list _ ht,FromLua.ofSecond_options _ ho,FromLua.ofList_keepsOrder,
    FromLua.ofOptions_keepsOrder _ ho,FromLua.argList_iff ht]
  constructor
  · rw [exists_and_right]
  · rw [exists_and_right,and_left_comm]

/-- What `mlua` makes of integers and strings, without coercions. -/
def plainLua : FromLua where
  i64
    | .integer i => .ok i
    | v => .error v.typeName
  u64
    | .integer i => if 0 ≤ i then some i.toNat else none
    | _ => none
  f64
    | .number f => some f
    | _ => none
  string
    | .string s => .ok s
    | v => .error v.typeName
  notUtf8 _ := "invalid utf-8"
  showF64 _ := ""
  i64_integer _ := rfl
  string_string _ := rfl

def echoList : Table := listEntries [utf8 "a",utf8 "b"]

def echoOptions : Table := [(.string (utf8 "args"),.table echoList)]

theorem field_echoOptions : field echoOptions "args" = .table echoList := by
  simp [field,echoOptions]

theorem inTurn_echoList : InTurn echoList [utf8 "a",utf8 "b"] :=
  (inTurn_iff (List.Perm.refl _)).mpr rfl

theorem accepts_echoOptions : plainLua.Accepts echoOptions := by
  have hnil : ∀ name ≠ "args", field echoOptions name = .nil := by
    intro name hname
    have hne : utf8 name ≠ utf8 "args" := by
      intro h
      have heq := (ofUtf8_utf8 name).symm.trans ((congrArg ofUtf8 h).trans (ofUtf8_utf8 "args"))
      exact hname (Option.some.inj heq)
    have hkey : (LuaKey.string (utf8 name) == (LuaKey.string (utf8 "args") : LuaKey Binary64)) = false := by
      simpa using hne
    simp [field,echoOptions,List.lookup_cons,hkey]
  refine ⟨⟨[],?_⟩,none,?_⟩
  · rw [hnil "env" (by decide)]
    rfl
  · unfold FromLua.timeoutOf
    rw [hnil "timeout_ms" (by decide),hnil "timeout" (by decide)]
    rfl

/-- A list that is enumerated from its start keeps its order. -/
theorem exec_args_keep_order_echo :
    KeepsOrder (plainLua.buildExecArgs [.string (utf8 "echo"),.table echoList]) [utf8 "a",utf8 "b"] ∧
      KeepsOrder (plainLua.buildExecArgs [.string (utf8 "echo"),.table echoOptions]) [utf8 "a",utf8 "b"] := by
  have hkeeps := exec_args_keep_order_iff plainLua (utf8 "echo") echoList echoOptions [utf8 "a",utf8 "b"]
    (List.Perm.refl _) field_echoOptions
  have hcmd : IsText (utf8 "echo") := ⟨"echo",ofUtf8_utf8 _⟩
  have htext : ∀ s ∈ [utf8 "a",utf8 "b"], IsText s := by
    simp only [List.forall_mem_cons]
    exact ⟨⟨"a",ofUtf8_utf8 _⟩,⟨"b",ofUtf8_utf8 _⟩,fun s hs => absurd hs List.not_mem_nil⟩
  exact ⟨hkeeps.1.mpr ⟨hcmd,htext,inTurn_echoList⟩,
    hkeeps.2.mpr ⟨accepts_echoOptions,hcmd,htext,inTurn_echoList⟩⟩

/-- A list that was filled from its end may be enumerated so. -/
theorem exec_args_out_of_order : ¬∀ (M : FromLua) (cmd : Bytes) (t : Table) (values : List Bytes),
    t.Perm (listEntries values) → KeepsOrder (M.buildExecArgs [.string cmd,.table t]) values := by
  intro h
  have hperm : (echoList.reverse).Perm (listEntries [utf8 "a",utf8 "b"]) := List.reverse_perm _
  have hkept := h plainLua (utf8 "echo") echoList.reverse [utf8 "a",utf8 "b"] hperm
  obtain ⟨text,-,hlist⟩ := FromLua.buildExecArgs_keepsOrder _ _ |>.mp hkept
  rw [FromLua.ofSecond_list _ hperm,FromLua.ofList_keepsOrder,FromLua.argList_iff hperm] at hlist
  have hsecond := hlist.2 0 1 rfl
  simp at hsecond
  exact absurd (ofUtf8_eq_some.mpr hsecond.symm) (by rw [ofUtf8_utf8]; decide)

end Provium.Lua
