import Provium.Coverage.Report
import Provium.Lib.JsonText

/-! The JSON that `to_json` writes of a report by hand, `main.rs`. -/
namespace Provium.Coverage
open Lib

/-- `{:04x}` -/
def hex4 (n : ℕ) : List Char := List.replicate (4-(Nat.toDigits 16 n).length) '0'++Nat.toDigits 16 n

/-- How `json_string` writes a character. -/
def escapeChar (c : Char) : List Char :=
  if c = '"' then ['\\','"']
  else if c = '\\' then ['\\','\\']
  else if c = '\n' then ['\\','n']
  else if c = '\t' then ['\\','t']
  else if c.toNat < 0x20 then '\\':: 'u'::hex4 c.toNat
  else [c]

def jsonString (s : String) : List Char := '"'::(s.toList.flatMap escapeChar++['"'])

def bucketJson (s : BucketStats) : List Char :=
  "\x7b\"passed\":".toList++Nat.toDigits 10 s.passed++",\"failed\":".toList++Nat.toDigits 10 s.failed++
    ",\"skipped\":".toList++Nat.toDigits 10 s.skipped++"\x7d".toList

namespace CoverageReport

/-- The loop of `to_json` over the buckets, whose first one has no comma before it. -/
def bucketsJson (first : Bool) (out : List Char) : List (String × BucketStats) → List Char
  | [] => out
  | (k,s)::buckets =>
    bucketsJson false ((if first then out else out++",".toList)++jsonString k++":".toList++bucketJson s) buckets

def toJson (r : CoverageReport) : List Char :=
  bucketsJson true "\x7b\"buckets\":\x7b".toList r.buckets++"\x7d,\"uncategorised\":".toList++
    bucketJson r.uncategorised++"\x7d".toList

end CoverageReport

/-! ## What the text is to say -/

def BucketStats.toValue (s : BucketStats) : Json :=
  .object [("passed".toList,.number s.passed),("failed".toList,.number s.failed),("skipped".toList,.number s.skipped)]

def CoverageReport.toValue (r : CoverageReport) : Json :=
  .object [("buckets".toList,.object (r.buckets.map fun e => (e.1.toList,e.2.toValue))),
    ("uncategorised".toList,r.uncategorised.toValue)]

/-! ## What is read of it -/

/-- The code unit of four digits. -/
def unitOf : List Char → Option ℕ
  | [h₁,h₂,h₃,h₄] => Json.codeUnit h₁ h₂ h₃ h₄
  | _ => none

theorem unitOf_hex4 : ∀ n < 0x20, unitOf (hex4 n) = some n := by decide +kernel

/-- A character is read as it was written, whatever it is. -/
theorem readString_escapeChar (c : Char) (rest : List Char) :
    Json.readString (escapeChar c++rest) = (Json.readString rest).map (Json.prepend c) := by
  unfold escapeChar
  split_ifs with hquote hslash hnewline htab hcontrol
  · rw [hquote]
    exact Json.readString_escape rfl rest
  · rw [hslash]
    exact Json.readString_escape rfl rest
  · rw [hnewline]
    exact Json.readString_escape rfl rest
  · rw [htab]
    exact Json.readString_escape rfl rest
  · have hunit := unitOf_hex4 c.toNat hcontrol
    unfold unitOf at hunit
    split at hunit
    · next h₁ h₂ h₃ h₄ hhex =>
      have hread := Json.readString_codeUnit hunit (by omega) rest
      rw [Char.ofNat_toNat] at hread
      rw [hhex]
      exact hread
    · cases hunit
  · exact Json.readString_plain hquote hslash (not_lt.mp hcontrol) rest

theorem spellsName_escape (s : List Char) : Json.SpellsName (s.flatMap escapeChar) s := by
  intro rest
  induction s with
  | nil => exact Json.readString_close rest
  | cons c s ih =>
    rw [List.flatMap_cons,List.append_assoc,readString_escapeChar,ih]
    rfl

theorem spellsName_plain {s : List Char} (h : s.flatMap escapeChar = s) : Json.SpellsName s s := by
  have hspells := spellsName_escape s
  rwa [h] at hspells

theorem objectText_three (passed failed skipped a b c : List Char) :
    '\x7b':: '"'::(passed++ '"'::[':'])++a++(',':: '"'::(failed++ '"'::[':']))++b++(',':: '"'::(skipped++ '"'::[':']))++c++
      ['\x7d'] = Json.objectText [(passed,a),(failed,b),(skipped,c)] := by
  simp [Json.objectText,Json.fieldText,List.intercalate_cons_cons]

theorem objectText_two (buckets uncategorised inner b : List Char) :
    '\x7b':: '"'::(buckets++ '"':: ':'::['\x7b'])++[]++inner++('\x7d':: ',':: '"'::(uncategorised++ '"'::[':']))++b++
      ['\x7d'] = Json.objectText [(buckets,'\x7b'::(inner++['\x7d'])),(uncategorised,b)] := by
  simp [Json.objectText,Json.fieldText,List.intercalate_cons_cons]

theorem bucketJson_eq (s : BucketStats) : bucketJson s = Json.objectText [("passed".toList,Nat.toDigits 10 s.passed),
    ("failed".toList,Nat.toDigits 10 s.failed),("skipped".toList,Nat.toDigits 10 s.skipped)] := by
  have hpassed : "\x7b\"passed\":".toList = '\x7b':: '"'::("passed".toList++ '"'::[':']) := rfl
  have hfailed : ",\"failed\":".toList = ',':: '"'::("failed".toList++ '"'::[':']) := rfl
  have hskipped : ",\"skipped\":".toList = ',':: '"'::("skipped".toList++ '"'::[':']) := rfl
  have hclose : "\x7d".toList = ['\x7d'] := rfl
  unfold bucketJson
  rw [hpassed,hfailed,hskipped,hclose]
  generalize Nat.toDigits 10 s.passed = a,Nat.toDigits 10 s.failed = b,Nat.toDigits 10 s.skipped = c
  generalize "passed".toList = passed,"failed".toList = failed,"skipped".toList = skipped
  exact objectText_three passed failed skipped a b c

theorem spells_bucketJson (s : BucketStats) : Json.Spells (bucketJson s) s.toValue 5 := by
  have hpassed : Json.SpellsName "passed".toList "passed".toList := spellsName_plain rfl
  have hfailed : Json.SpellsName "failed".toList "failed".toList := spellsName_plain rfl
  have hskipped : Json.SpellsName "skipped".toList "skipped".toList := spellsName_plain rfl
  rw [bucketJson_eq]
  exact Json.spells_object (.cons ⟨hpassed,Json.spells_number _⟩ (.cons ⟨hfailed,Json.spells_number _⟩
    (.cons ⟨hskipped,Json.spells_number _⟩ .nil)))

namespace CoverageReport

/-- The names and the texts of the buckets. -/
def bucketFields (buckets : List (String × BucketStats)) : List (List Char × List Char) :=
  buckets.map fun e => (e.1.toList.flatMap escapeChar,bucketJson e.2)

/-- The buckets with commas between them, and one before the first if it is not the first of all. -/
theorem bucketsJson_eq (first : Bool) (out : List Char) (buckets : List (String × BucketStats)) :
    bucketsJson first out buckets = out++(if first ∨ buckets = [] then [] else [','])++
      [','].intercalate ((bucketFields buckets).map Json.fieldText) := by
  have hcomma : ",".toList = [','] := rfl
  have hcolon : ":".toList = [':'] := rfl
  induction buckets generalizing first out with
  | nil => simp [bucketsJson,bucketFields]
  | cons e buckets ih =>
    obtain ⟨k,s⟩ := e
    have hfield : jsonString k++[':']++bucketJson s = Json.fieldText (k.toList.flatMap escapeChar,bucketJson s) := by
      simp [jsonString,Json.fieldText]
    rw [bucketsJson,ih,hcomma,hcolon]
    cases buckets with
    | nil => cases first <;> simp [bucketFields,← hfield]
    | cons e' buckets =>
      have hcons : [','].intercalate ((bucketFields ((k,s)::e'::buckets)).map Json.fieldText) =
          jsonString k++[':']++bucketJson s++[',']++
            [','].intercalate ((bucketFields (e'::buckets)).map Json.fieldText) := by
        rw [hfield]
        exact List.intercalate_cons_cons
      rw [hcons]
      cases first <;> simp

theorem toJson_eq (r : CoverageReport) : r.toJson = Json.objectText [("buckets".toList,
    Json.objectText (bucketFields r.buckets)),("uncategorised".toList,bucketJson r.uncategorised)] := by
  have hbuckets : "\x7b\"buckets\":\x7b".toList = '\x7b':: '"'::("buckets".toList++ '"':: ':'::['\x7b']) :=
    rfl
  have huncategorised : "\x7d,\"uncategorised\":".toList =
      '\x7d':: ',':: '"'::("uncategorised".toList++ '"'::[':']) := rfl
  have hclose : "\x7d".toList = ['\x7d'] := rfl
  unfold toJson
  rw [bucketsJson_eq,hbuckets,huncategorised,hclose]
  generalize "buckets".toList = buckets,"uncategorised".toList = uncategorised
  exact objectText_two buckets uncategorised _ _

end CoverageReport

/-- The text of any report is JSON, and is read as the report. -/
theorem to_json_round_trips (r : CoverageReport) : Json.parse r.toJson = some r.toValue := by
  have hbuckets : Json.SpellsName "buckets".toList "buckets".toList := spellsName_plain (by decide +kernel)
  have huncategorised : Json.SpellsName "uncategorised".toList "uncategorised".toList :=
    spellsName_plain (by decide +kernel)
  have hfields : List.Forall₂ (fun f v => Json.SpellsName f.1 v.1 ∧ Json.Spells f.2 v.2 5)
      (CoverageReport.bucketFields r.buckets) (r.buckets.map fun e => (e.1.toList,e.2.toValue)) := by
    rw [CoverageReport.bucketFields,List.forall₂_map_left_iff,List.forall₂_map_right_iff,List.forall₂_same]
    exact fun e _ => ⟨spellsName_escape _,spells_bucketJson _⟩
  have hobject := Json.spells_object hfields
  have hlength : (CoverageReport.bucketFields r.buckets).length = r.buckets.length := List.length_map _
  rw [CoverageReport.toJson_eq]
  refine Json.parse_of_spells (Json.spells_object (.cons ⟨hbuckets,hobject⟩ (.cons ⟨huncategorised,?_⟩ .nil))) ?_
  · exact fun n hn rest hrest => spells_bucketJson _ n (by omega) rest hrest
  · -- The text is longer than the object in it, which is longer than the list of the buckets.
    have hinner := Json.length_le_objectText (CoverageReport.bucketFields r.buckets)
    have hnames : ("buckets".toList.length = 7) ∧ "uncategorised".toList.length = 13 := by decide +kernel
    generalize Json.objectText (CoverageReport.bucketFields r.buckets) = inner at hinner ⊢
    simp only [Json.objectText,Json.fieldText,List.map_cons,List.map_nil,List.intercalate_cons_cons,
      List.intercalate_singleton,List.length_cons,List.length_append,List.length_nil,hnames]
    omega

end Provium.Coverage
