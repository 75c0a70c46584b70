import Provium.Lib.Words
import Provium.Qmp.Handshake

/-! The kernel's command line: how `qemu.rs` puts it together at a launch, and the `rdinit=` that
`agent_overlay.rs` sees to. -/
namespace Provium.Vmm
open Lib Provium.Qmp

/-- A command line, by its characters. -/
abbrev Line := List Char

/-- `char::is_ascii_whitespace` -/
def asciiSpace (c : Char) : Bool := [9,10,12,13,32].contains c.toNat

/-- `split_ascii_whitespace` -/
def tokens (line : Line) : List Line := Words.words asciiSpace line

/-- `str::trim_end` -/
def trimEnd (line : Line) : Line := line.rdropWhile isSpace

/-- `str::trim` -/
def trimLine (line : Line) : Line := trimEnd (line.dropWhile isSpace)

/-- `resolve_cmdline`, of the text of the `cmdline_file` and the profile's own line. -/
def resolveCmdline (file : Option Line) (cmdline : Line) : Line :=
  [' '].intercalate ((file.elim [] (Words.words isSpace))++Words.words isSpace cmdline)

/-- The first two steps of a launch: the line and what `kernel_cmdline_append` adds. -/
def appendLine (line : Line) (append : Option Line) : Line :=
  match append.map trimLine with
  | some extra => if extra.isEmpty then line else trimEnd line++ ' '::extra
  | none => line

def serialConsole : Line := "console=ttyS0".toList

def ensureSerialConsole (line : Line) : Line :=
  if serialConsole ∈ tokens line then line else trimEnd line++ ' '::serialConsole

/-- The profile's line, or the one that a boot has instead. -/
def baseLine (file : Option Line) (cmdline : Line) (override : Option Line) : Line :=
  override.getD (resolveCmdline file cmdline)

/-- The line that a launch gives to `prepare_initrd`. -/
def rawCmdline (base : Line) (append : Option Line) : Line := ensureSerialConsole (appendLine base append)

/-- `OVERLAY_AGENT_PATH` -/
def overlayAgentPath : Line := "/sbin/provium-agent".toList

def rdinitKey : Line := "rdinit=".toList

/-- `strip_prefix("rdinit=")` -/
def rdinitValue (token : Line) : Option Line :=
  if rdinitKey.isPrefixOf token then some (token.drop rdinitKey.length) else none

def parseRdinit (line : Line) : Option Line := (tokens line).findSome? rdinitValue

def withRdinit (line : Line) : Line :=
  if (parseRdinit line).isSome then line else trimEnd line++ ' '::(rdinitKey++overlayAgentPath)

structure PreparedInitrd where
  initrdPath : String
  cmdline : Line
  injected : Bool

/-- `prepare_initrd` of a profile's `inject_agent` and `initrd`. `overlay` is what `locate_overlay` finds, and
`merged` the entry of the cache for the two files, or the error of reading and writing them. -/
def prepareInitrd (injectAgent : Bool) (initrd : String) (overlay : Option String) (merged : Except String String)
    (cmdline : Line) : Except String PreparedInitrd :=
  if !injectAgent then .ok ⟨initrd,cmdline,false⟩
  else match parseRdinit cmdline with
    | some existing =>
      if existing ≠ overlayAgentPath then
        .error ("profile cmdline already pins rdinit="++String.ofList existing++
          "; either remove it or set inject_agent = false in this profile")
      else inject
    | none => inject
where
  inject : Except String PreparedInitrd :=
    match overlay with
    | none => .error ("could not find agent-overlay.cpio.gz — run scripts/build-overlay.sh, or set "++
        "agent_overlay_path in the profile, or set inject_agent = false")
    | some overlay =>
      if initrd = "" then .ok ⟨overlay,withRdinit cmdline,true⟩
      else merged.map fun path => ⟨path,withRdinit cmdline,true⟩

/-- The `rdinit=` that takes effect: the last one. -/
def effectiveRdinit (line : Line) : Option Line := (tokens line).reverse.findSome? rdinitValue

/-- What was asked for, word by word. -/
def askedTokens (base : Line) (append : Option Line) : List Line := tokens base++append.elim [] tokens

/-- The line is refused for its first `rdinit=`. -/
def Refused (line : Line) : Prop := ∃ existing, parseRdinit line = some existing ∧ existing ≠ overlayAgentPath

/-- Its last one, if it has one, is the agent's. -/
def LastOurs (line : Line) : Prop := ∀ existing, effectiveRdinit line = some existing → existing = overlayAgentPath

/-- Something is added to the line. -/
def Extended (base : Line) (append : Option Line) : Prop :=
  (∃ extra ∈ append, trimLine extra ≠ []) ∨ serialConsole ∉ tokens base ∨ parseRdinit base = none

/-- Where the line or what is appended to it is trimmed, only white space of ASCII is trimmed. -/
structure AsciiEnds (base : Line) (append : Option Line) : Prop where
  base : Extended base append → ∀ c ∈ base.rtakeWhile isSpace, asciiSpace c = true
  extraStart : ∀ extra ∈ append, ∀ c ∈ extra.takeWhile isSpace, asciiSpace c = true
  extraEnd : ∀ extra ∈ append, ∀ c ∈ extra.rtakeWhile isSpace, asciiSpace c = true

/-! ## What trimming takes -/

/-- White space that is not of ASCII: it is trimmed, and does not part tokens. -/
def oddSpace (c : Char) : Bool := isSpace c && !asciiSpace c

theorem oddSpace_not_ascii (c : Char) (h : oddSpace c = true) : asciiSpace c = false := by
  simpa using (Bool.and_eq_true_iff.mp h).2

theorem countP_odd_eq_zero {l : Line} (h : ∀ c ∈ l, isSpace c = true) :
    l.countP oddSpace = 0 ↔ ∀ c ∈ l, asciiSpace c = true := by
  rw [List.countP_eq_zero]
  refine forall₂_congr fun c hc => ?_
  simp [oddSpace,h c hc]

theorem countP_tokens (line : Line) : ((tokens line).map (List.countP oddSpace)).sum = line.countP oddSpace :=
  Words.countP_words oddSpace_not_ascii line

theorem countP_trimEnd (line : Line) :
    (trimEnd line).countP oddSpace+(line.rtakeWhile isSpace).countP oddSpace = line.countP oddSpace :=
  Words.countP_rdropWhile oddSpace isSpace line

/-- Nothing can be trimmed off a line that ends with something else than white space. -/
theorem rtakeWhile_append {word : Line} (hne : word ≠ []) (hword : word.rtakeWhile isSpace = []) (line : Line) :
    (line++word).rtakeWhile isSpace = [] := by
  rw [List.rtakeWhile_eq_nil_iff] at hword ⊢
  intro hl
  rw [List.getLast_append_of_ne_nil hl hne]
  exact hword hne

theorem rtakeWhile_trimEnd (line : Line) : (trimEnd line).rtakeWhile isSpace = [] :=
  List.rtakeWhile_eq_nil_iff.mpr fun hl => List.rdropWhile_last_not isSpace line hl

theorem tokens_trimEnd {line : Line} (h : ∀ c ∈ line.rtakeWhile isSpace, asciiSpace c = true) :
    tokens (trimEnd line) = tokens line := Words.words_rdropWhile h

theorem tokens_append_space (line rest : Line) : tokens (line++ ' '::rest) = tokens line++tokens rest :=
  Words.words_append_break (by decide) line rest

/-- A line that has something else than white space ends as it does without the white space before that. -/
theorem rtakeWhile_dropWhile {line : Line} (h : line.dropWhile isSpace ≠ []) :
    (line.dropWhile isSpace).rtakeWhile isSpace = line.rtakeWhile isSpace := by
  conv_rhs => rw [← @List.takeWhile_append_dropWhile _ isSpace line]
  rw [List.rtakeWhile,List.rtakeWhile,List.reverse_append,List.takeWhile_append,if_neg]
  intro hlength
  have hall := (List.takeWhile_prefix isSpace).eq_of_length hlength
  rw [List.takeWhile_eq_self_iff] at hall
  have hhead := hall _ (List.mem_reverse.mpr (List.head_mem h))
  rw [List.head_dropWhile_not isSpace h] at hhead
  cases hhead

/-- What is lost of a text that is trimmed at both ends. -/
theorem countP_trimLine (line : Line) :
    (trimLine line).countP oddSpace ≤ line.countP oddSpace ∧
      ((trimLine line).countP oddSpace = line.countP oddSpace ↔
        (∀ c ∈ line.takeWhile isSpace, asciiSpace c = true) ∧
          ∀ c ∈ line.rtakeWhile isSpace, asciiSpace c = true) := by
  have hsplit : (line.takeWhile isSpace).countP oddSpace+(line.dropWhile isSpace).countP oddSpace =
      line.countP oddSpace := by
    rw [← List.countP_append,List.takeWhile_append_dropWhile]
  have htrim := countP_trimEnd (line.dropWhile isSpace)
  have hstart := countP_odd_eq_zero fun c (hc : c ∈ line.takeWhile isSpace) => List.mem_takeWhile_imp hc
  have hend := countP_odd_eq_zero fun c (hc : c ∈ (line.dropWhile isSpace).rtakeWhile isSpace) =>
    List.mem_rtakeWhile_imp hc
  have hboth : ((∀ c ∈ line.takeWhile isSpace, asciiSpace c = true) ∧
        ∀ c ∈ line.rtakeWhile isSpace, asciiSpace c = true) ↔
      (∀ c ∈ line.takeWhile isSpace, asciiSpace c = true) ∧
        ∀ c ∈ (line.dropWhile isSpace).rtakeWhile isSpace, asciiSpace c = true := by
    by_cases hblank : line.dropWhile isSpace = []
    · have hall : ∀ c ∈ line, isSpace c = true := List.dropWhile_eq_nil_iff.mp hblank
      rw [hblank,List.rtakeWhile_eq_self_iff.mpr hall,List.takeWhile_eq_self_iff.mpr hall,List.rtakeWhile_nil]
      exact ⟨fun h => ⟨h.1,fun c hc => nomatch hc⟩,fun h => ⟨h.1,h.1⟩⟩
    · rw [rtakeWhile_dropWhile hblank]
  rw [trimLine,← hsplit,hboth,← hstart,← hend]
  omega

theorem appendLine_cases (base : Line) (append : Option Line) :
    (appendLine base append = base ∧ ∀ extra ∈ append, trimLine extra = []) ∨
      ∃ extra, append = some extra ∧ trimLine extra ≠ [] ∧
        appendLine base append = trimEnd base++ ' '::trimLine extra := by
  cases append with
  | none => exact .inl ⟨rfl,fun extra h => nomatch h⟩
  | some extra =>
    by_cases hblank : trimLine extra = []
    · refine .inl ⟨by simp [appendLine,hblank],fun e he => ?_⟩
      rwa [← Option.mem_some_iff.mp he]
    · exact .inr ⟨extra,rfl,hblank,by simp [appendLine,hblank]⟩

theorem ensureSerialConsole_cases (line : Line) :
    (serialConsole ∈ tokens line ∧ ensureSerialConsole line = line) ∨
      (serialConsole ∉ tokens line ∧ ensureSerialConsole line = trimEnd line++ ' '::serialConsole) := by
  by_cases h : serialConsole ∈ tokens line
  · exact .inl ⟨h,if_pos h⟩
  · exact .inr ⟨h,if_neg h⟩

theorem withRdinit_cases (line : Line) :
    ((parseRdinit line).isSome ∧ withRdinit line = line) ∨
      (parseRdinit line = none ∧ withRdinit line = trimEnd line++ ' '::(rdinitKey++overlayAgentPath)) := by
  cases h : parseRdinit line with
  | some v => exact .inl ⟨rfl,by rw [withRdinit,h]; rfl⟩
  | none => exact .inr ⟨rfl,by rw [withRdinit,h]; rfl⟩

theorem countP_extended {line word : Line} (hword : word.countP oddSpace = 0) :
    (trimEnd line++ ' '::word).countP oddSpace+(line.rtakeWhile isSpace).countP oddSpace = line.countP oddSpace := by
  have hspace : oddSpace ' ' = false := by decide
  rw [← countP_trimEnd line,List.countP_append,List.countP_cons_of_neg (by simp [hspace]),hword,Nat.add_zero]

/-- A step never adds odd white space, and loses what it trims. -/
theorem countP_ensureSerialConsole (line : Line) :
    (ensureSerialConsole line).countP oddSpace+
      (if serialConsole ∈ tokens line then 0 else (line.rtakeWhile isSpace).countP oddSpace) =
        line.countP oddSpace := by
  obtain ⟨hmem,heq⟩ | ⟨hmem,heq⟩ := ensureSerialConsole_cases line
  · rw [heq,if_pos hmem,Nat.add_zero]
  · rw [heq,if_neg hmem,countP_extended (by decide)]

theorem countP_withRdinit (line : Line) :
    (withRdinit line).countP oddSpace+
      (if parseRdinit line = none then (line.rtakeWhile isSpace).countP oddSpace else 0) =
        line.countP oddSpace := by
  obtain ⟨hsome,heq⟩ | ⟨hnone,heq⟩ := withRdinit_cases line
  · rw [heq,if_neg (Option.isSome_iff_ne_none.mp hsome),Nat.add_zero]
  · rw [heq,if_pos hnone,countP_extended (by decide)]

/-- If no odd white space is lost, none was there to be trimmed. -/
theorem asciiEnds_of_countP {base : Line} {append : Option Line}
    (h : base.countP oddSpace+append.elim 0 (List.countP oddSpace) ≤
      (withRdinit (rawCmdline base append)).countP oddSpace) : AsciiEnds base append := by
  have hwith := countP_withRdinit (rawCmdline base append)
  have hensure := countP_ensureSerialConsole (appendLine base append)
  have hbase := countP_odd_eq_zero fun c (hc : c ∈ base.rtakeWhile isSpace) => List.mem_rtakeWhile_imp hc
  rw [rawCmdline] at h hwith
  obtain ⟨heq,hblank⟩ | ⟨extra,rfl,hextra,heq⟩ := appendLine_cases base append
  · rw [heq] at h hwith hensure
    have hnothing : append.elim 0 (List.countP oddSpace) = 0 := by omega
    have hextra : ∀ extra ∈ append, (trimLine extra).countP oddSpace = extra.countP oddSpace := by
      intro extra he
      obtain rfl := Option.mem_def.mp he
      rw [hblank extra he]
      exact hnothing.symm
    refine ⟨fun hextended => hbase.mp ?_,fun extra he => ?_,fun extra he => ?_⟩
    · obtain ⟨extra,he,hne⟩ | hconsole | hrdinit := hextended
      · exact absurd (hblank extra he) hne
      · rw [if_neg hconsole] at hensure
        omega
      · by_cases hconsole : serialConsole ∈ tokens base
        · have hsame : ensureSerialConsole base = base := if_pos hconsole
          rw [hsame,if_pos hrdinit] at hwith
          rw [hsame] at h
          omega
        · rw [if_neg hconsole] at hensure
          omega
    · exact ((countP_trimLine extra).2.mp (hextra extra he)).1
    · exact ((countP_trimLine extra).2.mp (hextra extra he)).2
  · have hloss : (appendLine base (some extra)).countP oddSpace+(base.rtakeWhile isSpace).countP oddSpace =
        base.countP oddSpace+(trimLine extra).countP oddSpace := by
      have hspace : oddSpace ' ' = false := by decide
      rw [heq,List.countP_append,List.countP_cons_of_neg (by simp [hspace])]
      have := countP_trimEnd base
      omega
    have hle := (countP_trimLine extra).1
    change base.countP oddSpace+extra.countP oddSpace ≤ _ at h
    have hkept := (countP_trimLine extra).2.mp (by omega)
    refine ⟨fun _ => hbase.mp (by omega),fun e he => ?_,fun e he => ?_⟩
    · rw [← Option.mem_some_iff.mp he]
      exact hkept.1
    · rw [← Option.mem_some_iff.mp he]
      exact hkept.2

theorem tokens_trimLine {line : Line} (hstart : ∀ c ∈ line.takeWhile isSpace, asciiSpace c = true)
    (hend : ∀ c ∈ line.rtakeWhile isSpace, asciiSpace c = true) : tokens (trimLine line) = tokens line := by
  have hrest : tokens (line.dropWhile isSpace) = tokens line := by
    have hbreaks := @Words.words_breaks_append _ _ (line.dropWhile isSpace) _ hstart
    rw [List.takeWhile_append_dropWhile] at hbreaks
    exact hbreaks.symm
  rw [trimLine,tokens_trimEnd,hrest]
  by_cases hblank : line.dropWhile isSpace = []
  · rw [hblank,List.rtakeWhile_nil]
    exact fun c hc => nomatch hc
  · rw [rtakeWhile_dropWhile hblank]
    exact hend

/-- What has been added so far leaves what was asked for, and an end that may be trimmed. -/
theorem tokens_appendLine {base : Line} {append : Option Line} (h : AsciiEnds base append) :
    tokens (appendLine base append) = askedTokens base append ∧
      (serialConsole ∉ tokens (appendLine base append) ∨ parseRdinit (appendLine base append) = none →
        ∀ c ∈ (appendLine base append).rtakeWhile isSpace, asciiSpace c = true) := by
  obtain ⟨heq,hblank⟩ | ⟨extra,rfl,hextra,heq⟩ := appendLine_cases base append
  · rw [heq]
    refine ⟨?_,fun hextended => h.base (.inr hextended)⟩
    cases append with
    | none => exact (List.append_nil _).symm
    | some extra =>
      have hnone := tokens_trimLine (h.extraStart extra rfl) (h.extraEnd extra rfl)
      rw [hblank extra rfl] at hnone
      rw [askedTokens]
      change tokens base = tokens base++tokens extra
      rw [← hnone]
      exact (List.append_nil _).symm
  · have htokens := tokens_trimLine (h.extraStart extra rfl) (h.extraEnd extra rfl)
    refine ⟨?_,fun _ => ?_⟩
    · rw [heq,tokens_append_space,tokens_trimEnd (h.base (.inl ⟨extra,rfl,hextra⟩)),htokens]
      rfl
    · have hend : (trimEnd base++ ' '::trimLine extra).rtakeWhile isSpace = [] := by
        rw [← List.singleton_append,← List.append_assoc]
        exact rtakeWhile_append hextra (rtakeWhile_trimEnd _) _
      rw [heq,hend]
      exact fun c hc => nomatch hc

theorem tokens_rdinit : tokens (rdinitKey++overlayAgentPath) = [rdinitKey++overlayAgentPath] := by decide

theorem tokens_rawCmdline {base : Line} {append : Option Line} (h : AsciiEnds base append) :
    (askedTokens base append).Sublist (tokens (rawCmdline base append)) ∧
      (parseRdinit (rawCmdline base append) = none →
        ∀ c ∈ (rawCmdline base append).rtakeWhile isSpace, asciiSpace c = true) := by
  obtain ⟨hasked,hend⟩ := tokens_appendLine h
  rw [rawCmdline,← hasked]
  obtain ⟨-,heq⟩ | ⟨hmem,heq⟩ := ensureSerialConsole_cases (appendLine base append)
  · rw [heq]
    exact ⟨List.Sublist.refl _,fun hnone => hend (.inr hnone)⟩
  · rw [heq,tokens_append_space,tokens_trimEnd (hend (.inl hmem))]
    refine ⟨List.sublist_append_left _ _,fun _ => ?_⟩
    have hstop : (trimEnd (appendLine base append)++ ' '::serialConsole).rtakeWhile isSpace = [] := by
      rw [← List.singleton_append,← List.append_assoc]
      exact rtakeWhile_append (by decide) (by decide) _
    rw [hstop]
    exact fun c hc => nomatch hc

/-- The `rdinit=` that `prepare_initrd` adds is the last one. -/
theorem effectiveRdinit_added (line : Line) :
    effectiveRdinit (line++ ' '::(rdinitKey++overlayAgentPath)) = some overlayAgentPath := by
  have hvalue : rdinitValue (rdinitKey++overlayAgentPath) = some overlayAgentPath := by decide
  rw [effectiveRdinit,tokens_append_space,tokens_rdinit,List.reverse_append,List.reverse_singleton,
    List.singleton_append,List.findSome?_cons,hvalue]

theorem effectiveRdinit_isSome (line : Line) : (effectiveRdinit line).isSome = (parseRdinit line).isSome := by
  rw [effectiveRdinit,parseRdinit,Bool.eq_iff_iff,List.findSome?_isSome_iff,List.findSome?_isSome_iff]
  simp only [List.mem_reverse]

theorem prepareInitrd_ok {initrd : String} {overlay : Option String} {merged : Except String String} {line : Line}
    {p : PreparedInitrd} (h : prepareInitrd true initrd overlay merged line = .ok p) :
    ¬Refused line ∧ p.cmdline = withRdinit line := by
  have hinject : prepareInitrd.inject initrd overlay merged line = .ok p → p.cmdline = withRdinit line := by
    intro h
    unfold prepareInitrd.inject at h
    split at h
    · cases h
    · split at h
      · rw [← Except.ok.inj h]
      · cases merged with
        | error e => cases h
        | ok path => rw [← Except.ok.inj h]
  unfold prepareInitrd at h
  simp only [Bool.not_true,Bool.false_eq_true,if_false] at h
  split at h
  · next existing hparse =>
    split at h
    · cases h
    · next hours =>
      refine ⟨?_,hinject h⟩
      rintro ⟨v,hv,hne⟩
      obtain rfl := Option.some.inj (hparse.symm.trans hv)
      exact hours hne
  · next hparse =>
    refine ⟨?_,hinject h⟩
    rintro ⟨v,hv,-⟩
    cases hparse.symm.trans hv

theorem prepareInitrd_succeeds {line : Line} (h : ¬Refused line) :
    prepareInitrd true "" (some "agent-overlay.cpio.gz") (.ok "") line =
      .ok ⟨"agent-overlay.cpio.gz",withRdinit line,true⟩ := by
  unfold prepareInitrd
  simp only [Bool.not_true,Bool.false_eq_true,if_false]
  split
  · next existing hparse =>
    have hours : existing = overlayAgentPath := not_not.mp fun hne => h ⟨existing,hparse,hne⟩
    rw [if_neg (not_not.mpr hours)]
    rfl
  · rfl

theorem countP_askedTokens (base : Line) (append : Option Line) :
    ((askedTokens base append).map (List.countP oddSpace)).sum =
      base.countP oddSpace+append.elim 0 (List.countP oddSpace) := by
  rw [askedTokens,List.map_append,List.sum_append,countP_tokens]
  cases append with
  | none => rfl
  | some extra => exact congrArg (base.countP oddSpace+·) (countP_tokens extra)

/-- A launch that is not refused runs the agent and keeps the words it was asked for exactly if the last
`rdinit=` of the line is not another one, and no white space but ASCII's is trimmed. -/
theorem injected_agent_runs_iff (file : Option Line) (cmdline : Line) (override append : Option Line) :
    (∀ initrd overlay merged p, prepareInitrd true initrd overlay merged
        (rawCmdline (baseLine file cmdline override) append) = .ok p →
      effectiveRdinit p.cmdline = some overlayAgentPath ∧
        (askedTokens (baseLine file cmdline override) append).Sublist (tokens p.cmdline)) ↔
      Refused (rawCmdline (baseLine file cmdline override) append) ∨
        LastOurs (rawCmdline (baseLine file cmdline override) append) ∧
          AsciiEnds (baseLine file cmdline override) append := by
  generalize baseLine file cmdline override = base
  constructor
  · intro h
    by_cases hrefused : Refused (rawCmdline base append)
    · exact .inl hrefused
    obtain ⟨heffective,hkept⟩ := h _ _ _ _ (prepareInitrd_succeeds hrefused)
    refine .inr ⟨?_,?_⟩
    · intro existing hexisting
      obtain ⟨hsome,heq⟩ | ⟨hnone,heq⟩ := withRdinit_cases (rawCmdline base append)
      · rw [heq,hexisting] at heffective
        exact Option.some.inj heffective
      · have := effectiveRdinit_isSome (rawCmdline base append)
        rw [hexisting,hnone] at this
        cases this
    · refine asciiEnds_of_countP ?_
      rw [← countP_askedTokens,← countP_tokens (withRdinit _)]
      exact (hkept.map _).sum_le_sum fun _ _ => Nat.zero_le _
  · rintro (hrefused | ⟨hlast,hends⟩) initrd overlay merged p hp
    · exact absurd hrefused (prepareInitrd_ok hp).1
    · obtain ⟨-,hcmdline⟩ := prepareInitrd_ok hp
      obtain ⟨hasked,hend⟩ := tokens_rawCmdline hends
      rw [hcmdline]
      obtain ⟨hsome,heq⟩ | ⟨hnone,heq⟩ := withRdinit_cases (rawCmdline base append)
      · rw [heq]
        rw [← effectiveRdinit_isSome] at hsome
        obtain ⟨existing,hexisting⟩ := Option.isSome_iff_exists.mp hsome
        exact ⟨hexisting.trans (congrArg some (hlast existing hexisting)),hasked⟩
      · rw [heq]
        refine ⟨effectiveRdinit_added _,?_⟩
        rw [tokens_append_space,tokens_trimEnd (hend hnone)]
        exact hasked.trans (List.sublist_append_left _ _)

/-- The profile pins the agent, and the boot appends another one. -/
theorem appended_init_runs :
    prepareInitrd true "" (some "agent-overlay.cpio.gz") (.ok "")
        (rawCmdline (baseLine none "console=ttyS0 rdinit=/sbin/provium-agent".toList none)
          (some "rdinit=/bin/sh".toList)) =
      .ok ⟨"agent-overlay.cpio.gz","console=ttyS0 rdinit=/sbin/provium-agent rdinit=/bin/sh".toList,true⟩ ∧
    effectiveRdinit "console=ttyS0 rdinit=/sbin/provium-agent rdinit=/bin/sh".toList = some "/bin/sh".toList ∧
    ¬∀ (file : Option Line) (cmdline : Line) (override append : Option Line) initrd overlay merged p,
      prepareInitrd true initrd overlay merged (rawCmdline (baseLine file cmdline override) append) = .ok p →
      effectiveRdinit p.cmdline = some overlayAgentPath ∧
        (askedTokens (baseLine file cmdline override) append).Sublist (tokens p.cmdline) := by
  have hline : rawCmdline (baseLine none "console=ttyS0 rdinit=/sbin/provium-agent".toList none)
      (some "rdinit=/bin/sh".toList) = "console=ttyS0 rdinit=/sbin/provium-agent rdinit=/bin/sh".toList := by
    decide +kernel
  have hprepared : prepareInitrd true "" (some "agent-overlay.cpio.gz") (.ok "")
      "console=ttyS0 rdinit=/sbin/provium-agent rdinit=/bin/sh".toList =
      .ok ⟨"agent-overlay.cpio.gz","console=ttyS0 rdinit=/sbin/provium-agent rdinit=/bin/sh".toList,true⟩ := by
    rfl
  refine ⟨by rw [hline]; exact hprepared,by decide +kernel,fun h => ?_⟩
  have hshell := (h none "console=ttyS0 rdinit=/sbin/provium-agent".toList none (some "rdinit=/bin/sh".toList) _ _ _ _
    (by rw [hline]; exact hprepared)).1
  exact absurd hshell (by decide +kernel)

end Provium.Vmm
