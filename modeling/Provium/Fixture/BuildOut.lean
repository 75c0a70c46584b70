import Provium.Fixture.Files
import Provium.Lib.Places

/-! The directory of a profile's build: what `{out}` stands for in the command, which runs where the profile
was discovered, and in the paths, which provium reads from where it runs itself. -/
namespace Provium.Fixture
open Lib

/-- What the environment says about where builds are kept. -/
structure BuildEnv where
  buildDir : Option String
  xdgCacheHome : Option String
  home : Option String

def defaultBuildBase (env : BuildEnv) : String :=
  match env.buildDir,env.xdgCacheHome,env.home with
  | some p,_,_ => p
  | none,some p,_ => joinPath (joinPath p "provium") "builds"
  | none,none,some p => joinPath (joinPath (joinPath p ".cache") "provium") "builds"
  | none,none,none => "/tmp/provium-builds"

/-- A profile with the paths of its disks and where it was discovered. -/
structure BuiltProfile extends Profile where
  disks : List String
  dir : Option String

/-- What a directory has for the names of its entries. -/
structure EntryName where
  name : String
  nonempty : name ≠ ""
  notDot : name ≠ "."
  plain : '/' ∉ name.toList

def outToken : List Char := ['\x7b','o','u','t','\x7d']

/-- The closure of `rebase`. -/
def fix (dir p : String) : String :=
  if p = "" ∨ isAbsolute p ∨ outToken <+: p.toList then p else joinPath dir p

/-- The closure of `expand_build_outputs`. -/
def sub (out s : String) : String := String.ofList (replaceOut out.toList s.toList)

namespace BuiltProfile

def rebase (p : BuiltProfile) (dir : String) : BuiltProfile :=
  { p with
    kernel := fix dir p.kernel
    initrd := fix dir p.initrd
    root := p.root.map (fix dir)
    cmdlineFile := p.cmdlineFile.map (fix dir)
    agentOverlayPath := p.agentOverlayPath.map (fix dir)
    disks := p.disks.map (fix dir) }

/-- What `discover_profiles` makes of an entry. -/
def discovered (p : BuiltProfile) (parent : String) (entry : EntryName) : BuiltProfile :=
  rebase { p with dir := some (joinPath parent entry.name) } (joinPath parent entry.name)

def buildDir (p : BuiltProfile) : Option String := p.dir

/-- The body of `expand_build_outputs`. -/
def expandBuildOutputs (p : BuiltProfile) (base name : String) : BuiltProfile :=
  { p with
    kernel := sub (p.outDir base name) p.kernel
    initrd := sub (p.outDir base name) p.initrd
    root := p.root.map (sub (p.outDir base name))
    cmdlineFile := p.cmdlineFile.map (sub (p.outDir base name))
    agentOverlayPath := p.agentOverlayPath.map (sub (p.outDir base name))
    build := p.build.map (sub (p.outDir base name))
    disks := p.disks.map (sub (p.outDir base name)) }

/-- The paths that provium reads. -/
def paths (p : BuiltProfile) : List String :=
  p.kernel::p.initrd::(p.root.toList++p.cmdlineFile.toList++p.agentOverlayPath.toList++p.disks)

/-- Where the command runs. -/
def buildPlace {δ : Type} (p : BuiltProfile) (w : Places δ) (cwd : δ) : δ :=
  match p.buildDir with
  | some dir => w.walk cwd dir.toList
  | none => cwd

end BuiltProfile

/-- Wherever the token stands in a path, the path up to its end leads provium, which reads it after it was
rebased and expanded, where the same text leads the command. -/
def OneOut {δ : Type} (w : Places δ) (cwd place : δ) (out t t' : String) : Prop :=
  ∀ before after, t.toList = before++outToken++after →
    ∃ through, t'.toList = through++replaceOut out.toList after ∧
      w.walk cwd through = w.walk place (replaceOut out.toList (before++outToken))

/-- A directory that is spelled as it was when the token is expanded in its name. -/
def KeepsDir (out dir : String) : Prop :=
  rooted (replaceOut out.toList dir.toList++['/']) = rooted (dir.toList++['/']) ∧
    steps (replaceOut out.toList dir.toList) = steps dir.toList

/-! ## Expansion -/

theorem paths_discovered (p : BuiltProfile) (parent : String) (entry : EntryName) :
    (p.discovered parent entry).paths = p.paths.map (fix (joinPath parent entry.name)) := by
  simp [BuiltProfile.paths,BuiltProfile.discovered,BuiltProfile.rebase,Option.toList_map]

theorem paths_expandBuildOutputs (p : BuiltProfile) (base name : String) :
    (p.expandBuildOutputs base name).paths = p.paths.map (sub (p.outDir base name)) := by
  simp [BuiltProfile.paths,BuiltProfile.expandBuildOutputs,Option.toList_map]

theorem replaceOut_token (out rest : List Char) : replaceOut out (outToken++rest) = out++replaceOut out rest := rfl

theorem replaceOut_cons {out rest : List Char} {c : Char} (h : ¬outToken <+: c::rest) :
    replaceOut out (c::rest) = c::replaceOut out rest := by
  rw [replaceOut.eq_2]
  rintro rest' rfl rfl
  exact h ⟨rest',rfl⟩

/-- The token is whole on this side of a place after which it cannot go on. -/
theorem outToken_isPrefix_append {a b : List Char} (ha : a ≠ []) (hb : ∀ c ∈ b.head?, c ∉ ['o','u','t','\x7d'])
    (h : outToken <+: a++b) : outToken <+: a := by
  obtain ⟨rest,h⟩ := h
  have hhead : ∀ c ∈ ['o','u','t','\x7d'], ∀ r, b ≠ c::r := by
    rintro c hc r rfl
    exact hb c rfl hc
  rcases a with _ | ⟨c₁,_ | ⟨c₂,_ | ⟨c₃,_ | ⟨c₄,_ | ⟨c₅,a⟩⟩⟩⟩⟩
  · exact absurd rfl ha
  all_goals simp only [outToken,List.cons_append,List.nil_append,List.cons.injEq] at h
  · exact absurd h.2.symm (hhead 'o' (by decide) _)
  · exact absurd h.2.2.symm (hhead 'u' (by decide) _)
  · exact absurd h.2.2.2.symm (hhead 't' (by decide) _)
  · exact absurd h.2.2.2.2.symm (hhead '\x7d' (by decide) _)
  · obtain ⟨rfl,rfl,rfl,rfl,rfl,-⟩ := h
    exact ⟨a,rfl⟩

theorem replaceOut_append (out a b : List Char) (hb : ∀ c ∈ b.head?, c ∉ ['o','u','t','\x7d']) :
    replaceOut out (a++b) = replaceOut out a++replaceOut out b := by
  induction a using replaceOut.induct with
  | case1 rest ih =>
    change out++replaceOut out (rest++b) = out++replaceOut out rest++replaceOut out b
    rw [ih,List.append_assoc]
  | case2 c rest hne ih =>
    have hnot : ¬outToken <+: c::rest := by
      rintro ⟨rest',heq⟩
      simp only [outToken,List.cons_append,List.nil_append,List.cons.injEq] at heq
      exact hne rest' heq.1.symm heq.2.symm
    rw [replaceOut_cons hnot,List.cons_append,replaceOut_cons,ih,List.cons_append]
    exact fun h => hnot (outToken_isPrefix_append (List.cons_ne_nil c rest) hb h)
  | case3 => rfl

theorem outToken_head (rest : List Char) : ∀ c ∈ (outToken++rest).head?, c ∉ ['o','u','t','\x7d'] := by
  intro c hc
  cases hc
  decide

theorem replaceOut_append_token (out a b : List Char) :
    replaceOut out (a++outToken++b) = replaceOut out (a++outToken)++replaceOut out b := by
  have hone := replaceOut_append out a (outToken++[]) (outToken_head [])
  rw [List.append_assoc,replaceOut_append out a (outToken++b) (outToken_head b),replaceOut_token]
  rw [replaceOut_token,List.append_nil] at hone
  rw [hone]
  simp [replaceOut]

theorem replaceOut_append_slash (out a b : List Char) :
    replaceOut out (a++ '/' :: b) = replaceOut out a++ '/' :: replaceOut out b := by
  rw [replaceOut_append,replaceOut_cons]
  · rintro ⟨rest,heq⟩
    cases heq
  · rintro c hc
    cases hc
    decide

/-! ## Where a profile was discovered -/

section Entry
variable (parent : String) (entry : EntryName)

theorem entry_ne_nil : entry.name.toList ≠ [] := by
  intro h
  exact entry.nonempty (String.toList_eq_nil_iff.mp h)

/-- The path of an entry ends with its name. -/
theorem toList_joinPath_entry : ∃ q, (joinPath parent entry.name).toList = q++entry.name.toList ∧
    (q = [] ∨ ∃ r, q = r++['/']) := by
  unfold joinPath
  split
  · next h =>
    refine ⟨parent.toList,String.toList_append,?_⟩
    obtain rfl | hlast := h
    · exact .inl rfl
    · exact .inr ⟨_,(List.dropLast_append_getLast? _ hlast).symm⟩
  · exact ⟨parent.toList++['/'],by simp,.inr ⟨_,rfl⟩⟩

theorem steps_joinPath_entry : steps (joinPath parent entry.name).toList ≠ [] := by
  have hname : steps entry.name.toList = [entry.name.toList] := by
    refine steps_name (entry_ne_nil entry) ?_ entry.plain
    intro h
    exact entry.notDot (String.toList_inj.mp h)
  obtain ⟨q,heq,rfl | ⟨r,rfl⟩⟩ := toList_joinPath_entry parent entry
  · rw [heq,List.nil_append,hname]
    exact List.cons_ne_nil _ _
  · rw [heq,List.append_assoc,List.singleton_append,steps_append_slash,hname]
    simp

/-- What is joined to the path of an entry comes after a slash. -/
theorem toList_joinPath_joinPath (t : String) : (joinPath (joinPath parent entry.name) t).toList =
    (joinPath parent entry.name).toList++ '/' :: t.toList := by
  have hne := entry_ne_nil entry
  have hlast : (joinPath parent entry.name).toList.getLast? ≠ some '/' := by
    obtain ⟨q,heq,-⟩ := toList_joinPath_entry parent entry
    rw [heq,List.getLast?_append_of_ne_nil _ hne]
    intro h
    exact entry.plain (List.mem_of_getLast? h)
  have hempty : joinPath parent entry.name ≠ "" := by
    intro h
    have hsteps := steps_joinPath_entry parent entry
    rw [h] at hsteps
    exact hsteps rfl
  generalize joinPath parent entry.name = dir at hlast hempty
  unfold joinPath
  rw [if_neg (not_or.mpr ⟨hempty,hlast⟩)]
  simp

end Entry

/-! ## One path -/

section OnePath
variable {out t t' : String} {parent : String} {entry : EntryName}

theorem isAbsolute_eq_rooted (p : String) : isAbsolute p = rooted p.toList := rfl

theorem toList_sub (s : String) : (sub out s).toList = replaceOut out.toList s.toList := String.toList_ofList

theorem oneOut_iff_of_through {δ : Type} {w : Places δ} {cwd place : δ} {through : List Char → List Char}
    (ht : ∀ before after, t.toList = before++outToken++after →
      t'.toList = through before++replaceOut out.toList after) :
    OneOut w cwd place out t t' ↔ ∀ before after, t.toList = before++outToken++after →
      w.walk cwd (through before) = w.walk place (replaceOut out.toList (before++outToken)) := by
  refine forall₂_congr fun before after => forall_congr' fun heq => ?_
  rw [ht before after heq]
  constructor
  · rintro ⟨through',hthrough,hwalk⟩
    rw [List.append_cancel_right hthrough]
    exact hwalk
  · exact fun hwalk => ⟨_,rfl,hwalk⟩

theorem fix_eq_self {dir : String} (h : isAbsolute t ∨ outToken <+: t.toList) : fix dir t = t := by
  unfold fix
  rw [if_pos (.inr h)]

theorem fix_eq_joinPath {dir : String} (hne : t ≠ "") (habs : ¬isAbsolute t) (htoken : ¬outToken <+: t.toList) :
    fix dir t = joinPath dir t := by
  unfold fix
  rw [if_neg (not_or.mpr ⟨hne,not_or.mpr ⟨habs,htoken⟩⟩)]

/-- A path that is left as it is is expanded as in the command. -/
theorem oneOut_iff_of_kept {δ : Type} {w : Places δ} {cwd place : δ} :
    OneOut w cwd place out t (sub out t) ↔ ∀ before after, t.toList = before++outToken++after →
      w.walk cwd (replaceOut out.toList (before++outToken)) =
        w.walk place (replaceOut out.toList (before++outToken)) := by
  apply oneOut_iff_of_through
  intro before after heq
  rw [toList_sub,heq,replaceOut_append_token]

/-- A path that starts with the token. -/
theorem oneOut_start_iff (h : outToken <+: t.toList) :
    (∀ (δ : Type) (w : Places δ) (cwd : δ), OneOut w cwd (w.walk cwd (joinPath parent entry.name).toList) out t
      (sub out (fix (joinPath parent entry.name) t))) ↔ isAbsolute out := by
  rw [fix_eq_self (.inr h)]
  simp only [oneOut_iff_of_kept,isAbsolute_eq_rooted]
  constructor
  · intro hall
    by_contra habs
    obtain ⟨after,hafter⟩ := h
    have hwalk := hall _ Places.spelled (false,[]) [] after hafter.symm
    have hout : replaceOut out.toList ([]++outToken) = out.toList := by
      change out.toList++[] = _
      rw [List.append_nil]
    rw [hout,Places.walk_spelled,Places.walk_spelled,if_neg habs,if_neg habs,Prod.ext_iff] at hwalk
    -- the place of the profile would be no further down than where provium runs
    have hsteps := List.append_cancel_right hwalk.2
    rw [Places.walk_spelled_steps] at hsteps
    exact steps_joinPath_entry parent entry hsteps.symm
  · intro habs δ w cwd before after heq
    apply Places.walk_rooted
    have hout : out.toList ≠ [] := by
      intro hnil
      rw [hnil] at habs
      cases habs
    obtain ⟨rest,hrest⟩ : outToken <+: before++outToken := by
      cases before with
      | nil => exact List.prefix_refl _
      | cons c before =>
        refine (outToken_isPrefix_append (List.cons_ne_nil c before) (outToken_head after) ?_).trans
          (List.prefix_append _ _)
        rw [← List.append_assoc,← heq]
        exact h
    rw [← hrest,replaceOut_token,rooted_append hout]
    exact habs

/-- An absolute path. -/
theorem oneOut_of_isAbsolute (h : isAbsolute t) {δ : Type} (w : Places δ) (cwd place : δ) (dir : String) :
    OneOut w cwd place out t (sub out (fix dir t)) := by
  rw [fix_eq_self (.inl h),oneOut_iff_of_kept]
  intro before after heq
  apply Places.walk_rooted
  cases before with
  | nil =>
    rw [isAbsolute_eq_rooted,heq] at h
    cases h
  | cons c before =>
    rw [isAbsolute_eq_rooted,heq] at h
    obtain rfl : c = '/' := by simpa [rooted] using h
    rw [List.cons_append,replaceOut_cons]
    · rfl
    · rintro ⟨rest,hrest⟩
      cases hrest

/-- A path in the directory of the profile, which has the token further on. -/
theorem oneOut_inside_iff (hhas : outToken <:+: t.toList) (hstart : ¬outToken <+: t.toList)
    (habs : ¬isAbsolute t) :
    (∀ (δ : Type) (w : Places δ) (cwd : δ), OneOut w cwd (w.walk cwd (joinPath parent entry.name).toList) out t
      (sub out (fix (joinPath parent entry.name) t))) ↔ KeepsDir out (joinPath parent entry.name) := by
  have hne : t ≠ "" := by
    rintro rfl
    obtain ⟨a,b,heq⟩ := hhas
    cases a <;> cases heq
  have hthrough : ∀ before after, t.toList = before++outToken++after →
      (sub out (fix (joinPath parent entry.name) t)).toList =
        (replaceOut out.toList (joinPath parent entry.name).toList++
          '/' :: replaceOut out.toList (before++outToken))++replaceOut out.toList after := by
    intro before after heq
    rw [fix_eq_joinPath hne habs hstart,toList_sub,toList_joinPath_joinPath,replaceOut_append_slash,heq,
      replaceOut_append_token,List.append_assoc,List.cons_append]
  -- what comes after the directory is not absolute, even when expanded
  have hrel : ∀ before after, t.toList = before++outToken++after →
      ¬rooted (replaceOut out.toList (before++outToken)) := by
    intro before after heq
    cases before with
    | nil => exact absurd ⟨after,heq.symm⟩ hstart
    | cons c before =>
      rw [List.cons_append,replaceOut_cons]
      · rw [isAbsolute_eq_rooted,heq] at habs
        exact habs
      · intro hpre
        exact hstart (hpre.trans ⟨after,heq.symm⟩)
  have hdir : (joinPath parent entry.name).toList ≠ [] := by
    intro hnil
    have hsteps := steps_joinPath_entry parent entry
    rw [hnil] at hsteps
    exact hsteps rfl
  simp only [oneOut_iff_of_through hthrough]
  constructor
  · intro hall
    obtain ⟨before,after,heq⟩ := hhas
    have hwalk := hall _ Places.spelled (false,[]) before after heq.symm
    rw [Places.walk_append_slash (hrel before after heq.symm),
      Places.walk_spelled _ (replaceOut out.toList (before++outToken)),
      Places.walk_spelled _ (replaceOut out.toList (before++outToken)),if_neg (hrel before after heq.symm),
      if_neg (hrel before after heq.symm),Prod.ext_iff] at hwalk
    obtain ⟨hroot,hsteps⟩ := hwalk
    have hsteps := List.append_cancel_right hsteps
    rw [Places.walk_spelled_steps,Places.walk_spelled_steps,steps_slash] at hsteps
    rw [Places.walk_spelled_rooted,Places.walk_spelled_rooted] at hroot
    exact ⟨by rw [rooted_append hdir]; exact hroot,hsteps⟩
  · rintro ⟨hroot,hsteps⟩ δ w cwd before after heq
    rw [Places.walk_append_slash (hrel before after heq),← Places.walk_slash hdir,
      Places.walk_congr hroot (by rw [steps_slash,steps_slash,hsteps])]

end OnePath

/-- The directory of a build is one if and only if it is absolute where a path starts with it, and the
profile's own directory is not expanded to another where a path in it has the token further on. -/
theorem one_out_iff (raw : BuiltProfile) (parent : String) (entry : EntryName) (env : BuildEnv) :
    (∀ (δ : Type) (w : Places δ) (cwd : δ), List.Forall₂
      (OneOut w cwd
        (((raw.discovered parent entry).expandBuildOutputs (defaultBuildBase env) entry.name).buildPlace w cwd)
        (raw.outDir (defaultBuildBase env) entry.name))
      raw.paths
      ((raw.discovered parent entry).expandBuildOutputs (defaultBuildBase env) entry.name).paths) ↔
    ∀ t ∈ raw.paths, outToken <:+: t.toList →
      if outToken <+: t.toList then isAbsolute (raw.outDir (defaultBuildBase env) entry.name) = true
      else isAbsolute t = true ∨
        KeepsDir (raw.outDir (defaultBuildBase env) entry.name) (joinPath parent entry.name) := by
  rw [paths_expandBuildOutputs,paths_discovered,List.map_map]
  change (∀ (δ : Type) (w : Places δ) (cwd : δ), List.Forall₂ (OneOut w cwd
    (w.walk cwd (joinPath parent entry.name).toList) (raw.outDir (defaultBuildBase env) entry.name)) raw.paths
    (raw.paths.map (sub (raw.outDir (defaultBuildBase env) entry.name) ∘ fix (joinPath parent entry.name)))) ↔ _
  simp only [List.forall₂_map_right_iff,List.forall₂_same,Function.comp_apply]
  have hswap : ∀ {P : (δ : Type) → Places δ → δ → String → Prop},
      (∀ (δ : Type) (w : Places δ) (cwd : δ), ∀ t ∈ raw.paths, P δ w cwd t) ↔
        ∀ t ∈ raw.paths, ∀ (δ : Type) (w : Places δ) (cwd : δ), P δ w cwd t :=
    ⟨fun h t ht δ w cwd => h δ w cwd t ht,fun h δ w cwd t ht => h t ht δ w cwd⟩
  rw [hswap]
  refine forall₂_congr fun t _ => ?_
  by_cases hhas : outToken <:+: t.toList
  · simp only [hhas,true_implies]
    split
    · next hstart => exact oneOut_start_iff hstart
    · next hstart =>
      by_cases habs : isAbsolute t
      · simp only [habs,true_or,iff_true]
        exact fun δ w cwd => oneOut_of_isAbsolute habs w cwd _ _
      · rw [oneOut_inside_iff hhas hstart habs]
        simp [habs]
  · refine ⟨fun _ h => absurd h hhas,fun _ δ w cwd before after heq => ?_⟩
    exact absurd ⟨before,after,heq.symm⟩ hhas

/-- A profile that builds into its own directory. -/
def relativeOut : BuiltProfile where
  kernel := "\x7bout\x7d/bzImage"
  initrd := "initrd.img"
  root := none
  cmdlineFile := none
  injectAgent := true
  agentOverlayPath := none
  build := some "make O=\x7bout\x7d"
  buildOut := some "out"
  disks := []
  dir := none

theorem relative_out_is_two : ¬∀ (raw : BuiltProfile) (parent : String) (entry : EntryName) (env : BuildEnv)
    (δ : Type) (w : Places δ) (cwd : δ), List.Forall₂
      (OneOut w cwd
        (((raw.discovered parent entry).expandBuildOutputs (defaultBuildBase env) entry.name).buildPlace w cwd)
        (raw.outDir (defaultBuildBase env) entry.name))
      raw.paths
      ((raw.discovered parent entry).expandBuildOutputs (defaultBuildBase env) entry.name).paths := by
  intro h
  have hpaths := h relativeOut "testsets" ⟨"kernel",by decide,by decide,by decide⟩ ⟨none,none,none⟩ _
    Places.spelled (true,["home".toList])
  obtain ⟨through,hthrough,hwalk⟩ := (List.forall₂_cons.mp hpaths).1 [] "/bzImage".toList (by decide +kernel)
  have hout : through = "out".toList := by
    refine List.append_cancel_right (hthrough.symm.trans ?_)
    decide +kernel
  subst hout
  revert hwalk
  decide +kernel

end Provium.Fixture
