import Provium.Fixture.BuildLock

/-! Careful processes build each key one at a time and remove no entry but by eviction or as unusable. -/
namespace Provium.Fixture
open Lib

namespace Cache
variable {κ : Type} {s s' : Cache κ} {p q : ℕ}

structure Inv (s : Cache κ) : Prop where
  files : s.files.Sound s.grips
  /-- Of the two lockfiles of a key only one is in use. -/
  apart : ∀ p q k, (s.grips p).path = some (.vm,k) → (s.grips q).path ≠ some (.lab,k)
  /-- What is built after a look is not there. -/
  absent : ∀ p c k i seen, s.procs p = .building c k i seen → c ≠ .rebuild → s.entries (c.layout,k) = none
  /-- What is found unusable under the lock is gone or still there. -/
  condemned : ∀ p k i entry seen, s.procs p = .condemned k i entry seen →
    ∀ e, s.entries (.lab,k) = some e → entry = some e ∧ e < seen
  bound : ∀ slot e, s.entries slot = some e → e < s.installs

/-- The process holds one of the locks of this key. -/
def Holds (s : Cache κ) (p : ℕ) (k : κ) : Prop := ∃ layout i, s.grips p = .held (layout,k) i

theorem Inv.exclusive (h : s.Inv) {k : κ} (hp : s.Holds p k) (hq : s.Holds q k) : p = q := by
  obtain ⟨layout,i,hp⟩ := hp
  obtain ⟨layout',j,hq⟩ := hq
  have hpath : (s.grips p).path = some (layout,k) := by rw [hp]; rfl
  have hpath' : (s.grips q).path = some (layout',k) := by rw [hq]; rfl
  have hsame : layout = layout' := by
    cases layout with
    | vm =>
      cases layout' with
      | vm => rfl
      | lab => exact absurd hpath' (h.apart p q k hpath)
    | lab =>
      cases layout' with
      | vm => exact absurd hpath (h.apart q p k hpath')
      | lab => rfl
  subst hsame
  exact h.files.exclusive hp hq

theorem Holds.of_builds {k : κ} (h : (s.procs p).Builds k) : s.Holds p k := by
  unfold Holds grips
  cases hphase : s.procs p with
  | building c k' i seen =>
    rw [hphase] at h
    obtain rfl : k' = k := h
    exact ⟨_,_,rfl⟩
  | replacing k' i seen =>
    rw [hphase] at h
    obtain rfl : k' = k := h
    exact ⟨_,_,rfl⟩
  | placing c k' i =>
    rw [hphase] at h
    obtain rfl : k' = k := h
    exact ⟨_,_,rfl⟩
  | _ =>
    rw [hphase] at h
    exact h.elim

theorem Inv.oneBuilder (h : s.Inv) : s.OneBuilder :=
  fun _ _ _ hp hq => h.exclusive (.of_builds hp) (.of_builds hq)

theorem grips_update (procs : ℕ → Phase κ) (p : ℕ) (phase : Phase κ) :
    (fun q => (Function.update procs p phase q).grip) = Function.update (fun q => (procs q).grip) p phase.grip := by
  funext q
  rw [Function.update_apply,Function.update_apply]
  split <;> rfl

/-- What a step of one process has to see to: its own lockfile and its own phase, and that it changes no
entry of a key whose lock another holds, unless it takes it away. -/
theorem Inv.move (h : s.Inv) {files : Lockfiles (Layout × κ)} {entries : Layout × κ → Option ℕ}
    {installs : ℕ} {phase : Phase κ} (hfiles : files.Sound (Function.update s.grips p phase.grip))
    (hapart : phase.grip.path = (s.grips p).path ∨ phase.grip.path = none ∨
      ∃ layout k, phase.grip.path = some (layout,k) ∧ Lockfiles.Unused s.grips (layout.other,k))
    (hentries : ∀ slot, entries slot = s.entries slot ∨ entries slot = none ∨ s.Holds p slot.2)
    (hbound : ∀ slot e, entries slot = some e → e < installs)
    (habsent : ∀ c k i seen, phase = .building c k i seen → c ≠ .rebuild → entries (c.layout,k) = none)
    (hcondemned : ∀ k i entry seen, phase = .condemned k i entry seen →
      ∀ e, entries (.lab,k) = some e → entry = some e ∧ e < seen) :
    Inv ⟨files,entries,installs,Function.update s.procs p phase⟩ := by
  have hgrips : (⟨files,entries,installs,Function.update s.procs p phase⟩ : Cache κ).grips =
      Function.update s.grips p phase.grip := grips_update s.procs p phase
  -- another process that holds a lock of a key finds the key's entries as they were, or gone
  have hother : ∀ q layout k, q ≠ p → s.Holds q k →
      entries (layout,k) = s.entries (layout,k) ∨ entries (layout,k) = none := by
    intro q layout k hqp hq
    rcases hentries (layout,k) with he | he | he
    · exact .inl he
    · exact .inr he
    · exact absurd (h.exclusive hq he) hqp
  refine ⟨?_,?_,?_,?_,hbound⟩
  · rw [hgrips]
    exact hfiles
  · rw [hgrips]
    have hunused : ∀ layout k, phase.grip.path = some (layout,k) → ∀ q,
        (Function.update s.grips p phase.grip q).path ≠ some (layout.other,k) := by
      intro layout k hpath q hq
      rw [Function.update_apply] at hq
      split at hq
      · rw [hpath] at hq
        cases layout <;> cases hq
      · rcases hapart with hsame | hnone | ⟨layout',k',hnew,hunused⟩
        · rw [hsame] at hpath
          cases layout with
          | vm => exact h.apart p q k hpath hq
          | lab => exact h.apart q p k hq hpath
        · rw [hnone] at hpath
          cases hpath
        · rw [hnew] at hpath
          cases hpath
          exact hunused q hq
    intro p' q k hp' hq
    by_cases hpp : p' = p
    · rw [hpp,Function.update_self] at hp'
      exact hunused .vm k hp' q hq
    · by_cases hqp : q = p
      · rw [hqp,Function.update_self] at hq
        exact hunused .lab k hq p' hp'
      · rw [Function.update_of_ne hpp] at hp'
        rw [Function.update_of_ne hqp] at hq
        exact h.apart p' q k hp' hq
  · intro q c k i seen hq hc
    change Function.update s.procs p phase q = _ at hq
    rw [Function.update_apply] at hq
    split at hq
    · exact habsent c k i seen hq hc
    · next hqp =>
      have hholds : s.Holds q k := ⟨c.layout,i,by rw [grips,hq]; rfl⟩
      rcases hother q c.layout k hqp hholds with he | he
      · exact he.trans (h.absent q c k i seen hq hc)
      · exact he
  · intro q k i entry seen hq e he
    change Function.update s.procs p phase q = _ at hq
    rw [Function.update_apply] at hq
    split at hq
    · exact hcondemned k i entry seen hq e he
    · next hqp =>
      have hholds : s.Holds q k := ⟨.lab,i,by rw [grips,hq]; rfl⟩
      rcases hother q .lab k hqp hholds with hsame | hnone
      · exact h.condemned q k i entry seen hq e (hsame.symm.trans he)
      · exact absurd (hnone.symm.trans he) (by simp)

end Cache

/-- The phase makes no statement about the entries. -/
def Phase.plain {κ : Type} : Phase κ → Bool
  | .building _ _ _ _ | .condemned _ _ _ _ => false
  | _ => true

namespace Cache
variable {κ : Type} {s s' : Cache κ} {p q : ℕ} {phase : Phase κ}

theorem Inv.move_plain (h : s.Inv) {files : Lockfiles (Layout × κ)} {entries : Layout × κ → Option ℕ}
    {installs : ℕ} (hplain : phase.plain = true)
    (hfiles : files.Sound (Function.update s.grips p phase.grip))
    (hapart : phase.grip.path = (s.grips p).path ∨ phase.grip.path = none ∨
      ∃ layout k, phase.grip.path = some (layout,k) ∧ Lockfiles.Unused s.grips (layout.other,k))
    (hentries : ∀ slot, entries slot = s.entries slot ∨ entries slot = none ∨ s.Holds p slot.2)
    (hbound : ∀ slot e, entries slot = some e → e < installs) :
    Inv ⟨files,entries,installs,Function.update s.procs p phase⟩ := by
  refine h.move hfiles hapart hentries hbound ?_ ?_
  · rintro c k i seen rfl
    cases hplain
  · rintro k i entry seen rfl
    cases hplain

theorem Inv.sound_same (h : s.Inv) (hgrip : phase.grip = s.grips p) :
    s.files.Sound (Function.update s.grips p phase.grip) := by
  rw [hgrip,Function.update_eq_self]
  exact h.files

/-- A step that changes no more than how far the process is. -/
theorem Inv.turn (h : s.Inv) (hplain : phase.plain = true) (hgrip : phase.grip = s.grips p) :
    (s.turn p phase).Inv :=
  h.move_plain hplain (h.sound_same hgrip) (.inl (congrArg Grip.path hgrip)) (fun _ => .inl rfl) h.bound

theorem Inv.leave (h : s.Inv) (p : ℕ) : (s.leave p).Inv :=
  h.move_plain rfl (h.files.close p) (.inr (.inl rfl)) (fun _ => .inl rfl) h.bound

theorem Inv.flock (h : s.Inv) {c : Command} {k : κ} {i : ℕ} {suspect : Bool}
    (hphase : s.procs p = .wait c k i suspect) {files : Lockfiles (Layout × κ)}
    (hlock : s.files.flock p i = some files) :
    (({ s with files } : Cache κ).turn p (.locked c k i suspect)).Inv := by
  have hgrip : s.grips p = .opened (c.layout,k) i := by rw [grips,hphase]; rfl
  refine h.move_plain rfl (h.files.flock hgrip hlock) (.inl ?_) (fun _ => .inl rfl) h.bound
  rw [hgrip]
  rfl

/-- A build begins after the entry was found absent, or by `fixture rebuild`. -/
theorem Inv.begin (h : s.Inv) {c : Command} {k : κ} {i : ℕ} {seen : Option ℕ}
    (hgrip : (Phase.building c k i seen).grip = s.grips p)
    (habsent : c ≠ .rebuild → s.entries (c.layout,k) = none) : (s.turn p (.building c k i seen)).Inv := by
  refine h.move (h.sound_same hgrip) (.inl (congrArg Grip.path hgrip)) (fun _ => .inl rfl) h.bound ?_ ?_
  · intro c' k' i' seen' heq hc
    cases heq
    exact habsent hc
  · intro k' i' entry seen' heq
    cases heq

/-- What cannot be restored under the lock is what is there. -/
theorem Inv.condemn (h : s.Inv) {k : κ} {i : ℕ}
    (hgrip : (Phase.condemned k i (s.entries (.lab,k)) s.installs).grip = s.grips p) :
    (s.turn p (.condemned k i (s.entries (.lab,k)) s.installs)).Inv := by
  refine h.move (h.sound_same hgrip) (.inl (congrArg Grip.path hgrip)) (fun _ => .inl rfl) h.bound ?_ ?_
  · intro c' k' i' seen' heq
    cases heq
  · intro k' i' entry seen' heq e he
    cases heq
    exact ⟨he,h.bound _ e he⟩

theorem licit_none : ∀ r ∈ (none : Option Removal), r.Licit := by
  intro r hr
  cases hr

/-- Nothing is removed where nothing is. -/
theorem licit_removal {slot : Layout × κ} {seen : Option ℕ} (h : s.entries slot = none) :
    ∀ r ∈ s.removal slot seen, r.Licit := by
  rw [removal,h]
  exact licit_none

/-- The end of a restore. -/
theorem Inv.restored (h : s.Inv) {usable : Bool} {o : Option Removal}
    (hs : s.restored p usable = some (s',o)) : s'.Inv ∧ ∀ r ∈ o, r.Licit := by
  unfold Cache.restored at hs
  split at hs
  · next c k hphase =>
    have hgrip : s.grips p = .free := by rw [grips,hphase]; rfl
    split at hs
    · cases hs
      exact ⟨h.turn rfl hgrip.symm,licit_none⟩
    · split at hs
      · cases hs
        exact ⟨h.turn rfl hgrip.symm,licit_none⟩
      · cases hs
        exact ⟨h.turn rfl hgrip.symm,licit_none⟩
  · next k i hphase =>
    have hgrip : s.grips p = .held (.lab,k) i := by rw [grips,hphase]; rfl
    split at hs
    · cases hs
      exact ⟨h.turn rfl hgrip.symm,licit_none⟩
    · cases hs
      exact ⟨h.condemn hgrip.symm,licit_none⟩
  · cases hs

variable [DecidableEq κ]

theorem bound_remove (h : s.Inv) (slot : Layout × κ) {slot' : Layout × κ} {e : ℕ}
    (he : (s.remove slot).entries slot' = some e) : e < s.installs := by
  change Function.update s.entries slot none slot' = some e at he
  rw [Function.update_apply] at he
  split at he
  · cases he
  · exact h.bound slot' e he

theorem Inv.remove_turn (h : s.Inv) (slot : Layout × κ) (hplain : phase.plain = true)
    (hgrip : phase.grip = s.grips p) : ((s.remove slot).turn p phase).Inv := by
  refine h.move_plain hplain (h.sound_same hgrip) (.inl (congrArg Grip.path hgrip)) ?_
    (fun slot' e he => bound_remove h slot he)
  intro slot'
  change Function.update s.entries slot none slot' = _ ∨ Function.update s.entries slot none slot' = _ ∨ _
  by_cases heq : slot' = slot
  · exact .inr (.inl (by rw [heq,Function.update_self]))
  · exact .inl (Function.update_of_ne heq ..)

/-- An entry of a key is installed by a process that holds a lock of it. -/
theorem Inv.install_turn (h : s.Inv) {slot : Layout × κ} (hholds : s.Holds p slot.2)
    (hplain : phase.plain = true) (hgrip : phase.grip = s.grips p) :
    ((s.install slot).turn p phase).Inv := by
  refine h.move_plain hplain (h.sound_same hgrip) (.inl (congrArg Grip.path hgrip)) ?_ ?_
  · intro slot'
    by_cases heq : slot' = slot
    · exact .inr (.inr (heq ▸ hholds))
    · exact .inl (Function.update_of_ne heq ..)
  · intro slot' e he
    change Function.update s.entries slot (some s.installs) slot' = some e at he
    change e < s.installs+1
    rw [Function.update_apply] at he
    split at he
    · cases he
      omega
    · have hlt := h.bound slot' e he
      omega

theorem Inv.unlink_turn (h : s.Inv) {slot : Layout × κ} (hunused : Lockfiles.Unused s.grips slot)
    (hplain : phase.plain = true) (hgrip : phase.grip = s.grips p) :
    ((s.unlink slot).turn p phase).Inv := by
  refine h.move_plain hplain ?_ (.inl (congrArg Grip.path hgrip)) (fun _ => .inl rfl) h.bound
  rw [hgrip,Function.update_eq_self]
  exact h.files.unlink hunused

theorem Inv.openAt (h : s.Inv) (c : Command) (k : κ) (suspect : Bool)
    (hunused : Lockfiles.Unused s.grips (c.layout.other,k)) :
    (({ s with files := (s.files.openAt (c.layout,k)).1 } : Cache κ).turn p
      (.wait c k (s.files.openAt (c.layout,k)).2 suspect)).Inv :=
  h.move_plain rfl (h.files.openAt p (c.layout,k)) (.inr (.inr ⟨_,_,rfl,hunused⟩)) (fun _ => .inl rfl) h.bound

/-- A step of a process by itself. -/
theorem Inv.go (h : s.Inv) (hok : s.Careful (p,.go)) {o : Option Removal} (hs : s.go p = some (s',o)) :
    s'.Inv ∧ ∀ r ∈ o, r.Licit := by
  unfold Cache.go at hs
  unfold Careful at hok
  cases hphase : s.procs p with
  | idle =>
    rw [hphase] at hs
    cases hs
  | look c k =>
    have hgrip : s.grips p = .free := by rw [grips,hphase]; rfl
    simp only [hphase] at hs
    split at hs
    · cases hs
      refine ⟨?_,licit_none⟩
      by_cases hc : c = .build
      · rw [if_pos hc]
        exact h.turn rfl hgrip.symm
      · rw [if_neg hc]
        exact h.turn rfl hgrip.symm
    · cases hs
      exact ⟨h.turn rfl hgrip.symm,licit_none⟩
  | restore c k =>
    rw [hphase] at hs
    cases hs
  | clear c k todo seen suspect =>
    have hgrip : s.grips p = .free := by rw [grips,hphase]; rfl
    cases todo with
    | nil =>
      simp only [hphase] at hs hok
      cases hs
      exact ⟨h.openAt c k suspect hok,licit_none⟩
    | cons target todo =>
      cases target with
      | entry layout =>
        simp only [hphase] at hs hok
        cases hs
        exact ⟨h.remove_turn (layout,k) rfl hgrip.symm,licit_removal hok⟩
      | lockfile layout =>
        simp only [hphase] at hs hok
        cases hs
        exact ⟨h.unlink_turn hok rfl hgrip.symm,licit_none⟩
  | wait c k i suspect =>
    simp only [hphase] at hs
    obtain ⟨files,hlock,heq⟩ := Option.map_eq_some_iff.mp hs
    cases heq
    exact ⟨h.flock hphase hlock,licit_none⟩
  | locked c k i suspect =>
    have hgrip : s.grips p = .held (c.layout,k) i := by rw [grips,hphase]; rfl
    by_cases hc : c = .rebuild
    · subst hc
      simp only [hphase] at hs
      cases hs
      exact ⟨h.begin hgrip.symm fun hne => absurd rfl hne,licit_none⟩
    · cases suspect with
      | true =>
        cases c with
        | rebuild => exact absurd rfl hc
        | _ =>
          rw [hphase] at hs
          cases hs
      | false =>
        -- the three commands that look again under the lock
        have hlook : (if (s.entries (c.layout,k)).isSome then some (s.turn p (.served c k i),none)
            else some (s.turn p (.building c k i (some s.installs)),none)) = some (s',o) := by
          cases c with
          | rebuild => exact absurd rfl hc
          | _ =>
            rw [hphase] at hs
            exact hs
        split at hlook
        · cases hlook
          exact ⟨h.turn rfl hgrip.symm,licit_none⟩
        · next hnone =>
          cases hlook
          exact ⟨h.begin hgrip.symm fun _ => Option.not_isSome_iff_eq_none.mp hnone,licit_none⟩
  | condemned k i entry seen =>
    have hgrip : s.grips p = .held (.lab,k) i := by rw [grips,hphase]; rfl
    simp only [hphase] at hs
    cases hs
    refine ⟨h.remove_turn (.lab,k) rfl hgrip.symm,?_⟩
    intro r hr
    obtain ⟨e,he,rfl⟩ := Option.map_eq_some_iff.mp hr
    obtain ⟨hentry,hseen⟩ := h.condemned p k i entry seen hphase e he
    refine ⟨.inr ?_,?_⟩
    · -- the lock is held still, and it is the lock of the path
      rw [if_pos (h.files.held p (.lab,k) i hgrip),hentry]
    · intro n hn
      cases hn
      exact hseen
  | building c k i seen =>
    rw [hphase] at hs
    cases hs
  | replacing k i seen =>
    have hgrip : s.grips p = .held (.vm,k) i := by rw [grips,hphase]; rfl
    simp only [hphase] at hs hok
    cases hs
    exact ⟨h.remove_turn (.lab,k) rfl hgrip.symm,licit_removal hok⟩
  | placing c k i =>
    have hgrip : s.grips p = .held (c.layout,k) i := by rw [grips,hphase]; rfl
    simp only [hphase] at hs
    split at hs
    · cases hs
      exact ⟨h.leave p,licit_none⟩
    · cases hs
      exact ⟨h.install_turn ⟨_,_,hgrip⟩ rfl hgrip.symm,licit_none⟩
  | served c k i =>
    rw [hphase] at hs
    cases hs
  | evicted slot =>
    have hgrip : s.grips p = .free := by rw [grips,hphase]; rfl
    simp only [hphase] at hs hok
    cases hs
    exact ⟨h.unlink_turn hok rfl hgrip.symm,licit_none⟩

/-- The end of a build. -/
theorem Inv.built (h : s.Inv) {outcome : Built} (hok : s.Careful (p,.built outcome)) {o : Option Removal}
    (hs : s.built p outcome = some (s',o)) : s'.Inv ∧ ∀ r ∈ o, r.Licit := by
  unfold Cache.built at hs
  split at hs
  case h_2 => cases hs
  case h_1 c k i seen hphase =>
    have hgrip : s.grips p = .held (c.layout,k) i := by rw [grips,hphase]; rfl
    have hholds : s.Holds p k := ⟨_,_,hgrip⟩
    unfold Careful at hok
    simp only [hphase] at hok
    cases c with
    | vmFixture =>
      cases outcome with
      | vm =>
        cases hs
        exact ⟨h.install_turn hholds rfl hgrip.symm,licit_removal (h.absent p _ k i seen hphase (by decide))⟩
      | lab =>
        cases hs
        exact ⟨h.leave p,licit_none⟩
    | labFixture =>
      cases outcome with
      | vm =>
        cases hs
        exact ⟨h.leave p,licit_none⟩
      | lab =>
        cases hs
        exact ⟨h.install_turn hholds rfl hgrip.symm,licit_removal (h.absent p _ k i seen hphase (by decide))⟩
    | build =>
      cases outcome with
      | vm =>
        cases hs
        exact ⟨h.install_turn hholds rfl hgrip.symm,licit_removal (h.absent p _ k i seen hphase (by decide))⟩
      | lab =>
        cases hs
        exact ⟨h.turn rfl hgrip.symm,licit_none⟩
    | rebuild =>
      cases outcome with
      | vm =>
        cases hs
        exact ⟨h.install_turn hholds rfl hgrip.symm,licit_removal hok⟩
      | lab =>
        cases hs
        exact ⟨h.turn rfl hgrip.symm,licit_none⟩

/-- What a step keeps that meets the condition, and the removal that it may be. -/
theorem Inv.step (h : s.Inv) {a : ℕ × Move κ} (hok : s.Careful a) {o : Option Removal}
    (hs : s.step a = some (s',o)) : s'.Inv ∧ ∀ r ∈ o, r.Licit := by
  obtain ⟨p,m⟩ := a
  cases m with
  | start c k =>
    unfold Cache.step at hs
    simp only at hs
    split at hs
    case isFalse => cases hs
    case isTrue hidle =>
      have hgrip : s.grips p = .free := by rw [grips,hidle]; rfl
      cases hs
      refine ⟨?_,licit_none⟩
      split
      · exact h.turn rfl hgrip.symm
      · exact h.turn rfl hgrip.symm
  | evict slot =>
    unfold Cache.step at hs
    simp only at hs
    split at hs
    case isFalse => cases hs
    case isTrue hidle =>
      have hgrip : s.grips p = .free := by rw [grips,hidle]; rfl
      obtain ⟨e,-,heq⟩ := Option.map_eq_some_iff.mp hs
      cases heq
      refine ⟨h.remove_turn slot rfl hgrip.symm,?_⟩
      intro r hr
      cases hr
      exact ⟨.inl rfl,fun n hn => by cases hn⟩
  | go => exact h.go hok hs
  | restored usable => exact h.restored hs
  | built outcome => exact h.built hok hs
  | leave =>
    unfold Cache.step at hs
    simp only at hs
    split at hs
    · cases hs
    · cases hs
      exact ⟨h.leave p,licit_none⟩

theorem inv_start (lockfiles entries : List (Layout × κ)) : (start lockfiles entries).Inv := by
  refine ⟨⟨?_,?_⟩,?_,?_,?_,?_⟩
  · intro p path i hp
    cases hp
  · intro p path i hp
    cases hp
  · intro p q k hp
    cases hp
  · intro p c k i seen hp
    cases hp
  · intro p k i entry seen hp
    cases hp
  · intro slot e he
    change (if slot ∈ entries then some (entries.idxOf slot) else none) = some e at he
    split at he
    · next hin =>
      cases he
      exact List.idxOf_lt_length_of_mem hin
    · cases he

/-- In a run of any number of processes on one cache directory all of whose steps are careful, each key has
one builder, and every removal of an entry is licit. -/
theorem one_builder {lockfiles entries : List (Layout × κ)} {as : List (ℕ × Move κ)}
    {os : List (Option Removal)} (hok : (cacheMachine κ).Obeys Cache.Careful (start lockfiles entries) as)
    (hrun : (cacheMachine κ).run (start lockfiles entries) as = some (s,os)) :
    s.OneBuilder ∧ ∀ o ∈ os, ∀ r ∈ o, r.Licit := by
  have hrun' := @Machine.run_history_obeys _ _ _ (cacheMachine κ)
    (fun _ seen s => s.Inv ∧ ∀ o ∈ seen, ∀ r ∈ o, r.Licit) _ ?_ [] as [] os _ s
    ⟨inv_start lockfiles entries,fun o ho => by cases ho⟩ hok hrun
  · exact ⟨hrun'.1.oneBuilder,hrun'.2⟩
  · rintro past seen s a s' o ⟨hinv,hseen⟩ hcareful hstep
    obtain ⟨hinv',hlicit⟩ := hinv.step hcareful hstep
    refine ⟨hinv',?_⟩
    intro o' ho'
    rcases List.mem_append.mp ho' with ho' | ho'
    · exact hseen o' ho'
    · rw [List.mem_singleton.mp ho']
      exact hlicit

/-- A snapshot is evicted. Then two processes find a lab corrupt; the first one evicts and builds it under the
lock, and the second one finds it restored. -/
def carefulRun : List (ℕ × Move ℕ) :=
  [(2,.evict (.vm,3)),(2,.go),(0,.start .labFixture 7),(0,.go),(0,.restored false),(1,.start .labFixture 7),
    (1,.go),(1,.restored false),(0,.go),(1,.go),(0,.go),(0,.restored false),(0,.go),(0,.go),(0,.built .lab),
    (0,.leave),(1,.go),(1,.restored true),(1,.leave)]

def carefulStart : Cache ℕ := start [(.lab,7),(.vm,3)] [(.lab,7),(.vm,3)]

theorem obeys_carefulRun : (cacheMachine ℕ).Obeys Cache.Careful carefulStart carefulRun := by
  refine Machine.Obeys.cons _ rfl trivial ?_
  refine Machine.Obeys.cons _ rfl ?_ ?_
  · intro p hp
    match p with
    | 0 => cases hp
    | 1 => cases hp
    | 2 => cases hp
    | _+3 => cases hp
  refine Machine.Obeys.cons _ rfl trivial ?_
  refine Machine.Obeys.cons _ rfl trivial ?_
  refine Machine.Obeys.cons _ rfl trivial ?_
  refine Machine.Obeys.cons _ rfl trivial ?_
  refine Machine.Obeys.cons _ rfl trivial ?_
  refine Machine.Obeys.cons _ rfl trivial ?_
  refine Machine.Obeys.cons _ rfl ?_ ?_
  · intro p hp
    match p with
    | 0 => cases hp
    | 1 => cases hp
    | 2 => cases hp
    | _+3 => cases hp
  refine Machine.Obeys.cons _ rfl ?_ ?_
  · intro p hp
    match p with
    | 0 => cases hp
    | 1 => cases hp
    | 2 => cases hp
    | _+3 => cases hp
  refine Machine.Obeys.cons _ rfl trivial ?_
  refine Machine.Obeys.cons _ rfl trivial ?_
  refine Machine.Obeys.cons _ rfl trivial ?_
  refine Machine.Obeys.cons _ rfl trivial ?_
  refine Machine.Obeys.cons _ rfl trivial ?_
  refine Machine.Obeys.cons _ rfl trivial ?_
  refine Machine.Obeys.cons _ rfl trivial ?_
  refine Machine.Obeys.cons _ rfl trivial ?_
  exact Machine.Obeys.cons _ rfl trivial trivial

theorem one_builder_carefulRun : ∃ s os,
    (cacheMachine ℕ).run carefulStart carefulRun = some (s,os) ∧
      (s.OneBuilder ∧ ∀ o ∈ os, ∀ r ∈ o, r.Licit) ∧
      os.reduceOption = [⟨1,true,none,none⟩,⟨0,false,some 0,some 2⟩] :=
  ⟨_,_,rfl,one_builder obeys_carefulRun rfl,by decide +kernel⟩

/-- Two processes whose `vm_fixture` finds the snapshot corrupt, and what they do until the second one is
about to evict it too. -/
def corruptTwice : List (ℕ × Move ℕ) :=
  [(0,.start .vmFixture 7),(0,.go),(0,.restored false),(1,.start .vmFixture 7),(1,.go),(1,.restored false),
    (0,.go),(0,.go),(0,.go),(0,.go),(0,.go)]

/-- The second process unlinks the lockfile that the first one has locked and builds beside it; or it removes
the snapshot that the first one has installed. -/
theorem vm_fixture_evicts_peer :
    (∃ s os, (cacheMachine ℕ).run (start [(.vm,7)] [(.vm,7)])
        (corruptTwice++[(1,.go),(1,.go),(1,.go),(1,.go),(1,.go)]) = some (s,os) ∧ ¬s.OneBuilder) ∧
      ∃ s os, (cacheMachine ℕ).run (start [(.vm,7)] [(.vm,7)])
        (corruptTwice++[(0,.built .vm),(1,.go)]) = some (s,os) ∧
        some ⟨1,false,none,some 1⟩ ∈ os ∧ ¬Removal.Licit ⟨1,false,none,some 1⟩ := by
  refine ⟨⟨_,_,rfl,?_⟩,⟨_,_,rfl,by decide +kernel,?_⟩⟩
  · intro h
    cases h 7 0 1 rfl rfl
  · intro h
    exact absurd (h.2 1 rfl) (by decide)

end Cache

end Provium.Fixture
