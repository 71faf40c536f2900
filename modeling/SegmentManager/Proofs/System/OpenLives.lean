import SegmentManager.Proofs.System.OpenIndexes

/-!
# Open indexes in the simulated world

The simulated world keeps a life for every instance that was ever made, and a
life tells whether its index is open.  What the lives tell is what the journal
tells, so no more indexes are open than the manager's budget allows.
-/

namespace SegmentManager

/-! ## What sites go through -/

inductive Evolves {W : Type} [Backend W] (site : Site W) : Site W → Prop
  | refl : Evolves site site
  | launch {site' : Site W} (m : Manager) (r : Record) (h : Evolves site site') :
      Evolves site (System.launch m r site').2
  | perform {site' : Site W} (action : Action) (i : Instance) (h : Evolves site site') :
      Evolves site (site'.perform action i).2

namespace Evolves

variable {W : Type} [Backend W] {site site' site'' : Site W}

theorem trans (h : Evolves site site') (h' : Evolves site' site'') : Evolves site site'' := by
  induction h' with
  | refl => exact h
  | launch m r _ ih => exact ih.launch m r
  | perform action i _ ih => exact ih.perform action i

theorem performAll (action : Action) (targets : List Instance) (site : Site W) :
    Evolves site (site.performAll action targets).2 := by
  induction targets generalizing site with
  | nil => exact .refl
  | cons i rest ih =>
      rw [Site.performAll_cons_snd]
      exact (Evolves.refl.perform action i).trans (ih _)

end Evolves

namespace System

variable {W : Type} [Backend W] {created : List Record} {s s' : System W} {c : CollectionId}
  {k : Capability}

theorem Loads.evolves {answer : Except Fault (Record × Instance)}
    (hload : Loads c k s answer s') : Evolves s.site s'.site := by
  have hlaunched : ∀ {m : Manager} {r : Record} {outcome : Except Fault Instance} {site : Site W},
      launch m r s.site = (outcome, site) → Evolves s.site site := by
    intro m r outcome site hlaunch
    have hevolves : Evolves s.site (launch m r s.site).2 := .launch m r .refl
    rwa [hlaunch] at hevolves
  cases hload with
  | refused fault => exact .refl
  | running hadmits hrunning => exact .refl
  | failed hadmits hnone hlaunch => exact hlaunched hlaunch
  | launched hadmits hnone hlaunch => exact hlaunched hlaunch

theorem evolves_evictAll (gone : List (CollectionId × Record)) (s : System W) :
    Evolves s.site (s.evictAll gone).site := by
  induction gone generalizing s with
  | nil => exact .refl
  | cons e rest ih =>
      have hfirst := Evolves.performAll .stop (s.manager.running? e.2.id).toList s.site
      rw [← site_evict] at hfirst
      exact hfirst.trans (ih _)

theorem Looks.evolves {answer : Except Fault Instance} (hlook : Looks c k s answer s') :
    Evolves s.site s'.site := by
  cases hlook with
  | cached hcached hrunning => exact .refl
  | failed habsent hload => exact hload.evolves
  | loaded habsent hload =>
      rename_i r i s₁
      have hevicted : Evolves s₁.site (s₁.remember r k.scope).site :=
        evolves_evictAll _ (s₁.caching r k.scope)
      exact hload.evolves.trans hevicted

theorem Tracks.evolves {i : Instance} {answer : Except Fault Unit}
    (htracks : Tracks c i s answer s') : Evolves s.site s'.site := by
  cases htracks with
  | skipped => exact .refl
  | refused hpersistent hperform => exact .perform .openIndex i .refl
  | tracked hbefore hpersistent hperform =>
      simp only [Site.closeAll_eq]
      exact (Evolves.refl.perform .openIndex i).trans (.performAll _ _ _)

theorem Hints.evolves {answer : Except Fault Unit} (hhints : Hints c s answer s') :
    Evolves s.site s'.site := by
  cases hhints with
  | remote hdeployment => exact .refl
  | first hfirst => exact hfirst.evolves
  | second hfirst hsecond => exact hfirst.evolves.trans hsecond.evolves
  | both hfirst hsecond hlast => exact (hfirst.evolves.trans hsecond.evolves).trans hlast.evolves

theorem Clears.evolves {answer : Except Fault (List SegmentId)} (hclears : Clears c s answer s') :
    Evolves s.site s'.site := by
  have hasked : ∀ {action visited asked counted s'},
      TakenDown action visited asked counted (s.listing c) s' →
      Evolves s.site (s'.forgetAll c).site := by
    intro action visited asked counted s' hdown
    have hsite : (s'.forgetAll c).site = (s.site.performAll action asked).2 := hdown.site
    rw [hsite]
    exact .performAll action asked s.site
  cases hclears with
  | refused hrefusal => exact .refl
  | released hdeployment hdown => exact hasked hdown
  | deleted hdeployment hdeletes =>
      cases hdeletes with
      | complete hok hdown => exact hasked hdown
      | broken hsplit hrunning hok hfails hdown => exact hasked hdown

theorem Coherent.evolves_handle (hs : s.Coherent created) (q : Request) :
    Evolves s.site (s.handle q).2.site := by
  cases q with
  | get c k => exact (hs.looks_getSegment c k).evolves
  | getNamed c name =>
      change Evolves s.site (s.getSegmentNamed c name).2.site
      unfold System.getSegmentNamed
      cases Capability.ofName? name with
      | none => exact .refl
      | some k => exact (hs.looks_getSegment c k).evolves
  | hint c operation => exact (hs.hints_hint c operation).evolves
  | delete c => exact (hs.clears_deleteSegments c).evolves
  | start order => exact .performAll .start _ _
  | stop order => exact .performAll .stop _ _
  | reset order => exact .performAll .stop _ _

end System

/-! ## Lives -/

theorem Action.leavesOpen?_effective (action : Action) (actor : Simulation.Actor) :
    (actor.effective action).leavesOpen? = action.leavesOpen? := by
  cases actor with
  | plain => cases action <;> rfl
  | keeper persistent => rfl
  | standIn persistent handles => rfl

namespace Simulation

namespace Life

@[simp] theorem self_after (l : Life) (action : Action) : (l.after action).self = l.self := by
  cases action <;> rfl

theorem indexOpen_after (l : Life) (action : Action) :
    (l.after action).indexOpen = action.leavesOpen?.getD l.indexOpen := by
  cases action <;> rfl

theorem indexOpen_of_unchanged {l : Life} {action : Action} (h : l.changes action = false) :
    l.indexOpen = action.leavesOpen?.getD l.indexOpen := by
  unfold changes at h
  split at h
  · rw [Bool.not_eq_false'] at h
    rw [h]
    rfl
  · rw [h]
    rfl
  · cases h

end Life

namespace World

variable {w : World} {action : Action} {i : Instance} {l : Life}

theorem lives_removeFiles (w : World) (root : Option String) (segment : SegmentId) :
    (w.removeFiles root segment).2.lives = w.lives := by
  unfold removeFiles
  split
  · rfl
  · simp only
    split
    · rfl
    · split <;> rfl

/-- What a call does to the lives: nothing if it has no life to go to or fails at
once, else the life that it goes to goes on.  Only a deletion may still fail then. -/
theorem perform_cases (w : World) (action : Action) (i : Instance) :
    (w.life? i = none ∧ (w.perform action i).2.lives = w.lives) ∨
    ((w.perform action i).1.isOk = false ∧ (w.perform action i).2.lives = w.lives) ∨
    ∃ life, w.life? i = some life ∧
      ((w.perform action i).1.isOk = true ∨ action = .delete) ∧
      (w.perform action i).2.lives =
        (if life.changes (life.actor.effective action) then
          w.withLife (life.after (life.actor.effective action)) else w).lives := by
  unfold perform
  cases hlife : w.life? i with
  | none => exact .inl ⟨rfl, rfl⟩
  | some life =>
      simp only
      split
      · exact .inr (.inl ⟨rfl, rfl⟩)
      · refine .inr (.inr ⟨life, rfl, ?_⟩)
        split
        · rename_i persistent hactor heffective
          refine ⟨.inr ?_, lives_removeFiles _ _ _⟩
          rw [hactor] at heffective
          exact heffective
        · exact ⟨.inl rfl, rfl⟩

/-- A life after a call is the life of an instance before it.  If its index is
open then, the call opened it or left it open. -/
theorem mem_lives_perform (hdistinct : (w.lives.map (·.self.serial)).Nodup)
    (hl : l ∈ (w.perform action i).2.lives) :
    ∃ before ∈ w.lives, l.self = before.self ∧ (l.indexOpen = true →
      (if (w.perform action i).1.isOk = true ∧ i.serial = before.self.serial then
        action.leavesOpen?.getD before.indexOpen else before.indexOpen) = true) := by
  rcases perform_cases w action i with ⟨hnone, hlives⟩ | ⟨hfails, hlives⟩ |
    ⟨life, hlife, hok, hlives⟩
  · rw [hlives] at hl
    refine ⟨l, hl, rfl, fun hopen => ?_⟩
    rw [if_neg, hopen]
    rintro ⟨-, hserial⟩
    have hother := List.find?_eq_none.mp hnone l hl
    exact hother (by simpa using hserial.symm)
  · rw [hlives] at hl
    refine ⟨l, hl, rfl, fun hopen => ?_⟩
    rw [hfails, if_neg, hopen]
    rintro ⟨⟨⟩, -⟩
  · have hmem : life ∈ w.lives := List.mem_of_find?_eq_some hlife
    have hserial : life.self.serial = i.serial := by simpa using List.find?_some hlife
    -- A deletion that fails late has released the index all the same.
    have hreleased : ∀ open?, action.leavesOpen?.getD life.indexOpen = open? → open? = true →
        (if (w.perform action i).1.isOk = true ∧ i.serial = life.self.serial then
          action.leavesOpen?.getD life.indexOpen else life.indexOpen) = true := by
      rintro open? rfl hopen
      rcases hok with hok | rfl
      · rw [if_pos ⟨hok, hserial.symm⟩, hopen]
      · cases hopen
    rw [hlives] at hl
    split at hl
    · obtain ⟨before, hbefore, rfl⟩ := List.mem_map.mp hl
      rw [Life.self_after]
      split
      · refine ⟨life, hmem, Life.self_after _ _, fun hopen => hreleased _ ?_ hopen⟩
        rw [Life.indexOpen_after, Action.leavesOpen?_effective]
      · rename_i hother
        refine ⟨before, hbefore, rfl, fun hopen => ?_⟩
        rw [if_neg, hopen]
        rintro ⟨-, hsame⟩
        exact hother (hsame.symm.trans hserial.symm)
    · rename_i hunchanged
      refine ⟨l, hl, rfl, fun hopen => ?_⟩
      by_cases hsame : l.self.serial = life.self.serial
      · obtain rfl : l = life := List.inj_on_of_nodup_map hdistinct hl hmem hsame
        refine hreleased _ ?_ hopen
        rw [← Action.leavesOpen?_effective action l.actor]
        exact (Life.indexOpen_of_unchanged (by simpa using hunchanged)).symm
      · rw [if_neg, hopen]
        rintro ⟨-, hi⟩
        exact hsame (hi.symm.trans hserial.symm)

theorem serials_perform (w : World) (action : Action) (i : Instance) :
    (w.perform action i).2.lives.map (·.self.serial) = w.lives.map (·.self.serial) := by
  rcases perform_cases w action i with ⟨-, hlives⟩ | ⟨-, hlives⟩ | ⟨life, -, -, hlives⟩
  · rw [hlives]
  · rw [hlives]
  · rw [hlives]
    split
    · change (w.lives.map _).map _ = _
      rw [List.map_map]
      apply List.map_congr_left
      intro l hl
      simp only [Function.comp_apply]
      split
      · rename_i hsame
        exact hsame.symm
      · rfl
    · rfl

end World

structure Truthful (site : Site World) : Prop where
  serial : ∀ l ∈ site.world.lives, l.self.serial < site.built
  distinct : (site.world.lives.map (·.self.serial)).Nodup
  told : ∀ l ∈ site.world.lives, l.indexOpen = true → site.indexOpen l.self.serial = true

def Started (site : Site World) : Prop :=
  ∀ l ∈ site.world.lives, ∃ ok, Call.act .start l.self ok ∈ site.journal

section Sites

variable {site site' : Site World}

theorem Truthful.perform (h : Truthful site) (action : Action) (i : Instance) :
    Truthful (site.perform action i).2 := by
  refine ⟨?_, ?_, ?_⟩
  · intro l hl
    obtain ⟨before, hbefore, hself, -⟩ := World.mem_lives_perform h.distinct hl
    rw [hself]
    exact h.serial before hbefore
  · change ((site.world.perform action i).2.lives.map _).Nodup
    rw [World.serials_perform]
    exact h.distinct
  · intro l hl hopen
    obtain ⟨before, hbefore, hself, hindex⟩ := World.mem_lives_perform h.distinct hl
    have htold := hindex hopen
    have hok : (site.perform action i).1 = (site.world.perform action i).1 := rfl
    rw [Site.indexOpen_perform, hself, hok]
    split at htold
    · rename_i hcond
      rw [if_pos hcond]
      cases hleaves : action.leavesOpen? with
      | none =>
          rw [hleaves] at htold
          exact h.told before hbefore htold
      | some open? =>
          rw [hleaves] at htold
          exact htold
    · rename_i hcond
      rw [if_neg hcond]
      exact h.told before hbefore htold

theorem Started.perform (hdistinct : (site.world.lives.map (·.self.serial)).Nodup)
    (h : Started site) (action : Action) (i : Instance) : Started (site.perform action i).2 := by
  intro l hl
  obtain ⟨before, hbefore, hself, -⟩ := World.mem_lives_perform hdistinct hl
  obtain ⟨ok, hmem⟩ := h before hbefore
  rw [hself]
  exact ⟨ok, List.mem_cons_of_mem _ hmem⟩

theorem build_cases (root : Option String) (r : Record) (site : Site World) :
    (∃ fault, site.build root r =
      (.error fault, { site with journal := .build r false :: site.journal })) ∨
    ∃ i actor, i.serial = site.built ∧ site.build root r =
      (.ok i, ⟨site.world.adopt root i actor, site.built + 1, .build r true :: site.journal⟩) := by
  have hworld : (∃ fault, Backend.build root site.built r site.world = (.error fault, site.world)) ∨
      ∃ views actor, Backend.build root site.built r site.world =
        (.ok views, site.world.adopt root ⟨site.built, r, views⟩ actor) := by
    change (∃ fault, World.build root site.built r site.world = _) ∨
      ∃ views actor, World.build root site.built r site.world = _
    unfold World.build
    split
    · exact .inl ⟨_, rfl⟩
    · split
      · exact .inl ⟨_, rfl⟩
      · exact .inr ⟨_, _, rfl⟩
  unfold Site.build
  rcases hworld with ⟨fault, hfault⟩ | ⟨views, actor, hok⟩
  · rw [hfault]
    exact .inl ⟨fault, rfl⟩
  · rw [hok]
    exact .inr ⟨⟨site.built, r, views⟩, actor, rfl, rfl⟩

theorem Truthful.adopt (h : Truthful site) {i : Instance} (hi : i.serial = site.built)
    (root : Option String) (actor : Actor) (r : Record) :
    Truthful ⟨site.world.adopt root i actor, site.built + 1, .build r true :: site.journal⟩ := by
  refine ⟨?_, ?_, ?_⟩
  · intro l hl
    rcases List.mem_cons.mp hl with rfl | hold
    · exact hi.trans_lt (Nat.lt_succ_self _)
    · exact Nat.lt_succ_of_lt (h.serial l hold)
  · refine List.nodup_cons.mpr ⟨?_, h.distinct⟩
    intro hmem
    obtain ⟨l, hl, hserial⟩ := List.mem_map.mp hmem
    have hless := h.serial l hl
    rw [hserial] at hless
    exact hless.ne hi
  · intro l hl hopen
    rcases List.mem_cons.mp hl with rfl | hold
    · cases hopen
    · exact h.told l hold hopen

/-- An instance is started as soon as it is made, so a launch keeps the journal
complete though its first half does not. -/
theorem truthful_launch (h : Truthful site) (hstarted : Started site) (m : Manager) (r : Record) :
    Truthful (System.launch m r site).2 ∧ Started (System.launch m r site).2 := by
  unfold System.launch Registry.instantiate
  by_cases hknown : m.kinds.knows r.kind = true
  · rw [if_pos hknown]
    rcases build_cases m.persistDirectory r site with ⟨fault, hbuild⟩ | ⟨i, actor, hi, hbuild⟩
    · rw [hbuild]
      refine ⟨⟨h.serial, h.distinct, h.told⟩, ?_⟩
      intro l hl
      obtain ⟨ok, hmem⟩ := hstarted l hl
      exact ⟨ok, List.mem_cons_of_mem _ hmem⟩
    · rw [hbuild]
      generalize hmade : (⟨site.world.adopt m.persistDirectory i actor, site.built + 1,
        .build r true :: site.journal⟩ : Site World) = made
      have htruthful : Truthful made := hmade ▸ h.adopt hi m.persistDirectory actor r
      have hlaunched : Truthful (made.perform .start i).2 ∧ Started (made.perform .start i).2 := by
        refine ⟨htruthful.perform .start i, ?_⟩
        intro l hl
        obtain ⟨before, hbefore, hself, -⟩ := World.mem_lives_perform htruthful.distinct hl
        rw [hself]
        rw [← hmade] at hbefore
        rcases List.mem_cons.mp hbefore with rfl | hold
        · exact ⟨_, List.mem_cons_self⟩
        · obtain ⟨ok, hmem⟩ := hstarted before hold
          refine ⟨ok, List.mem_cons_of_mem _ ?_⟩
          rw [← hmade]
          exact List.mem_cons_of_mem _ hmem
      simp only
      cases hperform : made.perform .start i with
      | mk outcome site' =>
          rw [hperform] at hlaunched
          cases outcome with
          | error fault => exact hlaunched
          | ok done => exact hlaunched
  · rw [if_neg hknown]
    exact ⟨h, hstarted⟩

theorem Truthful.evolves (hevolves : Evolves site site') (h : Truthful site)
    (hstarted : Started site) : Truthful site' ∧ Started site' := by
  induction hevolves with
  | refl => exact ⟨h, hstarted⟩
  | launch m r _ ih => exact truthful_launch ih.1 ih.2 m r
  | perform action i _ ih => exact ⟨ih.1.perform action i, ih.2.perform ih.1.distinct action i⟩

end Sites

end Simulation

/-! ## Histories -/

open Simulation

/-- The world goes its own way, but touches no instance. -/
def Event.KeepsLives (events : List (Event World)) : Prop :=
  ∀ change, Event.elapse change ∈ events → ∀ w : World, (change w).lives = w.lives

namespace System

variable {g : Registry} {m : Manager} {w : World} {events : List (Event World)}
  {settings : Settings}

theorem truthful_replay (hm : m.Fresh) (hnone : w.lives = []) (hids : Event.NeverShared events)
    (hlives : Event.KeepsLives events) :
    Truthful ((initial m w).replay events).site ∧ Started ((initial m w).replay events).site := by
  revert hids hlives
  induction events using List.reverseRecOn with
  | nil =>
      intro hids hlives
      have hempty : ∀ l, l ∉ w.lives := by simp [hnone]
      refine ⟨⟨fun l hl => (hempty l hl).elim, ?_, fun l hl => (hempty l hl).elim⟩,
        fun l hl => (hempty l hl).elim⟩
      change (w.lives.map _).Nodup
      simp [hnone]
  | append_singleton events e ih =>
      intro hids hlives
      obtain ⟨htruthful, hstarted⟩ := ih hids.of_append
        fun change hmem => hlives change (List.mem_append_left _ hmem)
      have hcoherent := coherent_replay hm w hids.of_append
      rw [replay_concat]
      cases e with
      | request q => exact htruthful.evolves (hcoherent.evolves_handle q) hstarted
      | enter rows => exact ⟨htruthful, hstarted⟩
      | withdraw c => exact ⟨htruthful, hstarted⟩
      | refuse text => exact ⟨htruthful, hstarted⟩
      | regroup members => exact ⟨htruthful, hstarted⟩
      | elapse change =>
          have hsame := hlives change (by simp) ((initial m w).replay events).site.world
          refine ⟨⟨?_, ?_, ?_⟩, ?_⟩
          · change ∀ l ∈ (change _).lives, _
            rw [hsame]
            exact htruthful.serial
          · change ((change _).lives.map _).Nodup
            rw [hsame]
            exact htruthful.distinct
          · change ∀ l ∈ (change _).lives, _
            rw [hsame]
            exact htruthful.told
          · change ∀ l ∈ (change _).lives, _
            rw [hsame]
            exact hstarted

theorem eq_of_serial (hm : m.Fresh) (hids : Event.NeverShared events) {l : Life}
    (hstarted : ∃ ok, Call.act .start l.self ok ∈ ((initial m w).replay events).site.journal)
    {i : Instance} (hrunning : ((initial m w).replay events).manager.running? i.record.id = some i)
    (hserial : i.serial = l.self.serial) : i = l.self := by
  obtain ⟨-, hjournal, hledger⟩ := ledger_replay hm w hids
  have hbooked := Booked.of_ledger hledger
  apply hbooked.same i l.self ((hbooked.running_iff i).mp hrunning).ne_nil _ hserial
  obtain ⟨ok, hmem⟩ := hstarted
  rw [hjournal, List.mem_reverse] at hmem
  obtain ⟨⟨q, call⟩, hnoted, hcall⟩ := List.mem_map.mp hmem
  obtain rfl : call = .act .start l.self ok := hcall
  have hcalled : (⟨q, .start, ok⟩ : Asked) ∈ callsOn l.self ((initial m w).trace events) :=
    mem_callsOn_iff.mpr hnoted
  exact List.ne_nil_of_mem hcalled

theorem countP_indexOpen_le {o : OpenIndexes} (ho : m.openIndexes = some o) {lives : List Life}
    (hdistinct : (lives.map (·.self.serial)).Nodup)
    (htracked : ∀ l ∈ lives, l.indexOpen = true →
      m.tracked? l.self.record.collection = some l.self) :
    lives.countP (·.indexOpen) ≤ o.count := by
  have hkept : ∀ l ∈ lives.filter (·.indexOpen), l ∈ lives ∧
      m.tracked? l.self.record.collection = some l.self := by
    intro l hl
    obtain ⟨hmem, hopen⟩ := List.mem_filter.mp hl
    exact ⟨hmem, htracked l hmem hopen⟩
  have hnodup : ((lives.filter (·.indexOpen)).map (·.self.record.collection)).Nodup := by
    refine (hdistinct.of_map.filter _).map_on ?_
    intro l hl l' hl' hsame
    obtain ⟨hmem, hself⟩ := hkept l hl
    obtain ⟨hmem', hself'⟩ := hkept l' hl'
    rw [hsame, hself'] at hself
    exact List.inj_on_of_nodup_map hdistinct hmem hmem' (by rw [Option.some.inj hself])
  have hkeys : (lives.filter (·.indexOpen)).map (·.self.record.collection) ⊆ o.tracked.keys := by
    intro c hc
    obtain ⟨l, hl, rfl⟩ := List.mem_map.mp hc
    obtain ⟨-, hself⟩ := hkept l hl
    unfold Manager.tracked? at hself
    rw [ho] at hself
    by_contra hc
    rw [Option.bind_some, (RecencyCache.peek?_eq_none_iff _ _).mpr hc] at hself
    cases hself
  have hle := (List.subperm_of_subset hnodup hkeys).length_le
  rw [List.length_map, ← List.countP_eq_length_filter] at hle
  exact hle.trans_eq (List.length_map _)

/-- Only hints open an index, but it is let go with the memory of its collection,
to make room for another one, when all instances are stopped, with a deletion and
with a reset.  In whatever order these come, the open indexes, of all instances
ever made, are those of tracked instances, and the budget has room for them.  All
this as long as rows are withdrawn only after their collection was deleted, and no
call fails that releases an index. -/
theorem opened_lives_are_tracked (hm : Manager.inProcess settings g = .ok m)
    (hpersistent : settings.isPersistent = true) (hnone : w.lives = [])
    (hids : Event.NeverShared events) (hlives : Event.KeepsLives events)
    (htidy : (initial m w).Tidy events)
    (hnever : ((initial m w).replay events).site.NeverStuck) :
    let s := (initial m w).replay events
    (∀ l ∈ s.site.world.lives, l.indexOpen = true →
      s.manager.tracked? l.self.record.collection = some l.self) ∧
    ∃ o, s.manager.openIndexes = some o ∧
      o.budget = settings.handleLimit / Manager.handlesPerIndex settings m.kinds ∧
      s.site.world.lives.countP (·.indexOpen) ≤ o.budget := by
  intro s
  have hcoherent := coherent_replay (.inProcess hm) w hids
  obtain ⟨htruthful, hstarted⟩ := truthful_replay (.inProcess hm) hnone hids hlives
  obtain ⟨⟨o, ho, hwell, hbudget⟩, htracked⟩ := opened_replay hm hpersistent w hids htidy hnever
  have hlife : ∀ l ∈ s.site.world.lives, l.indexOpen = true →
      s.manager.tracked? l.self.record.collection = some l.self := by
    intro l hl hopen
    obtain ⟨i, hserial, hi⟩ := htracked _ (htruthful.told l hl hopen)
    have hself := eq_of_serial (.inProcess hm) hids (hstarted l hl) (hcoherent.tracked_runs hi)
      hserial
    rw [hself] at hi
    exact hi
  exact ⟨hlife, o, ho, hbudget,
    (countP_indexOpen_le ho htruthful.distinct hlife).trans hwell.count_le⟩

def frequented : List (Event World) :=
  [.enter (numberedRows 0), .enter (numberedRows 1), .enter (numberedRows 2),
   .request (.hint (numberedCollection 0).id .add),
   .request (.hint (numberedCollection 1).id .add),
   .request (.hint (numberedCollection 2).id .add), .request (.stop []),
   .request (.hint (numberedCollection 2).id .add),
   .request (.hint (numberedCollection 0).id .add)]

theorem frequented_indexes_fit :
    ∃ m, Manager.inProcess spaciousSettings keeperRegistry = .ok m ∧
      Event.NeverShared frequented ∧ Event.KeepsLives frequented ∧
      (initial m keeperWorld).Tidy frequented ∧
      let s := (initial m keeperWorld).replay frequented
      s.site.NeverStuck ∧ s.site.world.lives.countP (·.indexOpen) = 2 ∧
      (∀ l ∈ s.site.world.lives, l.indexOpen = true →
        s.manager.tracked? l.self.record.collection = some l.self) ∧
      ∃ o, s.manager.openIndexes = some o ∧ o.budget = 2 ∧
        s.site.world.lives.countP (·.indexOpen) ≤ o.budget := by
  have hids : Event.NeverShared frequented := by decide +kernel
  have hlives : Event.KeepsLives frequented := by
    intro change hmem
    simp [frequented] at hmem
  obtain ⟨m, hm⟩ : ∃ m, Manager.inProcess spaciousSettings keeperRegistry = .ok m := ⟨_, rfl⟩
  have htidy : (initial m keeperWorld).Tidy frequented := by
    rintro before c after hsplit
    have hmem : Event.withdraw c ∈ frequented := by simp [hsplit]
    simp [frequented] at hmem
  have hran : ∀ m, Manager.inProcess spaciousSettings keeperRegistry = .ok m →
      let s := (initial m keeperWorld).replay frequented
      s.site.journal.all Call.succeeded = true ∧ s.site.world.lives.countP (·.indexOpen) = 2 ∧
      spaciousSettings.handleLimit / Manager.handlesPerIndex spaciousSettings m.kinds = 2 := by
    rintro m ⟨⟩
    decide +kernel
  obtain ⟨hjournal, hopen, hbudget⟩ := hran m hm
  have hnever : ((initial m keeperWorld).replay frequented).site.NeverStuck :=
    fun action i _ => Site.notMem_of_succeeded hjournal action i
  obtain ⟨htracked, o, ho, hlimit, hfits⟩ :=
    opened_lives_are_tracked hm rfl rfl hids hlives htidy hnever
  exact ⟨m, hm, hids, hlives, htidy, hnever, hopen, htracked, o, ho, hlimit.trans hbudget, hfits⟩

end System

end SegmentManager
