import Mathlib.Data.List.Induction
import SegmentManager.System.Run

/-!
# Ledgers

A ledger lists calls, each with the request that it was made for.  A roster says
which instances run, how many were made, and whether one was made that was not
started yet; it decides which call may come next.  Along a ledger every
instance leads one life: it is started once, then used, then ended.
-/

namespace SegmentManager

namespace Request

def LooksUp : Request → Prop
  | get _ _ => True
  | getNamed _ _ => True
  | hint _ _ => True
  | _ => False

/-- What a request may ask of an instance that runs on. -/
inductive Passes : Request → Action → Prop
  | start (order : List SegmentId) : Passes (.start order) .start
  | stop (order : List SegmentId) : Passes (.stop order) .stop
  | openIndex (c : CollectionId) (operation : Operation) : Passes (.hint c operation) .openIndex
  | closeIndex (c : CollectionId) (operation : Operation) : Passes (.hint c operation) .closeIndex

/-- What a request asks of an instance that it takes out of the running ones:
for want of memory, with its collection, or with everything.  It depends on
whether the manager runs segments in its own process. -/
inductive Ends : Bool → Request → Action → Prop
  | evicted {q : Request} (hq : q.LooksUp) : Ends true q .stop
  | deleted (c : CollectionId) : Ends true (.delete c) .delete
  | released (c : CollectionId) : Ends false (.delete c) .stop
  | reset {own : Bool} (order : List SegmentId) : Ends own (.reset order) .stop

theorem Passes.not_ends {q : Request} {action : Action} (hpasses : Passes q action)
    (own : Bool) : ¬ Ends own q action := by
  intro hends
  cases hpasses with
  | start order => cases hends
  | stop order =>
      cases hends with
      | evicted hq => exact hq
  | openIndex c operation => cases hends
  | closeIndex c operation => cases hends

theorem Ends.eq_stop {own : Bool} {q : Request} {action : Action} (hends : Ends own q action)
    (hq : q.LooksUp) : action = .stop := by
  cases hends with
  | deleted c => exact hq.elim
  | evicted hq' => rfl
  | released c => rfl
  | reset order => rfl

theorem Passes.ne_stop {q : Request} {action : Action} (hpasses : Passes q action)
    (hq : q.LooksUp) : action ≠ .stop := by
  rintro rfl
  cases hpasses
  exact hq

end Request

/-! ## Lives -/

structure Asked where
  request : Request
  action : Action
  ok : Bool
deriving DecidableEq, Repr

abbrev Noted := Request × Call

namespace Noted

def of (i : Instance) : Noted → Option Asked
  | (q, .act action target ok) => if target = i then some ⟨q, action, ok⟩ else none
  | (_, .build _ _) => none

end Noted

def callsOn (i : Instance) (calls : List Noted) : List Asked := calls.filterMap (Noted.of i)

/-- Started, and asked for nothing since that an instance does not survive. -/
def Live (calls : List Asked) : Prop :=
  ∃ q uses, q.LooksUp ∧ calls = ⟨q, .start, true⟩ :: uses ∧
    ∀ a ∈ uses, Request.Passes a.request a.action

/-- Never started, or ended by the last call. -/
def Over (own : Bool) (calls : List Asked) : Prop :=
  (∃ q : Request, q.LooksUp ∧ calls = [⟨q, .start, false⟩]) ∨
    ∃ life last, Live life ∧ calls = life ++ [last] ∧ Request.Ends own last.request last.action

namespace Live

variable {calls : List Asked}

theorem ne_nil (h : Live calls) : calls ≠ [] := by
  obtain ⟨q, uses, -, rfl, -⟩ := h
  simp

theorem started {q : Request} (hq : q.LooksUp) : Live [⟨q, .start, true⟩] :=
  ⟨q, [], hq, rfl, by simp⟩

theorem pass (h : Live calls) {a : Asked} (ha : Request.Passes a.request a.action) :
    Live (calls ++ [a]) := by
  obtain ⟨q, uses, hq, rfl, huses⟩ := h
  refine ⟨q, uses ++ [a], hq, rfl, ?_⟩
  intro b hb
  rcases List.mem_append.mp hb with hold | hnew
  · exact huses b hold
  · rw [List.mem_singleton.mp hnew]
    exact ha

theorem passes_of_append {later : List Asked} (h : Live calls) (h' : Live (calls ++ later)) :
    ∀ a ∈ later, Request.Passes a.request a.action := by
  obtain ⟨q, uses, hq, rfl, huses⟩ := h
  obtain ⟨q', uses', hq', heq, huses'⟩ := h'
  rw [List.cons_append] at heq
  injection heq with hfirst hrest
  intro a ha
  apply huses' a
  rw [← hrest]
  exact List.mem_append_right uses ha

theorem ne_stop (h : Live calls) {a : Asked} (ha : a ∈ calls) (hq : a.request.LooksUp) :
    a.action ≠ .stop := by
  obtain ⟨q, uses, -, rfl, huses⟩ := h
  rcases List.mem_cons.mp ha with rfl | huse
  · simp
  · exact (huses a huse).ne_stop hq

theorem not_over (h : Live calls) (own : Bool) : ¬ Over own calls := by
  obtain ⟨q, uses, hq, rfl, huses⟩ := h
  rintro (⟨q', hq', heq⟩ | ⟨life, last, ⟨q', earlier, hq', rfl, -⟩, heq, hends⟩)
  · injection heq with hfirst hrest
    injection hfirst with hrequest haction hok
    cases hok
  · rw [List.cons_append] at heq
    injection heq with hfirst hrest
    have hlast : last ∈ uses := by simp [hrest]
    exact (huses last hlast).not_ends own hends

end Live

section CallsOn

variable (i : Instance) (calls later : List Noted)

theorem callsOn_append : callsOn i (calls ++ later) = callsOn i calls ++ callsOn i later :=
  List.filterMap_append

theorem callsOn_build (q : Request) (r : Record) (ok : Bool) :
    callsOn i (calls ++ [(q, .build r ok)]) = callsOn i calls := by
  simp [callsOn, Noted.of]

theorem callsOn_act (q : Request) (action : Action) (target : Instance) (ok : Bool) :
    callsOn i (calls ++ [(q, .act action target ok)]) =
      if target = i then callsOn i calls ++ [⟨q, action, ok⟩] else callsOn i calls := by
  by_cases htarget : target = i
  · simp [callsOn, Noted.of, htarget]
  · simp [callsOn, Noted.of, htarget]

variable {i calls} in
theorem mem_callsOn_iff {a : Asked} :
    a ∈ callsOn i calls ↔ (a.request, .act a.action i a.ok) ∈ calls := by
  constructor
  · intro ha
    obtain ⟨⟨q, call⟩, hx, hof⟩ := List.mem_filterMap.mp ha
    cases call with
    | build r ok => cases hof
    | act action target ok =>
        simp only [Noted.of] at hof
        split at hof
        · rename_i htarget
          cases hof
          rw [← htarget]
          exact hx
        · cases hof
  · intro ha
    exact List.mem_filterMap.mpr ⟨_, ha, if_pos rfl⟩

variable {i} in
theorem request_of_mem_callsOn {q : Request} {made : List Call} {a : Asked}
    (ha : a ∈ callsOn i (made.map (q, ·))) : a.request = q := by
  obtain ⟨call, -, hcall⟩ := List.mem_map.mp (mem_callsOn_iff.mp ha)
  exact (congrArg Prod.fst hcall).symm

end CallsOn

/-! ## Rosters -/

structure Roster where
  running : SegmentId → Option Instance
  /-- An instance that was made and not started yet, with the request that wants it. -/
  made : Option (Request × Instance)
  built : Nat

namespace Roster

def empty : Roster := ⟨fun _ => none, none, 0⟩

def enter (t : Roster) (i : Instance) : Roster where
  running segment := if segment = i.record.id then some i else t.running segment
  made := none
  built := t.built

def leave (t : Roster) (gone : SegmentId) : Roster :=
  { t with running := fun segment => if segment = gone then none else t.running segment }

end Roster

/-- The calls that fit a roster, and the rosters that they lead to. -/
inductive Books (own : Bool) : Roster → Noted → Roster → Prop
  | unbuilt {t : Roster} {q : Request} {r : Record} (hq : q.LooksUp) (hidle : t.made = none)
      (habsent : t.running r.id = none) : Books own t (q, .build r false) t
  | built {t : Roster} {q : Request} {i : Instance} (hq : q.LooksUp) (hidle : t.made = none)
      (habsent : t.running i.record.id = none) (hserial : i.serial = t.built) :
      Books own t (q, .build i.record true) { t with made := some (q, i), built := t.built + 1 }
  | unstarted {t : Roster} {q : Request} {i : Instance} (hmade : t.made = some (q, i)) :
      Books own t (q, .act .start i false) { t with made := none }
  | started {t : Roster} {q : Request} {i : Instance} (hmade : t.made = some (q, i)) :
      Books own t (q, .act .start i true) (t.enter i)
  | passed {t : Roster} {q : Request} {action : Action} {i : Instance} {ok : Bool}
      (hidle : t.made = none) (hrunning : t.running i.record.id = some i)
      (hpasses : q.Passes action) : Books own t (q, .act action i ok) t
  | ended {t : Roster} {q : Request} {action : Action} {i : Instance} {ok : Bool}
      (hidle : t.made = none) (hrunning : t.running i.record.id = some i)
      (hends : q.Ends own action) : Books own t (q, .act action i ok) (t.leave i.record.id)

inductive Ledger (own : Bool) (t : Roster) : List Noted → Roster → Prop
  | nil : Ledger own t [] t
  | snoc {calls : List Noted} {x : Noted} {t' t'' : Roster} (hcalls : Ledger own t calls t')
      (hlast : Books own t' x t'') : Ledger own t (calls ++ [x]) t''

namespace Ledger

variable {own : Bool} {t t' t'' : Roster} {calls later : List Noted}

theorem append (h : Ledger own t calls t') (h' : Ledger own t' later t'') :
    Ledger own t (calls ++ later) t'' := by
  induction h' with
  | nil =>
      rw [List.append_nil]
      exact h
  | snoc hcalls hlast ih =>
      rw [← List.append_assoc]
      exact ih.snoc hlast

theorem single {x : Noted} (h : Books own t x t') : Ledger own t [x] t' := Ledger.nil.snoc h

theorem eq_of_nil (h : Ledger own t [] t') : t' = t := by
  generalize hempty : [] = calls at h
  cases h with
  | nil => rfl
  | snoc hcalls hlast => simp at hempty

theorem of_concat {x : Noted} (h : Ledger own t (calls ++ [x]) t'') :
    ∃ t', Ledger own t calls t' ∧ Books own t' x t'' := by
  generalize hwhole : calls ++ [x] = whole at h
  cases h with
  | nil => simp at hwhole
  | snoc hcalls hlast =>
      obtain ⟨rfl, hx⟩ := List.append_inj' hwhole rfl
      obtain rfl := List.singleton_inj.mp hx
      exact ⟨_, hcalls, hlast⟩

theorem split (h : Ledger own t (calls ++ later) t'') :
    ∃ t', Ledger own t calls t' ∧ Ledger own t' later t'' := by
  induction later using List.reverseRecOn generalizing t'' with
  | nil =>
      rw [List.append_nil] at h
      exact ⟨t'', h, .nil⟩
  | append_singleton before x ih =>
      rw [← List.append_assoc] at h
      obtain ⟨t₀, hbefore, hlast⟩ := h.of_concat
      obtain ⟨t', hfirst, hsecond⟩ := ih hbefore
      exact ⟨t', hfirst, hsecond.snoc hlast⟩

theorem of_cons {x : Noted} (h : Ledger own t (x :: later) t'') :
    ∃ t', Books own t x t' ∧ Ledger own t' later t'' := by
  obtain ⟨t', hfirst, hrest⟩ := split (show Ledger own t ([x] ++ later) t'' from h)
  obtain ⟨t₀, hempty, hx⟩ := of_concat (show Ledger own t ([] ++ [x]) t' from hfirst)
  rw [hempty.eq_of_nil] at hx
  exact ⟨t', hx, hrest⟩

end Ledger

/-! ## What the calls so far tell of a roster -/

structure Booked (own : Bool) (calls : List Noted) (t : Roster) : Prop where
  old : ∀ i, callsOn i calls ≠ [] → i.serial < t.built
  same : ∀ i j, callsOn i calls ≠ [] → callsOn j calls ≠ [] → i.serial = j.serial → i = j
  made : ∀ q i, t.made = some (q, i) → q.LooksUp ∧ i.serial < t.built ∧
    t.running i.record.id = none ∧ ∀ j, callsOn j calls ≠ [] → j.serial < i.serial
  running : ∀ segment i, t.running segment = some i →
    i.record.id = segment ∧ Live (callsOn i calls)
  settled : ∀ i, callsOn i calls ≠ [] →
    t.running i.record.id = some i ∨ Over own (callsOn i calls)

namespace Booked

variable {own : Bool} {calls : List Noted} {t t' : Roster}

theorem empty (own : Bool) : Booked own [] .empty := by
  refine ⟨?_, ?_, ?_, ?_, ?_⟩
  · intro i hi
    exact (hi rfl).elim
  · intro i j hi
    exact (hi rfl).elim
  · rintro q i ⟨⟩
  · rintro segment i ⟨⟩
  · intro i hi
    exact (hi rfl).elim

theorem running_iff (h : Booked own calls t) (i : Instance) :
    t.running i.record.id = some i ↔ Live (callsOn i calls) := by
  constructor
  · intro hrunning
    exact (h.running i.record.id i hrunning).2
  · intro hlive
    rcases h.settled i hlive.ne_nil with hrunning | hover
    · exact hrunning
    · exact (hlive.not_over own hover).elim

theorem eq_of_live (h : Booked own calls t) {i j : Instance} (hid : i.record.id = j.record.id)
    (hi : Live (callsOn i calls)) (hj : Live (callsOn j calls)) : i = j := by
  have hi' := (h.running_iff i).mpr hi
  have hj' := (h.running_iff j).mpr hj
  rw [hid, hj'] at hi'
  exact (Option.some.inj hi').symm

theorem callsOn_made (h : Booked own calls t) {q : Request} {i : Instance}
    (hmade : t.made = some (q, i)) : callsOn i calls = [] := by
  by_contra hcalled
  exact Nat.lt_irrefl _ ((h.made q i hmade).2.2.2 i hcalled)

section Start

variable {q : Request} {i : Instance}

theorem callsOn_start (h : Booked own calls t) (hmade : t.made = some (q, i)) (ok : Bool) :
    callsOn i (calls ++ [(q, .act .start i ok)]) = [⟨q, .start, ok⟩] ∧
      ∀ j, j ≠ i → callsOn j (calls ++ [(q, .act .start i ok)]) = callsOn j calls := by
  constructor
  · rw [callsOn_act, if_pos rfl, h.callsOn_made hmade, List.nil_append]
  · intro j hj
    rw [callsOn_act, if_neg hj.symm]

theorem called_of_start (h : Booked own calls t) (hmade : t.made = some (q, i)) {ok : Bool}
    {j : Instance} (hj : callsOn j (calls ++ [(q, .act .start i ok)]) ≠ []) :
    j = i ∨ callsOn j calls ≠ [] := by
  by_cases hij : j = i
  · exact .inl hij
  · rw [(h.callsOn_start hmade ok).2 j hij] at hj
    exact .inr hj

theorem old_start (h : Booked own calls t) (hmade : t.made = some (q, i)) (ok : Bool)
    (j : Instance) (hj : callsOn j (calls ++ [(q, .act .start i ok)]) ≠ []) :
    j.serial < t.built := by
  rcases h.called_of_start hmade hj with rfl | hbefore
  · exact (h.made q j hmade).2.1
  · exact h.old j hbefore

theorem same_start (h : Booked own calls t) (hmade : t.made = some (q, i)) (ok : Bool)
    (j k : Instance) (hj : callsOn j (calls ++ [(q, .act .start i ok)]) ≠ [])
    (hk : callsOn k (calls ++ [(q, .act .start i ok)]) ≠ []) (hsame : j.serial = k.serial) :
    j = k := by
  have hlatest := (h.made q i hmade).2.2.2
  rcases h.called_of_start hmade hj with rfl | hbefore
  · rcases h.called_of_start hmade hk with rfl | hbefore'
    · rfl
    · have hless := hlatest k hbefore'
      omega
  · rcases h.called_of_start hmade hk with rfl | hbefore'
    · have hless := hlatest j hbefore
      omega
    · exact h.same j k hbefore hbefore' hsame

theorem running_start (h : Booked own calls t) (hmade : t.made = some (q, i)) (ok : Bool)
    {segment : SegmentId} {j : Instance} (hj : t.running segment = some j) :
    j.record.id = segment ∧ Live (callsOn j (calls ++ [(q, .act .start i ok)])) := by
  obtain ⟨hid, hlive⟩ := h.running segment j hj
  have hne : j ≠ i := by
    rintro rfl
    exact hlive.ne_nil (h.callsOn_made hmade)
  rw [(h.callsOn_start hmade ok).2 j hne]
  exact ⟨hid, hlive⟩

theorem unstarted (h : Booked own calls t) (hmade : t.made = some (q, i)) :
    Booked own (calls ++ [(q, .act .start i false)]) { t with made := none } := by
  obtain ⟨hq, -, -, -⟩ := h.made q i hmade
  obtain ⟨hself, hother⟩ := h.callsOn_start hmade false
  refine ⟨h.old_start hmade false, h.same_start hmade false, ?_, ?_, ?_⟩
  · rintro q' j ⟨⟩
  · intro segment j hj
    exact h.running_start hmade false hj
  · intro j hj
    by_cases hij : j = i
    · right
      rw [hij, hself]
      exact .inl ⟨q, hq, rfl⟩
    · rw [hother j hij] at hj ⊢
      exact h.settled j hj

theorem started (h : Booked own calls t) (hmade : t.made = some (q, i)) :
    Booked own (calls ++ [(q, .act .start i true)]) (t.enter i) := by
  obtain ⟨hq, -, habsent, -⟩ := h.made q i hmade
  obtain ⟨hself, hother⟩ := h.callsOn_start hmade true
  refine ⟨h.old_start hmade true, h.same_start hmade true, ?_, ?_, ?_⟩
  · rintro q' j ⟨⟩
  · intro segment j hj
    simp only [Roster.enter] at hj
    split at hj
    · rename_i hsegment
      obtain rfl := Option.some.inj hj
      rw [hself]
      exact ⟨hsegment.symm, .started hq⟩
    · exact h.running_start hmade true hj
  · intro j hj
    by_cases hij : j = i
    · left
      simp [Roster.enter, hij]
    · rw [hother j hij] at hj ⊢
      rcases h.settled j hj with hbefore | hover
      · left
        have hsegment : j.record.id ≠ i.record.id := by
          intro heq
          rw [heq, habsent] at hbefore
          cases hbefore
        simp only [Roster.enter, if_neg hsegment]
        exact hbefore
      · exact .inr hover

end Start

theorem call (h : Booked own calls t) {q : Request} {action : Action} {i : Instance} {ok : Bool}
    (hrunning : t.running i.record.id = some i)
    (hbuilt : t'.built = t.built) (hmade : t'.made = none)
    (hstays : ∀ segment j, t'.running segment = some j → t.running segment = some j)
    (hself : t'.running i.record.id = some i ∧ q.Passes action ∨
      t'.running i.record.id = none ∧ q.Ends own action)
    (hothers : ∀ segment, segment ≠ i.record.id → t'.running segment = t.running segment) :
    Booked own (calls ++ [(q, .act action i ok)]) t' := by
  have hlive := (h.running i.record.id i hrunning).2
  have hcalled : ∀ j, callsOn j (calls ++ [(q, .act action i ok)]) ≠ [] →
      callsOn j calls ≠ [] := by
    intro j hj
    rw [callsOn_act] at hj
    split at hj
    · rename_i hij
      rw [← hij]
      exact hlive.ne_nil
    · exact hj
  have hnow : callsOn i (calls ++ [(q, .act action i ok)]) =
      callsOn i calls ++ [⟨q, action, ok⟩] := by
    rw [callsOn_act, if_pos rfl]
  refine ⟨?_, ?_, ?_, ?_, ?_⟩
  · intro j hj
    rw [hbuilt]
    exact h.old j (hcalled j hj)
  · intro j k hj hk
    exact h.same j k (hcalled j hj) (hcalled k hk)
  · intro q' j hj
    rw [hmade] at hj
    cases hj
  · intro segment j hj
    obtain ⟨hid, hbefore⟩ := h.running segment j (hstays segment j hj)
    refine ⟨hid, ?_⟩
    by_cases hij : i = j
    · subst hij
      rw [hnow]
      rcases hself with ⟨-, hpasses⟩ | ⟨hgone, -⟩
      · exact hlive.pass hpasses
      · rw [hid, hj] at hgone
        cases hgone
    · rw [callsOn_act, if_neg hij]
      exact hbefore
  · intro j hj
    by_cases hij : i = j
    · subst hij
      rcases hself with ⟨hkept, -⟩ | ⟨-, hends⟩
      · exact .inl hkept
      · right
        rw [hnow]
        exact .inr ⟨_, _, hlive, rfl, hends⟩
    · rw [callsOn_act, if_neg hij] at hj ⊢
      rcases h.settled j hj with hbefore | hover
      · left
        by_cases hsegment : j.record.id = i.record.id
        · rw [hsegment, hrunning] at hbefore
          exact (hij (Option.some.inj hbefore)).elim
        · rw [hothers _ hsegment]
          exact hbefore
      · exact .inr hover

theorem build (h : Booked own calls t) (q : Request) (r : Record) (ok : Bool) :
    Booked own (calls ++ [(q, .build r ok)]) t := by
  refine ⟨?_, ?_, ?_, ?_, ?_⟩
  · intro i hi
    rw [callsOn_build] at hi
    exact h.old i hi
  · intro i j hi hj
    rw [callsOn_build] at hi hj
    exact h.same i j hi hj
  · intro q' i hi
    obtain ⟨hq, hserial, habsent, hlatest⟩ := h.made q' i hi
    refine ⟨hq, hserial, habsent, ?_⟩
    intro j hj
    rw [callsOn_build] at hj
    exact hlatest j hj
  · intro segment i hi
    rw [callsOn_build]
    exact h.running segment i hi
  · intro i hi
    rw [callsOn_build] at hi ⊢
    exact h.settled i hi

theorem step (h : Booked own calls t) {x : Noted} (hx : Books own t x t') :
    Booked own (calls ++ [x]) t' := by
  cases hx with
  | unbuilt hq hidle habsent => exact h.build _ _ _
  | built hq hidle habsent hserial =>
      rename_i q i
      have hbuild := h.build q i.record true
      refine ⟨?_, hbuild.same, ?_, hbuild.running, hbuild.settled⟩
      · intro j hj
        exact Nat.lt_succ_of_lt (hbuild.old j hj)
      · rintro q' j hj
        obtain ⟨rfl, rfl⟩ := Prod.mk.inj (Option.some.inj hj)
        refine ⟨hq, by simp only; omega, habsent, ?_⟩
        intro k hk
        rw [hserial]
        exact hbuild.old k hk
  | unstarted hmade => exact h.unstarted hmade
  | started hmade => exact h.started hmade
  | passed hidle hrunning hpasses =>
      refine h.call hrunning rfl hidle (fun _ _ hj => hj) (.inl ⟨hrunning, hpasses⟩) ?_
      intro segment hsegment
      rfl
  | ended hidle hrunning hends =>
      refine h.call hrunning rfl hidle ?_ (.inr ⟨by simp [Roster.leave], hends⟩) ?_
      · intro segment j hj
        simp only [Roster.leave] at hj
        split at hj
        · cases hj
        · exact hj
      · intro segment hsegment
        simp only [Roster.leave, if_neg hsegment]

theorem of_ledger (h : Ledger own .empty calls t) : Booked own calls t := by
  induction h with
  | nil => exact empty own
  | snoc hcalls hlast ih => exact ih.step hlast

theorem ended_of_gone (h : Booked own calls t) {later : List Noted}
    (h' : Booked own (calls ++ later) t') {i : Instance} (hbefore : t.running i.record.id = some i)
    (hafter : t'.running i.record.id ≠ some i) :
    ∃ uses last, callsOn i later = uses ++ [last] ∧
      (∀ a ∈ uses, Request.Passes a.request a.action) ∧
      Request.Ends own last.request last.action := by
  have hlive := (h.running_iff i).mp hbefore
  have hcalled : callsOn i (calls ++ later) ≠ [] := by
    rw [callsOn_append]
    exact List.append_ne_nil_of_left_ne_nil hlive.ne_nil _
  rcases h'.settled i hcalled with hstill | hover
  · exact (hafter hstill).elim
  -- Its life is over, and the call that ended it cannot be an earlier one.
  · rw [callsOn_append] at hover
    rcases hover with ⟨q, hq, heq⟩ | ⟨life, last, hlife, heq, hends⟩
    · obtain ⟨q', uses, hq', hstart, -⟩ := hlive
      rw [hstart, List.cons_append] at heq
      injection heq with hfirst hrest
      injection hfirst with hrequest haction hok
      cases hok
    · rcases List.eq_nil_or_concat (callsOn i later) with hnone | ⟨uses, last', hlater⟩
      · rw [hnone, List.append_nil] at heq
        exact (hlive.not_over own (.inr ⟨life, last, hlife, heq, hends⟩)).elim
      · rw [List.concat_eq_append] at hlater
        rw [hlater, ← List.append_assoc] at heq
        obtain ⟨hsame, hlast⟩ := List.append_inj' heq rfl
        obtain rfl := List.singleton_inj.mp hlast
        rw [← hsame] at hlife
        exact ⟨uses, last', hlater, hlive.passes_of_append hlife, hends⟩

theorem spared {later : List Noted} (h : Booked own (calls ++ later) t) {i : Instance}
    (hlooks : ∀ a ∈ callsOn i later, a.request.LooksUp)
    (hrunning : t.running i.record.id = some i) :
    (callsOn i later).countP (·.action = .stop) = 0 := by
  have hlive := (h.running_iff i).mp hrunning
  rw [callsOn_append] at hlive
  apply List.countP_eq_zero.mpr
  intro a ha
  have hne := hlive.ne_stop (List.mem_append_right _ ha) (hlooks a ha)
  simpa using hne

/-- Lookups stop what they take out of the running ones, and stop it once. -/
theorem stopped_once (h : Booked own calls t) {later : List Noted}
    (h' : Booked own (calls ++ later) t') {i : Instance}
    (hlooks : ∀ a ∈ callsOn i later, a.request.LooksUp)
    (hbefore : t.running i.record.id = some i) (hafter : t'.running i.record.id ≠ some i) :
    (callsOn i later).countP (·.action = .stop) = 1 := by
  obtain ⟨uses, last, hlater, huses, hends⟩ := h.ended_of_gone h' hbefore hafter
  rw [hlater] at hlooks ⊢
  have hlast := hends.eq_stop (hlooks last (by simp))
  have hspared : uses.countP (·.action = .stop) = 0 := by
    apply List.countP_eq_zero.mpr
    intro a ha
    have hne := (huses a ha).ne_stop (hlooks a (List.mem_append_left _ ha))
    simpa using hne
  rw [List.countP_append, hspared]
  simp [hlast]

end Booked

/-! ## Making instances -/

namespace Ledger

variable {own : Bool} {t t' : Roster} {calls later : List Noted}

theorem start_of_build {q : Request} {r : Record}
    (h : Ledger own t (calls ++ (q, .build r true) :: later) t') (hidle : t'.made = none) :
    ∃ i ok rest, i.record = r ∧ later = (q, .act .start i ok) :: rest := by
  obtain ⟨t₁, -, hlater⟩ := h.split
  obtain ⟨t₂, hbuilt, hrest⟩ := hlater.of_cons
  cases hbuilt with
  | built hq hidle' habsent hserial =>
      cases later with
      | nil =>
          rw [hrest.eq_of_nil] at hidle
          cases hidle
      | cons x rest =>
          obtain ⟨t₃, hx, -⟩ := hrest.of_cons
          cases hx with
          | unbuilt hq' hidle'' habsent' => cases hidle''
          | built hq' hidle'' habsent' hserial' => cases hidle''
          | unstarted hmade =>
              obtain ⟨rfl, rfl⟩ := Prod.mk.inj (Option.some.inj hmade)
              exact ⟨_, _, _, rfl, rfl⟩
          | started hmade =>
              obtain ⟨rfl, rfl⟩ := Prod.mk.inj (Option.some.inj hmade)
              exact ⟨_, _, _, rfl, rfl⟩
          | passed hidle'' hrunning hpasses => cases hidle''
          | ended hidle'' hrunning hends => cases hidle''

theorem not_live_of_build {q : Request} {r : Record} {ok : Bool}
    (h : Ledger own .empty (calls ++ (q, .build r ok) :: later) t') {i : Instance}
    (hid : i.record.id = r.id) : ¬ Live (callsOn i calls) := by
  obtain ⟨t₁, hcalls, hlater⟩ := h.split
  obtain ⟨t₂, hbuilt, -⟩ := hlater.of_cons
  intro hlive
  have hrunning := ((Booked.of_ledger hcalls).running_iff i).mpr hlive
  rw [hid] at hrunning
  cases hbuilt with
  | unbuilt hq hidle habsent =>
      rw [habsent] at hrunning
      cases hrunning
  | built hq hidle habsent hserial =>
      rw [habsent] at hrunning
      cases hrunning

theorem callsOn_of_start {q : Request} {r : Record} {i : Instance} {ok : Bool}
    (h : Ledger own .empty (calls ++ (q, .build r true) :: (q, .act .start i ok) :: later) t') :
    callsOn i calls = [] := by
  obtain ⟨t₁, hcalls, hlater⟩ := h.split
  obtain ⟨t₂, hbuilt, hrest⟩ := hlater.of_cons
  obtain ⟨t₃, hstart, -⟩ := hrest.of_cons
  have hbooked := (Booked.of_ledger hcalls).step hbuilt
  have hmade : t₂.made = some (q, i) := by
    cases hbuilt with
    | built hq hidle habsent hserial =>
        cases hstart with
        | unstarted hmade => exact hmade
        | started hmade => exact hmade
        | passed hidle' hrunning hpasses => cases hidle'
        | ended hidle' hrunning hends => cases hidle'
  have hnone := hbooked.callsOn_made hmade
  rwa [callsOn_build] at hnone

end Ledger

structure Lifecycles (own : Bool) (calls : List Noted) : Prop where
  /-- After a start that failed there are no calls, after any other one there are
  uses and at most one end, which is the last call. -/
  life : ∀ i, callsOn i calls ≠ [] → Live (callsOn i calls) ∨ Over own (callsOn i calls)
  /-- What was built is started at once, and that is its first call. -/
  started : ∀ before q r after, calls = before ++ (q, .build r true) :: after →
    ∃ i ok rest, i.record = r ∧ after = (q, .act .start i ok) :: rest ∧ callsOn i before = []
  serial : ∀ i j, callsOn i calls ≠ [] → callsOn j calls ≠ [] → i.serial = j.serial → i = j
  /-- At every moment one instance of a segment lives at most. -/
  alone : ∀ before after i j, calls = before ++ after → i.record.id = j.record.id →
    Live (callsOn i before) → Live (callsOn j before) → i = j
  /-- While an instance of a segment lives, no other is built. -/
  unbuilt : ∀ before q r ok after i, calls = before ++ (q, .build r ok) :: after →
    i.record.id = r.id → ¬ Live (callsOn i before)

theorem Ledger.lifecycles {own : Bool} {calls : List Noted} {t : Roster}
    (h : Ledger own .empty calls t) (hidle : t.made = none) : Lifecycles own calls := by
  have hbooked := Booked.of_ledger h
  refine ⟨?_, ?_, hbooked.same, ?_, ?_⟩
  · intro i hi
    rcases hbooked.settled i hi with hrunning | hover
    · exact .inl ((hbooked.running_iff i).mp hrunning)
    · exact .inr hover
  · rintro before q r after rfl
    obtain ⟨i, ok, rest, rfl, rfl⟩ := h.start_of_build hidle
    exact ⟨i, ok, rest, rfl, rfl, h.callsOn_of_start⟩
  · rintro before after i j rfl hid hi hj
    obtain ⟨t₁, hbefore, -⟩ := h.split
    exact (Booked.of_ledger hbefore).eq_of_live hid hi hj
  · rintro before q r ok after i rfl hid
    exact h.not_live_of_build hid

end SegmentManager
