import Mathlib.Data.List.Chain
import Mathlib.Data.List.Induction
import SegmentManager.Manager

/-!
# Who serves a key

The owner of a key is the one member that outranks all others, so it depends on
the set of members only, not on their order or on the weights being distinct.
When a group changes, a key moves only from a member that left or to a member
that joined.
-/

namespace SegmentManager

namespace Routing

structure Tops (weight : String → Nat) (members : List String) (m : String) : Prop where
  mem : m ∈ members
  outranks : ∀ other ∈ members, other ≠ m → Outranks weight m other

variable {weight : String → Nat} {members others : List String} {a b m : String}

theorem Outranks.not_symm (h : Outranks weight a b) : ¬ Outranks weight b a := by
  intro h'
  rcases outranks_trans h h' with hless | ⟨-, hless⟩
  · omega
  · exact String.lt_irrefl a hless

theorem outranks_total (weight : String → Nat) (hne : a ≠ b) :
    Outranks weight a b ∨ Outranks weight b a := by
  unfold Outranks
  rcases Nat.lt_trichotomy (weight a) (weight b) with hweight | hweight | hweight
  · exact .inr (.inl hweight)
  · by_cases hname : a < b
    · exact .inr (.inr ⟨hweight, hname⟩)
    · refine .inl (.inr ⟨hweight.symm, ?_⟩)
      by_contra hname'
      exact hne (String.le_antisymm (String.not_lt.mp hname') (String.not_lt.mp hname))
  · exact .inl (.inl hweight)

/-! ## The owner -/

theorem owner_concat (weight : String → Nat) (members : List String) (m : String) :
    owner weight (members ++ [m]) = better weight (owner weight members) m :=
  List.foldl_concat ..

theorem owner_eq_none_iff : owner weight members = none ↔ members = [] := by
  constructor
  · intro hnone
    induction members using List.reverseRecOn with
    | nil => rfl
    | append_singleton members new ih =>
        rw [owner_concat] at hnone
        unfold better at hnone
        split at hnone
        · cases hnone
        · split at hnone <;> cases hnone
  · rintro rfl
    rfl

theorem tops_of_owner (howner : owner weight members = some m) : Tops weight members m := by
  induction members using List.reverseRecOn generalizing m with
  | nil => cases howner
  | append_singleton members new ih =>
      rw [owner_concat] at howner
      cases hbest : owner weight members with
      | none =>
          obtain rfl := owner_eq_none_iff.mp hbest
          obtain rfl : new = m := by simpa [better, hbest] using howner
          exact ⟨by simp, by simp⟩
      | some best =>
          have htops := ih hbest
          rw [hbest] at howner
          simp only [better] at howner
          split at howner
          · rename_i hwins
            obtain rfl := Option.some.inj howner
            refine ⟨by simp, ?_⟩
            intro other hother hne
            rcases List.mem_append.mp hother with hold | hnew
            · by_cases hsame : other = best
              · rw [hsame]
                exact hwins
              · exact outranks_trans hwins (htops.outranks other hold hsame)
            · exact (hne (List.mem_singleton.mp hnew)).elim
          · rename_i hloses
            obtain rfl := Option.some.inj howner
            refine ⟨List.mem_append_left _ htops.mem, ?_⟩
            intro other hother hne
            rcases List.mem_append.mp hother with hold | hnew
            · exact htops.outranks other hold hne
            · obtain rfl := List.mem_singleton.mp hnew
              exact (outranks_total weight hne).resolve_left hloses

theorem Tops.eq_of_mem (ha : Tops weight members a) (hb : Tops weight others b)
    (hstays : a ∈ others) (hwas : b ∈ members) : a = b := by
  by_contra hne
  have hfirst := ha.outranks b hwas fun heq => hne heq.symm
  have hsecond := hb.outranks a hstays hne
  exact hfirst.not_symm hsecond

theorem owner_eq_some_iff : owner weight members = some m ↔ Tops weight members m := by
  constructor
  · exact tops_of_owner
  · intro htops
    cases howner : owner weight members with
    | none =>
        have hmem := htops.mem
        rw [owner_eq_none_iff.mp howner] at hmem
        cases hmem
    | some best =>
        have hbest := tops_of_owner howner
        rw [hbest.eq_of_mem htops hbest.mem htops.mem]

theorem owner_congr (hsame : ∀ m, m ∈ members ↔ m ∈ others) :
    owner weight members = owner weight others := by
  apply Option.ext
  intro m
  rw [owner_eq_some_iff, owner_eq_some_iff]
  constructor
  · rintro ⟨hmem, houtranks⟩
    exact ⟨(hsame m).mp hmem, fun other hother => houtranks other ((hsame other).mpr hother)⟩
  · rintro ⟨hmem, houtranks⟩
    exact ⟨(hsame m).mpr hmem, fun other hother => houtranks other ((hsame other).mp hother)⟩

/-! ## Changes of the group -/

/-- A key moves because its owner left or because its new owner joined. -/
theorem left_or_joined (hmoved : owner weight members ≠ owner weight others) :
    (∃ a, owner weight members = some a ∧ a ∉ others) ∨
      ∃ b, owner weight others = some b ∧ b ∉ members := by
  cases hbefore : owner weight members with
  | none =>
      right
      obtain rfl := owner_eq_none_iff.mp hbefore
      cases hafter : owner weight others with
      | none => exact (hmoved (hbefore.trans hafter.symm)).elim
      | some b => exact ⟨b, rfl, by simp⟩
  | some a =>
      by_cases hstays : a ∈ others
      · right
        cases hafter : owner weight others with
        | none =>
            rw [owner_eq_none_iff.mp hafter] at hstays
            cases hstays
        | some b =>
            refine ⟨b, rfl, fun hwas => hmoved ?_⟩
            rw [hbefore, hafter,
              (tops_of_owner hbefore).eq_of_mem (tops_of_owner hafter) hstays hwas]
      · exact .inl ⟨a, rfl, hstays⟩

theorem left_of_subset (hsub : others ⊆ members)
    (hmoved : owner weight members ≠ owner weight others) :
    ∃ a, owner weight members = some a ∧ a ∉ others := by
  rcases left_or_joined hmoved with hleft | ⟨b, hafter, hnew⟩
  · exact hleft
  · exact (hnew (hsub (tops_of_owner hafter).mem)).elim

theorem joined_of_subset (hsub : members ⊆ others)
    (hmoved : owner weight members ≠ owner weight others) :
    ∃ b, owner weight others = some b ∧ b ∉ members :=
  left_of_subset hsub hmoved.symm

end Routing

namespace Workers

def regroup (w : Workers) (members : List String) : Workers := { w with members }

def regroupAll (w : Workers) (groups : List (List String)) : Workers := groups.foldl regroup w

variable {w : Workers}

theorem port_regroupAll (w : Workers) (groups : List (List String)) :
    (w.regroupAll groups).port = w.port := by
  induction groups generalizing w with
  | nil => rfl
  | cons members rest ih => exact ih (w.regroup members)

theorem rel_regroupAll (R : List String → List String → Prop) (hrefl : ∀ group, R group group)
    (htrans : ∀ group next last, R group next → R next last → R group last)
    {groups : List (List String)} (hchain : (w.members :: groups).IsChain R) :
    R w.members (w.regroupAll groups).members := by
  induction groups generalizing w with
  | nil => exact hrefl w.members
  | cons members rest ih =>
      obtain ⟨hfirst, hrest⟩ := List.isChain_cons_cons.mp hchain
      exact htrans _ _ _ hfirst (ih (w := w.regroup members) hrest)

theorem endpoint_eq (w : Workers) (c : CollectionId) :
    (∃ member, w.owner (toString c) = some member ∧
      w.endpoint c = .ok (member ++ ":" ++ toString w.port)) ∨
    w.members = [] ∧ w.endpoint c = .error (.endpointResolution "member list is empty") := by
  unfold endpoint
  cases howner : w.owner (toString c) with
  | some member => exact .inl ⟨member, rfl, rfl⟩
  | none => exact .inr ⟨Routing.owner_eq_none_iff.mp howner, rfl⟩

end Workers

theorem Manager.deployment_regrouped {m : Manager} {w : Workers}
    (hdeployment : m.deployment = .distributed w) (groups : List (List String)) :
    (groups.foldl Manager.withMembers m).deployment = .distributed (w.regroupAll groups) := by
  induction groups generalizing m w with
  | nil => exact hdeployment
  | cons members rest ih =>
      refine ih (w := w.regroup members) ?_
      unfold Manager.withMembers
      rw [hdeployment]
      rfl

theorem Manager.complete_of_distributed {m : Manager} {w : Workers}
    (hdeployment : m.deployment = .distributed w) (r : Record) :
    m.complete r = (w.endpoint r.collection).map fun endpoint =>
      r.withEntry Record.endpointKey (.text endpoint) := by
  unfold Manager.complete
  rw [hdeployment]

/-- Whatever the weights, a key belongs to a member of the group, and to the
same one in whichever order the members are listed.  A key that moves belonged
to a member that left or belongs to one that joined; so it is with a group that
is replaced any number of times, and where members only leave or only join, it
is the one or the other.  All segments of a collection are served from the
address of its owner. -/
theorem keys_move_with_members_only :
    (∀ (weight : String → Nat) (members : List String),
      (Routing.owner weight members = none ↔ members = []) ∧
      ∀ m, Routing.owner weight members = some m → m ∈ members) ∧
    (∀ (weight : String → Nat) (members others : List String),
      (∀ m, m ∈ members ↔ m ∈ others) →
      Routing.owner weight members = Routing.owner weight others) ∧
    (∀ (weight : String → Nat) (members others : List String) (a b : String),
      Routing.owner weight members = some a → Routing.owner weight others = some b →
      a ∈ others → b ∈ members → a = b) ∧
    (∀ (weight : String → Nat) (w : Workers) (groups : List (List String)),
      let w' := w.regroupAll groups
      Routing.owner weight w.members ≠ Routing.owner weight w'.members →
      ((∃ a, Routing.owner weight w.members = some a ∧ a ∉ w'.members) ∨
        ∃ b, Routing.owner weight w'.members = some b ∧ b ∉ w.members) ∧
      ((w.members :: groups).IsChain (fun group next => next ⊆ group) →
        ∃ a, Routing.owner weight w.members = some a ∧ a ∉ w'.members) ∧
      ((w.members :: groups).IsChain (fun group next => group ⊆ next) →
        ∃ b, Routing.owner weight w'.members = some b ∧ b ∉ w.members)) ∧
    ∀ (m : Manager) (w : Workers) (groups : List (List String)) (c : CollectionId),
      m.deployment = .distributed w →
      let w' := w.regroupAll groups
      let m' := groups.foldl Manager.withMembers m
      (∃ member ∈ w'.members,
        Routing.owner (Routing.weight (toString c)) w'.members = some member ∧
        ∀ r : Record, r.collection = c → m'.complete r =
          .ok (r.withEntry Record.endpointKey (.text (member ++ ":" ++ toString w.port)))) ∨
      w'.members = [] ∧ ∀ r : Record, r.collection = c →
        m'.complete r = .error (.endpointResolution "member list is empty") := by
  refine ⟨?_, ?_, ?_, ?_, ?_⟩
  · intro weight members
    exact ⟨Routing.owner_eq_none_iff, fun m howner => (Routing.tops_of_owner howner).mem⟩
  · intro weight members others hsame
    exact Routing.owner_congr hsame
  · intro weight members others a b ha hb hstays hwas
    exact (Routing.tops_of_owner ha).eq_of_mem (Routing.tops_of_owner hb) hstays hwas
  · intro weight w groups w' hmoved
    refine ⟨Routing.left_or_joined hmoved, ?_, ?_⟩
    · intro hleaving
      refine Routing.left_of_subset ?_ hmoved
      exact Workers.rel_regroupAll (fun group next => next ⊆ group) (fun _ => List.Subset.refl _)
        (fun _ _ _ hfirst hrest => List.Subset.trans hrest hfirst) hleaving
    · intro hjoining
      refine Routing.joined_of_subset ?_ hmoved
      exact Workers.rel_regroupAll (fun group next => group ⊆ next) (fun _ => List.Subset.refl _)
        (fun _ _ _ hfirst hrest => List.Subset.trans hfirst hrest) hjoining
  · intro m w groups c hdeployment w' m'
    have hcomplete := Manager.complete_of_distributed
      (Manager.deployment_regrouped hdeployment groups)
    rcases w'.endpoint_eq c with ⟨member, howner, hendpoint⟩ | ⟨hempty, hendpoint⟩
    · refine .inl ⟨member, (Routing.tops_of_owner howner).mem, howner, ?_⟩
      rintro r rfl
      rw [hcomplete, hendpoint, Workers.port_regroupAll]
      rfl
    · refine .inr ⟨hempty, ?_⟩
      rintro r rfl
      rw [hcomplete, hendpoint]
      rfl

/-- Where all weights are the same, names decide, and a key moves when the
greatest one leaves. -/
theorem tied_key_moves_with_its_owner :
    Routing.owner (fun _ => 0) ["b", "c", "a"] = Routing.owner (fun _ => 0) ["a", "c", "b", "b"] ∧
    ∃ a, Routing.owner (fun _ => 0) ["b", "c", "a"] = some a ∧ a ∉ ["a", "b"] := by
  obtain ⟨-, hsame, -, hmoves, -⟩ := keys_move_with_members_only
  refine ⟨hsame _ _ _ (by simp; grind), ?_⟩
  have hmoved : Routing.owner (fun _ => 0) ["b", "c", "a"] ≠
      Routing.owner (fun _ => 0) ["a", "b"] := by decide
  exact (hmoves _ ⟨["b", "c", "a"], Workers.defaultPort⟩ [["a", "b"]] hmoved).2.1 (by simp)

end SegmentManager
