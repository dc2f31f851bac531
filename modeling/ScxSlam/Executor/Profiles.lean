import ScxSlam.Executor.Spin
import ScxSlam.Lib.Located
import ScxSlam.Lib.Steps

/-!
# ScxSlam.Executor.Profiles

Which profile `FreshnessExecutor` finds for a callback group: the calls that
register and remove groups, while groups are destroyed and new ones are created
in their place.  The map is keyed by pointers; the groups themselves are known
to the heap only.

`rclcpp::Executor` answers for its own part of a call.  It holds its groups
weakly, and takes no group twice.
-/

namespace ScxSlam.Executor

open Located

variable {ε ω : Type}

/-! ## the map -/

/-- What a `rclcpp::CallbackGroup *` points to. -/
abbrev Address := Nat

/-- `rclcpp::CallbackGroup::SharedPtr`: the pointer, and the group that it keeps
alive. -/
structure GroupPtr where
  get : Address
  group : GroupId
  deriving DecidableEq, Repr

/-- `Impl::ProfileBinding`, with its callables. -/
structure Binding (ε ω : Type) where
  profile : CallbackProfile := {}
  metadataExtractor : Option ε := none
  observer : Option ω := none
  deriving DecidableEq, Repr

/-- What `spin` reads of a binding. -/
def Binding.flags (b : Binding ε ω) : ProfileBinding where
  profile := b.profile
  metadataExtractor := b.metadataExtractor.isSome
  observer := b.observer.isSome

/-- What a call throws. -/
inductive Thrown
  | invalidArgument (what : String)
  | runtimeError (what : String)
  /-- rclcpp's own -/
  | base (what : String)
  deriving DecidableEq, Repr

/-- What `rclcpp::Executor` makes of a call that it could carry out. -/
inductive Answer
  | accepts
  | refuses (what : String)
  /-- carries it out, and then cannot wake the executor up for it -/
  | fails (what : String)
  deriving DecidableEq, Repr

/-- The executor before `spin`, between two calls, and the groups there are:
`owner` says which group lives at an address, and `added` which ones rclcpp
holds. -/
structure Registry (ε ω : Type) where
  owner : Address → Option GroupId := fun _ => none
  born : GroupId → Bool := fun _ => false
  added : GroupId → Bool := fun _ => false
  spinning : Bool := false
  profiles : Address → Option (Binding ε ω) := fun _ => none

/-- The constants that a profile may name. -/
def FreshClass.isValid : FreshClass → Bool
  | .background | .deadline | .urgent => true
  | .other _ => false

namespace Registry

variable (s : Registry ε ω)

/-- `binding_for`. -/
def bindingFor (group : Option Address) : Binding ε ω :=
  match group with
  | some a => (s.profiles a).getD {}
  | none => {}

/-- `rclcpp::Executor::add_callback_group`. -/
def baseAdd (g : GroupId) (answer : Answer) : Registry ε ω × Option Thrown :=
  if s.added g then (s, some (.base "Callback group has already been added to an executor."))
  else match answer with
    | .accepts => ({ s with added := Function.update s.added g true }, none)
    | .refuses what => (s, some (.base what))
    | .fails what => ({ s with added := Function.update s.added g true }, some (.base what))

/-- `rclcpp::Executor::remove_callback_group`. -/
def baseRemove (g : GroupId) (answer : Answer) : Registry ε ω × Option Thrown :=
  if !s.added g then
    (s, some (.base "Callback group needs to be associated with an executor."))
  else match answer with
    | .accepts => ({ s with added := Function.update s.added g false }, none)
    | .refuses what => (s, some (.base what))
    | .fails what => ({ s with added := Function.update s.added g false }, some (.base what))

/-- `add_callback_group_with_profile`; `node` says whether the node is set. -/
def addCallbackGroupWithProfile (group : Option GroupPtr) (node : Bool) (profile : CallbackProfile)
    (answer : Answer) : Registry ε ω × Option Thrown :=
  match group with
  | none => (s, some (.invalidArgument "callback group and node must be non-null"))
  | some p =>
      if !node then (s, some (.invalidArgument "callback group and node must be non-null"))
      else if s.spinning then
        (s, some (.runtimeError "callback profiles cannot change while the executor is spinning"))
      else if !profile.classId.isValid then
        (s, some (.invalidArgument "callback profile has an invalid class_id"))
      else match s.baseAdd p.group answer with
        | (t, some e) => (t, some e)
        | (t, none) =>
            ({ t with
              profiles := Function.update t.profiles p.get (some { profile := profile }) }, none)

/-- `add_subscription_callback_group_with_erased_metadata`. -/
def addSubscriptionCallbackGroup (group : Option GroupPtr) (node : Bool)
    (profile : CallbackProfile) (extractor : Option ε) (observer : Option ω) (answer : Answer) :
    Registry ε ω × Option Thrown :=
  match extractor with
  | none => (s, some (.invalidArgument "subscription metadata extractor must be callable"))
  | some x =>
      match s.addCallbackGroupWithProfile group node profile answer, group with
      | (t, none), some p =>
          let b : Binding ε ω := (t.profiles p.get).getD {}
          let b := { b with metadataExtractor := some x, observer := observer }
          ({ t with profiles := Function.update t.profiles p.get (some b) }, none)
      | (t, e), _ => (t, e)

/-- `remove_callback_group`. -/
def removeCallbackGroup (p : GroupPtr) (answer : Answer) : Registry ε ω × Option Thrown :=
  if s.spinning then
    (s, some (.runtimeError "callback profiles cannot change while the executor is spinning"))
  else match s.baseRemove p.group answer with
    | (t, some e) => (t, some e)
    | (t, none) => ({ t with profiles := Function.update t.profiles p.get none }, none)

end Registry

/-! ## calls -/

/-- A call on the executor.  The inherited `add_callback_group` and
`remove_callback_group` may not be given a null group. -/
inductive RegistryCall (ε ω : Type)
  | add (group : GroupPtr)
  | addWithProfile (group : Option GroupPtr) (node : Bool) (profile : CallbackProfile)
  | addSubscription (group : Option GroupPtr) (node : Bool) (profile : CallbackProfile)
    (extractor : Option ε) (observer : Option ω)
  | remove (group : GroupPtr)
  deriving DecidableEq, Repr

namespace RegistryCall

/-- The group a call is about. -/
def group : RegistryCall ε ω → Option GroupPtr
  | .add p | .remove p => some p
  | .addWithProfile group .. | .addSubscription group .. => group

/-- The binding a group has after a successful call. -/
def binding : RegistryCall ε ω → Option (Binding ε ω)
  | .add _ => some {}
  | .addWithProfile _ _ profile => some { profile := profile }
  | .addSubscription _ _ profile extractor observer => some ⟨profile, extractor, observer⟩
  | .remove _ => none

end RegistryCall

/-- A call, and what it throws. -/
def Registry.call (s : Registry ε ω) (answer : Answer) :
    RegistryCall ε ω → Registry ε ω × Option Thrown
  | .add p => s.baseAdd p.group answer
  | .addWithProfile group node profile =>
      s.addCallbackGroupWithProfile group node profile answer
  | .addSubscription group node profile extractor observer =>
      s.addSubscriptionCallbackGroup group node profile extractor observer answer
  | .remove p => s.removeCallbackGroup p answer

/-! ## runs -/

/-- The executor, and what it was told of the groups themselves: the binding of
the latest successful registration, while there is one. -/
structure Tracked (ε ω : Type) where
  registry : Registry ε ω := {}
  registered : GroupId → Option (Binding ε ω) := fun _ => none

inductive RegistryEvent (ε ω : Type)
  /-- a new group, at an address that is free -/
  | create (g : GroupId) (a : Address)
  /-- the last owner of a group lets it go -/
  | destroy (a : Address)
  /-- `spin` begins, or is over -/
  | spinning (now : Bool)
  | call (c : RegistryCall ε ω) (answer : Answer)
  deriving DecidableEq, Repr

namespace Tracked

/-- One event; `none` where it is not possible. -/
def step (s : Tracked ε ω) : RegistryEvent ε ω → Option (Tracked ε ω)
  | .create g a =>
      if s.registry.owner a = none ∧ s.registry.born g = false then
        some { s with registry := { s.registry with
          owner := Function.update s.registry.owner a (some g)
          born := Function.update s.registry.born g true } }
      else none
  | .destroy a => some { s with registry := { s.registry with
      owner := Function.update s.registry.owner a none } }
  | .spinning now => some { s with registry := { s.registry with spinning := now } }
  | .call c answer =>
      if ∀ p ∈ c.group, s.registry.owner p.get = some p.group then
        match s.registry.call answer c, c.group with
        | (registry, none), some p => some {
            registry := registry, registered := Function.update s.registered p.group c.binding }
        | (registry, _), _ => some { s with registry := registry }
      else none

/-- `binding_for` has what every group was registered with. -/
def Exact (s : Tracked ε ω) : Prop :=
  ∀ a g b, s.registry.owner a = some g → s.registered g = some b →
    s.registry.bindingFor (some a) = b

/-- The inherited `add_callback_group` is not accepted where an entry of another
registration is left. -/
def Clean (s : Tracked ε ω) : RegistryEvent ε ω → Prop
  | .call (.add p) .accepts =>
      s.registry.added p.group = false → ∀ b ∈ s.registry.profiles p.get, b = {}
  | _ => True

instance Clean.decidable [DecidableEq ε] [DecidableEq ω] (s : Tracked ε ω) :
    (e : RegistryEvent ε ω) → Decidable (s.Clean e)
  | .call (.add p) .accepts => inferInstanceAs (Decidable
      (s.registry.added p.group = false → ∀ b ∈ s.registry.profiles p.get, b = {}))
  | .call (.add _) (.refuses _) | .call (.add _) (.fails _) => isTrue trivial
  | .call (.addWithProfile ..) _ | .call (.addSubscription ..) _ | .call (.remove _) _ =>
      isTrue trivial
  | .create .. | .destroy _ | .spinning _ => isTrue trivial

end Tracked

/-- A call that throws leaves every binding alone. -/
def Registry.ThrowsKeep (s : Registry ε ω) : Prop :=
  ∀ c answer e, (s.call answer c).2 = some e →
    ∀ group, (s.call answer c).1.bindingFor group = s.bindingFor group

/-! ## what a call does -/

namespace Registry

variable {s t : Registry ε ω} {g : GroupId} {answer : Answer} {e : Option Thrown}
  {c : RegistryCall ε ω}

/-- rclcpp knows nothing of profiles. -/
theorem baseAdd_frame (h : s.baseAdd g answer = (t, e)) :
    ∃ added, t = { s with added := added } := by
  unfold baseAdd at h
  split at h
  · cases h
    exact ⟨_, rfl⟩
  · split at h <;> cases h <;> exact ⟨_, rfl⟩

theorem baseRemove_frame (h : s.baseRemove g answer = (t, e)) :
    ∃ added, t = { s with added := added } := by
  unfold baseRemove at h
  split at h
  · cases h
    exact ⟨_, rfl⟩
  · split at h <;> cases h <;> exact ⟨_, rfl⟩

/-- rclcpp takes a group that it does not hold, and that it is willing to. -/
theorem baseAdd_succeeds :
    (s.baseAdd g answer).2 = none ↔ s.added g = false ∧ answer = .accepts := by
  unfold baseAdd
  cases hadded : s.added g <;> cases answer <;> simp

/-- The profile of a group is what it was registered with, unless the call
throws. -/
theorem addCallbackGroupWithProfile_cases {group : Option GroupPtr} {node : Bool}
    {profile : CallbackProfile}
    (h : s.addCallbackGroupWithProfile group node profile answer = (t, e)) :
    (e ≠ none ∧ ∃ added, t = { s with added := added }) ∨
      (e = none ∧ ∃ p added, group = some p ∧ t = { s with
        added := added
        profiles := Function.update s.profiles p.get (some { profile := profile }) }) := by
  unfold addCallbackGroupWithProfile at h
  split at h
  · cases h
    exact .inl ⟨nofun, s.added, rfl⟩
  · next p =>
    split at h
    · cases h
      exact .inl ⟨nofun, s.added, rfl⟩
    split at h
    · cases h
      exact .inl ⟨nofun, s.added, rfl⟩
    split at h
    · cases h
      exact .inl ⟨nofun, s.added, rfl⟩
    split at h
    · next t' what hbase =>
      cases h
      exact .inl ⟨nofun, baseAdd_frame hbase⟩
    · next t' hbase =>
      cases h
      obtain ⟨added, rfl⟩ := baseAdd_frame hbase
      exact .inr ⟨rfl, p, added, rfl, rfl⟩

/-- What a call does to the map: nothing if it throws, nothing if it is the
inherited one, and else to the entry of its group. -/
theorem call_cases (h : s.call answer c = (t, e)) :
    (e ≠ none ∧ ∃ added, t = { s with added := added }) ∨
      (e = none ∧ ∃ p added, c.group = some p ∧
        (c = .add p ∧ t = { s with added := added } ∨
          (∀ q, c ≠ .add q) ∧ t = { s with
            added := added, profiles := Function.update s.profiles p.get c.binding })) := by
  cases c with
  | add p =>
      have hframe := baseAdd_frame h
      cases e with
      | some what => exact .inl ⟨nofun, hframe⟩
      | none =>
          obtain ⟨added, ht⟩ := hframe
          exact .inr ⟨rfl, p, added, rfl, .inl ⟨rfl, ht⟩⟩
  | addWithProfile group node profile =>
      obtain hthrown | ⟨he, p, added, hgroup, ht⟩ := addCallbackGroupWithProfile_cases h
      · exact .inl hthrown
      · exact .inr ⟨he, p, added, hgroup, .inr ⟨nofun, ht⟩⟩
  | addSubscription group node profile extractor observer =>
      dsimp only [call] at h
      unfold addSubscriptionCallbackGroup at h
      split at h
      · cases h
        exact .inl ⟨nofun, s.added, rfl⟩
      · next x =>
        split at h
        · next t' p hadd =>
          cases h
          obtain ⟨hne, -⟩ | ⟨-, p', added, hgroup, rfl⟩ := addCallbackGroupWithProfile_cases hadd
          · contradiction
          · cases hgroup
            refine .inr ⟨rfl, p, added, rfl, .inr ⟨nofun, ?_⟩⟩
            dsimp only
            rw [Function.update_self, Function.update_idem]
            rfl
        · next t' e' group' hnone hadd =>
          cases h
          obtain hthrown | ⟨he, p', added, hgroup, -⟩ := addCallbackGroupWithProfile_cases hadd
          · exact .inl hthrown
          · exact absurd he (hnone p' hgroup)
  | remove p =>
      dsimp only [call] at h
      unfold removeCallbackGroup at h
      split at h
      · cases h
        exact .inl ⟨nofun, s.added, rfl⟩
      split at h
      · next t' what hbase =>
        cases h
        exact .inl ⟨nofun, baseRemove_frame hbase⟩
      · next t' hbase =>
        cases h
        obtain ⟨added, rfl⟩ := baseRemove_frame hbase
        exact .inr ⟨rfl, p, added, rfl, .inr ⟨nofun, rfl⟩⟩

theorem throwsKeep (s : Registry ε ω) : s.ThrowsKeep := by
  intro c answer e he group
  obtain ⟨t, e', hcall⟩ : ∃ t e', s.call answer c = (t, e') := ⟨_, _, rfl⟩
  rw [hcall] at he ⊢
  obtain ⟨-, added, rfl⟩ | ⟨rfl, -⟩ := call_cases hcall
  · rfl
  · contradiction

end Registry

/-! ## the groups -/

namespace Tracked

variable {s s' : Tracked ε ω} {e : RegistryEvent ε ω}

/-- A group lives at one address at most, and is registered after it was born. -/
structure Sound (s : Tracked ε ω) : Prop where
  apart : Apart s.registry.owner
  born : ∀ a g, s.registry.owner a = some g → s.registry.born g = true
  unborn : ∀ g, s.registry.born g = false → s.registered g = none

theorem exact_iff :
    s.Exact ↔ Reflects s.registry.owner s.registry.profiles {} s.registered :=
  Iff.rfl

theorem sound_initial : ({} : Tracked ε ω).Sound := ⟨nofun, nofun, fun _ _ => rfl⟩

/-- A call that is possible either leaves the map and what was said alone, or
binds its group in both. -/
theorem step_call {c : RegistryCall ε ω} {answer : Answer}
    (hstep : s.step (.call c answer) = some s') :
    s'.registry.owner = s.registry.owner ∧ s'.registry.born = s.registry.born ∧
      ((s.registry.call answer c).2 ≠ none ∧
          s'.registry.profiles = s.registry.profiles ∧ s'.registered = s.registered ∨
        (s.registry.call answer c).2 = none ∧
          ∃ p, c.group = some p ∧ s.registry.owner p.get = some p.group ∧
            s'.registered = Function.update s.registered p.group c.binding ∧
            (c = .add p ∧ s'.registry.profiles = s.registry.profiles ∨
              (∀ q, c ≠ .add q) ∧ s'.registry.profiles =
                Function.update s.registry.profiles p.get c.binding)) := by
  obtain ⟨howner, hs⟩ := Option.ite_none_right_eq_some.mp hstep
  obtain ⟨t, e, hcall⟩ : ∃ t e, s.registry.call answer c = (t, e) := ⟨_, _, rfl⟩
  rw [hcall] at hs ⊢
  obtain ⟨hne, added, rfl⟩ | ⟨rfl, p, added, hgroup, hp⟩ := Registry.call_cases hcall
  · obtain ⟨what, rfl⟩ := Option.ne_none_iff_exists'.mp hne
    cases hs
    exact ⟨rfl, rfl, .inl ⟨nofun, rfl, rfl⟩⟩
  · rw [hgroup] at hs
    cases hs
    have ht : t.owner = s.registry.owner ∧ t.born = s.registry.born := by
      obtain ⟨-, rfl⟩ | ⟨-, rfl⟩ := hp <;> exact ⟨rfl, rfl⟩
    refine ⟨ht.1, ht.2, .inr ⟨rfl, p, hgroup, howner p hgroup, rfl, ?_⟩⟩
    obtain ⟨hadd, rfl⟩ | ⟨hadd, rfl⟩ := hp
    · exact .inl ⟨hadd, rfl⟩
    · exact .inr ⟨hadd, rfl⟩

theorem Sound.step (h : s.Sound) (hstep : s.step e = some s') : s'.Sound := by
  cases e with
  | create g a =>
      obtain ⟨⟨-, hborn⟩, hs⟩ := Option.ite_none_right_eq_some.mp hstep
      cases hs
      constructor
      case apart =>
          refine h.apart.alloc fun b hb => ?_
          rw [h.born b g hb] at hborn
          contradiction
      case born =>
          intro b k hb
          dsimp only at hb ⊢
          rw [Function.update_apply] at hb ⊢
          split
          · rfl
          · next hk =>
            split at hb
            · cases hb
              contradiction
            · exact h.born b k hb
      case unborn =>
          intro k hk
          refine h.unborn k ?_
          dsimp only at hk
          rw [Function.update_apply] at hk
          split at hk
          · contradiction
          · exact hk
  | destroy a =>
      cases hstep
      refine ⟨h.apart.free a, fun b g hb => ?_, h.unborn⟩
      dsimp only at hb
      rw [Function.update_apply] at hb
      split at hb
      · contradiction
      · exact h.born b g hb
  | spinning now =>
      cases hstep
      exact ⟨h.apart, h.born, h.unborn⟩
  | call c answer =>
      obtain ⟨howner, hborn, hcall⟩ := step_call hstep
      constructor
      case apart => exact howner ▸ h.apart
      case born => exact howner ▸ hborn ▸ h.born
      case unborn =>
          rw [hborn]
          obtain ⟨-, -, hsame⟩ | ⟨-, p, -, hp, hnew, -⟩ := hcall
          · exact hsame ▸ h.unborn
          · intro g hg
            have hne : g ≠ p.group := by
              rintro rfl
              rw [h.born p.get p.group hp] at hg
              contradiction
            rw [hnew, Function.update_of_ne hne]
            exact h.unborn g hg

/-- Exactly the steps that are not clean go wrong. -/
theorem Exact.step_iff (h : s.Sound) (hexact : s.Exact) (hstep : s.step e = some s') :
    s'.Exact ↔ s.Clean e := by
  rw [exact_iff] at hexact ⊢
  cases e with
  | create g a =>
      obtain ⟨⟨-, hborn⟩, hs⟩ := Option.ite_none_right_eq_some.mp hstep
      cases hs
      exact iff_of_true (hexact.alloc (h.unborn g hborn)) trivial
  | destroy a =>
      cases hstep
      exact iff_of_true (hexact.free a) trivial
  | spinning now =>
      cases hstep
      exact iff_of_true hexact trivial
  | call c answer =>
      obtain ⟨howner, -, ⟨hthrown, hprofiles, hsame⟩ |
        ⟨hdone, p, -, hp, hnew, ⟨rfl, hprofiles⟩ | ⟨hadd, hprofiles⟩⟩⟩ := step_call hstep
      · refine iff_of_true (howner ▸ hprofiles ▸ hsame ▸ hexact) ?_
        unfold Clean
        split
        · next p heq =>
          cases heq
          exact fun hfree => absurd (Registry.baseAdd_succeeds.mpr ⟨hfree, rfl⟩) hthrown
        · trivial
      · obtain ⟨hfree, rfl⟩ := Registry.baseAdd_succeeds.mp hdone
        rw [howner, hprofiles, hnew]
        refine (hexact.plain_iff h.apart hp).trans ?_
        unfold Clean
        cases hentry : s.registry.profiles p.get with
        | none => simp [hentry]
        | some b => simp [hentry, hfree]
      · rw [howner, hprofiles, hnew]
        refine iff_of_true ?_ ?_
        · exact hexact.set h.apart hp fun v hv => by rw [hv]; rfl
        · unfold Clean
          split
          · next q heq =>
            cases heq
            exact absurd rfl (hadd q)
          · trivial

theorem exact_initial : ({} : Tracked ε ω).Exact := nofun

/-- Profiles by group are what `spin` reads of the map by pointer. -/
theorem Exact.spin (h : s.Exact) {a : Address} {g : GroupId} {b : Binding ε ω}
    (ha : s.registry.owner a = some g) (hg : s.registered g = some b) {x : AnyExecutable}
    (hx : x.callbackGroup = some g) :
    bindingFor (fun g => (s.registered g).map Binding.flags) x =
      (s.registry.bindingFor (some a)).flags := by
  rw [bindingFor, hx, h a g b ha hg]
  dsimp only
  rw [hg]
  rfl

end Tracked

/-- **Profiles**: the binding of a group is the one that it was registered with,
in every state of a run, exactly if the inherited `add_callback_group` never
meets the entry that another registration left at the address. -/
theorem bindings_follow_groups {events : List (RegistryEvent ε ω)} {s : Tracked ε ω}
    (h : Steps.exec Tracked.step {} events = some s) :
    (∀ before t, before <+: events → Steps.exec Tracked.step {} before = some t →
      t.Exact ∧ t.registry.ThrowsKeep) ↔ Steps.Along Tracked.step Tracked.Clean {} events := by
  have hruns := Steps.Along.iff_forall_prefix (fun _ _ _ hs hstep => Tracked.Sound.step hs hstep)
    (fun _ _ _ hs hexact hstep => Tracked.Exact.step_iff hs hexact hstep)
    Tracked.sound_initial Tracked.exact_initial h
  rw [hruns]
  constructor
  · exact fun hboth before t hbefore ht => (hboth before t hbefore ht).1
  · exact fun hexact before t hbefore ht => ⟨hexact before t hbefore ht, t.registry.throwsKeep⟩

/-- A subscription's group is removed before it is destroyed; the next group at
its address has no profile. -/
def tidy : List (RegistryEvent Nat Nat) :=
  [.create 1 100, .call (.addSubscription (some ⟨100, 1⟩) true {} (some 7) none) .accepts,
    .spinning true, .call (.remove ⟨100, 1⟩) .accepts, .spinning false,
    .call (.remove ⟨100, 1⟩) .accepts, .destroy 100, .create 2 100,
    .call (.add ⟨100, 2⟩) .accepts]

theorem bindings_follow_groups_tidy :
    ∃ s, Steps.exec Tracked.step {} tidy = some s ∧ s.Exact ∧ s.registered 2 = some {} := by
  have hrun : ((Steps.exec Tracked.step {} tidy).any fun s =>
      s.registered 2 = some {}) = true ∧ Steps.Along Tracked.step Tracked.Clean {} tidy := by
    decide
  obtain ⟨s, hs, hplain⟩ := (Option.any_eq_true ..).mp hrun.1
  have hall := (bindings_follow_groups hs).mpr hrun.2
  exact ⟨s, hs, (hall tidy s List.prefix_rfl hs).1, of_decide_eq_true hplain⟩

/-- A subscription's group is destroyed while it is registered, and the next
group at its address is added without a profile. -/
def reused : List (RegistryEvent Nat Nat) :=
  [.create 1 100, .call (.addSubscription (some ⟨100, 1⟩) true {} (some 7) none) .accepts,
    .destroy 100, .create 2 100, .call (.add ⟨100, 2⟩) .accepts]

/-- The extractor of the first group is applied to the messages of the second. -/
theorem bindings_follow_groups_refuted :
    ∃ s, Steps.exec Tracked.step {} reused = some s ∧ s.registry.owner 100 = some 2 ∧
      s.registered 2 = some {} ∧
      (s.registry.bindingFor (some 100)).metadataExtractor = some 7 ∧ ¬s.Exact := by
  have hrun : ((Steps.exec Tracked.step {} reused).any fun s =>
      s.registry.owner 100 = some 2 ∧ s.registered 2 = some {} ∧
        (s.registry.bindingFor (some 100)).metadataExtractor = some 7) = true := by
    decide
  obtain ⟨s, hs, hfacts⟩ := (Option.any_eq_true ..).mp hrun
  obtain ⟨howner, hplain, hextractor⟩ := of_decide_eq_true hfacts
  refine ⟨s, hs, howner, hplain, hextractor, fun hexact => ?_⟩
  rw [hexact 100 2 {} howner hplain] at hextractor
  contradiction

end ScxSlam.Executor
