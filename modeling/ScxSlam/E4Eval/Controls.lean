import Mathlib.Data.List.ProdSigma
import ScxSlam.E4Eval.Summary

/-!
# ScxSlam.E4Eval.Controls

Every plan carries its own controls: whatever the shuffles do, a case's control
has run before the case, and the rest of a repetition stands between its
controls.
-/

namespace ScxSlam.E4Eval

open Raise
open PipelineDemo (Row StageName)

/-! ## the three plans -/

/-- A plan, with what it takes beside repetitions and seed. -/
inductive Kind
  | sweep (costs : Costs) (probe wakeupOnly : Bool)
  | lidarPreBudget
  | lidarPreClass

namespace Kind

def draw (rng : Rng) (repetitions : Nat) (seed : Int) : Kind → List Case
  | .sweep costs probe wakeupOnly => rng.casePlan costs repetitions seed probe wakeupOnly
  | .lidarPreBudget => rng.lidarPreBudgetCasePlan repetitions seed
  | .lidarPreClass => rng.lidarPreClassCasePlan repetitions seed

/-- The modes every case is run in. -/
def modes : Kind → List ImuPreempt
  | .sweep _ probe wakeupOnly => if probe && !wakeupOnly then [.wakeup, .always] else [.wakeup]
  | .lidarPreBudget | .lidarPreClass => [.wakeup]

/-- What is varied. -/
def variant : Kind → Case → Nat
  | .sweep _ _ _ => Case.imuWorkUs
  | .lidarPreBudget => Case.lidarPreBudgetUs
  | .lidarPreClass => Case.lidarPreClassId

/-- The values it takes between the controls. -/
def variants : Kind → List Nat
  | .sweep costs _ _ => costs.costs.filter (· ≠ 150)
  | .lidarPreBudget => [defaultLidarPreBudgetUs, 6000]
  | .lidarPreClass => [defaultLidarPreClassId, 0]

end Kind

/-! ## what a plan has to satisfy -/

/-- The settings of a control. -/
structure Case.AtRest (c : Case) : Prop where
  imuWorkUs : c.imuWorkUs = 150
  lidarPreBudgetUs : c.lidarPreBudgetUs = defaultLidarPreBudgetUs
  lidarPreClassId : c.lidarPreClassId = defaultLidarPreClassId

/-- Every case of a prefix has the control that starts it in that prefix, and
the plan has no other. -/
def Controlled (plan : List Case) : Prop :=
  ∀ before, before <+: plan → ∀ c ∈ before, ∃ control ∈ before,
    control.Starts c ∧ control.AtRest ∧ ∀ other ∈ plan, other.Starts c → other = control

/-- The controls that start, what is swept, and the controls that end. -/
structure Bracket (kind : Kind) (starts sweep ends : List Case) : Prop where
  atStart : ∀ c ∈ starts, c.role = .controlStart ∧ c.AtRest
  between : ∀ c ∈ sweep, c.role = .sweep
  atEnd : ∀ c ∈ ends, c.role = .controlEnd ∧ c.AtRest
  startModes : (starts.map Case.imuPreempt).Perm kind.modes
  endModes : (ends.map Case.imuPreempt).Perm kind.modes
  variants : (sweep.map fun c => (kind.variant c, c.imuPreempt)).Perm
    (kind.variants ×ˢ kind.modes)

/-- A repetition runs every variant once in each mode, between its controls. -/
def Bracketed (kind : Kind) (cases : List Case) : Prop :=
  ∃ starts sweep ends, cases = starts ++ sweep ++ ends ∧ Bracket kind starts sweep ends

/-- The loop over a plan never fails in a summary, and every row of one is
against the control that starts its case. -/
structure Summarizes (run : Case → Except String Measured) (plan : List Case) : Prop where
  loop : ∀ e, caseLoop run [] plan ≠ .error (.summary e)
  rows : ∀ before cases, before <+: plan → before.mapM run = .ok cases →
    ∃ summary, summarize cases = .ok summary ∧
      List.Forall₂ (fun c row => row.name = c.name ∧ ∃ control ∈ cases,
        control.toCase.Starts c.toCase ∧ control.toCase.AtRest ∧
          row.controlCase = control.name) cases summary.matrix ∧
      ∀ r ∈ summary.stages, ∃ c ∈ cases, ∃ control ∈ cases,
        control.toCase.Starts c.toCase ∧ control.toCase.AtRest ∧ r.Against c control

/-! ## a repetition -/

/-- The cases of one repetition. -/
structure Block (kind : Kind) (r : Nat) (cases : List Case) : Prop where
  repetition : ∀ c ∈ cases, c.repetition = r
  named : Named r cases
  bracketed : Bracketed kind cases

/-- No mode comes twice. -/
theorem Kind.nodup_modes (kind : Kind) : kind.modes.Nodup := by
  cases kind with
  | sweep costs probe wakeupOnly =>
      rw [modes]
      split <;> decide
  | lidarPreBudget => decide
  | lidarPreClass => decide

section Bracket

variable {kind : Kind} {starts sweep ends before : List Case} {c : Case}

/-- Every case of a bracket is in one of its modes. -/
theorem Bracket.mem_modes (h : Bracket kind starts sweep ends)
    (hc : c ∈ starts ++ sweep ++ ends) : c.imuPreempt ∈ kind.modes := by
  obtain hc | hc := List.mem_append.mp hc
  · obtain hc | hc := List.mem_append.mp hc
    · exact h.startModes.mem_iff.mp (List.mem_map_of_mem hc)
    · have hpair := h.variants.mem_iff.mp (List.mem_map_of_mem hc)
      exact (List.pair_mem_product.mp hpair).2
  · exact h.endModes.mem_iff.mp (List.mem_map_of_mem hc)

/-- Only what starts has the role. -/
theorem Bracket.mem_starts (h : Bracket kind starts sweep ends)
    (hc : c ∈ starts ++ sweep ++ ends) (hrole : c.role = .controlStart) : c ∈ starts := by
  obtain hc | hc := List.mem_append.mp hc
  · obtain hc | hc := List.mem_append.mp hc
    · exact hc
    · exact nomatch hrole.symm.trans (h.between c hc)
  · exact nomatch hrole.symm.trans (h.atEnd c hc).1

/-- A prefix that reaches beyond the starts has all of them. -/
theorem Bracket.exists_start (h : Bracket kind starts sweep ends)
    (hbefore : before <+: starts ++ sweep ++ ends) (hc : c ∈ before) :
    ∃ control ∈ before, control.role = .controlStart ∧ control.imuPreempt = c.imuPreempt ∧
      control.AtRest := by
  have hstarts : starts <+: starts ++ sweep ++ ends := by
    rw [List.append_assoc]
    exact List.prefix_append _ _
  obtain hshort | hlong := List.prefix_or_prefix_of_prefix hbefore hstarts
  · obtain ⟨hrole, hrest⟩ := h.atStart c (hshort.subset hc)
    exact ⟨c, hc, hrole, rfl, hrest⟩
  · have hmode := h.startModes.mem_iff.mpr (h.mem_modes (hbefore.subset hc))
    obtain ⟨control, hcontrol, hsame⟩ := List.mem_map.mp hmode
    obtain ⟨hrole, hrest⟩ := h.atStart control hcontrol
    exact ⟨control, hlong.subset hcontrol, hrole, hsame, hrest⟩

end Bracket

/-- In every block a control at rest comes before the case that it starts. -/
theorem Block.exists_start {kind : Kind} {r : Nat} {cases before : List Case} {c : Case}
    (h : Block kind r cases) (hbefore : before <+: cases) (hc : c ∈ before) :
    ∃ control ∈ before, control.Starts c ∧ control.AtRest := by
  obtain ⟨hrepetition, -, starts, sweep, ends, rfl, hbracket⟩ := h
  obtain ⟨control, hcontrol, hrole, hmode, hrest⟩ := hbracket.exists_start hbefore hc
  have hsame : control.repetition = c.repetition :=
    (hrepetition control (hbefore.subset hcontrol)).trans (hrepetition c (hbefore.subset hc)).symm
  exact ⟨control, hcontrol, ⟨hrole, hsame, hmode⟩, hrest⟩

/-- No two controls start the same mode. -/
theorem Bracketed.start_unique {kind : Kind} {cases : List Case} {c c' : Case}
    (h : Bracketed kind cases) (hc : c ∈ cases) (hc' : c' ∈ cases)
    (hrole : c.role = .controlStart) (hrole' : c'.role = .controlStart)
    (hmode : c.imuPreempt = c'.imuPreempt) : c = c' := by
  obtain ⟨starts, sweep, ends, rfl, hbracket⟩ := h
  have hnodup := hbracket.startModes.nodup_iff.mpr kind.nodup_modes
  exact List.inj_on_of_nodup_map hnodup (hbracket.mem_starts hc hrole)
    (hbracket.mem_starts hc' hrole') hmode

/-! ## one repetition after the other -/

section Repeated

variable {σ : Type} {kind : Kind} {body : Nat → σ → List Case × σ}

/-- Every case belongs to a repetition. -/
theorem repetition_mem_repeated (h : ∀ r s, Block kind r (body r s).1) (rs : List Nat) (s : σ) :
    ∀ c ∈ repeated body rs s, c.repetition ∈ rs := by
  induction rs generalizing s with
  | nil => exact nofun
  | cons r rs ih =>
      intro c hc
      obtain hc | hc := List.mem_append.mp hc
      · rw [(h r s).repetition c hc]
        exact List.mem_cons_self
      · exact List.mem_cons_of_mem r (ih _ c hc)

/-- The cases of a repetition are what its turn has yielded. -/
theorem filter_repeated (h : ∀ r s, Block kind r (body r s).1) {rs : List Nat} (hrs : rs.Nodup)
    {r : Nat} (hr : r ∈ rs) (s : σ) :
    ∃ s', (repeated body rs s).filter (·.repetition = r) = (body r s').1 := by
  induction rs generalizing s with
  | nil => contradiction
  | cons r' rs ih =>
      obtain ⟨hnew, hrs⟩ := List.nodup_cons.mp hrs
      rw [repeated, List.filter_append]
      obtain rfl | hr := List.mem_cons.mp hr
      · have hblock : (body r s).1.filter (·.repetition = r) = (body r s).1 :=
          List.filter_eq_self.mpr fun c hc => decide_eq_true ((h r s).repetition c hc)
        have hrest : (repeated body rs (body r s).2).filter (·.repetition = r) = [] := by
          refine List.filter_eq_nil_iff.mpr fun c hc hsame => hnew ?_
          rw [← of_decide_eq_true hsame]
          exact repetition_mem_repeated h rs _ c hc
        exact ⟨s, by rw [hblock, hrest, List.append_nil]⟩
      · have hblock : (body r' s).1.filter (·.repetition = r) = [] := by
          refine List.filter_eq_nil_iff.mpr fun c hc hsame => hnew ?_
          rw [← (h r' s).repetition c hc, of_decide_eq_true hsame]
          exact hr
        obtain ⟨s', hs'⟩ := ih hrs hr (body r' s).2
        exact ⟨s', by rw [hblock, hs', List.nil_append]⟩

/-- In every prefix the control of a case is there: the repetitions before it
are whole. -/
theorem exists_start_repeated (h : ∀ r s, Block kind r (body r s).1) (rs : List Nat) (s : σ) :
    ∀ before, before <+: repeated body rs s → ∀ c ∈ before, ∃ control ∈ before,
      control.Starts c ∧ control.AtRest := by
  induction rs generalizing s with
  | nil =>
      intro before hbefore c hc
      rw [List.prefix_nil.mp hbefore] at hc
      contradiction
  | cons r rs ih =>
      intro before hbefore c hc
      have hblock : (body r s).1 <+: repeated body (r :: rs) s := List.prefix_append _ _
      obtain hshort | ⟨later, rfl⟩ := List.prefix_or_prefix_of_prefix hbefore hblock
      · exact (h r s).exists_start hshort hc
      · obtain hc | hc := List.mem_append.mp hc
        · obtain ⟨control, hcontrol, hstarts⟩ := (h r s).exists_start List.prefix_rfl hc
          exact ⟨control, List.mem_append_left _ hcontrol, hstarts⟩
        · have hlater := (List.prefix_append_right_inj _).mp hbefore
          obtain ⟨control, hcontrol, hstarts⟩ := ih _ later hlater c hc
          exact ⟨control, List.mem_append_right _ hcontrol, hstarts⟩

/-- A plan of such repetitions is controlled. -/
theorem controlled_repeated (h : ∀ r s, Block kind r (body r s).1) {rs : List Nat}
    (hrs : rs.Nodup) (s : σ) : Controlled (repeated body rs s) := by
  intro before hbefore c hc
  obtain ⟨control, hcontrol, hstarts, hrest⟩ := exists_start_repeated h rs s before hbefore c hc
  refine ⟨control, hcontrol, hstarts, hrest, fun other hother hstarts' => ?_⟩
  have hmem : c.repetition ∈ rs := repetition_mem_repeated h rs s c (hbefore.subset hc)
  obtain ⟨s', hs'⟩ := filter_repeated h hrs hmem s
  have hin : ∀ d ∈ repeated body rs s, d.repetition = c.repetition →
      d ∈ (body c.repetition s').1 := by
    intro d hd hsame
    rw [← hs']
    exact List.mem_filter.mpr ⟨hd, decide_eq_true hsame⟩
  exact (h c.repetition s').bracketed.start_unique (hin other hother hstarts'.repetition)
    (hin control (hbefore.subset hcontrol) hstarts.repetition) hstarts'.role hstarts.role
    (hstarts'.imuPreempt.trans hstarts.imuPreempt.symm)

end Repeated

/-! ## the repetitions of the plans -/

section CasePlan

variable {rng : Rng} {r : Nat} {both : Bool}

/-- The modes of a case before they are shuffled. -/
def planModes (both : Bool) : List ImuPreempt := if both then [.wakeup, .always] else [.wakeup]

/-- The roles and costs of a list before those of another. -/
theorem planCases_append (xs ys : List (Role × Nat)) (s : rng.State) :
    ∃ s', (rng.planCases r both (xs ++ ys) s).1 =
      (rng.planCases r both xs s).1 ++ (rng.planCases r both ys s').1 := by
  induction xs generalizing s with
  | nil => exact ⟨s, rfl⟩
  | cons x xs ih =>
      obtain ⟨s', hs'⟩ := ih (rng.shuffle (planModes both) s).2
      refine ⟨s', ?_⟩
      rw [List.cons_append]
      show _ ++ (rng.planCases r both (xs ++ ys) _).1 = (_ ++ (rng.planCases r both xs _).1) ++ _
      rw [List.append_assoc]
      exact congrArg _ hs'

/-- Up to its order, every role and cost is run in each of the modes. -/
theorem planCases_perm (xs : List (Role × Nat)) (s : rng.State) :
    (rng.planCases r both xs s).1.Perm
      ((xs ×ˢ planModes both).map fun x => Rng.planCase r x.1.1 x.1.2 x.2) := by
  induction xs generalizing s with
  | nil => exact .refl _
  | cons x xs ih =>
      have hmodes := (rng.perm (planModes both) s).map (Rng.planCase r x.1 x.2)
      rw [List.product_cons, List.map_append, List.map_map]
      exact hmodes.append (ih _)

/-- What follows in the name of a case of `case_plan` with its mode. -/
def modeRest (x : (Role × Nat) × ImuPreempt) : String := x.2.text ++ "-" ++ roleCost x.1

/-- Different roles, costs and modes are named differently. -/
theorem modeRest_inj {x y : (Role × Nat) × ImuPreempt} (h : modeRest x = modeRest y) : x = y := by
  obtain ⟨x, mode⟩ := x
  obtain ⟨y, mode'⟩ := y
  have hlist := congrArg String.toList h
  have hmode : mode = mode' := by
    cases mode <;> cases mode' <;> first | rfl | simp [modeRest, ImuPreempt.text] at hlist
  subst hmode
  have hrest : roleCost x = roleCost y := by
    rw [← String.toList_inj]
    simpa [modeRest] using hlist
  rw [roleCost_inj hrest]

/-- The name of a case in its mode. -/
theorem name_planCase_mode (x : (Role × Nat) × ImuPreempt) :
    (Rng.planCase r x.1.1 x.1.2 x.2).name = caseName r (modeRest x) := by
  rw [← String.toList_inj]
  simp [Rng.planCase, caseName, modeRest, roleCost]

/-- No mode comes twice. -/
theorem nodup_planModes : (planModes both).Nodup := by
  cases both <;> decide

/-- The cases of a list of roles and costs without doubles. -/
theorem named_planCases {xs : List (Role × Nat)} (hxs : xs.Nodup) (s : rng.State) :
    Named r (rng.planCases r both xs s).1 := by
  refine ⟨(xs ×ˢ planModes both).map modeRest, ?_, ?_⟩
  · exact (hxs.product nodup_planModes).map fun x y => modeRest_inj
  · refine ((planCases_perm xs s).map Case.name).trans (.of_eq ?_)
    rw [List.map_map, List.map_map]
    exact List.map_congr_left fun x _ => name_planCase_mode x

/-- A case of the plan has a role, a cost and a mode. -/
theorem mem_planCases {xs : List (Role × Nat)} {s : rng.State} {c : Case}
    (hc : c ∈ (rng.planCases r both xs s).1) :
    ∃ x ∈ xs, ∃ mode, c = Rng.planCase r x.1 x.2 mode := by
  obtain ⟨⟨x, mode⟩, hx, rfl⟩ := List.mem_map.mp ((planCases_perm xs s).mem_iff.mp hc)
  exact ⟨x, (List.pair_mem_product.mp hx).1, mode, rfl⟩

/-- A control is run once in each of the modes. -/
theorem modes_planCases (x : Role × Nat) (s : rng.State) :
    ((rng.planCases r both [x] s).1.map Case.imuPreempt).Perm (planModes both) := by
  refine ((planCases_perm [x] s).map Case.imuPreempt).trans (.of_eq ?_)
  simp [Function.comp_def, Rng.planCase]

/-- A cost is run once in each of them. -/
theorem variants_planCases (middle : List Nat) (s : rng.State) :
    ((rng.planCases r both (middle.map fun c => (.sweep, c)) s).1.map
      fun c => (c.imuWorkUs, c.imuPreempt)).Perm (middle ×ˢ planModes both) := by
  refine ((planCases_perm _ s).map fun c => (c.imuWorkUs, c.imuPreempt)).trans (.of_eq ?_)
  rw [List.map_map]
  induction middle with
  | nil => rfl
  | cons cost middle ih =>
      rw [List.map_cons, List.product_cons, List.product_cons, List.map_append, ih, List.map_map]
      rfl

/-- The controls are at rest. -/
theorem atRest_planCases {role : Role} {s : rng.State} :
    ∀ c ∈ (rng.planCases r both [(role, 150)] s).1, c.role = role ∧ c.AtRest := by
  intro c hc
  obtain ⟨x, hx, mode, rfl⟩ := mem_planCases hc
  rw [List.mem_singleton.mp hx]
  exact ⟨rfl, rfl, rfl, rfl⟩

/-- Controls at both ends of the sweep. -/
theorem bracket_casePlan {costs : Costs} {probe wakeupOnly : Bool} {middle : List Nat}
    (hperm : middle.Perm (costs.costs.filter (· ≠ 150))) (s s₁ s₂ : rng.State) :
    Bracket (.sweep costs probe wakeupOnly)
      (rng.planCases r (probe && !wakeupOnly) [(.controlStart, 150)] s).1
      (rng.planCases r (probe && !wakeupOnly) (middle.map fun c => (.sweep, c)) s₁).1
      (rng.planCases r (probe && !wakeupOnly) [(.controlEnd, 150)] s₂).1 where
  atStart := atRest_planCases
  between c hc := by
    obtain ⟨x, hx, mode, rfl⟩ := mem_planCases hc
    obtain ⟨cost, -, rfl⟩ := List.mem_map.mp hx
    rfl
  atEnd := atRest_planCases
  startModes := modes_planCases _ s
  endModes := modes_planCases _ s₂
  variants := (variants_planCases middle s₁).trans (hperm.product_right _)

/-- A repetition of `case_plan`. -/
theorem block_casePlan {costs : Costs} {probe wakeupOnly : Bool} {middle : List Nat}
    (hperm : middle.Perm (costs.costs.filter (· ≠ 150))) (s : rng.State) :
    Block (.sweep costs probe wakeupOnly) r
      (rng.planCases r (probe && !wakeupOnly) (planRoles middle) s).1 := by
  have hmiddle : middle.Nodup := hperm.nodup_iff.mpr (costs.nodup.filter _)
  refine ⟨fun c hc => ?_, named_planCases (nodup_planRoles hmiddle) s, ?_⟩
  · obtain ⟨x, -, mode, rfl⟩ := mem_planCases hc
    rfl
  · obtain ⟨s₁, h₁⟩ := @planCases_append rng r (probe && !wakeupOnly) [(.controlStart, 150)]
      (middle.map (fun c => (.sweep, c)) ++ [(.controlEnd, 150)]) s
    obtain ⟨s₂, h₂⟩ := @planCases_append rng r (probe && !wakeupOnly)
      (middle.map (fun c => (.sweep, c))) [(.controlEnd, 150)] s₁
    refine ⟨_, _, _, ?_, bracket_casePlan (r := r) hperm s s₁ s₂⟩
    rw [List.append_assoc, ← h₂, ← h₁]
    rfl

end CasePlan

/-- Every value in the only mode. -/
theorem product_singleton (order : List Nat) (mode : ImuPreempt) :
    order ×ˢ [mode] = order.map fun v => (v, mode) := by
  induction order with
  | nil => rfl
  | cons v order ih =>
      rw [List.product_cons, ih]
      rfl

/-- A repetition of a LiDAR plan. -/
theorem block_lidarPre {kind : Kind} {r : Nat} {q : Case} {control : String} {order : List Nat}
    {f : Nat → Case} (hmodes : kind.modes = [.wakeup]) (hperm : order.Perm kind.variants)
    (hf : ∀ v, (f v).role = .sweep ∧ (f v).imuPreempt = .wakeup ∧ kind.variant (f v) = v)
    (h : Repetition q r (Rng.lidarPreCase r control .controlStart 150 :: order.map f ++
      [Rng.lidarPreCase r control .controlEnd 150])) :
    Block kind r (Rng.lidarPreCase r control .controlStart 150 :: order.map f ++
      [Rng.lidarPreCase r control .controlEnd 150]) := by
  refine ⟨fun c hc => (h.drawn c hc).1, h.named, [_], order.map f, [_], rfl, {
    atStart := List.forall_mem_singleton.mpr ⟨rfl, rfl, rfl, rfl⟩
    between := List.forall_mem_map.mpr fun v _ => (hf v).1
    atEnd := List.forall_mem_singleton.mpr ⟨rfl, rfl, rfl, rfl⟩
    startModes := by rw [hmodes]; exact .refl _
    endModes := by rw [hmodes]; exact .refl _
    variants := ?_ }⟩
  have hpairs : ((order.map f).map fun c => (kind.variant c, c.imuPreempt)) =
      order ×ˢ [ImuPreempt.wakeup] := by
    rw [List.map_map]
    refine (List.map_congr_left fun v _ => ?_).trans (product_singleton order _).symm
    rw [Function.comp_apply, (hf v).2.1, (hf v).2.2]
  rw [hpairs, hmodes]
  exact hperm.product_right _

/-! ## whole plans -/

/-- Every plan is one such repetition after the other. -/
theorem Kind.draw_repeated (kind : Kind) (rng : Rng) (repetitions : Nat) (seed : Int) :
    ∃ body : Nat → rng.State → List Case × rng.State,
      kind.draw rng repetitions seed =
        repeated body (List.range' 1 repetitions) (rng.seeded seed) ∧
      ∀ r s, Block kind r (body r s).1 := by
  cases kind with
  | sweep costs probe wakeupOnly =>
      exact ⟨_, rfl, fun r s => block_casePlan (rng.perm _ s) _⟩
  | lidarPreBudget =>
      exact ⟨_, rfl, fun r s => block_lidarPre rfl (rng.perm _ s) (fun _ => ⟨rfl, rfl, rfl⟩)
        (repetition_budget (rng.perm _ s))⟩
  | lidarPreClass =>
      exact ⟨_, rfl, fun r s => block_lidarPre rfl (rng.perm _ s) (fun _ => ⟨rfl, rfl, rfl⟩)
        (repetition_class (rng.perm _ s))⟩

/-- Every plan that is drawn carries its controls. -/
theorem Kind.controlled_draw (kind : Kind) (rng : Rng) (repetitions : Nat) (seed : Int) :
    Controlled (kind.draw rng repetitions seed) := by
  obtain ⟨body, hdraw, hblock⟩ := kind.draw_repeated rng repetitions seed
  rw [hdraw]
  exact controlled_repeated hblock List.nodup_range' _

/-- The cases that `main` runs: without archived binaries, no grace applies. -/
def Case.graced (archived : Bool) (c : Case) : Case :=
  if archived then c else { c with deadlineGraceUs := .notApplicable }

/-- Equal but for the grace. -/
def Case.Agrees (c c' : Case) : Prop := c = { c' with deadlineGraceUs := c.deadlineGraceUs }

/-- A grace changes nothing that is compared. -/
theorem agrees_graced (archived : Bool) (c : Case) : (c.graced archived).Agrees c := by
  cases archived <;> rfl

section Agrees

variable {c c' control control' : Case}

/-- The grace has no part in what a control is. -/
theorem Case.Starts.congr (h : control.Starts c) (hcontrol : control'.Agrees control)
    (hc : c'.Agrees c) : control'.Starts c' := by
  rw [hcontrol, hc]
  exact ⟨h.role, h.repetition, h.imuPreempt⟩

theorem Case.AtRest.congr (h : control.AtRest) (hcontrol : control'.Agrees control) :
    control'.AtRest := by
  rw [hcontrol]
  exact ⟨h.imuWorkUs, h.lidarPreBudgetUs, h.lidarPreClassId⟩

theorem Case.Agrees.symm (h : c.Agrees c') : c'.Agrees c := by
  unfold Agrees at h ⊢
  rw [h]

end Agrees

/-- A plan stays controlled under a change of its grace. -/
theorem Controlled.map {plan : List Case} {f : Case → Case} (h : Controlled plan)
    (hf : ∀ c, (f c).Agrees c) : Controlled (plan.map f) := by
  intro before hbefore c hc
  rw [List.prefix_iff_eq_take.mp hbefore, ← List.map_take] at hc ⊢
  obtain ⟨d, hd, rfl⟩ := List.mem_map.mp hc
  obtain ⟨control, hcontrol, hstarts, hrest, hunique⟩ := h _ (List.take_prefix _ plan) d hd
  refine ⟨f control, List.mem_map_of_mem hcontrol, hstarts.congr (hf _) (hf _),
    hrest.congr (hf _), fun other hother hstarts' => ?_⟩
  obtain ⟨e, he, rfl⟩ := List.mem_map.mp hother
  rw [hunique e he (hstarts'.congr (hf _).symm (hf _).symm)]

/-- Only controls at rest start. -/
theorem Controlled.atRest {plan : List Case} {c : Case} (h : Controlled plan) (hc : c ∈ plan)
    (hrole : c.role = .controlStart) : c.AtRest := by
  obtain ⟨control, -, -, hrest, hunique⟩ := h plan List.prefix_rfl c hc
  rw [hunique c hc ⟨hrole, rfl, rfl⟩]
  exact hrest

/-- In a controlled plan every summary succeeds. -/
theorem Controlled.summarizes {plan : List Case} {duration : Nat} (h : Controlled plan)
    (hduration : 1 ≤ duration) (attempt : Case → Except String Attempt) :
    Summarizes (measure duration attempt) plan := by
  have hrows : ∀ before cases, before <+: plan →
      before.mapM (measure duration attempt) = .ok cases →
      ∃ summary, summarize cases = .ok summary ∧
        ∀ control ∈ cases, control.role = .controlStart → control.toCase.AtRest := by
    intro before cases hbefore hrun
    have hmeasured := mapM_eq_ok.mp hrun
    have hplanned : ∀ m ∈ cases, ∃ c ∈ before, m.toCase.Agrees c ∧
        (c.expected duration).Parsed m.data := by
      intro m hm
      obtain ⟨c, hc, hcm⟩ := exists_of_mem hmeasured.flip hm
      exact ⟨c, hc, measure_spec hcm⟩
    refine (exists_summarize (fun m hm => ?_) fun m hm => ?_).imp fun summary hsummary =>
      ⟨hsummary, fun m hm hrole => ?_⟩
    · obtain ⟨c, -, -, hparsed⟩ := hplanned m hm
      exact ⟨_, hduration, hparsed⟩
    · obtain ⟨c, hc, hagrees, -⟩ := hplanned m hm
      obtain ⟨control, hcontrol, hstarts, -, -⟩ := h before hbefore c hc
      obtain ⟨m', hm', hcm'⟩ := exists_of_mem hmeasured hcontrol
      exact ⟨m', hm', hstarts.congr (measure_spec hcm').1 hagrees⟩
    · obtain ⟨c, hc, hagrees, -⟩ := hplanned m hm
      have hrole' : c.role = .controlStart := by
        rw [hagrees.symm]
        exact hrole
      exact (h.atRest (hbefore.subset hc) hrole').congr hagrees
  constructor
  · refine @caseLoop_ne_summary _ [] plan [] rfl fun before cases hbefore hrun => ?_
    obtain ⟨summary, hsummary, -⟩ := hrows before cases hbefore hrun
    exact ⟨summary, hsummary⟩
  · intro before cases hbefore hrun
    obtain ⟨summary, hsummary, hrest⟩ := hrows before cases hbefore hrun
    obtain ⟨hmatrix, hstages⟩ := summarize_spec hsummary
    refine ⟨summary, hsummary, hmatrix.imp ?_, fun r hr => ?_⟩
    · rintro c row ⟨hname, control, hcontrol, hstarts, hrow⟩
      exact ⟨hname, control, hcontrol, hstarts, hrest control hcontrol hstarts.role, hrow⟩
    · obtain ⟨c, hc, control, hcontrol, hstarts, hagainst⟩ := hstages r hr
      exact ⟨c, hc, control, hcontrol, hstarts, hrest control hcontrol hstarts.role, hagainst⟩

/-! ## main -/

section Main

variable {args checked : Args} {rng : Rng} {affinity : List Nat} {plan : List Case}

/-- The plan that the options select. -/
def Args.kind (args : Args) (explicit : Bool) : Kind :=
  if args.lidarPreBudgetProbe then .lidarPreBudget
  else if args.lidarPreClassProbe then .lidarPreClass
  else .sweep (args.costsOf explicit) args.preemptProbe args.wakeupOnly

/-- The arguments draw a plan of their kind. -/
theorem Args.draw_kind (args : Args) (rng : Rng) (explicit : Bool) :
    args.draw rng explicit = (args.kind explicit).draw rng args.repetitions.toNat args.seed := by
  unfold Args.draw Args.kind
  dsimp only
  split
  · rfl
  split
  · rfl
  · rfl

/-- Arguments that pass have a duration. -/
theorem Args.one_le_duration (h : args.check affinity = .ok checked) : 1 ≤ checked.duration := by
  unfold Args.check at h
  dsimp only at h
  split at h
  · contradiction
  split at h
  · contradiction
  split at h
  · contradiction
  · next hpositive =>
    split at h
    · contradiction
    · cases h
      simp only [Bool.or_eq_true, decide_eq_true_eq, not_or, Int.not_lt] at hpositive
      exact hpositive.1

/-- The loop of `main` never fails in a summary. -/
theorem Args.plan_summarizes (h : args.plan rng affinity = .ok (checked, plan))
    (attempt : Case → Except String Attempt) :
    Summarizes (measure checked.duration.toNat attempt) plan := by
  obtain ⟨focused, -, h⟩ := bind_eq_ok.mp h
  obtain ⟨checked', hcheck, h⟩ := bind_eq_ok.mp h
  cases h
  have hduration := one_le_duration hcheck
  refine Controlled.summarizes ?_ (by omega) attempt
  have hdrawn : Controlled (checked.draw rng args.perfSched) := by
    rw [draw_kind]
    exact Kind.controlled_draw _ rng _ _
  split
  · exact hdrawn
  · exact hdrawn.map fun _ => rfl

end Main

/-- Every plan carries its own controls, whatever is shuffled. -/
theorem plans_carry_controls (rng : Rng) (kind : Kind) (repetitions : Nat) (seed : Int) :
    let plan := kind.draw rng repetitions seed
    (plan.map Case.name).Nodup ∧ Controlled plan ∧
      (∀ c ∈ plan, c.repetition ∈ List.range' 1 repetitions) ∧
      (∀ r ∈ List.range' 1 repetitions, Bracketed kind (plan.filter (·.repetition = r))) ∧
      ∀ archived duration attempt, 1 ≤ duration →
        Summarizes (measure duration attempt) (plan.map (Case.graced archived)) := by
  obtain ⟨body, hdraw, hblock⟩ := kind.draw_repeated rng repetitions seed
  intro plan
  have hplan : plan = repeated body (List.range' 1 repetitions) (rng.seeded seed) := hdraw
  have hcontrolled : Controlled plan := kind.controlled_draw rng repetitions seed
  refine ⟨?_, hcontrolled, ?_, fun r hr => ?_, fun archived duration attempt hduration => ?_⟩
  · rw [hplan]
    exact (nodup_repeated (fun r s => (hblock r s).named) List.nodup_range' _).1
  · rw [hplan]
    exact repetition_mem_repeated hblock _ _
  · obtain ⟨s', hs'⟩ := filter_repeated hblock List.nodup_range' hr (rng.seeded seed)
    rw [hplan, hs']
    exact (hblock r s').bracketed
  · exact (hcontrolled.map (agrees_graced archived)).summarizes hduration attempt

/-- A generator that turns every list around. -/
def turning : Rng where
  State := Unit
  seeded _ := ()
  shuffle l s := (l.reverse, s)
  perm l _ := l.reverse_perm

/-- A run of a second in which the stages do nothing but IMU work. -/
def quietRows (c : Case) : List Row :=
  let cpuNs := 200 * c.imuWorkUs * 1000
  let stage (p : StageName) (count cpuNs : Nat) : List Row := [
    (.stage p, [(.processed, count), (.late, 0), (.cpuUs, cpuNs / 1000), (.dequeued, count),
      (.pending, 0), (.staleSeen, 0), (.droppedStale, 0)]),
    (.window p, [(.offered, count), (.completed, count), (.late, 0), (.staleSeen, 0),
      (.droppedStale, 0), (.pending, 0), (.inFlight, 0), (.cpuUs, cpuNs / 1000), (.cpuNs, cpuNs),
      (.cpuUncertaintyNs, 0)]),
    (.drain p, [(.completed, 0), (.late, 0), (.cpuUs, 0), (.cpuNs, 0), (.cpuUncertaintyNs, 0)])]
  [(.generated, [(.imu, 200), (.camera, 31), (.lidar, 10)]),
    (.configuration, [(.imuWorkUs, c.imuWorkUs), (.visionWorkUs, 0), (.visionBudgetUs, 12000),
      (.visionDeadlineUs, 33000), (.lidarPreBudgetUs, c.lidarPreBudgetUs),
      (.lidarPreClassId, c.lidarPreClassId)]),
    (.measurement, [(.startNs, 0), (.endNs, 1000000000), (.windowNs, 1000000000),
      (.elapsedNs, 1000000000), (.drainElapsedNs, 0)]),
    (.imuIdentity, [(.policy, 7), (.stageId, 0), (.pidTgid, 1)])] ++
  stage .imuProp 200 cpuNs ++ stage (.stage .vis) 31 0 ++ stage (.stage .est) 31 0 ++
  stage (.stage .lpre) 10 0 ++ stage (.stage .lreg) 10 0 ++ stage (.stage .map) 41 0

def quietAttempt (c : Case) : Except String Attempt :=
  .ok { applicationOwned := true, rows := quietRows c, processElapsedS := 2, rest := .ok () }

/-- The ratios to the controls in the summary of a whole plan. -/
def ratios (plan : List Case) : Option (List (List (StageName × Option ℚ))) :=
  match plan.mapM (measure 1 quietAttempt) with
  | .error _ => none
  | .ok cases => (summarize cases).toOption.map fun s => s.matrix.map (·.rateRatioToControl)

/-- A plan of two repetitions, with its summary. -/
theorem plans_carry_controls_turning :
    Summarizes (measure 1 quietAttempt)
      ((Kind.lidarPreClass.draw turning 2 4).map (Case.graced false)) :=
  (plans_carry_controls turning .lidarPreClass 2 4).2.2.2.2 false 1 quietAttempt (by decide)

example :
    (ratios ((Kind.lidarPreClass.draw turning 1 4).map (Case.graced false))).isSome = true := by
  decide +kernel

end ScxSlam.E4Eval
