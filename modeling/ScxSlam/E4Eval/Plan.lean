import Mathlib.Data.List.Nodup
import ScxSlam.Lib.Extract
import ScxSlam.Lib.Raise

/-!
# ScxSlam.E4Eval.Plan

The cases of an evaluation: the three plans of `run_e4_eval.py`, what its `main`
accepts and makes of them, and what a case is when `run_one_case` has returned.

`random.Random` is some generator that permutes what it shuffles.
-/

namespace ScxSlam.E4Eval

/-! ## cases -/

def defaultDeadlineGraceUs : Nat := 1000

def defaultLidarPreBudgetUs : Nat := 10000

def defaultLidarPreClassId : Nat := 1

/-- `deadline_grace_us`: a number, or `"not_applicable"`. -/
inductive Grace
  | us (n : Nat)
  | notApplicable
  deriving DecidableEq, Repr

inductive Role
  | controlStart
  | sweep
  | controlEnd
  deriving DecidableEq, Repr

def Role.text : Role → String
  | .controlStart => "control-start"
  | .sweep => "sweep"
  | .controlEnd => "control-end"

/-- `imu_preempt`. -/
inductive ImuPreempt
  | wakeup
  | always
  deriving DecidableEq, Repr

def ImuPreempt.text : ImuPreempt → String
  | .wakeup => "wakeup"
  | .always => "always"

structure Case where
  name : String
  repetition : Nat
  role : Role
  imuWorkUs : Nat
  imuPreempt : ImuPreempt := .wakeup
  deadlineGraceUs : Grace := .us defaultDeadlineGraceUs
  lidarPreBudgetUs : Nat := defaultLidarPreBudgetUs
  lidarPreClassId : Nat := defaultLidarPreClassId
  deriving DecidableEq, Repr

/-- A list of costs as `costs_arg` accepts it. -/
structure Costs where
  costs : List Nat
  nodup : costs.Nodup := by decide
  control : 150 ∈ costs := by decide
  bound : ∀ cost ∈ costs, cost ≤ 10000 := by decide

/-- The second check of `costs_arg`. -/
def Costs.check (costs : List Nat) : Except String Costs :=
  if h : costs.Nodup ∧ 150 ∈ costs ∧ ∀ cost ∈ costs, cost ≤ 10000 then
    .ok { costs := costs, nodup := h.1, control := h.2.1, bound := h.2.2 }
  else .error "use unique costs including 150, each at most 10000us"

/-- `costs_arg`. -/
def costsArg (text : String) : Except String Costs :=
  let values := text.toList.splitOn ','
  if values.all fun value => !value.isEmpty && value.all Char.isDigit then
    Costs.check (values.map fun value => Nat.ofDigitChars 10 value 0)
  else .error "costs must be comma-separated non-negative integers"

/-- `DEFAULT_COSTS`. -/
def defaultCosts : Costs where
  costs := [150, 500, 1000, 2000, 3000, 4000, 4500, 4750, 5000, 5500, 6000]

/-! ## plans -/

/-- `random.Random`. -/
structure Rng where
  State : Type
  seeded : Int → State
  shuffle {α : Type} : List α → State → List α × State
  perm {α : Type} (l : List α) (s : State) : (shuffle l s).1.Perm l

/-- The cases of every repetition, one after the other. -/
def repeated {σ : Type} (body : Nat → σ → List Case × σ) : List Nat → σ → List Case
  | [], _ => []
  | r :: rs, s =>
      let (cases, s) := body r s
      cases ++ repeated body rs s

namespace Rng

variable (rng : Rng)

/-- What `case_plan` yields. -/
def planCase (repetition : Nat) (role : Role) (cost : Nat) (mode : ImuPreempt) : Case where
  name := "r" ++ toString repetition ++ "-" ++ mode.text ++ "-" ++ role.text ++ "-" ++ toString cost
  repetition := repetition
  role := role
  imuWorkUs := cost
  imuPreempt := mode

/-- The cases of a repetition of `case_plan`, from the roles and costs on. -/
def planCases (repetition : Nat) (both : Bool) :
    List (Role × Nat) → rng.State → List Case × rng.State
  | [], s => ([], s)
  | (role, cost) :: rest, s =>
      let modes : List ImuPreempt := if both then [.wakeup, .always] else [.wakeup]
      let (modes, s) := rng.shuffle modes s
      let (cases, s) := planCases repetition both rest s
      (modes.map (planCase repetition role cost) ++ cases, s)

/-- `case_plan`. -/
def casePlan (costs : Costs) (repetitions : Nat) (seed : Int) (probe wakeupOnly : Bool) :
    List Case :=
  repeated (fun repetition s =>
    let (middle, s) := rng.shuffle (costs.costs.filter (· ≠ 150)) s
    rng.planCases repetition (probe && !wakeupOnly)
      ((.controlStart, 150) :: middle.map (fun c => (.sweep, c)) ++ [(.controlEnd, 150)]) s)
    (List.range' 1 repetitions) (rng.seeded seed)

/-- A case of the two LiDAR plans. -/
def lidarPreCase (repetition : Nat) (label : String) (role : Role) (cost : Nat) : Case where
  name := "r" ++ toString repetition ++ "-wakeup-lpre-" ++ label ++ "-" ++ role.text ++ "-" ++
    toString cost
  repetition := repetition
  role := role
  imuWorkUs := cost

/-- `lidar_pre_budget_case_plan`. -/
def lidarPreBudgetCasePlan (repetitions : Nat) (seed : Int) : List Case :=
  repeated (fun repetition s =>
    let label (budgetUs : Nat) : String := "budget-" ++ toString budgetUs
    let (variants, s) := rng.shuffle [defaultLidarPreBudgetUs, 6000] s
    (lidarPreCase repetition (label defaultLidarPreBudgetUs) .controlStart 150 ::
      variants.map (fun budgetUs => { lidarPreCase repetition (label budgetUs) .sweep 3500 with
        lidarPreBudgetUs := budgetUs }) ++
      [lidarPreCase repetition (label defaultLidarPreBudgetUs) .controlEnd 150], s))
    (List.range' 1 repetitions) (rng.seeded seed)

/-- `lidar_pre_class_case_plan`. -/
def lidarPreClassCasePlan (repetitions : Nat) (seed : Int) : List Case :=
  repeated (fun repetition s =>
    let label (classId : Nat) : String :=
      if classId = defaultLidarPreClassId then "class-fe" else "class-be"
    let (variants, s) := rng.shuffle [defaultLidarPreClassId, 0] s
    (lidarPreCase repetition "class-fe" .controlStart 150 ::
      variants.map (fun classId => { lidarPreCase repetition (label classId) .sweep 3500 with
        lidarPreClassId := classId }) ++
      [lidarPreCase repetition "class-fe" .controlEnd 150], s))
    (List.range' 1 repetitions) (rng.seeded seed)

end Rng

/-! ## main -/

/-- The command line, as argparse leaves it. -/
structure Args where
  cpu : Nat := 0
  duration : Int := 15
  repetitions : Int := 1
  costs : Option Costs := none
  perfSched : Bool := false
  lidarPreBudgetProbe : Bool := false
  lidarPreClassProbe : Bool := false
  preemptProbe : Bool := false
  executionProbe : Bool := false
  wakeupOnly : Bool := false
  binaryDir : Option String := none
  seed : Int := 4

namespace Args

/-- The focused probes imply `--perf-sched`. -/
def focus (args : Args) : Except String Args :=
  if args.lidarPreBudgetProbe || args.lidarPreClassProbe then
    if args.costs.isSome || args.preemptProbe || args.executionProbe || args.wakeupOnly ||
        args.binaryDir.isSome then
      .error "focused E4 probes are fixed current-binary wakeup-policy A/Bs"
    else if args.lidarPreBudgetProbe && args.lidarPreClassProbe then
      .error "select only one focused E4 probe"
    else .ok { args with perfSched := true }
  else .ok args

/-- The other checks of `main`, with the CPUs that the process may use. -/
def check (args : Args) (affinity : List Nat) : Except String Args :=
  let args := { args with preemptProbe := args.preemptProbe || args.executionProbe }
  if args.perfSched && (args.preemptProbe || args.wakeupOnly || args.binaryDir.isSome) then
    .error "--perf-sched uses current binaries and wakeup policy; do not combine with other probes"
  else if args.wakeupOnly && !args.preemptProbe then
    .error ("--wakeup-only requires --preempt-probe or --execution-probe; " ++
      "ordinary sweeps already use wakeup")
  else if args.duration < 1 || args.repetitions < 1 then
    .error "duration and repetitions must be positive"
  else if !affinity.contains args.cpu then
    .error "CPU is not in the calling process's allowed affinity"
  else .ok args

/-- `costs`; `explicit` says whether `--perf-sched` was given. -/
def costsOf (args : Args) (explicit : Bool) : Costs :=
  args.costs.getD (
    if explicit then { costs := [150, 3250, 3500] }
    else if args.executionProbe then { costs := [150, 3000] }
    else if args.preemptProbe then { costs := [150, 2000, 3000] }
    else defaultCosts)

/-- `plan`, as it is drawn. -/
def draw (args : Args) (rng : Rng) (explicit : Bool) : List Case :=
  let repetitions := args.repetitions.toNat
  if args.lidarPreBudgetProbe then rng.lidarPreBudgetCasePlan repetitions args.seed
  else if args.lidarPreClassProbe then rng.lidarPreClassCasePlan repetitions args.seed
  else rng.casePlan (args.costsOf explicit) repetitions args.seed args.preemptProbe args.wakeupOnly

/-- `main`, up to the first case. -/
def plan (args : Args) (rng : Rng) (affinity : List Nat) : Except String (Args × List Case) := do
  let focused ← args.focus
  let checked ← focused.check affinity
  let drawn := checked.draw rng args.perfSched
  return (checked, if checked.binaryDir.isSome then drawn
    else drawn.map fun c => { c with deadlineGraceUs := .notApplicable })

end Args

/-! ## a case that has run -/

inductive ExpiryPolicy
  | application
  | schedulerAgeDemotion
  deriving DecidableEq, Repr

/-- `expiry_configuration`; the loader says whether the policy is the
application's. -/
def expiryConfiguration (applicationOwned : Bool) : ExpiryPolicy :=
  if applicationOwned then .application else .schedulerAgeDemotion

/-- What `parse_metrics` read that a report of the case needs. -/
structure Metrics where
  startNs : Nat
  endNs : Nat
  pidTgid : Nat
  deriving DecidableEq, Repr

structure Ran extends Case where
  expiryPolicy : ExpiryPolicy
  metrics : Metrics
  deriving DecidableEq, Repr

/-- `run_one_case`, where it returns. -/
def runOneCase (applicationOwned : Bool) (metrics : Metrics) (c : Case) : Ran :=
  let expiryPolicy := expiryConfiguration applicationOwned
  { c with
    deadlineGraceUs := if expiryPolicy = .application then .notApplicable else c.deadlineGraceUs
    expiryPolicy := expiryPolicy
    metrics := metrics }

/-! ## costs -/

/-- Every such list is one that `costs_arg` accepts. -/
theorem exists_costsArg (costs : Costs) : ∃ text, costsArg text = .ok costs := by
  obtain ⟨costs, hnodup, hcontrol, hbound⟩ := costs
  have hvalues : ([','].intercalate (costs.map Extract.decimal)).splitOn ',' =
      costs.map Extract.decimal := by
    refine List.splitOn_intercalate ',' (fun value hvalue hmem => ?_) ?_
    · obtain ⟨cost, -, rfl⟩ := List.mem_map.mp hvalue
      exact absurd (Extract.isDigit_of_mem_decimal hmem) (by decide)
    · rw [ne_eq, List.map_eq_nil_iff]
      exact List.ne_nil_of_mem hcontrol
  have hdigits : (costs.map Extract.decimal).all (fun value =>
      !value.isEmpty && value.all Char.isDigit) = true := by
    refine List.all_eq_true.mpr fun value hvalue => ?_
    obtain ⟨cost, -, rfl⟩ := List.mem_map.mp hvalue
    have hne : Extract.decimal cost ≠ [] := Nat.toDigits_ne_nil
    have hall : (Extract.decimal cost).all Char.isDigit = true :=
      List.all_eq_true.mpr fun c => Extract.isDigit_of_mem_decimal
    simp [hne, hall]
  have hread : (costs.map Extract.decimal).map (fun value => Nat.ofDigitChars 10 value 0) =
      costs := by
    rw [List.map_map]
    exact (List.map_congr_left fun cost _ => Extract.ofDigitChars_decimal).trans (List.map_id _)
  refine ⟨String.ofList ([','].intercalate (costs.map Extract.decimal)), ?_⟩
  unfold costsArg
  rw [String.toList_ofList, hvalues, if_pos hdigits, hread]
  exact dif_pos ⟨hnodup, hcontrol, hbound⟩

/-! ## names -/

/-- Different numbers are printed differently. -/
theorem toString_inj {m n : Nat} (h : toString m = toString n) : m = n := by
  have hdecimal : Extract.decimal m = Extract.decimal n := String.ofList_injective h
  rw [← @Extract.ofDigitChars_decimal m, hdecimal, Extract.ofDigitChars_decimal]

/-- The name of a case of a repetition. -/
def caseName (repetition : Nat) (rest : String) : String :=
  "r" ++ toString repetition ++ ("-" ++ rest)

/-- The repetition ends where the digits do. -/
theorem caseName_inj {r r' : Nat} {rest rest' : String} :
    caseName r rest = caseName r' rest' ↔ r = r' ∧ rest = rest' := by
  refine ⟨fun h => ?_, by rintro ⟨rfl, rfl⟩; rfl⟩
  have hchars : Extract.decimal r ++ ("-" ++ rest).toList =
      Extract.decimal r' ++ ("-" ++ rest').toList := by
    have hlist := congrArg String.toList h
    simpa [caseName, Extract.decimal] using hlist
  have hstop : ∀ n text, (Extract.decimal n ++ ("-" ++ text).toList).takeWhile Char.isDigit =
      Extract.decimal n := by
    intro n text
    rw [List.takeWhile_append_of_pos fun c hc => Extract.isDigit_of_mem_decimal hc]
    simp
  have hdigits := congrArg (List.takeWhile Char.isDigit) hchars
  rw [hstop, hstop] at hdigits
  have hr : r = r' := by
    rw [← @Extract.ofDigitChars_decimal r, hdigits, Extract.ofDigitChars_decimal]
  subst hr
  have hrest : rest.toList = rest'.toList := by simpa using hchars
  exact ⟨rfl, String.toList_inj.mp hrest⟩

/-- The name of a case with wakeup preemption. -/
def wakeupName (repetition : Nat) (rest : String) : String :=
  "r" ++ toString repetition ++ ("-wakeup-" ++ rest)

/-- A wake-up case is named by its repetition. -/
theorem wakeupName_eq (r : Nat) (rest : String) :
    wakeupName r rest = caseName r ("wakeup-" ++ rest) := by
  rw [← String.toList_inj]
  simp [wakeupName, caseName]

/-- What follows in the name of a case of `case_plan`. -/
def roleCost (x : Role × Nat) : String := x.1.text ++ "-" ++ toString x.2

/-- Different roles and costs are named differently. -/
theorem roleCost_inj {x y : Role × Nat} (h : roleCost x = roleCost y) : x = y := by
  obtain ⟨role, cost⟩ := x
  obtain ⟨role', cost'⟩ := y
  have hrole : role = role' := by
    have hlist := congrArg String.toList h
    cases role <;> cases role' <;> first | rfl | simp [roleCost, Role.text] at hlist
  subst hrole
  have hcost : toString cost = toString cost' := by
    have hlist := congrArg String.toList h
    rw [← String.toList_inj]
    simpa [roleCost] using hlist
  rw [toString_inj hcost]

/-- The name of a case of the plan. -/
theorem name_planCase (r cost : Nat) (role : Role) :
    (Rng.planCase r role cost .wakeup).name = wakeupName r (roleCost (role, cost)) := by
  rw [← String.toList_inj]
  simp [Rng.planCase, wakeupName, roleCost, ImuPreempt.text]

/-- What follows in the name of a case of the LiDAR plans. -/
def lidarPreRest (label : String) (role : Role) (cost : Nat) : String :=
  "lpre-" ++ label ++ "-" ++ role.text ++ "-" ++ toString cost

/-- The name of a LiDAR case. -/
theorem name_lidarPreCase (r : Nat) (label : String) (role : Role) (cost : Nat) :
    (Rng.lidarPreCase r label role cost).name = wakeupName r (lidarPreRest label role cost) := by
  rw [← String.toList_inj]
  simp [Rng.lidarPreCase, wakeupName, lidarPreRest]

/-! ## a repetition -/

/-- The case whose first miss is the anchor of its repetition: 3500 us of IMU
work with the default budget and class of LiDAR preprocessing. -/
def Case.Qualifies (c : Case) : Prop :=
  c.imuWorkUs = 3500 ∧ c.lidarPreBudgetUs = defaultLidarPreBudgetUs ∧
    c.lidarPreClassId = defaultLidarPreClassId

instance (c : Case) : Decidable c.Qualifies :=
  inferInstanceAs (Decidable (_ ∧ _ ∧ _))

/-- A case that qualifies is no control. -/
theorem Case.Qualifies.ne_control {c : Case} (h : c.Qualifies) : c.imuWorkUs ≠ 150 := by
  rw [h.1]
  decide

/-- Names of a repetition that differ from each other. -/
def Named (r : Nat) (cases : List Case) : Prop :=
  ∃ rests : List String, rests.Nodup ∧ (cases.map Case.name).Perm (rests.map (caseName r))

/-- No name is given twice within a repetition. -/
theorem Named.nodup {r : Nat} {cases : List Case} (h : Named r cases) :
    (cases.map Case.name).Nodup := by
  obtain ⟨rests, hrests, hperm⟩ := h
  exact hperm.nodup_iff.mpr (hrests.map fun s t hst => (caseName_inj.mp hst).2)

/-- A name begins with its repetition. -/
theorem Named.name {r : Nat} {cases : List Case} (h : Named r cases) {name : String}
    (hname : name ∈ cases.map Case.name) : ∃ rest, name = caseName r rest := by
  obtain ⟨rests, -, hperm⟩ := h
  obtain ⟨rest, -, rfl⟩ := List.mem_map.mp (hperm.mem_iff.mp hname)
  exact ⟨rest, rfl⟩

/-- The cases of a repetition: names that no other repetition has, the grace
they are drawn with, and one 70 percent case at most. -/
structure Repetition (q : Case) (r : Nat) (cases : List Case) : Prop where
  names : ∃ rests : List String,
    rests.Nodup ∧ (cases.map Case.name).Perm (rests.map (wakeupName r))
  drawn : ∀ c ∈ cases, c.repetition = r ∧ c.deadlineGraceUs = .us defaultDeadlineGraceUs
  once : ∀ c ∈ cases, c.Qualifies → c = q

section Repetition

variable {q : Case} {r : Nat} {cases : List Case}

/-- The cases of a repetition have different names. -/
theorem Repetition.named (h : Repetition q r cases) : Named r cases := by
  obtain ⟨rests, hrests, hperm⟩ := h.names
  refine ⟨rests.map ("wakeup-" ++ ·), hrests.map fun s t hst => ?_, hperm.trans (.of_eq ?_)⟩
  · exact String.append_right_inj _ |>.mp hst
  · rw [List.map_map]
    exact List.map_congr_left fun rest _ => wakeupName_eq r rest

/-- Every case of a repetition is named by it. -/
theorem Repetition.name (h : Repetition q r cases) {c : Case} (hc : c ∈ cases) :
    ∃ rest, c.name = wakeupName r rest := by
  obtain ⟨rests, -, hperm⟩ := h.names
  obtain ⟨rest, -, hname⟩ := List.mem_map.mp (hperm.mem_iff.mp (List.mem_map_of_mem hc))
  exact ⟨rest, hname.symm⟩

/-- The sweep of a LiDAR plan in some order, between its controls. -/
theorem repetition_lidarPre {label : Nat → String} {control : String} {variants order : List Nat}
    {f : Nat → Case} (hperm : order.Perm variants)
    (hname : ∀ v, (f v).name = wakeupName r (lidarPreRest (label v) .sweep 3500))
    (hdrawn : ∀ v, (f v).repetition = r ∧ (f v).deadlineGraceUs = .us defaultDeadlineGraceUs)
    (hq : ∀ v, (f v).Qualifies → f v = q)
    (hnodup : (lidarPreRest control .controlStart 150 ::
      variants.map (fun v => lidarPreRest (label v) .sweep 3500) ++
      [lidarPreRest control .controlEnd 150]).Nodup) :
    Repetition q r (Rng.lidarPreCase r control .controlStart 150 :: order.map f ++
      [Rng.lidarPreCase r control .controlEnd 150]) := by
  have hmem : ∀ c ∈ Rng.lidarPreCase r control .controlStart 150 :: order.map f ++
      [Rng.lidarPreCase r control .controlEnd 150],
      (∃ v, c = f v) ∨ ∃ role, c = Rng.lidarPreCase r control role 150 := by
    intro c hc
    obtain hc | hc := List.mem_append.mp hc
    · obtain rfl | hc := List.mem_cons.mp hc
      · exact .inr ⟨.controlStart, rfl⟩
      · obtain ⟨v, -, rfl⟩ := List.mem_map.mp hc
        exact .inl ⟨v, rfl⟩
    · exact .inr ⟨.controlEnd, List.mem_singleton.mp hc⟩
  refine ⟨⟨_, hnodup, ?_⟩, ?_, ?_⟩
  · simp only [List.cons_append, List.map_cons, List.map_append, List.map_map, List.map_nil,
      name_lidarPreCase]
    refine .cons _ (.append_right _ ?_)
    have hnames := hperm.map fun v => wakeupName r (lidarPreRest (label v) .sweep 3500)
    simpa only [Function.comp_def, hname] using hnames
  · intro c hc
    obtain ⟨v, rfl⟩ | ⟨role, rfl⟩ := hmem c hc
    · exact hdrawn v
    · exact ⟨rfl, rfl⟩
  · intro c hc hqualifies
    obtain ⟨v, rfl⟩ | ⟨role, rfl⟩ := hmem c hc
    · exact hq v hqualifies
    · exact absurd rfl hqualifies.ne_control

/-- A repetition of `lidar_pre_budget_case_plan`. -/
theorem repetition_budget {order : List Nat} (hperm : order.Perm [defaultLidarPreBudgetUs, 6000]) :
    Repetition (Rng.lidarPreCase r "budget-10000" .sweep 3500) r
      (Rng.lidarPreCase r "budget-10000" .controlStart 150 ::
        order.map (fun budgetUs =>
          { Rng.lidarPreCase r ("budget-" ++ toString budgetUs) .sweep 3500 with
            lidarPreBudgetUs := budgetUs }) ++
        [Rng.lidarPreCase r "budget-10000" .controlEnd 150]) := by
  refine repetition_lidarPre hperm (fun v => name_lidarPreCase ..) (fun _ => ⟨rfl, rfl⟩)
    (fun budgetUs hq => ?_) (by decide)
  cases (show budgetUs = defaultLidarPreBudgetUs from hq.2.1)
  rfl

/-- A repetition of `lidar_pre_class_case_plan`. -/
theorem repetition_class {order : List Nat} (hperm : order.Perm [defaultLidarPreClassId, 0]) :
    Repetition (Rng.lidarPreCase r "class-fe" .sweep 3500) r
      (Rng.lidarPreCase r "class-fe" .controlStart 150 ::
        order.map (fun classId =>
          { Rng.lidarPreCase r (if classId = defaultLidarPreClassId then "class-fe"
              else "class-be") .sweep 3500 with lidarPreClassId := classId }) ++
        [Rng.lidarPreCase r "class-fe" .controlEnd 150]) := by
  refine repetition_lidarPre hperm (fun v => name_lidarPreCase ..) (fun _ => ⟨rfl, rfl⟩)
    (fun classId hq => ?_) (by decide)
  cases (show classId = defaultLidarPreClassId from hq.2.2)
  rfl

/-- Without both modes there is one case for each role and cost. -/
theorem Rng.planCases_wakeup {rng : Rng} {repetition : Nat} (roles : List (Role × Nat))
    (s : rng.State) : (rng.planCases repetition false roles s).1 =
      roles.map fun x => planCase repetition x.1 x.2 .wakeup := by
  induction roles generalizing s with
  | nil => rfl
  | cons x rest ih =>
      have hmode := List.perm_singleton.mp (rng.perm [ImuPreempt.wakeup] s)
      show ((rng.shuffle [ImuPreempt.wakeup] s).1.map _ ++ (rng.planCases _ _ rest _).1) = _
      rw [hmode, ih]
      rfl

/-- The roles and costs of `case_plan`. -/
theorem repetition_planCases {roles : List (Role × Nat)} (hroles : roles.Nodup)
    (hsweep : ∀ x ∈ roles, x.1 = .sweep ∨ x.2 = 150) :
    Repetition (Rng.planCase r .sweep 3500 .wakeup) r
      (roles.map fun x => Rng.planCase r x.1 x.2 .wakeup) := by
  refine ⟨⟨roles.map roleCost, hroles.map fun x y => roleCost_inj, .of_eq ?_⟩, ?_, ?_⟩
  · rw [List.map_map, List.map_map]
    exact List.map_congr_left fun x _ => name_planCase r x.2 x.1
  · intro c hc
    obtain ⟨x, -, rfl⟩ := List.mem_map.mp hc
    exact ⟨rfl, rfl⟩
  · intro c hc hq
    obtain ⟨⟨role, cost⟩, hx, rfl⟩ := List.mem_map.mp hc
    obtain hrole | hcost := hsweep _ hx
    · cases (show role = .sweep from hrole)
      cases (show cost = 3500 from hq.1)
      rfl
    · exact absurd hcost hq.ne_control

end Repetition

/-- The roles and costs of a repetition of `case_plan`. -/
def planRoles (middle : List Nat) : List (Role × Nat) :=
  (.controlStart, 150) :: middle.map (fun c => (.sweep, c)) ++ [(.controlEnd, 150)]

/-- No role comes twice at the same cost. -/
theorem nodup_planRoles {middle : List Nat} (h : middle.Nodup) : (planRoles middle).Nodup := by
  have hsweep := h.map fun (c c' : Nat) (h : (Role.sweep, c) = (Role.sweep, c')) =>
    congrArg Prod.snd h
  refine List.nodup_cons.mpr ⟨by simp, ?_⟩
  exact List.nodup_append.mpr ⟨hsweep, List.nodup_singleton _, by simp⟩

/-- Only the sweep has other costs than the control's. -/
theorem mem_planRoles {middle : List Nat} {x : Role × Nat} (hx : x ∈ planRoles middle) :
    x.1 = .sweep ∨ x.2 = 150 := by
  obtain rfl | hx := List.mem_cons.mp hx
  · exact .inr rfl
  · obtain hx | hx := List.mem_append.mp hx
    · obtain ⟨cost, -, rfl⟩ := List.mem_map.mp hx
      exact .inl rfl
    · cases List.mem_singleton.mp hx
      exact .inr rfl

/-- Without the preemption probe, a plan is one repetition after the other. -/
theorem Args.draw_repeated {args : Args} {rng : Rng} {explicit : Bool}
    (hprobe : args.preemptProbe = false) :
    ∃ (q : Nat → Case) (body : Nat → rng.State → List Case × rng.State) (s : rng.State),
      args.draw rng explicit = repeated body (List.range' 1 args.repetitions.toNat) s ∧
      ∀ r s, Repetition (q r) r (body r s).1 := by
  unfold Args.draw
  dsimp only
  split
  · exact ⟨_, _, _, rfl, fun r s => repetition_budget (rng.perm _ _)⟩
  split
  · exact ⟨_, _, _, rfl, fun r s => repetition_class (rng.perm _ _)⟩
  · refine ⟨fun r => Rng.planCase r .sweep 3500 .wakeup, _, _, rfl, fun r s => ?_⟩
    rw [hprobe, Bool.false_and, Rng.planCases_wakeup]
    have hperm := rng.perm ((args.costsOf explicit).costs.filter (· ≠ 150)) s
    have hmiddle := hperm.nodup_iff.mpr ((args.costsOf explicit).nodup.filter (· ≠ 150))
    exact repetition_planCases (nodup_planRoles hmiddle) fun x => mem_planRoles

/-! ## what every case of a plan has -/

section Repeated

variable {σ : Type} {body : Nat → σ → List Case × σ}

/-- What holds of every repetition holds of all. -/
theorem forall_mem_repeated {P : Case → Prop} (h : ∀ r s, ∀ c ∈ (body r s).1, P c)
    (rs : List Nat) (s : σ) : ∀ c ∈ repeated body rs s, P c := by
  induction rs generalizing s with
  | nil => exact nofun
  | cons r rs ih =>
      intro c hc
      obtain hc | hc := List.mem_append.mp hc
      · exact h r s c hc
      · exact ih _ c hc

/-- Names differ in a repetition, and between two of them. -/
theorem nodup_repeated (h : ∀ r s, Named r (body r s).1) {rs : List Nat} (hrs : rs.Nodup) (s : σ) :
    ((repeated body rs s).map Case.name).Nodup ∧
      ∀ name ∈ (repeated body rs s).map Case.name, ∃ r ∈ rs, ∃ rest, name = caseName r rest := by
  induction rs generalizing s with
  | nil => exact ⟨List.nodup_nil, nofun⟩
  | cons r rs ih =>
      obtain ⟨hr, hrs⟩ := List.nodup_cons.mp hrs
      obtain ⟨hrest, hnames⟩ := ih hrs (body r s).2
      rw [repeated, List.map_append]
      constructor
      · refine List.nodup_append.mpr ⟨(h r s).nodup, hrest, ?_⟩
        rintro name hname _ hlater rfl
        obtain ⟨rest, hown⟩ := (h r s).name hname
        obtain ⟨r', hr', rest', hother⟩ := hnames name hlater
        rw [hown] at hother
        exact hr ((caseName_inj.mp hother).1 ▸ hr')
      · intro name hname
        obtain hname | hname := List.mem_append.mp hname
        · obtain ⟨rest, hown⟩ := (h r s).name hname
          exact ⟨r, List.mem_cons_self, rest, hown⟩
        · obtain ⟨r', hr', hfound⟩ := hnames name hname
          exact ⟨r', List.mem_cons_of_mem r hr', hfound⟩

end Repeated

section Draw

variable {args : Args} {rng : Rng} {explicit : Bool}

/-- Without the preemption probe, no two cases share a name, and each begins
with its repetition. -/
theorem Args.names_draw (hprobe : args.preemptProbe = false) :
    ((args.draw rng explicit).map Case.name).Nodup ∧
      ∀ c ∈ args.draw rng explicit, ∃ r rest, c.name = wakeupName r rest := by
  obtain ⟨q, body, s, hdraw, hbody⟩ := @draw_repeated args rng explicit hprobe
  rw [hdraw]
  refine ⟨(nodup_repeated (fun r s => (hbody r s).named) List.nodup_range' s).1, ?_⟩
  exact forall_mem_repeated (fun r s c hc => ⟨r, (hbody r s).name hc⟩) _ s

/-- A repetition has one 70 percent case at most, and every case is drawn with
the grace. -/
theorem Args.qualifies_draw (hprobe : args.preemptProbe = false) : ∃ q : Nat → Case,
    ∀ c ∈ args.draw rng explicit, c.deadlineGraceUs = .us defaultDeadlineGraceUs ∧
      (c.Qualifies → c = q c.repetition) := by
  obtain ⟨q, body, s, hdraw, hbody⟩ := @draw_repeated args rng explicit hprobe
  rw [hdraw]
  refine ⟨q, forall_mem_repeated (fun r s c hc => ?_) _ s⟩
  obtain ⟨hr, hgrace⟩ := (hbody r s).drawn c hc
  rw [hr]
  exact ⟨hgrace, (hbody r s).once c hc⟩

end Draw

/-! ## --perf-sched -/

/-- `--perf-sched` goes with nothing else. -/
theorem Args.check_perfSched {args checked : Args} {affinity : List Nat}
    (h : args.check affinity = .ok checked) (hperf : checked.perfSched = true) :
    checked.preemptProbe = false ∧ checked.wakeupOnly = false ∧ checked.binaryDir = none := by
  unfold Args.check at h
  dsimp only at h
  split at h
  · contradiction
  · next hconflict =>
    have hkept : checked =
        { args with preemptProbe := args.preemptProbe || args.executionProbe } := by
      repeat' split at h
      all_goals cases h
      rfl
    subst hkept
    have hperf : args.perfSched = true := hperf
    simp only [hperf, Bool.true_and, Bool.or_eq_true, Bool.or_assoc, not_or, Bool.not_eq_true,
      Option.isSome_eq_false_iff, Option.isNone_iff_eq_none] at hconflict
    obtain ⟨hpreempt, hexecution, hwakeup, hcurrent⟩ := hconflict
    exact ⟨by simp [hpreempt, hexecution], hwakeup, hcurrent⟩

/-- Under `--perf-sched` the binaries are the current ones, and no case has a
grace. -/
theorem Args.plan_perfSched {args checked : Args} {rng : Rng} {affinity : List Nat}
    {cases : List Case} (h : args.plan rng affinity = .ok (checked, cases))
    (hperf : checked.perfSched = true) :
    ∀ c ∈ cases, c.deadlineGraceUs = .notApplicable ∧ ∃ r rest, c.name = wakeupName r rest := by
  obtain ⟨focused, -, h⟩ := Raise.bind_eq_ok.mp h
  obtain ⟨checked', hcheck, h⟩ := Raise.bind_eq_ok.mp h
  cases h
  obtain ⟨hprobe, -, hcurrent⟩ := check_perfSched hcheck hperf
  intro c hc
  rw [hcurrent] at hc
  obtain ⟨drawn, hdrawn, rfl⟩ := List.mem_map.mp hc
  exact ⟨rfl, (names_draw hprobe).2 drawn hdrawn⟩

end ScxSlam.E4Eval
