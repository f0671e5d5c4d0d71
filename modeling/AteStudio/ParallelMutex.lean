import AteStudio.Dsl
import AteStudio.Lib.FirstFit
import AteStudio.Topology

/-!
# Instruments of steps that run side by side

The third check of `TopologyValidator`: steps that may run in parallel share an instrument only through a switch
(`scheduler/topology_validator.py`).
-/

namespace AteStudio.ParallelMutex

open AteStudio.FirstFit AteStudio.Topology List

def stepInstruments (step : YamlStep) : List String :=
  step.resources.entries.flatMap fun (key, value) =>
    if key = "instrument" ∨ key = "instrument_id" then value.str?.toList
    else if key = "instruments" then
      match value with
      | .list xs => xs.filterMap PyVal.str?
      | .dict kvs => kvs.filterMap (·.2.str?)
      | _ => []
    else []

variable (topo : FixtureTopology) (plan : YamlPlan)

def topSteps : List YamlStep :=
  plan.steps.filterMap fun
    | .step s _ => some s
    | _ => none

def parallelEnabled : Bool :=
  1 < plan.maxConcurrency || plan.steps.any fun
    | .loop l _ => l.executionMode = .parallel
    | _ => false

def dependsOn (step : YamlStep) (group : List YamlStep) : Bool :=
  step.preconditions.any (· ∈ group.map (·.id))

/-- `remaining.remove(other)` removes `other` itself: an equal step before it would be in the group. -/
def parallelGroups : List (List YamlStep) :=
  if (topSteps plan).length < 2 ∨ parallelEnabled plan = false then []
  else (byGroup dependsOn (topSteps plan)).filter (1 < ·.length)

def sharedResources : List YamlStep → Finset String
  | [] => ∅
  | s :: group =>
    group.foldl (fun shared o => shared ∪ (stepInstruments s).toFinset ∩ (stepInstruments o).toFinset)
      (sharedResources group)

def hasMutexSwitch (inst : String) : Bool :=
  topo.links.any fun link =>
    link.routed || link.fromEndpoint.entityId = inst && link.toEndpoint.entityType = .relayContact

structure ValidationIssue where
  code : String
  message : String
  path : String

def issueOf (group : List YamlStep) (inst : String) : ValidationIssue where
  code := "parallel_mutex"
  message := "并行步骤 " ++ ", ".intercalate ((group.filter (inst ∈ stepInstruments ·)).map (·.id)) ++ " 共享仪器 " ++
    inst ++ " 但无矩阵开关隔离"
  path := "parallel.group:" ++ inst

/-- A set is walked in some order. -/
def walked {α : Type} [LinearOrder α] (s : Finset α) : List α := s.sort

def checkParallelMutex : List ValidationIssue :=
  (parallelGroups plan).flatMap fun group =>
    ((walked (sharedResources group)).filter fun inst => !hasMutexSwitch topo inst).map (issueOf group)

def Reported (inst : String) : Prop :=
  ∃ issue ∈ checkParallelMutex topo plan, issue.path = "parallel.group:" ++ inst

/-! ## What should be reported -/

def iterSteps : List Item → List YamlStep
  | [] => []
  | .step s _ :: items => s :: iterSteps items
  | .loop _ steps :: items => iterSteps steps ++ iterSteps items
  | .raw _ :: items => iterSteps items

/-- A path of preconditions leads from `o` back to `s`. -/
def Before (s o : YamlStep) : Prop :=
  Relation.TransGen (fun a b => a ∈ iterSteps plan.steps ∧ b ∈ iterSteps plan.steps ∧ a.id ∈ b.preconditions) s o

def Share (steps : List YamlStep) (inst : String) (s o : YamlStep) : Prop :=
  [s, o] <+ steps ∧ inst ∈ stepInstruments s ∧ inst ∈ stepInstruments o

def Isolated (inst : String) : Prop :=
  ∃ link ∈ topo.links, (link.fromEndpoint.entityId = inst ∨ link.toEndpoint.entityId = inst) ∧
    (link.routed = true ∨ link.toEndpoint.entityType = .relayContact)

def AllOrdered : Prop :=
  ∀ inst s o, Share (topSteps plan) inst s o → Before plan s o ∨ Before plan o s

structure Exact (topo : FixtureTopology) (plan : YamlPlan) : Prop where
  conflicts : ∀ inst s o, Share (topSteps plan) inst s o → ¬ (Before plan s o ∨ Before plan o s) →
    ¬ Isolated topo inst → Reported topo plan inst
  silent : AllOrdered plan → ∀ inst, ¬ Reported topo plan inst

/-! ## What is reported -/

/-- Two steps with the instrument have one level, the first at which no step before them is a precondition. -/
def Together (inst : String) : Prop :=
  ∃ ls, ls.map Prod.fst = topSteps plan ∧ Levelled dependsOn [] ls ∧ ∃ level s o, Share (column ls level) inst s o

/-- A conflict without a switch at the instrument is one of steps that are put together, and no link at all is routed.
Where all conflicts are ordered, steps are put together only over a switch. -/
def Told : Prop :=
  (∀ inst s o, Share (topSteps plan) inst s o → ¬ (Before plan s o ∨ Before plan o s) → ¬ Isolated topo inst →
    (∀ link ∈ topo.links, link.routed = false) ∧ Together plan inst) ∧
  (AllOrdered plan → ∀ inst, Together plan inst → hasMutexSwitch topo inst = true)

variable {topo plan} {inst : String} {group : List YamlStep}

theorem mem_sharedResources : inst ∈ sharedResources group ↔ ∃ s o, Share group inst s o := by
  have hfold (a : YamlStep) (others : List YamlStep) (shared : Finset String) :
      inst ∈ others.foldl
          (fun shared o => shared ∪ (stepInstruments a).toFinset ∩ (stepInstruments o).toFinset) shared ↔
        inst ∈ shared ∨ inst ∈ stepInstruments a ∧ ∃ o ∈ others, inst ∈ stepInstruments o := by
    induction others generalizing shared with
    | nil => simp
    | cons o others ih =>
      rw [foldl_cons, ih]
      simp only [Finset.mem_union, Finset.mem_inter, mem_toFinset, mem_cons]
      grind
  induction group with
  | nil => simp [sharedResources, Share]
  | cons a group ih =>
    rw [sharedResources, hfold]
    refine (or_congr_left ih).trans ⟨?_, ?_⟩
    · rintro (⟨s, o, hsub, hs, ho⟩ | ⟨ha, o, ho, hi⟩)
      · exact ⟨s, o, hsub.cons a, hs, ho⟩
      · exact ⟨a, o, (singleton_sublist.mpr ho).cons_cons a, ha, hi⟩
    · rintro ⟨s, o, hsub, hs, ho⟩
      rcases sublist_cons_iff.mp hsub with hsub | ⟨rest, heq, hrest⟩
      · exact .inl ⟨s, o, hsub, hs, ho⟩
      · obtain ⟨rfl, rfl⟩ := cons.inj heq
        exact .inr ⟨hs, o, singleton_sublist.mp hrest, ho⟩

theorem together_iff (h : 1 < plan.maxConcurrency) :
    Together plan inst ↔ ∃ group ∈ parallelGroups plan, ∃ s o, Share group inst s o := by
  have hnil (s : YamlStep) : dependsOn s [] = false := by simp [dependsOn]
  have hgroups {ls : List (YamlStep × ℕ)} (hlevels : Levelled dependsOn [] ls) :=
    exists_byGroup_iff hnil hlevels (P := fun group => ∃ s o, Share group inst s o) (by simp [Share])
  constructor
  · rintro ⟨ls, hls, hlevels, level, hshare⟩
    have htwo : ¬ (topSteps plan).length < 2 := by
      obtain ⟨s, o, hpair, -⟩ := hshare
      rw [← hls]
      exact (hpair.trans (filter_sublist.map _)).length_le.not_gt
    obtain ⟨group, hgroup, hshare⟩ := (hgroups hlevels).mpr ⟨level, hshare⟩
    refine ⟨group, ?_, hshare⟩
    rw [parallelGroups, if_neg (by simp [htwo, parallelEnabled, h]), ← hls]
    obtain ⟨s, o, hpair, -⟩ := hshare
    exact mem_filter.mpr ⟨hgroup, decide_eq_true hpair.length_le⟩
  · rintro ⟨group, hgroup, hshare⟩
    unfold parallelGroups at hgroup
    split at hgroup
    · cases hgroup
    · obtain ⟨ls, hls, hlevels⟩ := exists_levelled hnil [] (topSteps plan)
      rw [← hls] at hgroup
      exact ⟨ls, hls, hlevels, (hgroups hlevels).mp ⟨group, mem_of_mem_filter hgroup, hshare⟩⟩

theorem reported_iff (h : 1 < plan.maxConcurrency) :
    Reported topo plan inst ↔ hasMutexSwitch topo inst = false ∧ Together plan inst := by
  have hpath (group : List YamlStep) (i : String) : (issueOf group i).path = "parallel.group:" ++ inst ↔ i = inst := by
    simp [issueOf]
  simp only [Reported, checkParallelMutex, mem_flatMap, mem_map, mem_filter, walked, Finset.mem_sort, mem_sharedResources,
    Bool.not_eq_true', together_iff h]
  constructor
  · rintro ⟨_, ⟨group, hgroup, i, ⟨hshare, hswitch⟩, rfl⟩, hi⟩
    obtain rfl := (hpath group i).mp hi
    exact ⟨hswitch, group, hgroup, hshare⟩
  · rintro ⟨hswitch, group, hgroup, hshare⟩
    exact ⟨_, ⟨group, hgroup, inst, ⟨hshare, hswitch⟩, rfl⟩, rfl⟩

theorem hasMutexSwitch_of_not_isolated (h : ¬ Isolated topo inst) :
    hasMutexSwitch topo inst = false ↔ ∀ link ∈ topo.links, link.routed = false := by
  unfold hasMutexSwitch
  rw [any_eq_false]
  refine forall₂_congr fun link hlink => ?_
  have hend : ¬ (link.fromEndpoint.entityId = inst ∧ link.toEndpoint.entityType = .relayContact) :=
    fun hat => h ⟨link, hlink, .inl hat.1, .inr hat.2⟩
  simp [hend]

theorem exact_iff (topo : FixtureTopology) (plan : YamlPlan) (h : 1 < plan.maxConcurrency) :
    Exact topo plan ↔ Told topo plan := by
  constructor
  · rintro ⟨hconflicts, hsilent⟩
    refine ⟨fun inst s o hshare hfree hlone => ?_, fun hall inst htogether => ?_⟩
    · have hreported := (reported_iff h).mp (hconflicts inst s o hshare hfree hlone)
      exact ⟨(hasMutexSwitch_of_not_isolated hlone).mp hreported.1, hreported.2⟩
    · by_contra hswitch
      exact hsilent hall inst ((reported_iff h).mpr ⟨by simpa using hswitch, htogether⟩)
  · rintro ⟨hconflicts, hsilent⟩
    refine ⟨fun inst s o hshare hfree hlone => ?_, fun hall inst hreported => ?_⟩
    · obtain ⟨hroutes, htogether⟩ := hconflicts inst s o hshare hfree hlone
      exact (reported_iff h).mpr ⟨(hasMutexSwitch_of_not_isolated hlone).mpr hroutes, htogether⟩
    · obtain ⟨hswitch, htogether⟩ := (reported_iff h).mp hreported
      simp [hsilent hall inst htogether] at hswitch

def measuring (id : String) (preconditions : List String) : YamlStep :=
  { id, preconditions, resources := Dict.ofList [("instrument", .str "dmm")] }

def planOf (steps : List YamlStep) : YamlPlan :=
  { name := "plan", version := "1", maxConcurrency := 2, steps := steps.map Item.leaf }

@[simp] theorem topSteps_planOf (steps : List YamlStep) : topSteps (planOf steps) = steps := by
  simp [topSteps, planOf, filterMap_map]

@[simp] theorem iterSteps_planOf (steps : List YamlStep) : iterSteps (planOf steps).steps = steps := by
  induction steps with
  | nil => simp [planOf, iterSteps]
  | cons s steps ih => simpa [planOf, iterSteps] using ih

def measureTwice : YamlPlan := planOf [measuring "a" [], measuring "b" ["a"]]

theorem exact_measureTwice : 1 < measureTwice.maxConcurrency ∧ Exact {} measureTwice := by
  refine ⟨by decide, (exact_iff {} measureTwice (by decide)).mpr ⟨?_, ?_⟩⟩
  · rintro inst s o ⟨hpair, -⟩ hfree
    obtain ⟨rfl, rfl⟩ : s = measuring "a" [] ∧ o = measuring "b" ["a"] := by
      simpa [measureTwice] using hpair.eq_of_length rfl
    exact absurd (.inl (.single (by simp [measureTwice, measuring]))) hfree
  · rintro - inst ⟨ls, hls, hlevels, level, s, o, hpair, -⟩
    obtain ⟨p, q, rfl⟩ := length_eq_two.mp (show ls.length = 2 by simpa [measureTwice] using congrArg length hls)
    obtain ⟨hp, hq⟩ : p.1 = measuring "a" [] ∧ q.1 = measuring "b" ["a"] := by simpa [measureTwice] using hls
    have hlength := hpair.length_le
    have hlevel : p.2 = level ∧ q.2 = level := by
      by_cases hp : p.2 = level <;> by_cases hq : q.2 = level <;> simp_all [column]
    simpa [column, hlevel, hp, hq, dependsOn, measuring] using hlevels.2.1.1

/-- The last step comes after the first by way of the second. -/
def chained : YamlPlan :=
  planOf [measuring "a" [], { id := "b", preconditions := ["a"] }, measuring "c" ["b"]]

def sideBySide : YamlPlan := planOf [measuring "a" [], measuring "b" []]

def routedElsewhere : FixtureTopology :=
  { links := [⟨"l1", ⟨.instrumentChannel, "psu", "ch1"⟩, ⟨.dutTestpoint, "uut", "tp1"⟩, some "r1"⟩] }

theorem not_exact_chained : ¬ Exact {} chained ∧ ¬ Exact routedElsewhere sideBySide := by
  constructor
  · intro h
    have htogether : Together chained "dmm" :=
      ⟨[(measuring "a" [], 0), ({ id := "b", preconditions := ["a"] }, 1), (measuring "c" ["b"], 0)], rfl,
        ⟨⟨rfl, by simp⟩, ⟨rfl, by decide⟩, ⟨rfl, by simp⟩, trivial⟩,
        0, _, _, .refl _, .head _, .head _⟩
    refine h.silent ?_ "dmm" ((reported_iff (by decide)).mpr ⟨rfl, htogether⟩)
    rintro inst s o ⟨hpair, hs, ho⟩
    have hfirst : Before chained (measuring "a" []) { id := "b", preconditions := ["a"] } :=
      .single (by simp [chained, measuring])
    have hthen : Before chained { id := "b", preconditions := ["a"] } (measuring "c" ["b"]) :=
      .single (by simp [chained, measuring])
    have hkept := hpair.filter (stepInstruments · ≠ [])
    rw [filter_eq_self.mpr (by simp [ne_nil_of_mem hs, ne_nil_of_mem ho])] at hkept
    have heq : [s, o] = [measuring "a" [], measuring "c" ["b"]] := hkept.eq_of_length rfl
    obtain ⟨rfl, rfl⟩ : s = measuring "a" [] ∧ o = measuring "c" ["b"] := by simpa using heq
    exact .inl (hfirst.trans hthen)
  · intro h
    have hfree (s o : YamlStep) (ho : o.preconditions = []) : ¬ Before sideBySide s o := by
      rintro (⟨-, -, hid⟩ | ⟨-, -, -, hid⟩) <;> simp [ho] at hid
    have hreported := h.conflicts "dmm" (measuring "a" []) (measuring "b" []) ⟨.refl _, .head _, .head _⟩
      (not_or.mpr ⟨hfree _ _ rfl, hfree _ _ rfl⟩) (by simp [Isolated, routedElsewhere])
    exact absurd ((reported_iff (by decide)).mp hreported).1 (by decide)

/-! ## What an instrument is wired to -/

open Relation

def reachLink (state : Finset String × Bool) (link : Link) : Finset String × Bool :=
  if link.source.1 ∈ state.1 ∧ link.target.1 ∉ state.1 then (insert link.target.1 state.1, true)
  else if link.target.1 ∈ state.1 ∧ link.source.1 ∉ state.1 then (insert link.source.1 state.1, true)
  else state

/-- `while changed` -/
def reachable (topo : FixtureTopology) : Nat → Finset String → Option (Finset String)
  | 0, _ => none
  | fuel + 1, reached =>
    let (next, changed) := topo.links.foldl reachLink (reached, false)
    if changed then reachable topo fuel next else some next

def instrumentReachesDut (topo : FixtureTopology) (fuel : Nat) (instId dutId : String) : Option Bool :=
  (reachable topo fuel {instId}).map (dutId ∈ ·)

def Joined (topo : FixtureTopology) (a b : String) : Prop := ∃ link ∈ topo.links, link.source.1 = a ∧ link.target.1 = b

theorem reachLink_cases (state : Finset String × Bool) (link : Link) :
    reachLink state link = state ∧ (link.source.1 ∈ state.1 ↔ link.target.1 ∈ state.1) ∨
      ∃ x y, x ∉ state.1 ∧ y ∈ state.1 ∧ reachLink state link = (insert x state.1, true) ∧
        (y = link.source.1 ∧ x = link.target.1 ∨ x = link.source.1 ∧ y = link.target.1) := by
  unfold reachLink
  split_ifs with hsource htarget
  · exact .inr ⟨_, _, hsource.2, hsource.1, rfl, .inl ⟨rfl, rfl⟩⟩
  · exact .inr ⟨_, _, htarget.2, htarget.1, rfl, .inr ⟨rfl, rfl⟩⟩
  · exact .inl ⟨rfl, by tauto⟩

/-- A pass that changes nothing has found both ends of every link, or neither. -/
theorem foldl_reachLink (links : List Link) (state : Finset String × Bool) :
    links.foldl reachLink state = state ∧ (∀ link ∈ links, link.source.1 ∈ state.1 ↔ link.target.1 ∈ state.1) ∨
      (links.foldl reachLink state).2 = true ∧ state.1 ⊂ (links.foldl reachLink state).1 := by
  induction links generalizing state with
  | nil => exact .inl ⟨rfl, by simp⟩
  | cons link links ih =>
    rw [foldl_cons]
    rcases reachLink_cases state link with ⟨hsame, hends⟩ | ⟨x, y, hx, -, hnew, -⟩
    · rw [hsame]
      exact (ih state).imp_left fun ⟨heq, hall⟩ => ⟨heq, forall_mem_cons.mpr ⟨hends, hall⟩⟩
    · rw [hnew]
      have hgrows := Finset.ssubset_insert hx
      rcases ih (insert x state.1, true) with ⟨heq, -⟩ | ⟨hchanged, hmore⟩
      · rw [heq]
        exact .inr ⟨rfl, hgrows⟩
      · exact .inr ⟨hchanged, hgrows.trans hmore⟩

section Reaches

variable (topo : FixtureTopology) (start : String)

def ends : Finset String := insert start (topo.links.flatMap fun link => [link.source.1, link.target.1]).toFinset

structure Found (reached : Finset String) : Prop where
  known : reached ⊆ ends topo start
  joined : ∀ x ∈ reached, EqvGen (Joined topo) start x

variable {topo start} {reached : Finset String}

theorem Found.foldl (h : Found topo start reached) : Found topo start (topo.links.foldl reachLink (reached, false)).1 := by
  have hstart : Found topo start (reached, false).1 := h
  refine foldlRecOn (motive := (Found topo start ·.1)) topo.links reachLink hstart fun state h link hlink => ?_
  rcases reachLink_cases state link with ⟨hsame, -⟩ | ⟨x, y, -, hy, hnew, hends⟩
  · rw [hsame]
    exact h
  · rw [hnew]
    have hend : x ∈ ends topo start := by
      refine Finset.mem_insert_of_mem (mem_toFinset.mpr (mem_flatMap.mpr ⟨link, hlink, ?_⟩))
      rcases hends with ⟨-, rfl⟩ | ⟨rfl, -⟩ <;> simp
    have hjoined : EqvGen (Joined topo) y x := by
      rcases hends with ⟨rfl, rfl⟩ | ⟨rfl, rfl⟩
      · exact .rel _ _ ⟨link, hlink, rfl, rfl⟩
      · exact .symm _ _ (.rel _ _ ⟨link, hlink, rfl, rfl⟩)
    refine ⟨Finset.insert_subset hend h.known, fun z hz => ?_⟩
    rcases Finset.mem_insert.mp hz with rfl | hz
    · exact .trans _ _ _ (h.joined y hy) hjoined
    · exact h.joined z hz

theorem reachable_spec (fuel : Nat) (h : Found topo start reached) (hstart : start ∈ reached)
    (hfuel : (ends topo start).card < fuel + reached.card) :
    ∃ found, reachable topo fuel reached = some found ∧ ∀ x, x ∈ found ↔ EqvGen (Joined topo) start x := by
  induction fuel generalizing reached with
  | zero => exact absurd (Finset.card_le_card h.known) (by omega)
  | succ fuel ih =>
    unfold reachable
    rcases foldl_reachLink topo.links (reached, false) with ⟨heq, hall⟩ | ⟨hchanged, hgrows⟩
    · rw [heq]
      refine ⟨reached, rfl, fun x => ⟨h.joined x, fun hx => ?_⟩⟩
      have hclosed : ∀ a b, EqvGen (Joined topo) a b → (a ∈ reached ↔ b ∈ reached) := by
        intro a b hab
        induction hab with
        | rel _ _ hrel =>
          obtain ⟨link, hlink, rfl, rfl⟩ := hrel
          exact hall link hlink
        | refl => exact Iff.rfl
        | symm _ _ _ ih => exact ih.symm
        | trans _ _ _ _ _ ih ih' => exact ih.trans ih'
      exact (hclosed _ _ hx).mp hstart
    · dsimp only
      rw [if_pos hchanged]
      have hcard := Finset.card_lt_card hgrows
      exact ih h.foldl (hgrows.1 hstart) (by dsimp only at hcard; omega)

/-- The loop ends, and finds exactly what is connected. -/
theorem instrumentReachesDut_iff (topo : FixtureTopology) (instId dutId : String) :
    ∃ enough, ∀ fuel ≥ enough, ∃ answer, instrumentReachesDut topo fuel instId dutId = some answer ∧
      (answer = true ↔ EqvGen (Joined topo) instId dutId) := by
  refine ⟨(ends topo instId).card, fun fuel hfuel => ?_⟩
  have hfound : Found topo instId {instId} := by
    refine ⟨by simp [ends], fun x hx => ?_⟩
    rw [Finset.mem_singleton.mp hx]
    exact .refl _
  have henough : (ends topo instId).card < fuel + ({instId} : Finset String).card := by
    rw [Finset.card_singleton]
    omega
  obtain ⟨found, hloop, hiff⟩ := reachable_spec fuel hfound (Finset.mem_singleton_self _) henough
  exact ⟨_, by rw [instrumentReachesDut, hloop]; rfl, by simpa using hiff dutId⟩

end Reaches

end AteStudio.ParallelMutex
