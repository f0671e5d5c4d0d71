import AteStudio.Lib.Tally

/-!
# The wiring of a fixture

`TopologyValidator` in `shared/fixture_topology.py`: its checks of link ends and of instrument channels. The other
checks report neither.
-/

namespace AteStudio.Topology

open List

inductive LinkEndpointType where
  | instrumentChannel
  | fixtureTerminal
  | dutTestpoint
  | relayContact
deriving DecidableEq

inductive ChannelDirection where
  | input
  | output
  | bidirectional
deriving DecidableEq

/-- A channel, a terminal or a test point. The last has no direction. -/
structure Port where
  id : String
  direction : Option ChannelDirection := none

structure Relay where
  id : String
  contacts : List String := ["common", "no", "nc"]

structure Entity where
  id : String
  ports : List Port
  relays : List Relay := []

structure LinkEndpoint where
  entityType : LinkEndpointType
  entityId : String
  portId : String
deriving DecidableEq

structure Link where
  id : String
  fromEndpoint : LinkEndpoint
  toEndpoint : LinkEndpoint
  routeId : Option String := none
deriving DecidableEq

structure FixtureTopology where
  instruments : List Entity := []
  fixtures : List Entity := []
  duts : List Entity := []
  links : List Link := []

inductive Issue where
  | unresolvable (link : Link) (atStart : Bool)
  | notOutput (link : Link)
  | notInput (link : Link)
  | occupied (instrument channel : String) (targets : Finset (String × String))

def Issue.code : Issue → String
  | .occupied .. => "channel_occupancy"
  | _ => "direction"

def Issue.path : Issue → String
  | .unresolvable link _ | .notOutput link | .notInput link => "link:" ++ link.id
  | .occupied instrument channel _ => "channel:" ++ instrument ++ "." ++ channel

/-! ## Link ends -/

def findPort (entities : List Entity) (e : LinkEndpoint) : Option Port :=
  entities.findSome? fun entity => if entity.id = e.entityId then entity.ports.find? (·.id = e.portId) else none

variable (topo : FixtureTopology)

/-- `_resolve_endpoint` has no case for a relay contact. -/
def resolveEndpoint (e : LinkEndpoint) : Option Port :=
  match e.entityType with
  | .instrumentChannel => findPort topo.instruments e
  | .fixtureTerminal => findPort topo.fixtures e
  | .dutTestpoint => findPort topo.duts e
  | .relayContact => none

def isOutputPort (p : Port) : Bool := p.direction = some .output ∨ p.direction = some .bidirectional

def isInputPort (p : Port) : Bool := p.direction ≠ some .output

def checkLink (link : Link) : List Issue :=
  match resolveEndpoint topo link.fromEndpoint, resolveEndpoint topo link.toEndpoint with
  | none, _ => [.unresolvable link true]
  | some _, none => [.unresolvable link false]
  | some src, some dst =>
    (if isOutputPort src then [] else [.notOutput link]) ++ (if isInputPort dst then [] else [.notInput link])

def checkSignalDirection : List Issue := topo.links.flatMap (checkLink topo)

/-! ## Channels -/

def Link.source (link : Link) : String × String := (link.fromEndpoint.entityId, link.fromEndpoint.portId)

def Link.target (link : Link) : String × String := (link.toEndpoint.entityId, link.toEndpoint.portId)

def Link.routed (link : Link) : Bool := link.routeId.any (· ≠ "")

def Link.occupies (link : Link) : Bool :=
  link.fromEndpoint.entityType = .instrumentChannel ∧ link.toEndpoint.entityType = .dutTestpoint

def channelTargets : Dict (String × String) (Finset (String × String)) :=
  (topo.links.filter (·.occupies)).foldl
    (fun d link => d.alter link.source fun targets => insert link.target (targets.getD ∅)) ∅

def hasMatrix (channel : String × String) : Bool :=
  topo.links.any fun link => link.source = channel && link.routed

def checkChannelOccupancy : List Issue :=
  (channelTargets topo).entries.flatMap fun (channel, targets) =>
    if 1 < targets.card ∧ hasMatrix topo channel = false then [.occupied channel.1 channel.2 targets] else []

def issues : List Issue := checkSignalDirection topo ++ checkChannelOccupancy topo

/-! ## What should be reported -/

def Names (e : LinkEndpoint) : Prop :=
  match e.entityType with
  | .instrumentChannel => ∃ i ∈ topo.instruments, i.id = e.entityId ∧ ∃ p ∈ i.ports, p.id = e.portId
  | .fixtureTerminal => ∃ f ∈ topo.fixtures, f.id = e.entityId ∧ ∃ p ∈ f.ports, p.id = e.portId
  | .dutTestpoint => ∃ d ∈ topo.duts, d.id = e.entityId ∧ ∃ p ∈ d.ports, p.id = e.portId
  | .relayContact => ∃ f ∈ topo.fixtures, ∃ r ∈ f.relays, r.id = e.entityId ∧ e.portId ∈ r.contacts

/-- Two links of the channel go to different test points, and not both are routed. -/
def Overloaded (channel : String × String) : Prop :=
  ∃ a ∈ topo.links, ∃ b ∈ topo.links, (a.occupies = true ∧ a.source = channel) ∧ (b.occupies = true ∧ b.source = channel) ∧
    a.target ≠ b.target ∧ ¬ (a.routed = true ∧ b.routed = true)

structure Accurate (topo : FixtureTopology) : Prop where
  ends : ∀ link ∈ topo.links, (∃ atStart, .unresolvable link atStart ∈ issues topo) ↔
    ¬ (Names topo link.fromEndpoint ∧ Names topo link.toEndpoint)
  channels : ∀ channel : String × String,
    (∃ targets, .occupied channel.1 channel.2 targets ∈ issues topo) ↔ Overloaded topo channel

/-- No link ends at a relay contact that is there, and no route starts at an overloaded channel. -/
structure Plain (topo : FixtureTopology) : Prop where
  ends : ∀ link ∈ topo.links, Names topo link.fromEndpoint → Names topo link.toEndpoint →
    link.fromEndpoint.entityType ≠ .relayContact ∧ link.toEndpoint.entityType ≠ .relayContact
  channels : ∀ channel, Overloaded topo channel → hasMatrix topo channel = false

variable {topo}

theorem findPort_isSome {entities : List Entity} {e : LinkEndpoint} :
    (findPort entities e).isSome = true ↔ ∃ i ∈ entities, i.id = e.entityId ∧ ∃ p ∈ i.ports, p.id = e.portId := by
  simp only [findPort, findSome?_isSome_iff]
  refine exists_congr fun i => and_congr_right fun _ => ?_
  split
  · next h => simp [h]
  · next h => simp [h]

theorem resolveEndpoint_isSome {e : LinkEndpoint} :
    (resolveEndpoint topo e).isSome = true ↔ Names topo e ∧ e.entityType ≠ .relayContact := by
  unfold resolveEndpoint Names
  cases e.entityType <;> simp [findPort_isSome]

theorem mem_checkLink {link : Link} {i : Issue} (h : i ∈ checkLink topo link) :
    (∃ atStart, i = .unresolvable link atStart) ∨ i = .notOutput link ∨ i = .notInput link := by
  unfold checkLink at h
  split at h
  · exact .inl ⟨_, mem_singleton.mp h⟩
  · exact .inl ⟨_, mem_singleton.mp h⟩
  · split at h <;> split at h <;> simp_all

theorem mem_checkChannelOccupancy {i : Issue} :
    i ∈ checkChannelOccupancy topo ↔ ∃ channel targets, (channelTargets topo).get? channel = some targets ∧
      1 < targets.card ∧ hasMatrix topo channel = false ∧ i = .occupied channel.1 channel.2 targets := by
  simp only [checkChannelOccupancy, mem_flatMap, Prod.exists, Dict.get?_eq_some_iff]
  refine exists_congr fun _ => exists_congr fun _ => exists_congr fun targets => and_congr_right fun _ => ?_
  split
  · next h => simp [h]
  · next h => simp_all

theorem unresolvable_mem {link : Link} (h : link ∈ topo.links) :
    (∃ atStart, .unresolvable link atStart ∈ issues topo) ↔
      ¬ ((resolveEndpoint topo link.fromEndpoint).isSome = true ∧
        (resolveEndpoint topo link.toEndpoint).isSome = true) := by
  have hmem (atStart : Bool) : .unresolvable link atStart ∈ issues topo ↔
      .unresolvable link atStart ∈ checkLink topo link := by
    simp only [issues, mem_append, checkSignalDirection, mem_flatMap, mem_checkChannelOccupancy]
    constructor
    · rintro (⟨other, _, hmem⟩ | ⟨_, _, _, _, _, hmem⟩)
      · rcases mem_checkLink hmem with ⟨_, heq⟩ | heq | heq <;> cases heq
        exact hmem
      · cases hmem
    · exact fun hmem => .inl ⟨link, h, hmem⟩
  simp only [hmem]
  unfold checkLink
  split
  · next hsrc => simp [hsrc]
  · next hdst => simp [hdst]
  · next src dst hsrc hdst =>
    simp only [hsrc, hdst, Option.isSome_some, and_self, not_true_eq_false, iff_false]
    rintro ⟨_, hmem⟩
    split at hmem <;> split at hmem <;> simp at hmem

theorem foldl_insert_target (links : List Link) (targets : Option (Finset (String × String))) :
    links.foldl (fun targets link => some (insert link.target (targets.getD ∅))) targets =
      if links = [] then targets else some (targets.getD ∅ ∪ (links.map (·.target)).toFinset) := by
  induction links generalizing targets with
  | nil => rfl
  | cons link links ih =>
    rw [foldl_cons, ih]
    by_cases h : links = []
    · simp [h]
    · simp [h, Finset.insert_union, Finset.union_insert]

theorem occupied_mem {channel : String × String} :
    (∃ targets, .occupied channel.1 channel.2 targets ∈ issues topo) ↔
      (∃ a ∈ topo.links, ∃ b ∈ topo.links, (a.occupies = true ∧ a.source = channel) ∧
        (b.occupies = true ∧ b.source = channel) ∧ a.target ≠ b.target) ∧ hasMatrix topo channel = false := by
  set own := (topo.links.filter (·.occupies)).filter (·.source = channel) with hown
  have hget : (channelTargets topo).get? channel = if own = [] then none else some (own.map (·.target)).toFinset := by
    unfold channelTargets
    rw [Dict.get?_foldl_alter, foldl_insert_target]
    simp [← hown]
  have hcard : (∃ targets, (channelTargets topo).get? channel = some targets ∧ 1 < targets.card) ↔
      ∃ a ∈ own, ∃ b ∈ own, a.target ≠ b.target := by
    rw [hget]
    by_cases h : own = []
    · simp [h]
    · simp only [h, if_false, Option.some.injEq, exists_eq_left', Finset.one_lt_card, mem_toFinset, mem_map]
      constructor
      · rintro ⟨_, ⟨a, ha, rfl⟩, _, ⟨b, hb, rfl⟩, hne⟩
        exact ⟨a, ha, b, hb, hne⟩
      · rintro ⟨a, ha, b, hb, hne⟩
        exact ⟨_, ⟨a, ha, rfl⟩, _, ⟨b, hb, rfl⟩, hne⟩
  have hissue (targets : Finset (String × String)) : .occupied channel.1 channel.2 targets ∈ issues topo ↔
      ((channelTargets topo).get? channel = some targets ∧ 1 < targets.card) ∧ hasMatrix topo channel = false := by
    simp only [issues, mem_append, checkSignalDirection, mem_flatMap, mem_checkChannelOccupancy]
    constructor
    · rintro (⟨link, _, hmem⟩ | ⟨other, _, hget, hcard, hmatrix, heq⟩)
      · rcases mem_checkLink hmem with ⟨_, heq⟩ | heq | heq <;> cases heq
      · obtain ⟨h1, h2, rfl⟩ := Issue.occupied.inj heq
        obtain rfl : channel = other := Prod.ext h1 h2
        exact ⟨⟨hget, hcard⟩, hmatrix⟩
    · rintro ⟨⟨hget, hcard⟩, hmatrix⟩
      exact .inr ⟨channel, targets, hget, hcard, hmatrix, rfl⟩
  simp only [hissue, exists_and_right, hcard]
  refine and_congr_left fun _ => ?_
  simp only [hown, mem_filter, decide_eq_true_eq]
  constructor
  · rintro ⟨a, ⟨⟨ha, hao⟩, has⟩, b, ⟨⟨hb, hbo⟩, hbs⟩, hne⟩
    exact ⟨a, ha, b, hb, ⟨hao, has⟩, ⟨hbo, hbs⟩, hne⟩
  · rintro ⟨a, ha, b, hb, ⟨hao, has⟩, ⟨hbo, hbs⟩, hne⟩
    exact ⟨a, ⟨⟨ha, hao⟩, has⟩, b, ⟨⟨hb, hbo⟩, hbs⟩, hne⟩

theorem accurate_iff : Accurate topo ↔ Plain topo := by
  constructor
  · intro h
    refine ⟨fun link hlink hfrom hto => ?_, fun channel hover => ?_⟩
    · have hends := (unresolvable_mem hlink).symm.trans (h.ends link hlink)
      rw [resolveEndpoint_isSome, resolveEndpoint_isSome] at hends
      tauto
    · exact (occupied_mem.mp ((h.channels channel).mpr hover)).2
  · intro h
    refine ⟨fun link hlink => ?_, fun channel => ?_⟩
    · rw [unresolvable_mem hlink, resolveEndpoint_isSome, resolveEndpoint_isSome]
      have hends := h.ends link hlink
      tauto
    · rw [occupied_mem]
      constructor
      · rintro ⟨⟨a, ha, b, hb, hsa, hsb, hne⟩, hmatrix⟩
        refine ⟨a, ha, b, hb, hsa, hsb, hne, fun hrouted => ?_⟩
        simp only [hasMatrix, any_eq_false] at hmatrix
        exact hmatrix a ha (by simp [hsa.2, hrouted.1])
      · rintro ⟨a, ha, b, hb, hsa, hsb, hne, hrouted⟩
        exact ⟨⟨a, ha, b, hb, hsa, hsb, hne⟩, h.channels channel ⟨a, ha, b, hb, hsa, hsb, hne, hrouted⟩⟩

def relayWiring : FixtureTopology where
  instruments := [{ id := "PSU", ports := [⟨"CH1", some .output⟩] }]
  fixtures := [{ id := "F1", ports := [], relays := [{ id := "RL1" }] }]
  links := [⟨"L1", ⟨.instrumentChannel, "PSU", "CH1"⟩, ⟨.relayContact, "RL1", "common"⟩, none⟩]

/-- The contact is there, and the link is reported. -/
theorem not_accurate_relayWiring : ¬ Accurate relayWiring := by
  intro h
  have hnone : (resolveEndpoint relayWiring ⟨.relayContact, "RL1", "common"⟩).isSome = false := rfl
  refine (h.ends _ mem_cons_self).mp ((unresolvable_mem mem_cons_self).mpr (by simp [hnone])) ⟨?_, ?_⟩
  · exact ⟨_, mem_cons_self, rfl, _, mem_cons_self, rfl⟩
  · exact ⟨_, mem_cons_self, _, mem_cons_self, rfl, mem_cons_self⟩

end AteStudio.Topology
