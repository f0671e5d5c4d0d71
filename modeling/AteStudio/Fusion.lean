import AteStudio.Lib.Tally
import AteStudio.Parser.Code

/-!
# Rank fusion (`ate_cloud/services/hybrid_fusion.py`)

Scores are exact.
-/

namespace AteStudio.Fusion

open List Dict

open AteStudio.Parser (Python truthy)

abbrev Fields := Dict String PyVal

/-- A dictionary, with what `id` says of the object. A copy keeps that of the hit it was made from. -/
structure Result where
  address : ℕ
  fields : Fields

def fusionKey (py : Python) (result : Result) : String :=
  let entityId := result.fields.getD "entity_id" .none
  if truthy entityId then "entity:" ++ py.str entityId
  else "point:" ++ (result.fields.get? "id").elim (toString result.address) py.str

/-! ## The two loops -/

variable (py : Python) (vectorResults graphResults : List Result) (k : ℕ)

def share (k rank : ℕ) : ℚ := 1 / (k + rank)

def rrfScore (entry : Result) : ℚ :=
  match entry.fields.get? "rrf_score" with
  | some (.float q) => q
  | _ => 0

def vectorEntry (hit : Result × ℕ) : Result :=
  let entry := hit.1.fields.set "rrf_score" (.float (share k hit.2))
  let entry := entry.set "vector_score" (hit.1.fields.getD "score" .none)
  let entry := entry.set "vector_rank" (.int hit.2)
  { hit.1 with fields := entry.erase "score" }

def graphEntry (hit : Result × ℕ) : Result :=
  let entry := hit.1.fields.set "rrf_score" (.float (share k hit.2))
  let entry := entry.set "graph_rank" (.int hit.2)
  { hit.1 with fields := entry.erase "score" }

def graphFields : List String := ["symptom", "cause", "solution", "component", "product", "instrument"]

def fillField (result existing : Fields) (field : String) : Fields :=
  if truthy (result.getD field .none) && !truthy (existing.getD field .none) then
    existing.set field (result.getD field .none)
  else existing

def fuse (hit : Result × ℕ) (existing : Result) : Result :=
  let entry := existing.fields.set "rrf_score" (.float (rrfScore existing + share k hit.2))
  let entry := entry.set "graph_rank" (.int hit.2)
  let entry := graphFields.foldl (fillField hit.1.fields) entry
  { existing with fields := entry.set "source" (.str "fused") }

def addVector (merged : Dict String Result) (hit : Result × ℕ) : Dict String Result :=
  merged.set (fusionKey py hit.1) (vectorEntry k hit)

def addGraph (merged : Dict String Result) (hit : Result × ℕ) : Dict String Result :=
  match merged.get? (fusionKey py hit.1) with
  | some existing => merged.set (fusionKey py hit.1) (fuse k hit existing)
  | none => merged.set (fusionKey py hit.1) (graphEntry k hit)

def merge : Dict String Result :=
  (graphResults.zipIdx 1).foldl (addGraph py k) ((vectorResults.zipIdx 1).foldl (addVector py k) ∅)

def reciprocalRankFusion : List Result :=
  (merge py vectorResults graphResults k).values.insertionSort fun a b => rrfScore b ≤ rrfScore a

/-! ## Ranks -/

section Ranks

variable (results : List Result) (key : String)

def hits : List (Result × ℕ) := (results.zipIdx 1).filter fun hit => fusionKey py hit.1 = key

def ranks : List ℕ := (hits py results key).map (·.2)

end Ranks

def best (ranks : List ℕ) : ℚ := ranks.min?.elim 0 (share k)

def last (ranks : List ℕ) : ℚ := ranks.getLast?.elim 0 (share k)

def later (ranks : List ℕ) : ℚ := (ranks.tail.map (share k)).sum

/-- What the last hit falls short of the best one, the later hits in the second list give. -/
def Balanced : Prop :=
  ∀ key, best k (ranks py vectorResults key) - last k (ranks py vectorResults key) =
    later k (ranks py graphResults key)

/-- Every key of the two lists once, with what its best ranks give, and the highest score first. -/
structure Fused (fused : List Result) : Prop where
  once : (fused.map (fusionKey py)).Nodup
  keys : ∀ key, key ∈ fused.map (fusionKey py) ↔
    key ∈ vectorResults.map (fusionKey py) ∨ key ∈ graphResults.map (fusionKey py)
  score : ∀ entry ∈ fused, rrfScore entry =
    best k (ranks py vectorResults (fusionKey py entry)) + best k (ranks py graphResults (fusionKey py entry))
  ordered : fused.Pairwise fun a b => rrfScore b ≤ rrfScore a

variable {py vectorResults graphResults k} {key : String} {results : List Result}

theorem hits_eq_nil_iff : hits py results key = [] ↔ key ∉ results.map (fusionKey py) := by
  have hmap : results.map (fusionKey py) = (results.zipIdx 1).map (fusionKey py ∘ Prod.fst) := by
    rw [← map_map, zipIdx_map_fst]
  rw [hits, filter_eq_nil_iff, hmap, mem_map]
  simp

theorem fusionKey_of_mem_hits {hit : Result × ℕ} (h : hit ∈ hits py results key) : fusionKey py hit.1 = key := by
  simpa using (mem_filter.mp h).2

theorem ranks_increasing : (ranks py results key).Pairwise (· < ·) := by
  refine List.Pairwise.sublist (filter_sublist.map _) ?_
  rw [zipIdx_map_snd]
  exact pairwise_lt_range' 1 (by decide)

theorem min?_of_increasing {rank : ℕ} {ranks : List ℕ} (h : (rank :: ranks).Pairwise (· < ·)) :
    (rank :: ranks).min? = some rank := by
  refine min?_eq_some_iff.mpr ⟨mem_cons_self, fun other hother => ?_⟩
  rcases mem_cons.mp hother with rfl | hother
  · exact le_rfl
  · exact (rel_of_pairwise_cons h hother).le

theorem sum_eq_best_add_later {ranks : List ℕ} (h : ranks.Pairwise (· < ·)) :
    (ranks.map (share k)).sum = best k ranks + later k ranks := by
  cases ranks with
  | nil => simp [best, later]
  | cons rank ranks =>
    rw [best, min?_of_increasing h, later, map_cons, sum_cons, Option.elim_some, tail_cons]

/-! ## Entries -/

theorem fusionKey_congr {a b : Result} (haddress : a.address = b.address)
    (hentity : a.fields.get? "entity_id" = b.fields.get? "entity_id") (hid : a.fields.get? "id" = b.fields.get? "id") :
    fusionKey py a = fusionKey py b := by
  unfold fusionKey Dict.getD
  rw [haddress, hentity, hid]

theorem get?_fillFields (result : Fields) {name : String} (fields : List String) (hname : name ∉ fields)
    (existing : Fields) : (fields.foldl (fillField result) existing).get? name = existing.get? name := by
  induction fields generalizing existing with
  | nil => rfl
  | cons field fields ih =>
    rw [mem_cons, not_or] at hname
    obtain ⟨hfield, hfields⟩ := hname
    rw [foldl_cons, ih hfields, fillField]
    split
    · exact get?_set_of_ne _ _ hfield
    · rfl

section

variable (hit : Result × ℕ)



theorem fusionKey_vectorEntry : fusionKey py (vectorEntry k hit) = fusionKey py hit.1 :=
  fusionKey_congr rfl (by simp [vectorEntry, get?_erase, get?_set])
    (by simp [vectorEntry, get?_erase, get?_set])

theorem fusionKey_graphEntry : fusionKey py (graphEntry k hit) = fusionKey py hit.1 :=
  fusionKey_congr rfl (by simp [graphEntry, get?_erase, get?_set])
    (by simp [graphEntry, get?_erase, get?_set])

variable (existing : Result)

theorem get?_fuse {name : String} (hsource : name ≠ "source")
    (hfields : name ∉ graphFields) (hrank : name ≠ "graph_rank") :
    (fuse k hit existing).fields.get? name =
      (existing.fields.set "rrf_score" (.float (rrfScore existing + share k hit.2))).get? name := by
  rw [fuse, get?_set_of_ne _ _ hsource, get?_fillFields _ _ hfields, get?_set_of_ne _ _ hrank]

theorem fusionKey_fuse : fusionKey py (fuse k hit existing) = fusionKey py existing := by
  refine fusionKey_congr rfl ?_ ?_
  · rw [get?_fuse hit existing (by decide) (by decide) (by decide), get?_set_of_ne _ _ (by decide)]
  · rw [get?_fuse hit existing (by decide) (by decide) (by decide), get?_set_of_ne _ _ (by decide)]

theorem rrfScore_vectorEntry : rrfScore (vectorEntry k hit) = share k hit.2 := by
  simp [rrfScore, vectorEntry, get?_erase, get?_set]

theorem rrfScore_graphEntry : rrfScore (graphEntry k hit) = share k hit.2 := by
  simp [rrfScore, graphEntry, get?_erase, get?_set]

theorem rrfScore_fuse : rrfScore (fuse k hit existing) = rrfScore existing + share k hit.2 := by
  rw [rrfScore, get?_fuse hit existing (by decide) (by decide) (by decide), get?_set_self]

end

/-! ## What is merged under a key -/

def graphValue (k : ℕ) (hit : Result × ℕ) : Option Result → Result
  | some existing => fuse k hit existing
  | none => graphEntry k hit

theorem addGraph_eq (merged : Dict String Result) (hit : Result × ℕ) :
    addGraph py k merged hit = merged.alter (fusionKey py hit.1) (graphValue k hit) := by
  unfold addGraph alter
  cases merged.get? (fusionKey py hit.1) <;> rfl

theorem get?_merge : (merge py vectorResults graphResults k).get? key =
    (hits py graphResults key).foldl (fun v hit => some (graphValue k hit v))
      ((hits py vectorResults key).foldl (fun _ hit => some (vectorEntry k hit)) none) := by
  have hvector : addVector py k = fun merged hit => merged.alter (fusionKey py hit.1) fun _ => vectorEntry k hit := rfl
  have hgraph : addGraph py k = fun merged hit => merged.alter (fusionKey py hit.1) (graphValue k hit) := by
    funext merged hit
    exact addGraph_eq merged hit
  let keyOf : Result × ℕ → String := fun hit => fusionKey py hit.1
  rw [merge, hvector, hgraph, get?_foldl_alter keyOf, get?_foldl_alter keyOf, get?_empty]
  rfl

theorem foldl_vectorEntry (items : List (Result × ℕ)) :
    items.foldl (fun _ hit => some (vectorEntry k hit)) none = items.getLast?.map (vectorEntry k) := by
  induction items using List.reverseRecOn with
  | nil => rfl
  | append_singleton items hit ih => rw [foldl_append, getLast?_concat]; rfl

theorem rrfScore_foldl_graphValue (items : List (Result × ℕ)) (v : Option Result) :
    (items.foldl (fun v hit => some (graphValue k hit v)) v).elim 0 rrfScore =
      v.elim 0 rrfScore + ((items.map (·.2)).map (share k)).sum := by
  induction items generalizing v with
  | nil => simp
  | cons hit items ih =>
    have hstep : rrfScore (graphValue k hit v) = v.elim 0 rrfScore + share k hit.2 := by
      cases v with
      | none => rw [graphValue, rrfScore_graphEntry, Option.elim_none, zero_add]
      | some existing => exact rrfScore_fuse hit existing
    rw [foldl_cons, ih, Option.elim_some, hstep, map_cons, map_cons, sum_cons, add_assoc]

theorem rrfScore_merge : ((merge py vectorResults graphResults k).get? key).elim 0 rrfScore =
    last k (ranks py vectorResults key) + (best k (ranks py graphResults key) + later k (ranks py graphResults key)) := by
  have hlast : ((hits py vectorResults key).getLast?.map (vectorEntry k)).elim 0 rrfScore =
      last k (ranks py vectorResults key) := by
    rw [last, ranks, getLast?_map]
    cases (hits py vectorResults key).getLast? with
    | none => rfl
    | some hit => exact rrfScore_vectorEntry hit
  rw [get?_merge, rrfScore_foldl_graphValue, foldl_vectorEntry, hlast, ← sum_eq_best_add_later ranks_increasing]
  rfl

theorem get?_merge_eq_none_iff : (merge py vectorResults graphResults k).get? key = none ↔
    key ∉ vectorResults.map (fusionKey py) ∧ key ∉ graphResults.map (fusionKey py) := by
  rw [get?_merge, foldl_vectorEntry, ← hits_eq_nil_iff, ← hits_eq_nil_iff]
  cases hgraph : hits py graphResults key using List.reverseRecOn with
  | nil => simp
  | append_singleton items hit => simp

variable {entry : Result}

theorem fusionKey_of_merge (h : (merge py vectorResults graphResults k).get? key = some entry) :
    fusionKey py entry = key := by
  rw [get?_merge, foldl_vectorEntry] at h
  -- each hit of the second list leaves the key of what it finds, or has the key itself
  have hfold (items : List (Result × ℕ)) (hitems : ∀ hit ∈ items, fusionKey py hit.1 = key) (v : Option Result)
      (hv : ∀ entry, v = some entry → fusionKey py entry = key)
      (hentry : items.foldl (fun v hit => some (graphValue k hit v)) v = some entry) : fusionKey py entry = key := by
    induction items generalizing v with
    | nil => exact hv entry hentry
    | cons hit items ih =>
      refine ih (fun hit hhit => hitems hit (mem_cons_of_mem _ hhit)) (some (graphValue k hit v)) ?_ hentry
      rintro _ ⟨rfl⟩
      cases v with
      | none => exact (fusionKey_graphEntry hit).trans (hitems hit mem_cons_self)
      | some existing => exact (fusionKey_fuse hit existing).trans (hv existing rfl)
  refine hfold _ (fun hit => fusionKey_of_mem_hits) _ (fun entry hentry => ?_) h
  obtain ⟨hit, hhit, rfl⟩ := Option.map_eq_some_iff.mp hentry
  exact (fusionKey_vectorEntry hit).trans (fusionKey_of_mem_hits (mem_of_getLast? hhit))

/-! ## The fused list -/

theorem mem_fusion : entry ∈ reciprocalRankFusion py vectorResults graphResults k ↔
    (merge py vectorResults graphResults k).get? (fusionKey py entry) = some entry := by
  rw [reciprocalRankFusion, mem_insertionSort, mem_values]
  constructor
  · rintro ⟨key, h⟩
    rwa [fusionKey_of_merge h]
  · exact fun h => ⟨_, h⟩

theorem map_fusionKey_values (merged : Dict String Result)
    (h : ∀ key entry, merged.get? key = some entry → fusionKey py entry = key) :
    merged.values.map (fusionKey py) = merged.keys := by
  rw [values, Dict.keys, map_map]
  exact map_congr_left fun e he => h e.1 e.2 ((get?_eq_some_iff _ _ _).mpr he)

theorem map_fusionKey_perm : ((reciprocalRankFusion py vectorResults graphResults k).map (fusionKey py)).Perm
    (merge py vectorResults graphResults k).keys := by
  rw [← map_fusionKey_values _ fun key entry => fusionKey_of_merge]
  exact (perm_insertionSort _ _).map _

theorem fusion_ordered :
    (reciprocalRankFusion py vectorResults graphResults k).Pairwise fun a b => rrfScore b ≤ rrfScore a := by
  have : Std.Total fun a b : Result => rrfScore b ≤ rrfScore a := ⟨fun a b => le_total (rrfScore b) (rrfScore a)⟩
  have : IsTrans Result fun a b => rrfScore b ≤ rrfScore a := ⟨fun _ _ _ hab hbc => hbc.trans hab⟩
  exact pairwise_insertionSort _ _

theorem rrfScore_of_mem (h : entry ∈ reciprocalRankFusion py vectorResults graphResults k) :
    rrfScore entry = last k (ranks py vectorResults (fusionKey py entry)) +
      (best k (ranks py graphResults (fusionKey py entry)) + later k (ranks py graphResults (fusionKey py entry))) := by
  rw [← rrfScore_merge, mem_fusion.mp h, Option.elim_some]

theorem mem_keys_fusion : key ∈ (reciprocalRankFusion py vectorResults graphResults k).map (fusionKey py) ↔
    key ∈ vectorResults.map (fusionKey py) ∨ key ∈ graphResults.map (fusionKey py) := by
  rw [map_fusionKey_perm.mem_iff, ← not_iff_not, not_or, ← get?_eq_none_iff, get?_merge_eq_none_iff]

theorem ranks_eq_nil (h : key ∉ results.map (fusionKey py)) : ranks py results key = [] := by
  rw [ranks, hits_eq_nil_iff.mpr h, map_nil]

/-- The first list counts the last hit of a key, the second one every hit. -/
theorem fused_iff (py : Python) (vectorResults graphResults : List Result) (k : ℕ) :
    Fused py vectorResults graphResults k (reciprocalRankFusion py vectorResults graphResults k) ↔
      Balanced py vectorResults graphResults k := by
  constructor
  · intro h key
    by_cases hkey : key ∈ (reciprocalRankFusion py vectorResults graphResults k).map (fusionKey py)
    · obtain ⟨entry, hentry, rfl⟩ := List.mem_map.mp hkey
      have hscore := h.score entry hentry
      rw [rrfScore_of_mem hentry] at hscore
      linarith
    · rw [mem_keys_fusion, not_or] at hkey
      rw [ranks_eq_nil hkey.1, ranks_eq_nil hkey.2]
      simp [best, last, later]
  · intro h
    refine ⟨map_fusionKey_perm.nodup_iff.mpr (nodup _), fun key => mem_keys_fusion, fun entry hentry => ?_,
      fusion_ordered⟩
    have hkey := h (fusionKey py entry)
    rw [rrfScore_of_mem hentry]
    linarith

def twoHits : List Result :=
  [⟨0, .ofList [("id", .str "p1"), ("entity_id", .str "fault:x")]⟩,
    ⟨1, .ofList [("id", .str "p2"), ("entity_id", .str "fault:x")]⟩]

/-- The entity is found at ranks 1 and 2, and gets the score of rank 2. -/
theorem not_fused_twoHits :
    (reciprocalRankFusion Parser.asciiPython twoHits [] 60).map (fun e => (fusionKey Parser.asciiPython e, rrfScore e)) =
        [("entity:fault:x", 1 / 62)] ∧
      best 60 (ranks Parser.asciiPython twoHits "entity:fault:x") = 1 / 61 ∧
      ¬ Fused Parser.asciiPython twoHits [] 60 (reciprocalRankFusion Parser.asciiPython twoHits [] 60) := by
  have hfused : (reciprocalRankFusion Parser.asciiPython twoHits [] 60).map
      (fun e => (fusionKey Parser.asciiPython e, rrfScore e)) = [("entity:fault:x", 1 / 62)] := by decide +kernel
  have hbest : best 60 (ranks Parser.asciiPython twoHits "entity:fault:x") = 1 / 61 := by decide +kernel
  refine ⟨hfused, hbest, fun h => ?_⟩
  obtain ⟨entry, hentry, heq⟩ := List.map_eq_singleton_iff.mp hfused
  obtain ⟨hkey, hscore⟩ := Prod.mk.inj heq
  have hshould := h.score entry (hentry ▸ List.mem_singleton_self entry)
  rw [hkey, hscore, hbest] at hshould
  exact absurd hshould (by decide +kernel)

end AteStudio.Fusion
