import AteStudio.Lib.Dict

/-!
# Hot-reload signals (`scheduler/version_poller.py`)

One turn of `_poll_loop` after another.
-/

namespace AteStudio.VersionPoller

structure Tag where
  scriptPath : String
  commitHash : String

structure Poll where
  bucket : List (String × Tag)
  -- Whether one of the reads raises.
  readFails : Bool := false
  callbackFails : String → String → Bool := fun _ _ => false

structure VersionDiff where
  scriptPath : String
  newHash : String
  oldHash : Option String
deriving DecidableEq

structure Poller where
  knownVersions : Dict String String := ∅
  initialized : Bool := false

def currentTags (workerId : String) (bucket : List (String × Tag)) : Dict String String :=
  (bucket.filter fun e => ("workers." ++ workerId ++ ".").toList.isPrefixOf e.1.toList).foldl
    (fun tags e => tags.set e.2.scriptPath e.2.commitHash) ∅

def versionDiffs (known tags : Dict String String) : List VersionDiff :=
  (tags.entries.filter fun e => known.get? e.1 ≠ some e.2).map fun e => ⟨e.1, e.2, known.get? e.1⟩

def checkOnce (workerId : String) (s : Poller) (p : Poll) : Option (Poller × List VersionDiff) :=
  if p.readFails then none
  else
    let tags := currentTags workerId p.bucket
    some (⟨tags, true⟩, if s.initialized then versionDiffs s.knownVersions tags else [])

/-- A turn, with the callbacks that completed: the first one that raises ends it. -/
def pollOnce (workerId : String) (s : Poller) (p : Poll) : Poller × List VersionDiff :=
  match checkOnce workerId s p with
  | none => (s, [])
  | some (s', diffs) => (s', diffs.takeWhile fun d => !p.callbackFails d.scriptPath d.newHash)

section

variable (workerId : String) (polls : ℕ → Poll)

def stateAt : ℕ → Poller
  | 0 => {}
  | n + 1 => (pollOnce workerId (stateAt n) (polls n)).1

def completedAt (n : ℕ) : List VersionDiff := (pollOnce workerId (stateAt workerId polls n) (polls n)).2

def tagAt (n : ℕ) : Dict String String := currentTags workerId (polls n).bucket

def Signals (path hash : String) (n : ℕ) : Prop :=
  ∃ d ∈ completedAt workerId polls n, d.scriptPath = path ∧ d.newHash = hash

/-- The hash is the one of the baseline, or the last one that the callback has succeeded for. -/
def Settled (path hash : String) (n : ℕ) : Prop :=
  (∃ m, (stateAt workerId polls m).initialized = false ∧ (polls m).readFails = false ∧
    (tagAt workerId polls m).get? path = some hash) ∨
  ∃ m < n, Signals workerId polls path hash m ∧ ∀ k, m < k → k < n → ∀ hash', ¬ Signals workerId polls path hash' k

def Signalled (path hash : String) (n : ℕ) : Prop :=
  ¬ Settled workerId polls path hash n → ∃ m, n ≤ m ∧ Signals workerId polls path hash m

/-- The first turn that reads the tag finds it new, and no callback fails up to the script's. -/
def Undisturbed (path hash : String) (n : ℕ) : Prop :=
  (stateAt workerId polls n).knownVersions.get? path ≠ some hash ∧
    ∃ m, n ≤ m ∧ (polls m).readFails = false ∧ (∀ k, n ≤ k → k < m → (polls k).readFails = true) ∧
      (polls m).callbackFails path hash = false ∧
      ∀ d ∈ (versionDiffs (stateAt workerId polls n).knownVersions (tagAt workerId polls m)).takeWhile
        (·.scriptPath ≠ path), (polls m).callbackFails d.scriptPath d.newHash = false

end

theorem mem_takeWhile_iff {α β : Type} [DecidableEq β] {k : α → β} {p : α → Bool} {d : α} {l : List α} (hd : d ∈ l)
    (honly : ∀ e ∈ l, k e = k d → e = d) :
    d ∈ l.takeWhile p ↔ p d = true ∧ ∀ e ∈ l.takeWhile (k · ≠ k d), p e = true := by
  induction l with
  | nil => cases hd
  | cons e l ih =>
    by_cases hkey : k e = k d
    · obtain rfl := honly e List.mem_cons_self hkey
      cases hp : p e <;> simp [hp]
    · have hne : d ≠ e := fun h => hkey (h ▸ rfl)
      have hmem : d ∈ l := (List.mem_cons.mp hd).resolve_left hne
      have ih := ih hmem fun e he => honly e (List.mem_cons_of_mem _ he)
      cases hp : p e <;> simp [hp, hkey, hne, ih]

section

variable {workerId : String} {polls : ℕ → Poll} {path hash : String} {n : ℕ}

theorem mem_versionDiffs {known tags : Dict String String} {d : VersionDiff} :
    d ∈ versionDiffs known tags ↔
      tags.get? d.scriptPath = some d.newHash ∧ known.get? d.scriptPath = d.oldHash ∧ d.oldHash ≠ some d.newHash := by
  simp only [versionDiffs, List.mem_map, List.mem_filter, decide_eq_true_eq, Dict.get?_eq_some_iff]
  constructor
  · rintro ⟨e, ⟨he, hne⟩, rfl⟩
    exact ⟨he, rfl, hne⟩
  · rintro ⟨he, hold, hne⟩
    exact ⟨(d.scriptPath, d.newHash), ⟨he, hold ▸ hne⟩, by rw [hold]⟩

theorem stateAt_succ_of_fails (h : (polls n).readFails = true) :
    stateAt workerId polls (n + 1) = stateAt workerId polls n := by
  simp [stateAt, pollOnce, checkOnce, h]

theorem stateAt_succ_of_reads (h : (polls n).readFails = false) :
    stateAt workerId polls (n + 1) = ⟨tagAt workerId polls n, true⟩ := by
  simp [stateAt, pollOnce, checkOnce, h, tagAt]

theorem stateAt_of_fails {m : ℕ} (hle : n ≤ m) (h : ∀ k, n ≤ k → k < m → (polls k).readFails = true) :
    stateAt workerId polls m = stateAt workerId polls n := by
  induction m, hle using Nat.le_induction with
  | base => rfl
  | succ m hle ih =>
    rw [stateAt_succ_of_fails (h m hle m.lt_succ_self)]
    exact ih fun k hk hkm => h k hk (Nat.lt_succ_of_lt hkm)

theorem initialized_of_le {m : ℕ} (hle : n ≤ m) (h : (stateAt workerId polls n).initialized = true) :
    (stateAt workerId polls m).initialized = true := by
  induction m, hle using Nat.le_induction with
  | base => exact h
  | succ m _ ih =>
    cases hread : (polls m).readFails
    · rw [stateAt_succ_of_reads hread]
    · rw [stateAt_succ_of_fails hread]
      exact ih

theorem known_of_reads (hstays : ∀ m, n ≤ m → (tagAt workerId polls m).get? path = some hash) {k m : ℕ} (hk : n ≤ k)
    (hread : (polls k).readFails = false) (hkm : k < m) :
    (stateAt workerId polls m).knownVersions.get? path = some hash := by
  induction m, hkm using Nat.le_induction with
  | base =>
    rw [stateAt_succ_of_reads hread]
    exact hstays k hk
  | succ m hle ih =>
    cases hread : (polls m).readFails
    · rw [stateAt_succ_of_reads hread]
      exact hstays m (by omega)
    · rw [stateAt_succ_of_fails hread]
      exact ih

theorem signals_iff (hinit : (stateAt workerId polls n).initialized = true)
    (htag : (tagAt workerId polls n).get? path = some hash) :
    Signals workerId polls path hash n ↔
      (polls n).readFails = false ∧ (stateAt workerId polls n).knownVersions.get? path ≠ some hash ∧
        (polls n).callbackFails path hash = false ∧
        ∀ d ∈ (versionDiffs (stateAt workerId polls n).knownVersions (tagAt workerId polls n)).takeWhile
          (·.scriptPath ≠ path), (polls n).callbackFails d.scriptPath d.newHash = false := by
  cases hread : (polls n).readFails
  · set known := (stateAt workerId polls n).knownVersions with hknown
    have hcompleted : completedAt workerId polls n = (versionDiffs known (tagAt workerId polls n)).takeWhile
        fun d => !(polls n).callbackFails d.scriptPath d.newHash := by
      simp [completedAt, pollOnce, checkOnce, hread, hinit, tagAt, hknown]
    have honly (e : VersionDiff) (he : e ∈ versionDiffs known (tagAt workerId polls n)) (hpath : e.scriptPath = path) :
        e = ⟨path, hash, known.get? path⟩ := by
      obtain ⟨htag', hold, _⟩ := mem_versionDiffs.mp he
      rw [hpath] at htag' hold
      have hhash : hash = e.newHash := Option.some.inj (htag.symm.trans htag')
      cases e
      simp_all
    have hiff (hnew : known.get? path ≠ some hash) := mem_takeWhile_iff (k := VersionDiff.scriptPath)
      (p := fun d => !(polls n).callbackFails d.scriptPath d.newHash) (d := ⟨path, hash, known.get? path⟩)
      (mem_versionDiffs.mpr ⟨htag, rfl, hnew⟩) honly
    constructor
    · rintro ⟨d, hd, hpath, _⟩
      rw [hcompleted] at hd
      have hmem := (List.takeWhile_sublist _).subset hd
      obtain rfl := honly d hmem hpath
      obtain ⟨_, _, hnew⟩ := mem_versionDiffs.mp hmem
      exact ⟨rfl, hnew, by simpa using (hiff hnew).mp hd⟩
    · rintro ⟨_, hnew, hrest⟩
      refine ⟨⟨path, hash, known.get? path⟩, ?_, rfl, rfl⟩
      rw [hcompleted, hiff hnew]
      simpa using hrest
  · simp [Signals, completedAt, pollOnce, checkOnce, hread]

theorem signalled_iff (hinit : (stateAt workerId polls n).initialized = true)
    (hstays : ∀ m, n ≤ m → (tagAt workerId polls m).get? path = some hash) :
    Signalled workerId polls path hash n ↔
      (¬ Settled workerId polls path hash n → Undisturbed workerId polls path hash n) := by
  refine imp_congr_right fun _ => ⟨?_, ?_⟩
  · rintro ⟨m, hle, hsignals⟩
    obtain ⟨hread, hnew, hcalm⟩ := (signals_iff (initialized_of_le hle hinit) (hstays m hle)).mp hsignals
    have hfails (k : ℕ) (hk : n ≤ k) (hkm : k < m) : (polls k).readFails = true := by
      by_contra hnot
      exact hnew (known_of_reads hstays hk (Bool.not_eq_true _ ▸ hnot) hkm)
    rw [stateAt_of_fails hle hfails] at hnew hcalm
    exact ⟨hnew, m, hle, hread, hfails, hcalm⟩
  · rintro ⟨hnew, m, hle, hread, hfails, hcalm⟩
    refine ⟨m, hle, (signals_iff (initialized_of_le hle hinit) (hstays m hle)).mpr ?_⟩
    rw [stateAt_of_fails hle hfails]
    exact ⟨hread, hnew, hcalm⟩

end

def twoTags (fails : Bool) (n : ℕ) : Poll where
  bucket := [("workers.w.a", ⟨"a.py", if n = 0 then "1" else "2"⟩), ("workers.w.b", ⟨"b.py", if n = 0 then "1" else "2"⟩)]
  callbackFails path _ := fails && n = 1 && path = "a.py"

theorem stays_twoTags (fails : Bool) (n : ℕ) (h : 1 ≤ n) : (tagAt "w" (twoTags fails) n).get? "b.py" = some "2" := by
  have hne : n ≠ 0 := by omega
  simp only [tagAt, twoTags, hne, if_false]
  decide +kernel

theorem signalled_twoTags : Signalled "w" (twoTags false) "b.py" "2" 1 := by
  refine (signalled_iff (by decide +kernel) (stays_twoTags false)).mpr fun _ => ⟨by decide +kernel, 1, Nat.le_refl 1, rfl, ?_⟩
  exact ⟨fun k hk hlt => absurd hlt (by omega), rfl, by decide +kernel⟩

/-- The tag of the second script is lost, though its callback never fails. -/
theorem not_signalled_twoTags :
    (∀ m, 1 ≤ m → (tagAt "w" (twoTags true) m).get? "b.py" = some "2") ∧
      ¬ Signalled "w" (twoTags true) "b.py" "2" 1 := by
  have hinit : (stateAt "w" (twoTags true) 1).initialized = true := by decide +kernel
  refine ⟨stays_twoTags true, fun h => ?_⟩
  obtain ⟨m, hm, hsignals⟩ := h (by
    rintro (⟨m, hnot, _, htag⟩ | ⟨m, hm, ⟨d, hd, _⟩, _⟩)
    · have hzero : m = 0 := by
        by_contra hne
        rw [initialized_of_le (Nat.one_le_iff_ne_zero.mpr hne) hinit] at hnot
        cases hnot
      rw [hzero] at htag
      exact absurd htag (by decide +kernel)
    · obtain rfl : m = 0 := by omega
      have hnone : completedAt "w" (twoTags true) 0 = [] := by decide +kernel
      rw [hnone] at hd
      cases hd)
  obtain rfl | hlate := Nat.eq_or_lt_of_le hm
  · obtain ⟨d, hd, _⟩ := hsignals
    have hnone : completedAt "w" (twoTags true) 1 = [] := by decide +kernel
    rw [hnone] at hd
    cases hd
  · exact ((signals_iff (initialized_of_le hm hinit) (stays_twoTags true m hm)).mp hsignals).2.1
      (known_of_reads (stays_twoTags true) (Nat.le_refl 1) rfl hlate)

end AteStudio.VersionPoller
