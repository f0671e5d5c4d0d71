import AteStudio.Offline.ScriptCache

/-! # A crash while a script is stored -/

namespace AteStudio.Offline

open FileName List Option

section Code

variable (sha256 : String → String)

/-- What can be on the disk after a crash in `store_script`, and after its end. -/
def crashStates (cache : ScriptCache) (call : StoreCall) : List ScriptCache :=
  let dir := dirOf cache call.scriptId
  if call.accepted sha256 && !dir.unchanged sha256 call then
    [cache, cache.set (quote call.scriptId) (dir.replaceContent call),
      cache.set (quote call.scriptId) ((dir.replaceContent call).replaceMeta sha256 call)]
  else [cache]

def ScriptDir.Placed (dir : ScriptDir) : Prop :=
  ∀ name m, dir.metas.get? name = some m → name = fileStem m.version ∧ (safeName? m.version).isSome

def CrashAtomic (cache : ScriptCache) (call : StoreCall) (text : String) : Prop :=
  ∀ after ∈ crashStates sha256 cache call,
    getScript sha256 after call.scriptId (some call.version) = .ok text ∨
    getScript sha256 after call.scriptId (some call.version) = .ok call.content

def ScriptDir.fallback (dir : ScriptDir) (version : String) : Except ScriptError String :=
  dir.serve sha256 (dir.iterMetas.filter (·.version ≠ version))

/-- Nothing is written, or what is served in between is one of the two texts. -/
def Harmless (dir : ScriptDir) (call : StoreCall) (text : String) : Prop :=
  dir.unchanged sha256 call = true ∨
    (readText call.content = call.content ∨ readText call.content = text) ∧
      ((∀ m ∈ dir.metas.get? (fileStem call.version), m.sha256 = sha256 call.content) ∨
        dir.fallback sha256 call.version = .ok text ∨ dir.fallback sha256 call.version = .ok call.content)

end Code

/-! ## The pinned version -/

open ScriptDir

section Pinned

variable {sha256 : String → String} {dir dir' : ScriptDir} {cache : ScriptCache} {scriptId version : String} {m : Meta}

theorem serve_append {xs ys : List Meta}
    (h : ∀ m ∈ xs, (safeName? m.version).isSome ∧ dir.verify sha256 (fileStem m.version) m.sha256 = false) :
    dir.serve sha256 (xs ++ ys) = dir.serve sha256 ys := by
  induction xs with
  | nil => rfl
  | cons x xs ih =>
    obtain ⟨⟨hsafe, hverify⟩, hrest⟩ := forall_mem_cons.mp h
    rw [cons_append, serve, if_neg (not_isNone hsafe), hverify, if_neg Bool.false_ne_true, ih hrest]

theorem serve_congr {candidates : List Meta}
    (h : ∀ m ∈ candidates, dir.contents.get? (fileStem m.version) = dir'.contents.get? (fileStem m.version)) :
    dir.serve sha256 candidates = dir'.serve sha256 candidates := by
  induction candidates with
  | nil => rfl
  | cons m candidates ih =>
    obtain ⟨hm, hrest⟩ := forall_mem_cons.mp h
    have hverify : dir.verify sha256 (fileStem m.version) m.sha256 =
        dir'.verify sha256 (fileStem m.version) m.sha256 := by
      rw [verify, verify, hm]
    rw [serve, serve, hverify, Dict.getD, Dict.getD, hm, ih hrest]

theorem ScriptDir.Placed.unique (h : dir.Placed) (hm : dir.metas.get? (fileStem version) = some m) {m' : Meta}
    (hm' : m' ∈ dir.iterMetas) (hname : fileStem m'.version = fileStem version) : m' = m := by
  obtain ⟨name, hget⟩ := Dict.mem_values.mp (mem_iterMetas.mp hm')
  rw [(h name m' hget).1, hname, hm] at hget
  exact (some.inj hget).symm

theorem getScript_pinned (hdir : dirOf cache scriptId = dir) (h : dir.Placed) (hsafe : (safeName? scriptId).isSome)
    (hm : dir.metas.get? (fileStem m.version) = some m) :
    getScript sha256 cache scriptId (some m.version) =
      if dir.verify sha256 (fileStem m.version) m.sha256 then
        .ok (readText (dir.contents.getD (fileStem m.version) ""))
      else dir.fallback sha256 m.version := by
  have hmem : m ∈ dir.iterMetas := mem_iterMetas.mpr (Dict.mem_values.mpr ⟨_, hm⟩)
  have hunique : ∀ m' ∈ dir.iterMetas, m'.version = m.version → m' = m :=
    fun m' hmem' hversion => h.unique hm hmem' (congrArg fileStem hversion)
  have hversion : (safeName? m.version).isSome := (h _ m hm).2
  obtain ⟨rest, hrest, hget⟩ := getScript_pin sha256 hdir hsafe hmem hunique
  rw [hget]
  split
  · next hverify => rw [cons_append, serve, if_neg (not_isNone hversion), if_pos hverify]
  · next hverify =>
    rw [fallback, serve_append]
    intro m' hm'
    obtain rfl : m' = m := (mem_cons.mp hm').elim id (hrest m')
    exact ⟨hversion, by simpa using hverify⟩

theorem meta_of_getScript (h : (dirOf cache scriptId).Placed) {text : String}
    (hget : getScript sha256 cache scriptId (some version) = .ok text) :
    (safeName? scriptId).isSome ∧
      ∃ m, (dirOf cache scriptId).metas.get? (fileStem version) = some m ∧ m.version = version := by
  rw [getScript] at hget
  split at hget
  · cases hget
  · next hname =>
    refine ⟨by simpa [isSome_iff_ne_none] using hname, ?_⟩
    dsimp only at hget
    split at hget
    · cases hget
    · split at hget
      · cases hget
      · next hpinned =>
        obtain ⟨m, hm⟩ := exists_mem_of_ne_nil _ hpinned
        obtain ⟨hmem, hversion⟩ := mem_filter.mp hm
        obtain ⟨name, hget⟩ := Dict.mem_values.mp (mem_iterMetas.mp hmem)
        have hversion := of_decide_eq_true hversion
        rw [(h name m hget).1, hversion] at hget
        exact ⟨m, hget, hversion⟩

end Pinned

/-! ## Between the two files -/

section Crash

variable {sha256 : String → String} {cache : ScriptCache} {call : StoreCall} {dir : ScriptDir} {m : Meta}

theorem dirOf_set (cache : ScriptCache) (scriptId : String) (dir : ScriptDir) :
    dirOf (cache.set (quote scriptId) dir) scriptId = dir := by
  rw [dirOf, Dict.getD, Dict.get?_set_self, getD_some]

theorem ScriptDir.Placed.replaceMeta (h : dir.Placed) (hsafe : (safeName? call.version).isSome) :
    (dir.replaceMeta sha256 call).Placed := by
  intro name m hm
  change (Dict.set _ _ _).get? name = some m at hm
  rw [Dict.get?_set] at hm
  split at hm
  · next hname =>
    cases hm
    exact ⟨hname, hsafe⟩
  · exact h name m hm

theorem fallback_replaceContent (h : dir.Placed) (hm : dir.metas.get? (fileStem call.version) = some m)
    (hversion : m.version = call.version) :
    (dir.replaceContent call).fallback sha256 call.version = dir.fallback sha256 call.version := by
  refine serve_congr fun m' hm' => Dict.get?_set_of_ne _ _ fun hname => ?_
  obtain ⟨hmem, hother⟩ := mem_filter.mp hm'
  rw [h.unique hm hmem hname, hversion] at hother
  simp at hother

theorem getScript_replaceContent (h : (dirOf cache call.scriptId).Placed) (hsafe : (safeName? call.scriptId).isSome)
    (hm : (dirOf cache call.scriptId).metas.get? (fileStem call.version) = some m) (hversion : m.version = call.version) :
    getScript sha256 (cache.set (quote call.scriptId) ((dirOf cache call.scriptId).replaceContent call)) call.scriptId
        (some call.version) =
      if m.sha256 = sha256 call.content then .ok (readText call.content)
      else (dirOf cache call.scriptId).fallback sha256 call.version := by
  have hdir := dirOf_set cache call.scriptId ((dirOf cache call.scriptId).replaceContent call)
  have hcontent : ((dirOf cache call.scriptId).replaceContent call).contents.get? (fileStem call.version) =
      some call.content := Dict.get?_set_self ..
  have hplaced : ((dirOf cache call.scriptId).replaceContent call).Placed := h
  rw [← fallback_replaceContent h hm hversion]
  rw [← hversion] at hm hcontent ⊢
  rw [getScript_pinned hdir hplaced hsafe hm, verify, Dict.getD, hcontent, any_some, getD_some]
  by_cases hhash : m.sha256 = sha256 call.content
  · rw [if_pos (by simpa using hhash.symm), if_pos hhash]
  · rw [if_neg (by simpa using Ne.symm hhash), if_neg hhash]

theorem getScript_replaceMeta (h : (dirOf cache call.scriptId).Placed) (hsafe : (safeName? call.scriptId).isSome)
    (hversion : (safeName? call.version).isSome) :
    getScript sha256 (cache.set (quote call.scriptId)
        (((dirOf cache call.scriptId).replaceContent call).replaceMeta sha256 call)) call.scriptId (some call.version) =
      .ok (readText call.content) := by
  have hdir := dirOf_set cache call.scriptId
    (((dirOf cache call.scriptId).replaceContent call).replaceMeta sha256 call)
  have hplaced : ((dirOf cache call.scriptId).replaceContent call).Placed := h
  have hget := @getScript_pinned sha256 _ _ call.scriptId
    ⟨call.version, sha256 call.content, call.now, ((dirOf cache call.scriptId).replaceContent call).nextSeq⟩
    hdir (hplaced.replaceMeta hversion) hsafe (Dict.get?_set_self ..)
  have hcontent : (((dirOf cache call.scriptId).replaceContent call).replaceMeta sha256 call).contents.get?
      (fileStem call.version) = some call.content := Dict.get?_set_self ..
  rw [hget, verify, Dict.getD, hcontent]
  simp

theorem placed_run (calls : List StoreCall) (scriptId : String) :
    (dirOf (Runs.run (storeStep sha256) ∅ calls) scriptId).Placed := by
  induction calls using List.reverseRecOn with
  | nil => exact fun _ _ => (nomatch ·)
  | append_singleton calls call ih =>
    rw [Runs.run, foldl_append]
    change (dirOf (storeStep sha256 (Runs.run (storeStep sha256) ∅ calls) call) scriptId).Placed
    cases haccepted : call.accepted sha256 with
    | false =>
      rw [storeStep, storeScript, haccepted]
      exact ih
    | true =>
      rw [dirOf_storeStep _ _ haccepted]
      split
      · next hcall =>
        rw [← hcall.1]
        have hcontent : ((dirOf (Runs.run (storeStep sha256) ∅ calls) scriptId).replaceContent call).Placed := ih
        exact hcontent.replaceMeta (accepted_version haccepted)
      · exact ih

end Crash

theorem crashAtomic_iff (sha256 : String → String) (cache : ScriptCache) (call : StoreCall) (text : String)
    (hplaced : (dirOf cache call.scriptId).Placed) (haccepted : call.accepted sha256 = true)
    (hget : getScript sha256 cache call.scriptId (some call.version) = .ok text) :
    CrashAtomic sha256 cache call text ↔ Harmless sha256 (dirOf cache call.scriptId) call text := by
  obtain ⟨hsafe, m, hm, hversion⟩ := meta_of_getScript hplaced hget
  rw [CrashAtomic, crashStates, Harmless, haccepted]
  cases hsame : (dirOf cache call.scriptId).unchanged sha256 call with
  | true => simp [hget]
  | false =>
    have hmid := @getScript_replaceContent sha256 _ _ _ hplaced hsafe hm hversion
    have hafter := @getScript_replaceMeta sha256 _ _ hplaced hsafe (accepted_version haccepted)
    simp only [Bool.not_false, Bool.and_self, if_true, List.forall_mem_cons, hget, hmid, hafter, hm, true_or, true_and,
      Bool.false_eq_true, false_or, Except.ok.injEq, mem_some_iff]
    by_cases hhash : m.sha256 = sha256 call.content
    · simpa [hhash] using or_comm
    · simpa [hhash] using and_comm.trans (and_congr_left' or_comm)

/-! ## One version and two -/

theorem crashAtomic_iff_again :
    CrashAtomic id (Runs.run (storeStep id) ∅ [storeOf "1" "a" 0]) (storeOf "1" "a" 1) "a" :=
  (crashAtomic_iff id (Runs.run (storeStep id) ∅ [storeOf "1" "a" 0]) (storeOf "1" "a" 1) "a" (placed_run _ _)
    (by decide) (by decide)).mpr (.inl (by decide))

/-- After a crash the version cannot be read, or another one is served. -/
theorem crash_between :
    getScript id (Runs.run (storeStep id) ∅ [storeOf "1" "a" 0]) "s" (some "1") = .ok "a" ∧
    (∃ after ∈ crashStates id (Runs.run (storeStep id) ∅ [storeOf "1" "a" 0]) (storeOf "1" "b" 1),
      getScript id after "s" (some "1") = .error .corruption) ∧
    getScript id (Runs.run (storeStep id) ∅ [storeOf "1" "a" 0, storeOf "2" "c" 1]) "s" (some "1") = .ok "a" ∧
    ∃ after ∈ crashStates id (Runs.run (storeStep id) ∅ [storeOf "1" "a" 0, storeOf "2" "c" 1]) (storeOf "1" "b" 2),
      getScript id after "s" (some "1") = .ok "c" := by
  decide

end AteStudio.Offline
