import AteStudio.Lib.Dict
import AteStudio.Lib.FileName
import AteStudio.Lib.Runs

/-!
# The script cache (`offline/script_cache.py`)

Versions that differ only in their suffix share their two files.
-/

namespace AteStudio.Offline

open FileName List Option

structure Meta where
  version : String
  sha256 : String
  storedAt : Rat
  seq : Nat
deriving DecidableEq

/-- The files of a script, under their names without `.script` and `.meta.json`. -/
structure ScriptDir where
  contents : Dict Name String
  metas : Dict Name Meta
deriving DecidableEq

inductive ScriptError where
  | valueError
  | miss
  | versionMismatch
  | corruption
deriving DecidableEq

abbrev ScriptCache := Dict Name ScriptDir

def safeName? (raw : String) : Option Name :=
  if quote raw = [] ∨ (quote raw).head? = some '.' then none else some (quote raw)

def fileStem (version : String) : Name := stem (quote version)

/-- `read_text` in text mode, where every line end is a line feed -/
def universalNewlines : List Char → List Char
  | [] => []
  | '\r' :: '\n' :: cs => '\n' :: universalNewlines cs
  | '\r' :: cs => '\n' :: universalNewlines cs
  | c :: cs => c :: universalNewlines cs

def readText (content : String) : String := String.ofList (universalNewlines content.toList)

namespace ScriptDir

def empty : ScriptDir := ⟨∅, ∅⟩

def nextSeq (dir : ScriptDir) : Nat := (dir.metas.values.map (·.seq + 1)).foldr max 0

end ScriptDir

def Meta.key (m : Meta) : Rat ×ₗ Nat := toLex (m.storedAt, m.seq)

def ScriptDir.iterMetas (dir : ScriptDir) : List Meta := dir.metas.values.insertionSort fun a b => b.key ≤ a.key

structure StoreCall where
  scriptId : String
  version : String
  content : String
  checksum : Option String
  now : Rat
deriving DecidableEq

section Code

variable (sha256 : String → String) (dir : ScriptDir) (cache : ScriptCache) (call : StoreCall)

def ScriptDir.verify (name : Name) (expected : String) : Bool :=
  (dir.contents.get? name).any (sha256 · = expected)

def StoreCall.accepted : Bool :=
  (safeName? call.scriptId).isSome && (safeName? call.version).isSome &&
    call.checksum.all (· = sha256 call.content)

def ScriptDir.unchanged : Bool :=
  (dir.metas.get? (fileStem call.version)).any (·.sha256 = sha256 call.content) &&
    dir.verify sha256 (fileStem call.version) (sha256 call.content)

/-- The first `os.replace` of `store_script`. -/
def ScriptDir.replaceContent : ScriptDir :=
  { dir with contents := dir.contents.set (fileStem call.version) call.content }

def ScriptDir.replaceMeta : ScriptDir :=
  let m := ⟨call.version, sha256 call.content, call.now, dir.nextSeq⟩
  { dir with metas := dir.metas.set (fileStem call.version) m }

def dirOf (scriptId : String) : ScriptDir := cache.getD (quote scriptId) .empty

def storeScript : Except ScriptError ScriptCache :=
  if call.accepted sha256 then
    let dir := dirOf cache call.scriptId
    if dir.unchanged sha256 call then .ok cache
    else .ok (cache.set (quote call.scriptId) ((dir.replaceContent call).replaceMeta sha256 call))
  else .error .valueError

/-- The first candidate whose content file has the hash of its metadata. -/
def ScriptDir.serve (dir : ScriptDir) : List Meta → Except ScriptError String
  | [] => .error .corruption
  | m :: candidates =>
    if (safeName? m.version).isNone then .error .valueError
    else if dir.verify sha256 (fileStem m.version) m.sha256 then
      .ok (readText (dir.contents.getD (fileStem m.version) ""))
    else serve dir candidates

def getScript (scriptId : String) (version : Option String) : Except ScriptError String :=
  if (safeName? scriptId).isNone then .error .valueError
  else
    let dir := dirOf cache scriptId
    let metas := dir.iterMetas
    if metas = [] then .error .miss
    else match version with
      | none => dir.serve sha256 metas
      | some version =>
        let pinned := metas.filter (·.version = version)
        if pinned = [] then .error .versionMismatch
        else dir.serve sha256 (pinned ++ metas.filter (·.version ≠ version))

/-- A call that raises changes nothing. -/
def storeStep : ScriptCache :=
  match storeScript sha256 cache call with
  | .ok cache => cache
  | .error _ => cache

/-! ## What is asked of it -/

def lastText (calls : List StoreCall) (scriptId version : String) : Option String :=
  (calls.reverse.find? fun call => call.scriptId = scriptId ∧ call.version = version).map (·.content)

def lastCall (calls : List StoreCall) (scriptId : String) : Option StoreCall :=
  calls.reverse.find? (·.scriptId = scriptId)

/-- Every other version of the directory is older than the one with these files. -/
def ScriptDir.Newest (name : Name) : Prop :=
  ∀ m ∈ dir.metas.get? name, ∀ e ∈ dir.metas.entries, e.1 = name ∨ e.2.key < m.key

/-- Its own files, no carriage return, its own hash, a clock that does not go back, and no old text stored again. -/
structure Regular : Prop where
  own : ∀ m ∈ (dirOf cache call.scriptId).metas.get? (fileStem call.version), m.version = call.version
  lines : '\r' ∉ call.content.toList
  hash : ∀ text ∈ (dirOf cache call.scriptId).contents.get? (fileStem call.version),
    sha256 text = sha256 call.content → text = call.content
  clock : ∀ m ∈ (dirOf cache call.scriptId).metas.values, m.storedAt ≤ call.now
  again : (dirOf cache call.scriptId).unchanged sha256 call = true →
    (dirOf cache call.scriptId).Newest (fileStem call.version)

end Code

/-! ## Reading -/

theorem universalNewlines_eq_self {text : List Char} (h : '\r' ∉ text) : universalNewlines text = text := by
  induction text using universalNewlines.induct with
  | case1 => rfl
  | case2 cs ih => exact absurd mem_cons_self h
  | case3 cs _ ih => exact absurd mem_cons_self h
  | case4 c cs hne _ ih =>
    rw [universalNewlines, ih fun hmem => h (mem_cons_of_mem c hmem)]
    all_goals assumption

theorem readText_eq_self {content : String} (h : '\r' ∉ content.toList) : readText content = content := by
  rw [readText, universalNewlines_eq_self h, String.ofList_toList]

theorem mem_iterMetas {dir : ScriptDir} {m : Meta} : m ∈ dir.iterMetas ↔ m ∈ dir.metas.values :=
  (perm_insertionSort _ _).mem_iff

theorem iterMetas_newest {dir : ScriptDir} {name : Name} {m : Meta} (hm : dir.metas.get? name = some m)
    (h : dir.Newest name) : ∃ rest, dir.iterMetas = m :: rest := by
  have hmem : m ∈ dir.iterMetas := mem_iterMetas.mpr (Dict.mem_values.mpr ⟨name, hm⟩)
  have hsorted : dir.iterMetas.Pairwise fun a b => b.key ≤ a.key :=
    pairwise_insertionSort (fun a b : Meta => b.key ≤ a.key) _
  cases hlist : dir.iterMetas with
  | nil =>
    rw [hlist] at hmem
    cases hmem
  | cons first rest =>
    refine ⟨rest, ?_⟩
    rw [hlist] at hmem hsorted
    rcases mem_cons.mp hmem with rfl | hrest
    · rfl
    · have hle : m.key ≤ first.key := (pairwise_cons.mp hsorted).1 m hrest
      have hfirst : first ∈ dir.metas.values := mem_iterMetas.mp (hlist ▸ mem_cons_self)
      obtain ⟨name', hname'⟩ := Dict.mem_values.mp hfirst
      rcases h m hm (name', first) ((Dict.get?_eq_some_iff _ _ _).mp hname') with heq | hlt
      · cases heq
        cases hm.symm.trans hname'
        rfl
      · exact absurd hle (not_le.mpr hlt)

section Serve

variable {sha256 : String → String} {dir : ScriptDir} {m : Meta}

theorem not_isNone {α : Type} {o : Option α} (h : o.isSome) : ¬ o.isNone := by
  simpa using isSome_iff_ne_none.mp h

theorem serve_intact {candidates : List Meta} {text : String} (hsafe : (safeName? m.version).isSome)
    (htext : dir.contents.get? (fileStem m.version) = some text) (hhash : m.sha256 = sha256 text)
    (hlines : '\r' ∉ text.toList) : dir.serve sha256 (m :: candidates) = .ok text := by
  have hverify : dir.verify sha256 (fileStem m.version) m.sha256 = true := by
    simp [ScriptDir.verify, htext, hhash]
  rw [ScriptDir.serve, if_neg (not_isNone hsafe), if_pos hverify, Dict.getD, htext, getD_some, readText_eq_self hlines]

theorem getScript_pin (sha256 : String → String) {cache : ScriptCache} {scriptId : String}
    (hdir : dirOf cache scriptId = dir) (hsafe : (safeName? scriptId).isSome) (hm : m ∈ dir.iterMetas)
    (hunique : ∀ m' ∈ dir.iterMetas, m'.version = m.version → m' = m) :
    ∃ rest, (∀ m' ∈ rest, m' = m) ∧ getScript sha256 cache scriptId (some m.version) =
      dir.serve sha256 ((m :: rest) ++ dir.iterMetas.filter (·.version ≠ m.version)) := by
  have hpinned : m ∈ dir.iterMetas.filter (·.version = m.version) := mem_filter.mpr ⟨hm, by simp⟩
  have hall : ∀ m' ∈ dir.iterMetas.filter (·.version = m.version), m' = m := by
    intro m' hm'
    obtain ⟨hmem, hversion⟩ := mem_filter.mp hm'
    exact hunique m' hmem (of_decide_eq_true hversion)
  rw [getScript, if_neg (not_isNone hsafe), hdir]
  dsimp only
  rw [if_neg (ne_nil_of_mem hm), if_neg (ne_nil_of_mem hpinned)]
  cases hlist : dir.iterMetas.filter (·.version = m.version) with
  | nil =>
    rw [hlist] at hpinned
    cases hpinned
  | cons first rest =>
    rw [hlist, forall_mem_cons] at hall
    obtain ⟨rfl, hrest⟩ := hall
    exact ⟨rest, hrest, rfl⟩

end Serve

/-! ## The last calls -/

section Last

variable {calls : List StoreCall} {call : StoreCall} {scriptId version : String}

theorem lastText_snoc : lastText (calls ++ [call]) scriptId version =
    if call.scriptId = scriptId ∧ call.version = version then some call.content else lastText calls scriptId version := by
  rw [lastText, reverse_append, reverse_singleton, singleton_append, find?_cons]
  by_cases h : call.scriptId = scriptId ∧ call.version = version
  · simp [h]
  · simp [h, lastText]

theorem lastCall_snoc : lastCall (calls ++ [call]) scriptId =
    if call.scriptId = scriptId then some call else lastCall calls scriptId := by
  rw [lastCall, reverse_append, reverse_singleton, singleton_append, find?_cons]
  by_cases h : call.scriptId = scriptId
  · simp [h]
  · simp [h, lastCall]

theorem lastText_of_lastCall (h : lastCall calls scriptId = some call) :
    lastText calls scriptId call.version = some call.content := by
  induction calls using List.reverseRecOn with
  | nil => cases h
  | append_singleton calls last ih =>
    rw [lastCall_snoc] at h
    rw [lastText_snoc]
    split at h
    · next hid =>
      cases h
      rw [if_pos ⟨hid, rfl⟩]
    · next hid => rw [if_neg fun hboth => hid hboth.1, ih h]

end Last

/-! ## The directory of a script along the calls -/

section Tracks

variable {sha256 : String → String}

/-- The last text of every version, the last stored of which is the newest. -/
structure Tracks (sha256 : String → String) (calls : List StoreCall) (scriptId : String) (dir : ScriptDir) : Prop where
  stored : ∀ version text, lastText calls scriptId version = some text →
    ∃ m, dir.metas.get? (fileStem version) = some m ∧ m.version = version ∧ m.sha256 = sha256 text ∧
      dir.contents.get? (fileStem version) = some text ∧ '\r' ∉ text.toList ∧ (safeName? version).isSome
  placed : ∀ name m, dir.metas.get? name = some m → name = fileStem m.version
  newest : ∀ call, lastCall calls scriptId = some call → dir.Newest (fileStem call.version)

theorem tracks_nil (scriptId : String) : Tracks sha256 [] scriptId .empty :=
  ⟨fun _ _ => (nomatch ·), fun _ _ => (nomatch ·), fun _ => (nomatch ·)⟩

variable {calls : List StoreCall} {call : StoreCall} {cache : ScriptCache} {scriptId : String} {dir : ScriptDir}

theorem seq_lt_nextSeq {m : Meta} (h : m ∈ dir.metas.values) : m.seq < dir.nextSeq := by
  rw [ScriptDir.nextSeq]
  generalize dir.metas.values = metas at h
  induction metas with
  | nil => cases h
  | cons first metas ih =>
    rw [map_cons, foldr_cons]
    rcases mem_cons.mp h with rfl | hmem
    · exact Nat.lt_of_succ_le (le_max_left _ _)
    · exact lt_of_lt_of_le (ih hmem) (le_max_right _ _)

theorem dirOf_storeStep (cache : ScriptCache) (call : StoreCall) (h : call.accepted sha256 = true) (scriptId : String) :
    dirOf (storeStep sha256 cache call) scriptId =
      if scriptId = call.scriptId ∧ (dirOf cache call.scriptId).unchanged sha256 call = false then
        ((dirOf cache call.scriptId).replaceContent call).replaceMeta sha256 call
      else dirOf cache scriptId := by
  rw [storeStep, storeScript, if_pos h]
  cases hsame : (dirOf cache call.scriptId).unchanged sha256 call with
  | true => simp [hsame]
  | false =>
    simp only [hsame, Bool.false_eq_true, if_false, and_true]
    rw [dirOf, Dict.getD, Dict.get?_set]
    by_cases hid : scriptId = call.scriptId
    · rw [if_pos hid, if_pos (by rw [hid]), getD_some]
    · rw [if_neg hid, if_neg fun hquote => hid (quote_injective hquote)]
      rfl

theorem unchanged_iff : dir.unchanged sha256 call = true ↔ ∃ m text,
    dir.metas.get? (fileStem call.version) = some m ∧ m.sha256 = sha256 call.content ∧
      dir.contents.get? (fileStem call.version) = some text ∧ sha256 text = sha256 call.content := by
  rw [ScriptDir.unchanged, ScriptDir.verify]
  cases dir.metas.get? (fileStem call.version) with
  | none => simp
  | some m =>
    cases dir.contents.get? (fileStem call.version) with
    | none => simp
    | some text => simp

theorem accepted_version (h : call.accepted sha256 = true) : (safeName? call.version).isSome := by
  simp only [StoreCall.accepted, Bool.and_eq_true] at h
  exact h.1.2

theorem accepted_scriptId (h : call.accepted sha256 = true) : (safeName? call.scriptId).isSome := by
  simp only [StoreCall.accepted, Bool.and_eq_true] at h
  exact h.1.1

theorem Tracks.other (h : Tracks sha256 calls scriptId dir) (hid : call.scriptId ≠ scriptId) :
    Tracks sha256 (calls ++ [call]) scriptId dir where
  stored version text htext := by
    rw [lastText_snoc, if_neg fun hboth => hid hboth.1] at htext
    exact h.stored version text htext
  placed := h.placed
  newest last hlast := by
    rw [lastCall_snoc, if_neg hid] at hlast
    exact h.newest last hlast

section

variable (h : Tracks sha256 calls call.scriptId (dirOf cache call.scriptId)) (hregular : Regular sha256 cache call)
  (haccepted : call.accepted sha256 = true)

include h hregular haccepted

theorem Tracks.again (hsame : (dirOf cache call.scriptId).unchanged sha256 call = true) :
    Tracks sha256 (calls ++ [call]) call.scriptId (dirOf cache call.scriptId) where
  stored version text htext := by
    rw [lastText_snoc] at htext
    split at htext
    · next hcall =>
      obtain ⟨-, rfl⟩ := hcall
      cases htext
      obtain ⟨m, text, hm, hhash, htext, htextHash⟩ := unchanged_iff.mp hsame
      obtain rfl := hregular.hash text htext htextHash
      exact ⟨m, hm, hregular.own m hm, hhash, htext, hregular.lines, accepted_version haccepted⟩
    · exact h.stored version text htext
  placed := h.placed
  newest last hlast := by
    rw [lastCall_snoc, if_pos rfl] at hlast
    cases hlast
    exact hregular.again hsame

theorem Tracks.write : Tracks sha256 (calls ++ [call]) call.scriptId
      (((dirOf cache call.scriptId).replaceContent call).replaceMeta sha256 call) where
  stored version text htext := by
    rw [lastText_snoc] at htext
    split at htext
    · next hcall =>
      obtain ⟨-, rfl⟩ := hcall
      cases htext
      exact ⟨_, Dict.get?_set_self .., rfl, rfl, Dict.get?_set_self .., hregular.lines, accepted_version haccepted⟩
    · next hcall =>
      obtain ⟨m, hm, hversion, hhash, hcontent, hlines, hsafe⟩ := h.stored version text htext
      -- Another version has other files, or the call would not be regular.
      have hname : fileStem version ≠ fileStem call.version := by
        intro hname
        rw [hname] at hm
        exact hcall ⟨rfl, (hregular.own m hm).symm.trans hversion⟩
      exact ⟨m, (Dict.get?_set_of_ne _ _ hname).trans hm, hversion, hhash,
        (Dict.get?_set_of_ne _ _ hname).trans hcontent, hlines, hsafe⟩
  placed name m hm := by
    change (Dict.set _ _ _).get? name = some m at hm
    rw [Dict.get?_set] at hm
    split at hm
    · next hname =>
      cases hm
      exact hname
    · exact h.placed name m hm
  newest last hlast := by
    rw [lastCall_snoc, if_pos rfl] at hlast
    cases hlast
    intro m hm e he
    cases (Dict.get?_set_self ..).symm.trans hm
    by_cases hname : e.1 = fileStem call.version
    · exact .inl hname
    · have hold : (dirOf cache call.scriptId).metas.get? e.1 = some e.2 := by
        rw [← Dict.get?_set_of_ne _ _ hname]
        exact (Dict.get?_eq_some_iff _ _ _).mpr he
      have hmem := Dict.mem_values.mpr ⟨e.1, hold⟩
      refine .inr (Prod.Lex.toLex_lt_toLex.mpr ?_)
      rcases lt_or_eq_of_le (hregular.clock e.2 hmem) with hlt | heq
      · exact .inl hlt
      · exact .inr ⟨heq, seq_lt_nextSeq hmem⟩

end

theorem Tracks.step (h : Tracks sha256 calls scriptId (dirOf cache scriptId)) (hregular : Regular sha256 cache call)
    (haccepted : call.accepted sha256 = true) :
    Tracks sha256 (calls ++ [call]) scriptId (dirOf (storeStep sha256 cache call) scriptId) := by
  rw [dirOf_storeStep cache call haccepted]
  by_cases hid : scriptId = call.scriptId
  · subst hid
    cases hsame : (dirOf cache call.scriptId).unchanged sha256 call with
    | true =>
      rw [if_neg (by simp)]
      exact h.again hregular haccepted hsame
    | false =>
      rw [if_pos ⟨rfl, rfl⟩]
      exact h.write hregular haccepted
  · rw [if_neg fun hboth => hid hboth.1]
    exact h.other (Ne.symm hid)

theorem tracks_run (haccepted : ∀ call ∈ calls, call.accepted sha256 = true)
    (h : Runs.Meets (storeStep sha256) (Regular sha256) ∅ calls) (scriptId : String) :
    Tracks sha256 calls scriptId (dirOf (Runs.run (storeStep sha256) ∅ calls) scriptId) := by
  induction calls using List.reverseRecOn with
  | nil => exact tracks_nil scriptId
  | append_singleton calls call ih =>
    obtain ⟨hbefore, hcall, _⟩ := Runs.meets_append.mp h
    rw [forall_mem_append, forall_mem_singleton] at haccepted
    rw [Runs.run, foldl_append]
    exact (ih haccepted.1 hbefore).step hcall haccepted.2

/-! ## What is read back -/

section

variable (h : Tracks sha256 calls scriptId (dirOf cache scriptId)) (hsafe : (safeName? scriptId).isSome)

include h hsafe

theorem Tracks.getScript_version {version text : String} (htext : lastText calls scriptId version = some text) :
    getScript sha256 cache scriptId (some version) = .ok text := by
  obtain ⟨m, hm, hversion, hhash, hcontent, hlines, hversionSafe⟩ := h.stored version text htext
  have hmem : m ∈ (dirOf cache scriptId).iterMetas := mem_iterMetas.mpr (Dict.mem_values.mpr ⟨_, hm⟩)
  subst hversion
  -- Whatever has this version has its file name.
  have hunique : ∀ m' ∈ (dirOf cache scriptId).iterMetas, m'.version = m.version → m' = m := by
    intro m' hmem' hversion'
    obtain ⟨name, hname⟩ := Dict.mem_values.mp (mem_iterMetas.mp hmem')
    rw [h.placed name m' hname, hversion', hm] at hname
    exact (some.inj hname).symm
  obtain ⟨rest, -, hget⟩ := getScript_pin sha256 rfl hsafe hmem hunique
  rw [hget]
  exact serve_intact hversionSafe hcontent hhash hlines

theorem Tracks.getScript_latest (hcall : lastCall calls scriptId = some call) :
    getScript sha256 cache scriptId none = .ok call.content := by
  obtain ⟨m, hm, hversion, hhash, hcontent, hlines, hversionSafe⟩ := h.stored _ _ (lastText_of_lastCall hcall)
  obtain ⟨rest, hrest⟩ := iterMetas_newest hm (h.newest call hcall)
  rw [getScript, if_neg (not_isNone hsafe)]
  dsimp only
  rw [if_neg (by rw [hrest]; exact cons_ne_nil _ _), hrest]
  rw [← hversion] at hcontent hversionSafe
  exact serve_intact hversionSafe hcontent hhash hlines

end

theorem safe_of_lastText (haccepted : ∀ call ∈ calls, call.accepted sha256 = true) {version text : String}
    (h : lastText calls scriptId version = some text) : (safeName? scriptId).isSome := by
  obtain ⟨call, hcall, _⟩ := map_eq_some_iff.mp h
  have hmatch := find?_some hcall
  simp only [decide_eq_true_eq] at hmatch
  rw [← hmatch.1]
  exact accepted_scriptId (haccepted call (mem_reverse.mp (mem_of_find?_eq_some hcall)))

end Tracks

/-- After regular calls every version has its last text, and the script the text stored last. -/
theorem versions_independent (sha256 : String → String) (calls : List StoreCall)
    (haccepted : ∀ call ∈ calls, call.accepted sha256 = true)
    (h : Runs.Meets (storeStep sha256) (Regular sha256) ∅ calls) :
    (∀ scriptId version text, lastText calls scriptId version = some text →
      getScript sha256 (Runs.run (storeStep sha256) ∅ calls) scriptId (some version) = .ok text) ∧
    ∀ scriptId call, lastCall calls scriptId = some call →
      getScript sha256 (Runs.run (storeStep sha256) ∅ calls) scriptId none = .ok call.content := by
  constructor
  · intro scriptId version text htext
    exact (tracks_run haccepted h scriptId).getScript_version (safe_of_lastText haccepted htext) htext
  · intro scriptId call hcall
    have hsafe := safe_of_lastText haccepted (lastText_of_lastCall hcall)
    exact (tracks_run haccepted h scriptId).getScript_latest hsafe hcall

/-! ## Versions of one script -/

def storeOf (version content : String) (now : Rat) : StoreCall := ⟨"s", version, content, none, now⟩

theorem versions_independent_major :
    getScript id (Runs.run (storeStep id) ∅ [storeOf "1" "a" 0, storeOf "2" "b" 1]) "s" (some "1") = .ok "a" ∧
    getScript id (Runs.run (storeStep id) ∅ [storeOf "1" "a" 0, storeOf "2" "b" 1]) "s" none = .ok "b" := by
  have h := versions_independent id [storeOf "1" "a" 0, storeOf "2" "b" 1] (by decide)
    ⟨⟨by decide, by decide, by decide, by decide, fun hsame => absurd hsame (by decide)⟩,
      ⟨by decide, by decide, by decide, by decide, fun hsame => absurd hsame (by decide)⟩, trivial⟩
  exact ⟨h.1 "s" "1" "a" (by decide), h.2 "s" (storeOf "2" "b" 1) (by decide)⟩

/-- Shared files, carriage returns, and a text that is stored again. -/
theorem versions_not_independent :
    getScript id (Runs.run (storeStep id) ∅ [storeOf "1.0.1" "a" 0, storeOf "1.0.2" "b" 1]) "s" (some "1.0.1") =
      .error .versionMismatch ∧
    getScript id (Runs.run (storeStep id) ∅ [storeOf "1" "a\r\n" 0]) "s" (some "1") = .ok "a\n" ∧
    getScript id (Runs.run (storeStep id) ∅ [storeOf "1" "a" 0, storeOf "2" "b" 1, storeOf "1" "a" 2]) "s" none =
      .ok "b" ∧
    getScript id (Runs.run (storeStep id) ∅ [storeOf "1" "a" 1, storeOf "2" "b" 0]) "s" none = .ok "a" := by
  decide

end AteStudio.Offline
