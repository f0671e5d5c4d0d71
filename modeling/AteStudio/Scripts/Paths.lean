import AteStudio.Lib.Dict
import AteStudio.Lib.Except
import AteStudio.Lib.Path

/-! # Paths of scripts (`ate_cloud/services/script_versioning.py`) -/

namespace AteStudio.Scripts

open AteStudio.Path

inductive Failure where
  | http (status : Nat) (detail : String)
  | runtimeError
  | valueError
  | osError
deriving DecidableEq

structure Commit where
  path : List Char
  content : String
  message : List Char
deriving DecidableEq

/-- The machine the service runs on. A loop of links takes more than `fuel` of them. -/
structure Host where
  cwd : Place
  links : Place → Option PurePath
  fuel : Nat
  isDir : Place → Bool
  stages : List Char → Bool
  log : List Char → List Commit → List Commit

def Segment.hasNull : Segment → Bool
  | .parent => false
  | .name n => '\x00' ∈ n.chars

/-- `Path.resolve` raises at a null byte and at a loop of links. -/
def Host.resolve (host : Host) (path : PurePath) : Except Failure Place :=
  if path.segments.any Segment.hasNull then .error .valueError
  else
    match Path.resolve host.links host.fuel host.cwd path with
    | none => .error .runtimeError
    | some place => .ok place

def posix (scriptPath : String) : List Char := scriptPath.toList.map fun c => if c = '\\' then '/' else c

/-- The files of the machine and the history of the repository, latest commit last. -/
structure Disk where
  files : Dict Place String := ∅
  commits : List Commit := []

structure Outcome (α : Type) where
  result : Except Failure α
  disk : Disk
  touched : List Place

section Service

variable (host : Host) (scriptsRoot : String) (disk : Disk) (scriptPath : String)

def rootPath : PurePath := .parse scriptsRoot.toList

def requested : PurePath := (rootPath scriptsRoot).join (.parse (posix scriptPath))

def resolvePath : Except Failure Place := do
  let resolved ← host.resolve (requested scriptsRoot scriptPath)
  let root ← host.resolve (rootPath scriptsRoot)
  if text root <+: text resolved then pure resolved
  else throw (.http 404 "Script path not found")

def withPath {α : Type} (act : Place → Outcome α) : Outcome α :=
  match resolvePath host scriptsRoot scriptPath with
  | .error e => ⟨.error e, disk, []⟩
  | .ok resolved => act resolved

def notFound : Failure := .http 404 ("Script file not found: " ++ scriptPath)

def readContent : Outcome String :=
  withPath host scriptsRoot disk scriptPath fun resolved =>
    match disk.files.get? resolved with
    | none => ⟨.error (notFound scriptPath), disk, [resolved]⟩
    | some content => ⟨.ok content, disk, [resolved]⟩

/-- A path that cannot be staged raises after the file has been written. -/
def writeContent (content : String) (message : Option String) : Outcome Commit :=
  withPath host scriptsRoot disk scriptPath fun resolved =>
    if host.isDir resolved then ⟨.error .osError, disk, [resolved]⟩
    else
      let disk := { disk with files := disk.files.set resolved content }
      if host.stages (posix scriptPath) then
        let commit : Commit :=
          { path := posix scriptPath
            content
            message := (message.map (·.toList)).getD ("Update ".toList ++ posix scriptPath) }
        ⟨.ok commit, { disk with commits := disk.commits ++ [commit] }, [resolved]⟩
      else ⟨.error .valueError, disk, [resolved]⟩

def listVersions : Outcome (List Commit) :=
  withPath host scriptsRoot disk scriptPath fun resolved =>
    if disk.files.contains resolved then
      ⟨.ok (host.log (posix scriptPath) disk.commits), disk, [resolved]⟩
    else ⟨.error (notFound scriptPath), disk, [resolved]⟩

end Service

/-! ## Containment -/

section Contained

variable (host : Host) (scriptsRoot : String)

def InRoot (place : Place) : Prop := ∃ root, host.resolve (rootPath scriptsRoot) = .ok root ∧ root <+: place

/-- No operation on the path returns or touches a file outside the root. -/
structure Contained (disk : Disk) (scriptPath : String) : Prop where
  resolved : ∀ place, resolvePath host scriptsRoot scriptPath = .ok place → InRoot host scriptsRoot place
  read : ∀ place ∈ (readContent host scriptsRoot disk scriptPath).touched, InRoot host scriptsRoot place
  write : ∀ content message, ∀ place ∈ (writeContent host scriptsRoot disk scriptPath content message).touched,
    InRoot host scriptsRoot place
  versions : ∀ place ∈ (listVersions host scriptsRoot disk scriptPath).touched, InRoot host scriptsRoot place

/-- The path leads beside the root, to a longer name that starts with the root's. -/
def LeadsBeside (scriptPath : String) : Prop :=
  ∃ root place, host.resolve (rootPath scriptsRoot) = .ok root ∧
    host.resolve (requested scriptsRoot scriptPath) = .ok place ∧ Beside root place

variable {host scriptsRoot} {place : Place}

theorem resolvePath_eq_ok_iff {scriptPath : String} :
    resolvePath host scriptsRoot scriptPath = .ok place ↔
      host.resolve (requested scriptsRoot scriptPath) = .ok place ∧
        ∃ root, host.resolve (rootPath scriptsRoot) = .ok root ∧ (root <+: place ∨ Beside root place) := by
  simp only [resolvePath, bind_eq_ok, ← text_prefix_iff]
  constructor
  · rintro ⟨resolved, hresolved, root, hroot, h⟩
    split at h
    · cases h
      exact ⟨hresolved, root, hroot, ‹_›⟩
    · cases h
  · rintro ⟨hresolved, root, hroot, h⟩
    exact ⟨place, hresolved, root, hroot, by rw [if_pos h]; rfl⟩

theorem not_beside_of_prefix {root : Place} (h : root <+: place) : ¬ Beside root place := by
  rintro ⟨dir, n, m, rest, rfl, rfl, hne, -⟩
  rw [List.prefix_append_right_inj, List.cons_prefix_cons] at h
  exact hne h.1

theorem forall_inRoot_iff (scriptPath : String) :
    (∀ place, resolvePath host scriptsRoot scriptPath = .ok place → InRoot host scriptsRoot place) ↔
      ¬ LeadsBeside host scriptsRoot scriptPath := by
  constructor
  · rintro h ⟨root, place, hroot, hplace, hbeside⟩
    obtain ⟨root', hroot', hpre⟩ := h place (resolvePath_eq_ok_iff.mpr ⟨hplace, root, hroot, Or.inr hbeside⟩)
    cases hroot.symm.trans hroot'
    exact not_beside_of_prefix hpre hbeside
  · intro h place hplace
    obtain ⟨hresolved, root, hroot, hpre | hbeside⟩ := resolvePath_eq_ok_iff.mp hplace
    · exact ⟨root, hroot, hpre⟩
    · exact absurd ⟨root, place, hroot, hresolved, hbeside⟩ h

theorem withPath_touched {α : Type} {disk : Disk} {scriptPath : String} {act : Place → Outcome α}
    (hact : ∀ place, (act place).touched = [place])
    (h : place ∈ (withPath host scriptsRoot disk scriptPath act).touched) :
    resolvePath host scriptsRoot scriptPath = .ok place := by
  unfold withPath at h
  split at h
  · cases h
  · rw [hact, List.mem_singleton] at h
    rw [h]
    assumption

theorem contained_iff (host : Host) (scriptsRoot : String) (disk : Disk) (scriptPath : String) :
    Contained host scriptsRoot disk scriptPath ↔ ¬ LeadsBeside host scriptsRoot scriptPath := by
  rw [← forall_inRoot_iff]
  refine ⟨Contained.resolved, fun h => ⟨h, ?_, ?_, ?_⟩⟩
  · intro place hplace
    refine h place (withPath_touched (fun resolved => ?_) hplace)
    split <;> rfl
  · intro content message place hplace
    refine h place (withPath_touched (fun resolved => ?_) hplace)
    split
    · rfl
    · dsimp only
      split <;> rfl
  · intro place hplace
    refine h place (withPath_touched (fun resolved => ?_) hplace)
    split <;> rfl

def plainHost : Host where
  cwd := []
  links _ := none
  fuel := 0
  isDir _ := false
  stages _ := true
  log path commits := (commits.filter (·.path = path)).reverse

def srv : Name := ⟨"srv".toList, by decide, by decide, by decide, by decide⟩

def scripts : Name := ⟨"scripts".toList, by decide, by decide, by decide, by decide⟩

def scriptsOld : Name := ⟨"scripts-old".toList, by decide, by decide, by decide, by decide⟩

def keyFile : Name := ⟨"key.py".toList, by decide, by decide, by decide, by decide⟩

/-- A directory beside the root shares the beginning of its name, and its files can be read. -/
theorem not_contained_scriptsOld :
    resolvePath plainHost "/srv/scripts" "../scripts-old/key.py" = .ok [srv, scriptsOld, keyFile] ∧
      ¬ Contained plainHost "/srv/scripts" {} "../scripts-old/key.py" := by
  have hresolved : resolvePath plainHost "/srv/scripts" "../scripts-old/key.py" = .ok [srv, scriptsOld, keyFile] := by
    decide +kernel
  refine ⟨hresolved, fun h => ?_⟩
  obtain ⟨root, hroot, hpre⟩ := h.resolved _ hresolved
  have hscripts : plainHost.resolve (rootPath "/srv/scripts") = .ok [srv, scripts] := by decide +kernel
  cases hscripts.symm.trans hroot
  revert hpre
  decide +kernel

end Contained

end AteStudio.Scripts
