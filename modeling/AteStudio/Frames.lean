import AteStudio.Lib.Bytes
import AteStudio.Lib.Dict
import AteStudio.Lib.Except

/-! # Frames of the mock devices (`drivers/mock/tcp_protocol.py`) -/

namespace AteStudio.Frames

open AteStudio.Bytes List

inductive Role where
  | addr
  | cmd
  | len
  | data
  | checksum
deriving DecidableEq

structure FieldSpec where
  name : Role
  size : Nat := 1
  endian : Endian := .big

inductive Algorithm where
  | sum
  | xor

inductive LayoutError where
  | missing (roles : List Role)
  | duplicated (roles : List Role)
  | size (role : Option Role)
  | late (roles : List Role)
  | checksumBeforeData
  | premature (roles : List Role)

def allRoles : List Role := [.addr, .cmd, .len, .data, .checksum]

/-- `_validate_layout`. Nothing when the layout is accepted. -/
def validateLayout (fields : List FieldSpec) (coverage : List Role) : Option LayoutError :=
  let names := fields.map (·.name)
  let missing := allRoles.filter (names.count · = 0)
  let duplicated := [Role.addr, .checksum, .cmd, .data, .len].filter (1 < names.count ·)
  let small := fields.filter fun f => f.name ≠ .data ∧ f.size < 1
  let late := coverage.filter (names.idxOf .checksum < names.idxOf ·)
  let premature := names.filter fun name =>
    name ≠ .data ∧ name ≠ .checksum ∧ names.idxOf .data < names.idxOf name
  if missing ≠ [] then some (.missing missing)
  else if duplicated ≠ [] then some (.duplicated duplicated)
  else if small ≠ [] then some (.size (small.head?.map (·.name)))
  else if late ≠ [] then some (.late late)
  else if names.idxOf .checksum < names.idxOf .data then some .checksumBeforeData
  else if premature ≠ [] then some (.premature premature)
  else none

/-- What the validator accepts. -/
structure FrameSpec where
  head : List UInt8
  fields : List FieldSpec
  algorithm : Algorithm := .sum
  coverage : List Role := [.addr, .cmd, .len, .data]
  maxDataLen : Nat := 256
  head_length : 1 ≤ head.length ∧ head.length ≤ 4
  coverage_ne : coverage ≠ []
  limit : 1 ≤ maxDataLen ∧ maxDataLen ≤ 65535
  layout : validateLayout fields coverage = none

structure DecodedFrame where
  addr : Nat
  cmd : Nat
  data : List UInt8

namespace FrameSpec

variable (spec : FrameSpec)

def field? (role : Role) : Option FieldSpec := spec.fields.find? (·.name = role)

def fixedPrefix : Nat :=
  spec.head.length + ((spec.fields.takeWhile (·.name ≠ .data)).map (·.size)).sum

/-- Nothing for a role that has no part yet. -/
def computeChecksum (parts : Role → Option (List UInt8)) : Option Nat :=
  (spec.coverage.mapM parts).map fun blob =>
    match spec.algorithm with
    | .sum => (blob.flatten.map UInt8.toNat).sum % 256
    | .xor => (blob.flatten.foldl (· ^^^ ·) 0).toNat

def encodeField (role : Role) (value : Nat) : Option (List UInt8) :=
  (spec.field? role).bind fun f => toBytes f.size f.endian value

def partsOf (addr cmd len data : List UInt8) (checksum : Option (List UInt8)) : Role → Option (List UInt8)
  | .addr => some addr
  | .cmd => some cmd
  | .len => some len
  | .data => some data
  | .checksum => checksum

/-- Nothing when it raises. -/
def encode (frame : DecodedFrame) : Option (List UInt8) := do
  let addr ← spec.encodeField .addr frame.addr
  let cmd ← spec.encodeField .cmd frame.cmd
  let len ← spec.encodeField .len frame.data.length
  let sum ← spec.computeChecksum (partsOf addr cmd len frame.data none)
  let checksum ← spec.encodeField .checksum sum
  let body ← (spec.fields.map (·.name)).mapM (partsOf addr cmd len frame.data (some checksum))
  return spec.head ++ body.flatten

def sliceFrom (pre : List UInt8) (role : Role) : Nat → List FieldSpec → Option (List UInt8)
  | _, [] => none
  | offset, f :: fields =>
    if f.name = .data then none
    else if f.name = role then some ((pre.drop offset).take f.size)
    else sliceFrom pre role (offset + f.size) fields

def slice (pre : List UInt8) (role : Role) : Option (List UInt8) :=
  sliceFrom pre role spec.head.length spec.fields

end FrameSpec

inductive DecodeError where
  | incompleteRead
  | keyError
  | malformed (code : Nat) (addr : Nat) (fatal : Bool) (discard : Nat) (resync : Bool)

def readExactly (n : Nat) (stream : List UInt8) : Except DecodeError (List UInt8 × List UInt8) :=
  if stream.length < n then .error .incompleteRead else .ok (stream.splitAt n)

def orKeyError {α : Type} : Option α → Except DecodeError α
  | some a => .ok a
  | none => .error .keyError

namespace FrameSpec

variable (spec : FrameSpec)

def decodeField (role : Role) (bs : List UInt8) : Except DecodeError Nat :=
  (orKeyError (spec.field? role)).map fun f => fromBytes bs f.endian

def decodeStream (stream : List UInt8) : Except DecodeError (DecodedFrame × List UInt8) := do
  let (pre, stream) ← readExactly spec.fixedPrefix stream
  if pre.take spec.head.length ≠ spec.head then throw (.malformed 0xE1 0 true 0 true)
  let addr ← orKeyError (spec.slice pre .addr)
  let cmd ← orKeyError (spec.slice pre .cmd)
  let len ← orKeyError (spec.slice pre .len)
  let declared ← spec.decodeField .len len
  let address ← spec.decodeField .addr addr
  let ck ← orKeyError (spec.field? .checksum)
  if spec.maxDataLen < declared then throw (.malformed 0xE4 address true (declared + ck.size) false)
  let (data, stream) ← readExactly declared stream
  let (raw, stream) ← readExactly ck.size stream
  let sum ← orKeyError (spec.computeChecksum (partsOf addr cmd len data none))
  let expected ← orKeyError (toBytes ck.size ck.endian sum)
  if raw ≠ expected then throw (.malformed 0xE2 address false 0 false)
  return (⟨address, ← spec.decodeField .cmd cmd, data⟩, stream)

def decodeTimes : Nat → List UInt8 → Except DecodeError (List DecodedFrame × List UInt8)
  | 0, stream => .ok ([], stream)
  | n + 1, stream => do
    let (frame, stream) ← spec.decodeStream stream
    let (frames, stream) ← decodeTimes n stream
    return (frame :: frames, stream)

/-- The frames can be encoded, and come back from the concatenation of their bytes, which is used up. -/
def RoundTrips (frames : List DecodedFrame) : Prop :=
  ∃ encoded, frames.mapM spec.encode = some encoded ∧
    spec.decodeTimes frames.length encoded.flatten = .ok (frames, [])

def Fits (role : Role) (value : Nat) : Prop := ∃ f ∈ spec.fields, f.name = role ∧ value < 256 ^ f.size

instance (role : Role) (value : Nat) : Decidable (spec.Fits role value) :=
  inferInstanceAs (Decidable (∃ f ∈ spec.fields, _))

/-! ## The layout -/

theorem roles_of_positions : ∀ names ∈ allRoles.permutations', ¬ names.idxOf .checksum < names.idxOf .data →
    (∀ name ∈ names, ¬ (name ≠ .data ∧ name ≠ .checksum ∧ names.idxOf .data < names.idxOf name)) →
    names.take 3 ~ [.addr, .cmd, .len] ∧ names.drop 3 = [.data, .checksum] := by
  decide +kernel

theorem layout_facts : spec.fields.map (·.name) ~ allRoles ∧ (∀ f ∈ spec.fields, f.name ≠ .data → 1 ≤ f.size) ∧
    (spec.fields.map (·.name)).take 3 ~ [.addr, .cmd, .len] ∧
    (spec.fields.map (·.name)).drop 3 = [.data, .checksum] := by
  have h := spec.layout
  simp only [validateLayout] at h
  split_ifs at h with hmissing hduplicated hsmall _ horder hpremature
  simp only [ne_eq, not_not, filter_eq_nil_iff, decide_eq_true_eq] at hmissing hduplicated hsmall hpremature
  have hperm : spec.fields.map (·.name) ~ allRoles := by
    refine perm_iff_count.mpr fun role => ?_
    have hrole := hmissing role (by cases role <;> decide)
    have honce := hduplicated role (by cases role <;> decide)
    have hall : allRoles.count role = 1 := by cases role <;> rfl
    omega
  exact ⟨hperm, fun f hf hdata => Nat.not_lt.mp fun hlt => hsmall f hf ⟨hdata, hlt⟩,
    roles_of_positions _ (mem_permutations'.mpr hperm) horder hpremature⟩

theorem exists_layout : ∃ pre d c, spec.fields = pre ++ [d, c] ∧ d.name = .data ∧ c.name = .checksum ∧
    pre.map (·.name) ~ [.addr, .cmd, .len] := by
  obtain ⟨-, -, hpre, hpost⟩ := spec.layout_facts
  rw [← map_take] at hpre
  rw [← map_drop] at hpost
  obtain ⟨d, rest, hdrop, hd, hrest⟩ := map_eq_cons_iff.mp hpost
  obtain ⟨c, rest, rfl, hc, hnil⟩ := map_eq_cons_iff.mp hrest
  obtain rfl := map_eq_nil_iff.mp hnil
  exact ⟨_, d, c, by rw [← hdrop, take_append_drop], hd, hc, hpre⟩

theorem field?_of_mem {f : FieldSpec} (h : f ∈ spec.fields) : spec.field? f.name = some f :=
  find?_of_mem (spec.layout_facts.1.nodup_iff.mpr (by decide)) h

/-! ## One frame -/

variable {spec} {role : Role} {v : Nat} {bs : List UInt8}

theorem decodeField_encodeField (h : spec.encodeField role v = some bs) : spec.decodeField role bs = .ok v := by
  obtain ⟨f, hf, hbytes⟩ := Option.bind_eq_some_iff.mp h
  rw [decodeField, hf]
  exact congrArg Except.ok (toBytes_spec hbytes).2

theorem length_encodeField {f : FieldSpec} (hf : f ∈ spec.fields) (h : spec.encodeField f.name v = some bs) :
    bs.length = f.size := by
  rw [encodeField, field?_of_mem spec hf] at h
  exact (toBytes_spec h).1

theorem encodeField_isSome_iff : (spec.encodeField role v).isSome ↔ spec.Fits role v := by
  obtain ⟨f, hf, rfl⟩ : ∃ f ∈ spec.fields, f.name = role :=
    mem_map.mp (spec.layout_facts.1.mem_iff.mpr (by cases role <;> decide))
  rw [encodeField, field?_of_mem spec hf, Option.bind_some, toBytes_isSome_iff]
  constructor
  · exact fun hv => ⟨f, hf, rfl, hv⟩
  · rintro ⟨g, hg, hname, hv⟩
    have heq := field?_of_mem spec hg
    rw [hname, field?_of_mem spec hf, Option.some.injEq] at heq
    exact heq ▸ hv

theorem exists_encodeField (h : spec.Fits role v) : ∃ bs, spec.encodeField role v = some bs :=
  Option.isSome_iff_exists.mp (encodeField_isSome_iff.mpr h)

theorem readExactly_append (a b : List UInt8) : readExactly a.length (a ++ b) = .ok (a, b) := by
  simp [readExactly]

theorem sliceFrom_flatten {part : Role → List UInt8} {before : List UInt8} {pre : List FieldSpec} (rest : List FieldSpec)
    (hrole : role ∈ pre.map (·.name)) (hdata : ∀ f ∈ pre, f.name ≠ .data)
    (hsize : ∀ f ∈ pre, (part f.name).length = f.size) :
    sliceFrom (before ++ (pre.map (part ·.name)).flatten) role before.length (pre ++ rest) = some (part role) := by
  induction pre generalizing before with
  | nil => cases hrole
  | cons f pre ih =>
    obtain ⟨hf, hpre⟩ := forall_mem_cons.mp hsize
    rw [cons_append, sliceFrom, if_neg (hdata f mem_cons_self)]
    split
    · rename_i hname
      simp [← hf, hname]
    · rename_i hname
      have hmem : role ∈ pre.map (·.name) := by simpa [Ne.symm hname] using hrole
      have hstep := @ih (before ++ part f.name) hmem (fun g hg => hdata g (mem_cons_of_mem _ hg)) hpre
      rw [length_append, hf] at hstep
      simpa using hstep

theorem length_prefix {part : Role → List UInt8} {pre rest : List FieldSpec} {d : FieldSpec}
    (hfields : spec.fields = pre ++ d :: rest) (hd : d.name = .data) (hdata : ∀ f ∈ pre, f.name ≠ .data)
    (hsize : ∀ f ∈ pre, (part f.name).length = f.size) :
    spec.fixedPrefix = (spec.head ++ (pre.map (part ·.name)).flatten).length := by
  have hwhile : spec.fields.takeWhile (·.name ≠ .data) = pre := by
    rw [hfields, takeWhile_append_of_pos (by simpa using hdata), takeWhile_cons_of_neg (by simp [hd]), append_nil]
  have hlengths : pre.map (length ∘ (part ·.name)) = pre.map (·.size) := map_congr_left hsize
  rw [fixedPrefix, hwhile, length_append, length_flatten, map_map, hlengths]

theorem decodeStream_encode {frame : DecodedFrame} (h : spec.encode frame = some bs)
    (hlimit : frame.data.length ≤ spec.maxDataLen) (rest : List UInt8) :
    spec.decodeStream (bs ++ rest) = .ok (frame, rest) := by
  simp only [encode, Option.bind_eq_bind, Option.bind_eq_some_iff, Option.pure_def, Option.some.injEq] at h
  obtain ⟨addr, haddr, cmd, hcmd, len, hlen, sum, hsum, checksum, hchecksum, body, hbody, rfl⟩ := h
  obtain ⟨pre, d, c, hfields, hd, hc, hpre⟩ := spec.exists_layout
  have hmem : ∀ f ∈ pre, f ∈ spec.fields := fun f hf => by rw [hfields]; exact mem_append_left _ hf
  have hroles : ∀ f ∈ pre, f.name = .addr ∨ f.name = .cmd ∨ f.name = .len := fun f hf => by
    simpa using hpre.mem_iff.mp (mem_map_of_mem hf)
  have hdata : ∀ f ∈ pre, f.name ≠ .data := fun f hf => by
    rcases hroles f hf with h | h | h <;> simp [h]
  have hlast : spec.field? .checksum = some c := hc ▸ field?_of_mem spec (by rw [hfields]; simp)
  set part : Role → List UInt8 := fun role => (partsOf addr cmd len frame.data (some checksum) role).getD []
  have hsize : ∀ f ∈ pre, (part f.name).length = f.size := by
    intro f hf
    rcases hroles f hf with h | h | h
    · exact h ▸ length_encodeField (hmem f hf) (h ▸ haddr)
    · exact h ▸ length_encodeField (hmem f hf) (h ▸ hcmd)
    · exact h ▸ length_encodeField (hmem f hf) (h ▸ hlen)
  have hslice (role : Role) (hrole : role ∈ [Role.addr, .cmd, .len]) :
      spec.slice (spec.head ++ (pre.map (part ·.name)).flatten) role = some (part role) := by
    rw [slice, hfields]
    exact sliceFrom_flatten _ (hpre.mem_iff.mpr hrole) hdata hsize
  have hbytes : spec.head ++ body.flatten ++ rest =
      (spec.head ++ (pre.map (part ·.name)).flatten) ++ (frame.data ++ (checksum ++ rest)) := by
    have hparts : partsOf addr cmd len frame.data (some checksum) = fun role => some (part role) := by
      funext role
      cases role <;> rfl
    have hmap : (spec.fields.map (·.name)).mapM (fun role => some (part role)) =
        some ((spec.fields.map (·.name)).map part) := mapM_pure
    rw [hparts, hmap, Option.some.injEq] at hbody
    subst hbody
    have hends : part .data = frame.data ∧ part .checksum = checksum := ⟨rfl, rfl⟩
    simp [hfields, hd, hc, hends, Function.comp_def]
  have hck : checksum.length = c.size := length_encodeField (by rw [hfields]; simp) (hc ▸ hchecksum)
  have hexpected : toBytes c.size c.endian sum = some checksum := by
    simpa [encodeField, hlast] using hchecksum
  have hprefix := length_prefix hfields hd hdata hsize
  have hhead : (spec.head ++ (pre.map (part ·.name)).flatten).take spec.head.length = spec.head := take_left
  have hraw : readExactly c.size (checksum ++ rest) = .ok (checksum, rest) := hck ▸ readExactly_append checksum rest
  have hsum' : spec.computeChecksum (partsOf (part .addr) (part .cmd) (part .len) frame.data none) = some sum := hsum
  have haddr' : spec.decodeField .addr (part .addr) = .ok frame.addr := decodeField_encodeField haddr
  have hcmd' : spec.decodeField .cmd (part .cmd) = .ok frame.cmd := decodeField_encodeField hcmd
  have hlen' : spec.decodeField .len (part .len) = .ok frame.data.length := decodeField_encodeField hlen
  simp only [decodeStream, hbytes, hprefix, readExactly_append, hhead, hslice, mem_cons, true_or, or_true, orKeyError,
    bind, Except.bind, ne_eq, not_true, if_false, hlen', haddr', hcmd', hlast, Nat.not_lt.mpr hlimit, hraw, hsum',
    hexpected]
  rfl

/-! ## Many frames -/

theorem decodeTimes_encode {frames : List DecodedFrame} {encoded : List (List UInt8)}
    (h : frames.mapM spec.encode = some encoded) (hlimit : ∀ f ∈ frames, f.data.length ≤ spec.maxDataLen) :
    spec.decodeTimes frames.length encoded.flatten = .ok (frames, []) := by
  induction frames generalizing encoded with
  | nil =>
    obtain rfl : encoded = [] := by simpa using h.symm
    rfl
  | cons f frames ih =>
    simp only [mapM_cons, Option.bind_eq_bind, Option.bind_eq_some_iff, Option.pure_def, Option.some.injEq] at h
    obtain ⟨bs, hbs, rest, hrest, rfl⟩ := h
    obtain ⟨hf, hframes⟩ := forall_mem_cons.mp hlimit
    simp only [length_cons, decodeTimes, flatten_cons, decodeStream_encode hbs hf, ih hrest hframes, bind, Except.bind]
    rfl

theorem computeChecksum_isSome_iff (addr cmd len data : List UInt8) :
    (spec.computeChecksum (partsOf addr cmd len data none)).isSome ↔ .checksum ∉ spec.coverage := by
  rw [computeChecksum, Option.isSome_map, mapM_isSome_iff]
  constructor
  · exact fun h hmem => Bool.false_ne_true (h _ hmem)
  · intro h role hrole
    cases role with
    | checksum => exact absurd hrole h
    | _ => rfl

theorem computeChecksum_lt {parts : Role → Option (List UInt8)} {sum : Nat} (h : spec.computeChecksum parts = some sum) :
    sum < 256 := by
  obtain ⟨blob, -, rfl⟩ := Option.map_eq_some_iff.mp h
  cases spec.algorithm with
  | sum => exact Nat.mod_lt _ (by decide)
  | xor => exact UInt8.toNat_lt _

theorem fits_checksum (h : v < 256) : spec.Fits .checksum v := by
  obtain ⟨pre, d, c, hfields, -, hc, -⟩ := spec.exists_layout
  have hmem : c ∈ spec.fields := by rw [hfields]; simp
  have hsize := spec.layout_facts.2.1 c hmem (by simp [hc])
  exact ⟨c, hmem, hc, h.trans_le (Nat.pow_le_pow_right (by decide : 0 < 256) hsize)⟩

theorem encode_isSome_iff {frame : DecodedFrame} (haddr : spec.Fits .addr frame.addr) (hcmd : spec.Fits .cmd frame.cmd) :
    (spec.encode frame).isSome ↔ .checksum ∉ spec.coverage ∧ spec.Fits .len frame.data.length := by
  obtain ⟨addr, haddr⟩ := exists_encodeField haddr
  obtain ⟨cmd, hcmd⟩ := exists_encodeField hcmd
  simp only [encode, haddr, hcmd, Option.bind_eq_bind, Option.bind_some]
  constructor
  · intro h
    obtain ⟨bs, h⟩ := Option.isSome_iff_exists.mp h
    obtain ⟨len, hlen, h⟩ := Option.bind_eq_some_iff.mp h
    obtain ⟨sum, hsum, -⟩ := Option.bind_eq_some_iff.mp h
    exact ⟨(computeChecksum_isSome_iff ..).mp (Option.isSome_of_eq_some hsum),
      encodeField_isSome_iff.mp (Option.isSome_of_eq_some hlen)⟩
  · rintro ⟨hcoverage, hfits⟩
    obtain ⟨len, hlen⟩ := exists_encodeField hfits
    obtain ⟨sum, hsum⟩ := Option.isSome_iff_exists.mp
      ((computeChecksum_isSome_iff addr cmd len frame.data).mpr hcoverage)
    have hfit : spec.Fits .checksum sum := fits_checksum (computeChecksum_lt hsum)
    obtain ⟨checksum, hchecksum⟩ := exists_encodeField hfit
    obtain ⟨body, hbody⟩ := Option.isSome_iff_exists.mp
      (mapM_isSome_iff (l := spec.fields.map (·.name)) (f := partsOf addr cmd len frame.data (some checksum)).mpr
        fun role _ => by cases role <;> rfl)
    simp only [hlen, hsum, hchecksum, hbody, Option.bind_some]
    rfl

/-- Frames that fit come back exactly when the checksum does not cover itself and their lengths fit, too. -/
theorem roundTrips_iff (spec : FrameSpec) (frames : List DecodedFrame)
    (h : ∀ f ∈ frames, spec.Fits .addr f.addr ∧ spec.Fits .cmd f.cmd ∧ f.data.length ≤ spec.maxDataLen) :
    spec.RoundTrips frames ↔
      frames = [] ∨ .checksum ∉ spec.coverage ∧ ∀ f ∈ frames, spec.Fits .len f.data.length := by
  have hencode : ∀ f ∈ frames, ((spec.encode f).isSome ↔ .checksum ∉ spec.coverage ∧ spec.Fits .len f.data.length) :=
    fun f hf => encode_isSome_iff (h f hf).1 (h f hf).2.1
  constructor
  · rintro ⟨encoded, hencoded, -⟩
    have hall := mapM_isSome_iff.mp (Option.isSome_of_eq_some hencoded)
    refine or_iff_not_imp_left.mpr fun hne => ⟨?_, fun f hf => ((hencode f hf).mp (hall f hf)).2⟩
    obtain ⟨f, hf⟩ := exists_mem_of_ne_nil frames hne
    exact ((hencode f hf).mp (hall f hf)).1
  · intro hgood
    have hall : ∀ f ∈ frames, (spec.encode f).isSome := by
      intro f hf
      rcases hgood with rfl | ⟨hcoverage, hfits⟩
      · cases hf
      · exact (hencode f hf).mpr ⟨hcoverage, hfits f hf⟩
    obtain ⟨encoded, hencoded⟩ := Option.isSome_iff_exists.mp (mapM_isSome_iff.mpr hall)
    exact ⟨encoded, hencoded, decodeTimes_encode hencoded fun f hf => (h f hf).2.2⟩

end FrameSpec

/-- The checksum covers the given roles. -/
def chroma (coverage : List Role) (coverage_ne : coverage ≠ [])
    (layout : validateLayout [⟨.addr, 1, .big⟩, ⟨.cmd, 1, .big⟩, ⟨.len, 1, .big⟩, ⟨.data, 0, .big⟩, ⟨.checksum, 1, .big⟩]
      coverage = none) : FrameSpec where
  head := [0xAA, 0x55]
  fields := _
  coverage
  head_length := by decide
  coverage_ne
  limit := by decide
  layout

def standard : FrameSpec := chroma [.addr, .cmd, .len, .data] (by decide) rfl

theorem roundTrips_standard : standard.RoundTrips [⟨1, 0x10, [0xAA, 0x55]⟩, ⟨2, 0x11, []⟩] :=
  (FrameSpec.roundTrips_iff standard _ (by decide)).mpr (.inr ⟨by decide, by decide⟩)

def selfCovering : FrameSpec := chroma [.data, .checksum] (by decide) rfl

/-- The second payload has 256 bytes, one more than its length field can say. -/
theorem not_roundTrips_selfCovering :
    ¬ selfCovering.RoundTrips [⟨1, 0x10, []⟩] ∧ ¬ standard.RoundTrips [⟨1, 0x10, replicate 256 0⟩] := by
  constructor
  · rintro ⟨encoded, hencoded, -⟩
    cases hencoded
  · rintro ⟨encoded, hencoded, -⟩
    have hsome := mapM_isSome_iff.mp (Option.isSome_of_eq_some hencoded) _ mem_cons_self
    have hfits := ((FrameSpec.encode_isSome_iff (by decide) (by decide)).mp hsome).2
    obtain ⟨f, hf, hname, hlt⟩ := hfits
    have hsize : ∀ f ∈ standard.fields, f.name = .len → f.size = 1 := by decide
    rw [hsize f hf hname, length_replicate] at hlt
    exact absurd hlt (by decide)

end AteStudio.Frames
