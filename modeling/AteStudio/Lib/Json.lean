import AteStudio.Lib.Dict

/-!
# JSON

What `json.dumps` and `json.loads` make of a Python object.
-/

namespace AteStudio.Json

open List Option Dict

/-- As far as `json` tells objects apart. A finite float is its exact value. -/
inductive Obj where
  | none
  | bool (b : Bool)
  | int (i : Int)
  | float (q : Rat)
  | str (s : String)
  | list (xs : List Obj)
  | tuple (xs : List Obj)
  | dict (kvs : List (Obj × Obj))
  | object (cls : String)

inductive Text where
  | null
  | bool (b : Bool)
  | int (i : Int)
  | float (q : Rat)
  | str (s : String)
  | array (xs : List Text)
  | object (kvs : List (String × Text))

namespace Obj

def str? : Obj → Option String
  | .str s => some s
  | _ => Option.none

def get? : Obj → String → Option Obj
  | .dict kvs, key => (kvs.find? fun e => e.1.str? == some key).map Prod.snd
  | _, _ => Option.none

/-- No tuples, no other classes, and dictionaries with distinct text keys. -/
def plain : Obj → Bool
  | .list xs => plainAll xs
  | .dict kvs => plainValues kvs && decide ((kvs.map (·.1.str?)).Nodup)
  | .tuple _ => false
  | .object _ => false
  | _ => true
where
  plainAll : List Obj → Bool
    | [] => true
    | x :: xs => x.plain && plainAll xs
  plainValues : List (Obj × Obj) → Bool
    | [] => true
    | (k, v) :: kvs => k.str?.isSome && v.plain && plainValues kvs

end Obj

def ofDict (d : Dict String Obj) : Obj := .dict (d.entries.map fun e => (.str e.1, e.2))

def loads : Text → Obj
  | .null => .none
  | .bool b => .bool b
  | .int i => .int i
  | .float q => .float q
  | .str s => .str s
  | .array xs => .list (loadsAll xs)
  | .object kvs => ofDict (Dict.ofList (loadsEntries kvs))
where
  loadsAll : List Text → List Obj
    | [] => []
    | x :: xs => loads x :: loadsAll xs
  loadsEntries : List (String × Text) → List (String × Obj)
    | [] => []
    | (k, v) :: kvs => (k, loads v) :: loadsEntries kvs

section Dumps

variable (reprFloat : Rat → String)

def keyText? : Obj → Option String
  | .str s => some s
  | .int i => some (toString i)
  | .bool b => some (if b then "true" else "false")
  | .none => some "null"
  | .float q => some (reprFloat q)
  | _ => none

/-- Nothing when it raises `TypeError`. -/
def dumps? : Obj → Option Text
  | .none => some .null
  | .bool b => some (.bool b)
  | .int i => some (.int i)
  | .float q => some (.float q)
  | .str s => some (.str s)
  | .list xs => (dumpsAll? xs).map .array
  | .tuple xs => (dumpsAll? xs).map .array
  | .dict kvs => (dumpsEntries? kvs).map .object
  | .object _ => none
where
  dumpsAll? : List Obj → Option (List Text)
    | [] => some []
    | x :: xs => do
      let t ← dumps? x
      let ts ← dumpsAll? xs
      return t :: ts
  dumpsEntries? : List (Obj × Obj) → Option (List (String × Text))
    | [] => some []
    | (k, v) :: kvs => do
      let key ← keyText? reprFloat k
      let t ← dumps? v
      let ts ← dumpsEntries? kvs
      return (key, t) :: ts

def image (v : Obj) : Option Obj := (dumps? reprFloat v).map loads

end Dumps

variable (d : Dict String Obj)

@[simp] theorem get?_ofDict (key : String) : (ofDict d).get? key = d.get? key :=
  find?_entries d Obj.str Obj.str? (fun _ => rfl) key

def strEntries : List (Obj × Obj) → List (String × Obj)
  | [] => []
  | (k, v) :: kvs => (k.str?.getD "", v) :: strEntries kvs

def Obj.toDict? : Obj → Option (Dict String Obj)
  | .dict kvs => some (Dict.ofList (strEntries kvs))
  | _ => Option.none

theorem strEntries_strs (es : List (String × Obj)) : strEntries (es.map fun e => (.str e.1, e.2)) = es := by
  induction es with
  | nil => rfl
  | cons e es ih => rw [map_cons, strEntries, ih]; rfl

@[simp] theorem toDict?_ofDict : (ofDict d).toDict? = some d := by
  rw [ofDict, Obj.toDict?, strEntries_strs, ofList_self]

/-! ## What comes out of JSON is plain -/

open Obj.plain (plainAll plainValues)
open loads (loadsAll loadsEntries)

theorem str?_ofDict : (d.entries.map fun e => ((Obj.str e.1, e.2) : Obj × Obj)).map (·.1.str?) = d.keys.map some := by
  simp [Dict.keys, Obj.str?, Function.comp_def]

theorem plain_ofDict : (ofDict d).plain = true ↔ ∀ e ∈ d.entries, e.2.plain = true := by
  have hvalues (es : List (String × Obj)) : plainValues (es.map fun e => (.str e.1, e.2)) = true ↔
      ∀ e ∈ es, e.2.plain = true := by
    induction es with
    | nil => simp [plainValues]
    | cons e es ih => simp [plainValues, Obj.str?, ih]
  have hkeys : (d.keys.map some).Nodup := d.nodup.map fun _ _ => some.inj
  rw [ofDict, Obj.plain, str?_ofDict, Bool.and_eq_true, hvalues, decide_eq_true_iff]
  exact and_iff_left hkeys

theorem plain_get? {v w : Obj} {key : String} (h : v.plain = true) (hget : v.get? key = some w) : w.plain = true := by
  have hvalues {kvs : List (Obj × Obj)} (h : plainValues kvs = true) : ∀ e ∈ kvs, e.2.plain = true := by
    induction kvs with
    | nil => simp
    | cons e kvs ih =>
      simp only [plainValues, Bool.and_eq_true] at h
      exact forall_mem_cons.mpr ⟨h.1.2, ih h.2⟩
  cases v with
  | dict kvs =>
    obtain ⟨e, he, rfl⟩ := map_eq_some_iff.mp hget
    rw [Obj.plain, Bool.and_eq_true] at h
    exact hvalues h.1 e (mem_of_find?_eq_some he)
  | _ => cases hget

mutual

theorem plain_loads : ∀ t : Text, (loads t).plain = true
  | .null | .bool _ | .int _ | .float _ | .str _ => rfl
  | .array xs => plainAll_loads xs
  | .object kvs => by
    rw [loads, plain_ofDict]
    exact fun e he => plain_loadsEntries kvs e (mem_of_mem_ofList he)

theorem plainAll_loads : ∀ xs : List Text, plainAll (loadsAll xs) = true
  | [] => rfl
  | x :: xs => by rw [loadsAll, plainAll, plain_loads x, plainAll_loads xs, Bool.and_self]

theorem plain_loadsEntries : ∀ (kvs : List (String × Text)), ∀ e ∈ loadsEntries kvs, e.2.plain = true
  | [] => by simp [loadsEntries]
  | (k, v) :: kvs => by
    rw [loadsEntries]
    exact forall_mem_cons.mpr ⟨plain_loads v, plain_loadsEntries kvs⟩

end

/-! ## Plain objects come back -/

section Dumps

variable (reprFloat : Rat → String)

open dumps? (dumpsAll? dumpsEntries?)

theorem strEntries_eq {kvs : List (Obj × Obj)} (h : plainValues kvs = true) :
    (strEntries kvs).map (fun e => ((Obj.str e.1, e.2) : Obj × Obj)) = kvs ∧
      (kvs.map (·.1.str?)) = ((strEntries kvs).map Prod.fst).map some := by
  induction kvs with
  | nil => exact ⟨rfl, rfl⟩
  | cons e kvs ih =>
    obtain ⟨k, v⟩ := e
    simp only [plainValues, Bool.and_eq_true] at h
    obtain ⟨heq, hkeys⟩ := ih h.2
    cases k with
    | str s => exact ⟨by rw [strEntries, map_cons, heq]; rfl, by rw [strEntries, map_cons, hkeys]; rfl⟩
    | _ => cases h.1.1

mutual

theorem image_plain : ∀ v : Obj, v.plain = true → ∃ t, dumps? reprFloat v = some t ∧ loads t = v
  | .none, _ => ⟨.null, rfl, rfl⟩
  | .bool b, _ => ⟨.bool b, rfl, rfl⟩
  | .int i, _ => ⟨.int i, rfl, rfl⟩
  | .float q, _ => ⟨.float q, rfl, rfl⟩
  | .str s, _ => ⟨.str s, rfl, rfl⟩
  | .list xs, h => by
    obtain ⟨ts, hdumps, hloads⟩ := imageAll_plain xs h
    exact ⟨.array ts, by rw [dumps?, hdumps]; rfl, by rw [loads, hloads]⟩
  | .dict kvs, h => by
    rw [Obj.plain, Bool.and_eq_true, decide_eq_true_iff] at h
    obtain ⟨ts, hdumps, hloads⟩ := imageEntries_plain kvs h.1
    obtain ⟨heq, hkeys⟩ := strEntries_eq h.1
    have hnodup : ((strEntries kvs).map Prod.fst).Nodup := List.Nodup.of_map _ (hkeys ▸ h.2)
    refine ⟨.object ts, by rw [dumps?, hdumps]; rfl, ?_⟩
    rw [loads, hloads, ofDict, ofList_entries hnodup, heq]
  | .tuple _, h => by cases h
  | .object _, h => by cases h

theorem imageAll_plain : ∀ xs : List Obj, plainAll xs = true →
    ∃ ts, dumpsAll? reprFloat xs = some ts ∧ loadsAll ts = xs
  | [], _ => ⟨[], rfl, rfl⟩
  | x :: xs, h => by
    rw [plainAll, Bool.and_eq_true] at h
    obtain ⟨t, hdumps, hloads⟩ := image_plain x h.1
    obtain ⟨ts, hdumps', hloads'⟩ := imageAll_plain xs h.2
    exact ⟨t :: ts, by simp [dumpsAll?, hdumps, hdumps'], by rw [loadsAll, hloads, hloads']⟩

theorem imageEntries_plain : ∀ kvs : List (Obj × Obj), plainValues kvs = true →
    ∃ ts, dumpsEntries? reprFloat kvs = some ts ∧ loadsEntries ts = strEntries kvs
  | [], _ => ⟨[], rfl, rfl⟩
  | (k, v) :: kvs, h => by
    simp only [plainValues, Bool.and_eq_true] at h
    obtain ⟨t, hdumps, hloads⟩ := image_plain v h.1.2
    obtain ⟨ts, hdumps', hloads'⟩ := imageEntries_plain kvs h.2
    obtain ⟨s, hs⟩ := isSome_iff_exists.mp h.1.1
    cases k with
    | str s =>
      exact ⟨(s, t) :: ts, by simp [dumpsEntries?, keyText?, hdumps, hdumps'],
        by rw [loadsEntries, strEntries, hloads, hloads']; rfl⟩
    | _ => cases hs

end

/-! ## Images -/

variable {reprFloat}

theorem plain_of_image {v w : Obj} (h : image reprFloat v = some w) : w.plain = true := by
  obtain ⟨t, _, rfl⟩ := map_eq_some_iff.mp h
  exact plain_loads t

theorem image_eq_self {v : Obj} (h : v.plain = true) : image reprFloat v = some v := by
  obtain ⟨t, hdumps, hloads⟩ := image_plain reprFloat v h
  rw [image, hdumps, map_some, hloads]

theorem image_ofDict {d : Dict String Obj} {w : Obj} (h : image reprFloat (ofDict d) = some w) :
    ∃ d' : Dict String Obj, w = ofDict d' ∧ ∀ k v', d'.get? k = some v' → ∃ v, d.get? k = some v ∧
      image reprFloat v = some v' := by
  have hentries (es : List (String × Obj)) {ts : List (String × Text)}
      (hdumps : dumpsEntries? reprFloat (es.map fun e => (.str e.1, e.2)) = some ts) :
      ∀ e' ∈ loadsEntries ts, ∃ e ∈ es, e.1 = e'.1 ∧ image reprFloat e.2 = some e'.2 := by
    induction es generalizing ts with
    | nil =>
      cases hdumps
      simp [loadsEntries]
    | cons e es ih =>
      simp only [map_cons, dumpsEntries?, keyText?, bind_eq_bind, bind_some,
        bind_eq_some_iff, pure, some.injEq] at hdumps
      obtain ⟨t, ht, rest, hrest, rfl⟩ := hdumps
      rw [loadsEntries]
      refine forall_mem_cons.mpr ⟨⟨e, mem_cons_self, rfl, by rw [image, ht]; rfl⟩, fun e' he' => ?_⟩
      obtain ⟨x, hx, hxe⟩ := ih hrest e' he'
      exact ⟨x, mem_cons_of_mem _ hx, hxe⟩
  obtain ⟨t, hdumps, rfl⟩ := map_eq_some_iff.mp h
  rw [ofDict, dumps?] at hdumps
  obtain ⟨ts, hts, rfl⟩ := map_eq_some_iff.mp hdumps
  refine ⟨ofList (loadsEntries ts), rfl, fun k v' hk => ?_⟩
  have hk' := mem_of_mem_ofList ((get?_eq_some_iff _ _ _).mp hk)
  obtain ⟨⟨k', v⟩, hmem, rfl, himage⟩ := hentries _ hts (k, v') hk'
  exact ⟨v, (get?_eq_some_iff _ _ _).mpr hmem, himage⟩

end Dumps

end AteStudio.Json
