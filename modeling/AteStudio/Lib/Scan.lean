import AteStudio.Lib.Dict

/-!
# Listings of a dictionary

The entries whose key passes a test, in no order that counts. Where two dictionaries differ in one key at most, so do
their listings.
-/

namespace AteStudio.Dict

variable {κ ν α : Type}

def scan (d : Dict κ ν) (p : κ → Bool) (f : κ → ν → α) : List α :=
  (d.entries.filter fun e => p e.1).map fun e => f e.1 e.2

theorem entries_nodup (d : Dict κ ν) : d.entries.Nodup := List.Nodup.of_map _ d.nodup

variable [DecidableEq κ] {d d' : Dict κ ν} {k : κ} {p : κ → Bool} {f : κ → ν → α}

theorem entries_perm_of_get? (h : ∀ k, d'.get? k = d.get? k) : d'.entries.Perm d.entries := by
  rw [List.perm_ext_iff_of_nodup d'.entries_nodup d.entries_nodup]
  rintro ⟨a, b⟩
  rw [← get?_eq_some_iff, ← get?_eq_some_iff, h]

theorem entries_perm_erase (d : Dict κ ν) (k : κ) :
    d.entries.Perm (((d.get? k).map fun v => (k, v)).toList ++ (d.erase k).entries) := by
  have hmem : ∀ e, e ∈ (d.erase k).entries ↔ e ∈ d.entries ∧ e.1 ≠ k := by simp [erase]
  rw [List.perm_ext_iff_of_nodup d.entries_nodup]
  · rintro ⟨a, b⟩
    rw [List.mem_append, hmem, Option.mem_toList, Option.map_eq_some_iff]
    by_cases ha : a = k
    · subst ha
      simp [← get?_eq_some_iff]
    · simp [ha, Ne.symm ha]
  · refine List.nodup_append.mpr ⟨?_, (d.erase k).entries_nodup, ?_⟩
    · cases d.get? k <;> simp
    · rintro e he e' he' rfl
      rw [Option.mem_toList, Option.map_eq_some_iff] at he
      obtain ⟨v, -, rfl⟩ := he
      exact ((hmem _).mp he').2 rfl

theorem scan_perm_of_get? (h : ∀ k, d'.get? k = d.get? k) : (d'.scan p f).Perm (d.scan p f) :=
  ((entries_perm_of_get? h).filter _).map _

theorem scan_perm_erase (d : Dict κ ν) (k : κ) (p : κ → Bool) (f : κ → ν → α) :
    (d.scan p f).Perm ((if p k then ((d.get? k).map (f k)).toList else []) ++ (d.erase k).scan p f) := by
  refine (((d.entries_perm_erase k).filter _).map _).trans ?_
  rw [List.filter_append, List.map_append]
  refine List.Perm.append_right _ (List.Perm.of_eq ?_)
  cases d.get? k with
  | none => simp
  | some v => cases hp : p k <;> simp [hp]

theorem scan_perm_iff (h : ∀ k', k' ≠ k → d'.get? k' = d.get? k') :
    (d'.scan p f).Perm (d.scan p f) ↔ (p k = true → (d'.get? k).map (f k) = (d.get? k).map (f k)) := by
  have hrest : ((d'.erase k).scan p f).Perm ((d.erase k).scan p f) := by
    refine scan_perm_of_get? fun k' => ?_
    rw [get?_erase, get?_erase]
    split
    · rfl
    · exact h k' ‹_›
  have hd := (d.scan_perm_erase k p f).trans (hrest.symm.append_left _)
  rw [(d'.scan_perm_erase k p f).congr_left, hd.congr_right, List.perm_append_right_iff]
  cases p k with
  | false => simp
  | true =>
    cases (d'.get? k).map (f k) <;> cases (d.get? k).map (f k) <;> simp

end AteStudio.Dict
