import AteStudio.Lib.JsonText

/-!
# JSON texts that are cut off

The beginning of an object's text is no JSON text. What characters a text holds tells where it can be cut.
-/

namespace AteStudio.Json

open List Option

/-! ## A text that is cut off -/

variable {cs : List Char}

theorem readUnits_append : ∀ {us : List Nat} {rest : List Char}, readUnits cs = some (us, rest) →
    ∀ ds, readUnits (cs ++ ds) = some (us, rest ++ ds) := by
  fun_induction readUnits cs with
  | case1 => exact fun h => nomatch h
  | case2 cs =>
    intro us rest h ds
    cases h
    rfl
  | case3 a b c d cs ih =>
    intro us rest h ds
    simp only [bind_eq_bind, bind_eq_some_iff, pure, some.injEq] at h
    obtain ⟨u, hu, ⟨us', rest'⟩, hread, he⟩ := h
    cases he
    simp [readUnits, hu, ih hread]
  | case4 c cs hc ih =>
    intro us rest h ds
    simp only [bind_eq_bind, bind_eq_some_iff, pure, some.injEq] at h
    obtain ⟨e, he, ⟨us', rest'⟩, hread, heq⟩ := h
    cases heq
    -- What is appended cannot complete a `\u` escape: `\u` alone is no escape.
    have hu : c ≠ 'u' := by
      rintro rfl
      cases he
    rw [cons_append, cons_append, readUnits]
    · simp [he, ih hread]
    · rintro a b c' d cs' rfl
      exact absurd rfl hu
  | case5 c cs _ _ _ hc => exact fun h => nomatch h
  | case6 c cs h₁ _ _ hc ih =>
    intro us rest h ds
    simp only [bind_eq_bind, bind_eq_some_iff, pure, some.injEq] at h
    obtain ⟨⟨us', rest'⟩, hread, heq⟩ := h
    cases heq
    rw [cons_append, readUnits]
    · simp [hc, ih hread]
    · exact h₁
    · rintro a b c' d cs' rfl
      exact absurd (.inr rfl) hc
    · rintro c' cs' rfl
      exact absurd (.inr rfl) hc

variable {s : String} {rest : List Char}

theorem readString_append (h : readString cs = some (s, rest))
    (ds : List Char) : readString (cs ++ ds) = some (s, rest ++ ds) := by
  simp only [readString, bind_eq_bind, bind_eq_some_iff, pure, some.injEq] at h
  obtain ⟨⟨us, rest'⟩, hunits, s', hjoin, heq⟩ := h
  cases heq
  simp [readString, readUnits_append hunits, hjoin]

theorem skipSpace_append {c : Char} (h : skipSpace cs = c :: rest)
    (ds : List Char) : skipSpace (cs ++ ds) = c :: (rest ++ ds) := by
  rw [skipSpace] at h
  rw [skipSpace, dropWhile_append, h]
  rfl

theorem ne_nil_of_skipSpace {c : Char} (h : skipSpace cs = c :: rest) : cs ≠ [] := by
  rintro rfl
  cases h

def Text.closed : Text → Bool
  | .int _ | .float _ => false
  | _ => true

section Format

variable (F : FloatFormat) (n : Nat)

theorem readValue_nil : readValue F n [] = none := by
  cases n <;> rfl

theorem readItems_nil : readItems F n [] = none := by
  cases n with
  | zero => rfl
  | succ n => unfold readItems; rw [readValue_nil]; rfl

theorem readMembers_nil : readMembers F n [] = none := by
  cases n <;> rfl

theorem skipSpace_skipSpace (cs : List Char) : skipSpace (skipSpace cs) = skipSpace cs := by
  by_cases h : skipSpace cs = []
  · rw [h]
    rfl
  · have hhead := head_dropWhile_not isSpace h
    obtain ⟨c, r, hcr⟩ := exists_cons_of_ne_nil h
    rw [hcr]
    simp only [skipSpace] at hcr
    exact skipSpace_cons (by simpa [hcr] using hhead)

theorem readValue_skipSpace (cs : List Char) : readValue F n (skipSpace cs) = readValue F n cs := by
  cases n with
  | zero => rfl
  | succ n => unfold readValue; rw [skipSpace_skipSpace]

variable {t : Text}

theorem readNumber?_not_closed {w : List Char} (h : readNumber? F w = some t) : t.closed = false := by
  unfold readNumber? at h
  split at h <;> obtain ⟨_, _, rfl⟩ := map_eq_some_iff.mp h <;> rfl

theorem readValue_number_append {cs : List Char} (h : readNumber? F ((skipSpace cs).takeWhile isNumberChar) = some t)
    (hrest : (skipSpace cs).dropWhile isNumberChar ≠ []) (n : Nat) (ds : List Char) :
    readValue F (n + 1) (cs ++ ds) = some (t, (skipSpace cs).dropWhile isNumberChar ++ ds) := by
  have hw : IsNumber ((skipSpace cs).takeWhile isNumberChar) := by
    refine ⟨fun hnil => ?_, fun c hc => mem_takeWhile_imp hc⟩
    rw [hnil] at h
    cases h
  obtain ⟨c, r, hcr⟩ := exists_cons_of_ne_nil hrest
  have hends : Ends ((skipSpace cs).dropWhile isNumberChar ++ ds) := by
    have hc := head_dropWhile_not isNumberChar hrest
    rw [hcr]
    exact ends_cons (by simpa [hcr] using hc) _
  obtain ⟨d, r', hd⟩ := exists_cons_of_ne_nil fun hnil : skipSpace cs = [] => hrest (by rw [hnil]; rfl)
  have hspan : skipSpace (cs ++ ds) =
      (skipSpace cs).takeWhile isNumberChar ++ ((skipSpace cs).dropWhile isNumberChar ++ ds) := by
    rw [skipSpace_append hd, ← append_assoc, takeWhile_append_dropWhile, hd]
    rfl
  rw [← readValue_skipSpace, hspan, readValue_number F hw hends, h]
  rfl

/-- What follows a value changes nothing in how it is read, and neither does more fuel. -/
def ValueAppends (n : Nat) : Prop :=
  ∀ cs t rest k ds, readValue F n cs = some (t, rest) → rest ≠ [] ∨ t.closed = true →
    readValue F (n + k) (cs ++ ds) = some (t, rest ++ ds)

def ItemsAppend (n : Nat) : Prop :=
  ∀ cs ts rest k ds, readItems F n cs = some (ts, rest) → readItems F (n + k) (cs ++ ds) = some (ts, rest ++ ds)

def MembersAppend (n : Nat) : Prop :=
  ∀ cs kvs rest k ds, readMembers F n cs = some (kvs, rest) →
    readMembers F (n + k) (cs ++ ds) = some (kvs, rest ++ ds)

section Appends

variable {F} {n : Nat}

theorem ItemsAppend.valueAppends (hi : ItemsAppend F n) (hm : MembersAppend F n) : ValueAppends F (n + 1) := by
  intro cs t rest k ds h hclosed
  rw [Nat.add_right_comm]
  unfold readValue at h
  split at h
  · next cs' hs =>
    unfold readValue
    obtain ⟨⟨s, rest'⟩, hread, heq⟩ := map_eq_some_iff.mp h
    cases heq
    simp [skipSpace_append hs, readString_append hread]
  · next cs' hs =>
    unfold readValue
    simp only [skipSpace_append hs]
    split at h
    · next cs'' hs' =>
      cases h
      simp [skipSpace_append hs']
    · next hne =>
      obtain ⟨⟨ts, rest'⟩, hread, heq⟩ := map_eq_some_iff.mp h
      cases heq
      obtain ⟨c, r, hs'⟩ := exists_cons_of_ne_nil fun hnil : skipSpace cs' = [] => by
        rw [hnil, readItems_nil] at hread
        cases hread
      rw [hs'] at hne hread
      have hread' := hi _ _ _ k ds hread
      rw [skipSpace_append hs']
      split
      · next he => cases he; exact absurd rfl (hne r)
      · rw [← cons_append, hread']
        rfl
  · next cs' hs =>
    unfold readValue
    simp only [skipSpace_append hs]
    split at h
    · next cs'' hs' =>
      cases h
      simp [skipSpace_append hs']
    · next hne =>
      obtain ⟨⟨kvs, rest'⟩, hread, heq⟩ := map_eq_some_iff.mp h
      cases heq
      obtain ⟨c, r, hs'⟩ := exists_cons_of_ne_nil fun hnil : skipSpace cs' = [] => by
        rw [hnil, readMembers_nil] at hread
        cases hread
      rw [hs'] at hne hread
      have hread' := hm _ _ _ k ds hread
      rw [skipSpace_append hs']
      split
      · next he => cases he; exact absurd rfl (hne r)
      · rw [← cons_append, hread']
        rfl
  · next cs' hs => cases h; unfold readValue; simp [skipSpace_append hs]
  · next cs' hs => cases h; unfold readValue; simp [skipSpace_append hs]
  · next cs' hs => cases h; unfold readValue; simp [skipSpace_append hs]
  · obtain ⟨t', hnum, heq⟩ := map_eq_some_iff.mp h
    cases heq
    refine readValue_number_append F hnum (hclosed.resolve_right ?_) _ ds
    simp [readNumber?_not_closed F hnum]

theorem ValueAppends.itemsAppend (hv : ValueAppends F n) (hi : ItemsAppend F n) : ItemsAppend F (n + 1) := by
  intro cs ts rest k ds h
  rw [Nat.add_right_comm]
  unfold readItems at h ⊢
  simp only [bind_eq_bind, bind_eq_some_iff] at h
  obtain ⟨⟨t, cs'⟩, hread, h⟩ := h
  split at h
  · next cs'' hs =>
    obtain ⟨⟨ts', rest'⟩, hread', heq⟩ := map_eq_some_iff.mp h
    cases heq
    rw [hv _ _ _ k ds hread (.inl (ne_nil_of_skipSpace hs))]
    simp [skipSpace_append hs, hi _ _ _ k ds hread']
  · next cs'' hs =>
    cases h
    rw [hv _ _ _ k ds hread (.inl (ne_nil_of_skipSpace hs))]
    simp [skipSpace_append hs]
  · cases h

theorem ValueAppends.membersAppend (hv : ValueAppends F n) (hm : MembersAppend F n) : MembersAppend F (n + 1) := by
  intro cs kvs rest k ds h
  rw [Nat.add_right_comm]
  unfold readMembers at h ⊢
  split at h
  · next cs' hs =>
    simp only [bind_eq_bind, bind_eq_some_iff] at h
    obtain ⟨⟨key, cs₁⟩, hkey, h⟩ := h
    split at h
    · next cs₂ hs₂ =>
      simp only [bind_eq_some_iff] at h
      obtain ⟨⟨t, cs₃⟩, hread, h⟩ := h
      split at h
      · next cs₄ hs₄ =>
        obtain ⟨⟨kvs', rest'⟩, hread', heq⟩ := map_eq_some_iff.mp h
        cases heq
        have hvalue := hv _ _ _ k ds hread (.inl (ne_nil_of_skipSpace hs₄))
        simp [skipSpace_append hs, readString_append hkey, skipSpace_append hs₂, hvalue, skipSpace_append hs₄,
          hm _ _ _ k ds hread']
      · next cs₄ hs₄ =>
        cases h
        have hvalue := hv _ _ _ k ds hread (.inl (ne_nil_of_skipSpace hs₄))
        simp [skipSpace_append hs, readString_append hkey, skipSpace_append hs₂, hvalue, skipSpace_append hs₄]
      · cases h
    · cases h
  · cases h

end Appends

theorem appends : ValueAppends F n ∧ ItemsAppend F n ∧ MembersAppend F n := by
  induction n with
  | zero =>
    refine ⟨fun cs t rest k ds h => ?_, fun cs ts rest k ds h => ?_, fun cs kvs rest k ds h => ?_⟩
    · rw [readValue] at h; cases h
    · rw [readItems] at h; cases h
    · rw [readMembers] at h; cases h
  | succ n ih =>
    obtain ⟨hv, hi, hm⟩ := ih
    exact ⟨hi.valueAppends hm, hv.itemsAppend hi, hv.membersAppend hm⟩

theorem readValue_object_closed {n : Nat} {cs rest : List Char}
    (h : readValue F n ('\x7b' :: cs) = some (t, rest)) : t.closed = true := by
  cases n with
  | zero => cases h
  | succ n =>
    unfold readValue at h
    rw [skipSpace_cons (by decide)] at h
    simp only at h
    split at h
    · cases h
      rfl
    · obtain ⟨_, _, heq⟩ := map_eq_some_iff.mp h
      cases heq
      rfl

variable {kvs : List (String × Text)}

theorem parse?_cut {p q : List Char} (h : write F (.object kvs) = p ++ q) (hq : q ≠ []) : parse? F p = none := by
  rw [eq_none_iff_forall_ne_some]
  intro t ht
  simp only [parse?, bind_eq_bind, bind_eq_some_iff] at ht
  obtain ⟨⟨t', rest⟩, hread, -⟩ := ht
  obtain ⟨cs, hobject⟩ : ∃ cs, write F (.object kvs) = '\x7b' :: cs := by
    cases kvs <;> exact ⟨_, rfl⟩
  cases p with
  | nil => rw [readValue_nil] at hread; cases hread
  | cons c p =>
    obtain rfl : '\x7b' = c := (List.cons.inj (hobject.symm.trans h)).1
    have hclosed := readValue_object_closed F hread
    have hlong := (appends F _).1 _ _ _ q.length q hread (.inr hclosed)
    have hwhole := readValue_write F (.object kvs) (('\x7b' :: p).length + q.length) []
      (by rw [h]; exact length_append.le)
      ends_nil
    rw [append_nil, h, hlong] at hwhole
    obtain ⟨-, hnil⟩ := append_eq_nil_iff.mp (congrArg Prod.snd (some.inj hwhole))
    exact hq hnil

theorem exists_writeMembers_eq (kvs : List (String × Text)) : ∃ cs, write.writeMembers F kvs = cs ++ ['\x7d'] := by
  induction kvs with
  | nil => exact ⟨[], rfl⟩
  | cons e kvs ih =>
    obtain ⟨cs, hcs⟩ := ih
    exact ⟨',' :: (writeString e.1 ++ ':' :: (write F e.2 ++ cs)), by rw [write.writeMembers, hcs]; simp⟩

theorem exists_write_object_eq (kvs : List (String × Text)) :
    ∃ cs, write F (.object kvs) = '\x7b' :: (cs ++ ['\x7d']) := by
  cases kvs with
  | nil => exact ⟨[], rfl⟩
  | cons e kvs =>
    obtain ⟨cs, hcs⟩ := exists_writeMembers_eq F kvs
    exact ⟨writeString e.1 ++ ':' :: (write F e.2 ++ cs), by rw [write, hcs]; simp⟩

/-! ## The characters of a text -/

theorem Text.induction {motive : Text → Prop} (null : motive .null) (bool : ∀ b, motive (.bool b))
    (int : ∀ i, motive (.int i)) (float : ∀ q, motive (.float q)) (str : ∀ s, motive (.str s))
    (array : ∀ xs, (∀ x ∈ xs, motive x) → motive (.array xs))
    (object : ∀ kvs, (∀ e ∈ kvs, motive e.2) → motive (.object kvs)) (t : Text) : motive t :=
  @Text.rec motive (fun xs => ∀ x ∈ xs, motive x) (fun kvs => ∀ e ∈ kvs, motive e.2) (fun e => motive e.2)
    null bool int float str array object
    (fun _ h => nomatch h) (fun _ _ hx hxs => forall_mem_cons.mpr ⟨hx, hxs⟩)
    (fun _ h => nomatch h) (fun _ _ he hkvs => forall_mem_cons.mpr ⟨he, hkvs⟩)
    (fun _ _ h => h) t

def Text.strings : Text → List String
  | .str s => [s]
  | .array xs => stringsAll xs
  | .object kvs => stringsEntries kvs
  | _ => []
where
  stringsAll : List Text → List String
    | [] => []
    | x :: xs => x.strings ++ stringsAll xs
  stringsEntries : List (String × Text) → List String
    | [] => []
    | (k, v) :: kvs => k :: (v.strings ++ stringsEntries kvs)

/-- A printable ASCII character, or one that a string holds. -/
def Shown (ss : List String) (c : Char) : Prop := 32 ≤ c.toNat ∧ (c.toNat < 127 ∨ ∃ s ∈ ss, c ∈ s.toList)

variable {c : Char}

theorem Shown.mono {ss ss' : List String} (h : Shown ss c) (hss : ss ⊆ ss') : Shown ss' c :=
  ⟨h.1, h.2.imp_right fun ⟨s, hs, hc⟩ => ⟨s, hss hs, hc⟩⟩

theorem shown_ascii (ss : List String) (h : 32 ≤ c.toNat ∧ c.toNat < 127) : Shown ss c :=
  ⟨h.1, .inl h.2⟩

theorem shown_number (ss : List String) (h : isNumberChar c = true) : Shown ss c := by
  simp only [isNumberChar, Char.isDigit, Bool.or_eq_true, Bool.and_eq_true, decide_eq_true_eq] at h
  rcases h with ((((⟨h₁, h₂⟩ | rfl) | rfl) | rfl) | rfl) | rfl
  · have h₁' : (48 : Nat) ≤ c.toNat := h₁
    have h₂' : c.toNat ≤ 57 := h₂
    exact ⟨by omega, .inl (by omega)⟩
  all_goals exact shown_ascii ss (by decide)

theorem shown_escape {d : Char} (hc : c ∈ s.toList) (h : d ∈ escape c) : Shown [s] d := by
  have hdigit : ∀ n < 16, 32 ≤ (Nat.digitChar n).toNat ∧ (Nat.digitChar n).toNat < 127 := by decide
  unfold escape at h
  split_ifs at h with h₁ h₂ h₃ h₄ h₅ h₆ h₇ h₈ <;>
    simp only [mem_cons, not_mem_nil, or_false] at h
  iterate 7 · rcases h with rfl | rfl <;> exact shown_ascii _ (by decide)
  · rcases h with rfl | rfl | rfl | rfl | rfl | rfl
    iterate 4 · exact shown_ascii _ (by decide)
    · exact shown_ascii _ (hdigit _ (by omega))
    · exact shown_ascii _ (hdigit _ (by omega))
  · subst h
    exact ⟨by omega, .inr ⟨s, mem_singleton_self s, hc⟩⟩

theorem shown_writeString (h : c ∈ writeString s) : Shown [s] c := by
  simp only [writeString, mem_cons, mem_append, mem_flatMap, not_mem_nil, or_false] at h
  rcases h with rfl | ⟨d, hd, hc⟩ | rfl
  · exact shown_ascii _ (by decide)
  · exact shown_escape hd hc
  · exact shown_ascii _ (by decide)

theorem mem_writeString (hc : c ∈ s.toList) (h : 127 < c.toNat) : c ∈ writeString s := by
  have hne {d : Char} (hd : d.toNat ≤ 127) : c ≠ d := by rintro rfl; omega
  have hescape : escape c = [c] := by
    unfold escape
    rw [if_neg (hne (by decide)), if_neg (hne (by decide)), if_neg (hne (by decide)), if_neg (hne (by decide)),
      if_neg (hne (by decide)), if_neg (hne (by decide)), if_neg (hne (by decide)), if_neg (by omega)]
  rw [writeString, mem_cons, mem_append, mem_flatMap]
  exact .inr (.inl ⟨c, hc, by rw [hescape]; exact mem_singleton_self c⟩)

open Text.strings (stringsAll stringsEntries)
open write (writeItems writeMembers)

theorem mem_stringsAll {xs : List Text} : s ∈ stringsAll xs ↔ ∃ x ∈ xs, s ∈ x.strings := by
  induction xs with
  | nil => simp [stringsAll]
  | cons x xs ih => simp [stringsAll, ih]

theorem mem_stringsEntries : s ∈ stringsEntries kvs ↔ ∃ e ∈ kvs, s = e.1 ∨ s ∈ e.2.strings := by
  induction kvs with
  | nil => simp [stringsEntries]
  | cons e kvs ih =>
    simp only [stringsEntries, mem_cons, mem_append, ih, exists_eq_or_imp]
    grind

theorem mem_writeItems {xs : List Text} : c ∈ writeItems F xs ↔ c = ']' ∨ ∃ x ∈ xs, c = ',' ∨ c ∈ write F x := by
  induction xs with
  | nil => simp [writeItems]
  | cons x xs ih =>
    simp only [writeItems, mem_cons, mem_append, ih, exists_eq_or_imp]
    grind

theorem mem_writeMembers : c ∈ writeMembers F kvs ↔
    c = '\x7d' ∨ ∃ e ∈ kvs, c = ',' ∨ c ∈ writeString e.1 ∨ c = ':' ∨ c ∈ write F e.2 := by
  induction kvs with
  | nil => simp [writeMembers]
  | cons e kvs ih =>
    simp only [writeMembers, mem_cons, mem_append, ih, exists_eq_or_imp]
    grind

theorem mem_write_array {xs : List Text} (h : c ∈ write F (.array xs)) :
    c ∈ ['[', ']', ','] ∨ ∃ x ∈ xs, c ∈ write F x := by
  cases xs with
  | nil => exact .inl (mem_append_left [','] h)
  | cons x xs =>
    simp only [write, mem_cons, mem_append, mem_writeItems] at h
    grind

theorem write_subset_array {x : Text} {xs : List Text} (hx : x ∈ xs) : write F x ⊆ write F (.array xs) := by
  intro c hc
  cases xs with
  | nil => cases hx
  | cons y ys =>
    simp only [write, mem_cons, mem_append, mem_writeItems]
    grind

theorem mem_write_object (h : c ∈ write F (.object kvs)) :
    c ∈ ['\x7b', '\x7d', ',', ':'] ∨ ∃ e ∈ kvs, c ∈ writeString e.1 ∨ c ∈ write F e.2 := by
  cases kvs with
  | nil => exact .inl (mem_append_left [',', ':'] h)
  | cons e kvs =>
    have he : e ∈ e :: kvs := mem_cons_self
    simp only [write, mem_cons, mem_append, mem_writeMembers] at h
    grind

theorem write_subset_object {e : String × Text} (he : e ∈ kvs) :
    writeString e.1 ⊆ write F (.object kvs) ∧ write F e.2 ⊆ write F (.object kvs) := by
  cases kvs with
  | nil => cases he
  | cons e' kvs => constructor <;> intro c hc <;> simp only [write, mem_cons, mem_append, mem_writeMembers] <;> grind

theorem shown_write (t : Text) : ∀ c ∈ write F t, Shown t.strings c := by
  have hascii {w : List Char} (h : (w.all fun c => 32 ≤ c.toNat ∧ c.toNat < 127) = true) (ss : List String) :
      ∀ c ∈ w, Shown ss c :=
    fun c hc => shown_ascii ss (of_decide_eq_true (all_eq_true.mp h c hc))
  induction t using Text.induction with
  | null => exact hascii (by rw [write]; decide) _
  | bool b => cases b <;> exact hascii (by rw [write]; decide) _
  | int i => exact fun c hc => shown_number _ ((isNumber_writeInt i).numeric c hc)
  | float q => exact fun c hc => shown_number _ (F.numeric q c hc)
  | str s => exact fun c hc => shown_writeString hc
  | array xs ih =>
    intro c hc
    rcases mem_write_array F hc with hc | ⟨x, hx, hc⟩
    · exact hascii (by decide) _ c hc
    · exact (ih x hx c hc).mono fun s hs => mem_stringsAll.mpr ⟨x, hx, hs⟩
  | object kvs ih =>
    intro c hc
    rcases mem_write_object F hc with hc | ⟨e, he, hc | hc⟩
    · exact hascii (by decide) _ c hc
    · exact (shown_writeString hc).mono fun s hs => mem_stringsEntries.mpr ⟨e, he, .inl (mem_singleton.mp hs)⟩
    · exact (ih e he c hc).mono fun s hs => mem_stringsEntries.mpr ⟨e, he, .inr hs⟩

theorem writeString_subset_write (t : Text) : ∀ s ∈ t.strings, writeString s ⊆ write F t := by
  induction t using Text.induction with
  | str s =>
    intro s' hs
    obtain rfl := mem_singleton.mp hs
    exact List.Subset.refl _
  | array xs ih =>
    intro s hs
    obtain ⟨x, hx, hs⟩ := mem_stringsAll.mp hs
    exact List.Subset.trans (ih x hx s hs) (write_subset_array F hx)
  | object kvs ih =>
    intro s hs
    obtain ⟨e, he, rfl | hs⟩ := mem_stringsEntries.mp hs
    · exact (write_subset_object F he).1
    · exact List.Subset.trans (ih e he s hs) (write_subset_object F he).2
  | _ => exact fun s hs => nomatch hs

theorem mem_write_iff (hc : 127 < c.toNat) : c ∈ write F t ↔ ∃ s ∈ t.strings, c ∈ s.toList := by
  constructor
  · intro h
    exact (shown_write F t c h).2.resolve_left (by omega)
  · rintro ⟨s, hs, hmem⟩
    exact writeString_subset_write F t s hs (mem_writeString hmem hc)

end Format

end AteStudio.Json
