import Mathlib

/-!
# File names

`urllib.parse.quote` with no safe characters, and the suffix of a `pathlib` name. A name is the list of its characters.
-/

namespace AteStudio.FileName

open List

abbrev Name := List Char

def utf8 (text : String) : List UInt8 := text.toList.flatMap String.utf8EncodeChar

def unreserved (b : UInt8) : Bool := (Char.ofUInt8 b).isAlphanum || b ∈ [45, 46, 95, 126]

def hexDigits : List Char := "0123456789ABCDEF".toList

def hexDigit (n : Nat) : Char := hexDigits.getD n '0'

def quoteByte (b : UInt8) : Name :=
  if unreserved b then [Char.ofUInt8 b] else ['%', hexDigit (b.toNat / 16), hexDigit (b.toNat % 16)]

def quote (text : String) : Name := (utf8 text).flatMap quoteByte

def extension (name : Name) : Name := (name.reverse.takeWhile (· ≠ '.')).reverse

/-- Without a dot that is not the first character, and what follows it. -/
def stem (name : Name) : Name :=
  if '.' ∈ name ∧ extension name ≠ [] ∧ (extension name).length + 1 < name.length then
    name.take (name.length - ((extension name).length + 1))
  else name

/-! ## Quoting loses nothing -/

theorem utf8_injective {a b : String} (h : utf8 a = utf8 b) : a = b := by
  have hbytes : a.toByteArray = b.toByteArray := by
    rw [← String.ofList_toList (s := a), ← String.ofList_toList (s := b), String.toByteArray_ofList,
      String.toByteArray_ofList]
    exact congrArg List.toByteArray h
  exact String.toByteArray_inj.mp hbytes

theorem ofUInt8_injective {a b : UInt8} (h : Char.ofUInt8 a = Char.ofUInt8 b) : a = b := by
  have hval := congrArg (fun c => c.val.toNat) h
  exact UInt8.toNat_inj.mp (by simpa [Char.ofUInt8] using hval)

theorem hexDigit_injective : ∀ m < 16, ∀ n < 16, hexDigit m = hexDigit n → m = n := by decide

theorem ofUInt8_ne_percent {b : UInt8} (h : unreserved b) : Char.ofUInt8 b ≠ '%' := by
  intro hpercent
  obtain rfl : b = 37 := ofUInt8_injective hpercent
  exact absurd h (by decide)

theorem quoteByte_append {a b : UInt8} {r s : Name} (h : quoteByte a ++ r = quoteByte b ++ s) : a = b ∧ r = s := by
  unfold quoteByte at h
  split at h
  · next ha =>
    split at h
    · obtain ⟨hchar, hrest⟩ := cons_eq_cons.mp h
      exact ⟨ofUInt8_injective hchar, hrest⟩
    · exact absurd (cons_eq_cons.mp h).1 (ofUInt8_ne_percent ha)
  · split at h
    · next hb => exact absurd (cons_eq_cons.mp h).1.symm (ofUInt8_ne_percent hb)
    · simp only [cons_append, nil_append, List.cons.injEq, true_and] at h
      obtain ⟨hhigh, hlow, hrest⟩ := h
      have ha := a.toNat_lt
      have hb := b.toNat_lt
      have hhigh := hexDigit_injective _ (by omega) _ (by omega) hhigh
      have hlow := hexDigit_injective _ (by omega) _ (by omega) hlow
      exact ⟨UInt8.toNat_inj.mp (by omega), hrest⟩

theorem quoteByte_ne_nil (b : UInt8) : quoteByte b ≠ [] := by
  unfold quoteByte
  split <;> exact cons_ne_nil _ _

theorem flatMap_quoteByte_injective {a b : List UInt8} (h : a.flatMap quoteByte = b.flatMap quoteByte) : a = b := by
  induction a generalizing b with
  | nil =>
    cases b with
    | nil => rfl
    | cons y b =>
      rw [flatMap_nil, flatMap_cons] at h
      exact absurd (append_eq_nil_iff.mp h.symm).1 (quoteByte_ne_nil y)
  | cons x a ih =>
    cases b with
    | nil =>
      rw [flatMap_nil, flatMap_cons] at h
      exact absurd (append_eq_nil_iff.mp h).1 (quoteByte_ne_nil x)
    | cons y b =>
      rw [flatMap_cons, flatMap_cons] at h
      obtain ⟨rfl, hrest⟩ := quoteByte_append h
      rw [ih hrest]

theorem quote_injective {a b : String} (h : quote a = quote b) : a = b :=
  utf8_injective (flatMap_quoteByte_injective h)

example : stem (quote "1.0.1") = "1.0".toList ∧ stem (quote "1.") = "1.".toList ∧ quote "a/b" = "a%2Fb".toList := by
  decide

end AteStudio.FileName
