import AteStudio.Lib.Json

/-!
# JSON as characters

Documents are written without spaces. The reader takes every JSON text.
-/

namespace AteStudio.Json

open List

/-! ## Strings -/

def escape (c : Char) : List Char :=
  if c = '"' then ['\\', '"']
  else if c = '\\' then ['\\', '\\']
  else if c = '\x08' then ['\\', 'b']
  else if c = '\t' then ['\\', 't']
  else if c = '\n' then ['\\', 'n']
  else if c = '\x0c' then ['\\', 'f']
  else if c = '\r' then ['\\', 'r']
  else if c.toNat < 32 then ['\\', 'u', '0', '0', Nat.digitChar (c.toNat / 16), Nat.digitChar (c.toNat % 16)]
  else [c]

def writeString (s : String) : List Char := '"' :: (s.toList.flatMap escape ++ ['"'])

def unescape? : Char → Option Char
  | '"' => some '"'
  | '\\' => some '\\'
  | '/' => some '/'
  | 'b' => some '\x08'
  | 'f' => some '\x0c'
  | 'n' => some '\n'
  | 'r' => some '\r'
  | 't' => some '\t'
  | _ => none

def hexVal? (c : Char) : Option Nat :=
  if '0' ≤ c ∧ c ≤ '9' then some (c.toNat - 48)
  else if 'a' ≤ c ∧ c ≤ 'f' then some (c.toNat - 87)
  else if 'A' ≤ c ∧ c ≤ 'F' then some (c.toNat - 55)
  else none

def hex4? (a b c d : Char) : Option Nat := do
  let a ← hexVal? a
  let b ← hexVal? b
  let c ← hexVal? c
  let d ← hexVal? d
  return 4096 * a + 256 * b + 16 * c + d

/-- The code units up to the closing quote. A character that is not escaped counts as one. -/
def readUnits : List Char → Option (List Nat × List Char)
  | [] => none
  | '"' :: cs => some ([], cs)
  | '\\' :: 'u' :: a :: b :: c :: d :: cs => do
    let u ← hex4? a b c d
    let (us, rest) ← readUnits cs
    return (u :: us, rest)
  | '\\' :: c :: cs => do
    let e ← unescape? c
    let (us, rest) ← readUnits cs
    return (e.toNat :: us, rest)
  | c :: cs =>
    if c.toNat < 32 ∨ c = '\\' then none
    else do
      let (us, rest) ← readUnits cs
      return (c.toNat :: us, rest)

def isHigh (u : Nat) : Bool := 0xd800 ≤ u && u ≤ 0xdbff

def isLow (u : Nat) : Bool := 0xdc00 ≤ u && u ≤ 0xdfff

def joinUnits : List Nat → Option (List Char)
  | [] => some []
  | h :: us =>
    if isHigh h then
      match us with
      | l :: us =>
        if isLow l then (joinUnits us).map (Char.ofNat (0x10000 + 1024 * (h - 0xd800) + (l - 0xdc00)) :: ·) else none
      | [] => none
    else if isLow h then none
    else (joinUnits us).map (Char.ofNat h :: ·)

def readString (cs : List Char) : Option (String × List Char) := do
  let (us, rest) ← readUnits cs
  let s ← joinUnits us
  return (String.ofList s, rest)

/-! ## Numbers -/

def isNumberChar (c : Char) : Bool := c.isDigit || c = '-' || c = '+' || c = '.' || c = 'e' || c = 'E'

def isFloatMark (c : Char) : Bool := c = '.' || c = 'e' || c = 'E'

structure FloatFormat where
  write : Rat → List Char
  read? : List Char → Option Rat
  read_write : ∀ q, read? (write q) = some q
  numeric : ∀ q, ∀ c ∈ write q, isNumberChar c = true
  marked : ∀ q, (write q).any isFloatMark = true

def writeInt : Int → List Char
  | .ofNat n => Nat.toDigits 10 n
  | .negSucc n => '-' :: Nat.toDigits 10 (n + 1)

def readNat? (cs : List Char) : Option Nat :=
  let n := Nat.ofDigitChars 10 cs 0
  if Nat.toDigits 10 n = cs then some n else none

def readInt? : List Char → Option Int
  | '-' :: cs => (readNat? cs).map fun n => -n
  | cs => (readNat? cs).map fun n => n

/-! ## Documents -/

def isSpace (c : Char) : Bool := c = ' ' || c = '\t' || c = '\n' || c = '\r'

def skipSpace (cs : List Char) : List Char := cs.dropWhile isSpace

section Format

variable (F : FloatFormat)

def readNumber? (cs : List Char) : Option Text :=
  if cs.any isFloatMark then (F.read? cs).map .float else (readInt? cs).map .int

def write : Text → List Char
  | .null => ['n', 'u', 'l', 'l']
  | .bool true => ['t', 'r', 'u', 'e']
  | .bool false => ['f', 'a', 'l', 's', 'e']
  | .int i => writeInt i
  | .float q => F.write q
  | .str s => writeString s
  | .array [] => ['[', ']']
  | .array (x :: xs) => '[' :: (write x ++ writeItems xs)
  | .object [] => ['\x7b', '\x7d']
  | .object ((k, v) :: kvs) => '\x7b' :: (writeString k ++ ':' :: (write v ++ writeMembers kvs))
where
  writeItems : List Text → List Char
    | [] => [']']
    | x :: xs => ',' :: (write x ++ writeItems xs)
  writeMembers : List (String × Text) → List Char
    | [] => ['\x7d']
    | (k, v) :: kvs => ',' :: (writeString k ++ ':' :: (write v ++ writeMembers kvs))

mutual

def readValue : Nat → List Char → Option (Text × List Char)
  | 0, _ => none
  | n + 1, cs =>
    match skipSpace cs with
    | '"' :: cs => (readString cs).map fun r => (.str r.1, r.2)
    | '[' :: cs =>
      match skipSpace cs with
      | ']' :: cs => some (.array [], cs)
      | cs => (readItems n cs).map fun r => (.array r.1, r.2)
    | '\x7b' :: cs =>
      match skipSpace cs with
      | '\x7d' :: cs => some (.object [], cs)
      | cs => (readMembers n cs).map fun r => (.object r.1, r.2)
    | 'n' :: 'u' :: 'l' :: 'l' :: cs => some (.null, cs)
    | 't' :: 'r' :: 'u' :: 'e' :: cs => some (.bool true, cs)
    | 'f' :: 'a' :: 'l' :: 's' :: 'e' :: cs => some (.bool false, cs)
    | cs => (readNumber? F (cs.takeWhile isNumberChar)).map fun t => (t, cs.dropWhile isNumberChar)

def readItems : Nat → List Char → Option (List Text × List Char)
  | 0, _ => none
  | n + 1, cs => do
    let (t, cs) ← readValue n cs
    match skipSpace cs with
    | ',' :: cs => (readItems n cs).map fun r => (t :: r.1, r.2)
    | ']' :: cs => some ([t], cs)
    | _ => none

def readMembers : Nat → List Char → Option (List (String × Text) × List Char)
  | 0, _ => none
  | n + 1, cs =>
    match skipSpace cs with
    | '"' :: cs => do
      let (k, cs) ← readString cs
      match skipSpace cs with
      | ':' :: cs => do
        let (t, cs) ← readValue n cs
        match skipSpace cs with
        | ',' :: cs => (readMembers n cs).map fun r => ((k, t) :: r.1, r.2)
        | '\x7d' :: cs => some ([(k, t)], cs)
        | _ => none
      | _ => none
    | _ => none

end

def parse? (cs : List Char) : Option Text := do
  let (t, rest) ← readValue F cs.length cs
  if skipSpace rest = [] then some t else none

end Format

/-! ## What is written is read back -/

theorem hexVal?_digitChar : ∀ d < 16, hexVal? (Nat.digitChar d) = some d := by decide

theorem readUnits_escape (c : Char) (cs : List Char) :
    readUnits (escape c ++ cs) = (readUnits cs).map fun r => (c.toNat :: r.1, r.2) := by
  have hmap : ∀ u, (do let (us, rest) ← readUnits cs; return (u :: us, rest)) =
      (readUnits cs).map fun r => (u :: r.1, r.2) := by
    intro u
    cases readUnits cs <;> rfl
  unfold escape
  split_ifs with h₁ h₂ h₃ h₄ h₅ h₆ h₇ h₈
  iterate 7 · subst c; exact hmap _
  · have h := hexVal?_digitChar
    have hhex : hex4? '0' '0' (Nat.digitChar (c.toNat / 16)) (Nat.digitChar (c.toNat % 16)) = some c.toNat := by
      simp only [hex4?, h _ (show c.toNat / 16 < 16 by omega), h _ (show c.toNat % 16 < 16 by omega),
        show hexVal? '0' = some 0 from rfl, Option.bind_eq_bind, Option.bind_some, pure]
      congr 1
      omega
    simp only [cons_append, nil_append, readUnits, hhex, Option.bind_eq_bind, Option.bind_some]
    exact hmap _
  · rw [cons_append, nil_append, readUnits]
    · rw [if_neg (by tauto)]
      exact hmap _
    all_goals simp_all

theorem readUnits_flatMap (cs rest : List Char) :
    readUnits (cs.flatMap escape ++ '"' :: rest) = some (cs.map Char.toNat, rest) := by
  induction cs with
  | nil => rfl
  | cons c cs ih => rw [flatMap_cons, append_assoc, readUnits_escape, ih]; rfl

theorem joinUnits_toNat (cs : List Char) : joinUnits (cs.map Char.toNat) = some cs := by
  induction cs with
  | nil => rfl
  | cons c cs ih =>
    have hv : c.toNat < 0xd800 ∨ 0xdfff < c.toNat ∧ c.toNat < 0x110000 := c.valid
    have hh : isHigh c.toNat = false := by simp only [isHigh, Bool.and_eq_false_iff, decide_eq_false_iff_not]; omega
    have hl : isLow c.toNat = false := by simp only [isLow, Bool.and_eq_false_iff, decide_eq_false_iff_not]; omega
    rw [map_cons, joinUnits.eq_def]
    simp [hh, hl, ih, Char.ofNat_toNat]

@[simp] theorem readString_flatMap (s : String) (rest : List Char) :
    readString (s.toList.flatMap escape ++ '"' :: rest) = some (s, rest) := by
  simp [readString, readUnits_flatMap, joinUnits_toNat, String.ofList_toList]

theorem readNat?_toDigits (n : Nat) : readNat? (Nat.toDigits 10 n) = some n := by
  simp [readNat?, Nat.ofDigitChars_ten_toDigits]

theorem isDigit_of_mem_toDigits {n : Nat} {c : Char} (h : c ∈ Nat.toDigits 10 n) : c.isDigit = true :=
  Nat.isDigit_of_mem_toDigits (b := 10) (by decide) (by decide) h

theorem readInt?_writeInt (i : Int) : readInt? (writeInt i) = some i := by
  cases i with
  | ofNat n =>
    have hne : ∀ cs, Nat.toDigits 10 n ≠ '-' :: cs := fun cs h =>
      absurd (isDigit_of_mem_toDigits (h ▸ mem_cons_self)) (by decide)
    unfold writeInt readInt?
    split
    · next cs h => exact absurd h (hne cs)
    · rw [readNat?_toDigits]
      rfl
  | negSucc n =>
    rw [writeInt, readInt?, readNat?_toDigits]
    rfl

structure IsNumber (w : List Char) : Prop where
  ne_nil : w ≠ []
  numeric : ∀ c ∈ w, isNumberChar c = true

theorem isNumber_toDigits (n : Nat) : IsNumber (Nat.toDigits 10 n) where
  ne_nil := Nat.toDigits_ne_nil
  numeric c hc := by simp [isNumberChar, isDigit_of_mem_toDigits hc]

theorem isNumber_writeInt (i : Int) : IsNumber (writeInt i) := by
  cases i with
  | ofNat n => exact isNumber_toDigits n
  | negSucc n =>
    exact ⟨cons_ne_nil _ _, forall_mem_cons.mpr ⟨by decide, (isNumber_toDigits (n + 1)).numeric⟩⟩

theorem any_isFloatMark_writeInt (i : Int) : (writeInt i).any isFloatMark = false := by
  have hd (n : Nat) : ∀ c ∈ Nat.toDigits 10 n, isFloatMark c = false := by
    intro c hc
    have hdig := isDigit_of_mem_toDigits hc
    rw [Bool.eq_false_iff]
    intro hm
    simp only [isFloatMark, Bool.or_eq_true, decide_eq_true_eq] at hm
    rcases hm with (rfl | rfl) | rfl <;> exact absurd hdig (by decide)
  rw [any_eq_false]
  cases i with
  | ofNat n => exact fun c hc => by simp [hd n c hc]
  | negSucc n => exact forall_mem_cons.mpr ⟨by decide, fun c hc => by simp [hd (n + 1) c hc]⟩

/-- Floats as `numerator.denominator`: a format that every rational has. -/
def fractionFormat : FloatFormat where
  write q := writeInt q.num ++ '.' :: Nat.toDigits 10 q.den
  read? cs := do
    let n ← readInt? (cs.takeWhile (· ≠ '.'))
    let d ← readNat? (cs.dropWhile (· ≠ '.')).tail
    return mkRat n d
  read_write q := by
    have hdot : ∀ c ∈ writeInt q.num, (decide (c ≠ '.')) = true := by
      intro c hc
      have hmark := any_eq_false.mp (any_isFloatMark_writeInt q.num) c hc
      refine decide_eq_true fun h => hmark ?_
      rw [h]
      rfl
    rw [takeWhile_append_of_pos hdot, dropWhile_append_of_pos hdot]
    simp [readInt?_writeInt, readNat?_toDigits, Rat.mkRat_self]
  numeric q c hc := by
    rw [mem_append, mem_cons] at hc
    rcases hc with hc | rfl | hc
    · exact (isNumber_writeInt q.num).numeric c hc
    · rfl
    · exact (isNumber_toDigits q.den).numeric c hc
  marked q := by
    rw [any_append, any_cons, Bool.or_eq_true, Bool.or_eq_true]
    exact .inr (.inl rfl)

theorem isSpace_of_isNumberChar {c : Char} (hc : isNumberChar c = true) : isSpace c = false := by
  rw [Bool.eq_false_iff]
  intro h
  simp only [isSpace, Bool.or_eq_true, decide_eq_true_eq] at h
  rcases h with ((rfl | rfl) | rfl) | rfl <;> exact absurd hc (by decide)

theorem skipSpace_cons {c : Char} {cs : List Char} (h : isSpace c = false) : skipSpace (c :: cs) = c :: cs :=
  dropWhile_cons_of_neg (by simp [h])

def Ends (rest : List Char) : Prop := ∀ c cs, rest = c :: cs → isNumberChar c = false

theorem ends_nil : Ends [] := fun _ _ h => nomatch h

theorem ends_cons {c : Char} (h : isNumberChar c = false) (cs : List Char) : Ends (c :: cs) := by
  intro d ds he
  cases he
  exact h

theorem Ends.span {w rest : List Char} (hw : IsNumber w) (h : Ends rest) :
    (w ++ rest).takeWhile isNumberChar = w ∧ (w ++ rest).dropWhile isNumberChar = rest := by
  rw [takeWhile_append_of_pos hw.numeric, dropWhile_append_of_pos hw.numeric]
  cases rest with
  | nil => simp
  | cons c cs => simp [h c cs rfl]

section Format

variable (F : FloatFormat)

theorem isNumber_float (q : Rat) : IsNumber (F.write q) := by
  refine ⟨fun h => ?_, F.numeric q⟩
  have := F.marked q
  rw [h] at this
  cases this

theorem readValue_number {w rest : List Char} (hw : IsNumber w) (hrest : Ends rest) (n : Nat) :
    readValue F (n + 1) (w ++ rest) = (readNumber? F w).map fun t => (t, rest) := by
  obtain ⟨c, cs, rfl⟩ := exists_cons_of_ne_nil hw.ne_nil
  have hc := hw.numeric c mem_cons_self
  have hspan := hrest.span hw
  unfold readValue
  rw [cons_append, skipSpace_cons (isSpace_of_isNumberChar hc), ← cons_append]
  split
  iterate 6
    · next he =>
      rw [cons_append, List.cons.injEq] at he
      obtain ⟨rfl, -⟩ := he
      exact absurd hc (by decide)
  · rw [hspan.1, hspan.2]

theorem write_head (t : Text) : ∃ c cs, write F t = c :: cs ∧ isSpace c = false ∧ c ≠ ']' := by
  have hnum {w : List Char} (hw : IsNumber w) : ∃ c cs, w = c :: cs ∧ isSpace c = false ∧ c ≠ ']' := by
    obtain ⟨c, cs, rfl⟩ := exists_cons_of_ne_nil hw.ne_nil
    have hc := hw.numeric c mem_cons_self
    exact ⟨c, cs, rfl, isSpace_of_isNumberChar hc, fun h => absurd (h ▸ hc) (by decide)⟩
  cases t with
  | int i => exact hnum (isNumber_writeInt i)
  | float q => exact hnum (isNumber_float F q)
  | bool b => cases b <;> exact ⟨_, _, rfl, by decide, by decide⟩
  | array xs => cases xs <;> exact ⟨_, _, rfl, by decide, by decide⟩
  | object kvs => cases kvs <;> exact ⟨_, _, rfl, by decide, by decide⟩
  | _ => exact ⟨_, _, rfl, by decide, by decide⟩

open write (writeItems writeMembers)

mutual

theorem readValue_write : ∀ (t : Text) (n : Nat) (rest : List Char), (write F t).length ≤ n → Ends rest →
    readValue F n (write F t ++ rest) = some (t, rest)
  | t, 0, _, hn, _ => by
    obtain ⟨c, cs, hw, _⟩ := write_head F t
    simp [hw] at hn
  | .null, n + 1, _, _, _ => rfl
  | .bool true, n + 1, _, _, _ => rfl
  | .bool false, n + 1, _, _, _ => rfl
  | .int i, n + 1, rest, _, hr => by
    rw [write, readValue_number F (isNumber_writeInt i) hr, readNumber?, any_isFloatMark_writeInt, readInt?_writeInt]
    rfl
  | .float q, n + 1, rest, _, hr => by
    rw [write, readValue_number F (isNumber_float F q) hr, readNumber?, F.marked, if_pos rfl, F.read_write]
    rfl
  | .str s, n + 1, rest, _, _ => by
    rw [write, writeString, cons_append, append_assoc, singleton_append]
    unfold readValue
    rw [skipSpace_cons (by decide)]
    simp
  | .array [], n + 1, _, _, _ => rfl
  | .object [], n + 1, _, _, _ => rfl
  | .array (x :: xs), n + 1, rest, hn, _ => by
    simp only [write, length_cons] at hn
    have hitems := readItems_write x xs n rest (by omega)
    obtain ⟨c, cs, hw, hs, hne⟩ := write_head F x
    rw [hw] at hitems
    rw [write, hw]
    simp only [cons_append] at hitems ⊢
    unfold readValue
    rw [skipSpace_cons (by decide)]
    simp only [skipSpace_cons hs]
    split
    · next he => cases he; exact absurd rfl hne
    · rw [hitems]
      rfl
  | .object ((k, v) :: kvs), n + 1, rest, hn, _ => by
    simp only [write, length_cons] at hn
    have hmembers := readMembers_write k v kvs n rest (by omega)
    rw [write]
    simp only [writeString, cons_append] at hmembers ⊢
    unfold readValue
    rw [skipSpace_cons (by decide)]
    simp only [skipSpace_cons (show isSpace '"' = false by decide)]
    split
    · next he => simp at he
    · rw [hmembers]
      rfl

theorem readItems_write : ∀ (x : Text) (xs : List Text) (n : Nat) (rest : List Char),
    (write F x ++ writeItems F xs).length ≤ n →
    readItems F n (write F x ++ writeItems F xs ++ rest) = some (x :: xs, rest)
  | x, xs, 0, _, hn => by
    obtain ⟨c, cs, hw, _⟩ := write_head F x
    simp [hw] at hn
  | x, [], n + 1, rest, hn => by
    simp only [writeItems, length_append, length_singleton] at hn
    rw [writeItems, append_assoc, singleton_append]
    unfold readItems
    rw [readValue_write x n _ (by omega) (ends_cons (by decide) _)]
    simp [skipSpace_cons (show isSpace ']' = false by decide)]
  | x, y :: ys, n + 1, rest, hn => by
    simp only [writeItems, length_append, length_cons] at hn
    have htail := readItems_write y ys n rest (by simp; omega)
    rw [append_assoc] at htail
    rw [writeItems, append_assoc, cons_append, append_assoc]
    unfold readItems
    rw [readValue_write x n _ (by omega) (ends_cons (by decide) _)]
    simp [skipSpace_cons (show isSpace ',' = false by decide), htail]

theorem readMembers_write : ∀ (k : String) (v : Text) (kvs : List (String × Text)) (n : Nat) (rest : List Char),
    (writeString k ++ ':' :: (write F v ++ writeMembers F kvs)).length ≤ n →
    readMembers F n (writeString k ++ ':' :: (write F v ++ writeMembers F kvs) ++ rest) = some ((k, v) :: kvs, rest)
  | k, v, kvs, 0, _, hn => by simp [writeString] at hn
  | k, v, [], n + 1, rest, hn => by
    simp only [writeMembers, length_append, length_cons, length_nil] at hn
    simp only [writeString, writeMembers, append_assoc, cons_append, nil_append]
    unfold readMembers
    rw [skipSpace_cons (by decide)]
    have hv := readValue_write v n ('\x7d' :: rest) (by omega) (ends_cons (by decide) _)
    simp [skipSpace_cons (show isSpace ':' = false by decide), skipSpace_cons (show isSpace '\x7d' = false by decide), hv]
  | k, v, (k', v') :: kvs, n + 1, rest, hn => by
    simp only [writeMembers, length_append, length_cons] at hn
    have htail := readMembers_write k' v' kvs n rest (by simp; omega)
    have hv := readValue_write v n (',' :: (writeString k' ++ ':' :: (write F v' ++ writeMembers F kvs) ++ rest))
      (by omega) (ends_cons (by decide) _)
    simp only [writeString, writeMembers, append_assoc, cons_append, nil_append] at htail hv ⊢
    unfold readMembers
    rw [skipSpace_cons (by decide)]
    simp [skipSpace_cons (show isSpace ':' = false by decide), skipSpace_cons (show isSpace ',' = false by decide), hv,
      htail]

end

theorem parse?_write (t : Text) : parse? F (write F t) = some t := by
  have h := readValue_write F t (write F t).length [] le_rfl ends_nil
  rw [append_nil] at h
  simp only [parse?, h, Option.bind_eq_bind, Option.bind_some]
  rfl

end Format

end AteStudio.Json
