import Mathlib.Data.List.Basic

/-!
# JSON texts

The compact text of a value, and a reader of such texts. Reading a written text
gives the value back, whatever follows it (`readValue_write`), so the text
determines the value (`write_inj`).
-/

namespace FeedMux.Library

/-- A number that is written with a fraction or an exponent, digit by digit. A float
is the numeral that it is written as. -/
structure Decimal where
  negative : Bool
  whole : Nat
  fraction : List (Fin 10)
  exponent : Option Int
  not_integer : fraction ≠ [] ∨ exponent.isSome
  deriving DecidableEq, Repr

/-- The fields of an object stand in the order written. -/
inductive Json where
  | null
  | bool (b : Bool)
  | num (n : Int)
  | decimal (d : Decimal)
  | str (s : String)
  | arr (items : List Json)
  | obj (fields : List (String × Json))
  deriving Repr

namespace Json

/-! ## Strings -/

/-- The letter after a backslash, and the character it stands for. -/
def shortEscapes : List (Char × Char) :=
  [('\x22', '\x22'), ('\x5c', '\x5c'), ('b', '\x08'), ('f', '\x0c'), ('n', '\n'), ('r', '\r'),
    ('t', '\t')]

def hexDigits : List Char := "0123456789abcdef".toList

def hexDigit (n : Nat) : Char := hexDigits.getD n '0'

def hexValue (c : Char) : Option Nat := hexDigits.idxOf? c

def escapeChar (c : Char) : List Char :=
  match shortEscapes.find? fun e => e.2 == c with
  | some e => ['\x5c', e.1]
  | none =>
    if c.toNat < 0x20 then
      ['\x5c', 'u', '0', '0', hexDigit (c.toNat / 16), hexDigit (c.toNat % 16)]
    else [c]

def quote (s : String) : List Char :=
  '\x22' :: (s.toList.flatMap escapeChar ++ ['\x22'])

def unescape (letter : Char) : Option Char :=
  (shortEscapes.find? fun e => e.1 == letter).map Prod.snd

/-- Four hexadecimal digits; no surrogates. -/
def readHex (a b c d : Char) : Option Char := do
  let n := ((((← hexValue a) * 16 + (← hexValue b)) * 16 + (← hexValue c)) * 16 + (← hexValue d))
  if n.isValidChar then return Char.ofNat n else none

/-- The characters up to the closing quote. -/
def readChars : List Char → Option (List Char × List Char)
  | '\x5c' :: 'u' :: a :: b :: c :: d :: rest => do
    let x ← readHex a b c d
    let (cs, rest) ← readChars rest
    return (x :: cs, rest)
  | '\x5c' :: letter :: rest => do
    let x ← unescape letter
    let (cs, rest) ← readChars rest
    return (x :: cs, rest)
  | c :: rest =>
    if c = '\x22' then some ([], rest)
    else if c = '\x5c' ∨ c.toNat < 0x20 then none
    else do
      let (cs, rest) ← readChars rest
      return (c :: cs, rest)
  | [] => none

def readString (text : List Char) : Option (String × List Char) :=
  (readChars text).map fun read => (String.ofList read.1, read.2)

/-! ## Numbers -/

def digitChar (d : Fin 10) : Char := Nat.digitChar d

def digitOf (c : Char) : Fin 10 := Fin.ofNat 10 (c.toNat - '0'.toNat)

def writeInt : Int → List Char
  | .ofNat n => Nat.toDigits 10 n
  | .negSucc n => '-' :: Nat.toDigits 10 (n + 1)

def writeFraction (fraction : List (Fin 10)) : List Char :=
  if fraction.isEmpty then [] else '.' :: fraction.map digitChar

def writeExponent : Option Int → List Char
  | none => []
  | some n => 'e' :: writeInt n

def writeDecimal (d : Decimal) : List Char :=
  (if d.negative then ['-'] else []) ++
    (Nat.toDigits 10 d.whole ++ (writeFraction d.fraction ++ writeExponent d.exponent))

/-- The digits at the beginning, of which there is one at least. -/
def readDigits (text : List Char) : Option (List Char × List Char) :=
  let digits := text.takeWhile Char.isDigit
  if digits.isEmpty then none else some (digits, text.dropWhile Char.isDigit)

def readNat (text : List Char) : Option (Nat × List Char) :=
  (readDigits text).map fun read => (Nat.ofDigitChars 10 read.1 0, read.2)

def readInt : List Char → Option (Int × List Char)
  | '-' :: rest => (readNat rest).map fun read => (-read.1, read.2)
  | text => (readNat text).map fun read => (read.1, read.2)

def readFraction : List Char → Option (List (Fin 10) × List Char)
  | '.' :: rest => (readDigits rest).map fun read => (read.1.map digitOf, read.2)
  | text => some ([], text)

def readExponent : List Char → Option (Option Int × List Char)
  | 'e' :: rest => (readInt rest).map fun read => (some read.1, read.2)
  | text => some (none, text)

/-- Without fraction and exponent it is an integer. -/
def ofParts (negative : Bool) (whole : Nat) (fraction : List (Fin 10)) (exponent : Option Int) :
    Json :=
  if h : fraction ≠ [] ∨ exponent.isSome then .decimal ⟨negative, whole, fraction, exponent, h⟩
  else .num (if negative then -whole else whole)

/-- A number whose sign has been read. -/
def readUnsigned (negative : Bool) (text : List Char) : Option (Json × List Char) := do
  let (whole, rest) ← readNat text
  let (fraction, rest) ← readFraction rest
  let (exponent, rest) ← readExponent rest
  return (ofParts negative whole fraction exponent, rest)

def readNum : List Char → Option (Json × List Char)
  | '-' :: rest => readUnsigned true rest
  | text => readUnsigned false text

/-! ## Values -/

mutual
def write : Json → List Char
  | .null => "null".toList
  | .bool true => "true".toList
  | .bool false => "false".toList
  | .num n => writeInt n
  | .decimal d => writeDecimal d
  | .str s => quote s
  | .arr [] => ['[', ']']
  | .arr (v :: items) => '[' :: (write v ++ writeItems items)
  | .obj [] => ['\x7b', '\x7d']
  | .obj ((key, v) :: fields) => '\x7b' :: (quote key ++ ':' :: write v ++ writeFields fields)

def writeItems : List Json → List Char
  | [] => [']']
  | v :: items => ',' :: (write v ++ writeItems items)

def writeFields : List (String × Json) → List Char
  | [] => ['\x7d']
  | (key, v) :: fields => ',' :: (quote key ++ ':' :: write v ++ writeFields fields)
end

/-- A literal whose first letter has been read. -/
def readRest (v : Json) (letters text : List Char) : Option (Json × List Char) :=
  if letters.isPrefixOf text then some (v, text.drop letters.length) else none

/-- A key and the colon after it. -/
def readKey : List Char → Option (String × List Char)
  | '\x22' :: rest =>
    match readString rest with
    | some (key, ':' :: rest) => some (key, rest)
    | _ => none
  | _ => none

mutual
def readValue : Nat → List Char → Option (Json × List Char)
  | 0, _ | _ + 1, [] => none
  | fuel + 1, c :: rest =>
    if c = '\x22' then (readString rest).map fun read => (.str read.1, read.2)
    else if c = '[' then
      if rest.head? = some ']' then some (.arr [], rest.tail)
      else do
        let (v, rest) ← readValue fuel rest
        let (items, rest) ← readItems fuel rest
        return (.arr (v :: items), rest)
    else if c = '\x7b' then
      if rest.head? = some '\x7d' then some (.obj [], rest.tail)
      else do
        let (key, rest) ← readKey rest
        let (v, rest) ← readValue fuel rest
        let (fields, rest) ← readFields fuel rest
        return (.obj ((key, v) :: fields), rest)
    else if c = 'n' then readRest .null "ull".toList rest
    else if c = 't' then readRest (.bool true) "rue".toList rest
    else if c = 'f' then readRest (.bool false) "alse".toList rest
    else readNum (c :: rest)

def readItems : Nat → List Char → Option (List Json × List Char)
  | 0, _ | _ + 1, [] => none
  | fuel + 1, c :: rest =>
    if c = ']' then some ([], rest)
    else if c = ',' then do
      let (v, rest) ← readValue fuel rest
      let (items, rest) ← readItems fuel rest
      return (v :: items, rest)
    else none

def readFields : Nat → List Char → Option (List (String × Json) × List Char)
  | 0, _ | _ + 1, [] => none
  | fuel + 1, c :: rest =>
    if c = '\x7d' then some ([], rest)
    else if c = ',' then do
      let (key, rest) ← readKey rest
      let (v, rest) ← readValue fuel rest
      let (fields, rest) ← readFields fuel rest
      return ((key, v) :: fields, rest)
    else none
end

/-- A text that is one value. -/
def read (text : String) : Option Json :=
  match readValue text.toList.length text.toList with
  | some (v, []) => some v
  | _ => none

def text (v : Json) : String := String.ofList v.write

/-- The value of the first field with this key. -/
def get? (key : String) : Json → Option Json
  | .obj fields => (fields.find? fun field => field.1 == key).map Prod.snd
  | _ => none

/-! ## Reading what was written -/

theorem hexValue_hexDigit : ∀ n < 16, hexValue (hexDigit n) = some n := by decide

/-- How a character is written inside a string. -/
inductive Escaped (c : Char) : List Char → Prop where
  | short (letter : Char) : unescape letter = some c → letter ≠ 'u' → Escaped c ['\x5c', letter]
  | control : c.toNat < 0x20 →
    Escaped c ['\x5c', 'u', '0', '0', hexDigit (c.toNat / 16), hexDigit (c.toNat % 16)]
  | plain : c ≠ '\x22' → c ≠ '\x5c' → ¬ c.toNat < 0x20 → Escaped c [c]

theorem shortEscapes_read : ∀ e ∈ shortEscapes, unescape e.1 = some e.2 ∧ e.1 ≠ 'u' := by decide

theorem escapeChar_escaped (c : Char) : Escaped c (escapeChar c) := by
  unfold escapeChar
  cases hfind : shortEscapes.find? fun e => e.2 == c with
  | some e =>
    obtain ⟨hread, hu⟩ := shortEscapes_read e (List.mem_of_find?_eq_some hfind)
    have hc : e.2 = c := by simpa using List.find?_some hfind
    rw [hc] at hread
    exact .short e.1 hread hu
  | none =>
    have hother : ∀ e ∈ shortEscapes, e.2 ≠ c := by simpa using hfind
    simp only
    split
    · exact .control ‹_›
    · exact .plain (hother ('\x22', '\x22') (by decide)).symm
        (hother ('\x5c', '\x5c') (by decide)).symm ‹_›

theorem readHex_control {c : Char} (h : c.toNat < 0x20) :
    readHex '0' '0' (hexDigit (c.toNat / 16)) (hexDigit (c.toNat % 16)) = some c := by
  have hhigh := hexValue_hexDigit (c.toNat / 16) (by omega)
  have hlow := hexValue_hexDigit (c.toNat % 16) (Nat.mod_lt _ (by decide))
  have hzero : hexValue '0' = some 0 := by decide
  have hn : ((0 * 16 + 0) * 16 + c.toNat / 16) * 16 + c.toNat % 16 = c.toNat := by omega
  simp only [readHex, hzero, hhigh, hlow, Option.bind_eq_bind, Option.bind_some, hn]
  have hvalid : c.toNat.isValidChar := c.valid
  rw [if_pos hvalid, Char.ofNat_toNat]
  rfl

theorem readChars_escapeChar (c : Char) (text : List Char) :
    readChars (escapeChar c ++ text) =
      (readChars text).map fun read => (c :: read.1, read.2) := by
  have hbind : ∀ r : Option (List Char × List Char),
      (r.bind fun read => some (c :: read.1, read.2)) =
        r.map fun read => (c :: read.1, read.2) := by
    intro r
    cases r <;> rfl
  have he := escapeChar_escaped c
  generalize escapeChar c = written at he
  cases he with
  | short letter hread hu =>
    rw [List.cons_append, List.cons_append, List.nil_append, readChars]
    · simpa [hread] using hbind _
    · intro a b c d rest hl
      exact absurd hl hu
  | control h =>
    simpa [readChars, readHex_control h] using hbind _
  | plain hq hs hc =>
    rw [List.cons_append, List.nil_append, readChars]
    · simpa [hq, hs, hc] using hbind _
    · intro a b c d rest hl
      exact absurd hl hs
    · intro letter rest hl
      exact absurd hl hs

theorem readString_quote (s : String) (text : List Char) :
    readString (s.toList.flatMap escapeChar ++ ('\x22' :: text)) = some (s, text) := by
  have hchars : ∀ cs : List Char,
      readChars (cs.flatMap escapeChar ++ ('\x22' :: text)) = some (cs, text) := by
    intro cs
    induction cs with
    | nil => simp [readChars]
    | cons c cs ih =>
      rw [List.flatMap_cons, List.append_assoc, readChars_escapeChar, ih]
      rfl
  rw [readString, hchars]
  simp

theorem readKey_quote (key : String) (text : List Char) :
    readKey (quote key ++ ':' :: text) = some (key, text) := by
  simp only [quote, List.cons_append, List.append_assoc, List.nil_append, readKey,
    readString_quote]

/-- What may follow a number: nothing that would go on with it. -/
def EndsNumber (text : List Char) : Prop :=
  ∀ c ∈ text.head?, c.isDigit = false ∧ c ≠ '.' ∧ c ≠ 'e'

theorem EndsNumber.noDigit {text : List Char} (h : EndsNumber text) :
    ∀ c ∈ text.head?, c.isDigit = false := fun c hc => (h c hc).1

theorem digitChar_read : ∀ d : Fin 10, (digitChar d).isDigit ∧ digitOf (digitChar d) = d := by
  decide

theorem ne_of_isDigit {c other : Char} (h : c.isDigit) (ho : other.isDigit = false) :
    c ≠ other := by
  rintro rfl
  rw [h] at ho
  cases ho

theorem readDigits_append {digits text : List Char} (hne : digits ≠ [])
    (hdigits : ∀ c ∈ digits, c.isDigit) (h : ∀ c ∈ text.head?, c.isDigit = false) :
    readDigits (digits ++ text) = some (digits, text) := by
  have htake : text.takeWhile Char.isDigit = [] ∧ text.dropWhile Char.isDigit = text := by
    cases text with
    | nil => exact ⟨rfl, rfl⟩
    | cons c text =>
      have hc : c.isDigit = false := h c rfl
      simp [hc]
  unfold readDigits
  rw [List.takeWhile_append_of_pos hdigits, List.dropWhile_append_of_pos hdigits, htake.1,
    htake.2, List.append_nil]
  simp [hne]

theorem readNat_toDigits (n : Nat) {text : List Char}
    (h : ∀ c ∈ text.head?, c.isDigit = false) :
    readNat (Nat.toDigits 10 n ++ text) = some (n, text) := by
  have hdigits : ∀ c ∈ Nat.toDigits 10 n, c.isDigit := by
    intro c hc
    exact Nat.isDigit_of_mem_toDigits (by decide) (by decide) hc
  rw [readNat, readDigits_append Nat.toDigits_ne_nil hdigits h, Option.map_some,
    Nat.ofDigitChars_ten_toDigits]

theorem toDigits_cons (n : Nat) : ∃ c rest, Nat.toDigits 10 n = c :: rest ∧ c.isDigit := by
  cases h : Nat.toDigits 10 n with
  | nil => exact absurd h Nat.toDigits_ne_nil
  | cons c rest =>
    refine ⟨c, rest, rfl, ?_⟩
    apply Nat.isDigit_of_mem_toDigits (b := 10) (n := n) (by decide) (by decide)
    simp [h]

theorem readInt_write (n : Int) {text : List Char}
    (h : ∀ c ∈ text.head?, c.isDigit = false) :
    readInt (writeInt n ++ text) = some (n, text) := by
  cases n with
  | ofNat n =>
    obtain ⟨c, rest, hcons, hc⟩ := toDigits_cons n
    have hread := readNat_toDigits n h
    rw [writeInt]
    rw [hcons, List.cons_append] at hread ⊢
    unfold readInt
    split
    · rename_i heq
      exact absurd (List.cons.inj heq).1 (ne_of_isDigit hc (by decide))
    · rw [hread]
      rfl
  | negSucc n =>
    rw [writeInt, List.cons_append, readInt, readNat_toDigits (n + 1) h]
    rfl

theorem readFraction_write (fraction : List (Fin 10)) {text : List Char}
    (h : ∀ c ∈ text.head?, c.isDigit = false ∧ c ≠ '.') :
    readFraction (writeFraction fraction ++ text) = some (fraction, text) := by
  cases fraction with
  | nil =>
    cases text with
    | nil => rfl
    | cons c text =>
      unfold writeFraction readFraction
      split
      · rename_i heq
        exact absurd (List.cons.inj heq).1 (h c rfl).2
      · rfl
  | cons d fraction =>
    have hdigits : ∀ c ∈ (d :: fraction).map digitChar, c.isDigit := by
      intro c hc
      obtain ⟨d, -, rfl⟩ := List.mem_map.mp hc
      exact (digitChar_read d).1
    have hback : ((d :: fraction).map digitChar).map digitOf = d :: fraction := by
      rw [List.map_map]
      exact List.map_id'' (fun d => (digitChar_read d).2) _
    have hwrite : writeFraction (d :: fraction) = '.' :: (d :: fraction).map digitChar := rfl
    rw [hwrite, List.cons_append, readFraction,
      readDigits_append (by simp) hdigits fun c hc => (h c hc).1, Option.map_some, hback]

theorem readExponent_write (exponent : Option Int) {text : List Char} (h : EndsNumber text) :
    readExponent (writeExponent exponent ++ text) = some (exponent, text) := by
  cases exponent with
  | none =>
    cases text with
    | nil => rfl
    | cons c text =>
      unfold writeExponent readExponent
      split
      · rename_i heq
        exact absurd (List.cons.inj heq).1 (h c rfl).2.2
      · rfl
  | some n =>
    rw [writeExponent, List.cons_append, readExponent, readInt_write n h.noDigit]
    rfl

/-- **Numbers.** Each part ends where the next begins. -/
theorem readUnsigned_write (negative : Bool) (whole : Nat) (fraction : List (Fin 10))
    (exponent : Option Int) {text : List Char} (h : EndsNumber text) :
    readUnsigned negative (Nat.toDigits 10 whole ++
      (writeFraction fraction ++ (writeExponent exponent ++ text))) =
        some (ofParts negative whole fraction exponent, text) := by
  have hexponent : ∀ c ∈ (writeExponent exponent ++ text).head?, c.isDigit = false ∧ c ≠ '.' := by
    intro c hc
    cases exponent with
    | none => exact ⟨(h c hc).1, (h c hc).2.1⟩
    | some n =>
      obtain rfl : 'e' = c := Option.some.inj hc
      decide
  have hfraction : ∀ c ∈ (writeFraction fraction ++ (writeExponent exponent ++ text)).head?,
      c.isDigit = false := by
    intro c hc
    cases fraction with
    | nil => exact (hexponent c hc).1
    | cons d fraction =>
      obtain rfl : '.' = c := Option.some.inj hc
      decide
  rw [readUnsigned, readNat_toDigits whole hfraction]
  simp only [Option.bind_eq_bind, Option.bind_some, readFraction_write fraction hexponent,
    readExponent_write exponent h]
  rfl

theorem readNum_positive (whole : Nat) (rest : List Char) :
    readNum (Nat.toDigits 10 whole ++ rest) =
      readUnsigned false (Nat.toDigits 10 whole ++ rest) := by
  obtain ⟨c, digits, hcons, hc⟩ := toDigits_cons whole
  rw [hcons, List.cons_append]
  unfold readNum
  split
  · rename_i heq
    exact absurd (List.cons.inj heq).1 (ne_of_isDigit hc (by decide))
  · rfl

theorem readNum_int (n : Int) {text : List Char} (h : EndsNumber text) :
    readNum (writeInt n ++ text) = some (.num n, text) := by
  cases n with
  | ofNat n =>
    rw [writeInt, readNum_positive]
    exact readUnsigned_write false n [] none h
  | negSucc n => exact readUnsigned_write true (n + 1) [] none h

theorem readNum_decimal (d : Decimal) {text : List Char} (h : EndsNumber text) :
    readNum (writeDecimal d ++ text) = some (.decimal d, text) := by
  obtain ⟨negative, whole, fraction, exponent, hparts⟩ := d
  have hread := readUnsigned_write negative whole fraction exponent h
  rw [ofParts, dif_pos hparts] at hread
  unfold writeDecimal
  cases negative with
  | false =>
    simp only [Bool.false_eq_true, ↓reduceIte, List.nil_append, List.append_assoc]
    rw [readNum_positive]
    exact hread
  | true =>
    simp only [↓reduceIte, List.cons_append, List.nil_append, List.append_assoc]
    exact hread

/-- A number begins like no other value. -/
theorem writeInt_cons (n : Int) : ∃ c rest, writeInt n = c :: rest ∧ (c.isDigit ∨ c = '-') := by
  cases n with
  | ofNat n =>
    obtain ⟨c, rest, hcons, hc⟩ := toDigits_cons n
    exact ⟨c, rest, hcons, .inl hc⟩
  | negSucc n => exact ⟨'-', _, rfl, .inr rfl⟩

theorem writeDecimal_cons (d : Decimal) :
    ∃ c rest, writeDecimal d = c :: rest ∧ (c.isDigit ∨ c = '-') := by
  obtain ⟨negative, whole, fraction, exponent, hparts⟩ := d
  cases negative with
  | false =>
    obtain ⟨c, rest, hcons, hc⟩ := toDigits_cons whole
    refine ⟨c, rest ++ (writeFraction fraction ++ writeExponent exponent), ?_, .inl hc⟩
    simp [writeDecimal, hcons]
  | true => exact ⟨'-', _, rfl, .inr rfl⟩

theorem ne_of_starts {c other : Char} (hc : c.isDigit ∨ c = '-') (hd : other.isDigit = false)
    (hm : other ≠ '-') : c ≠ other := by
  rcases hc with hc | rfl
  · exact ne_of_isDigit hc hd
  · exact hm.symm

/-- A value's text is not empty, and does not begin like the end of a list. -/
theorem write_cons (v : Json) : ∃ c rest, v.write = c :: rest ∧ c ≠ ']' := by
  cases v with
  | null => exact ⟨'n', _, rfl, by decide⟩
  | bool b => cases b <;> exact ⟨_, _, rfl, by decide⟩
  | num n =>
    obtain ⟨c, rest, hcons, hc⟩ := writeInt_cons n
    exact ⟨c, rest, by rw [write, hcons], ne_of_starts hc (by decide) (by decide)⟩
  | decimal d =>
    obtain ⟨c, rest, hcons, hc⟩ := writeDecimal_cons d
    exact ⟨c, rest, by rw [write, hcons], ne_of_starts hc (by decide) (by decide)⟩
  | str s => exact ⟨'\x22', _, by rw [write, quote], by decide⟩
  | arr items => cases items <;> exact ⟨'[', _, by rw [write], by decide⟩
  | obj fields => cases fields <;> exact ⟨'\x7b', _, by rw [write], by decide⟩

/-- A number is read when no other kind of value begins like it. -/
theorem readValue_num {written text : List Char} {v : Json}
    (hw : ∃ c rest, written = c :: rest ∧ (c.isDigit ∨ c = '-'))
    (h : readNum (written ++ text) = some (v, text)) (fuel : Nat) :
    readValue (fuel + 1) (written ++ text) = some (v, text) := by
  obtain ⟨c, rest, rfl, hc⟩ := hw
  rw [List.cons_append] at h ⊢
  have hne : ∀ other : Char, other.isDigit = false → other ≠ '-' → c ≠ other :=
    fun _ => ne_of_starts hc
  rw [readValue, if_neg (hne _ (by decide) (by decide)), if_neg (hne _ (by decide) (by decide)),
    if_neg (hne _ (by decide) (by decide)), if_neg (hne _ (by decide) (by decide)),
    if_neg (hne _ (by decide) (by decide)), if_neg (hne _ (by decide) (by decide)), h]

theorem endsNumber_items (items : List Json) (text : List Char) :
    EndsNumber (writeItems items ++ text) := by
  cases items <;> simp [EndsNumber, writeItems]

theorem endsNumber_fields (fields : List (String × Json)) (text : List Char) :
    EndsNumber (writeFields fields ++ text) := by
  cases fields <;> simp [EndsNumber, writeFields]

mutual
/-- **Round trip.** A value is read back from its text, whatever follows. -/
theorem readValue_write (v : Json) (fuel : Nat) (text : List Char)
    (hfuel : v.write.length ≤ fuel) (h : EndsNumber text) :
    readValue fuel (v.write ++ text) = some (v, text) := by
  cases fuel with
  | zero =>
    obtain ⟨c, rest, hcons, -⟩ := write_cons v
    rw [hcons] at hfuel
    cases hfuel
  | succ fuel =>
    match v with
    | .null => simp [write, readValue, readRest]
    | .bool true => simp [write, readValue, readRest]
    | .bool false => simp [write, readValue, readRest]
    | .num n =>
      rw [write]
      exact readValue_num (writeInt_cons n) (readNum_int n h) fuel
    | .decimal d =>
      rw [write]
      exact readValue_num (writeDecimal_cons d) (readNum_decimal d h) fuel
    | .str s =>
      simp [write, quote, readValue, readString_quote]
    | .arr [] => simp [write, readValue]
    | .arr (v :: items) =>
      rw [write, List.length_cons, List.length_append] at hfuel
      have hv := readValue_write v fuel (writeItems items ++ text) (by omega)
        (endsNumber_items items text)
      have hitems := readItems_write items fuel text (by omega)
      have hhead : (v.write ++ (writeItems items ++ text)).head? ≠ some ']' := by
        obtain ⟨c, rest, hcons, hc⟩ := write_cons v
        simpa [hcons] using hc
      rw [write, List.cons_append, List.append_assoc, readValue, if_neg (by decide), if_pos rfl,
        if_neg hhead, hv]
      simp [hitems]
    | .obj [] => simp [write, readValue]
    | .obj ((key, v) :: fields) =>
      rw [write, List.length_cons, List.length_append, List.length_append] at hfuel
      have hv := readValue_write v fuel (writeFields fields ++ text)
        (by simp only [List.length_cons] at hfuel; omega) (endsNumber_fields fields text)
      have hfields := readFields_write fields fuel text (by omega)
      have hkey := readKey_quote key (v.write ++ (writeFields fields ++ text))
      have hhead : (quote key ++ ':' :: (v.write ++ (writeFields fields ++ text))).head? ≠
          some '\x7d' := by simp [quote]
      rw [write, List.cons_append, List.append_assoc, List.append_assoc, List.cons_append,
        readValue, if_neg (by decide), if_neg (by decide), if_pos rfl, if_neg hhead, hkey]
      simp [hv, hfields]

theorem readItems_write (items : List Json) (fuel : Nat) (text : List Char)
    (hfuel : (writeItems items).length ≤ fuel) :
    readItems fuel (writeItems items ++ text) = some (items, text) := by
  cases fuel with
  | zero => cases items <;> simp [writeItems] at hfuel
  | succ fuel =>
    match items with
    | [] => simp [writeItems, readItems]
    | v :: items =>
      rw [writeItems, List.length_cons, List.length_append] at hfuel
      have hv := readValue_write v fuel (writeItems items ++ text) (by omega)
        (endsNumber_items items text)
      have hitems := readItems_write items fuel text (by omega)
      simp [writeItems, readItems, hv, hitems]

theorem readFields_write (fields : List (String × Json)) (fuel : Nat) (text : List Char)
    (hfuel : (writeFields fields).length ≤ fuel) :
    readFields fuel (writeFields fields ++ text) = some (fields, text) := by
  cases fuel with
  | zero => cases fields <;> simp [writeFields] at hfuel
  | succ fuel =>
    match fields with
    | [] => simp [writeFields, readFields]
    | (key, v) :: fields =>
      rw [writeFields, List.length_cons, List.length_append, List.length_append] at hfuel
      have hv := readValue_write v fuel (writeFields fields ++ text)
        (by simp only [List.length_cons] at hfuel; omega) (endsNumber_fields fields text)
      have hfields := readFields_write fields fuel text (by omega)
      have hkey := readKey_quote key (v.write ++ (writeFields fields ++ text))
      simp [writeFields, readFields, hkey, hv, hfields]
end

/-- **Texts of values.** -/
@[simp] theorem read_text (v : Json) : read v.text = some v := by
  have hread := readValue_write v v.write.length [] (Nat.le_refl _) (by simp [EndsNumber])
  rw [List.append_nil] at hread
  rw [read, text, String.toList_ofList, hread]

theorem text_inj {v w : Json} : v.text = w.text ↔ v = w := by
  refine ⟨fun h => ?_, congrArg text⟩
  have hread := read_text v
  rw [h, read_text] at hread
  exact (Option.some.inj hread).symm

end Json

end FeedMux.Library
