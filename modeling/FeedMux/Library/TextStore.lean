import FeedMux.Library.Expiry

/-!
# A store of texts

A store keeps texts only; a counter is the decimal text of its number, and an
increment fails on any other text. It behaves like the store of numbers and
documents as long as no document looks like a number (`represents_run`), and
every store of texts can be read as one of those (`represents_ofTexts`).
-/

namespace FeedMux.Library.KeyValue

structure KeptText where
  text : String
  deadline : Option Nat := none
  deriving DecidableEq, Repr

abbrev TextStore (κ : Type*) := κ → Option KeptText

inductive TextCmd (κ : Type*) where
  | set (key : κ) (text : String)
  | setEx (key : κ) (text : String) (ttlSecs : Nat)
  | incr (key : κ) (amount : Int)
  | del (key : κ)
  deriving DecidableEq, Repr

/-- How numbers are written and read, and documents written. Only the text that is
written for a number is read as one. -/
structure Rendering (δ : Type*) where
  number : Int → String
  read : String → Option Int
  doc : δ → String
  read_number : ∀ n, read (number n) = some n
  number_of_read : ∀ text n, read text = some n → number n = text

variable {κ δ : Type*}

def TextCmd.key : TextCmd κ → κ
  | .set k _ => k
  | .setEx k _ _ => k
  | .incr k _ => k
  | .del k => k

def aliveText (now : Nat) (e : Option KeptText) : Option KeptText :=
  e.filter fun e => e.deadline.all fun d => now ≤ d

def readTextAt (now : Nat) (st : TextStore κ) (k : κ) : Option String :=
  (aliveText now (st k)).map KeptText.text

section
variable (r : Rendering δ)

/-- Numbers grow without bound. Redis also leaves the text alone where the number or
the sum does not fit 64 bits. -/
def TextCmd.effectAt (now : Nat) : TextCmd κ → Option KeptText → Option KeptText
  | .set _ text, _ => some ⟨text, none⟩
  | .setEx _ text ttlSecs, _ => some ⟨text, some (now + ttlSecs * ticksPerSecond)⟩
  | .incr _ n, none => some ⟨r.number n, none⟩
  | .incr _ n, some e =>
    match r.read e.text with
    | some m => some ⟨r.number (m + n), e.deadline⟩
    | none => some e
  | .del _, _ => none

variable [DecidableEq κ]

def TextCmd.execAt (now : Nat) (st : TextStore κ) (c : TextCmd κ) : TextStore κ :=
  Function.update st c.key (c.effectAt r now (aliveText now (st c.key)))

def execTexts (st : TextStore κ) (cmds : List (Nat × TextCmd κ)) : TextStore κ :=
  cmds.foldl (fun st e => e.2.execAt r e.1 st) st

theorem execTexts_concat (st : TextStore κ) (cmds : List (Nat × TextCmd κ))
    (e : Nat × TextCmd κ) :
    execTexts r st (cmds ++ [e]) = e.2.execAt r e.1 (execTexts r st cmds) := by
  simp [execTexts]

end

/-! ## Representation -/

section
variable (r : Rendering δ)

def Value.text : Value δ → String
  | .int n => r.number n
  | .doc d => r.doc d

def Cmd.text : Cmd κ δ → TextCmd κ
  | .set k v => .set k (v.text r)
  | .setEx k v ttlSecs => .setEx k (v.text r) ttlSecs
  | .incr k n => .incr k n
  | .del k => .del k

/-- No document that is taken for a number. -/
def Value.Plain : Value δ → Prop
  | .int _ => True
  | .doc d => r.read (r.doc d) = none

def Cmd.Plain : Cmd κ δ → Prop
  | .set _ v | .setEx _ v _ => v.Plain r
  | .incr _ _ | .del _ => True

def Kept.text (e : Kept δ) : KeptText := ⟨e.value.text r, e.deadline⟩

/-- The texts of the entries, which are plain. -/
structure Represents (st : TimedStore κ δ) (texts : TextStore κ) : Prop where
  texts : ∀ k, texts k = (st k).map (Kept.text r)
  plain : ∀ k, ∀ e ∈ st k, e.value.Plain r

/-- What a store of texts says; `literal` makes a document of a text. -/
def ofTexts (literal : String → δ) (texts : TextStore κ) : TimedStore κ δ := fun k =>
  (texts k).map fun e =>
    ⟨match r.read e.text with
      | some n => .int n
      | none => .doc (literal e.text), e.deadline⟩

end

section
variable {r : Rendering δ}

theorem represents_ofTexts {literal : String → δ} (h : ∀ text, r.doc (literal text) = text)
    (texts : TextStore κ) : Represents r (ofTexts r literal texts) texts := by
  constructor
  · intro k
    unfold ofTexts
    cases texts k with
    | none => rfl
    | some e =>
      cases hread : r.read e.text with
      | none => simp [Kept.text, Value.text, hread, h]
      | some n => simp [Kept.text, Value.text, hread, r.number_of_read e.text n hread]
  · intro k e he
    obtain ⟨e', -, rfl⟩ := Option.mem_map.mp he
    cases hread : r.read e'.text with
    | none => simp [Value.Plain, h, hread]
    | some n => simp [Value.Plain]

theorem alive_text (now : Nat) (e : Option (Kept δ)) :
    aliveText now (e.map (Kept.text r)) = (alive now e).map (Kept.text r) := by
  cases e with
  | none => rfl
  | some e =>
    obtain ⟨v, deadline⟩ := e
    cases deadline with
    | none => simp [aliveText, alive, Kept.AliveAt, Kept.text]
    | some d => by_cases h : now ≤ d <;> simp [aliveText, alive, Kept.AliveAt, Kept.text, h]

theorem alive_mem {now : Nat} {e : Option (Kept δ)} {x : Kept δ} (h : x ∈ alive now e) :
    x ∈ e := by
  cases e with
  | none => cases h
  | some e =>
    by_cases ha : e.AliveAt now
    · simpa [alive, ha] using h
    · simp [alive, ha] at h

/-- A command does to a text what it does to the entry. -/
theorem effectAt_text (now : Nat) (c : Cmd κ δ) {e : Option (Kept δ)}
    (he : ∀ x ∈ e, x.value.Plain r) :
    (c.text r).effectAt r now (e.map (Kept.text r)) =
      (c.effectAt now e).map (Kept.text r) := by
  cases c with
  | set k v => rfl
  | setEx k v ttlSecs => rfl
  | del k => rfl
  | incr k n =>
    cases e with
    | none => rfl
    | some x =>
      obtain ⟨v, deadline⟩ := x
      cases v with
      | int m => simp [Cmd.text, TextCmd.effectAt, Cmd.effectAt, Kept.text, Value.text,
          r.read_number]
      | doc d =>
        have hd : r.read (r.doc d) = none := he _ rfl
        simp [Cmd.text, TextCmd.effectAt, Cmd.effectAt, Kept.text, Value.text, hd]

theorem effectAt_plain (now : Nat) {c : Cmd κ δ} (hc : c.Plain r) {e : Option (Kept δ)}
    (he : ∀ x ∈ e, x.value.Plain r) : ∀ x ∈ c.effectAt now e, x.value.Plain r := by
  intro x hx
  cases c with
  | set k v =>
    obtain rfl := Option.some.inj hx
    exact hc
  | setEx k v ttlSecs =>
    obtain rfl := Option.some.inj hx
    exact hc
  | del k => cases hx
  | incr k n =>
    cases e with
    | none =>
      obtain rfl := Option.some.inj hx
      trivial
    | some y =>
      have hy := he y rfl
      obtain ⟨v, deadline⟩ := y
      cases v with
      | int m =>
        obtain rfl := Option.some.inj hx
        trivial
      | doc d =>
        obtain rfl := Option.some.inj hx
        exact hy

variable {st : TimedStore κ δ} {texts : TextStore κ}

theorem Represents.readAt (h : Represents r st texts) (now : Nat) (k : κ) :
    readTextAt now texts k = (readAt now st k).map (Value.text r) := by
  rw [readTextAt, h.texts, alive_text, KeyValue.readAt, Option.map_map, Option.map_map]
  rfl

variable [DecidableEq κ]

theorem Represents.exec (h : Represents r st texts) (now : Nat) {c : Cmd κ δ}
    (hc : c.Plain r) : Represents r (c.execAt now st) ((c.text r).execAt r now texts) := by
  have hkey : (c.text r).key = c.key := by cases c <;> rfl
  have halive : ∀ x ∈ alive now (st c.key), x.value.Plain r :=
    fun x hx => h.plain c.key x (alive_mem hx)
  constructor
  · intro k
    unfold TextCmd.execAt Cmd.execAt
    by_cases hk : k = c.key
    · subst hk
      rw [hkey, Function.update_self, Function.update_self, h.texts, alive_text,
        effectAt_text now c halive]
    · rw [hkey, Function.update_of_ne hk, Function.update_of_ne hk, h.texts]
  · intro k e he
    by_cases hk : k = c.key
    · subst hk
      rw [Cmd.execAt_own] at he
      exact effectAt_plain now hc halive e he
    · rw [Cmd.execAt_frame (Ne.symm hk)] at he
      exact h.plain k e he

/-- **Texts.** Plain commands do the same to the texts and to what they stand for. -/
theorem Represents.run (h : Represents r st texts) {cmds : TimedCmds κ δ}
    (hc : ∀ e ∈ cmds, e.2.Plain r) :
    Represents r (execTimed st cmds)
      (execTexts r texts (cmds.map fun e => (e.1, e.2.text r))) := by
  induction cmds using List.reverseRecOn with
  | nil => exact h
  | append_singleton cmds e ih =>
    rw [execTimed_concat, List.map_append]
    simp only [List.map_cons, List.map_nil]
    rw [execTexts_concat]
    exact (ih fun e' he' => hc e' (List.mem_append_left _ he')).exec e.1 (hc e (by simp))

end

end FeedMux.Library.KeyValue
